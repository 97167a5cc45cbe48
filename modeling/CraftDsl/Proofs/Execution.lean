import CraftDsl.Parse
import CraftDsl.Proofs.Follows

/-!
The parser that runs does what the outcome of its production says, for productions that pass the check
for tidiness. Main statements: `exec_follows`, `parse_eq`.
-/
namespace CraftDsl

namespace Parser

def Faithful (x : Production) : Prop :=
  ∀ ⦃t : Trim⦄ ⦃e : Exits Trim⦄ ⦃p : Parser⦄, x.tidy t = some e → p.Fits t → p.builder.Sound →
    (x.run p.view).faults = [] → p.Follows t e (x.run p.view) (x.exec p)

theorem faithful_within {body : Production} (inner : Faithful body) (kind : NodeKind) :
    Faithful (.within kind body) := by
  intro t e p checked fits sound clear
  rcases Option.ite_none_right_eq_some.mp checked with ⟨guard, found⟩
  rcases Bool.and_eq_true_iff.mp guard with ⟨flushed, closed⟩
  have aside := fits.flushed flushed
  have base := startNode_flushed aside kind
  have opened : (p.startNode kind).Fits t := by
    rw [base]
    exact fits.level ⟨rfl, rfl, rfl⟩
  have seen : (p.startNode kind).view = p.view := by
    rw [base]
    rfl
  have follows := inner found opened (startNode_sound aside sound kind) (by rw [seen]; exact clear)
  rw [seen] at follows
  exact follows.within aside (body.run_sealed closed _)

theorem faithful_scope {body : Production} (inner : Faithful body) : Faithful (.scope body) := by
  intro t e p checked fits sound clear
  rcases Option.bind_eq_some_iff.mp checked with ⟨f, found, ended⟩
  rcases Option.ite_none_right_eq_some.mp ended with ⟨counted, result⟩
  cases result
  have fresh : Parser.Fits { p with opened := 0 } { t with uncounted := 0 } :=
    ⟨fits.kept, fits.poised, fits.flushed⟩
  have follows := inner (p := { p with opened := 0 }) found fresh sound clear
  apply follows.closed
  intro u member
  simp only [List.all_eq_true, decide_eq_true_eq] at counted
  exact counted u (Exits.mem_append_of_after member)

theorem faithful_seq {first second : Production} (one : Faithful first) (two : Faithful second) :
    Faithful (.seq first second) := by
  intro t e p checked fits sound clear
  rcases Option.bind_eq_some_iff.mp checked with ⟨f, found, collected⟩
  rcases Outcome.andThen_clear clear with ⟨first_clear, second_clear⟩
  have start := one found fits sound first_clear
  rw [← start.mirrors.cursor] at second_clear
  apply start.andThen _ start.any collected
  intro u g stepped exit
  exact two stepped exit (start.sound sound) second_clear

theorem faithful_branch {question yes no : Production} (asking : Faithful question)
    (affirming : Faithful yes) (denying : Faithful no) : Faithful (.branch question yes no) := by
  intro t e p checked fits sound clear
  rcases Option.bind_eq_some_iff.mp checked with ⟨asked, found, rest⟩
  rcases Option.bind_eq_some_iff.mp rest with ⟨f, yes_collected, last⟩
  rcases Option.map_eq_some_iff.mp last with ⟨g, no_collected, rfl⟩
  rcases Outcome.andThen_clear clear with ⟨first_clear, second_clear⟩
  have start := asking found fits sound first_clear
  rw [← start.mirrors.cursor] at second_clear
  have answer := start.answer
  have exit := start.exits
  cases answered : (question.run p.view).answer with
  | true =>
    rw [answered] at exit answer
    rw [if_pos answered] at second_clear
    refine (start.andThen _ exit yes_collected ?_).widen ?_
    · intro u h stepped fits
      rw [Production.exec_yes answer, if_pos answered]
      exact affirming stepped fits (start.sound sound) second_clear
    · intro holds answer upward covers
      exact upward.union (.inl covers)
  | false =>
    rw [answered] at exit answer
    rw [if_neg (Bool.eq_false_iff.mp answered)] at second_clear
    refine (start.andThen _ exit no_collected ?_).widen ?_
    · intro u h stepped fits
      rw [Production.exec_no answer, if_neg (Bool.eq_false_iff.mp answered)]
      exact denying stepped fits (start.sound sound) second_clear
    · intro holds answer upward covers
      exact upward.union (.inr covers)

/-- Rounds from parsers that fit one of the states each follow the rounds of the cursor. -/
theorem repeated_follows (round : Parser → Bool × Parser) (run : Cursor → Outcome)
    {step : Trim → Option (Exits Trim)} {states ended : List Trim}
    (closed : ∀ t ∈ states, Exits.Leads step states ended t)
    (one : ∀ t e (p : Parser), step t = some e → p.Fits t → p.builder.Sound →
      (run p.view).faults = [] → p.Follows t e (run p.view) (round p))
    (limit : List Token) {t : Trim} (member : t ∈ states) {p : Parser} (fits : p.Fits t)
    (sound : p.builder.Sound) (clear : (Production.rounds run limit p.view).faults = []) :
    p.Follows t ⟨ended, []⟩ (Production.rounds run limit p.view)
      (true, Production.repeated round limit p) := by
  induction limit generalizing t p with
  | nil =>
    rw [Production.rounds] at clear ⊢
    rcases closed t member with ⟨e, stepped, onward, outward⟩
    rcases Outcome.andThen_clear clear with ⟨round_clear, check_clear⟩
    have start := one t e p stepped fits sound round_clear
    -- With no rounds left the loop would have failed its check, had the last one answered yes.
    have stopped : (run p.view).answer = false := by
      cases again : (run p.view).answer with
      | true => simp [again, Outcome.check] at check_clear
      | false => rfl
    have exit := start.exits
    rw [stopped] at exit
    rcases outward _ (keeps_upward _ _) exit with ⟨u, ending, keeps⟩
    have check := follows_check keeps.1 (!(run p.view).answer) .stalled
    simp only [Production.repeated, start.answer]
    apply (start.step _ keeps check).widen
    intro holds answer upward covers
    exact Exits.covers_among [] ending covers
  | cons token limit ih =>
    rw [Production.rounds] at clear ⊢
    rcases closed t member with ⟨e, stepped, onward, outward⟩
    rcases Outcome.andThen_clear clear with ⟨round_clear, rest_clear⟩
    have start := one t e p stepped fits sound round_clear
    have exit := start.exits
    have answer := start.answer
    cases again : (run p.view).answer with
    | true =>
      rw [again] at exit answer
      rcases exit with ⟨u, further, keeps⟩
      rcases onward u further with ⟨v, known, below⟩
      have weaker := keeps_upward _ _ _ _ below keeps
      simp only [again, if_true, ← start.mirrors.cursor] at rest_clear
      apply start.step _ weaker
      simp only [Production.repeated, answer, again, if_true]
      exact ih known weaker.1 (start.sound sound) rest_clear
    | false =>
      rw [again] at exit answer
      rcases outward _ (keeps_upward _ _) exit with ⟨u, ending, keeps⟩
      apply start.step _ keeps
      simp only [Production.repeated, answer, again, Bool.false_eq_true, if_false]
      exact ⟨rfl, mirrors_quiet _ true, u, ending, keeps.1, rfl⟩

theorem faithful_loop {body : Production} (inner : Faithful body) : Faithful (.loop body) := by
  intro t e p checked fits sound clear
  rcases Option.map_eq_some_iff.mp checked with ⟨ended, explored, rfl⟩
  rcases Exits.rounds_closed explored with ⟨states, ⟨u, member, below⟩, closed⟩
  rcases keeps_upward p (p.opened + t.uncounted) _ _ below ⟨fits, rfl⟩ with ⟨fits, level⟩
  have rounds := repeated_follows body.exec body.run closed
    (fun t e q stepped fits sound clear => inner stepped fits sound clear) (p.aside ++ p.ahead)
    member fits sound clear
  have exits := rounds.exits
  rw [level] at exits
  exact ⟨rounds.answer, rounds.mirrors, exits⟩

theorem faithful_block {body : Production} (inner : Faithful body) (what : String) :
    Faithful (.block what body) := by
  intro t e p checked fits sound clear
  rcases Option.map_eq_some_iff.mp checked with ⟨f, found, rfl⟩
  obtain ⟨-, body_clear, -⟩ := Cursor.block_clear clear
  have start := follows_take fits.pass (.single TokenKind.braceOpen) none
  rw [view_pass] at start
  replace start := start.after_pass
  rw [← start.mirrors.cursor] at body_clear
  have begun := start.exits
  rw [Cursor.take_answer] at begun
  rcases begun with ⟨u, member, taken⟩
  have only : u = t.taken := List.mem_singleton.mp member
  rw [only] at taken
  have inside := inner found taken.1 (start.sound sound) body_clear
  rcases inside.any with ⟨v, among, keeps⟩
  have closed : v.taken ∈ f.all.map Trim.taken := List.mem_map_of_mem among
  have closing := follows_closeBlock keeps.1 what p.view.spanAhead closed
  have whole := start.step
    (fun _ c => (body.run c).andThen fun _ c => c.closeBlock what p.view.spanAhead) taken
    (inside.step (fun _ c => c.closeBlock what p.view.spanAhead) keeps closing)
  show p.Follows t _ _ ((body.exec (p.span.2.take (.single TokenKind.braceOpen) none)).2.closeBlock
    what p.span.1)
  rw [span_eq fits.kept]
  exact whole

/-- The longer form of a node, which has `rest` after the answer yes. -/
theorem follows_longer {p : Parser} {t : Trim} {e f : Exits Trim} {o : Outcome}
    {reply : Bool × Parser} {rest : Production} (going : Faithful rest) {kind : NodeKind}
    (flushed : p.aside = []) (sound : p.builder.Sound)
    (adopted : (p.startNode kind).Follows t e o reply) (answer : o.answer = true)
    (start_sealed : openings o.pieces = 0) (rest_sealed : rest.isSealed = true)
    (collected : Exits.collect rest.tidy e.yes = some f) (clear : (rest.run o.cursor).faults = []) :
    p.Follows t ⟨f.all, []⟩
      (((o.andThen fun _ c => rest.run c).andThen fun _ c => .quiet true c).wrapped kind)
      (true, (rest.exec reply.2).2.finishNode) := by
  have exit := adopted.exits
  rw [answer] at exit
  have gone : (p.startNode kind).Follows t f (o.andThen fun _ c => rest.run c)
      (rest.exec reply.2) := by
    apply adopted.andThen _ exit collected
    intro u g stepped fits
    apply going stepped fits (adopted.sound (startNode_sound flushed sound kind))
    rw [adopted.mirrors.cursor]
    exact clear
  have whole_sealed : openings ((o.andThen fun _ c => rest.run c).andThen
      fun _ c => .quiet true c).pieces = 0 := by
    simp [start_sealed, rest.run_sealed rest_sealed]
  exact gone.agree.within flushed whole_sealed

theorem faithful_wrap {first question rest : Production} (starting : Faithful first)
    (asking : Faithful question) (going : Faithful rest) (yes no : NodeKind) :
    Faithful (.wrap yes no first question rest) := by
  intro t e p checked fits sound clear
  rcases Option.ite_none_right_eq_some.mp checked with ⟨guard, steps⟩
  simp only [Bool.and_eq_true] at guard
  rcases guard with ⟨⟨⟨flushed, first_sealed⟩, question_sealed⟩, rest_sealed⟩
  rcases Option.bind_eq_some_iff.mp steps with ⟨f, found, later⟩
  rcases Option.bind_eq_some_iff.mp later with ⟨asked, questioned, last⟩
  rcases Option.map_eq_some_iff.mp last with ⟨g, collected, rfl⟩
  have aside := fits.flushed flushed
  set q := (first.run p.view).andThen fun _ c => question.run c with q_eq
  set tail : Bool → Cursor → Outcome := fun answer c =>
    if answer then (rest.run c).andThen fun _ c => .quiet true c else .quiet false c
  have parts : (Production.wrap yes no first question rest).run p.view =
      (q.andThen tail).wrapped (if (q.andThen tail).answer then yes else no) := by
    rw [q_eq, Outcome.andThen_assoc]
    rfl
  rw [parts] at clear ⊢
  have whole_clear : (q.andThen tail).faults = [] := clear
  rcases Outcome.andThen_clear whole_clear with ⟨q_clear, tail_clear⟩
  rcases Outcome.andThen_clear q_clear with ⟨first_clear, question_clear⟩
  have start := starting found fits sound first_clear
  rw [← start.mirrors.cursor] at question_clear
  have begun : p.Follows t asked q (question.exec (first.exec p).2) := by
    apply start.andThen _ start.any questioned
    intro u h stepped fits
    exact asking stepped fits (start.sound sound) question_clear
  have q_sealed : openings q.pieces = 0 := by
    simp [q_eq, first.run_sealed first_sealed, question.run_sealed question_sealed]
  have answer := begun.answer
  cases answered : q.answer with
  | true =>
    have whole : q.andThen tail =
        (q.andThen fun _ c => rest.run c).andThen fun _ c => .quiet true c := by
      simp [Outcome.andThen, tail, answered]
    have adopted := begun.adopt aside sound q_sealed yes .misjudged
    rw [answered] at answer
    simp only [tail, answered, if_true] at tail_clear
    have long := follows_longer going aside sound adopted answered q_sealed rest_sealed collected
      (Outcome.andThen_clear tail_clear).1
    rw [whole]
    rw [Production.exec_wrap, settle_flushed aside]
    simp only [answer, if_true]
    exact ⟨long.answer, long.mirrors, Exits.covers_yes asked.no long.exits⟩
  | false =>
    have whole : q.andThen tail = q.andThen fun _ c => .quiet false c := by
      simp [Outcome.andThen, tail, answered]
    have adopted := begun.adopt aside sound q_sealed no .misjudged
    have whole_sealed : openings (q.andThen fun _ c => .quiet false c).pieces = 0 := by
      simp [q_sealed]
    have short := (adopted.refuse answered).within aside whole_sealed
    rw [answered] at answer
    rw [whole]
    rw [Production.exec_wrap, settle_flushed aside]
    simp only [answer, Bool.false_eq_true, if_false]
    exact ⟨short.answer, short.mirrors, Exits.covers_no g.all short.exits⟩

theorem exec_follows (x : Production) : Faithful x := by
  induction x with
  | answer value =>
    intro t e p checked fits sound clear
    cases checked
    exact follows_quiet fits value
  | look n among =>
    intro t e p checked fits sound clear
    cases n with
    | zero =>
      cases checked
      exact follows_look fits among
    | succ n =>
      cases checked
      exact follows_peek fits n among
  | glance n among =>
    intro t e p checked fits sound clear
    cases checked
    exact follows_glance fits n among
  | demand among =>
    intro t e p checked fits sound clear
    cases checked
    exact follows_demand fits among
  | impossible =>
    intro t e p checked fits sound clear
    exact absurd clear (List.cons_ne_nil _ _)
  | take among =>
    intro t e p checked fits sound clear
    cases checked
    exact follows_take fits among none
  | name =>
    intro t e p checked fits sound clear
    cases checked
    exact follows_take fits .words (some .identifier)
  | pass =>
    intro t e p checked fits sound clear
    cases checked
    exact follows_pass fits
  | settle =>
    intro t e p checked fits sound clear
    rcases Option.ite_none_right_eq_some.mp checked with ⟨poised, found⟩
    cases found
    exact follows_settle fits poised
  | within kind body ih => exact faithful_within ih kind
  | into kind =>
    intro t e p checked fits sound clear
    rcases Option.ite_none_right_eq_some.mp checked with ⟨flushed, found⟩
    cases found
    exact follows_into fits flushed kind
  | count opened =>
    intro t e p checked fits sound clear
    rcases Option.ite_none_right_eq_some.mp checked with ⟨enough, found⟩
    cases found
    exact follows_count fits enough
  | scope body ih => exact faithful_scope ih
  | wrap yes no first question rest first_ih question_ih rest_ih =>
    exact faithful_wrap first_ih question_ih rest_ih yes no
  | seq first second first_ih second_ih => exact faithful_seq first_ih second_ih
  | branch question yes no question_ih yes_ih no_ih =>
    exact faithful_branch question_ih yes_ih no_ih
  | loop body ih => exact faithful_loop ih
  | missing kind message =>
    intro t e p checked fits sound clear
    cases checked
    exact follows_missing fits kind message
  | skip complaint =>
    intro t e p checked fits sound clear
    cases checked
    exact follows_skip fits complaint
  | block what body ih => exact faithful_block ih what

end Parser

theorem sourceFile_tidy :
    Production.sourceFile.tidy ⟨false, true, 0⟩ = some ⟨[⟨true, true, 0⟩], []⟩ := by
  decide +kernel

def parsed (tokens : List Token) : Outcome := Production.sourceFile.run (.start tokens)

theorem parsed_pieces (tokens : List Token) :
    ∃ trees, (parsed tokens).pieces = [.tree (.node .sourceFile trees)] := ⟨_, rfl⟩

theorem Parser.start_follows (tokens : List Token) (clear : (parsed tokens).faults = []) :
    (Parser.start tokens).Follows ⟨false, true, 0⟩ ⟨[⟨true, true, 0⟩], []⟩ (parsed tokens)
      (Production.sourceFile.exec (.start tokens)) := by
  have fits : (Parser.start tokens).Fits ⟨false, true, 0⟩ :=
    ⟨Parser.kept_of_flushed rfl, fun known => Bool.noConfusion known, fun _ => rfl⟩
  have sound : (Parser.start tokens).builder.Sound := by
    intro parent member
    simp [Parser.start, Builder.empty] at member
  exact Parser.exec_follows _ sourceFile_tidy fits sound clear

/-- A parse is what its outcome says, if that passes all checks. -/
theorem parse_eq (source : List Char) (trees : List Tree)
    (root : (parsed (lex source)).pieces = [.tree (.node .sourceFile trees)])
    (clear : (parsed (lex source)).faults = []) :
    parse source =
      { source
        tree := .node .sourceFile trees
        diagnostics := Diagnostic.lexical (lex source) ++ (parsed (lex source)).reports
        faults := [] } := by
  have follows := Parser.start_follows (lex source) clear
  rcases follows.exits with ⟨u, member, fits, -⟩
  set q := (Production.sourceFile.exec (.start (lex source))).2 with q_eq
  have flushed : q.aside = [] := by
    have only : u = ⟨true, true, 0⟩ := List.mem_singleton.mp (Exits.mem_append_of_after member)
    exact fits.flushed (by rw [only])
  have built : q.builder = ⟨[], #[.node .sourceFile trees]⟩ := by
    rw [follows.mirrors.builder, root]
    rfl
  have reports : q.reports = (parsed (lex source)).reports.reverse := by
    rw [follows.mirrors.reports]
    exact List.append_nil _
  have faults : q.faults = [] := by
    rw [follows.mirrors.faults, clear]
    rfl
  simp [parse, ← q_eq, Parser.settle_flushed flushed, built, Builder.root?, reports, faults,
    Parser.check]

end CraftDsl
