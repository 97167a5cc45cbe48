import CraftDsl.Proofs.BlankLines.Insertion

/-!
Newlines that one of two sources leaves out. Where the newlines come next in the first source, a
production may see a newline there and a further token in the second. It goes in step all the same if a
newline there makes it leave an error node, or if it takes nothing there and the further token is none
it waits for. Main statements: `at_newline`, `joins_seq`, `joins_ask`.
-/
namespace CraftDsl

def solids (tokens : List Token) : List Token := tokens.filter fun token => !token.isTrivia

theorem solids_append (first second : List Token) :
    solids (first ++ second) = solids first ++ solids second := List.filter_append ..

theorem solids_trivia {tokens : List Token} (trivia : ∀ token ∈ tokens, token.isTrivia = true) :
    solids tokens = [] := by
  rw [solids, List.filter_eq_nil_iff]
  intro token member
  simp [trivia token member]

theorem solids_cons {token : Token} (tokens : List Token) (solid : token.isTrivia = false) :
    solids (token :: tokens) = token :: solids tokens := List.filter_cons_of_pos (by simp [solid])

theorem kindIn_solids (n : Nat) (tokens : List Token) :
    kindIn n tokens = ((solids tokens).map Token.kind)[n]?.getD .endOfInput := by
  rw [Token.kindIn_solid 0, solids, ← Token.solid_tokens 0, List.map_map]
  rfl

namespace Cursor

variable {c : Cursor} {token : Token} {tokens : List Token}

theorem kindAhead_solids (c : Cursor) (n : Nat) :
    c.kindAhead n = ((solids c.ahead).map Token.kind)[n]?.getD .endOfInput :=
  kindIn_solids n c.ahead

theorem solids_due (c : Cursor) : solids c.due = solids c.ahead := by
  conv_rhs => rw [c.ahead_eq]
  rw [solids_append, solids_trivia c.pending_trivia, List.nil_append]

theorem solids_of_due (due : c.due = token :: tokens) : solids c.ahead = token :: solids tokens := by
  rw [← c.solids_due, due, solids_cons _ (c.due_cons due).1]

theorem due_of_solids {rest : List Token} (first : solids c.ahead = token :: rest) :
    ∃ tokens, c.due = token :: tokens ∧ solids tokens = rest := by
  cases due : c.due with
  | nil =>
    rw [← c.solids_due, due] at first
    cases first
  | cons next tokens =>
    rw [solids_of_due due] at first
    obtain ⟨rfl, rest⟩ := List.cons.inj first
    exact ⟨tokens, rfl, rest⟩

end Cursor

def firstKind (tokens : List Token) : TokenKind := (tokens.map Token.kind)[0]?.getD .endOfInput

def Stands (later tokens : List Token) : Prop :=
  ∃ lines, lines ≠ [] ∧ (∀ line ∈ lines, line.kind = .newline) ∧ tokens = lines ++ later

/-- The second tokens are the first, or the first without newlines that come before the later tokens
there. What comes right before these newlines is no comma. -/
def Lag (later first second : List Token) : Prop :=
  second = first ∨ ∃ before lines, first = before ++ (lines ++ later) ∧ second = before ++ later ∧
    lines ≠ [] ∧ (∀ line ∈ lines, line.kind = .newline) ∧ ∀ last ∈ before.getLast?, last.kind ≠ .comma

section

variable {later first second : List Token}

theorem Stands.next (stands : Stands later first) : firstKind first = .newline := by
  obtain ⟨lines, some, newline, rfl⟩ := stands
  obtain ⟨line, lines, rfl⟩ := List.exists_cons_of_ne_nil some
  exact newline line List.mem_cons_self

theorem Stands.step {line : Token} {rest : List Token} (stands : Stands later (line :: rest)) :
    line.kind = .newline ∧ (rest = later ∨ Stands later rest) := by
  obtain ⟨lines, some, newline, split⟩ := stands
  obtain ⟨first, lines, rfl⟩ := List.exists_cons_of_ne_nil some
  obtain ⟨rfl, rfl⟩ := List.cons.inj split
  obtain ⟨kind, others⟩ := List.forall_mem_cons.mp newline
  refine ⟨kind, ?_⟩
  by_cases none : lines = []
  · exact .inl (by subst none; rfl)
  · exact .inr ⟨lines, none, others, rfl⟩

theorem Stands.lag (stands : Stands later first) : Lag later first later := by
  obtain ⟨lines, some, newline, rfl⟩ := stands
  exact .inr ⟨[], lines, rfl, rfl, some, newline, nofun⟩

namespace Lag

/-- The same token comes first, or none does, or the newlines come that are left out. After a comma the
next token is the same, too. -/
theorem cases (lag : Lag later first second) :
    (∃ token rest rest', first = token :: rest ∧ second = token :: rest' ∧ Lag later rest rest' ∧
        (token.kind = .comma → firstKind rest' = firstKind rest)) ∨
      first = [] ∧ second = [] ∨ Stands later first ∧ second = later := by
  rcases lag with rfl | ⟨before, lines, rfl, rfl, some, newline, inline⟩
  · cases second with
    | nil => exact .inr (.inl ⟨rfl, rfl⟩)
    | cons token rest => exact .inl ⟨token, rest, rest, rfl, rfl, .inl rfl, fun _ => rfl⟩
  · cases before with
    | nil => exact .inr (.inr ⟨⟨lines, some, newline, rfl⟩, rfl⟩)
    | cons token before =>
      refine .inl ⟨token, before ++ (lines ++ later), before ++ later, rfl, rfl,
        .inr ⟨before, lines, rfl, rfl, some, newline, fun last found => inline last ?_⟩, ?_⟩
      · rw [List.getLast?_cons, Option.mem_def.mp found]
        rfl
      · intro comma
        cases before with
        | nil => exact absurd comma (inline token rfl)
        | cons next before => rfl

theorem next (lag : Lag later first second) :
    firstKind second = firstKind first ∨ Stands later first ∧ second = later := by
  rcases lag.cases with ⟨token, rest, rest', rfl, rfl, -, -⟩ | ⟨rfl, rfl⟩ | stands
  · exact .inl rfl
  · exact .inl rfl
  · exact .inr stands

end Lag

end

/-- Places that are apart by the newlines that are left out, on the way to an outcome without error
nodes. -/
def lagging (later : List Token) : Pace where
  near c d := Lag later (solids c.ahead) (solids d.ahead)
  known := Outcome.Clean
  parts := Outcome.Clean.andThen
  inside := Outcome.Clean.wrapped
  before := Outcome.Clean.closed

namespace Production

mutual

/-- Whether a newline that comes next is in the way: the production cannot do without an error node
there. -/
def balks : Production → Bool
  | take among | demand among => !among.has TokenKind.newline
  | name | impossible | missing _ _ | skip _ | block _ _ => true
  | within _ body | scope body => body.balks
  | seq first second => first.balks || first.idles && second.balks
  | branch question yes no =>
    match question.asks? with
    | some among => if among.has TokenKind.newline then yes.balks else no.balks
    | none => question.balks
  | _ => false

/-- Whether the production takes nothing where a newline comes next, unless that is in the way. -/
def idles : Production → Bool
  | take among | demand among => !among.has TokenKind.newline
  | wrap _ _ _ _ _ => false
  | within _ body | scope body | loop body => body.idles
  | seq first second => first.idles && (first.balks || second.idles)
  | branch question yes no =>
    match question.asks? with
    | some among => if among.has TokenKind.newline then yes.idles else no.idles
    | none => question.idles && (question.balks || yes.idles && no.idles)
  | _ => true

end

/-- At a newline the production leaves no error node: then it does not balk, and takes nothing if it is
idle there. -/
def AtNewline (x : Production) : Prop :=
  ∀ ⦃c : Cursor⦄, c.kindAhead 0 = .newline → (x.run c).faults = [] → (x.run c).Clean →
    x.balks = false ∧ (x.idles = true → solids (x.run c).cursor.ahead = solids c.ahead)

theorem newline_kept {c d : Cursor} (newline : c.kindAhead 0 = .newline)
    (same : solids d.ahead = solids c.ahead) : d.kindAhead 0 = .newline := by
  rw [Cursor.kindAhead_solids, same, ← Cursor.kindAhead_solids, newline]

theorem at_newline_branch {question yes no : Production} (asking : question.AtNewline)
    (affirming : yes.AtNewline) (denying : no.AtNewline) : (branch question yes no).AtNewline := by
  intro c newline clear clean
  obtain ⟨asked, rest⟩ := Outcome.andThen_clear clear
  obtain ⟨clean_first, clean_rest⟩ := clean.andThen
  have after : (branch question yes no).run c = (question.run c).andThen fun answer c =>
      if answer then yes.run c else no.run c := rfl
  cases asks : question.asks? with
  | some among =>
    obtain ⟨answer, -, ahead⟩ := asks_run asks c
    rw [newline] at answer
    have still : (question.run c).cursor.kindAhead 0 = .newline := by
      rw [Cursor.kindAhead, ahead]
      exact newline
    rw [after, Outcome.andThen, answer, balks, idles, asks, ← ahead]
    rw [answer] at rest clean_rest
    by_cases there : among.has (.token .newline) = true
    · simp only [there, if_true] at rest clean_rest ⊢
      exact affirming still rest clean_rest
    · simp only [there] at rest clean_rest ⊢
      exact denying still rest clean_rest
  | none =>
    obtain ⟨goes_on, idly⟩ := asking newline asked clean_first
    rw [after, Outcome.andThen, balks, idles, asks]
    refine ⟨goes_on, fun calm => ?_⟩
    simp only [goes_on, Bool.false_or, Bool.and_eq_true] at calm
    have first := idly calm.1
    have still := newline_kept newline first
    rw [← first]
    by_cases answer : (question.run c).answer = true
    · rw [if_pos answer] at rest clean_rest
      simp only [answer, if_true]
      exact (affirming still rest clean_rest).2 calm.2.1
    · rw [if_neg answer] at rest clean_rest
      simp only [answer]
      exact (denying still rest clean_rest).2 calm.2.2

theorem rounds_idle {round : Cursor → Outcome} {limit : List Token} {c : Cursor}
    (inner : ∀ ⦃c : Cursor⦄, c.kindAhead 0 = .newline → (round c).faults = [] → (round c).Clean →
      solids (round c).cursor.ahead = solids c.ahead)
    (newline : c.kindAhead 0 = .newline) (clear : (rounds round limit c).faults = [])
    (clean : (rounds round limit c).Clean) :
    solids (rounds round limit c).cursor.ahead = solids c.ahead := by
  induction limit generalizing c with
  | nil => exact inner newline (Outcome.andThen_clear clear).1 clean.andThen.1
  | cons token limit ih =>
    obtain ⟨one, rest⟩ := Outcome.andThen_clear clear
    obtain ⟨clean_first, clean_rest⟩ := clean.andThen
    have first := inner newline one clean_first
    rw [rounds, Outcome.andThen, ← first]
    by_cases again : (round c).answer = true
    · rw [if_pos again] at rest clean_rest
      simp only [again, if_true]
      exact ih (newline_kept newline first) rest clean_rest
    · simp only [again]
      rfl

theorem at_newline (x : Production) : x.AtNewline := by
  have taken {among : KindSet} {retag : Option TokenKind} {c : Cursor}
      (newline : c.kindAhead 0 = .newline) (clear : (c.take among retag).faults = []) :
      among.has TokenKind.newline = true := by
    obtain ⟨token, tokens, due⟩ := Cursor.due_of_take clear
    rw [← newline, (c.due_cons due).2.1]
    exact Cursor.has_of_take due clear
  induction x with
  | answer value => exact fun c _ _ _ => ⟨rfl, fun _ => rfl⟩
  | look n among => exact fun c _ _ _ => ⟨rfl, fun _ => rfl⟩
  | glance n among => exact fun c _ _ _ => ⟨rfl, fun _ => rfl⟩
  | demand among =>
    intro c newline clear _
    have found : (c.look 0 among).answer = true := by
      simpa [Outcome.check] using (Outcome.andThen_clear clear).2
    change among.has (c.kindAhead 0) = true at found
    rw [newline] at found
    exact ⟨by rw [balks, found]; rfl, fun _ => rfl⟩
  | impossible => exact fun c _ clear _ => absurd clear (List.cons_ne_nil _ _)
  | take among =>
    intro c newline clear _
    have there := taken newline clear
    exact ⟨by rw [balks, there]; rfl, fun calm => by simp [idles, there] at calm⟩
  | name =>
    intro c newline clear _
    exact absurd (taken newline clear) (by decide)
  | pass => exact fun c _ _ _ => ⟨rfl, fun _ => rfl⟩
  | settle =>
    intro c _ _ _
    refine ⟨rfl, fun _ => ?_⟩
    rw [run, c.settle_eq]
    exact c.solids_due
  | within kind body ih => exact fun c newline clear clean => ih newline clear clean.wrapped
  | into kind => exact fun c _ _ _ => ⟨rfl, fun _ => rfl⟩
  | count opened => exact fun c _ _ _ => ⟨rfl, fun _ => rfl⟩
  | scope body ih => exact fun c newline clear clean => ih newline clear clean.closed
  | wrap yes no first question rest => exact fun c _ _ _ => ⟨rfl, Bool.noConfusion⟩
  | seq first second first_ih second_ih =>
    intro c newline clear clean
    obtain ⟨started, rest⟩ := Outcome.andThen_clear clear
    obtain ⟨clean_first, clean_rest⟩ := clean.andThen
    obtain ⟨goes_on, idly⟩ := first_ih newline started clean_first
    constructor
    · rw [balks, goes_on, Bool.false_or, Bool.and_eq_false_imp]
      exact fun calm => (second_ih (newline_kept newline (idly calm)) rest clean_rest).1
    · intro calm
      simp only [idles, goes_on, Bool.false_or, Bool.and_eq_true] at calm
      have same := idly calm.1
      exact ((second_ih (newline_kept newline same) rest clean_rest).2 calm.2).trans same
  | branch question yes no question_ih yes_ih no_ih =>
    exact at_newline_branch question_ih yes_ih no_ih
  | loop body ih =>
    intro c newline clear clean
    refine ⟨rfl, fun calm => rounds_idle (fun d next one still => ?_) newline clear clean⟩
    exact (ih next one still).2 calm
  | missing kind message => exact fun c _ _ clean => absurd clean (Cursor.missing_unclean kind message)
  | skip complaint =>
    intro c newline _ clean
    exact absurd clean (Cursor.skip_unclean complaint (by rw [newline]; exact TokenKind.noConfusion))
  | block what body =>
    intro c newline clear _
    exact absurd (taken newline (Outcome.andThen_clear clear).1) (by decide)

/-- From places that are apart by the newlines that are left out, the production does the same if it
leaves no error node in the first place. If the newlines come next after it there, more may be supposed
of the later tokens. -/
def Joins (later : List Token) (more : Prop) (idle : Bool) (x : Production) : Prop :=
  ∀ ⦃c d : Cursor⦄, Lag later (solids c.ahead) (solids d.ahead) →
    (x.run c).faults = [] → (x.run d).faults = [] → (x.run c).Clean →
      (Stands later (solids (x.run c).cursor.ahead) → more) →
        (lagging later).Matches idle (x.run c) (x.run d)

section

variable {later : List Token} {more : Prop} {idle : Bool} {c d : Cursor}
  {first second question yes no body : Production}

theorem Joins.mirrors {x : Production} (joins : x.Joins later True idle) :
    x.Mirrors (lagging later) idle x :=
  fun _ _ near clear clear' clean => joins near clear clear' clean fun _ => trivial

theorem Joins.of_mirrors {x : Production} (mirrors : x.Mirrors (lagging later) idle x) :
    x.Joins later more idle :=
  fun _ _ near clear clear' clean _ => mirrors near clear clear' clean

theorem lag_next (lag : Lag later (solids c.ahead) (solids d.ahead)) :
    d.kindAhead 0 = c.kindAhead 0 ∨
      Stands later (solids c.ahead) ∧ c.kindAhead 0 = .newline ∧ d.kindAhead 0 = firstKind later := by
  rcases lag.next with same | ⟨stands, rest⟩
  · exact .inl (by rwa [d.kindAhead_solids, c.kindAhead_solids])
  · exact .inr ⟨stands, by rw [c.kindAhead_solids]; exact stands.next,
      by rw [d.kindAhead_solids, rest]; rfl⟩

/-- Where the same comes next, the same token is taken. After a comma the same comes next again. -/
theorem lag_take {among : KindSet} {retag : Option TokenKind} (other : c.kindAhead 0 ≠ .newline)
    (lag : Lag later (solids c.ahead) (solids d.ahead)) (clear : (c.take among retag).faults = []) :
    (lagging later).Matches false (c.take among retag) (d.take among retag) ∧
      (c.kindAhead 0 = .comma →
        (d.take among retag).cursor.kindAhead 0 = (c.take among retag).cursor.kindAhead 0) := by
  obtain ⟨token, tokens, due⟩ := Cursor.due_of_take clear
  have here := Cursor.solids_of_due due
  rcases lag.cases with ⟨taken, rest, rest', first, second, near, comma⟩ | ⟨none, -⟩ | ⟨stands, -⟩
  · obtain ⟨rfl, rfl⟩ := List.cons.inj (here.symm.trans first)
    obtain ⟨tokens', due', rfl⟩ := Cursor.due_of_solids second
    rw [c.take_eq among retag due, d.take_eq among retag due']
    refine ⟨⟨.inr rfl, ?_, near⟩, fun next => ?_⟩
    · simp only [corePieces_append, corePieces_pending]
    · rw [Cursor.kindAhead_solids, Cursor.kindAhead_solids]
      exact comma ((c.due_cons due).2.1.symm.trans next)
  · rw [here] at none
    cases none
  · exact absurd (c.kindAhead_solids 0 ▸ stands.next) other

theorem joins_take {among : KindSet} {retag : Option TokenKind}
    (other : among.has TokenKind.newline = false)
    (lag : Lag later (solids c.ahead) (solids d.ahead)) (clear : (c.take among retag).faults = []) :
    (lagging later).Matches idle (c.take among retag) (d.take among retag) := by
  refine (lag_take (fun newline => ?_) lag clear).1.idly idle
  obtain ⟨token, tokens, due⟩ := Cursor.due_of_take clear
  have member := Cursor.has_of_take due clear
  rw [← (c.due_cons due).2.1, newline, other] at member
  cases member

theorem lagging_still {o p : Outcome} (lag : Lag later (solids c.ahead) (solids d.ahead))
    (still : o.pieces = [] ∧ o.cursor.ahead = c.ahead)
    (still' : p.pieces = [] ∧ p.cursor.ahead = d.ahead)
    (answer : idle = true ∨ p.answer = o.answer) : (lagging later).Matches idle o p := by
  refine ⟨answer, by rw [still.1, still'.1], ?_⟩
  show Lag later (solids _) (solids _)
  rw [still.2, still'.2]
  exact lag

theorem joins_still {x : Production}
    (still : ∀ c : Cursor, (x.run c).pieces = [] ∧ (x.run c).cursor.ahead = c.ahead)
    (answers : idle = true ∨ ∀ c d : Cursor, (x.run d).answer = (x.run c).answer) :
    x.Joins later more idle :=
  fun c d lag _ _ _ _ => lagging_still lag (still c) (still d) (answers.imp_right fun same => same c d)

theorem joins_answer (value : Bool) : (answer value).Joins later more idle :=
  joins_still (fun _ => ⟨rfl, rfl⟩) (.inr fun _ _ => rfl)

theorem joins_settle : settle.Joins later more idle := by
  intro c d lag _ _ _ _
  rw [run, run, c.settle_eq, d.settle_eq]
  refine ⟨.inr rfl, by rw [corePieces_pending, corePieces_pending], ?_⟩
  show Lag later (solids c.due) (solids d.due)
  rw [c.solids_due, d.solids_due]
  exact lag

theorem joins_missing (kind : DiagnosticKind) (message : String) :
    (missing kind message).Joins later more idle :=
  fun _ _ _ _ _ clean _ => absurd clean (Cursor.missing_unclean kind message)

theorem joins_impossible : impossible.Joins later more idle :=
  fun _ _ _ clear _ _ _ => absurd clear (List.cons_ne_nil _ _)

theorem joins_within (inner : body.Joins later more idle) (kind : NodeKind) :
    (within kind body).Joins later more idle :=
  fun _ _ lag clear clear' clean last => (inner lag clear clear' clean.wrapped last).wrapped kind

/-- What is supposed after the first follows where the newlines come next between the two. -/
theorem joins_seq {between : Prop} (one : first.Joins later between true)
    (two : second.Joins later more idle)
    (back : ∀ ⦃c : Cursor⦄, Stands later (solids c.ahead) → (second.run c).faults = [] →
      (second.run c).Clean → (Stands later (solids (second.run c).cursor.ahead) → more) → between) :
    (seq first second).Joins later more idle := by
  intro c d lag clear clear' clean last
  obtain ⟨started, rest⟩ := Outcome.andThen_clear clear
  obtain ⟨started', rest'⟩ := Outcome.andThen_clear clear'
  obtain ⟨clean_first, clean_rest⟩ := clean.andThen
  have start := one lag started started' clean_first fun stands => back stands rest clean_rest last
  exact start.andThen (two start.cursor rest rest' clean_rest last)

theorem joins_after (one : first.Joins later True true) (two : second.Joins later more idle) :
    (seq first second).Joins later more idle := joins_seq one two fun _ _ _ _ _ => trivial

theorem joins_before (one : first.Joins later more true) (two : second.Joins later more idle)
    (calm : second.idles = true) : (seq first second).Joins later more idle := by
  refine joins_seq one two fun c stands clear clean last => last ?_
  have newline : c.kindAhead 0 = .newline := by
    rw [c.kindAhead_solids]
    exact stands.next
  rwa [(at_newline second newline clear clean).2 calm]

/-- Nothing leads to the newlines if the second balks at them. -/
theorem joins_barred (one : first.Joins later False true) (two : second.Joins later more idle)
    (bars : second.balks = true) : (seq first second).Joins later more idle := by
  refine joins_seq one two fun c stands clear clean _ => ?_
  have newline : c.kindAhead 0 = .newline := by
    rw [c.kindAhead_solids]
    exact stands.next
  exact Bool.noConfusion (bars.symm.trans (at_newline second newline clear clean).1)

/-- Both go the same way on. -/
theorem joins_choose
    (start : (lagging later).Matches false (question.run c) (question.run d))
    (affirming : yes.Joins later more idle) (denying : no.Joins later more idle)
    (clear : ((branch question yes no).run c).faults = [])
    (clear' : ((branch question yes no).run d).faults = [])
    (clean : ((branch question yes no).run c).Clean)
    (last : Stands later (solids ((branch question yes no).run c).cursor.ahead) → more) :
    (lagging later).Matches idle ((branch question yes no).run c)
      ((branch question yes no).run d) := by
  obtain ⟨-, rest⟩ := Outcome.andThen_clear clear
  obtain ⟨-, rest'⟩ := Outcome.andThen_clear clear'
  have clean_rest := clean.andThen.2
  have same := start.answer.resolve_left Bool.false_ne_true
  rw [same] at rest'
  apply start.andThen
  rw [same]
  simp only [run, Outcome.andThen] at last
  by_cases answer : (question.run c).answer = true
  · simp only [answer, if_true] at rest rest' clean_rest last ⊢
    exact affirming start.cursor rest rest' clean_rest last
  · simp only [answer] at rest rest' clean_rest last ⊢
    exact denying start.cursor rest rest' clean_rest last

theorem joins_branch (asking : question.Joins later True false) (affirming : yes.Joins later more idle)
    (denying : no.Joins later more idle) : (branch question yes no).Joins later more idle := by
  intro c d lag clear clear' clean last
  refine joins_choose ?_ affirming denying clear clear' clean last
  exact asking lag (Outcome.andThen_clear clear).1 (Outcome.andThen_clear clear').1 clean.andThen.1
    fun _ => trivial

theorem asks_matches (question : Production) {among : KindSet} (asks : question.asks? = some among)
    (lag : Lag later (solids c.ahead) (solids d.ahead))
    (same : among.has (d.kindAhead 0) = among.has (c.kindAhead 0)) :
    (lagging later).Matches false (question.run c) (question.run d) := by
  obtain ⟨answer, still⟩ := asks_run asks c
  obtain ⟨answer', still'⟩ := asks_run asks d
  exact lagging_still lag still still' (.inr (by rw [answer, answer', same]))

/-- A question for other tokens than newlines. Where the newlines come next, the production goes the
other way, which is in the way of them, or idle there while the later tokens are none it asks for. -/
theorem joins_ask {among : KindSet} (asks : question.asks? = some among)
    (other : among.has TokenKind.newline = false) (affirming : yes.Joins later more idle)
    (denying : no.Joins later more idle)
    (apart : no.balks = true ∨
      no.idles = true ∧ (more → among.has (firstKind later) = false)) :
    (branch question yes no).Joins later more idle := by
  intro c d lag clear clear' clean last
  refine joins_choose (asks_matches question asks lag ?_) affirming denying clear clear' clean last
  rcases lag_next lag with same | ⟨stands, newline, further⟩
  · rw [same]
  -- Here the first production denies; what is supposed of the later tokens makes the second deny too.
  · obtain ⟨answer, -, ahead⟩ := asks_run asks c
    rw [newline, other] at answer
    have still : (question.run c).cursor.kindAhead 0 = .newline := by
      rw [Cursor.kindAhead, ahead]
      exact newline
    have denied : ¬ (question.run c).answer = true := by simp [answer]
    have rest := (Outcome.andThen_clear clear).2
    have clean_rest := clean.andThen.2
    rw [run_no denied] at last
    rw [if_neg denied] at rest clean_rest
    obtain ⟨goes_on, idly⟩ := at_newline no still rest clean_rest
    obtain ⟨calm, absent⟩ := apart.resolve_left (by simp [goes_on])
    have later_next : Stands later (solids (no.run (question.run c).cursor).cursor.ahead) := by
      rw [idly calm, ahead]
      exact stands
    rw [newline, further, other, absent (last later_next)]

end

end Production

end CraftDsl
