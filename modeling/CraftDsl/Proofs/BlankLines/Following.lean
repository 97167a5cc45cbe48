import CraftDsl.Proofs.BlankLines.Lines

/-!
Scenarios read line by line. Clauses, continuations and the scenarios after them take the lines of a use
case in turn, and what they add has the same core as the lines side by side. Main statements:
`narrows_scenarios`, `mirrors_scenarios`.
-/
namespace CraftDsl

def Lined (pieces : List Piece) : Prop :=
  ∃ trees : List Tree, pieces = trees.map .tree ∧ ∀ t ∈ Tree.coreAll trees, t.isLine = true

section

variable {first second : List Piece}

theorem lined_nil : Lined [] := ⟨[], rfl, List.forall_mem_nil _⟩

theorem Lined.append (one : Lined first) (two : Lined second) : Lined (first ++ second) := by
  obtain ⟨trees, rfl, lines⟩ := one
  obtain ⟨trees', rfl, lines'⟩ := two
  refine ⟨trees ++ trees', (List.map_append ..).symm, ?_⟩
  rw [Tree.coreAll_append]
  exact List.forall_mem_append.mpr ⟨lines, lines'⟩

theorem Lined.andThen {o : Outcome} {next : Bool → Cursor → Outcome} (one : Lined o.pieces)
    (two : Lined (next o.answer o.cursor).pieces) : Lined (o.andThen next).pieces := one.append two

theorem lined_blank {tokens : List Token}
    (blank : ∀ token ∈ tokens, token.isTrivia = true ∨ token.kind = .newline) :
    Lined (leaves tokens) := by
  have none : tokens.filterMap Token.content = [] :=
    leaves_injective ((corePieces_leaves tokens).symm.trans (corePieces_blank blank))
  refine ⟨tokens.map .leaf, (List.map_map ..).symm, ?_⟩
  rw [Tree.coreAll_leaves, none]
  exact List.forall_mem_nil _

theorem lined_pending (c : Cursor) : Lined (leaves c.pending) :=
  lined_blank fun token member => .inl (c.pending_trivia token member)

theorem lined_node {kind : NodeKind} (line : (Tree.node kind []).isLine = true)
    (children : List Tree) : Lined [.tree (.node kind children)] := by
  have firm : ∀ kind : NodeKind, (Tree.node kind []).isLine = true →
      kind.isLoose = false ∧ kind ≠ .whenClause := by
    intro kind
    cases kind <;> decide
  obtain ⟨fixed, other⟩ := firm kind line
  refine ⟨[.node kind children], rfl, ?_⟩
  rw [Tree.coreAll, Tree.core, NodeKind.gather_firm fixed other]
  exact List.forall_mem_singleton.mpr line

theorem corePieces_settled (c : Cursor) (pieces : List Piece) :
    corePieces (c.settle.pieces ++ pieces) = corePieces pieces := by
  rw [corePieces_append, c.settle_eq, corePieces_pending, List.nil_append]

/-- The lines in a clause may as well stand after it. -/
theorem clause_core (closed : openings first = 0) (lined : Lined second) :
    corePieces [.tree (.node .whenClause (closePieces (first ++ second)))] =
      corePieces [.tree (.node .whenClause (closePieces first))] ++ corePieces second := by
  obtain ⟨trees, rfl, lines⟩ := lined
  have split : closePieces (first ++ trees.map .tree) = closePieces first ++ trees := by
    rw [eq_trees_of_openings first closed, closePieces_append, closePieces_trees, closePieces_trees]
  have after : (Tree.coreAll trees).filter Tree.isLine = Tree.coreAll trees :=
    List.filter_eq_self.mpr lines
  have before : ((Tree.coreAll trees).filter fun t => !t.isLine) = [] :=
    List.filter_eq_nil_iff.mpr fun t member => by simp [lines t member]
  rw [corePieces_tree, corePieces_tree, split, corePieces_trees, Tree.core, Tree.core,
    Tree.coreAll_append, NodeKind.gather_clause, NodeKind.gather_clause, List.filter_append,
    List.filter_append, after, before, List.append_nil, ← List.map_append, List.cons_append]

end

theorem KindSet.within_inter (s t : KindSet) : (s ∩ t).within t = true := by
  refine beq_iff_eq.mpr (congrArg KindSet.mk ?_)
  show s.bits &&& t.bits &&& t.bits = s.bits &&& t.bits
  rw [Nat.and_assoc, Nat.and_self]

theorem KindSet.within_empty (s : KindSet) : KindSet.empty.within s = true :=
  beq_iff_eq.mpr (congrArg KindSet.mk (Nat.zero_and s.bits))

theorem Cursor.skip_ends {c : Cursor} (complaint : Complaint) (more : c.kindAhead 0 ≠ .endOfInput) :
    KindSet.lineEnd.has ((c.skip complaint).cursor.kindAhead 0) = true := by
  have going : ¬ (c.look 0 (.single TokenKind.endOfInput)).answer = true :=
    fun last => more ((KindSet.has_token _ _).mp last)
  obtain ⟨d, diagnostic, ahead, skipped⟩ : ∃ (d : Cursor) (diagnostic : Span → Diagnostic),
      d.ahead = c.ahead ∧ (c.skip complaint).cursor = (d.report diagnostic).cursor.discard.cursor := by
    let d := (c.look 0 (.single TokenKind.endOfInput)).cursor
    rw [Cursor.skip, Outcome.andThen, if_neg going]
    exact ⟨d.trace.cursor, fun place => ⟨.unexpectedToken, place,
      complaint.message ((d.due.take 1).flatMap Token.text), []⟩, rfl, rfl⟩
  have still : (d.report diagnostic).cursor.kindAhead 0 = c.kindAhead 0 :=
    congrArg (kindIn 0) ((d.report_ahead diagnostic).trans ahead)
  rw [skipped, Cursor.discard_eq]
  exact (Cursor.stretch_due _ (still ▸ more)).2

theorem Cursor.settle_kindAhead (c : Cursor) (n : Nat) :
    c.settle.cursor.kindAhead n = c.kindAhead n := by
  rw [c.settle_eq]
  exact c.kindAhead_due n

namespace Production

def Tells (x : Production) : Prop := ∀ ⦃c : Cursor⦄, (x.run c).faults = [] → Lined (x.run c).pieces

section

variable {first second question yes no body : Production}

theorem tells_still (still : ∀ c, (first.run c).pieces = []) : first.Tells := fun c _ => by
  rw [still c]
  exact lined_nil

theorem tells_seq (one : first.Tells) (two : second.Tells) : (seq first second).Tells := by
  intro c clear
  obtain ⟨started, rest⟩ := Outcome.andThen_clear clear
  exact (one started).andThen (two rest)

theorem tells_branch (asking : question.Tells) (affirming : yes.Tells) (denying : no.Tells) :
    (branch question yes no).Tells := by
  intro c clear
  obtain ⟨asked, ⟨rest, whole⟩ | ⟨rest, whole⟩⟩ := branch_cases clear
  · rw [whole]
    exact (asking asked).andThen (affirming rest)
  · rw [whole]
    exact (asking asked).andThen (denying rest)

theorem rounds_tell (inner : body.Tells) (limit : List Token) {c : Cursor}
    (clear : (rounds body.run limit c).faults = []) : Lined (rounds body.run limit c).pieces :=
  rounds_induction (fun _ => True) (motive := fun _ o => Lined o.pieces) (fun _ _ _ => trivial)
    (fun _ _ => lined_nil) (fun _ _ _ one _ later => (inner one).andThen later) limit trivial clear

theorem tells_loop (inner : body.Tells) : (loop body).Tells := fun _ clear => rounds_tell inner _ clear

theorem tells_newline : (takeKind .newline).Tells := by
  intro c clear
  obtain ⟨token, tokens, due⟩ := Cursor.due_of_take clear
  have kind : token.kind = .newline := (KindSet.has_token _ _).mp (Cursor.has_of_take due clear)
  have taken : ((takeKind .newline).run c).pieces = leaves (c.pending ++ [token]) := by
    rw [takeKind, run, c.take_eq _ none due, leaves, leaves, List.map_append]
    rfl
  rw [taken]
  refine lined_blank (List.forall_mem_append.mpr ⟨?_, List.forall_mem_singleton.mpr (.inr kind)⟩)
  exact fun token member => .inl (c.pending_trivia token member)

theorem tells_node {kind : NodeKind} (line : (Tree.node kind []).isLine = true) :
    (node kind body).Tells := by
  intro c _
  have whole : ((node kind body).run c).pieces = c.settle.pieces ++
      [.tree (.node kind (closePieces (body.run c.settle.cursor).pieces))] := rfl
  rw [whole, c.settle_eq]
  exact (lined_pending c).append (lined_node line _)

theorem tells_skip (complaint : Complaint) : (skip complaint).Tells := by
  intro c _
  have reported (c : Cursor) (diagnostic : Span → Diagnostic) :
      (c.report diagnostic).pieces = [] := by
    simp only [Cursor.report]
    split <;> rfl
  show Lined (c.skip complaint).pieces
  refine Lined.andThen lined_nil ?_
  split
  · exact lined_nil
  · refine Lined.andThen lined_nil (Lined.andThen ?_ ?_)
    · rw [reported]
      exact lined_nil
    · rw [Cursor.discard_eq]
      exact (lined_pending _).append (lined_node (by decide) _)

theorem tells_look (n : Nat) (among : KindSet) : (look n among).Tells := tells_still fun _ => rfl

theorem tells_answer (value : Bool) : (answer value).Tells := tells_still fun _ => rfl

theorem tells_actionLine : actionLine.Tells := by
  have glances (n : Nat) (among : KindSet) : (glance n among).Tells := tells_still fun _ => rfl
  have action : action.Tells :=
    tells_branch (tells_look _ _) (tells_node (by decide)) <|
    tells_branch (glances _ _) (tells_node (by decide)) <|
    tells_branch (glances _ _) (tells_node (by decide)) (tells_node (by decide))
  exact tells_seq action (tells_branch (tells_look _ _) (tells_answer true) (tells_skip _))

end

theorem tells_clauseRest : clauseRest.Tells := by
  have eats : (eat .newline).Tells :=
    tells_branch (tells_look _ _) tells_newline (tells_answer false)
  refine tells_branch eats (tells_loop ?_) (tells_answer false)
  refine tells_branch (tells_look _ _) ?_ (tells_answer false)
  exact tells_branch (tells_look _ _) (tells_answer false) (tells_seq tells_actionLine eats)

section

variable {c : Cursor} {o : Outcome} {next : Bool → Cursor → Outcome}

def Passed (c : Cursor) (o : Outcome) : Prop :=
  ∀ ⦃limit : List Token⦄ ⦃d : Cursor⦄, level.near c d →
    (rounds useCaseLine.run limit d).faults = [] → Passes level useCaseLine.run limit d o

theorem Passed.andThen (one : Passed c o) (two : Passed o.cursor (next o.answer o.cursor)) :
    Passed c (o.andThen next) := by
  intro limit d near clear
  obtain ⟨limit', d', near', clear', onward⟩ := one near clear
  obtain ⟨limit'', d'', near'', clear'', further⟩ := two near' clear'
  have whole : corePieces (o.andThen next).pieces =
      corePieces o.pieces ++ corePieces (next o.answer o.cursor).pieces := corePieces_append _ _
  exact ⟨limit'', d'', near'', clear'', whole ▸ onward.trans further⟩

theorem passed_past {taken : List Token} (moves : c.Moves taken o.cursor)
    (blank : Token.solid c.offset taken = []) (core : corePieces o.pieces = []) : Passed c o :=
  fun limit d near clear => ⟨limit, d, past_level near moves blank, clear, core ▸ .refl _⟩

theorem passed_still (moves : c.Moves [] o.cursor) (nothing : o.pieces = []) : Passed c o :=
  passed_past moves rfl (by rw [nothing]; rfl)

theorem passed_line (line : ∀ ⦃d : Cursor⦄, level.near c d →
      (useCaseLine.run d).faults = [] →
        level.Matches true o (useCaseLine.run d) ∧ (useCaseLine.run d).answer = true) :
    Passed c o := by
  intro limit d near clear
  obtain ⟨one, again⟩ := line near (rounds_clear clear)
  exact rounds_pass one again clear

end

/-- Where a token of the first set comes next, the production is passed, and one of the second comes
next after it, or of the third if it answers no. -/
def Narrows (before : KindSet) (x : Production) (yes no : KindSet) : Prop :=
  ∀ ⦃c : Cursor⦄, before.has (c.kindAhead 0) = true → (x.run c).faults = [] →
    Passed c (x.run c) ∧
      (if (x.run c).answer then yes else no).has ((x.run c).cursor.kindAhead 0) = true

section

variable {before middle after yes no : KindSet} {first second question affirmed denied body : Production}

theorem Narrows.widen {before' yes' no' : KindSet} {x : Production}
    (narrows : Narrows before' x yes' no') (here : before.within before' = true)
    (there : yes'.within yes = true) (else_there : no'.within no = true) :
    Narrows before x yes no := by
  intro c next clear
  obtain ⟨passed, last⟩ := narrows (KindSet.has_of_within here next) clear
  refine ⟨passed, ?_⟩
  split
  · rename_i answer
    rw [if_pos answer] at last
    exact KindSet.has_of_within there last
  · rename_i answer
    rw [if_neg answer] at last
    exact KindSet.has_of_within else_there last

theorem narrows_answer (value : Bool) : Narrows before (answer value) (if value then before else .empty)
    (if value then .empty else before) := by
  intro c next _
  refine ⟨passed_still ⟨rfl, rfl, rfl⟩ rfl, ?_⟩
  cases value <;> exact next

theorem narrows_asked {x : Production} {among : KindSet}
    (asks : ∀ c : Cursor, (x.run c).answer = among.has (c.kindAhead 0) ∧ (x.run c).pieces = [] ∧
      c.Moves [] (x.run c).cursor) :
    Narrows before x (before ∩ among) (before.without among) := by
  intro c next _
  obtain ⟨answer, nothing, moves⟩ := asks c
  have still : (x.run c).cursor.kindAhead 0 = c.kindAhead 0 :=
    congrArg (kindIn 0) moves.ahead.symm
  refine ⟨passed_still moves nothing, ?_⟩
  rw [still, answer]
  by_cases there : among.has (c.kindAhead 0) = true
  · rw [if_pos there]
    exact KindSet.has_both next there
  · rw [if_neg there]
    exact KindSet.has_left next (Bool.eq_false_iff.mpr there)

theorem narrows_look (among : KindSet) :
    Narrows before (look 0 among) (before ∩ among) (before.without among) :=
  narrows_asked fun _ => ⟨rfl, rfl, rfl, rfl, rfl⟩

theorem narrows_glance (among : KindSet) :
    Narrows before (glance 0 among) (before ∩ among) (before.without among) :=
  narrows_asked fun _ => ⟨rfl, rfl, rfl, rfl, rfl⟩

theorem narrows_seq (one : Narrows before first middle middle) (two : Narrows middle second yes no) :
    Narrows before (seq first second) yes no := by
  intro c next clear
  obtain ⟨started, rest⟩ := Outcome.andThen_clear clear
  obtain ⟨passed, between⟩ := one next started
  rw [ite_self] at between
  obtain ⟨passed_rest, last⟩ := two between rest
  exact ⟨passed.andThen passed_rest, last⟩

theorem narrows_branch {yes' no' : KindSet} (asking : Narrows before question yes' no')
    (affirming : Narrows yes' affirmed yes no) (denying : Narrows no' denied yes no) :
    Narrows before (branch question affirmed denied) yes no := by
  intro c next clear
  obtain ⟨asked, rest⟩ := Outcome.andThen_clear clear
  obtain ⟨passed, between⟩ := asking next asked
  by_cases answer : (question.run c).answer = true
  · rw [if_pos answer] at rest between
    rw [run_yes answer]
    obtain ⟨passed_rest, last⟩ := affirming between rest
    exact ⟨passed.andThen passed_rest, last⟩
  · rw [if_neg answer] at rest between
    rw [run_no answer]
    obtain ⟨passed_rest, last⟩ := denying between rest
    exact ⟨passed.andThen passed_rest, last⟩

theorem narrows_rounds (inner : Narrows before body before after) (limit : List Token) {c : Cursor}
    (next : before.has (c.kindAhead 0) = true) (clear : (rounds body.run limit c).faults = []) :
    Passed c (rounds body.run limit c) ∧
      after.has ((rounds body.run limit c).cursor.kindAhead 0) = true := by
  have final {limit : List Token} {c : Cursor} (next : before.has (c.kindAhead 0) = true)
      (clear : (rounds body.run limit c).faults = []) (ended : (body.run c).answer = false) :
      Passed c (rounds body.run limit c) ∧
        after.has ((rounds body.run limit c).cursor.kindAhead 0) = true := by
    obtain ⟨passed, last⟩ := inner next (rounds_clear clear)
    rw [ended] at last
    rw [rounds_done clear ended]
    exact ⟨passed.andThen (passed_still ⟨rfl, rfl, rfl⟩ rfl), last⟩
  induction limit generalizing c with
  | nil => exact final next clear (rounds_stalled clear)
  | cons token limit ih =>
    cases again : (body.run c).answer with
    | false => exact final next clear again
    | true =>
      have whole := rounds_more clear again
      rw [whole] at clear ⊢
      obtain ⟨one, rest⟩ := Outcome.andThen_clear clear
      obtain ⟨passed, between⟩ := inner next one
      rw [again] at between
      obtain ⟨passed_rest, last⟩ := ih between rest
      exact ⟨passed.andThen passed_rest, last⟩

theorem narrows_loop (inner : Narrows before body before after) :
    Narrows before (loop body) after after := by
  intro c next clear
  rw [ite_self]
  exact narrows_rounds inner c.ahead next clear

theorem narrows_demand (among : KindSet) :
    Narrows before (demand among) (before ∩ among) (before ∩ among) := by
  intro c next clear
  have found : (c.look 0 among).answer = true := by
    obtain ⟨-, checked⟩ := Outcome.andThen_clear clear
    simpa [Outcome.check] using checked
  rw [ite_self]
  exact ⟨passed_still ⟨rfl, rfl, rfl⟩ rfl, KindSet.has_both next found⟩

theorem narrows_start {kind : NodeKind} (loose : kind.isLoose = true) :
    Narrows before (start kind) before before := by
  intro c next _
  have whole : (start kind).run c = c.settle.andThen fun _ c =>
      { Outcome.quiet true c with pieces := [.opening kind] } := rfl
  rw [whole]
  constructor
  · refine passed_past c.settle_moves (Token.solid_trivia _ c.pending_trivia) ?_
    rw [Outcome.andThen, c.settle_eq, corePieces_append, corePieces_pending, corePieces,
      if_pos loose]
    rfl
  · show before.has (c.settle.cursor.kindAhead 0) = true
    rw [c.settle_kindAhead]
    exact next

theorem narrows_count (opened : Nat) : Narrows before (count opened) before before :=
  fun _ next _ => ⟨passed_still ⟨rfl, rfl, rfl⟩ rfl, next⟩

end

def newlineSet : KindSet := .single TokenKind.newline

def whenSet : KindSet := .single (TokenKind.keyword .when)

def actionSet : KindSet := KindSet.words.without whenSet

/-- What may come next after a clause: no action on the same line. -/
def lineSet : KindSet := KindSet.anything.without actionSet

def sceneSet : KindSet := lineSet.without newlineSet

theorem narrows_newline : Narrows newlineSet (takeKind .newline) .anything .empty := by
  intro c next clear
  have here : c.kindAhead 0 = .newline := (KindSet.has_token _ _).mp next
  refine ⟨passed_line fun d near _ => ?_, ?_⟩
  · have there : d.kindAhead 0 = .newline := (near.kindAhead 0).symm.trans here
    have beyond : level.near c ((atKind .newline).run d).cursor :=
      level_still near ⟨rfl, rfl, rfl⟩
    have one : level.Matches true _ _ :=
      level_matches (Likeness.Alike.take beyond (.single TokenKind.newline) none clear)
    rw [line_newline there]
    exact ⟨⟨one.answer, one.core, one.cursor⟩, Cursor.take_answer _ _ _⟩
  · rw [takeKind, run, Cursor.take_answer, if_pos rfl]
    exact KindSet.has_anything _

theorem finishLine_ends (what : String) (c : Cursor) :
    KindSet.lineEnd.has (((finishLine what).run c).cursor.kindAhead 0) = true := by
  by_cases ended : ((look 0 .lineEnd).run c).answer = true
  · rw [finishLine, run_yes ended]
    exact ended
  · rw [finishLine, run_no ended]
    refine Cursor.skip_ends _ fun last => ended ?_
    show KindSet.lineEnd.has (c.kindAhead 0) = true
    rw [show c.kindAhead 0 = .endOfInput from last]
    decide

theorem narrows_action : Narrows actionSet actionLine .lineEnd .lineEnd := by
  intro c next clear
  have both : KindSet.words.has (c.kindAhead 0) = true ∧ c.kindAhead 0 ≠ .keyword .when := by
    rw [actionSet, KindSet.has_without, Bool.and_eq_true, Bool.not_eq_true'] at next
    refine ⟨next.1, fun when => ?_⟩
    rw [when] at next
    exact absurd next.2 (by decide)
  refine ⟨passed_line fun d near lined => ?_, ?_⟩
  · have there := near.kindAhead 0
    have beyond : level.near c ((onAny .words).run ((atKeyword .when).run
        ((atKind .newline).run d).cursor).cursor).cursor :=
      level_still near ⟨rfl, rfl, rfl⟩
    have whole := line_action (there ▸ both.1) (there ▸ both.2)
    rw [whole] at lined ⊢
    have inner := (Outcome.andThen_clear (Outcome.andThen_clear (Outcome.andThen_clear
      (Outcome.andThen_clear lined).2).2).2).1
    have one : level.Matches true _ _ := level_matches (run_parallel actionLine beyond clear inner)
    refine ⟨⟨.inl rfl, ?_, one.cursor⟩, rfl⟩
    exact (congrArg corePieces (List.append_nil _)).trans one.core
  · rw [ite_self]
    exact finishLine_ends _ _

theorem narrows_eat {before : KindSet} :
    Narrows before (eat .newline) .anything (before.without newlineSet) := by
  refine narrows_branch (narrows_look newlineSet) ?_ ?_
  · exact narrows_newline.widen (KindSet.within_inter before newlineSet) (KindSet.within_self _)
      (KindSet.within_empty _)
  · exact (narrows_answer false).widen (KindSet.within_self _) (KindSet.within_empty _)
      (KindSet.within_self _)

theorem narrows_clauseRest : Narrows .lineEnd clauseRest lineSet lineSet := by
  have line : Narrows .anything clauseRound .anything lineSet := by
    refine narrows_branch (narrows_look .words) (narrows_branch (narrows_look whenSet) ?_ ?_) ?_
    · exact (narrows_answer false).widen (KindSet.within_self _) (by decide)
        (by decide)
    · exact (narrows_seq narrows_action narrows_eat).widen (by decide) (by decide)
        (by decide)
    · exact (narrows_answer false).widen (KindSet.within_self _) (by decide)
        (by decide)
  refine narrows_branch narrows_eat (narrows_loop line) ?_
  exact (narrows_answer false).widen (KindSet.within_self _) (by decide) (by decide)

theorem narrows_clause :
    Narrows whenSet (node .whenClause (seq clauseHead clauseRest)) lineSet lineSet := by
  intro c next clear
  have here : c.kindAhead 0 = .keyword .when := (KindSet.has_token _ _).mp next
  have whole : (node .whenClause (seq clauseHead clauseRest)).run c = c.settle.andThen fun _ c =>
      ((clauseHead.run c).andThen fun _ c => clauseRest.run c).wrapped .whenClause := rfl
  rw [whole] at clear ⊢
  set b := c.settle.cursor with b_eq
  have inner : ((clauseHead.run b).andThen fun _ c => clauseRest.run c).faults = [] :=
    (Outcome.andThen_clear clear).2
  obtain ⟨head, rest⟩ := Outcome.andThen_clear inner
  have ended : KindSet.lineEnd.has ((clauseHead.run b).cursor.kindAhead 0) = true :=
    finishLine_ends _ _
  obtain ⟨passed, last⟩ := narrows_clauseRest ended rest
  rw [ite_self] at last ⊢
  refine ⟨fun limit d near lined => ?_, last⟩
  -- The head is a line of its own; the lines after it are passed as the rest of the clause is.
  have line := line_when ((near.kindAhead 0).symm.trans here)
  set e := ((atKeyword .when).run ((atKind .newline).run d).cursor).cursor
  have beside : level.near c e := level_still near ⟨rfl, rfl, rfl⟩
  have one := rounds_clear lined
  rw [line] at one
  have head' : (clauseHead.run e.settle.cursor).faults = [] :=
    (Outcome.andThen_clear (Outcome.andThen_clear (Outcome.andThen_clear
      (Outcome.andThen_clear one).2).2).1).2
  have heads := run_parallel clauseHead (Likeness.Alike.settle beside).cursor head head'
  have again : (useCaseLine.run d).answer = true := by rw [line]; rfl
  have onto : (useCaseLine.run d).cursor = (clauseHead.run e.settle.cursor).cursor := by
    rw [line]
    rfl
  have level_on : level.near (clauseHead.run b).cursor (useCaseLine.run d).cursor := by
    rw [onto]
    exact heads.cursor
  obtain ⟨more, onward⟩ := rounds_again lined again
  obtain ⟨limit', d', near', clear', further⟩ := passed level_on more
  refine ⟨limit', d', near', clear', ?_⟩
  have lined_head : (useCaseLine.run d).pieces = [] ++ ([] ++ ((e.settle.pieces ++
      [.tree (.node .whenClause (closePieces (clauseHead.run e.settle.cursor).pieces))]) ++ [])) :=
    congrArg Outcome.pieces line
  rw [List.nil_append, List.nil_append, List.append_nil] at lined_head
  have core : corePieces (c.settle.pieces ++ [.tree (.node .whenClause (closePieces
      ((clauseHead.run b).pieces ++ (clauseRest.run (clauseHead.run b).cursor).pieces)))]) =
      corePieces (useCaseLine.run d).pieces ++
        corePieces (clauseRest.run (clauseHead.run b).cursor).pieces := by
    have same : corePieces (clauseHead.run e.settle.cursor).pieces =
        corePieces (clauseHead.run b).pieces := (level_matches heads : level.Matches true _ _).core
    rw [lined_head, corePieces_settled, corePieces_settled,
      clause_core (run_sealed clauseHead (by decide) b) (tells_clauseRest rest),
      corePieces_node, corePieces_node, same]
  exact core ▸ onward.trans further

theorem narrows_continuation : Narrows lineSet scenarioContinuation lineSet sceneSet := by
  have opened (before : KindSet) : Narrows before (start .scenario) before before :=
    narrows_start rfl
  have continued (before : KindSet) :
      Narrows before (start .scenarioContinuation) before before := narrows_start rfl
  have ended {before : KindSet} (here : before.within sceneSet = true) :
      Narrows before (answer false) lineSet sceneSet :=
    (narrows_answer false).widen (KindSet.within_self _) (KindSet.within_empty _) here
  have blank : Narrows .anything newlines (.without .anything newlineSet)
      (.without .anything newlineSet) := narrows_loop narrows_eat
  have act : Narrows actionSet (seq actionLine (answer true)) lineSet sceneSet :=
    narrows_seq narrows_action ((narrows_answer true).widen (KindSet.within_self _)
      (by decide) (KindSet.within_empty _))
  refine narrows_branch (narrows_look whenSet) ?_ (narrows_branch (narrows_look newlineSet) ?_ ?_)
  · exact narrows_seq (continued _) <| narrows_seq (opened _) <| narrows_seq (narrows_count 2) <|
      ended (by decide)
  · refine narrows_seq (continued _) <| narrows_seq (narrows_count 1) <|
      narrows_seq (blank.widen (by decide) (KindSet.within_self _) (KindSet.within_self _)) <|
      narrows_branch (narrows_look whenSet) ?_ (narrows_branch (narrows_glance .words) ?_ ?_)
    · exact narrows_seq (opened _) <| narrows_seq (narrows_count 1) <| ended (by decide)
    · exact act.widen (by decide) (KindSet.within_self _) (KindSet.within_self _)
    · exact ended (by decide)
  · exact ended (by decide)

theorem narrows_scenarios :
    Narrows .anything spineBody (sceneSet.without whenSet) (sceneSet.without whenSet) := by
  have clause : Narrows .anything whenClause lineSet lineSet :=
    narrows_seq (narrows_demand whenSet)
      (narrows_clause.widen (by decide) (KindSet.within_self _) (KindSet.within_self _))
  have scene : Narrows .anything spineRound .anything (sceneSet.without whenSet) :=
    narrows_seq clause <| narrows_seq (narrows_loop narrows_continuation) <|
      (narrows_glance whenSet).widen (KindSet.within_self _) (by decide)
        (KindSet.within_self _)
  exact narrows_seq (narrows_start rfl) (narrows_seq (narrows_count 1) (narrows_loop scene))

/-- Where no further line begins, the lines of a use case are over. -/
theorem lines_over {limit : List Token} {d : Cursor}
    (next : (sceneSet.without whenSet).has (d.kindAhead 0) = true)
    (clear : (rounds useCaseLine.run limit d).faults = []) :
    (rounds useCaseLine.run limit d).pieces = [] ∧
      d.Moves [] (rounds useCaseLine.run limit d).cursor := by
  have inline : d.kindAhead 0 ≠ .newline := by
    intro newline
    rw [newline] at next
    exact absurd next (by decide)
  have other : KindSet.words.has (d.kindAhead 0) = false := by
    simp only [sceneSet, lineSet, actionSet, KindSet.has_without, Bool.and_eq_true,
      Bool.not_eq_true', Bool.and_eq_false_iff] at next
    exact (next.1.1.2.resolve_right (by simp [next.2]))
  obtain ⟨answer, nothing, moves⟩ := line_over inline other
  rw [rounds_done clear answer, Outcome.andThen, nothing]
  exact ⟨rfl, moves⟩

theorem mirrors_scenarios : scenarios.Mirrors level true useCaseLines := by
  refine mirrors_scope fun c d near clear lined _ => ?_
  obtain ⟨passed, last⟩ := narrows_scenarios (KindSet.has_anything _) clear
  rw [ite_self] at last
  obtain ⟨limit, e, beside, rest, onward⟩ := passed near lined
  obtain ⟨nothing, moves⟩ := lines_over (Likeness.Alike.kindAhead beside 0 ▸ last) rest
  have core := onward.core
  rw [nothing] at core
  refine ⟨.inl rfl, core.trans (List.append_nil _), ?_⟩
  have ended := level_still beside moves
  rw [← onward.cursor] at ended
  exact ended

end Production

end CraftDsl
