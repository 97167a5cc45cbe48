import CraftDsl.Proofs.Contents

/-!
Reports and error nodes agree. Every report has its anchor where an error node begins, and where an
error node begins there is a report, unless the latest report before was made at that very place.
Main statement: `run_agrees`.
-/
namespace CraftDsl

/-- The place a report is about; a block without an end is reported where its end is missing. -/
def Diagnostic.anchor (d : Diagnostic) : Nat :=
  if d.kind = .unclosedBlock then d.span.stop else d.span.start

namespace Tree

mutual

def errorStarts (start : Nat) : Tree → List Nat
  | leaf _ => []
  | node kind children =>
    (if kind = .error then [start] else []) ++ errorStartsAll start children

def errorStartsAll (start : Nat) : List Tree → List Nat
  | [] => []
  | t :: ts => t.errorStarts start ++ errorStartsAll (start + t.width) ts

end

theorem errorStartsAll_leaves (start : Nat) (tokens : List Token) :
    errorStartsAll start (tokens.map leaf) = [] := by
  induction tokens generalizing start with
  | nil => rfl
  | cons token tokens ih => exact ih _

end Tree

def errorsOf (start : Nat) : List Piece → List Nat
  | [] => []
  | .tree t :: pieces => t.errorStarts start ++ errorsOf (start + t.width) pieces
  | .opening kind :: pieces => (if kind = .error then [start] else []) ++ errorsOf start pieces

theorem errorsOf_append (start : Nat) (first second : List Piece) :
    errorsOf start (first ++ second) =
      errorsOf start first ++ errorsOf (start + widthOf (tokensOf first)) second := by
  induction first generalizing start with
  | nil => rfl
  | cons piece pieces ih =>
    cases piece with
    | tree t =>
      have width : widthOf (tokensOf (.tree t :: pieces)) = t.width + widthOf (tokensOf pieces) := by
        rw [t.width_eq]
        exact widthOf_append _ _
      rw [List.cons_append, errorsOf, ih, errorsOf, width, List.append_assoc, Nat.add_assoc]
    | opening kind => rw [List.cons_append, errorsOf, ih, errorsOf, List.append_assoc]; rfl

theorem errorsOf_leaves (start : Nat) (tokens : List Token) : errorsOf start (leaves tokens) = [] := by
  induction tokens generalizing start with
  | nil => rfl
  | cons token tokens ih => exact ih _

theorem errorsOf_trees (start : Nat) (trees : List Tree) :
    errorsOf start (trees.map Piece.tree) = Tree.errorStartsAll start trees := by
  induction trees generalizing start with
  | nil => rfl
  | cons t ts ih => exact congrArg (t.errorStarts start ++ ·) (ih _)

theorem closePieces_errors (start : Nat) (pieces : List Piece) :
    Tree.errorStartsAll start (closePieces pieces) = errorsOf start pieces := by
  induction pieces generalizing start with
  | nil => rfl
  | cons piece pieces ih =>
    cases piece with
    | tree t => exact congrArg (t.errorStarts start ++ ·) (ih _)
    | opening kind =>
      have one : closePieces (.opening kind :: pieces) = [.node kind (closePieces pieces)] := rfl
      rw [one, Tree.errorStartsAll, Tree.errorStarts, ih, errorsOf]
      exact List.append_nil _

def Known (c : Cursor) (o : Outcome) (place : Nat) : Prop :=
  (∃ d ∈ o.reports, d.anchor = place) ∨ c.reported = some place

/-- The reports of an outcome and its error nodes agree. -/
structure Agrees (c : Cursor) (o : Outcome) : Prop where
  structural : ∀ d ∈ o.reports, d.kind.isLexical = false
  backed : ∀ d ∈ o.reports, d.anchor ∈ errorsOf c.offset o.pieces
  known : ∀ place ∈ errorsOf c.offset o.pieces, Known c o place
  latest : ∀ place, o.cursor.reported = some place → Known c o place

theorem agrees_silent {c : Cursor} {o : Outcome} (reports : o.reports = [])
    (errors : errorsOf c.offset o.pieces = []) (reported : o.cursor.reported = c.reported) :
    Agrees c o := by
  constructor
  · simp [reports]
  · simp [reports]
  · simp [errors]
  · intro place latest
    exact .inr (reported ▸ latest)

theorem Agrees.andThen {c : Cursor} {o : Outcome} {next : Bool → Cursor → Outcome}
    (first : Agrees c o) (spent : Spent c o) (clear : o.faults = [])
    (second : Agrees o.cursor (next o.answer o.cursor)) : Agrees c (o.andThen next) := by
  have reports : (o.andThen next).reports = o.reports ++ (next o.answer o.cursor).reports := rfl
  have errors : errorsOf c.offset (o.andThen next).pieces =
      errorsOf c.offset o.pieces ++
        errorsOf o.cursor.offset (next o.answer o.cursor).pieces := by
    rw [spent.offset clear]
    exact errorsOf_append _ _ _
  have earlier : ∀ place, Known c o place → Known c (o.andThen next) place := by
    intro place known
    rcases known with ⟨d, member, anchored⟩ | before
    · exact .inl ⟨d, List.mem_append_left _ member, anchored⟩
    · exact .inr before
  have later : ∀ place, Known o.cursor (next o.answer o.cursor) place →
      Known c (o.andThen next) place := by
    intro place known
    rcases known with ⟨d, member, anchored⟩ | before
    · exact .inl ⟨d, List.mem_append_right _ member, anchored⟩
    · exact earlier place (first.latest place before)
  constructor
  · intro d member
    rcases List.mem_append.mp member with member | member
    · exact first.structural d member
    · exact second.structural d member
  · intro d member
    rw [errors]
    rcases List.mem_append.mp member with member | member
    · exact List.mem_append_left _ (first.backed d member)
    · exact List.mem_append_right _ (second.backed d member)
  · intro place member
    rw [errors] at member
    rcases List.mem_append.mp member with member | member
    · exact earlier place (first.known place member)
    · exact later place (second.known place member)
  · intro place latest
    exact later place (second.latest place latest)

theorem Agrees.wrapped {c : Cursor} {o : Outcome} (agrees : Agrees c o) {kind : NodeKind}
    (ordinary : kind ≠ .error) : Agrees c (o.wrapped kind) := by
  have errors : errorsOf c.offset (o.wrapped kind).pieces = errorsOf c.offset o.pieces := by
    simp only [Outcome.wrapped, errorsOf, Tree.errorStarts, if_neg ordinary, closePieces_errors,
      List.nil_append, List.append_nil]
  refine ⟨agrees.structural, ?_, ?_, agrees.latest⟩
  · rw [errors]
    exact agrees.backed
  · rw [errors]
    exact agrees.known

theorem Agrees.closed {c : Cursor} {o : Outcome} (agrees : Agrees c o) : Agrees c o.closed := by
  have errors : errorsOf c.offset o.closed.pieces = errorsOf c.offset o.pieces := by
    rw [Outcome.closed, errorsOf_trees, closePieces_errors]
  refine ⟨agrees.structural, ?_, ?_, agrees.latest⟩
  · rw [errors]
    exact agrees.backed
  · rw [errors]
    exact agrees.known

namespace Cursor

variable (c : Cursor)

theorem look_agrees (n : Nat) (among : KindSet) : Agrees c (c.look n among) :=
  agrees_silent rfl rfl rfl

theorem check_agrees (holds : Bool) (fault : Fault) (answer : Bool) :
    Agrees c (.check holds fault answer c) :=
  agrees_silent rfl rfl rfl

theorem quiet_agrees (answer : Bool) : Agrees c (.quiet answer c) := agrees_silent rfl rfl rfl

theorem settle_agrees : Agrees c c.settle := agrees_silent rfl (errorsOf_leaves _ _) rfl

theorem take_agrees (among : KindSet) (retag : Option TokenKind) :
    Agrees c (c.take among retag) := by
  apply c.settle_agrees.andThen c.settle_spent rfl
  split
  · exact check_agrees _ _ _ _
  · exact agrees_silent rfl rfl rfl

/-- A report and an error node at its anchor, after the blanks and comments ahead. -/
theorem report_agrees {diagnostic : Span → Diagnostic}
    (structural : (diagnostic c.spanAhead).kind.isLexical = false)
    (anchored : (diagnostic c.spanAhead).anchor = c.spanAhead.start) {next : Cursor → Outcome}
    (silent : ∀ d, (next d).reports = [])
    (error : ∀ d : Cursor, errorsOf d.offset (next d).pieces = [d.spanAhead.start])
    (kept : ∀ d, (next d).cursor.reported = d.reported) :
    Agrees c ((c.report diagnostic).andThen fun _ c => next c) := by
  simp only [report]
  split
  · rename_i before
    have errors : errorsOf c.offset (next c).pieces = [c.spanAhead.start] := error c
    constructor
    · simp [Outcome.andThen, Outcome.quiet, silent]
    · simp [Outcome.andThen, Outcome.quiet, silent]
    · intro place member
      have same : place = c.spanAhead.start := by
        simpa [Outcome.andThen, Outcome.quiet, errors] using member
      exact .inr (same ▸ before)
    · intro place latest
      exact .inr ((kept c).symm.trans latest)
  · set d : Cursor := { c with reported := some c.spanAhead.start } with d_eq
    have errors : errorsOf c.offset (next d).pieces = [c.spanAhead.start] := error d
    have made : ∀ place, place = c.spanAhead.start → Known c
        (Outcome.andThen { Outcome.quiet true d with reports := [diagnostic c.spanAhead] }
          fun _ c => next c) place := by
      intro place same
      exact .inl ⟨_, List.mem_cons_self, anchored.trans same.symm⟩
    constructor
    · simp [Outcome.andThen, Outcome.quiet, silent, structural]
    · simp [Outcome.andThen, Outcome.quiet, silent, errors, anchored]
    · intro place member
      apply made
      simpa [Outcome.andThen, Outcome.quiet, errors] using member
    · intro place latest
      apply made
      have reported : some c.spanAhead.start = some place := (kept d).symm.trans latest
      exact (Option.some.inj reported).symm

theorem gap_errors : errorsOf c.offset c.gap.pieces = [c.spanAhead.start] := by
  rw [gap_eq, errorsOf_append, errorsOf_leaves, tokensOf_leaves]
  rfl

theorem discard_errors : errorsOf c.offset c.discard.pieces = [c.spanAhead.start] := by
  rw [discard_eq, errorsOf_append, errorsOf_leaves, tokensOf_leaves, errorsOf, Tree.errorStarts,
    Tree.errorStartsAll_leaves]
  rfl

theorem missing_agrees {kind : DiagnosticKind} {message : String}
    (structural : kind.isLexical = false) (point : kind ≠ .unclosedBlock)
    (clear : (c.missing kind message).faults = []) : Agrees c (c.missing kind message) := by
  have looked := (Outcome.andThen_clear clear).1
  apply (c.look_agrees 0 .empty).andThen (c.look_spent 0 .empty) looked
  apply report_agrees
  · exact structural
  · exact if_neg point
  · intro d
    rw [gap_eq]
  · exact gap_errors
  · intro d
    rw [gap_eq]

theorem skip_agrees {complaint : Complaint} (clear : (c.skip complaint).faults = []) :
    Agrees c (c.skip complaint) := by
  rcases Outcome.andThen_clear clear with ⟨looked, rest⟩
  apply (c.look_agrees 0 _).andThen (c.look_spent 0 _) looked
  split
  · exact quiet_agrees _ true
  · rename_i more
    rw [if_neg more] at rest
    apply (look_agrees _ 0 .empty).andThen (look_spent _ 0 .empty) (Outcome.andThen_clear rest).1
    apply report_agrees
    · rfl
    · rfl
    · intro d
      rw [discard_eq]
    · exact discard_errors
    · intro d
      rw [discard_eq]

theorem spanAhead_over (solid : ∀ token ∈ c.ahead, token.kind ≠ .endOfInput)
    (at_end : c.kindAhead 0 = .endOfInput) : c.spanAhead.stop = c.spanAhead.start := by
  simp only [spanAhead, c.due_of_over solid at_end]
  rfl

theorem unclosed_agrees {what : String} {brace : Span}
    (solid : ∀ token ∈ c.ahead, token.kind ≠ .endOfInput)
    (clear : (c.unclosed what brace).faults = []) : Agrees c (c.unclosed what brace) := by
  have checked := (Outcome.andThen_clear clear).1
  have at_end : c.kindAhead 0 = .endOfInput := by
    simpa [Outcome.check] using checked
  apply (c.check_agrees _ _ _).andThen (c.check_spent _ _ _) checked
  apply report_agrees
  · rfl
  · exact c.spanAhead_over solid at_end
  · intro d
    rw [gap_eq]
  · exact gap_errors
  · intro d
    rw [gap_eq]

theorem closeBlock_agrees {what : String} {brace : Span}
    (solid : ∀ token ∈ c.ahead, token.kind ≠ .endOfInput)
    (clear : (c.closeBlock what brace).faults = []) : Agrees c (c.closeBlock what brace) := by
  unfold closeBlock at clear ⊢
  split
  · exact c.take_agrees _ _
  · rename_i brace_next
    rw [if_neg brace_next] at clear
    exact c.unclosed_agrees solid clear

end Cursor

namespace Production

def isOrdinary : Production → Bool
  | within kind body => kind ≠ .error && body.isOrdinary
  | into kind => kind ≠ .error
  | scope body | loop body | block _ body => body.isOrdinary
  | wrap yes no first question rest =>
    yes ≠ .error && no ≠ .error && first.isOrdinary && question.isOrdinary && rest.isOrdinary
  | seq first second => first.isOrdinary && second.isOrdinary
  | branch question yes no => question.isOrdinary && yes.isOrdinary && no.isOrdinary
  | missing kind _ => !kind.isLexical && kind ≠ .unclosedBlock
  | _ => true

theorem rounds_agrees {round : Cursor → Outcome} (spent : ∀ c, Spent c (round c))
    (inner : ∀ c : Cursor, (∀ token ∈ c.ahead, token.kind ≠ .endOfInput) →
      (round c).faults = [] → Agrees c (round c))
    (limit : List Token) {c : Cursor} (solid : ∀ token ∈ c.ahead, token.kind ≠ .endOfInput)
    (clear : (rounds round limit c).faults = []) : Agrees c (rounds round limit c) := by
  apply rounds_induction (fun c => ∀ token ∈ c.ahead, token.kind ≠ .endOfInput) _ _ _ limit solid clear
  · exact fun c solid _ token member => solid token ((spent c).subset member)
  · exact fun c _ => c.quiet_agrees true
  · exact fun c rest solid one _ later => (inner c solid one).andThen (spent c) one later

theorem run_agrees (x : Production) (ordinary : x.isOrdinary = true) {c : Cursor}
    (solid : ∀ token ∈ c.ahead, token.kind ≠ .endOfInput) (clear : (x.run c).faults = []) :
    Agrees c (x.run c) := by
  induction x using wrapped_induction generalizing c with
  | answer value => exact c.quiet_agrees value
  | look n among => exact c.look_agrees n among
  | glance n among => exact c.quiet_agrees _
  | demand among =>
    have looked := (Outcome.andThen_clear clear).1
    exact (c.look_agrees 0 among).andThen (c.look_spent 0 among) looked
      (Cursor.check_agrees _ _ _ _)
  | impossible => exact c.check_agrees _ _ _
  | take among => exact c.take_agrees among none
  | name => exact c.take_agrees .words (some .identifier)
  | pass => exact c.quiet_agrees true
  | settle => exact c.settle_agrees
  | within kind body ih =>
    simp only [isOrdinary, Bool.and_eq_true, decide_eq_true_eq] at ordinary
    exact (ih ordinary.2 solid clear).wrapped ordinary.1
  | into kind =>
    have plain : kind ≠ .error := by simpa [isOrdinary] using ordinary
    refine agrees_silent rfl ?_ rfl
    show (if kind = .error then [c.offset] else []) ++ [] = []
    rw [if_neg plain]
    rfl
  | count opened => exact c.quiet_agrees true
  | scope body ih => exact (ih ordinary solid clear).closed
  | wrap yes no first question rest ih =>
    simp only [isOrdinary, Bool.and_eq_true, decide_eq_true_eq] at ordinary
    have inside : (wrapped first question rest).isOrdinary = true := by
      simp only [wrapped, isOrdinary, ordinary, Bool.and_true]
    exact (ih inside solid clear).wrapped (by split <;> simp only [ordinary, ne_eq, not_false_eq_true])
  | seq first second first_ih second_ih =>
    simp only [isOrdinary, Bool.and_eq_true] at ordinary
    rcases Outcome.andThen_clear clear with ⟨first_clear, second_clear⟩
    apply (first_ih ordinary.1 solid first_clear).andThen (first.run_spent c) first_clear
    exact second_ih ordinary.2 (fun token member => solid token ((first.run_spent c).subset member))
      second_clear
  | branch question yes no question_ih yes_ih no_ih =>
    simp only [isOrdinary, Bool.and_eq_true] at ordinary
    have rest_solid : ∀ token ∈ (question.run c).cursor.ahead, token.kind ≠ .endOfInput :=
      fun token member => solid token ((question.run_spent c).subset member)
    obtain ⟨asked, ⟨rest, whole⟩ | ⟨rest, whole⟩⟩ := branch_cases clear
    all_goals
      rw [whole]
      apply (question_ih ordinary.1.1 solid asked).andThen (question.run_spent c) asked
    · exact yes_ih ordinary.1.2 rest_solid rest
    · exact no_ih ordinary.2 rest_solid rest
  | loop body ih => exact rounds_agrees body.run_spent (fun c => ih ordinary) _ solid clear
  | missing kind message =>
    simp only [isOrdinary, Bool.and_eq_true, Bool.not_eq_true', decide_eq_true_eq] at ordinary
    exact c.missing_agrees ordinary.1 ordinary.2 clear
  | skip complaint => exact c.skip_agrees clear
  | block what body ih =>
    obtain ⟨open_clear, body_clear, close_clear⟩ := Cursor.block_clear clear
    rw [run, Cursor.block]
    have body_solid : ∀ token ∈ (c.take (.single TokenKind.braceOpen) none).cursor.ahead,
        token.kind ≠ .endOfInput :=
      fun token member => solid token ((c.take_own_spent _).subset member)
    apply (c.take_agrees _ none).andThen (c.take_own_spent _) open_clear
    apply (ih ordinary body_solid body_clear).andThen (body.run_spent _) body_clear
    exact Cursor.closeBlock_agrees _
      (fun token member => body_solid token ((body.run_spent _).subset member)) close_clear

end Production

end CraftDsl
