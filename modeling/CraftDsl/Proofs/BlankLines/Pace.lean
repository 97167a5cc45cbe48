import CraftDsl.Proofs.BlankLines.Core
import CraftDsl.Proofs.Cut

/-!
Two productions in step. From places that are near to each other they add trees with the same core and
come to places that are near again. What being near comes to is a parameter, and so is what is known
about the first of the two runs. Main statements: `mirrors_seq`, `mirrors_branch`, `mirrors_loop`,
`mirrors_block`.
-/
namespace CraftDsl

/-- Which places are near to each other, and what is known of the outcomes in the first of two runs: it
holds of the parts if it holds of the whole. -/
structure Pace where
  near : Cursor → Cursor → Prop
  known : Outcome → Prop
  parts : ∀ {o : Outcome} {next : Bool → Cursor → Outcome}, known (o.andThen next) →
    known o ∧ known (next o.answer o.cursor)
  inside : ∀ {o : Outcome} {kind : NodeKind}, known (o.wrapped kind) → known o
  before : ∀ {o : Outcome}, known o.closed → known o

/-- The outcomes in step: the same core and near places. The answers are the same unless they are
idle. -/
structure Pace.Matches (P : Pace) (idle : Bool) (o p : Outcome) : Prop where
  answer : idle = true ∨ p.answer = o.answer
  core : corePieces p.pieces = corePieces o.pieces
  cursor : P.near o.cursor p.cursor

namespace Pace

variable {P : Pace} {idle : Bool} {o p : Outcome}

namespace Matches

theorem idly (one : P.Matches false o p) (idle : Bool) : P.Matches idle o p :=
  ⟨.inr (one.answer.resolve_left Bool.false_ne_true), one.core, one.cursor⟩

theorem andThen {next next' : Bool → Cursor → Outcome} {first : Bool} (one : P.Matches first o p)
    (later : P.Matches idle (next o.answer o.cursor) (next' p.answer p.cursor)) :
    P.Matches idle (o.andThen next) (p.andThen next') := by
  refine ⟨later.answer, ?_, later.cursor⟩
  rw [Outcome.andThen, Outcome.andThen, corePieces_append, corePieces_append, one.core, later.core]

theorem wrapped (inner : P.Matches idle o p) (kind : NodeKind) :
    P.Matches idle (o.wrapped kind) (p.wrapped kind) := by
  refine ⟨inner.answer, ?_, inner.cursor⟩
  rw [Outcome.wrapped, Outcome.wrapped, corePieces_node, corePieces_node, inner.core]

theorem closed (inner : P.Matches idle o p) : P.Matches idle o.closed p.closed := by
  refine ⟨inner.answer, ?_, inner.cursor⟩
  rw [Outcome.closed, Outcome.closed, corePieces_closed, corePieces_closed, inner.core]

end Matches

theorem quiet {c d : Cursor} (near : P.near c d) (value : Bool) :
    P.Matches idle (.quiet value c) (.quiet value d) := ⟨.inr rfl, rfl, near⟩

end Pace

/-- The outcome goes on as the second does, after pieces with the core. -/
structure Outcome.Onward (core : List Piece) (o p : Outcome) : Prop where
  core : corePieces o.pieces = core ++ corePieces p.pieces
  answer : o.answer = p.answer
  cursor : o.cursor = p.cursor

namespace Outcome.Onward

theorem refl (o : Outcome) : Onward [] o o := ⟨rfl, rfl, rfl⟩

theorem trans {o p q : Outcome} {first second : List Piece} (one : Onward first o p)
    (two : Onward second p q) : Onward (first ++ second) o q := by
  refine ⟨?_, one.answer.trans two.answer, one.cursor.trans two.cursor⟩
  rw [one.core, two.core, List.append_assoc]

theorem andThen (o : Outcome) (next : Bool → Cursor → Outcome) :
    Onward (corePieces o.pieces) (o.andThen next) (next o.answer o.cursor) :=
  ⟨corePieces_append _ _, rfl, rfl⟩

end Outcome.Onward

namespace Production

def Passes (P : Pace) (round : Cursor → Outcome) (limit : List Token) (d : Cursor) (o : Outcome) :
    Prop :=
  ∃ limit' d', P.near o.cursor d' ∧ (rounds round limit' d').faults = [] ∧
    Outcome.Onward (corePieces o.pieces) (rounds round limit d) (rounds round limit' d')

/-- A round that answers yes, and then the other rounds. -/
theorem rounds_again {round : Cursor → Outcome} {limit : List Token} {c : Cursor}
    (clear : (rounds round limit c).faults = []) (again : (round c).answer = true) :
    (rounds round limit.tail (round c).cursor).faults = [] ∧
      Outcome.Onward (corePieces (round c).pieces) (rounds round limit c)
        (rounds round limit.tail (round c).cursor) := by
  have whole := rounds_more clear again
  rw [whole] at clear ⊢
  exact ⟨(Outcome.andThen_clear clear).2, .andThen _ _⟩

theorem rounds_pass {P : Pace} {idle : Bool} {round : Cursor → Outcome} {limit : List Token}
    {d : Cursor} {o : Outcome} (one : P.Matches idle o (round d)) (again : (round d).answer = true)
    (clear : (rounds round limit d).faults = []) : Passes P round limit d o := by
  obtain ⟨rest, onward⟩ := rounds_again clear again
  exact ⟨_, _, one.cursor, rest, one.core ▸ onward⟩

def Mirrors (P : Pace) (idle : Bool) (x y : Production) : Prop :=
  ∀ ⦃c d : Cursor⦄, P.near c d → (x.run c).faults = [] → (y.run d).faults = [] →
    P.known (x.run c) → P.Matches idle (x.run c) (y.run d)

section

variable {P : Pace} {idle : Bool} {first first' second second' question question' yes yes' no no'
  rest rest' body body' : Production}

theorem mirrors_answer (value : Bool) : (answer value).Mirrors P idle (answer value) :=
  fun _ _ near _ _ _ => Pace.quiet near value

theorem mirrors_seq (one : first.Mirrors P true first') (two : second.Mirrors P idle second') :
    (seq first second).Mirrors P idle (seq first' second') := by
  intro c d near clear clear' known
  obtain ⟨started, rest⟩ := Outcome.andThen_clear clear
  obtain ⟨started', rest'⟩ := Outcome.andThen_clear clear'
  obtain ⟨known_first, known_rest⟩ := P.parts known
  have start := one near started started' known_first
  exact start.andThen (two start.cursor rest rest' known_rest)

theorem mirrors_branch (asking : question.Mirrors P false question')
    (affirming : yes.Mirrors P idle yes') (denying : no.Mirrors P idle no') :
    (branch question yes no).Mirrors P idle (branch question' yes' no') := by
  intro c d near clear clear' known
  obtain ⟨asked, rest⟩ := Outcome.andThen_clear clear
  obtain ⟨asked', rest'⟩ := Outcome.andThen_clear clear'
  obtain ⟨known_first, known_rest⟩ := P.parts known
  have start := asking near asked asked' known_first
  rw [start.answer.resolve_left Bool.false_ne_true] at rest'
  apply start.andThen
  rw [start.answer.resolve_left Bool.false_ne_true]
  by_cases answer : (question.run c).answer = true
  · rw [if_pos answer] at rest rest' known_rest
    rw [if_pos answer, if_pos answer]
    exact affirming start.cursor rest rest' known_rest
  · rw [if_neg answer] at rest rest' known_rest
    rw [if_neg answer, if_neg answer]
    exact denying start.cursor rest rest' known_rest

theorem mirrors_within (inner : body.Mirrors P idle body') (kind : NodeKind) :
    (within kind body).Mirrors P idle (within kind body') :=
  fun _ _ near clear clear' known => (inner near clear clear' (P.inside known)).wrapped kind

theorem mirrors_scope (inner : body.Mirrors P idle body') :
    (scope body).Mirrors P idle (scope body') :=
  fun _ _ near clear clear' known => (inner near clear clear' (P.before known)).closed

theorem mirrors_wrap (one : first.Mirrors P true first') (asking : question.Mirrors P false question')
    (more : rest.Mirrors P true rest') (yes no : NodeKind) :
    (wrap yes no first question rest).Mirrors P idle (wrap yes no first' question' rest') := by
  intro c d near clear clear' known
  have inner : (wrapped first question rest).Mirrors P false (wrapped first' question' rest') :=
    mirrors_seq one (mirrors_branch asking (mirrors_seq more (mirrors_answer true))
      (mirrors_answer false))
  rw [run_wrap] at known ⊢
  have whole := inner near clear clear' (P.inside known)
  rw [run_wrap, whole.answer.resolve_left Bool.false_ne_true]
  exact (whole.wrapped _).idly idle

theorem rounds_known {round : Cursor → Outcome} {limit : List Token} {c : Cursor}
    (known : P.known (rounds round limit c)) : P.known (round c) := by
  cases limit with
  | nil => exact (P.parts known).1
  | cons token limit => exact (P.parts known).1

/-- Rounds of two loops go in step, however many each of them may have, if for each round of the first
there is one of the second, or the second pass by it. In every round it is known how the rounds of the
first go on and end. -/
theorem rounds_onward {round round' : Cursor → Outcome} (last : Cursor → Prop)
    (inner : ∀ ⦃c d : Cursor⦄ ⦃limit limit' : List Token⦄, P.near c d →
      (rounds round limit c).faults = [] → (rounds round' limit' d).faults = [] →
        P.known (rounds round limit c) → last (rounds round limit c).cursor →
          P.Matches false (round c) (round' d) ∨
            (round c).answer = true ∧ Passes P round' limit' d (round c))
    (limit limit' : List Token) {c d : Cursor} (near : P.near c d)
    (clear : (rounds round limit c).faults = []) (clear' : (rounds round' limit' d).faults = [])
    (known : P.known (rounds round limit c)) (ends : last (rounds round limit c).cursor) :
    P.Matches idle (rounds round limit c) (rounds round' limit' d) := by
  have step := inner near clear clear' known ends
  induction limit generalizing limit' c d with
  | nil =>
    -- The limit is used up, so the first loop ended with this round.
    have final := rounds_stalled clear
    rcases step with first | ⟨again, -⟩
    · rw [rounds_eq clear']
      apply first.andThen
      rw [first.answer.resolve_left Bool.false_ne_true, final]
      exact ⟨.inr rfl, rfl, first.cursor⟩
    · rw [final] at again
      cases again
  | cons token limit ih =>
    obtain ⟨-, rest⟩ := Outcome.andThen_clear clear
    have known_rest := (P.parts known).2
    by_cases again : (round c).answer = true
    · rw [if_pos again] at rest known_rest
      -- The second loop has a round for this one too, or passes by it.
      obtain ⟨limit'', d', near', more, onward⟩ : Passes P round' limit' d (round c) :=
        step.elim (fun first => rounds_pass first
          ((first.answer.resolve_left Bool.false_ne_true).trans again) clear') And.right
      have whole : rounds round (token :: limit) c = (round c).andThen fun _ c =>
          rounds round limit c := rounds_more clear again
      rw [whole] at ends
      have later := ih limit'' near' rest more known_rest ends
        (inner near' rest more known_rest ends)
      rw [whole]
      refine ⟨later.answer.imp_right onward.answer.trans, ?_, ?_⟩
      · rw [onward.core, later.core]
        exact (corePieces_append _ _).symm
      · rw [onward.cursor]
        exact later.cursor
    · have first := step.resolve_right fun other => again other.1
      rw [rounds_eq clear']
      apply first.andThen
      rw [first.answer.resolve_left Bool.false_ne_true, if_neg again, if_neg again]
      exact Pace.quiet first.cursor true

theorem rounds_mirrors {round round' : Cursor → Outcome}
    (inner : ∀ ⦃c d : Cursor⦄ ⦃limit' : List Token⦄, P.near c d → (round c).faults = [] →
      (rounds round' limit' d).faults = [] → P.known (round c) →
        P.Matches false (round c) (round' d) ∨
          (round c).answer = true ∧ Passes P round' limit' d (round c))
    (limit limit' : List Token) {c d : Cursor} (near : P.near c d)
    (clear : (rounds round limit c).faults = []) (clear' : (rounds round' limit' d).faults = [])
    (known : P.known (rounds round limit c)) :
    P.Matches idle (rounds round limit c) (rounds round' limit' d) := by
  refine rounds_onward (fun _ => True) ?_ limit limit' near clear clear' known trivial
  intro c d limit limit' near clear clear' known _
  exact inner near (rounds_clear clear) clear' (rounds_known known)

theorem mirrors_loop (inner : body.Mirrors P false body') :
    (loop body).Mirrors P idle (loop body') :=
  fun c d near clear clear' known => rounds_mirrors
    (fun _ _ _ near one rest known => .inl (inner near one (rounds_clear rest) known))
    c.ahead d.ahead near clear clear' known

/-- Blocks go in step if their braces do. -/
theorem mirrors_block {what : String}
    (opens : (take (.single TokenKind.braceOpen)).Mirrors P true (take (.single TokenKind.braceOpen)))
    (inner : body.Mirrors P true body')
    (closes : ∀ ⦃b b' c d : Cursor⦄, P.near b b' → P.near c d →
      (c.closeBlock what b.spanAhead).faults = [] → (d.closeBlock what b'.spanAhead).faults = [] →
        P.known (c.closeBlock what b.spanAhead) →
          P.Matches idle (c.closeBlock what b.spanAhead) (d.closeBlock what b'.spanAhead)) :
    (block what body).Mirrors P idle (block what body') := by
  intro c d near clear clear' known
  obtain ⟨opened, filled, closed⟩ := Cursor.block_clear clear
  obtain ⟨opened', filled', closed'⟩ := Cursor.block_clear clear'
  have whole : P.known ((c.take (.single TokenKind.braceOpen) none).andThen fun _ inner =>
      (body.run inner).andThen fun _ after => after.closeBlock what c.spanAhead) := known
  obtain ⟨known_opening, known_rest⟩ := P.parts whole
  obtain ⟨known_body, known_closing⟩ := P.parts known_rest
  have opening := opens near opened opened' known_opening
  have middle := inner opening.cursor filled filled' known_body
  rw [run, run, Cursor.block, Cursor.block]
  apply opening.andThen
  apply middle.andThen
  exact closes near middle.cursor closed closed' known_closing

end

end Production

end CraftDsl
