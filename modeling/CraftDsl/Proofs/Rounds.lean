import CraftDsl.Proofs.Cursors

/-!
Which way a branch goes, how a loop goes on and what a block runs, where they fail no check. Main
statements: `branch_cases`, `rounds_eq`, `rounds_induction`.
-/
namespace CraftDsl

theorem Outcome.andThen_congr {o p : Outcome} {next next' : Bool → Cursor → Outcome} (same : o = p)
    (later : next p.answer p.cursor = next' p.answer p.cursor) : o.andThen next = p.andThen next' := by
  rw [same, andThen, andThen, later]

/-- A block runs its opening brace, what is in it and its end. -/
theorem Cursor.block_clear {c : Cursor} {what : String} {body : Cursor → Outcome}
    (clear : (c.block what body).faults = []) :
    (c.take (.single TokenKind.braceOpen) none).faults = [] ∧
      (body (c.take (.single TokenKind.braceOpen) none).cursor).faults = [] ∧
        ((body (c.take (.single TokenKind.braceOpen) none).cursor).cursor.closeBlock what
          c.spanAhead).faults = [] := by
  obtain ⟨opened, rest⟩ := Outcome.andThen_clear clear
  obtain ⟨filled, closed⟩ := Outcome.andThen_clear rest
  exact ⟨opened, filled, closed⟩

namespace Production

section

variable {question yes no : Production} {c : Cursor}

theorem run_yes (answer : (question.run c).answer = true) :
    (branch question yes no).run c = (question.run c).andThen fun _ c => yes.run c := by
  rw [run, Outcome.andThen, if_pos answer]
  rfl

theorem run_no (answer : ¬ (question.run c).answer = true) :
    (branch question yes no).run c = (question.run c).andThen fun _ c => no.run c := by
  rw [run, Outcome.andThen, if_neg answer]
  rfl

/-- A branch is its question and one of the productions after it. -/
theorem branch_cases (clear : ((branch question yes no).run c).faults = []) :
    (question.run c).faults = [] ∧
      ((yes.run (question.run c).cursor).faults = [] ∧
          (branch question yes no).run c = (question.run c).andThen (fun _ c => yes.run c) ∨
        (no.run (question.run c).cursor).faults = [] ∧
          (branch question yes no).run c = (question.run c).andThen fun _ c => no.run c) := by
  obtain ⟨asked, rest⟩ := Outcome.andThen_clear clear
  refine ⟨asked, ?_⟩
  by_cases answer : (question.run c).answer = true
  · rw [if_pos answer] at rest
    exact .inl ⟨rest, run_yes answer⟩
  · rw [if_neg answer] at rest
    exact .inr ⟨rest, run_no answer⟩

end

section

variable {round : Cursor → Outcome} {limit : List Token} {c : Cursor}

theorem rounds_clear (clear : (rounds round limit c).faults = []) : (round c).faults = [] := by
  cases limit with
  | nil => exact (Outcome.andThen_clear clear).1
  | cons token limit => exact (Outcome.andThen_clear clear).1

theorem rounds_stalled (clear : (rounds round [] c).faults = []) : (round c).answer = false := by
  obtain ⟨-, stalled⟩ := Outcome.andThen_clear clear
  simpa [Outcome.check] using stalled

/-- A loop that fails no check goes on for as long as its body answers yes. -/
theorem rounds_eq (clear : (rounds round limit c).faults = []) :
    rounds round limit c = (round c).andThen fun again c =>
      if again then rounds round limit.tail c else .quiet true c := by
  cases limit with
  | cons token limit => rfl
  | nil =>
    simp only [rounds, Outcome.andThen, rounds_stalled clear]
    rfl

theorem rounds_more (clear : (rounds round limit c).faults = []) (again : (round c).answer = true) :
    rounds round limit c = (round c).andThen fun _ c => rounds round limit.tail c := by
  rw [rounds_eq clear]
  exact Outcome.andThen_congr rfl (if_pos again)

theorem rounds_done (clear : (rounds round limit c).faults = []) (ended : (round c).answer = false) :
    rounds round limit c = (round c).andThen fun _ c => .quiet true c := by
  rw [rounds_eq clear]
  exact Outcome.andThen_congr rfl (if_neg (Bool.eq_false_iff.mp ended))

/-- Induction along the rounds of a loop. A round begins where its cursor is `ready`, and so does the
next one after it. What holds of doing nothing, and of a round with more to follow, holds of the loop. -/
theorem rounds_induction (ready : Cursor → Prop) {motive : Cursor → Outcome → Prop}
    (onward : ∀ c, ready c → (round c).faults = [] → ready (round c).cursor)
    (quiet : ∀ c, ready c → motive c (.quiet true c))
    (andThen : ∀ c rest, ready c → (round c).faults = [] → rest.faults = [] →
      motive (round c).cursor rest → motive c ((round c).andThen fun _ _ => rest))
    (limit : List Token) (begins : ready c) (clear : (rounds round limit c).faults = []) :
    motive c (rounds round limit c) := by
  have last {limit : List Token} {c : Cursor} (begins : ready c)
      (clear : (rounds round limit c).faults = []) (ended : (round c).answer = false) :
      motive c (rounds round limit c) := by
    have one := rounds_clear clear
    rw [rounds_done clear ended]
    exact andThen c (.quiet true (round c).cursor) begins one rfl (quiet _ (onward c begins one))
  induction limit generalizing c with
  | nil => exact last begins clear (rounds_stalled clear)
  | cons token limit ih =>
    cases again : (round c).answer with
    | false => exact last begins clear again
    | true =>
      have whole := rounds_more clear again
      rw [whole] at clear ⊢
      obtain ⟨one, rest⟩ := Outcome.andThen_clear clear
      exact andThen c (rounds round limit (round c).cursor) begins one rest
        (ih (onward c begins one) rest)

end

end Production

end CraftDsl
