import CraftDsl.Text.Position
import Mathlib.Algebra.GroupWithZero.Nat

/-!
Positions tell the places of a text apart. Further on in the text they are in a line further down, or
in the same line further right, and line and column lead back to the offset. Main statement:
`positions_recover`.
-/
namespace CraftDsl

/-- The offset is where a character begins, or where the text ends. -/
def CharBoundary (source : List Char) (offset : Nat) : Prop :=
  ∃ before after, source = before ++ after ∧ byteLength before = offset

theorem splitOn_length (text : List Char) : (text.splitOn '\n').length = text.count '\n' + 1 := by
  induction text with
  | nil => simp
  | cons c text ih =>
    rw [List.splitOn_cons_eq_if_modifyHead, List.count_cons]
    split <;> simp [ih]

theorem splitOn_width (text : List Char) :
    ((text.splitOn '\n').map fun line => byteLength line + 1).sum = byteLength text + 1 := by
  induction text with
  | nil => simp
  | cons c text ih =>
    obtain ⟨line, lines, split⟩ := List.exists_cons_of_ne_nil (List.splitOn_ne_nil '\n' text)
    rw [split, List.map_cons, List.sum_cons] at ih
    rw [List.splitOn_cons_eq_if_modifyHead, split, byteLength_cons]
    by_cases newline : c = '\n'
    · have width : ('\n' : Char).utf8Size = 1 := rfl
      have nothing : byteLength [] = 0 := rfl
      rw [if_pos (by simpa using newline), List.map_cons, List.sum_cons, List.map_cons,
        List.sum_cons, ih, newline]
      omega
    · rw [if_neg (by simpa using newline), List.modifyHead_cons, List.map_cons, List.sum_cons,
        byteLength_cons]
      omega

theorem splitOn_inline {first : List Char} (inline : '\n' ∉ first) (text : List Char) :
    ∃ more lines, (first ++ text).splitOn '\n' = (first ++ more) :: lines := by
  induction first with
  | nil => exact List.exists_cons_of_ne_nil (List.splitOn_ne_nil '\n' text)
  | cons c first ih =>
    obtain ⟨other, later⟩ := List.ne_and_not_mem_of_not_mem_cons inline
    obtain ⟨more, lines, split⟩ := ih later
    refine ⟨more, lines, ?_⟩
    rw [List.cons_append, List.splitOn_cons_eq_if_modifyHead, split]
    simp [Ne.symm other]

theorem inline_or_last (text : List Char) :
    '\n' ∉ text ∨ ∃ above last, text = above ++ '\n' :: last ∧ '\n' ∉ last := by
  by_cases newline : '\n' ∈ text
  · obtain ⟨last, above, split, inline⟩ :=
      List.eq_append_cons_of_mem (List.mem_reverse.mpr newline)
    refine .inr ⟨above.reverse, last.reverse, ?_, by simpa using inline⟩
    simpa using congrArg List.reverse split
  · exact .inl newline

namespace Position

/-- In a line further up, or in the same line further left. -/
def Before (p q : Position) : Prop := p.line < q.line ∨ p.line = q.line ∧ p.column < q.column

theorem Before.trans {p q r : Position} (first : p.Before q) (second : q.Before r) : p.Before r := by
  unfold Before at *
  omega

theorem before_after (p : Position) (c : Char) : p.Before (p.after c) := by
  unfold Before Position.after
  split <;> simp

theorem before_foldl (p : Position) {text : List Char} (some : text ≠ []) :
    p.Before (text.foldl Position.after p) := by
  induction text generalizing p with
  | nil => exact absurd rfl some
  | cons c text ih =>
    by_cases last : text = []
    · simpa [last] using p.before_after c
    · exact (p.before_after c).trans (ih _ last)

theorem advance_text (p : Position) (text rest : List Char) :
    p.advance (text ++ rest) (byteLength text) = some (text.foldl Position.after p) := by
  induction text generalizing p with
  | nil => simp [byteLength, Position.advance]
  | cons c text ih =>
    have wide := c.utf8Size_pos
    rw [byteLength_cons, List.cons_append, Position.advance.eq_3 _ _ _ _ (by omega),
      if_neg (by omega), Nat.add_sub_cancel_left]
    exact ih _

theorem advance_past (p : Position) {text : List Char} {offset : Nat}
    (past : byteLength text ≤ offset) :
    p.advance text offset = some (text.foldl Position.after p) := by
  induction text generalizing p offset with
  | nil => cases offset <;> rfl
  | cons c text ih =>
    have wide := c.utf8Size_pos
    rw [byteLength_cons] at past
    rw [Position.advance.eq_3 _ _ _ _ (by omega), if_neg (by omega), ih _ (by omega),
      List.foldl_cons]

theorem foldl_line (p : Position) (text : List Char) :
    (text.foldl Position.after p).line = p.line + text.count '\n' := by
  induction text generalizing p with
  | nil => simp
  | cons c text ih =>
    rw [List.foldl_cons, ih, List.count_cons, Position.after]
    by_cases newline : c = '\n'
    · simp [newline]
      omega
    · simp [newline]

/-- Within a line only the column changes. -/
theorem foldl_inline (p : Position) {text : List Char} (inline : '\n' ∉ text) :
    text.foldl Position.after p = ⟨p.line, p.column + text.length⟩ := by
  induction text generalizing p with
  | nil => simp
  | cons c text ih =>
    obtain ⟨other, later⟩ := List.ne_and_not_mem_of_not_mem_cons inline
    rw [List.foldl_cons, ih _ later, Position.after, if_neg (Ne.symm other), List.length_cons]
    simp only [Position.mk.injEq, true_and]
    omega

theorem foldl_last (p : Position) (above : List Char) {last : List Char} (inline : '\n' ∉ last) :
    (above ++ '\n' :: last).foldl Position.after p =
      ⟨p.line + above.count '\n' + 1, last.length + 1⟩ := by
  rw [List.foldl_append, List.foldl_cons, foldl_inline _ inline, ← foldl_line]
  simp [Position.after, Nat.add_comm]

/-- The offset where a line begins: behind the lines before it, each with its newline. -/
def lineStart (source : List Char) (line : Nat) : Nat :=
  (((source.splitOn '\n').take (line - 1)).map fun text => byteLength text + 1).sum

/-- The offset that a position stands for: the start of its line and the bytes of the characters
before its column. There is none if the line, or the column in it, does not exist. -/
def offset? (source : List Char) (p : Position) : Option Nat :=
  (source.splitOn '\n')[p.line - 1]?.bind fun text =>
    if p.column - 1 ≤ text.length then
      some (lineStart source p.line + byteLength (text.take (p.column - 1)))
    else none

theorem offset?_foldl (before after : List Char) :
    (before.foldl Position.after first).offset? (before ++ after) = some (byteLength before) := by
  rcases inline_or_last before with inline | ⟨above, last, rfl, inline⟩
  · obtain ⟨more, lines, split⟩ := splitOn_inline inline after
    rw [foldl_inline first inline, offset?, lineStart, split]
    simp [first, Nat.add_comm 1]
  · obtain ⟨more, lines, split⟩ := splitOn_inline inline after
    rw [foldl_last first above inline, offset?, lineStart, List.append_assoc, List.cons_append,
      List.splitOn_append_cons_self, split]
    have begun : first.line + above.count '\n' + 1 - 1 = (above.splitOn '\n').length := by
      simp [first, splitOn_length, Nat.add_comm]
    have newline : ('\n' : Char).utf8Size = 1 := rfl
    simp only [begun, List.take_left', splitOn_width]
    simp [byteLength_append, byteLength_cons, newline]
    omega

end Position

theorem CharBoundary.position {source : List Char} {offset : Nat}
    (boundary : CharBoundary source offset) :
    ∃ p, positionAt? source offset = some p ∧ p.offset? source = some offset := by
  obtain ⟨before, after, rfl, rfl⟩ := boundary
  exact ⟨_, Position.advance_text .first before after, Position.offset?_foldl before after⟩

theorem positionAt?_before {source : List Char} {one other : Nat} (first : CharBoundary source one)
    (second : CharBoundary source other) (less : one < other) {p q : Position}
    (here : positionAt? source one = some p) (there : positionAt? source other = some q) :
    p.Before q := by
  obtain ⟨before, after, rfl, rfl⟩ := first
  obtain ⟨longer, rest, split, rfl⟩ := second
  obtain ⟨between, rfl⟩ : ∃ between, longer = before ++ between := by
    rcases List.append_eq_append_iff.mp split with ⟨between, same, -⟩ | ⟨between, same, -⟩
    · exact ⟨between, same⟩
    · rw [same, byteLength_append] at less
      omega
  rw [positionAt?, Position.advance_text] at here
  rw [positionAt?, split, Position.advance_text, List.foldl_append] at there
  have some : between ≠ [] := by
    rintro rfl
    simp at less
  rw [← Option.some.inj here, ← Option.some.inj there]
  exact Position.before_foldl _ some

/-- Every place of a text has a position, which leads back to the offset: to the start of the line and
over the characters before the column. Positions rise strictly with the offset, so that no two places
have the same. Past the end the position is that of the end. -/
theorem positions_recover (source : List Char) :
    (∀ offset, CharBoundary source offset →
        ∃ p, positionAt? source offset = some p ∧ p.offset? source = some offset) ∧
      (∀ one other p q, CharBoundary source one → CharBoundary source other → one < other →
        positionAt? source one = some p → positionAt? source other = some q → p.Before q) ∧
      (∀ one other, CharBoundary source one → CharBoundary source other →
        positionAt? source one = positionAt? source other → one = other) ∧
      ∀ offset, byteLength source ≤ offset →
        positionAt? source offset = positionAt? source (byteLength source) := by
  refine ⟨fun offset boundary => boundary.position, ?_, ?_, ?_⟩
  · intro one other p q first second less here there
    exact positionAt?_before first second less here there
  · intro one other first second same
    obtain ⟨p, here, back⟩ := first.position
    obtain ⟨q, there, back'⟩ := second.position
    obtain rfl : p = q := Option.some.inj (here.symm.trans (same.trans there))
    exact Option.some.inj (back.symm.trans back')
  · intro offset past
    rw [positionAt?, positionAt?, Position.advance_past _ past,
      Position.advance_past _ (Nat.le_refl _)]

/-- Two lines, the first with a character of two bytes. -/
def accentedLines : List Char := "é x\nab".toList

theorem accentedLines_recovered :
    positionAt? accentedLines 3 = some ⟨1, 3⟩ ∧ positionAt? accentedLines 5 = some ⟨2, 1⟩ ∧
      Position.Before ⟨1, 3⟩ ⟨2, 1⟩ ∧
      (∃ p, positionAt? accentedLines 5 = some p ∧ p.offset? accentedLines = some 5) ∧
      positionAt? accentedLines 99 = positionAt? accentedLines 7 := by
  have inner : CharBoundary accentedLines 3 := ⟨['é', ' '], ['x', '\n', 'a', 'b'], rfl, rfl⟩
  have begun : CharBoundary accentedLines 5 := ⟨['é', ' ', 'x', '\n'], ['a', 'b'], rfl, rfl⟩
  obtain ⟨recovered, rises, -, clamped⟩ := positions_recover accentedLines
  have here : positionAt? accentedLines 3 = some ⟨1, 3⟩ := by decide +kernel
  have there : positionAt? accentedLines 5 = some ⟨2, 1⟩ := by decide +kernel
  exact ⟨here, there, rises 3 5 _ _ inner begun (by decide) here there, recovered 5 begun,
    clamped 99 (by decide +kernel)⟩

end CraftDsl
