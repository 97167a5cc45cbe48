import CraftDsl.Proofs.BlankLines.Items

/-!
Blanks between tokens. No token but a line comment, or a string or comment without an end, goes on over
a blank behind it, so blanks may be put in between any two others. Main statement:
`tokenize_insert_blanks`.
-/
namespace CraftDsl

/-- Whether a token ends where it does whatever blanks come after it. -/
def TokenKind.isClosed : TokenKind → Bool
  | lineComment | unterminatedString | unterminatedComment => false
  | _ => true

theorem run_stopped {p : Char → Bool} {b : Char} (stops : p b = false) (cs more : List Char) :
    (cs ++ b :: more).takeWhile p = cs.takeWhile p ∧
      ((cs ++ b :: more).dropWhile p).head? = ((cs.dropWhile p).head? <|> some b) := by
  induction cs with
  | nil => simp [stops]
  | cons c cs ih =>
    rw [List.cons_append, List.takeWhile_cons, List.takeWhile_cons, List.dropWhile_cons,
      List.dropWhile_cons]
    cases p c with
    | true => exact ⟨congrArg (List.cons c) ih.1, ih.2⟩
    | false => exact ⟨rfl, rfl⟩

section

variable {b : Char} (blank : isBlank b = true) (more : List Char)

include blank

theorem blank_inert : isWordChar b = false ∧ b.isDigit = false ∧ b ≠ '%' ∧ b ≠ '\n' ∧ b ≠ '>' ∧
    b ≠ '/' ∧ b ≠ '*' := by
  rw [isBlank, Bool.or_eq_true, decide_eq_true_eq, decide_eq_true_eq] at blank
  rcases blank with rfl | rfl <;> decide

theorem scanMark_lone (c : Char) : scanMark c (b :: more) = scanMark c [] := by
  obtain ⟨-, -, -, line, greater, slash, star⟩ := blank_inert blank
  have alone : scanMark c [] = (.garbage, 0) := by
    rw [scanMark] <;> simp
  rw [alone, scanMark]
  · exact fun _ _ same => line (List.cons.inj same).1
  · exact fun _ _ same => greater (List.cons.inj same).1
  · exact fun _ _ same => slash (List.cons.inj same).1
  · exact fun _ _ same => star (List.cons.inj same).1

theorem scanMark_blank {c : Char} {cs : List Char} (closed : (scanMark c cs).1.isClosed = true) :
    scanMark c (cs ++ b :: more) = scanMark c cs := by
  by_cases inside : (scanMark c cs).2 < cs.length ∨ (scanMark c cs).1 = .newline
  · exact scanMark_append c cs _ inside
  · unfold scanMark at inside closed
    split at inside
    · rfl
    · rfl
    · cases closed
    · rename_i rest
      cases ending : commentEnd? 0 rest with
      | none => simp [ending, TokenKind.isClosed] at closed
      | some n => simp only [List.cons_append, scanMark, commentEnd?_append _ ending, ending]
    · obtain rfl : cs = [] := by simpa using inside
      exact scanMark_lone blank more _

/-- A token of the front stays what it is if a blank is put in behind the front. -/
theorem scan_blank {c : Char} {cs : List Char} (closed : (scan c cs).1.isClosed = true)
    (solid : (scan c cs).1 ≠ .whitespace) : scan c (cs ++ b :: more) = scan c cs := by
  obtain ⟨word_end, digits_end, percent, -⟩ := blank_inert blank
  cases mark : punctuation? c with
  | some kind => simp only [scan, mark]
  | none =>
    by_cases word : isWordStart c = true
    · simp only [scan, mark, if_pos word, (run_stopped word_end cs more).1]
    by_cases space : isBlank c = true
    · simp only [scan, mark, if_neg word, if_pos space, ne_eq, not_true] at solid
    by_cases line : c = '\n'
    · simp only [scan, mark, if_neg word, if_neg space, if_pos line]
    by_cases digit : c.isDigit = true
    · obtain ⟨digits, next⟩ := run_stopped digits_end cs more
      simp only [scan, mark, if_neg word, if_neg space, if_neg line, if_pos digit, digits, next]
      cases (cs.dropWhile Char.isDigit).head? <;> simp [percent]
    by_cases quote : c = '"'
    · simp only [scan, mark, if_neg word, if_neg space, if_neg line, if_neg digit, if_pos quote]
        at closed ⊢
      cases closing : closingQuote? 0 cs with
      | none => simp [closing, TokenKind.isClosed] at closed
      | some n => rw [closingQuote?_append _ closing]
    rw [scan_mark cs mark word space line digit quote] at closed ⊢
    rw [scan_mark _ mark word space line digit quote]
    exact scanMark_blank blank more closed

theorem scan_blanks (cs : List Char) : scan b cs = (.whitespace, (cs.takeWhile isBlank).length) := by
  rw [isBlank, Bool.or_eq_true, decide_eq_true_eq, decide_eq_true_eq] at blank
  rcases blank with rfl | rfl <;> rfl

end

theorem tokenize_dropBlanks (source : List Char) :
    tokenize (source.dropWhile isBlank) = tokenize source := by
  cases source with
  | nil => rfl
  | cons c cs =>
    cases blank : isBlank c with
    | false => rw [List.dropWhile_cons_of_neg (by simp [blank])]
    | true =>
      have rest : cs.drop (cs.takeWhile isBlank).length = cs.dropWhile isBlank := by
        have split := congrArg (List.drop (cs.takeWhile isBlank).length)
          (List.takeWhile_append_dropWhile (p := isBlank) (l := cs))
        rwa [List.drop_left, eq_comm] at split
      rw [List.dropWhile_cons_of_pos blank, tokenize_eq, tokenize_eq, lex_cons, scan_blanks blank, rest]
      rfl

theorem tokenize_blanks {blanks : List Char} (blank : ∀ c ∈ blanks, isBlank c = true)
    (source : List Char) : tokenize (blanks ++ source) = tokenize source := by
  rw [← tokenize_dropBlanks (blanks ++ source), List.dropWhile_append_of_pos blank, tokenize_dropBlanks]

/-- Before a blank the text before it is cut up as it is on its own. -/
theorem tokenize_append_blank {first : List Char}
    (closed : ∀ last ∈ (lex first).getLast?, last.kind.isClosed = true) {b : Char}
    (blank : isBlank b = true) (more : List Char) :
    tokenize (first ++ b :: more) = tokenize first ++ tokenize (b :: more) := by
  rw [tokenize_eq first]
  revert closed
  refine lex_induction (motive := fun source tokens =>
    (∀ last ∈ tokens.getLast?, last.kind.isClosed = true) →
      tokenize (source ++ b :: more) =
        tokens.filter (fun t => t.kind ≠ .whitespace) ++ tokenize (b :: more)) (fun _ => rfl) ?_ first
  intro c cs ih closed
  rw [List.getLast?_cons] at closed
  have last := closed _ rfl
  have later : ∀ last ∈ (lex (cs.drop (scan c cs).2)).getLast?, last.kind.isClosed = true := by
    intro token found
    rwa [Option.mem_def.mp found, Option.getD_some] at last
  by_cases spaces : (scan c cs).2 = cs.length ∧ (scan c cs).1 = .whitespace
  -- A last run of blanks goes on into the blank behind it, and both are left out.
  · obtain ⟨whole, kind⟩ := spaces
    have blanks := (TokenKind.spelled_whitespace.mp (scan_spelled kind (by decide))).2
    rw [whole, List.take_length] at blanks
    rw [tokenize_blanks blanks, whole, List.drop_length, lex_nil, kind]
    rfl
  · have stays : scan c (cs ++ b :: more) = scan c cs := by
      by_cases inside : (scan c cs).2 < cs.length
      · exact scan_append c cs _ (.inl inside)
      · have whole : (scan c cs).2 = cs.length :=
          Nat.le_antisymm (scan_fits c cs) (Nat.le_of_not_lt inside)
        rw [whole, List.drop_length, lex_nil] at last
        exact scan_blank blank more last fun kind => spaces ⟨whole, kind⟩
    have step := ih later
    rw [tokenize_eq] at step ⊢
    rw [List.cons_append, lex_cons, stays, List.take_append_of_le_length (scan_fits c cs),
      List.drop_append_of_le_length (scan_fits c cs), List.filter_cons, step, List.filter_cons]
    split <;> rfl

theorem tokenize_apart {first blanks : List Char}
    (closed : ∀ last ∈ (lex first).getLast?, last.kind.isClosed = true)
    (blank : ∀ c ∈ blanks, isBlank c = true) (between : blanks ≠ []) (second : List Char) :
    tokenize (first ++ blanks ++ second) = tokenize first ++ tokenize second := by
  obtain ⟨b, bs, rfl⟩ := List.exists_cons_of_ne_nil between
  rw [List.append_assoc, List.cons_append, tokenize_append_blank closed (blank b List.mem_cons_self),
    ← List.cons_append, tokenize_blanks blank]

/-- Blanks put in behind a token go unnoticed, unless the token is a line comment or has no end of its
own. -/
theorem tokenize_insert_blanks {source blanks : List Char} {place : Nat}
    (blank : ∀ c ∈ blanks, isBlank c = true)
    (closed : ∀ last ∈ ((lex source).take place).getLast?, last.kind.isClosed = true) :
    tokenize (insertAfter place blanks source) = tokenize source := by
  have split := List.take_append_drop place (lex source)
  have front := lex_front split.symm
  have rest := lex_rest split.symm
  rw [insertAfter_eq]
  by_cases between : blanks = []
  · rw [between, List.append_nil, ← List.flatMap_append, split, lex_text]
  · rw [tokenize_apart (by rwa [front]) blank between, tokenize_eq, tokenize_eq, tokenize_eq, front, rest,
      ← List.filter_append, split]

/-- A lone dash, an arrow, a percentage and a comment, with no blanks between them. -/
def crowded : List Char := "-->50%//x".toList

theorem crowded_apart : tokenize (insertAfter 1 [' ', '\t'] crowded) = tokenize crowded :=
  tokenize_insert_blanks (List.forall_mem_cons.mpr ⟨rfl, List.forall_mem_singleton.mpr rfl⟩)
    (by decide +kernel)

end CraftDsl
