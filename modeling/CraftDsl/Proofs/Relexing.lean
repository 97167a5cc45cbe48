import CraftDsl.Proofs.Lexing
import Mathlib.Data.List.TakeWhile

/-!
Lexing text by text. After a newline the lexer starts afresh, so the tokens of two texts put together
are those of the first and then those of the second, if the first ends with a newline. Main statement:
`lex_append`.
-/
namespace CraftDsl

theorem takeWhile_short {p : Char → Bool} {cs more : List Char}
    (short : (cs.takeWhile p).length < cs.length) :
    (cs ++ more).takeWhile p = cs.takeWhile p ∧
      ((cs ++ more).dropWhile p).head? = (cs.dropWhile p).head? := by
  obtain ⟨c, rest, left⟩ : ∃ c rest, cs.dropWhile p = c :: rest := by
    apply List.exists_cons_of_ne_nil
    intro nothing
    have all := congrArg List.length (List.takeWhile_append_dropWhile (p := p) (l := cs))
    rw [nothing, List.append_nil] at all
    omega
  have split : cs = cs.takeWhile p ++ c :: rest := by
    rw [← left, List.takeWhile_append_dropWhile]
  have stops : p c = false := by
    have head := List.head?_dropWhile_not p cs
    rw [left] at head
    simpa using head
  have runs : ∀ a ∈ cs.takeWhile p, p a = true := fun a member => List.mem_takeWhile_imp member
  constructor
  · conv_lhs => rw [split, List.append_assoc, List.takeWhile_append_of_pos runs]
    simp [stops]
  · conv_lhs => rw [split, List.append_assoc, List.dropWhile_append_of_pos runs]
    rw [left]
    simp [stops]

theorem closingQuote?_append {n m : Nat} {cs : List Char} (more : List Char)
    (found : closingQuote? n cs = some m) : closingQuote? n (cs ++ more) = some m := by
  fun_induction closingQuote? n cs with
  | case1 => cases found
  | case2 n cs => simpa [closingQuote?] using found
  | case3 n c cs ih => simpa [closingQuote?] using ih found
  | case4 n c cs quote escape ih =>
    cases cs with
    | nil => cases found
    | cons d ds =>
      have plain : c ≠ '\\' := fun same => escape d ds same rfl
      have later := ih found
      rw [List.cons_append, closingQuote?]
      · exact later
      · exact quote
      · exact fun _ _ same _ => plain same

theorem commentEnd?_append {n m : Nat} {cs : List Char} (more : List Char)
    (found : commentEnd? n cs = some m) : commentEnd? n (cs ++ more) = some m := by
  fun_induction commentEnd? n cs with
  | case1 => cases found
  | case2 n cs => simpa [commentEnd?] using found
  | case3 n c cs ending ih =>
    cases cs with
    | nil => cases found
    | cons d ds =>
      have later := ih found
      rw [List.cons_append, commentEnd?]
      · exact later
      · intro tail star slash
        rw [List.cons_append] at slash
        obtain ⟨rfl, -⟩ := List.cons.inj slash
        exact ending ds star rfl

theorem wordKind_inline (text : List Char) : wordKind text ≠ .newline := by
  unfold wordKind
  split <;> simp

def scanMark : Char → List Char → TokenKind × Nat
  | '\r', '\n' :: _ => (.newline, 1)
  | '-', '>' :: _ => (.arrow, 1)
  | '/', '/' :: rest => (.lineComment, 1 + (rest.takeWhile fun c => !isLineBreak c).length)
  | '/', '*' :: rest =>
    match commentEnd? 0 rest with
    | some n => (.blockComment, 1 + n)
    | none => (.unterminatedComment, 1 + rest.length)
  | _, _ => (.garbage, 0)

theorem scan_mark {c : Char} (cs : List Char) (mark : punctuation? c = none)
    (word : ¬ isWordStart c = true) (blank : ¬ isBlank c = true) (line : c ≠ '\n')
    (digit : ¬ c.isDigit = true) (quote : c ≠ '"') : scan c cs = scanMark c cs := by
  simp only [scan, mark, if_neg word, if_neg blank, if_neg line, if_neg digit, if_neg quote]
  rfl

theorem scanMark_append (c : Char) (cs more : List Char)
    (ends : (scanMark c cs).2 < cs.length ∨ (scanMark c cs).1 = .newline) :
    scanMark c (cs ++ more) = scanMark c cs := by
  unfold scanMark at ends
  split at ends
  · rfl
  · rfl
  · rename_i rest
    have short : (rest.takeWhile fun c => !isLineBreak c).length < rest.length := by
      have room : 1 + (rest.takeWhile fun c => !isLineBreak c).length < rest.length + 1 := by
        simpa using ends
      omega
    simp only [List.cons_append, scanMark, (takeWhile_short short).1]
  · rename_i rest
    cases ending : commentEnd? 0 rest with
    | none => simp [ending, Nat.add_comm] at ends
    | some n => simp only [List.cons_append, scanMark, commentEnd?_append more ending, ending]
  · rename_i return_line arrow line block
    cases cs with
    | nil => simp at ends
    | cons d ds =>
      have other {e : Char} (differs : ∀ tail, d :: ds = e :: tail → False) (tail : List Char) :
          d :: (ds ++ more) ≠ e :: tail := by
        intro same
        obtain ⟨rfl, -⟩ := List.cons.inj same
        exact differs ds rfl
      have garbage : scanMark c (d :: ds) = (.garbage, 0) := by
        rw [scanMark]
        · exact return_line
        · exact arrow
        · exact line
        · exact block
      rw [garbage, List.cons_append, scanMark]
      · exact fun tail same => other (fun tail => return_line tail same) tail
      · exact fun tail same => other (fun tail => arrow tail same) tail
      · exact fun tail same => other (fun tail => line tail same) tail
      · exact fun tail same => other (fun tail => block tail same) tail

/-- The lexer finds the same token in front of more text, if text is left after the token or the token
is a newline. -/
theorem scan_append (c : Char) (cs more : List Char)
    (ends : (scan c cs).2 < cs.length ∨ (scan c cs).1 = .newline) :
    scan c (cs ++ more) = scan c cs := by
  cases mark : punctuation? c with
  | some kind => simp only [scan, mark]
  | none =>
    by_cases word : isWordStart c = true
    · simp only [scan, mark, if_pos word, wordKind_inline, or_false] at ends ⊢
      rw [(takeWhile_short ends).1]
    by_cases blank : isBlank c = true
    · simp only [scan, mark, if_neg word, if_pos blank, reduceCtorEq, or_false] at ends ⊢
      rw [(takeWhile_short ends).1]
    by_cases line : c = '\n'
    · simp only [scan, mark, if_neg word, if_neg blank, if_pos line]
    by_cases digit : c.isDigit = true
    · simp only [scan, mark, if_neg word, if_neg blank, if_neg line, if_pos digit] at ends ⊢
      have short : (cs.takeWhile Char.isDigit).length < cs.length := by
        split at ends <;> simp only [reduceCtorEq, or_false] at ends <;> omega
      rw [(takeWhile_short short).1, (takeWhile_short short).2]
    by_cases quote : c = '"'
    · simp only [scan, mark, if_neg word, if_neg blank, if_neg line, if_neg digit, if_pos quote]
        at ends ⊢
      cases closing : closingQuote? 0 cs with
      | none => simp [closing] at ends
      | some n => rw [closingQuote?_append more closing]
    rw [scan_mark cs mark word blank line digit quote] at ends ⊢
    rw [scan_mark _ mark word blank line digit quote]
    exact scanMark_append c cs more ends

theorem scan_newline {c : Char} {cs : List Char} (newline : (scan c cs).1 = .newline) :
    (scan c cs).2 ≤ cs.length := by
  cases mark : punctuation? c with
  | some kind => simp only [scan, mark, Nat.zero_le]
  | none =>
    by_cases word : isWordStart c = true
    · simp only [scan, mark, if_pos word, wordKind_inline] at newline
    by_cases blank : isBlank c = true
    · simp only [scan, mark, if_neg word, if_pos blank, reduceCtorEq] at newline
    by_cases line : c = '\n'
    · simp only [scan, mark, if_neg word, if_neg blank, if_pos line, Nat.zero_le]
    by_cases digit : c.isDigit = true
    · simp only [scan, mark, if_neg word, if_neg blank, if_neg line, if_pos digit] at newline
      split at newline <;> cases newline
    by_cases quote : c = '"'
    · simp only [scan, mark, if_neg word, if_neg blank, if_neg line, if_neg digit, if_pos quote]
        at newline
      split at newline <;> cases newline
    rw [scan_mark cs mark word blank line digit quote] at newline ⊢
    unfold scanMark at newline ⊢
    split
    · simp
    all_goals simp_all
    split at newline <;> cases newline

theorem lex_append (first second : List Char)
    (ends : first = [] ∨ ∃ token ∈ (lex first).getLast?, token.kind = .newline) :
    lex (first ++ second) = lex first ++ lex second := by
  revert ends
  apply lex_induction (motive := fun source tokens =>
    (source = [] ∨ ∃ token ∈ tokens.getLast?, token.kind = .newline) →
      lex (source ++ second) = tokens ++ lex second)
  · intro _
    rfl
  · intro c cs ih ends
    obtain ⟨last, found, newline⟩ : ∃ token ∈ (⟨(scan c cs).1, c :: cs.take (scan c cs).2⟩ ::
        lex (cs.drop (scan c cs).2) : List Token).getLast?, token.kind = .newline := by
      simpa using ends
    -- A token with text after it is whole. The last one is a newline, which nothing can prolong.
    have stands : ((scan c cs).2 < cs.length ∨ (scan c cs).1 = .newline) ∧
        (cs.drop (scan c cs).2 = [] ∨
          ∃ token ∈ (lex (cs.drop (scan c cs).2)).getLast?, token.kind = .newline) := by
      cases left : cs.drop (scan c cs).2 with
      | nil =>
        rw [left, lex_nil] at found
        cases found
        exact ⟨.inr newline, .inl rfl⟩
      | cons d ds =>
        have room := congrArg List.length left
        rw [List.length_drop, List.length_cons] at room
        rw [left, lex_cons, List.getLast?_cons_cons, ← lex_cons] at found
        exact ⟨.inl (by omega), .inr ⟨last, found, newline⟩⟩
    obtain ⟨ahead, rest⟩ := stands
    have room : (scan c cs).2 ≤ cs.length := ahead.elim Nat.le_of_lt scan_newline
    rw [List.cons_append, lex_cons, scan_append c cs second ahead,
      List.take_append_of_le_length room, List.drop_append_of_le_length room, ih rest,
      List.cons_append]

end CraftDsl
