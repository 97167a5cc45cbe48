import CraftDsl.Proofs.Delimiters

/-!
The lexer takes the longest match. At every place where a token starts it takes the longest text that a
regular expression of some kind matches there, and of two kinds the one that is not the identifier.
Main statement: `lex_longest`.
-/
namespace CraftDsl

open Regex TokenKind

/-- What the first character of a token says about its kind. -/
inductive Opening
  | mark (kind : TokenKind)
  | word | blank | digit | line | carriage | quote | dash | slash | other
  deriving DecidableEq

def opening (c : Char) : Opening :=
  match punctuation? c with
  | some kind => .mark kind
  | none =>
    if isWordStart c then .word
    else if isBlank c then .blank
    else if c = '\n' then .line
    else if c.isDigit then .digit
    else if c = '"' then .quote
    else if c = '\r' then .carriage
    else if c = '-' then .dash
    else if c = '/' then .slash
    else .other

/-- Whether a token of the kind may begin so. -/
def Opening.begins : Opening → TokenKind → Bool
  | mark kind, found => kind = found
  | word, .keyword _ | word, .identifier => true
  | blank, .whitespace => true
  | digit, .number | digit, .percentage => true
  | line, .newline | carriage, .newline => true
  | quote, .string | quote, .unterminatedString => true
  | dash, .arrow => true
  | slash, .lineComment | slash, .blockComment | slash, .unterminatedComment => true
  | _, _ => false

theorem opening_word {c : Char} (start : isWordStart c = true) : opening c = .word := by
  have mark : punctuation? c = none := by
    unfold punctuation?
    split <;> first | rfl | exact absurd start (by decide)
  simp only [opening, mark, start, if_true]

theorem opening_blank {c : Char} (blank : isBlank c = true) : opening c = .blank := by
  rw [isBlank, Bool.or_eq_true, decide_eq_true_eq, decide_eq_true_eq] at blank
  rcases blank with rfl | rfl <;> rfl

theorem digit_not_wordStart {c : Char} (digit : c.isDigit = true) : isWordStart c = false := by
  have under : c ≠ '_' := by
    rintro rfl
    exact absurd digit (by decide)
  have nine : '9'.val.toNat = 57 := rfl
  have bigA : 'A'.val.toNat = 65 := rfl
  have smallA : 'a'.val.toNat = 97 := rfl
  rw [← Bool.not_eq_true]
  intro start
  simp only [Char.isDigit, Bool.and_eq_true, decide_eq_true_eq, ge_iff_le,
    UInt32.le_iff_toNat_le] at digit
  rw [← within_wordStart, within_cons, within_cons, within_one] at start
  simp only [Bool.or_eq_true, Bool.and_eq_true, decide_eq_true_eq, under, or_false, Char.le_def,
    UInt32.le_iff_toNat_le] at start
  omega

theorem digit_plain {c : Char} (digit : c.isDigit = true) :
    punctuation? c = none ∧ isBlank c = false ∧ c ≠ '\n' := by
  refine ⟨?_, ?_, ?_⟩
  · unfold punctuation?
    split <;> first | rfl | exact absurd digit (by decide)
  · have apart : c ≠ ' ' ∧ c ≠ '\t' := by
      constructor <;> rintro rfl <;> exact absurd digit (by decide)
    simp only [isBlank, apart, decide_false, Bool.or_self]
  · rintro rfl
    exact absurd digit (by decide)

theorem opening_digit {c : Char} (digit : c.isDigit = true) : opening c = .digit := by
  obtain ⟨mark, blank, line⟩ := digit_plain digit
  simp only [opening, mark, digit_not_wordStart digit, blank, line, digit, Bool.false_eq_true,
    if_false, if_true]

/-- A token begins as its kind says. -/
theorem spelled_opening {kind : TokenKind} {text : List Char} (spelled : kind.Spelled text) :
    ∃ c cs, text = c :: cs ∧ (opening c).begins kind = true := by
  have literal {c : Char} {word : String} {cs : List Char} (alone : kind.spellings = [literal word])
      (shape : word.toList = c :: cs) (begins : (opening c).begins kind = true) :
      ∃ c cs, text = c :: cs ∧ (opening c).begins kind = true :=
    ⟨c, cs, ((spelled_literal alone).mp spelled).trans shape, begins⟩
  cases kind with
  | braceOpen | braceClose | bracketOpen | bracketClose | parenOpen | parenClose | colon | comma
  | greater | arrow => exact literal rfl rfl rfl
  | keyword word =>
    obtain ⟨c, cs, start, -, rfl⟩ := spelled_identifier.mp (spelled_keyword spelled)
    exact ⟨c, cs, rfl, by rw [opening_word start]; rfl⟩
  | identifier =>
    obtain ⟨c, cs, start, -, rfl⟩ := spelled_identifier.mp spelled
    exact ⟨c, cs, rfl, by rw [opening_word start]; rfl⟩
  | string =>
    obtain ⟨body, -, rfl⟩ := spelled_string.mp spelled
    exact ⟨_, _, rfl, rfl⟩
  | unterminatedString =>
    obtain ⟨body, -, rfl | rfl⟩ := spelled_unterminatedString.mp spelled <;> exact ⟨_, _, rfl, rfl⟩
  | number =>
    obtain ⟨wide, digits⟩ := spelled_number.mp spelled
    obtain ⟨c, cs, rfl⟩ := List.exists_cons_of_ne_nil wide
    exact ⟨c, cs, rfl, by rw [opening_digit (digits c List.mem_cons_self)]; rfl⟩
  | percentage =>
    obtain ⟨text, digits, rfl⟩ := spelled_percentage.mp spelled
    obtain ⟨wide, digits⟩ := spelled_number.mp digits
    obtain ⟨c, cs, rfl⟩ := List.exists_cons_of_ne_nil wide
    exact ⟨c, _, rfl, by rw [opening_digit (digits c List.mem_cons_self)]; rfl⟩
  | whitespace =>
    obtain ⟨wide, blanks⟩ := spelled_whitespace.mp spelled
    obtain ⟨c, cs, rfl⟩ := List.exists_cons_of_ne_nil wide
    exact ⟨c, cs, rfl, by rw [opening_blank (blanks c List.mem_cons_self)]; rfl⟩
  | newline => rcases spelled_newline.mp spelled with rfl | rfl <;> exact ⟨_, _, rfl, rfl⟩
  | lineComment =>
    obtain ⟨cs, -, rfl⟩ := spelled_lineComment.mp spelled
    exact ⟨_, _, rfl, rfl⟩
  | blockComment =>
    obtain ⟨_, _, _, -, -, -, rfl⟩ := spelled_blockComment.mp spelled
    exact ⟨_, _, rfl, rfl⟩
  | unterminatedComment =>
    obtain ⟨_, _, -, -, rfl⟩ := spelled_unterminatedComment.mp spelled
    exact ⟨_, _, rfl, rfl⟩
  | garbage | endOfInput => obtain ⟨_, nothing, -⟩ := spelled; cases nothing

/-- The first `width` characters are a token of the kind. Among the texts of tokens that `source` begins
with none is longer, and none of another kind is as long, apart from an identifier beside a keyword. -/
structure Longest (source : List Char) (kind : TokenKind) (width : Nat) : Prop where
  fits : width ≤ source.length
  spelled : kind.Spelled (source.take width)
  rivals : ∀ other word, other.Spelled word → word <+: source → word.length < width ∨
    word.length = width ∧ (other = kind ∨ other = .identifier ∧ kind.isKeyword = true)

section

variable {c : Char} {cs : List Char}

/-- Only kinds that begin with the first character are rivals. -/
theorem Longest.of_opening {kind : TokenKind} {taken : Nat} {first : Opening}
    (opens : opening c = first) (fits : taken ≤ cs.length)
    (spelled : kind.Spelled (c :: cs.take taken))
    (rivals : ∀ other ds, first.begins other = true → other.Spelled (c :: ds) → ds <+: cs →
      ds.length < taken ∨
        ds.length = taken ∧ (other = kind ∨ other = .identifier ∧ kind.isKeyword = true)) :
    Longest (c :: cs) kind (taken + 1) where
  fits := Nat.succ_le_succ fits
  spelled := spelled
  rivals := by
    intro other word matched front
    obtain ⟨d, ds, rfl, begins⟩ := spelled_opening matched
    obtain ⟨rfl, rest⟩ := List.cons_prefix_cons.mp front
    rw [opens] at begins
    have ruled := rivals other ds begins matched rest
    simpa only [List.length_cons, Nat.add_lt_add_iff_right, Nat.add_right_cancel_iff] using ruled

theorem prefix_run {p : Char → Bool} {ds : List Char} (front : ds <+: cs)
    (run : ∀ d ∈ ds, p d = true) : ds.length ≤ (cs.takeWhile p).length := by
  obtain ⟨rest, rfl⟩ := front
  rw [List.takeWhile_append_of_pos run, List.length_append]
  exact Nat.le_add_right _ _

theorem take_run (p : Char → Bool) : cs.take (cs.takeWhile p).length = cs.takeWhile p :=
  (List.prefix_iff_eq_take.mp (List.takeWhile_prefix p)).symm

theorem run_holds {p : Char → Bool} : ∀ d ∈ cs.takeWhile p, p d = true :=
  fun _ member => List.mem_takeWhile_imp member

theorem spelled_mark {kind : TokenKind} {text : List Char} (found : punctuation? c = some kind) :
    kind.Spelled text ↔ text = [c] := by
  unfold punctuation? at found
  split at found <;> cases found <;> exact (spelled_single rfl).trans mem_literal

theorem longest_mark {kind : TokenKind} (found : punctuation? c = some kind) :
    Longest (c :: cs) kind 1 := by
  have opens : opening c = .mark kind := by simp only [opening, found]
  apply Longest.of_opening opens (Nat.zero_le _) ((spelled_mark found).mpr rfl)
  intro other ds begins matched front
  obtain rfl : kind = other := of_decide_eq_true begins
  obtain ⟨-, rfl⟩ := List.cons.inj ((spelled_mark found).mp matched)
  exact .inr ⟨rfl, .inl rfl⟩

theorem ofText?_spelling (word : Keyword) :
    Keyword.ofText? word.spelling.toList = some word := by
  cases word <;> rfl

theorem spelling_ofText? {text : List Char} {word : Keyword}
    (found : Keyword.ofText? text = some word) : word.spelling.toList = text := by
  simpa using List.find?_some found

theorem longest_word (start : isWordStart c = true) :
    Longest (c :: cs) (wordKind (c :: cs.takeWhile isWordChar))
      ((cs.takeWhile isWordChar).length + 1) := by
  have named : identifier.Spelled (c :: cs.takeWhile isWordChar) :=
    spelled_identifier.mpr ⟨c, _, start, run_holds, rfl⟩
  apply Longest.of_opening (opening_word start) (List.takeWhile_prefix _).length_le
  · rw [take_run, wordKind]
    split
    · rename_i word found
      exact (spelled_literal rfl).mpr (spelling_ofText? found).symm
    · exact named
  · intro other ds begins matched front
    have word : identifier.Spelled (c :: ds) := by
      cases other with
      | keyword word => exact spelled_keyword matched
      | identifier => exact matched
      | _ => cases begins
    obtain ⟨d, es, -, run, same⟩ := spelled_identifier.mp word
    obtain ⟨rfl, rfl⟩ := List.cons.inj same
    rcases Nat.lt_or_eq_of_le (prefix_run front run) with shorter | equal
    · exact .inl shorter
    · have whole : ds = cs.takeWhile isWordChar := by
        rw [List.prefix_iff_eq_take.mp front, equal, take_run]
      refine .inr ⟨equal, ?_⟩
      rw [← whole]
      cases other with
      | keyword word =>
        rw [(spelled_literal rfl).mp matched, wordKind, ofText?_spelling]
        exact .inl rfl
      | identifier =>
        rw [wordKind]
        split
        · exact .inr ⟨rfl, rfl⟩
        · exact .inl rfl
      | _ => cases begins

theorem longest_blank (blank : isBlank c = true) :
    Longest (c :: cs) .whitespace ((cs.takeWhile isBlank).length + 1) := by
  apply Longest.of_opening (opening_blank blank) (List.takeWhile_prefix _).length_le
  · rw [take_run, spelled_whitespace]
    exact ⟨List.cons_ne_nil _ _, List.forall_mem_cons.mpr ⟨blank, run_holds⟩⟩
  · intro other ds begins matched front
    obtain rfl : other = .whitespace := by
      cases other <;> first | rfl | cases begins
    have run := (List.forall_mem_cons.mp (spelled_whitespace.mp matched).2).2
    exact (Nat.lt_or_eq_of_le (prefix_run front run)).imp_right fun equal => ⟨equal, .inl rfl⟩

theorem longest_line : Longest ('\n' :: cs) .newline 1 := by
  apply Longest.of_opening (show opening '\n' = .line from rfl) (Nat.zero_le _)
    (spelled_newline.mpr (.inl rfl))
  intro other ds begins matched front
  obtain rfl : other = .newline := by
    cases other <;> first | rfl | cases begins
  rcases spelled_newline.mp matched with same | same <;> cases same
  exact .inr ⟨rfl, .inl rfl⟩

theorem longest_carriage : Longest ('\r' :: '\n' :: cs) .newline 2 := by
  apply Longest.of_opening (show opening '\r' = .carriage from rfl) (Nat.le_add_left _ _)
    (spelled_newline.mpr (.inr rfl))
  intro other ds begins matched front
  obtain rfl : other = .newline := by
    cases other <;> first | rfl | cases begins
  rcases spelled_newline.mp matched with same | same <;> cases same
  exact .inr ⟨rfl, .inl rfl⟩

theorem longest_arrow : Longest ('-' :: '>' :: cs) .arrow 2 := by
  apply Longest.of_opening (show opening '-' = .dash from rfl) (Nat.le_add_left _ _)
    ((spelled_literal rfl).mpr rfl)
  intro other ds begins matched front
  obtain rfl : other = .arrow := by
    cases other <;> first | rfl | cases begins
  cases (spelled_literal rfl).mp matched
  exact .inr ⟨rfl, .inl rfl⟩

theorem percentage_front {ds : List Char} (matched : percentage.Spelled (c :: ds))
    (front : ds <+: cs) : (cs.dropWhile Char.isDigit).head? = some '%' ∧
      ds.length = (cs.takeWhile Char.isDigit).length + 1 := by
  obtain ⟨digits, number, same⟩ := spelled_percentage.mp matched
  obtain ⟨wide, run⟩ := spelled_number.mp number
  obtain ⟨d, digits, rfl⟩ := List.exists_cons_of_ne_nil wide
  obtain ⟨rfl, tail⟩ := List.cons.inj same
  obtain ⟨rest, rfl⟩ := front
  obtain rfl : ds = digits ++ ['%'] := tail
  have later := (List.forall_mem_cons.mp run).2
  have stops : ('%' :: rest).takeWhile Char.isDigit = [] := rfl
  have stands : ('%' :: rest).dropWhile Char.isDigit = '%' :: rest := rfl
  rw [List.append_assoc, List.singleton_append, List.takeWhile_append_of_pos later,
    List.dropWhile_append_of_pos later, stops, stands, List.append_nil]
  exact ⟨rfl, by rw [List.length_append, List.length_singleton]⟩

theorem take_percentage (percent : (cs.dropWhile Char.isDigit).head? = some '%') :
    cs.take ((cs.takeWhile Char.isDigit).length + 1) = cs.takeWhile Char.isDigit ++ ['%'] := by
  obtain ⟨rest, left⟩ : ∃ rest, cs.dropWhile Char.isDigit = '%' :: rest :=
    ⟨_, List.eq_cons_of_mem_head? percent⟩
  have split : cs = cs.takeWhile Char.isDigit ++ '%' :: rest := by
    rw [← left, List.takeWhile_append_dropWhile]
  conv_lhs => rhs; rw [split, List.append_cons]
  exact List.take_left' (List.length_append ..)

theorem longest_percentage (digit : c.isDigit = true)
    (percent : (cs.dropWhile Char.isDigit).head? = some '%') :
    Longest (c :: cs) .percentage ((cs.takeWhile Char.isDigit).length + 1 + 1) := by
  have taken := take_percentage percent
  apply Longest.of_opening (opening_digit digit)
  · have short := congrArg List.length taken
    rw [List.length_take, List.length_append, List.length_singleton] at short
    omega
  · rw [taken]
    exact spelled_percentage.mpr ⟨c :: cs.takeWhile Char.isDigit, spelled_number.mpr
      ⟨List.cons_ne_nil _ _, List.forall_mem_cons.mpr ⟨digit, run_holds⟩⟩, rfl⟩
  · intro other ds begins matched front
    cases other with
    | number =>
      have run := (List.forall_mem_cons.mp (spelled_number.mp matched).2).2
      exact .inl (Nat.lt_succ_of_le (prefix_run front run))
    | percentage => exact .inr ⟨(percentage_front matched front).2, .inl rfl⟩
    | _ => cases begins

theorem longest_number (digit : c.isDigit = true)
    (percent : (cs.dropWhile Char.isDigit).head? ≠ some '%') :
    Longest (c :: cs) .number ((cs.takeWhile Char.isDigit).length + 1) := by
  apply Longest.of_opening (opening_digit digit) (List.takeWhile_prefix _).length_le
  · rw [take_run, spelled_number]
    exact ⟨List.cons_ne_nil _ _, List.forall_mem_cons.mpr ⟨digit, run_holds⟩⟩
  · intro other ds begins matched front
    cases other with
    | number =>
      have run := (List.forall_mem_cons.mp (spelled_number.mp matched).2).2
      exact (Nat.lt_or_eq_of_le (prefix_run front run)).imp_right fun equal => ⟨equal, .inl rfl⟩
    | percentage => exact absurd (percentage_front matched front).1 percent
    | _ => cases begins

theorem string_front {ds : List Char} (matched : string.Spelled ('"' :: ds)) (front : ds <+: cs) :
    closingQuote? 0 cs = some ds.length := by
  obtain ⟨body, inside, same⟩ := spelled_string.mp matched
  obtain ⟨-, rfl⟩ := List.cons.inj same
  obtain ⟨rest, rfl⟩ := front
  rw [List.append_assoc, closingQuote?_quoted inside, List.length_append, Nat.zero_add]
  rfl

theorem longest_string {n : Nat} (closing : closingQuote? 0 cs = some n) :
    Longest ('"' :: cs) .string (n + 1) := by
  apply Longest.of_opening (show opening '"' = .quote from rfl)
  · obtain ⟨body, rest, -, rfl, rfl⟩ := quoted_of_closingQuote? closing
    rw [List.length_append, List.length_cons]
    omega
  · obtain ⟨body, rest, inside, rfl, rfl⟩ := quoted_of_closingQuote? closing
    rw [List.append_cons, List.take_left' (by simp)]
    exact spelled_string.mpr ⟨body, inside, rfl⟩
  · intro other ds begins matched front
    cases other with
    | string =>
      have same := closing.symm.trans (string_front matched front)
      exact .inr ⟨(Option.some.inj same).symm, .inl rfl⟩
    | unterminatedString =>
      obtain ⟨body, inside, same | same⟩ := spelled_unterminatedString.mp matched
      · obtain ⟨-, rfl⟩ := List.cons.inj same
        obtain ⟨rest, rfl⟩ := front
        rw [closingQuote?_quoted inside, Nat.zero_add] at closing
        exact .inl (lt_of_closingQuote? closing)
      · obtain ⟨-, rfl⟩ := List.cons.inj same
        obtain ⟨rest, rfl⟩ := front
        rw [List.append_assoc, closingQuote?_quoted inside, Nat.zero_add] at closing
        rw [List.length_append, List.length_singleton]
        -- the character that the backslash takes along lies before the closing quote
        cases rest with
        | nil => cases closing
        | cons d rest =>
          have later := lt_of_closingQuote? (n := body.length + 2) closing
          exact .inl (Nat.lt_of_succ_lt later)
    | _ => cases begins

theorem longest_unterminatedString (unclosed : closingQuote? 0 cs = none) :
    Longest ('"' :: cs) .unterminatedString (cs.length + 1) := by
  apply Longest.of_opening (show opening '"' = .quote from rfl) (Nat.le_refl _)
  · obtain ⟨body, inside, shape⟩ := quoted_of_unclosed unclosed
    rw [List.take_length]
    refine spelled_unterminatedString.mpr ⟨body, inside, ?_⟩
    exact shape.imp (congrArg (List.cons '"')) (congrArg (List.cons '"'))
  · intro other ds begins matched front
    cases other with
    | string => cases unclosed.symm.trans (string_front matched front)
    | unterminatedString =>
      exact (Nat.lt_or_eq_of_le front.length_le).imp_right fun equal => ⟨equal, .inl rfl⟩
    | _ => cases begins

theorem longest_lineComment :
    Longest ('/' :: '/' :: cs) .lineComment
      ((cs.takeWhile fun c => !isLineBreak c).length + 1 + 1) := by
  apply Longest.of_opening (show opening '/' = .slash from rfl)
    (Nat.succ_le_succ (List.takeWhile_prefix _).length_le)
  · rw [List.take_succ_cons, take_run]
    refine spelled_lineComment.mpr ⟨_, fun d member => ?_, rfl⟩
    simpa using run_holds d member
  · intro other ds begins matched front
    cases other with
    | lineComment =>
      obtain ⟨body, plain, same⟩ := spelled_lineComment.mp matched
      obtain ⟨-, rfl⟩ := List.cons.inj same
      have inside := (List.cons_prefix_cons.mp front).2
      have run := prefix_run inside (p := fun c => !isLineBreak c) fun d member => by
        rw [plain d member]
        rfl
      rw [List.length_cons]
      exact (Nat.lt_or_eq_of_le (Nat.succ_le_succ run)).imp_right fun equal => ⟨equal, .inl rfl⟩
    | blockComment =>
      obtain ⟨_, _, _, -, -, -, same⟩ := spelled_blockComment.mp matched
      obtain ⟨-, rfl⟩ := List.cons.inj same
      cases (List.cons_prefix_cons.mp front).1
    | unterminatedComment =>
      obtain ⟨_, _, -, -, same⟩ := spelled_unterminatedComment.mp matched
      obtain ⟨-, rfl⟩ := List.cons.inj same
      cases (List.cons_prefix_cons.mp front).1
    | _ => cases begins

theorem blockComment_front {ds : List Char} (matched : blockComment.Spelled ('/' :: ds))
    (front : ds <+: '*' :: cs) : ∃ n, commentEnd? 0 cs = some n ∧ ds.length = n + 1 := by
  obtain ⟨before, stars, parts, run, starry, inside, same⟩ := spelled_blockComment.mp matched
  obtain ⟨-, rfl⟩ := List.cons.inj same
  obtain ⟨rest, rfl⟩ := (List.cons_prefix_cons.mp front).2
  refine ⟨_, ?_, List.length_cons⟩
  simp only [List.append_assoc, List.singleton_append]
  rw [commentEnd?_run run, commentEnd?_parts inside starry]
  simp only [List.length_append, List.length_singleton]
  congr 1
  omega

theorem openComment_front {ds : List Char} (matched : unterminatedComment.Spelled ('/' :: ds))
    (front : ds <+: '*' :: cs) {n : Nat} (found : commentEnd? 0 cs = some n) :
    ds.length < n + 1 := by
  obtain ⟨body, stars, inside, starry, same⟩ := spelled_unterminatedComment.mp matched
  obtain ⟨-, rfl⟩ := List.cons.inj same
  obtain ⟨rest, rfl⟩ := (List.cons_prefix_cons.mp front).2
  rw [List.append_assoc, commentEnd?_open inside] at found
  have later := stars_lt_of_commentEnd? starry found
  rw [List.length_cons, List.length_append]
  omega

theorem longest_blockComment {n : Nat} (ending : commentEnd? 0 cs = some n) :
    Longest ('/' :: '*' :: cs) .blockComment (n + 1 + 1) := by
  apply Longest.of_opening (show opening '/' = .slash from rfl)
  · obtain ⟨before, stars, parts, rest, -, -, -, rfl, rfl⟩ := parts_of_commentEnd? ending
    simp only [List.length_cons, List.length_append]
    omega
  · obtain ⟨before, stars, parts, rest, run, starry, inside, rfl, rfl⟩ :=
      parts_of_commentEnd? ending
    refine spelled_blockComment.mpr ⟨before, stars, parts, run, starry, inside, ?_⟩
    have whole : before ++ (stars ++ (parts ++ '/' :: rest)) =
        (before ++ (stars ++ (parts ++ ['/']))) ++ rest := by simp
    rw [List.take_succ_cons, whole, List.take_left']
    simp only [List.length_append, List.length_singleton]
    omega
  · intro other ds begins matched front
    cases other with
    | lineComment =>
      obtain ⟨body, -, same⟩ := spelled_lineComment.mp matched
      obtain ⟨-, rfl⟩ := List.cons.inj same
      cases (List.cons_prefix_cons.mp front).1
    | blockComment =>
      obtain ⟨m, found, width⟩ := blockComment_front matched front
      obtain rfl := Option.some.inj (ending.symm.trans found)
      exact .inr ⟨width, .inl rfl⟩
    | unterminatedComment => exact .inl (openComment_front matched front ending)
    | _ => cases begins

theorem longest_unterminatedComment (unclosed : commentEnd? 0 cs = none) :
    Longest ('/' :: '*' :: cs) .unterminatedComment (cs.length + 1 + 1) := by
  apply Longest.of_opening (show opening '/' = .slash from rfl) (Nat.le_refl (cs.length + 1))
  · obtain ⟨body, stars, inside, starry, rfl⟩ := open_of_commentEnd? unclosed
    rw [List.take_succ_cons, List.take_length]
    exact spelled_unterminatedComment.mpr ⟨body, stars, inside, starry, rfl⟩
  · intro other ds begins matched front
    cases other with
    | lineComment =>
      obtain ⟨body, -, same⟩ := spelled_lineComment.mp matched
      obtain ⟨-, rfl⟩ := List.cons.inj same
      cases (List.cons_prefix_cons.mp front).1
    | blockComment =>
      obtain ⟨m, found, -⟩ := blockComment_front matched front
      cases unclosed.symm.trans found
    | unterminatedComment =>
      have short := front.length_le
      rw [List.length_cons] at short
      exact (Nat.lt_or_eq_of_le short).imp_right fun equal => ⟨equal, .inl rfl⟩
    | _ => cases begins

/-- A mark of two characters, a comment, or a character that begins no token. -/
theorem scanMark_longest (opens : opening c = .carriage ∨ opening c = .dash ∨ opening c = .slash ∨
    opening c = .other) :
    Longest (c :: cs) (scanMark c cs).1 ((scanMark c cs).2 + 1) ∨
      scanMark c cs = (.garbage, 0) ∧
        ∀ (kind : TokenKind) (word : List Char), kind.Spelled word → ¬ word <+: c :: cs := by
  unfold scanMark
  split
  · exact .inl longest_carriage
  · exact .inl longest_arrow
  · rename_i rest
    rw [Nat.add_comm 1]
    exact .inl longest_lineComment
  · rename_i rest
    cases ending : commentEnd? 0 rest with
    | some n =>
      left
      show Longest _ .blockComment (1 + n + 1)
      rw [Nat.add_comm 1 n]
      exact longest_blockComment ending
    | none =>
      left
      show Longest _ .unterminatedComment (1 + rest.length + 1)
      rw [Nat.add_comm 1 rest.length]
      exact longest_unterminatedComment ending
  · rename_i carriage arrow line block
    -- No mark fits. A kind of token with this first character begins with one of the marks.
    refine .inr ⟨rfl, fun kind word spelled front => ?_⟩
    obtain ⟨d, ds, rfl, begins⟩ := spelled_opening spelled
    obtain ⟨rfl, rest, rfl⟩ := List.cons_prefix_cons.mp front
    have among : kind = .newline ∨ kind = .arrow ∨ kind = .lineComment ∨ kind = .blockComment ∨
        kind = .unterminatedComment := by
      rcases opens with opens | opens | opens | opens <;> rw [opens] at begins <;>
        cases kind <;> first | exact (Bool.false_ne_true begins).elim | simp
    rcases among with rfl | rfl | rfl | rfl | rfl
    · rcases spelled_newline.mp spelled with same | same
      · cases same
        rcases opens with opens | opens | opens | opens <;> cases opens
      · cases same
        exact carriage _ rfl rfl
    · cases (spelled_literal rfl).mp spelled
      exact arrow _ rfl rfl
    · obtain ⟨_, -, same⟩ := spelled_lineComment.mp spelled
      cases same
      exact line _ rfl rfl
    · obtain ⟨_, _, _, -, -, -, same⟩ := spelled_blockComment.mp spelled
      cases same
      exact block _ rfl rfl
    · obtain ⟨_, _, -, -, same⟩ := spelled_unterminatedComment.mp spelled
      cases same
      exact block _ rfl rfl

theorem scan_longest (c : Char) (cs : List Char) :
    Longest (c :: cs) (scan c cs).1 ((scan c cs).2 + 1) ∨
      scan c cs = (.garbage, 0) ∧
        ∀ (kind : TokenKind) (word : List Char), kind.Spelled word → ¬ word <+: c :: cs := by
  cases mark : punctuation? c with
  | some kind =>
    simp only [scan, mark]
    exact .inl (longest_mark mark)
  | none =>
    by_cases word : isWordStart c = true
    · simp only [scan, mark, if_pos word]
      exact .inl (longest_word word)
    by_cases blank : isBlank c = true
    · simp only [scan, mark, if_neg word, if_pos blank]
      exact .inl (longest_blank blank)
    by_cases line : c = '\n'
    · subst line
      exact .inl longest_line
    by_cases digit : c.isDigit = true
    · simp only [scan, mark, if_neg word, if_neg blank, if_neg line, if_pos digit]
      split
      · exact .inl (longest_percentage digit ‹_›)
      · exact .inl (longest_number digit ‹_›)
    by_cases quote : c = '"'
    · subst quote
      simp only [scan, mark, if_neg word, if_neg blank, if_neg line, if_neg digit, if_true]
      split
      · exact .inl (longest_string ‹_›)
      · exact .inl (longest_unterminatedString ‹_›)
    rw [scan_mark cs mark word blank line digit quote]
    apply scanMark_longest
    simp only [opening, mark, if_neg word, if_neg blank, if_neg line, if_neg digit, if_neg quote]
    split_ifs <;> simp

end

/-- A text of a token of some kind is at the front. -/
def Begins (remaining : List Char) : Prop :=
  ∃ kind : TokenKind, ∃ word, kind.Spelled word ∧ word ≠ [] ∧ word <+: remaining

/-- Between quotes, with the first unescaped quote behind the opening one at the end. -/
def Quoted (text : List Char) : Prop :=
  ∃ body, text = '"' :: (body ++ ['"']) ∧ escaped body = false ∧
    ∀ before after, body = before ++ '"' :: after → escaped before = true

/-- From `/*` to the first `*/` behind it. -/
def Commented (text : List Char) : Prop :=
  ∃ inner, text = '/' :: '*' :: (inner ++ ['*', '/']) ∧
    ∀ before after, inner ++ ['*'] ≠ before ++ '*' :: '/' :: after

theorem quoted_of_spelled {text : List Char} (spelled : string.Spelled text) : Quoted text := by
  obtain ⟨body, inside, rfl⟩ := spelled_string.mp spelled
  exact ⟨body, rfl, quoted_escaped inside⟩

theorem commented_of_spelled {text : List Char} (spelled : blockComment.Spelled text) :
    Commented text := by
  obtain ⟨_, _, _, -, -, -, rfl⟩ := spelled_blockComment.mp spelled
  obtain ⟨n, found, width⟩ := blockComment_front spelled (List.prefix_refl _)
  obtain ⟨inner, rest, shape, rfl, first⟩ := first_of_commentEnd? found
  rw [shape] at width ⊢
  simp only [List.length_cons, List.length_append] at width
  obtain rfl : rest = [] := List.eq_nil_of_length_eq_zero (by omega)
  exact ⟨inner, rfl, first⟩

theorem scan_spelled {c : Char} {cs : List Char} {kind : TokenKind} (found : (scan c cs).1 = kind)
    (solid : kind ≠ .garbage) : kind.Spelled (c :: cs.take (scan c cs).2) := by
  rcases scan_longest c cs with longest | ⟨garbage, -⟩
  · exact found ▸ longest.spelled
  · rw [garbage] at found
    exact absurd found.symm solid

theorem scan_quote (cs : List Char) : scan '"' cs =
    match closingQuote? 0 cs with
    | some n => (.string, n)
    | none => (.unterminatedString, cs.length) := rfl

theorem scan_comment (rest : List Char) : scan '/' ('*' :: rest) =
    match commentEnd? 0 rest with
    | some n => (.blockComment, 1 + n)
    | none => (.unterminatedComment, 1 + rest.length) := rfl

theorem unterminatedString_last {c : Char} {cs : List Char}
    (unclosed : (scan c cs).1 = .unterminatedString) : cs.drop (scan c cs).2 = [] := by
  obtain rfl : c = '"' := by
    obtain ⟨body, -, same | same⟩ :=
      spelled_unterminatedString.mp (scan_spelled unclosed (by decide)) <;>
    exact (List.cons.inj same).1
  rw [scan_quote] at unclosed ⊢
  cases closing : closingQuote? 0 cs with
  | some n =>
    rw [closing] at unclosed
    cases unclosed
  | none => exact List.drop_length

theorem unterminatedComment_last {c : Char} {cs : List Char}
    (unclosed : (scan c cs).1 = .unterminatedComment) : cs.drop (scan c cs).2 = [] := by
  obtain ⟨rfl, rest, rfl⟩ : c = '/' ∧ ∃ rest, cs = '*' :: rest := by
    obtain ⟨body, stars, -, -, same⟩ :=
      spelled_unterminatedComment.mp (scan_spelled unclosed (by decide))
    obtain ⟨slash, taken⟩ := List.cons.inj same
    cases cs with
    | nil => cases taken.symm.trans List.take_nil
    | cons d rest =>
      cases width : (scan c (d :: rest)).2 with
      | zero =>
        rw [width] at taken
        cases taken
      | succ n =>
        rw [width, List.take_succ_cons] at taken
        exact ⟨slash, rest, congrArg (List.cons · rest) (List.cons.inj taken).1⟩
  rw [scan_comment] at unclosed ⊢
  cases ending : commentEnd? 0 rest with
  | some n =>
    rw [ending] at unclosed
    cases unclosed
  | none =>
    show ('*' :: rest).drop (1 + rest.length) = []
    rw [Nat.add_comm]
    exact List.drop_length (l := '*' :: rest)

theorem Longest.unique {source : List Char} {kind kind' : TokenKind} {width width' : Nat}
    (one : Longest source kind width) (other : Longest source kind' width') :
    kind = kind' ∧ width = width' := by
  have here := one.rivals kind' _ other.spelled (List.take_prefix _ _)
  have there := other.rivals kind _ one.spelled (List.take_prefix _ _)
  rw [List.length_take_of_le other.fits] at here
  rw [List.length_take_of_le one.fits] at there
  rcases here with shorter | ⟨same, rfl | ⟨rfl, keyword⟩⟩
  · rcases there with shorter' | ⟨same, -⟩ <;> omega
  · exact ⟨rfl, same.symm⟩
  · rcases there with shorter' | ⟨-, kinds | ⟨rfl, -⟩⟩
    · omega
    · exact ⟨kinds, same.symm⟩
    · exact ⟨rfl, same.symm⟩

theorem Longest.front {first second : List Char} {kind : TokenKind} {width : Nat}
    (longest : Longest (first ++ second) kind width) (fits : width ≤ first.length) :
    Longest first kind width := by
  refine ⟨fits, ?_, fun other word spelled front => ?_⟩
  · rw [← List.take_append_of_le_length fits]
    exact longest.spelled
  · exact longest.rivals other word spelled (front.trans (List.prefix_append _ _))

theorem scan_fits (c : Char) (cs : List Char) : (scan c cs).2 ≤ cs.length := by
  rcases scan_longest c cs with longest | ⟨garbage, -⟩
  · exact Nat.le_of_succ_le_succ longest.fits
  · rw [garbage]
    exact Nat.zero_le _

theorem scan_front {c : Char} {cs more : List Char} (fits : (scan c (cs ++ more)).2 ≤ cs.length) :
    scan c cs = scan c (cs ++ more) := by
  rcases scan_longest c (cs ++ more) with longest | ⟨garbage, silent⟩
  · have shorter : Longest (c :: cs) (scan c (cs ++ more)).1 ((scan c (cs ++ more)).2 + 1) :=
      longest.front (Nat.succ_le_succ fits)
    rcases scan_longest c cs with here | ⟨-, silent⟩
    · obtain ⟨kinds, widths⟩ := here.unique shorter
      exact Prod.ext kinds (Nat.succ.inj widths)
    · exact absurd (List.take_prefix _ _) (silent _ _ shorter.spelled)
  · rcases scan_longest c cs with here | ⟨garbage', -⟩
    · have front : (c :: cs).take ((scan c cs).2 + 1) <+: c :: (cs ++ more) :=
        (List.take_prefix _ _).trans (List.prefix_append (c :: cs) more)
      exact absurd front (silent _ _ here.spelled)
    · rw [garbage, garbage']

theorem lex_front {source : List Char} {tokens rest : List Token}
    (found : lex source = tokens ++ rest) : lex (tokens.flatMap Token.text) = tokens := by
  induction tokens generalizing source with
  | nil => exact lex_nil
  | cons token tokens ih =>
    cases source with
    | nil =>
      rw [lex_nil] at found
      cases found
    | cons c cs =>
      rw [lex_cons, List.cons_append] at found
      obtain ⟨rfl, later⟩ := List.cons.inj found
      have remains : cs.drop (scan c cs).2 = tokens.flatMap Token.text ++ rest.flatMap Token.text := by
        rw [← lex_text (cs.drop (scan c cs).2), later, List.flatMap_append]
      set front := cs.take (scan c cs).2 ++ tokens.flatMap Token.text with front_eq
      have width : (cs.take (scan c cs).2).length = (scan c cs).2 :=
        List.length_take_of_le (scan_fits c cs)
      have whole : cs = front ++ rest.flatMap Token.text := by
        rw [front_eq, List.append_assoc, ← remains, List.take_append_drop]
      -- The token ends within the front, so what comes after makes no difference to it.
      have room : (scan c (front ++ rest.flatMap Token.text)).2 ≤ front.length := by
        rw [← whole, front_eq, List.length_append, width]
        exact Nat.le_add_right _ _
      have same : scan c front = scan c cs := by
        rw [scan_front room, ← whole]
      show lex (c :: front) = _
      rw [lex_cons, same, front_eq, List.take_left' width, List.drop_left' width, ih later]

/-- The lexer takes the longest match. Its tokens make up the source and none is empty. Where some
regular expression matches text, the token is the longest such text, of a kind that it is a text of, and
no identifier if it is also a keyword; elsewhere it is one character of garbage. So strings end at their
first unescaped quote, block comments at their first `*/`, and after a string or comment without an end
there is no further token. -/
theorem lex_longest (source : List Char) :
    (lex source).flatMap Token.text = source ∧ (∀ token ∈ lex source, token.text ≠ []) ∧
      (∀ before token after, lex source = before ++ token :: after →
        (Begins ((token :: after).flatMap Token.text) →
          token.kind.Spelled token.text ∧ ∀ other word, other.Spelled word →
            word <+: (token :: after).flatMap Token.text → word.length < token.text.length ∨
              word = token.text ∧
                (other = token.kind ∨ other = .identifier ∧ token.kind.isKeyword = true)) ∧
        (¬ Begins ((token :: after).flatMap Token.text) →
          token.kind = .garbage ∧ token.text.length = 1) ∧
        (token.kind = .string → Quoted token.text) ∧
        (token.kind = .blockComment → Commented token.text) ∧
        (token.kind = .unterminatedString ∨ token.kind = .unterminatedComment → after = [])) ∧
      tokenize source = (lex source).filter fun token => token.kind ≠ .whitespace := by
  refine ⟨lex_text source, ?_, ?_, tokenize_eq source⟩
  · intro token member empty
    have wide := lex_wide source token member
    rw [Token.width, empty] at wide
    exact absurd wide (Nat.lt_irrefl 0)
  · intro before token after found
    have again := lex_rest found
    generalize remains : (token :: after).flatMap Token.text = remaining at again
    cases remaining with
    | nil =>
      rw [lex_nil] at again
      cases again
    | cons c cs =>
      rw [lex_cons] at again
      obtain ⟨rfl, rest⟩ := List.cons.inj again
      refine ⟨fun begins => ?_, fun silent => ?_, fun kind => ?_, fun kind => ?_, ?_⟩
      · rcases scan_longest c cs with longest | ⟨-, none⟩
        · have width : (c :: cs.take (scan c cs).2).length = (scan c cs).2 + 1 :=
            List.length_take_of_le longest.fits
          refine ⟨longest.spelled, fun other word matched front => ?_⟩
          rw [width]
          refine (longest.rivals other word matched front).imp_right ?_
          rintro ⟨equal, preferred⟩
          refine ⟨?_, preferred⟩
          rw [List.prefix_iff_eq_take.mp front, equal, List.take_succ_cons]
        · obtain ⟨kind, word, matched, -, front⟩ := begins
          exact absurd front (none kind word matched)
      · rcases scan_longest c cs with longest | ⟨garbage, -⟩
        · exact absurd ⟨_, _, longest.spelled, List.cons_ne_nil _ _, List.take_prefix _ _⟩ silent
        · rw [garbage]
          exact ⟨rfl, rfl⟩
      · exact quoted_of_spelled (scan_spelled kind (by decide))
      · exact commented_of_spelled (scan_spelled kind (by decide))
      · rw [← rest]
        rintro (kind | kind)
        · rw [unterminatedString_last kind, lex_nil]
        · rw [unterminatedComment_last kind, lex_nil]

end CraftDsl
