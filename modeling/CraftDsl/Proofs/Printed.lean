import CraftDsl.Tree.Selection
import CraftDsl.Proofs.LongestMatch
import CraftDsl.Production.Outcome

/-!
Printed texts: words, strings and numbers with single spaces, marks and line breaks between. The lexer
finds the tokens of which such a text was put together.
-/
namespace CraftDsl

def Keyword.word (k : Keyword) : Word := k.spelling.toList

open TokenKind (identifier string)

instance (w : Word) : Decidable (identifier.Spelled w) :=
  match w with
  | [] => isFalse fun spelled => by
    obtain ⟨c, cs, -, -, same⟩ := TokenKind.spelled_identifier.mp spelled
    cases same
  | c :: cs => decidable_of_iff (isWordStart c = true ∧ cs.all isWordChar = true) (by
    rw [TokenKind.spelled_identifier, List.all_eq_true]
    constructor
    · intro ⟨start, rest⟩
      exact ⟨c, cs, start, rest, rfl⟩
    · intro ⟨_, _, start, rest, same⟩
      obtain ⟨rfl, rfl⟩ := List.cons.inj same
      exact ⟨start, rest⟩)

theorem spelled_string_iff {c : Char} {cs : List Char} :
    string.Spelled (c :: cs) ↔ c = '"' ∧ closingQuote? 0 cs = some cs.length := by
  rw [TokenKind.spelled_string]
  constructor
  · intro ⟨body, inside, same⟩
    obtain ⟨rfl, rfl⟩ := List.cons.inj same
    refine ⟨rfl, ?_⟩
    rw [closingQuote?_quoted inside, List.length_append, Nat.zero_add]
    rfl
  · intro ⟨quote, closing⟩
    obtain ⟨body, rest, inside, rfl, length⟩ := quoted_of_closingQuote? closing
    have last : rest = [] := by
      rw [List.length_append, List.length_cons] at length
      exact List.eq_nil_of_length_eq_zero (by omega)
    exact ⟨body, inside, by rw [quote, last]⟩

instance (w : Word) : Decidable (string.Spelled w) :=
  match w with
  | [] => isFalse fun spelled => by
    obtain ⟨body, -, same⟩ := TokenKind.spelled_string.mp spelled
    cases same
  | _ :: _ => decidable_of_iff _ spelled_string_iff.symm

instance (w : Word) : Decidable (TokenKind.number.Spelled w) :=
  decidable_of_iff (w ≠ [] ∧ w.all Char.isDigit = true)
    (by rw [TokenKind.spelled_number, List.all_eq_true])

instance (w : Word) : Decidable (TokenKind.percentage.Spelled w) :=
  decidable_of_iff (w.getLast? = some '%' ∧ TokenKind.number.Spelled w.dropLast) (by
    rw [TokenKind.spelled_percentage]
    constructor
    · intro ⟨last, number⟩
      exact ⟨w.dropLast, number, (List.dropLast_append_getLast? '%' last).symm⟩
    · rintro ⟨digits, number, rfl⟩
      exact ⟨List.getLast?_concat, by rwa [List.dropLast_concat]⟩)

theorem Keyword.spelled (k : Keyword) : identifier.Spelled k.word := by
  have keyword : (TokenKind.keyword k).Spelled k.word := (TokenKind.spelled_literal rfl).mpr rfl
  exact TokenKind.spelled_keyword keyword

def blank : Token := ⟨.whitespace, [' ']⟩

def lineBreak : Token := ⟨.newline, ['\n']⟩

def part (w : Word) : Token where
  kind := match w with
    | '"' :: _ => .string
    | ['\x7b'] => .braceOpen
    | _ => wordKind w
  text := w

def closing : Token := ⟨.braceClose, ['\x7d']⟩

def arrow : Token := ⟨.arrow, ['-', '>']⟩

def sign (c : Char) : Token := ⟨(punctuation? c).getD .garbage, [c]⟩

section

variable {w : Word}

theorem wordStart_unpunctuated {c : Char} (start : isWordStart c = true) : punctuation? c = none := by
  unfold punctuation?
  split <;> first | rfl | cases start

theorem part_word (spelled : identifier.Spelled w) : part w = ⟨wordKind w, w⟩ := by
  obtain ⟨c, cs, start, -, rfl⟩ := TokenKind.spelled_identifier.mp spelled
  unfold part
  split
  · rename_i same
    obtain ⟨rfl, -⟩ := List.cons.inj same
    cases start
  · rename_i same
    obtain ⟨rfl, -⟩ := List.cons.inj same
    cases start
  · rfl

theorem part_string (spelled : string.Spelled w) : part w = ⟨.string, w⟩ := by
  obtain ⟨body, -, rfl⟩ := TokenKind.spelled_string.mp spelled
  rfl

theorem wordKind_isTrivia (text : List Char) : (wordKind text).isTrivia = false := by
  unfold wordKind
  split <;> rfl

theorem part_isTrivia (w : Word) : (part w).isTrivia = false := by
  unfold part
  simp only [Token.isTrivia]
  split
  · rfl
  · rfl
  · exact wordKind_isTrivia w

theorem part_sound (w : Word) : (part w).kind.isError = false := by
  unfold part
  simp only
  split
  · rfl
  · rfl
  · unfold wordKind
    split <;> rfl

end

theorem wordKind_keyword {w : Word} {k : Keyword} : wordKind w = .keyword k ↔ w = k.word := by
  constructor
  · intro kind
    rw [wordKind] at kind
    split at kind
    · rename_i found
      rw [← TokenKind.keyword.inj kind]
      exact (spelling_ofText? found).symm
    · cases kind
  · intro same
    rw [wordKind, same, Keyword.word, ofText?_spelling]

theorem wordKind_isWord (w : Word) : (wordKind w).isWord = true := by
  unfold wordKind
  split <;> rfl

theorem KindSet.has_other {s kind : TokenKind} (other : kind ≠ s) : (single s).has kind = false := by
  rw [← Bool.not_eq_true, has_token]
  exact other

section

variable {w : Word}

theorem words_part (spelled : identifier.Spelled w) : KindSet.words.has (part w).kind = true := by
  rw [part_word spelled, KindSet.has_words]
  exact wordKind_isWord w

theorem part_other (spelled : identifier.Spelled w) {kind : TokenKind} (other : kind.isWord = false) :
    (part w).kind ≠ kind := by
  rw [part_word spelled]
  intro same
  have word := wordKind_isWord w
  rw [show wordKind w = kind from same, other] at word
  cases word

theorem keywords_part (spelled : identifier.Spelled w) (list : List Keyword) :
    (KindSet.ofKeywords list).has (part w).kind = decide (w ∈ list.map Keyword.word) := by
  rw [part_word spelled, KindSet.ofKeywords, KindSet.has_ofList, Bool.eq_iff_iff, decide_eq_true_iff,
    List.contains_iff_mem, List.mem_map, List.mem_map]
  constructor
  · intro ⟨k, listed, same⟩
    exact ⟨k, listed, (wordKind_keyword.mp (Kind.token.inj same).symm).symm⟩
  · intro ⟨k, listed, same⟩
    exact ⟨k, listed, congrArg Kind.token (wordKind_keyword.mpr same.symm).symm⟩

theorem keyword_part (spelled : identifier.Spelled w) (k : Keyword) :
    (KindSet.single (TokenKind.keyword k)).has (part w).kind = decide (w = k.word) := by
  rw [part_word spelled, Bool.eq_iff_iff, decide_eq_true_iff, KindSet.has_token, wordKind_keyword]

end

section

variable (n : Nat) (w : Word) (rest : List Token)

@[simp] theorem kindIn_blank : kindIn n (blank :: rest) = kindIn n rest := rfl

@[simp] theorem kindIn_part : kindIn 0 (part w :: rest) = (part w).kind := by
  rw [kindIn, if_neg (Bool.eq_false_iff.mp (part_isTrivia w))]

@[simp] theorem kindIn_part_succ : kindIn (n + 1) (part w :: rest) = kindIn n rest := by
  rw [kindIn, if_neg (Bool.eq_false_iff.mp (part_isTrivia w))]

@[simp] theorem kindIn_lineBreak : kindIn 0 (lineBreak :: rest) = .newline := rfl

end

theorem blank_trivia : ∀ token ∈ [blank], token.isTrivia = true :=
  List.forall_mem_singleton.mpr rfl

section

variable {w : Word}

theorem word_begins (spelled : identifier.Spelled w) : ∃ c cs, w = c :: cs ∧ isBlank c = false := by
  obtain ⟨c, cs, start, -, rfl⟩ := TokenKind.spelled_identifier.mp spelled
  refine ⟨c, cs, rfl, ?_⟩
  rw [← Bool.not_eq_true]
  intro blank
  rcases Bool.or_eq_true_iff.mp blank with space | tab
  · rw [of_decide_eq_true space] at start
    cases start
  · rw [of_decide_eq_true tab] at start
    cases start

theorem lex_word (spelled : identifier.Spelled w) {rest : List Char}
    (stop : ∀ d ∈ rest.head?, isWordChar d = false) : lex (w ++ rest) = part w :: lex rest := by
  obtain ⟨c, cs, start, letters, rfl⟩ := TokenKind.spelled_identifier.mp spelled
  have run : (cs ++ rest).takeWhile isWordChar = cs := by
    rw [List.takeWhile_append_of_pos letters]
    cases rest with
    | nil => exact List.append_nil cs
    | cons d rest =>
      rw [List.takeWhile_cons_of_neg (Bool.eq_false_iff.mp (stop d rfl)), List.append_nil]
  have found : scan c (cs ++ rest) = (wordKind (c :: cs), cs.length) := by
    simp only [scan, wordStart_unpunctuated start, if_pos start, run]
  rw [List.cons_append, lex_cons, found, part_word spelled]
  simp only [List.take_left', List.drop_left']

theorem lex_string (spelled : string.Spelled w) (rest : List Char) :
    lex (w ++ rest) = part w :: lex rest := by
  rw [part_string spelled]
  obtain ⟨body, inside, rfl⟩ := TokenKind.spelled_string.mp spelled
  have closing : closingQuote? 0 (body ++ '"' :: rest) = some (body.length + 1) := by
    rw [closingQuote?_quoted inside, Nat.zero_add]
    rfl
  have found : scan '"' (body ++ '"' :: rest) = (.string, body.length + 1) := by
    rw [scan_quote, closing]
  rw [List.cons_append, List.append_assoc, List.singleton_append, lex_cons, found, List.append_cons,
    List.take_left' (by simp), List.drop_left' (by simp)]

theorem lex_space {rest : List Char} (solid : ∀ d ∈ rest.head?, isBlank d = false) :
    lex (' ' :: rest) = blank :: lex rest := by
  have run : rest.takeWhile isBlank = [] := by
    cases rest with
    | nil => rfl
    | cons d rest => exact List.takeWhile_cons_of_neg (Bool.eq_false_iff.mp (solid d rfl))
  have found : scan ' ' rest = (.whitespace, 0) :=
    congrArg (fun run : List Char => (TokenKind.whitespace, run.length)) run
  rw [lex_cons, found]
  rfl

theorem lex_lineBreak (rest : List Char) : lex ('\n' :: rest) = lineBreak :: lex rest := lex_cons _ _

end

theorem intercalate_cons (separator first : List Char) (rest : List (List Char)) :
    separator.intercalate (first :: rest) = first ++ rest.flatMap fun text => separator ++ text := by
  induction rest generalizing first with
  | nil => simp
  | cons next rest ih => simp only [List.intercalate_cons_cons, ih, List.flatMap_cons, List.append_assoc]

def partsWords (c : Char) : Bool := !isWordChar c && c ≠ '%'

/-- The lexer finds the tokens first, none of them an error, whatever follows and begins with a
character that passes. -/
structure Lexes (text : List Char) (tokens : List Token) (stops : Char → Bool) : Prop where
  sound : ∀ token ∈ tokens, token.kind.isError = false
  lexed : ∀ rest : List Char, (∀ d ∈ rest.head?, stops d = true) →
    lex (text ++ rest) = tokens ++ lex rest

namespace Lexes

variable {w : Word} {s t : List Char} {a b : List Token} {p q : Char → Bool}

theorem word (spelled : identifier.Spelled w) : Lexes w [part w] partsWords := by
  refine ⟨List.forall_mem_singleton.mpr (part_sound w), fun rest stops => ?_⟩
  refine lex_word spelled fun d first => ?_
  have parts := stops d first
  rw [partsWords, Bool.and_eq_true, Bool.not_eq_true'] at parts
  exact parts.1

theorem number (spelled : TokenKind.number.Spelled w) : Lexes w [⟨.number, w⟩] partsWords := by
  refine ⟨List.forall_mem_singleton.mpr rfl, fun rest stops => ?_⟩
  obtain ⟨wide, digits⟩ := TokenKind.spelled_number.mp spelled
  obtain ⟨c, cs, rfl⟩ := List.exists_cons_of_ne_nil wide
  obtain ⟨digit, run⟩ := List.forall_mem_cons.mp digits
  obtain ⟨mark, blank, line⟩ := digit_plain digit
  have ends : rest.takeWhile Char.isDigit = [] ∧ rest.dropWhile Char.isDigit = rest ∧
      rest.head? ≠ some '%' := by
    cases rest with
    | nil => exact ⟨rfl, rfl, by simp⟩
    | cons d rest =>
      have parts := stops d rfl
      simp only [partsWords, Bool.and_eq_true, Bool.not_eq_true', decide_eq_true_eq] at parts
      have other : ¬ d.isDigit = true := by
        intro digit
        have letter : isWordChar d = true := by
          rw [isWordChar, Char.isAlphanum, digit, Bool.or_true]
          rfl
        exact Bool.noConfusion (parts.1.symm.trans letter)
      refine ⟨List.takeWhile_cons_of_neg other, List.dropWhile_cons_of_neg other, ?_⟩
      exact fun same => parts.2 (Option.some.inj same)
  have found : scan c (cs ++ rest) = (.number, cs.length) := by
    simp only [scan, mark, digit_not_wordStart digit, blank, line, digit, Bool.false_eq_true,
      if_false, if_true, List.takeWhile_append_of_pos run, List.dropWhile_append_of_pos run, ends.1,
      ends.2.1, if_neg ends.2.2, List.append_nil]
  rw [List.cons_append, lex_cons, found]
  simp only [List.take_left', List.drop_left', List.singleton_append]

theorem percentage (spelled : TokenKind.percentage.Spelled w) :
    Lexes w [⟨.percentage, w⟩] fun _ => true := by
  refine ⟨List.forall_mem_singleton.mpr rfl, fun rest _ => ?_⟩
  obtain ⟨digits, number, rfl⟩ := TokenKind.spelled_percentage.mp spelled
  obtain ⟨wide, digits⟩ := TokenKind.spelled_number.mp number
  obtain ⟨c, cs, rfl⟩ := List.exists_cons_of_ne_nil wide
  obtain ⟨digit, run⟩ := List.forall_mem_cons.mp digits
  obtain ⟨mark, blank, line⟩ := digit_plain digit
  have other : ¬ '%'.isDigit = true := by decide
  have found : scan c (cs ++ '%' :: rest) = (.percentage, cs.length + 1) := by
    simp only [scan, mark, digit_not_wordStart digit, blank, line, digit, Bool.false_eq_true,
      if_false, if_true, List.takeWhile_append_of_pos run, List.dropWhile_append_of_pos run,
      List.takeWhile_cons_of_neg other, List.dropWhile_cons_of_neg other, List.head?_cons,
      List.append_nil]
  rw [List.append_assoc, List.singleton_append, List.cons_append, lex_cons, found, List.append_cons,
    List.take_left' (by simp), List.drop_left' (by simp)]
  rfl

theorem arrow : Lexes ['-', '>'] [CraftDsl.arrow] fun _ => true :=
  ⟨List.forall_mem_singleton.mpr rfl, fun rest _ => lex_cons '-' ('>' :: rest)⟩

theorem sign {c : Char} (mark : (punctuation? c).isSome = true) :
    Lexes [c] [CraftDsl.sign c] fun _ => true := by
  obtain ⟨kind, mark⟩ := Option.isSome_iff_exists.mp mark
  have same : CraftDsl.sign c = ⟨kind, [c]⟩ := by rw [CraftDsl.sign, mark, Option.getD_some]
  have sound : kind.isError = false := by
    unfold punctuation? at mark
    split at mark <;> cases mark <;> rfl
  rw [same]
  refine ⟨List.forall_mem_singleton.mpr sound, fun rest _ => ?_⟩
  have found : scan c rest = (kind, 0) := by simp only [scan, mark]
  rw [List.singleton_append, lex_cons, found]
  rfl

theorem space : Lexes [' '] [blank] fun c => !isBlank c := by
  refine ⟨List.forall_mem_singleton.mpr rfl, fun rest stops => lex_space fun d first => ?_⟩
  simpa using stops d first

theorem newline : Lexes ['\n'] [lineBreak] fun _ => true :=
  ⟨List.forall_mem_singleton.mpr rfl, fun rest _ => lex_lineBreak rest⟩

theorem nil (p : Char → Bool) : Lexes [] [] p := ⟨List.forall_mem_nil _, fun _ _ => rfl⟩

theorem append (first : Lexes s a p) (second : Lexes t b q)
    (joins : ∃ c cs, t = c :: cs ∧ p c = true) : Lexes (s ++ t) (a ++ b) q := by
  refine ⟨List.forall_mem_append.mpr ⟨first.sound, second.sound⟩, fun rest stops => ?_⟩
  obtain ⟨c, cs, begins, passes⟩ := joins
  have next : ∀ d ∈ (t ++ rest).head?, p d = true := by
    rw [begins]
    rintro d ⟨⟩
    exact passes
  rw [List.append_assoc, first.lexed _ next, second.lexed rest stops, List.append_assoc]

theorem flatMap {α : Type} {xs : List α} {f : α → List Char} {g : α → List Token}
    (each : ∀ x ∈ xs, Lexes (f x) (g x) p)
    (begins : ∀ x ∈ xs, ∃ c cs, f x = c :: cs ∧ p c = true) :
    Lexes (xs.flatMap f) (xs.flatMap g) p := by
  induction xs with
  | nil => exact nil p
  | cons x xs ih =>
    obtain ⟨here, later⟩ := List.forall_mem_cons.mp each
    obtain ⟨-, joins⟩ := List.forall_mem_cons.mp begins
    cases xs with
    | nil =>
      rw [List.flatMap_singleton, List.flatMap_singleton]
      exact here
    | cons y ys =>
      obtain ⟨c, cs, first, passes⟩ := joins y List.mem_cons_self
      have begins : (y :: ys).flatMap f = c :: (cs ++ ys.flatMap f) := by
        rw [List.flatMap_cons, first, List.cons_append]
      exact here.append (ih later joins) ⟨c, _, begins, passes⟩

/-- Nothing can go wrong after a text that ends whatever follows. -/
theorem before (first : Lexes s a fun _ => true) (second : Lexes t b q) :
    Lexes (s ++ t) (a ++ b) q := by
  refine ⟨List.forall_mem_append.mpr ⟨first.sound, second.sound⟩, fun rest stops => ?_⟩
  rw [List.append_assoc, first.lexed _ fun _ _ => rfl, second.lexed rest stops, List.append_assoc]

theorem lines {α : Type} {xs : List α} {f : α → List Char} {g : α → List Token}
    (each : ∀ x ∈ xs, Lexes (f x) (g x) fun _ => true) :
    Lexes (xs.flatMap f) (xs.flatMap g) fun _ => true := by
  induction xs with
  | nil => exact nil _
  | cons x xs ih =>
    obtain ⟨here, later⟩ := List.forall_mem_cons.mp each
    exact here.before (ih later)

theorem mono (lexes : Lexes s a p) (fewer : ∀ d, q d = true → p d = true) : Lexes s a q :=
  ⟨lexes.sound, fun rest stops => lexes.lexed rest fun d first => fewer d (stops d first)⟩

theorem whole (lexes : Lexes s a p) : lex s = a := by
  have all := lexes.lexed [] fun d none => by cases none
  rwa [List.append_nil, lex_nil, List.append_nil] at all

end Lexes

end CraftDsl
