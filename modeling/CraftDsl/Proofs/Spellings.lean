import CraftDsl.Token.Lexer
import Mathlib.Computability.Language
import Mathlib.Tactic.Common

/-!
How tokens are written: for each kind the regular expressions of its texts, and what these texts look
like.
-/
namespace CraftDsl

open Computability

/-- Regular expressions over characters. A class has the ranges of the characters inside or outside. -/
inductive Regex
  | inside (ranges : List (Char × Char))
  | outside (ranges : List (Char × Char))
  | nothing
  | seq (first second : Regex)
  | alt (first second : Regex)
  | many (body : Regex)
  deriving DecidableEq

namespace Regex

def one (c : Char) : Regex := inside [(c, c)]

def chain (parts : List Regex) : Regex := parts.foldr seq nothing

def literal (text : String) : Regex := chain (text.toList.map one)

def oneOrMore (body : Regex) : Regex := seq body (many body)

def optional (body : Regex) : Regex := alt body nothing

def within (ranges : List (Char × Char)) (c : Char) : Bool :=
  ranges.any fun (low, high) => low ≤ c && c ≤ high

def texts : Regex → Language Char
  | inside ranges => {text | ∃ c, within ranges c = true ∧ text = [c]}
  | outside ranges => {text | ∃ c, within ranges c = false ∧ text = [c]}
  | nothing => 1
  | seq first second => first.texts * second.texts
  | alt first second => first.texts + second.texts
  | many body => body.texts∗

def escape : Regex := seq (one '\\') (alt (outside [('\n', '\n')]) (one '\n'))

def quoted : Regex := many (alt (outside [('"', '"'), ('\\', '\\')]) escape)

def star : Regex := one '*'

def notStar : Regex := outside [('*', '*')]

def commentPart : Regex := chain [outside [('/', '/'), ('*', '*')], many notStar, oneOrMore star]

def openPart : Regex := alt notStar (seq (oneOrMore star) (outside [('*', '*'), ('/', '/')]))

end Regex

namespace TokenKind

open Regex in
def spellings : TokenKind → List Regex
  | braceOpen => [literal "\x7b"]
  | braceClose => [literal "\x7d"]
  | bracketOpen => [literal "["]
  | bracketClose => [literal "]"]
  | parenOpen => [literal "("]
  | parenClose => [literal ")"]
  | colon => [literal ":"]
  | comma => [literal ","]
  | greater => [literal ">"]
  | arrow => [literal "->"]
  | keyword word => [literal word.spelling]
  | identifier =>
    [seq (inside [('a', 'z'), ('A', 'Z'), ('_', '_')])
      (many (inside [('a', 'z'), ('A', 'Z'), ('0', '9'), ('_', '_'), ('-', '-')]))]
  | string => [chain [one '"', quoted, one '"']]
  | unterminatedString => [chain [one '"', quoted, optional (one '\\')]]
  | number => [oneOrMore (inside [('0', '9')])]
  | percentage => [seq (oneOrMore (inside [('0', '9')])) (one '%')]
  | whitespace => [oneOrMore (inside [(' ', ' '), ('\t', '\t')])]
  | newline => [literal "\n", literal "\r\n"]
  | lineComment => [seq (literal "//") (many (outside [('\r', '\r'), ('\n', '\n')]))]
  | blockComment => [chain [literal "/*", many notStar, oneOrMore star, many commentPart, one '/']]
  | unterminatedComment => [chain [literal "/*", many openPart, many star]]
  | garbage | endOfInput => []

/-- The text is one that a regular expression of the kind matches. -/
def Spelled (kind : TokenKind) (text : List Char) : Prop :=
  ∃ spelling ∈ kind.spellings, text ∈ spelling.texts

end TokenKind

namespace Regex

section

variable {text : List Char}

theorem within_nil (c : Char) : within [] c = false := rfl

theorem within_cons (low high : Char) (ranges : List (Char × Char)) (c : Char) :
    within ((low, high) :: ranges) c = (low ≤ c && c ≤ high || within ranges c) := rfl

theorem within_single (c d : Char) (ranges : List (Char × Char)) :
    within ((c, c) :: ranges) d = (d = c || within ranges d) := by
  have same : (decide (c ≤ d) && decide (d ≤ c)) = decide (d = c) := by
    rw [← Bool.decide_and]
    refine decide_eq_decide.mpr ⟨fun both => Char.le_antisymm both.2 both.1, ?_⟩
    rintro rfl
    exact ⟨Char.le_refl d, Char.le_refl d⟩
  rw [within_cons, same]

theorem within_one (c d : Char) : within [(c, c)] d = decide (d = c) := by
  rw [within_single]
  exact Bool.or_false _

theorem mem_one {c : Char} : text ∈ (one c).texts ↔ text = [c] := by
  constructor
  · rintro ⟨d, same, rfl⟩
    rw [of_decide_eq_true ((within_one c d).symm.trans same)]
  · rintro rfl
    exact ⟨c, (within_one c c).trans (decide_eq_true rfl), rfl⟩

theorem mem_inside {ranges : List (Char × Char)} :
    text ∈ (inside ranges).texts ↔ ∃ c, within ranges c = true ∧ text = [c] := Iff.rfl

theorem mem_outside {ranges : List (Char × Char)} :
    text ∈ (outside ranges).texts ↔ ∃ c, within ranges c = false ∧ text = [c] := Iff.rfl

theorem mem_seq {first second : Regex} :
    text ∈ (seq first second).texts ↔ ∃ u ∈ first.texts, ∃ v ∈ second.texts, text = u ++ v := by
  simp [texts, Language.mem_mul, eq_comm]

theorem mem_alt {first second : Regex} :
    text ∈ (alt first second).texts ↔ text ∈ first.texts ∨ text ∈ second.texts := Iff.rfl

theorem mem_nothing : text ∈ nothing.texts ↔ text = [] := Language.mem_one text

theorem mem_optional {body : Regex} :
    text ∈ body.optional.texts ↔ text ∈ body.texts ∨ text = [] := by
  rw [optional, mem_alt, mem_nothing]

theorem mem_chain_nil : text ∈ (chain []).texts ↔ text = [] := mem_nothing

theorem mem_chain_cons {part : Regex} {parts : List Regex} :
    text ∈ (chain (part :: parts)).texts ↔
      ∃ u ∈ part.texts, ∃ v ∈ (chain parts).texts, text = u ++ v := mem_seq

theorem mem_literal {word : String} : text ∈ (literal word).texts ↔ text = word.toList := by
  rw [literal]
  induction word.toList generalizing text with
  | nil => exact mem_chain_nil
  | cons c cs ih => simp [mem_chain_cons, mem_one, ih]

theorem many_nil (body : Regex) : [] ∈ body.many.texts := Language.nil_mem_kstar _

theorem many_cons {body : Regex} {word : List Char} (first : word ∈ body.texts)
    (rest : text ∈ body.many.texts) : word ++ text ∈ body.many.texts := by
  obtain ⟨words, rfl, all⟩ := Language.mem_kstar.mp rest
  exact Language.mem_kstar.mpr ⟨word :: words, rfl, List.forall_mem_cons.mpr ⟨first, all⟩⟩

/-- What holds of the empty text and stays when a word of the body comes in front holds of every
repetition of the body. -/
theorem many_induction {body : Regex} {motive : List Char → Prop} (nil : motive [])
    (cons : ∀ word ∈ body.texts, ∀ text, motive text → motive (word ++ text))
    (member : text ∈ body.many.texts) : motive text := by
  obtain ⟨words, rfl, all⟩ := Language.mem_kstar.mp member
  clear member
  induction words with
  | nil => exact nil
  | cons word words ih =>
    obtain ⟨first, rest⟩ := List.forall_mem_cons.mp all
    exact cons word first _ (ih rest)

theorem many_cases {body : Regex} (member : text ∈ body.many.texts) :
    text = [] ∨ ∃ word ∈ body.texts, ∃ rest ∈ body.many.texts, text = word ++ rest := by
  obtain ⟨words, rfl, all⟩ := Language.mem_kstar.mp member
  cases words with
  | nil => exact .inl rfl
  | cons word words =>
    obtain ⟨first, rest⟩ := List.forall_mem_cons.mp all
    exact .inr ⟨word, first, words.flatten, Language.join_mem_kstar rest, rfl⟩

theorem mem_many_letters {body : Regex} {p : Char → Prop}
    (letters : ∀ {text}, text ∈ body.texts ↔ ∃ c, p c ∧ text = [c]) :
    text ∈ body.many.texts ↔ ∀ c ∈ text, p c := by
  constructor
  · apply many_induction (motive := fun text => ∀ c ∈ text, p c)
    · nofun
    · intro word member text run
      obtain ⟨c, inside, rfl⟩ := letters.mp member
      exact List.forall_mem_cons.mpr ⟨inside, run⟩
  · intro run
    induction text with
    | nil => exact many_nil body
    | cons c cs ih =>
      obtain ⟨first, rest⟩ := List.forall_mem_cons.mp run
      exact many_cons (letters.mpr ⟨c, first, rfl⟩) (ih rest)

theorem mem_oneOrMore_letters {body : Regex} {p : Char → Prop}
    (letters : ∀ {text}, text ∈ body.texts ↔ ∃ c, p c ∧ text = [c]) :
    text ∈ body.oneOrMore.texts ↔ text ≠ [] ∧ ∀ c ∈ text, p c := by
  rw [oneOrMore, mem_seq]
  constructor
  · rintro ⟨u, first, v, rest, rfl⟩
    obtain ⟨c, inside, rfl⟩ := letters.mp first
    exact ⟨List.cons_ne_nil _ _,
      List.forall_mem_cons.mpr ⟨inside, (mem_many_letters letters).mp rest⟩⟩
  · rintro ⟨wide, run⟩
    obtain ⟨c, cs, rfl⟩ := List.exists_cons_of_ne_nil wide
    obtain ⟨first, rest⟩ := List.forall_mem_cons.mp run
    exact ⟨[c], letters.mpr ⟨c, first, rfl⟩, cs, (mem_many_letters letters).mpr rest, rfl⟩

end

theorem within_digit (c : Char) : within [('0', '9')] c = c.isDigit := by
  rw [within_cons]
  exact Bool.or_false _

theorem within_wordStart (c : Char) :
    within [('a', 'z'), ('A', 'Z'), ('_', '_')] c = isWordStart c := by
  have small : (decide ('a' ≤ c) && decide (c ≤ 'z')) = c.isLower := rfl
  have capital : (decide ('A' ≤ c) && decide (c ≤ 'Z')) = c.isUpper :=
    (Bool.decide_and ..).symm
  have letter : c.isAlpha = (c.isUpper || c.isLower) := rfl
  rw [within_cons, within_cons, within_one, small, capital, isWordStart, letter,
    ← Bool.or_assoc, Bool.or_comm c.isLower]

theorem within_wordChar (c : Char) :
    within [('a', 'z'), ('A', 'Z'), ('0', '9'), ('_', '_'), ('-', '-')] c = isWordChar c := by
  have small : (decide ('a' ≤ c) && decide (c ≤ 'z')) = c.isLower := rfl
  have capital : (decide ('A' ≤ c) && decide (c ≤ 'Z')) = c.isUpper :=
    (Bool.decide_and ..).symm
  have digit : (decide ('0' ≤ c) && decide (c ≤ '9')) = c.isDigit := rfl
  have letter : c.isAlphanum = (c.isUpper || c.isLower || c.isDigit) := rfl
  rw [within_cons, within_cons, within_cons, within_single, within_one, small, capital, digit,
    isWordChar, letter]
  simp only [← Bool.or_assoc, Bool.or_comm c.isLower c.isUpper]

theorem within_blank (c : Char) : within [(' ', ' '), ('\t', '\t')] c = isBlank c := by
  rw [within_single, within_one, isBlank]

theorem within_lineBreak (c : Char) : within [('\r', '\r'), ('\n', '\n')] c = isLineBreak c := by
  rw [within_single, within_one, isLineBreak, Bool.or_comm]

theorem mem_class {ranges : List (Char × Char)} {p : Char → Bool} {text : List Char}
    (same : ∀ c, within ranges c = p c) :
    text ∈ (inside ranges).texts ↔ ∃ c, p c = true ∧ text = [c] := by
  simp only [mem_inside, same]

theorem mem_star {text : List Char} : text ∈ star.texts ↔ ∃ c, c = '*' ∧ text = [c] := by
  rw [star, mem_one, exists_eq_left]

theorem mem_notStar {text : List Char} : text ∈ notStar.texts ↔ ∃ c, c ≠ '*' ∧ text = [c] := by
  simp only [notStar, mem_outside, within_one, decide_eq_false_iff_not, ne_eq]

theorem mem_escape {text : List Char} : text ∈ escape.texts ↔ ∃ c, text = ['\\', c] := by
  simp only [escape, mem_seq, mem_alt, mem_one, mem_outside, within_one]
  constructor
  · rintro ⟨_, rfl, _, ⟨c, -, rfl⟩ | rfl, rfl⟩
    · exact ⟨c, rfl⟩
    · exact ⟨'\n', rfl⟩
  · rintro ⟨c, rfl⟩
    refine ⟨['\\'], rfl, [c], ?_, rfl⟩
    by_cases line : c = '\n'
    · exact .inr (by rw [line])
    · exact .inl ⟨c, decide_eq_false line, rfl⟩

theorem mem_outsideTwo {first second : Char} {text : List Char} :
    text ∈ (outside [(first, first), (second, second)]).texts ↔
      ∃ c, (c ≠ first ∧ c ≠ second) ∧ text = [c] := by
  simp only [mem_outside, within_single, within_nil, Bool.or_eq_false_iff, Bool.or_false,
    decide_eq_false_iff_not, ne_eq]

end Regex

namespace TokenKind

open Regex

section

variable {text : List Char}

theorem spelled_single {kind : TokenKind} {spelling : Regex} (alone : kind.spellings = [spelling]) :
    kind.Spelled text ↔ text ∈ spelling.texts := by
  simp [Spelled, alone]

theorem spelled_literal {kind : TokenKind} {word : String}
    (alone : kind.spellings = [literal word]) : kind.Spelled text ↔ text = word.toList :=
  (spelled_single alone).trans mem_literal

theorem spelled_identifier : identifier.Spelled text ↔
    ∃ c cs, isWordStart c = true ∧ (∀ d ∈ cs, isWordChar d = true) ∧ text = c :: cs := by
  rw [spelled_single rfl, mem_seq]
  constructor
  · rintro ⟨_, first, cs, rest, rfl⟩
    obtain ⟨c, start, rfl⟩ := (mem_class within_wordStart).mp first
    exact ⟨c, cs, start, (mem_many_letters (mem_class within_wordChar)).mp rest, rfl⟩
  · rintro ⟨c, cs, start, rest, rfl⟩
    exact ⟨[c], (mem_class within_wordStart).mpr ⟨c, start, rfl⟩, cs,
      (mem_many_letters (mem_class within_wordChar)).mpr rest, rfl⟩

theorem spelled_keyword {word : Keyword} (spelled : (keyword word).Spelled text) :
    identifier.Spelled text := by
  rw [(spelled_literal rfl).mp spelled, spelled_identifier]
  cases word <;> exact ⟨_, _, rfl, List.all_eq_true.mp rfl, rfl⟩

theorem spelled_number :
    number.Spelled text ↔ text ≠ [] ∧ ∀ c ∈ text, c.isDigit = true :=
  (spelled_single rfl).trans (mem_oneOrMore_letters (mem_class within_digit))

theorem spelled_percentage : percentage.Spelled text ↔
    ∃ digits, number.Spelled digits ∧ text = digits ++ ['%'] := by
  have digits : ∀ digits : List Char,
      number.Spelled digits ↔ digits ∈ (oneOrMore (inside [('0', '9')])).texts :=
    fun _ => spelled_single rfl
  rw [spelled_single rfl]
  simp only [mem_seq, mem_one, exists_eq_left, digits]

theorem spelled_whitespace :
    whitespace.Spelled text ↔ text ≠ [] ∧ ∀ c ∈ text, isBlank c = true :=
  (spelled_single rfl).trans (mem_oneOrMore_letters (mem_class within_blank))

theorem spelled_newline : newline.Spelled text ↔ text = ['\n'] ∨ text = ['\r', '\n'] := by
  simp only [Spelled, spellings, List.mem_cons, List.not_mem_nil, or_false, exists_eq_or_imp,
    exists_eq_left, mem_literal]
  rfl

theorem spelled_lineComment : lineComment.Spelled text ↔
    ∃ cs, (∀ c ∈ cs, isLineBreak c = false) ∧ text = '/' :: '/' :: cs := by
  have lines : ∀ {text : List Char}, text ∈ (outside [('\r', '\r'), ('\n', '\n')]).texts ↔
      ∃ c, isLineBreak c = false ∧ text = [c] := by
    simp only [mem_outside, within_lineBreak, implies_true]
  rw [spelled_single rfl, mem_seq]
  simp only [mem_literal, exists_eq_left, mem_many_letters lines]
  rfl

theorem spelled_string :
    string.Spelled text ↔ ∃ body ∈ quoted.texts, text = '"' :: (body ++ ['"']) := by
  rw [spelled_single rfl]
  simp only [mem_chain_cons, mem_chain_nil, mem_one, exists_eq_left, List.append_nil]
  constructor
  · rintro ⟨_, ⟨body, inside, rfl⟩, rfl⟩
    exact ⟨body, inside, rfl⟩
  · rintro ⟨body, inside, rfl⟩
    exact ⟨_, ⟨body, inside, rfl⟩, rfl⟩

theorem spelled_unterminatedString : unterminatedString.Spelled text ↔
    ∃ body ∈ quoted.texts, text = '"' :: body ∨ text = '"' :: (body ++ ['\\']) := by
  rw [spelled_single rfl]
  simp only [mem_chain_cons, mem_chain_nil, mem_one, mem_optional, exists_eq_left, List.append_nil]
  constructor
  · rintro ⟨_, ⟨body, inside, _, ⟨_, rfl | rfl, rfl⟩, rfl⟩, rfl⟩
    · exact ⟨body, inside, .inr rfl⟩
    · exact ⟨body, inside, .inl (by simp)⟩
  · rintro ⟨body, inside, rfl | rfl⟩
    · exact ⟨_, ⟨body, inside, [], ⟨[], .inr rfl, rfl⟩, rfl⟩, by simp⟩
    · exact ⟨_, ⟨body, inside, _, ⟨_, .inl rfl, rfl⟩, rfl⟩, rfl⟩

theorem spelled_blockComment : blockComment.Spelled text ↔
    ∃ before stars parts, (∀ c ∈ before, c ≠ '*') ∧ (stars ≠ [] ∧ ∀ c ∈ stars, c = '*') ∧
      parts ∈ commentPart.many.texts ∧
        text = '/' :: '*' :: (before ++ (stars ++ (parts ++ ['/']))) := by
  rw [spelled_single rfl]
  simp only [mem_chain_cons, mem_chain_nil, mem_one, mem_literal, exists_eq_left, List.append_nil,
    mem_many_letters mem_notStar, mem_oneOrMore_letters mem_star]
  constructor
  · rintro ⟨_, ⟨before, run, _, ⟨stars, starry, _, ⟨parts, inside, rfl⟩, rfl⟩, rfl⟩, rfl⟩
    exact ⟨before, stars, parts, run, starry, inside, rfl⟩
  · rintro ⟨before, stars, parts, run, starry, inside, rfl⟩
    exact ⟨_, ⟨before, run, _, ⟨stars, starry, _, ⟨parts, inside, rfl⟩, rfl⟩, rfl⟩, rfl⟩

theorem mem_commentPart : text ∈ commentPart.texts ↔
    ∃ c before stars, (c ≠ '/' ∧ c ≠ '*') ∧ (∀ d ∈ before, d ≠ '*') ∧
      (stars ≠ [] ∧ ∀ d ∈ stars, d = '*') ∧ text = c :: (before ++ stars) := by
  simp only [commentPart, mem_chain_cons, mem_chain_nil, mem_outsideTwo,
    mem_many_letters mem_notStar, mem_oneOrMore_letters mem_star]
  constructor
  · rintro ⟨_, ⟨c, other, rfl⟩, _, ⟨before, run, _, ⟨stars, starry, _, rfl, rfl⟩, rfl⟩, rfl⟩
    exact ⟨c, before, stars, other, run, starry, by simp⟩
  · rintro ⟨c, before, stars, other, run, starry, rfl⟩
    exact ⟨[c], ⟨c, other, rfl⟩, _, ⟨before, run, _, ⟨stars, starry, [], rfl, rfl⟩, rfl⟩, by simp⟩

theorem spelled_unterminatedComment : unterminatedComment.Spelled text ↔
    ∃ body stars, body ∈ openPart.many.texts ∧ (∀ c ∈ stars, c = '*') ∧
      text = '/' :: '*' :: (body ++ stars) := by
  rw [spelled_single rfl]
  simp only [mem_chain_cons, mem_chain_nil, mem_literal, exists_eq_left, List.append_nil,
    mem_many_letters mem_star]
  constructor
  · rintro ⟨_, ⟨body, inside, _, ⟨stars, starry, rfl⟩, rfl⟩, rfl⟩
    exact ⟨body, _, inside, starry, rfl⟩
  · rintro ⟨body, stars, inside, starry, rfl⟩
    exact ⟨_, ⟨body, inside, _, ⟨stars, starry, rfl⟩, rfl⟩, rfl⟩

theorem mem_openPart : text ∈ openPart.texts ↔
    (∃ c, c ≠ '*' ∧ text = [c]) ∨
      ∃ stars c, (stars ≠ [] ∧ ∀ d ∈ stars, d = '*') ∧ (c ≠ '*' ∧ c ≠ '/') ∧
        text = stars ++ [c] := by
  simp only [openPart, mem_alt, mem_notStar, mem_seq, mem_oneOrMore_letters mem_star,
    mem_outsideTwo]
  apply or_congr_right
  constructor
  · rintro ⟨stars, starry, _, ⟨c, other, rfl⟩, rfl⟩
    exact ⟨stars, c, starry, other, rfl⟩
  · rintro ⟨stars, c, starry, other, rfl⟩
    exact ⟨stars, starry, [c], ⟨c, other, rfl⟩, rfl⟩

end

end TokenKind

end CraftDsl
