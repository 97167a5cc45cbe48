import CraftDsl.Kind

/-!
The lexer. `scan` finds the longest token at the front of the text, and `lex` cuts the text up with
it. A character that begins no token is garbage on its own; a string or block comment without an end
runs to the end of the text.
-/
namespace CraftDsl

def isBlank (c : Char) : Bool := c = ' ' || c = '\t'

def isWordStart (c : Char) : Bool := c.isAlpha || c = '_'

def isWordChar (c : Char) : Bool := c.isAlphanum || c = '_' || c = '-'

def isLineBreak (c : Char) : Bool := c = '\n' || c = '\r'

def punctuation? : Char → Option TokenKind
  | '\x7b' => some .braceOpen
  | '\x7d' => some .braceClose
  | '[' => some .bracketOpen
  | ']' => some .bracketClose
  | '(' => some .parenOpen
  | ')' => some .parenClose
  | ':' => some .colon
  | ',' => some .comma
  | '>' => some .greater
  | _ => none

def wordKind (text : List Char) : TokenKind :=
  match Keyword.ofText? text with
  | some word => .keyword word
  | none => .identifier

/-- How many characters lead up to and include the closing quote, counted from `n`. A backslash
takes the character after it along, whatever it is. -/
def closingQuote? (n : Nat) : List Char → Option Nat
  | [] => none
  | '"' :: _ => some (n + 1)
  | '\\' :: _ :: cs => closingQuote? (n + 2) cs
  | _ :: cs => closingQuote? (n + 1) cs

/-- How many characters lead up to and include the first `*/`, counted from `n`. -/
def commentEnd? (n : Nat) : List Char → Option Nat
  | [] => none
  | '*' :: '/' :: _ => some (n + 2)
  | _ :: cs => commentEnd? (n + 1) cs

/-- The kind of the token that begins with `c`, and how many of the characters after `c` it takes. -/
def scan (c : Char) (cs : List Char) : TokenKind × Nat :=
  let run (p : Char → Bool) : Nat := (cs.takeWhile p).length
  match punctuation? c with
  | some kind => (kind, 0)
  | none =>
    if isWordStart c then (wordKind (c :: cs.takeWhile isWordChar), run isWordChar)
    else if isBlank c then (.whitespace, run isBlank)
    else if c = '\n' then (.newline, 0)
    else if c.isDigit then
      if (cs.dropWhile Char.isDigit).head? = some '%' then (.percentage, run Char.isDigit + 1)
      else (.number, run Char.isDigit)
    else if c = '"' then
      match closingQuote? 0 cs with
      | some n => (.string, n)
      | none => (.unterminatedString, cs.length)
    else match c, cs with
      | '\r', '\n' :: _ => (.newline, 1)
      | '-', '>' :: _ => (.arrow, 1)
      | '/', '/' :: rest => (.lineComment, 1 + (rest.takeWhile fun c => !isLineBreak c).length)
      | '/', '*' :: rest =>
        match commentEnd? 0 rest with
        | some n => (.blockComment, 1 + n)
        | none => (.unterminatedComment, 1 + rest.length)
      | _, _ => (.garbage, 0)

/-- A cursor over the tokens of a text. Blanks are given out only if they are kept. -/
structure Tokens where
  keepsBlanks : Bool
  offset : Nat
  /-- What is left of unmatched text, which is given out one character at a time. -/
  garbage : List Char
  rest : List Char

namespace Tokens

def length (t : Tokens) : Nat := t.garbage.length + t.rest.length

def next? : Tokens → Option ((Span × Token) × Tokens)
  | ⟨keepsBlanks, offset, c :: garbage, rest⟩ =>
    let stop := offset + c.utf8Size
    some ((⟨offset, stop⟩, ⟨.garbage, [c]⟩), ⟨keepsBlanks, stop, garbage, rest⟩)
  | ⟨_, _, [], []⟩ => none
  | ⟨keepsBlanks, offset, [], c :: cs⟩ =>
    let (kind, taken) := scan c cs
    let text := c :: cs.take taken
    let stop := offset + byteLength text
    if kind = .garbage then next? ⟨keepsBlanks, offset, text, cs.drop taken⟩
    else if kind = .whitespace && !keepsBlanks then next? ⟨keepsBlanks, stop, [], cs.drop taken⟩
    else some ((⟨offset, stop⟩, ⟨kind, text⟩), ⟨keepsBlanks, stop, [], cs.drop taken⟩)
  termination_by t => t.rest.length
  decreasing_by all_goals simp only [List.length_drop, List.length_cons]; omega

theorem next?_shorter (t : Tokens) {found : (Span × Token) × Tokens} (next : t.next? = some found) :
    found.2.length < t.length := by
  fun_induction next? t with
  | case1 keepsBlanks offset c garbage rest =>
    obtain rfl := Option.some.inj next
    simp only [length, List.length_cons]
    omega
  | case2 => cases next
  | case3 keepsBlanks offset c cs taken text unmatched ih =>
    have shorter := ih next
    simp only [length, text, List.length_cons, List.length_take, List.length_drop,
      List.length_nil] at shorter ⊢
    omega
  | case4 keepsBlanks offset c cs kind taken found text stop matched blank ih =>
    have shorter := ih next
    simp only [length, List.length_cons, List.length_drop, List.length_nil] at shorter ⊢
    omega
  | case5 keepsBlanks offset c cs kind taken found text stop matched kept =>
    obtain rfl := Option.some.inj next
    simp only [length, List.length_cons, List.length_drop, List.length_nil]
    omega

/-- Adds the tokens that are left to those found so far, newest first. -/
def collectOnto (found : List (Span × Token)) (t : Tokens) : List (Span × Token) :=
  match _next : t.next? with
  | none => found.reverse
  | some (token, after) => collectOnto (token :: found) after
  termination_by t.length
  decreasing_by exact t.next?_shorter _next

def collect (t : Tokens) : List (Span × Token) := collectOnto [] t

end Tokens

/-- The tokens of a source with their spans; blanks are left out unless they are kept. -/
def locatedTokens (keepsBlanks : Bool) (source : List Char) : List (Span × Token) :=
  (Tokens.mk keepsBlanks 0 [] source).collect

def lex (source : List Char) : List Token := (locatedTokens true source).map Prod.snd

def tokenize (source : List Char) : List Token := (locatedTokens false source).map Prod.snd

end CraftDsl
