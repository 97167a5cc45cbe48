import CraftDsl.Json.Value
import CraftDsl.Text.Position

/-!
The tokens of a JSON text. A text may be broken, and a reader that takes a value looks closer than one
that passes over it: only the first asks for paired surrogates and for numbers within range. So a
token says what either of them finds.
-/
namespace CraftDsl

/-- Why a JSON text has no value of the kind asked for. -/
inductive JsonError
  /-- The text ends too early. -/
  | endedEarly
  /-- The text is not well formed. -/
  | malformed
  /-- The text is well formed so far, and its value is not of the kind asked for. -/
  | wrongShape
  deriving DecidableEq, Repr

/-- What a reader meets that takes the value at this place, and what one that passes over it. -/
structure JsonBreak where
  taken : JsonError
  passed : JsonError

def JsonBreak.same (e : JsonError) : JsonBreak := ⟨e, e⟩

inductive JsonToken
  | arrayOpen | arrayClose | objectOpen | objectClose | comma | colon
  /-- A string; it has no value if it holds half of a surrogate pair. -/
  | text (value : Option String)
  /-- A literal or number; it has no value if it is out of range. -/
  | scalar (value : Option JsonValue)
  /-- A string that is broken off. -/
  | brokenText (found : JsonBreak)
  /-- Anything else that is broken off or begins no token. -/
  | broken (found : JsonBreak)

namespace JsonToken

def isSpace (c : Char) : Bool := c = ' ' || c = '\n' || c = '\t' || c = '\r'

def hexDigit? (c : Char) : Option Nat :=
  if c.isDigit then some (c.toNat - '0'.toNat)
  else if 'a' ≤ c ∧ c ≤ 'f' then some (c.toNat - 'a'.toNat + 10)
  else if 'A' ≤ c ∧ c ≤ 'F' then some (c.toNat - 'A'.toNat + 10)
  else none

/-- The unit that the four digits after `\u` stand for. Where less than four bytes are left the text
ends too early, whatever they are. -/
def hexUnit (text : List Char) : Except JsonError Nat :=
  if byteLength (text.take 4) < 4 then .error .endedEarly
  else
    match (text.take 4).mapM hexDigit? with
    | some digits => .ok (digits.foldl (fun n digit => n * 16 + digit) 0)
    | none => .error .malformed

def isLeadSurrogate (unit : Nat) : Bool := 0xd800 ≤ unit && unit ≤ 0xdbff

def isTrailSurrogate (unit : Nat) : Bool := 0xdc00 ≤ unit && unit ≤ 0xdfff

def simpleEscape? (c : Char) : Option Char :=
  if c = '"' || c = '\\' || c = '/' then some c
  else if c = 'b' then some '\x08'
  else if c = 'f' then some '\x0c'
  else if c = 'n' then some '\n'
  else if c = 'r' then some '\r'
  else if c = 't' then some '\t'
  else none

/-- What is read after a `\u` escape of the unit `lead`, of which `text` is the rest: the character
of the pair and how much of the text belongs to it, nothing if the pair is not completed, or an error
that breaks the string in any case. -/
def trailSurrogate (lead : Nat) (text : List Char) : Except JsonError (Option (Char × Nat)) :=
  match text with
  | '\\' :: 'u' :: rest => do
    let unit ← hexUnit rest
    if isTrailSurrogate unit then
      return some (Char.ofNat ((lead - 0xd800) * 0x400 + (unit - 0xdc00) + 0x10000), 6)
    else return none
  | _ => return none

/-- Reads a string after its opening quote. The characters read so far come last first; `whole` is
false once half of a surrogate pair was met. -/
def scanText (whole : Bool) (read : List Char) (text : List Char) : JsonToken × List Char :=
  let breakOff (e : JsonError) : JsonToken × List Char :=
    (.brokenText ⟨if whole then e else .malformed, e⟩, [])
  match text with
  | [] => breakOff .endedEarly
  | '"' :: rest => (.text (if whole then some (String.ofList read.reverse) else none), rest)
  | '\\' :: [] => breakOff .endedEarly
  | '\\' :: 'u' :: rest =>
    match hexUnit rest with
    | .error e => breakOff e
    | .ok unit =>
      if isTrailSurrogate unit then scanText false read (rest.drop 4)
      else if isLeadSurrogate unit then
        match rest.drop 4 with
        | [] | ['\\'] => breakOff .endedEarly
        | _ =>
          match trailSurrogate unit (rest.drop 4) with
          | .error e => breakOff e
          | .ok (some (c, taken)) => scanText whole (c :: read) ((rest.drop 4).drop taken)
          | .ok none => scanText false read (rest.drop 4)
      else scanText whole (Char.ofNat unit :: read) (rest.drop 4)
  | '\\' :: c :: rest =>
    match simpleEscape? c with
    | some escaped => scanText whole (escaped :: read) rest
    | none => breakOff .malformed
  | c :: rest => if c.toNat < 0x20 then breakOff .malformed else scanText whole (c :: read) rest
  termination_by text.length
  decreasing_by all_goals simp only [List.length_drop, List.length_cons]; omega

structure NumberParts where
  negative : Bool
  whole : List Char
  fraction : Option (List Char)
  exponent : Option (Bool × List Char)

def digitsValue (digits : List Char) : Nat :=
  digits.foldl (fun n c => n * 10 + (c.toNat - '0'.toNat)) 0

namespace NumberParts

/-- An integer literal is one without fraction and exponent, `-0` excepted. -/
def integer? (parts : NumberParts) : Option Int :=
  let n := digitsValue parts.whole
  if parts.fraction.isSome || parts.exponent.isSome || (parts.negative && n = 0) then none
  else some (if parts.negative then -(n : Int) else n)

def infinite : Nat := Nat.pow 2 1024 - Nat.pow 2 970

/-- Whether the number rounds to a finite one. It lies below ten to the power of `magnitude`, so its
digits are compared only if that is close to the limit. -/
def inRange (parts : NumberParts) : Bool :=
  let fraction := parts.fraction.getD []
  let digits := (parts.whole ++ fraction).dropWhile (· = '0')
  let exponent : Int :=
    match parts.exponent with
    | none => 0
    | some (negative, digits) => if negative then -(digitsValue digits) else digitsValue digits
  let shift := exponent - fraction.length
  let magnitude := digits.length + shift
  if digits.isEmpty || magnitude ≤ 300 then true
  else if magnitude > 310 then false
  else digitsValue digits * Nat.pow 10 shift.toNat < infinite * Nat.pow 10 (-shift).toNat

def literal (parts : NumberParts) : List Char :=
  (if parts.negative then ['-'] else []) ++ parts.whole ++
    (parts.fraction.map fun digits => '.' :: digits).getD [] ++
    (parts.exponent.map fun (negative, digits) =>
      'e' :: (if negative then '-' :: digits else digits)).getD []

def value (parts : NumberParts) : Option JsonValue :=
  if parts.inRange then
    match parts.integer? with
    | some n => some (.integer n)
    | none => some (.real parts.literal)
  else none

end NumberParts

/-- Where digits are asked for and there is none: an end of text here breaks a number that is taken,
and misforms one that is passed over. -/
def noDigit (rest : List Char) : JsonBreak :=
  if rest.isEmpty then ⟨.endedEarly, .malformed⟩ else .same .malformed

def scanExponent (text : List Char) : Except JsonBreak (Option (Bool × List Char) × List Char) :=
  match text with
  | c :: rest =>
    if c = 'e' || c = 'E' then
      let (negative, rest) : Bool × List Char := match rest with
        | '+' :: rest => (false, rest)
        | '-' :: rest => (true, rest)
        | rest => (false, rest)
      let digits := rest.takeWhile Char.isDigit
      if digits.isEmpty then .error (noDigit rest)
      else .ok (some (negative, digits), rest.drop digits.length)
    else .ok (none, text)
  | [] => .ok (none, text)

def scanFraction (text : List Char) : Except JsonBreak (Option (List Char) × List Char) :=
  match text with
  | '.' :: rest =>
    let digits := rest.takeWhile Char.isDigit
    if digits.isEmpty then .error (noDigit rest)
    else .ok (some digits, rest.drop digits.length)
  | _ => .ok (none, text)

def scanWhole (text : List Char) : Except JsonBreak (List Char × List Char) :=
  let digits := text.takeWhile Char.isDigit
  if digits.isEmpty then .error (noDigit text)
  else if digits.head? = some '0' && digits.length ≠ 1 then .error (.same .malformed)
  else .ok (digits, text.drop digits.length)

def scanNumber (text : List Char) : Except JsonBreak (NumberParts × List Char) := do
  let (negative, rest) : Bool × List Char := match text with
    | '-' :: rest => (true, rest)
    | _ => (false, text)
  let (whole, rest) ← scanWhole rest
  let (fraction, rest) ← scanFraction rest
  let (exponent, rest) ← scanExponent rest
  return (⟨negative, whole, fraction, exponent⟩, rest)

def scanWord (value : JsonValue) : List Char → List Char → JsonToken × List Char
  | [], rest => (.scalar (some value), rest)
  | _ :: _, [] => (.broken (.same .endedEarly), [])
  | letter :: letters, c :: rest =>
    if letter = c then scanWord value letters rest else (.broken (.same .malformed), [])

/-- The token that begins with `c`, and the text after it. Nothing is read after a broken one. -/
def scan (c : Char) (rest : List Char) : JsonToken × List Char :=
  match c with
  | '[' => (.arrayOpen, rest)
  | ']' => (.arrayClose, rest)
  | '\x7b' => (.objectOpen, rest)
  | '\x7d' => (.objectClose, rest)
  | ',' => (.comma, rest)
  | ':' => (.colon, rest)
  | '"' => scanText true [] rest
  | 'n' => scanWord .null ['u', 'l', 'l'] rest
  | 't' => scanWord (.bool true) ['r', 'u', 'e'] rest
  | 'f' => scanWord (.bool false) ['a', 'l', 's', 'e'] rest
  | c =>
    if c = '-' || c.isDigit then
      match scanNumber (c :: rest) with
      | .ok (parts, rest) => (.scalar parts.value, rest)
      | .error found => (.broken found, [])
    else (.broken (.same .malformed), [])

/-- The tokens of a text. Each step leaves less text, so the length of the text bounds the steps. -/
def lexOnto (found : List JsonToken) : Nat → List Char → List JsonToken
  | 0, _ | _, [] => found.reverse
  | limit + 1, c :: rest =>
    if isSpace c then lexOnto found limit rest
    else
      let (token, rest) := scan c rest
      lexOnto (token :: found) limit rest

def lex (source : List Char) : List JsonToken := lexOnto [] source.length source

end JsonToken

namespace JsonValue

/-- The one value of a key; `none` if the key is absent, and an error if it is repeated. -/
def member (entries : List (String × JsonValue)) (key : String) : Except JsonError (Option JsonValue) :=
  match entries.filter fun (k, _) => k = key with
  | [] => .ok none
  | [(_, value)] => .ok (some value)
  | _ => .error .wrongShape

def memberOf (entries : List (String × JsonValue)) (key : String) : Except JsonError JsonValue := do
  match ← member entries key with
  | some value => return value
  | none => .error .wrongShape

def asBool : JsonValue → Except JsonError Bool
  | bool value => .ok value
  | _ => .error .wrongShape

def asString : JsonValue → Except JsonError String
  | string value => .ok value
  | _ => .error .wrongShape

def asItems : JsonValue → Except JsonError (List JsonValue)
  | array items => .ok items
  | _ => .error .wrongShape

end JsonValue

end CraftDsl
