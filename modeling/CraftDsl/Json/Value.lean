/-!
JSON values and their two written forms: compact on one line, and indented by two spaces a level.
-/
namespace CraftDsl

/-- A number is an integer if it is written as one; any other keeps its literal. -/
inductive JsonValue
  | null
  | bool (value : Bool)
  | integer (value : Int)
  | real (literal : List Char)
  | string (value : String)
  | array (items : List JsonValue)
  | object (entries : List (String × JsonValue))
  deriving Repr

namespace JsonValue

mutual

/-- How many arrays and objects are open at the innermost place. -/
def nesting : JsonValue → Nat
  | array items => nestingItems items + 1
  | object entries => nestingEntries entries + 1
  | _ => 0

def nestingItems : List JsonValue → Nat
  | [] => 0
  | item :: items => max item.nesting (nestingItems items)

def nestingEntries : List (String × JsonValue) → Nat
  | [] => 0
  | (_, value) :: entries => max value.nesting (nestingEntries entries)

end

def escapeChar (c : Char) : List Char :=
  if c = '"' then ['\\', '"']
  else if c = '\\' then ['\\', '\\']
  else if c = '\n' then ['\\', 'n']
  else if c = '\r' then ['\\', 'r']
  else if c = '\t' then ['\\', 't']
  else if c = '\x08' then ['\\', 'b']
  else if c = '\x0c' then ['\\', 'f']
  else if c.toNat < 0x20 then
    ['\\', 'u', '0', '0', Nat.digitChar (c.toNat / 16), Nat.digitChar (c.toNat % 16)]
  else [c]

def quote (text : String) : List Char := '"' :: text.toList.flatMap escapeChar ++ ['"']

def integerText (n : Int) : List Char :=
  match n with
  | .ofNat n => Nat.toDigits 10 n
  | .negSucc n => '-' :: Nat.toDigits 10 (n + 1)

mutual

def compact : JsonValue → List Char
  | null => "null".toList
  | bool true => "true".toList
  | bool false => "false".toList
  | integer n => integerText n
  | real literal => literal
  | string text => quote text
  | array [] => ['[', ']']
  | array (item :: items) => '[' :: item.compact ++ compactItems items
  | object [] => ['\x7b', '\x7d']
  | object ((key, value) :: entries) =>
    '\x7b' :: quote key ++ ':' :: value.compact ++ compactEntries entries

def compactItems : List JsonValue → List Char
  | [] => [']']
  | item :: items => ',' :: item.compact ++ compactItems items

def compactEntries : List (String × JsonValue) → List Char
  | [] => ['\x7d']
  | (key, value) :: entries => ',' :: quote key ++ ':' :: value.compact ++ compactEntries entries

end

def newLine (level : Nat) : List Char := '\n' :: List.replicate (2 * level) ' '

mutual

/-- The indented form at a level; a container without members stays on its line. -/
def pretty (level : Nat) : JsonValue → List Char
  | null => "null".toList
  | bool true => "true".toList
  | bool false => "false".toList
  | integer n => integerText n
  | real literal => literal
  | string text => quote text
  | array [] => ['[', ']']
  | array (item :: items) =>
    '[' :: newLine (level + 1) ++ item.pretty (level + 1) ++ prettyItems level items
  | object [] => ['\x7b', '\x7d']
  | object ((key, value) :: entries) =>
    '\x7b' :: newLine (level + 1) ++ quote key ++ ':' :: ' ' :: value.pretty (level + 1) ++
      prettyEntries level entries

def prettyItems (level : Nat) : List JsonValue → List Char
  | [] => newLine level ++ [']']
  | item :: items =>
    ',' :: newLine (level + 1) ++ item.pretty (level + 1) ++ prettyItems level items

def prettyEntries (level : Nat) : List (String × JsonValue) → List Char
  | [] => newLine level ++ ['\x7d']
  | (key, value) :: entries =>
    ',' :: newLine (level + 1) ++ quote key ++ ':' :: ' ' :: value.pretty (level + 1) ++
      prettyEntries level entries

end

def prettyText (value : JsonValue) : String := String.ofList (value.pretty 0)

def compactText (value : JsonValue) : String := String.ofList value.compact

end JsonValue

end CraftDsl
