import CraftDsl.Json.Token

/-!
JSON documents as far as they can be read. A document that breaks off holds the break where it
happens, so whoever goes through it in order meets what is wrong in the order of the text: a value of
the wrong shape is noticed before a break that comes after it.
-/
namespace CraftDsl

inductive JsonDocument
  | quoted (value : Option String)
  | scalar (value : Option JsonValue)
  | array (items : List JsonDocument) (ending : Option JsonBreak)
  | object (entries : List (Option String × JsonDocument)) (ending : Option JsonBreak)
  | broken (found : JsonBreak)

def nestingLimit : Nat := 127

namespace JsonDocument

mutual

/-- Reads one value and gives the tokens after it. Every two steps take a token, so twice their number
bounds the steps. -/
def readValue : Nat → List JsonToken → JsonDocument × List JsonToken
  | 0, _ | _, [] => (.broken (.same .endedEarly), [])
  | limit + 1, token :: rest =>
    match token with
    | .text value => (.quoted value, rest)
    | .scalar value => (.scalar value, rest)
    | .brokenText found | .broken found => (.broken found, [])
    | .arrayOpen =>
      match rest with
      | .arrayClose :: rest => (.array [] none, rest)
      | _ =>
        let (items, ending, rest) := readItems limit rest
        (.array items ending, rest)
    | .objectOpen =>
      match rest with
      | .objectClose :: rest => (.object [] none, rest)
      | _ =>
        let (entries, ending, rest) := readEntries limit rest
        (.object entries ending, rest)
    | _ => (.broken (.same .malformed), [])

def readItems : Nat → List JsonToken → List JsonDocument × Option JsonBreak × List JsonToken
  | 0, _ => ([], some (.same .endedEarly), [])
  | limit + 1, tokens =>
    let (item, rest) := readValue limit tokens
    match rest with
    | [] => ([item], some (.same .endedEarly), [])
    | .comma :: .arrayClose :: _ => ([item, .broken (.same .malformed)], none, [])
    | .comma :: rest =>
      let (items, ending, rest) := readItems limit rest
      (item :: items, ending, rest)
    | .arrayClose :: rest => ([item], none, rest)
    | _ => ([item], some (.same .malformed), [])

def readEntries : Nat → List JsonToken →
    List (Option String × JsonDocument) × Option JsonBreak × List JsonToken
  | 0, _ | _, [] => ([], some (.same .endedEarly), [])
  | limit + 1, .text key :: rest =>
    match rest with
    | [] => ([(key, .broken (.same .endedEarly))], none, [])
    | .colon :: rest =>
      let (value, rest) := readValue limit rest
      match rest with
      | [] => ([(key, value)], some (.same .endedEarly), [])
      | .comma :: rest =>
        let (entries, ending, rest) := readEntries limit rest
        ((key, value) :: entries, ending, rest)
      | .objectClose :: rest => ([(key, value)], none, rest)
      | _ => ([(key, value)], some (.same .malformed), [])
    | _ => ([(key, .broken (.same .malformed))], none, [])
  | _, .brokenText found :: _ => ([], some found, [])
  | _, _ :: _ => ([], some (.same .malformed), [])

end

/-- What is wrong with a document that is taken for a value of another kind. Text and scalars are
read first, containers are not. -/
def mismatch : JsonDocument → JsonError
  | broken found => found.taken
  | quoted none | scalar none => .malformed
  | _ => .wrongShape

def closed (ending : Option JsonBreak) : Except JsonError Unit :=
  match ending with
  | none => .ok ()
  | some found => .error found.taken

mutual

/-- The value of a document that is taken whole, with `depth` arrays and objects open around it. -/
def value (depth : Nat) : JsonDocument → Except JsonError JsonValue
  | quoted (some text) => .ok (.string text)
  | scalar (some value) => .ok value
  | quoted none | scalar none => .error .malformed
  | broken found => .error found.taken
  | array items ending =>
    if depth < nestingLimit then do
      let items ← valueItems (depth + 1) items
      closed ending
      return .array items
    else .error .malformed
  | object entries ending =>
    if depth < nestingLimit then do
      let entries ← valueEntries (depth + 1) entries
      closed ending
      return .object entries
    else .error .malformed

def valueItems (depth : Nat) : List JsonDocument → Except JsonError (List JsonValue)
  | [] => .ok []
  | item :: items => do
    let item ← item.value depth
    let items ← valueItems depth items
    return item :: items

def valueEntries (depth : Nat) :
    List (Option String × JsonDocument) → Except JsonError (List (String × JsonValue))
  | [] => .ok []
  | (none, _) :: _ => .error .malformed
  | (some key, document) :: entries => do
    let value ← document.value depth
    let entries ← valueEntries depth entries
    return (key, value) :: entries

end

mutual

def pass : JsonDocument → Except JsonError Unit
  | quoted _ | scalar _ => .ok ()
  | broken found => .error found.passed
  | array items ending => do passItems items; passEnding ending
  | object entries ending => do passEntries entries; passEnding ending

def passItems : List JsonDocument → Except JsonError Unit
  | [] => .ok ()
  | item :: items => do item.pass; passItems items

def passEntries : List (Option String × JsonDocument) → Except JsonError Unit
  | [] => .ok ()
  | (_, document) :: entries => do document.pass; passEntries entries

def passEnding : Option JsonBreak → Except JsonError Unit
  | none => .ok ()
  | some found => .error found.passed

end

def string : JsonDocument → Except JsonError String
  | quoted (some text) => .ok text
  | document => .error document.mismatch

def bool : JsonDocument → Except JsonError Bool
  | scalar (some (.bool value)) => .ok value
  | document => .error document.mismatch

end JsonDocument

def readJson {α : Type} (read : JsonDocument → Except JsonError α) (text : List Char) :
    Except JsonError α := do
  let tokens := JsonToken.lex text
  let (document, rest) := JsonDocument.readValue (2 * tokens.length + 1) tokens
  let value ← read document
  if rest.isEmpty then return value else .error .malformed

end CraftDsl
