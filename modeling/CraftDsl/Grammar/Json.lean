import CraftDsl.Grammar.Rule
import CraftDsl.Json.Token
import CraftDsl.Json.Document
import CraftDsl.OrderedMap

/-!
Grammars written as JSON. A rule is a record whose `type` names its form, or a list of the form's name
and its values.
-/
namespace CraftDsl

open JsonValue

/-- The forms of rules, in the order in which a number may stand for a nested one. -/
inductive RuleForm
  | blank | string | pattern | symbol | seq | choice | repeat0 | repeat1 | field
  | prec (side : Associativity)
  deriving DecidableEq, Repr

namespace RuleForm

def all : List RuleForm :=
  [blank, string, pattern, symbol, seq, choice, repeat0, repeat1, field, prec .none, prec .left,
    prec .right]

def tag : RuleForm → String
  | blank => "BLANK"
  | string => "STRING"
  | pattern => "PATTERN"
  | symbol => "SYMBOL"
  | seq => "SEQ"
  | choice => "CHOICE"
  | repeat0 => "REPEAT"
  | repeat1 => "REPEAT1"
  | field => "FIELD"
  | prec .none => "PREC"
  | prec .left => "PREC_LEFT"
  | prec .right => "PREC_RIGHT"

def ofTag (tag : String) : Except JsonError RuleForm :=
  match all.find? fun form => form.tag = tag with
  | some form => .ok form
  | none => .error .wrongShape

def ofJson : JsonValue → Except JsonError RuleForm
  | .string tag => ofTag tag
  | .integer (.ofNat n) =>
    match all[n]? with
    | some form => .ok form
    | none => .error .wrongShape
  | _ => .error .wrongShape

end RuleForm

/-- The values of a rule: by key, or in order. -/
inductive RuleContent
  | keyed (entries : List (String × JsonValue))
  | ordered (items : List JsonValue)

namespace RuleContent

/-- A form's values of the given keys; of the last ones `optional` may be absent. Values in order must
not be more than the keys. -/
def pick (content : RuleContent) (keys : List String) (optional : Nat) :
    Except JsonError (List (Option JsonValue)) :=
  match content with
  | ordered items =>
    if items.length ≤ keys.length ∧ keys.length ≤ items.length + optional then
      .ok ((items.map some) ++ List.replicate (keys.length - items.length) none)
    else .error .wrongShape
  | keyed entries => do
    let values ← keys.mapM (member entries)
    if (values.take (keys.length - optional)).all Option.isSome then return values
    else .error .wrongShape

end RuleContent

namespace Rule

def int32 : JsonValue → Except JsonError Int32
  | .integer n => if -2147483648 ≤ n ∧ n < 2147483648 then .ok (Int32.ofInt n) else .error .wrongShape
  | _ => .error .wrongShape

def flags : Option JsonValue → Except JsonError (Option String)
  | Option.none | some .null => .ok Option.none
  | some value => do return some (← asString value)

/-- The rule of a form, whose nested rules are read by `rule`. -/
def ofContent (rule : JsonValue → Except JsonError Rule) (form : RuleForm) (content : RuleContent) :
    Except JsonError Rule :=
  match form with
  | .blank =>
    match content with
    | .keyed _ | .ordered [] => .ok blank
    | .ordered _ => .error .wrongShape
  | .string => do
    match ← content.pick ["value"] 0 with
    | [some value] => return string (← asString value)
    | _ => .error .wrongShape
  | .pattern => do
    match ← content.pick ["value", "flags"] 1 with
    | [some value, written] => return pattern (← asString value) (← flags written)
    | _ => .error .wrongShape
  | .symbol => do
    match ← content.pick ["name"] 0 with
    | [some name] => return symbol (← asString name)
    | _ => .error .wrongShape
  | .seq => do
    match ← content.pick ["members"] 0 with
    | [some members] => return seq (← (← asItems members).mapM rule)
    | _ => .error .wrongShape
  | .choice => do
    match ← content.pick ["members"] 0 with
    | [some members] => return choice (← (← asItems members).mapM rule)
    | _ => .error .wrongShape
  | .repeat0 => do
    match ← content.pick ["content"] 0 with
    | [some content] => return repeat0 (← rule content)
    | _ => .error .wrongShape
  | .repeat1 => do
    match ← content.pick ["content"] 0 with
    | [some content] => return repeat1 (← rule content)
    | _ => .error .wrongShape
  | .field => do
    match ← content.pick ["name", "content"] 0 with
    | [some name, some content] => return field (← asString name) (← rule content)
    | _ => .error .wrongShape
  | .prec side => do
    match ← content.pick ["value", "content"] 0 with
    | [some value, some content] => return prec side (← int32 value) (← rule content)
    | _ => .error .wrongShape

/-- A nested rule, of which at most `levels` levels are read. -/
def ofJsonWithin : Nat → JsonValue → Except JsonError Rule
  | 0, _ => .error .wrongShape
  | levels + 1, .object entries => do
    let form ← RuleForm.ofJson (← memberOf entries "type")
    ofContent (ofJsonWithin levels) form (.keyed (entries.filter fun (key, _) => key ≠ "type"))
  | levels + 1, .array (tag :: items) => do
    ofContent (ofJsonWithin levels) (← RuleForm.ofJson tag) (.ordered items)
  | _ + 1, _ => .error .wrongShape

def ofJson (value : JsonValue) : Except JsonError Rule := ofJsonWithin value.nesting value

mutual

def toJson : Rule → JsonValue
  | blank => .object [("type", .string "BLANK")]
  | string value => .object [("type", .string "STRING"), ("value", .string value)]
  | pattern value Option.none => .object [("type", .string "PATTERN"), ("value", .string value)]
  | pattern value (some flags) =>
    .object [("type", .string "PATTERN"), ("value", .string value), ("flags", .string flags)]
  | symbol name => .object [("type", .string "SYMBOL"), ("name", .string name)]
  | seq members => .object [("type", .string "SEQ"), ("members", .array (toJsonAll members))]
  | choice members => .object [("type", .string "CHOICE"), ("members", .array (toJsonAll members))]
  | repeat0 content => .object [("type", .string "REPEAT"), ("content", content.toJson)]
  | repeat1 content => .object [("type", .string "REPEAT1"), ("content", content.toJson)]
  | field name content =>
    .object [("type", .string "FIELD"), ("name", .string name), ("content", content.toJson)]
  | prec side value content =>
    .object
      [("type", .string (RuleForm.prec side).tag), ("value", .integer value.toInt),
        ("content", content.toJson)]

def toJsonAll : List Rule → List JsonValue
  | [] => []
  | rule :: rules => rule.toJson :: toJsonAll rules

end

def valueDepth : Nat := 3

def readEntries (form : Option RuleForm) (kept : List (String × JsonValue)) :
    List (Option String × JsonDocument) →
    Except JsonError (Option RuleForm × List (String × JsonValue))
  | [] => .ok (form, kept)
  | (Option.none, _) :: _ => .error .malformed
  | (some key, document) :: entries =>
    if key = "type" then
      if form.isSome then .error .wrongShape
      else do readEntries (some (← RuleForm.ofTag (← document.string))) kept entries
    else do readEntries form (kept ++ [(key, ← document.value valueDepth)]) entries

def ofDocument : JsonDocument → Except JsonError Rule
  | .object entries ending => do
    let (form, kept) ← readEntries Option.none [] entries
    JsonDocument.closed ending
    match form with
    | some form => ofContent ofJson form (.keyed kept)
    | Option.none => .error .wrongShape
  | .array [] ending => do
    JsonDocument.closed ending
    .error .wrongShape
  | .array (tag :: items) ending => do
    let form ← RuleForm.ofTag (← tag.string)
    let items ← items.mapM fun item => item.value valueDepth
    JsonDocument.closed ending
    ofContent ofJson form (.ordered items)
  | document => .error document.mismatch

end Rule

namespace Grammar

def toJson (g : Grammar) : JsonValue :=
  let rules := (OrderedMap.ofList g.rules).entries
  .object
    [("name", .string g.name),
      ("rules", .object (rules.map fun (name, rule) => (name, rule.toJson))),
      ("extras", .array (g.extras.map Rule.toJson))]

def readRules (rules : OrderedMap Rule) :
    List (Option String × JsonDocument) → Except JsonError (OrderedMap Rule)
  | [] => .ok rules
  | (none, _) :: _ => .error .malformed
  | (some name, document) :: entries => do
    readRules (rules.insert name (← Rule.ofDocument document)) entries

def rulesOf : JsonDocument → Except JsonError (OrderedMap Rule)
  | .object entries ending => do
    let rules ← readRules .empty entries
    JsonDocument.closed ending
    return rules
  | document => .error document.mismatch

def extrasOf : JsonDocument → Except JsonError (List Rule)
  | .array items ending => do
    let extras ← items.mapM Rule.ofDocument
    JsonDocument.closed ending
    return extras
  | document => .error document.mismatch

/-- What a grammar holds up to some entry of it. -/
structure Draft where
  name : Option String
  rules : Option (OrderedMap Rule)
  extras : Option (List Rule)

def Draft.add (d : Draft) (key : String) (document : JsonDocument) : Except JsonError Draft :=
  if key = "name" then
    if d.name.isSome then .error .wrongShape
    else do return { d with name := some (← document.string) }
  else if key = "rules" then
    if d.rules.isSome then .error .wrongShape
    else do return { d with rules := some (← rulesOf document) }
  else if key = "extras" then
    if d.extras.isSome then .error .wrongShape
    else do return { d with extras := some (← extrasOf document) }
  else do
    document.pass
    return d

def Draft.addAll (d : Draft) : List (Option String × JsonDocument) → Except JsonError Draft
  | [] => .ok d
  | (none, _) :: _ => .error .malformed
  | (some key, document) :: entries => do (← d.add key document).addAll entries

def Draft.finish (d : Draft) : Except JsonError Grammar :=
  match d.name, d.rules with
  | some name, some rules => .ok ⟨name, rules.entries, d.extras.getD []⟩
  | _, _ => .error .wrongShape

def ofDocument : JsonDocument → Except JsonError Grammar
  | .object entries ending => do
    let draft ← Draft.addAll ⟨none, none, none⟩ entries
    JsonDocument.closed ending
    draft.finish
  | .array items ending => do
    let keys := ["name", "rules", "extras"]
    let draft ← Draft.addAll ⟨none, none, none⟩ ((keys.map some).zip items)
    if items.length ≤ keys.length then JsonDocument.closed ending else .error .malformed
    draft.finish
  | document => .error document.mismatch

def read (text : List Char) : Except JsonError Grammar := readJson ofDocument text

end Grammar

end CraftDsl
