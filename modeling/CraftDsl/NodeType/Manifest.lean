import CraftDsl.Json.Document
import CraftDsl.Json.Token
import CraftDsl.NodeType.Basic

/-!
Manifests: node types written as JSON. A record with a list of subtypes is a sum; any other is a
product, which may leave out its fields and its children.
-/
namespace CraftDsl

open JsonValue

namespace TypeRef

def toJson (t : TypeRef) : JsonValue := .object [("type", .string t.kind), ("named", .bool t.named)]

def ofJson : JsonValue → Except JsonError TypeRef
  | .array [kind, named] => return ⟨← asString kind, ← asBool named⟩
  | .object entries => do
    let kind ← memberOf entries "type"
    let named ← memberOf entries "named"
    return ⟨← asString kind, ← asBool named⟩
  | _ => .error .wrongShape

end TypeRef

namespace Slot

def toJson (slot : Slot) : JsonValue :=
  .object
    [("multiple", .bool slot.multiple), ("required", .bool slot.required),
      ("types", .array (slot.types.map TypeRef.toJson))]

def ofValues (multiple required types : JsonValue) : Except JsonError Slot := do
  return ⟨← asBool multiple, ← asBool required, ← (← asItems types).mapM TypeRef.ofJson⟩

def ofJson : JsonValue → Except JsonError Slot
  | .array [multiple, required, types] => ofValues multiple required types
  | .object entries => do
    ofValues (← memberOf entries "multiple") (← memberOf entries "required")
      (← memberOf entries "types")
  | _ => .error .wrongShape

end Slot

namespace Shape

def entries : Shape → List (String × JsonValue)
  | sum subtypes => [("subtypes", .array (subtypes.map TypeRef.toJson))]
  | product fields children =>
    [("fields", .object (fields.entries.map fun (name, slot) => (name, slot.toJson))),
      ("children", .array (children.map Slot.toJson))]

def sumOf (entries : List (String × JsonValue)) : Except JsonError Shape := do
  return .sum (← (← asItems (← memberOf entries "subtypes")).mapM TypeRef.ofJson)

def fieldsOf : JsonValue → Except JsonError (OrderedMap Slot)
  | .object entries => do
    return .ofList (← entries.mapM fun (name, value) => return (name, ← Slot.ofJson value))
  | _ => .error .wrongShape

def productOf (entries : List (String × JsonValue)) : Except JsonError Shape := do
  let fields ← match ← member entries "fields" with
    | some value => fieldsOf value
    | none => pure .empty
  let children ← match ← member entries "children" with
    | some value => (← asItems value).mapM Slot.ofJson
    | none => pure []
  return .product fields children

def ofEntries (entries : List (String × JsonValue)) : Except JsonError Shape :=
  match sumOf entries with
  | .ok shape => .ok shape
  | .error _ => productOf entries

end Shape

namespace NodeType

def toJson (t : NodeType) : JsonValue :=
  .object (("type", .string t.kind) :: ("named", .bool t.named) :: t.shape.entries)

/-- What a record holds up to some entry of it. -/
structure Record where
  kind : Option String
  named : Option Bool
  others : List (String × JsonValue)

/-- Reads one more entry; `type` and `named` come once. -/
def Record.add (r : Record) (key : String) (document : JsonDocument) : Except JsonError Record :=
  if key = "type" then
    if r.kind.isSome then .error .wrongShape
    else do return { r with kind := some (← document.string) }
  else if key = "named" then
    if r.named.isSome then .error .wrongShape
    else do return { r with named := some (← document.bool) }
  else do return { r with others := r.others ++ [(key, ← document.value 2)] }

def Record.addAll (r : Record) : List (Option String × JsonDocument) → Except JsonError Record
  | [] => .ok r
  | (none, _) :: _ => .error .malformed
  | (some key, document) :: entries => do (← r.add key document).addAll entries

def ofDocument : JsonDocument → Except JsonError NodeType
  | .object entries ending => do
    let record ← Record.addAll ⟨none, none, []⟩ entries
    JsonDocument.closed ending
    match record.kind, record.named with
    | some kind, some named => return ⟨kind, named, ← Shape.ofEntries record.others⟩
    | _, _ => .error .wrongShape
  | document => .error document.mismatch

end NodeType

namespace Manifest

def toJson (types : List NodeType) : JsonValue := .array (types.map NodeType.toJson)

def ofDocument : JsonDocument → Except JsonError (List NodeType)
  | .array items ending => do
    let types ← items.mapM NodeType.ofDocument
    JsonDocument.closed ending
    return types
  | document => .error document.mismatch

def read (text : List Char) : Except JsonError (List NodeType) := readJson ofDocument text

end Manifest

end CraftDsl
