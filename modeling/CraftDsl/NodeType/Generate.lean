import CraftDsl.Grammar.Rule
import CraftDsl.NodeType.Basic

/-!
Node types of a grammar. A visible rule that is a choice between visible symbols is a sum; any other
is a product, and its body says for each slot how many nodes of which types may fill it. Hidden rules
count as their bodies.
-/
namespace CraftDsl

/-- Where a node under a rule goes: into a field, or among the other children. -/
inductive SlotName
  | children
  | field (name : String)
  deriving DecidableEq, Repr

namespace SlotName

/-- The innermost field around a rule names the slot. -/
def ofField : Option String → SlotName
  | none => children
  | some name => field name

end SlotName

namespace Slot

def one (type : TypeRef) : Slot := ⟨false, true, [type]⟩

def insertTypes (types more : List TypeRef) : List TypeRef :=
  more.foldl (fun sorted type => insertSorted TypeRef.lt type sorted) types

/-- Both in sequence: a slot that both fill holds several nodes. -/
def inSequence : Option Slot → Option Slot → Option Slot
  | none, slot | slot, none => slot
  | some a, some b => some ⟨true, a.required || b.required, insertTypes a.types b.types⟩

def notRequired (slot : Slot) : Slot := { slot with required := false }

/-- One or the other: a slot is required only if both require it. -/
def inChoice : Option Slot → Option Slot → Option Slot
  | none, slot | slot, none => slot.map notRequired
  | some a, some b =>
    some ⟨a.multiple || b.multiple, a.required && b.required, insertTypes a.types b.types⟩

def anyNumber (slot : Slot) : Slot := { slot with multiple := true, required := false }

def oneOrMore (slot : Slot) : Slot := { slot with multiple := true }

end Slot

namespace Rule

mutual

/-- What a rule body makes of the slot `name`. `around` is the innermost field around it, and
`expand` gives what a hidden symbol makes of the slot in a field. -/
def slot (expand : Option String → String → Option Slot) (name : SlotName)
    (around : Option String) : Rule → Option Slot
  | blank | pattern _ _ => Option.none
  | string value =>
    if around.isSome && name = .ofField around then some (.one ⟨value, false⟩) else Option.none
  | symbol kind =>
    if isHiddenName kind then expand around kind
    else if name = .ofField around then some (.one ⟨kind, true⟩)
    else Option.none
  | seq members => slotOfAll expand name around Option.none members
  | choice [] => Option.none
  | choice (member :: members) =>
    slotOfAny expand name around (member.slot expand name around) members
  | repeat0 content => (content.slot expand name around).map Slot.anyNumber
  | repeat1 content => (content.slot expand name around).map Slot.oneOrMore
  | field label content => content.slot expand name (some label)
  | prec _ _ content => content.slot expand name around

/-- All members in sequence, after what gave `before`. -/
def slotOfAll (expand : Option String → String → Option Slot) (name : SlotName)
    (around : Option String) (before : Option Slot) : List Rule → Option Slot
  | [] => before
  | member :: members =>
    slotOfAll expand name around (Slot.inSequence before (member.slot expand name around)) members

/-- One of the members, or what gave `before`. -/
def slotOfAny (expand : Option String → String → Option Slot) (name : SlotName)
    (around : Option String) (before : Option Slot) : List Rule → Option Slot
  | [] => before
  | member :: members =>
    slotOfAny expand name around (Slot.inChoice before (member.slot expand name around)) members

end

def choices? : Rule → Option (List Rule)
  | choice (first :: second :: rest) => some (first :: second :: rest)
  | _ => Option.none

end Rule

namespace Grammar

def definition? (g : Grammar) (name : String) : Option Rule := g.rules.reverse.lookup name

/-- What a hidden symbol makes of a slot: its body in its place, but nothing for a rule that refers
to no other, or inside itself. Each level opens a further rule, so the number of rules bounds the
levels. -/
def expand (g : Grammar) (slot : SlotName) : Nat → List String → Option String → String → Option Slot
  | 0, _, _, _ => none
  | levels + 1, opened, around, name =>
    match g.definition? name with
    | none => none
    | some body =>
      if body.isTerminal || opened.contains name then none
      else body.slot (g.expand slot levels (name :: opened)) slot around

def slot? (g : Grammar) (body : Rule) (name : SlotName) : Option Slot :=
  body.slot (g.expand name g.rules.length []) name none

/-- The type of a symbol that may be a subtype: a visible one that has a rule. -/
def subtype? (g : Grammar) : Rule → Option TypeRef
  | .symbol name =>
    if !Rule.isHiddenName name && (g.definition? name).isSome then some ⟨name, true⟩ else none
  | _ => none

def subtypes? (g : Grammar) (body : Rule) : Option (List TypeRef) := do
  let members ← body.bare.choices?
  let types ← members.mapM g.subtype?
  return Slot.insertTypes [] types

def shape (g : Grammar) (body : Rule) : Shape :=
  match g.subtypes? body with
  | some subtypes => .sum subtypes
  | none =>
    let fields := g.fieldNames.filterMap fun name =>
      (g.slot? body (.field name)).map fun slot => (name, slot)
    .product (.ofList fields) (g.slot? body .children).toList

def nodeTypes (g : Grammar) : List NodeType :=
  (g.rules.filter fun (name, _) => !Rule.isHiddenName name).map fun (name, body) =>
    ⟨name, true, g.shape body⟩

end Grammar

end CraftDsl
