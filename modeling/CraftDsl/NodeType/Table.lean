import CraftDsl.NodeType.Basic

/-!
Node types by name, with the kinds that each sum stands for.
-/
namespace CraftDsl

/-- The expansion of a sum under way: the kinds still to be looked at, the next one first, and the
kinds found. -/
structure Expansion where
  waiting : List String
  found : List String
  deriving DecidableEq, Repr

structure NodeTypeTable where
  entries : OrderedMap NodeType
  concrete : OrderedMap (List String)

namespace Expansion

def start (root : String) : Expansion := ⟨[root], []⟩

/-- Puts the subtypes on top, the first one uppermost, except the root and those that wait already. -/
def push (root : String) (subtypes : List TypeRef) (waiting : List String) : List String :=
  subtypes.foldr (fun type waiting =>
    if type.kind = root || waiting.contains type.kind then waiting else type.kind :: waiting) waiting

/-- One step; nothing is left to do once no kind waits. -/
def step (entries : OrderedMap NodeType) (root : String) (e : Expansion) : Option Expansion :=
  match e.waiting with
  | [] => none
  | kind :: rest =>
    match (entries.find? kind).filter NodeType.isSum with
    | some sum => some ⟨push root sum.subtypes rest, e.found⟩
    | none =>
      if kind = root || e.found.contains kind then some ⟨rest, e.found⟩
      else some ⟨rest, e.found ++ [kind]⟩

def run (entries : OrderedMap NodeType) (root : String) : Nat → Expansion → Expansion
  | 0, e => e
  | limit + 1, e =>
    match e.step entries root with
    | none => e
    | some next => run entries root limit next

/-- More steps than any expansion takes that comes to an end: no way down passes a sum twice, and
each sum leads on to at most all subtypes there are. -/
def limit (entries : OrderedMap NodeType) : Nat :=
  let sums := entries.values.filter NodeType.isSum
  Nat.pow (sums.foldr (fun sum count => sum.subtypes.length + count) 2) (sums.length + 1)

end Expansion

namespace NodeTypeTable

/-- The kinds that a sum stands for, in the order in which its expansion finds them. -/
def expand (entries : OrderedMap NodeType) (root : String) : List String :=
  (Expansion.run entries root (Expansion.limit entries) (.start root)).found

def ofTypes (types : List NodeType) : NodeTypeTable :=
  let entries := OrderedMap.ofList ((types.filter NodeType.named).map fun t => (t.kind, t))
  let sums := entries.entries.filter fun (_, t) => t.isSum
  ⟨entries, .ofList (sums.map fun (kind, _) => (kind, expand entries kind))⟩

def size (table : NodeTypeTable) : Nat := table.entries.size

def kinds (table : NodeTypeTable) : List String := table.entries.values.map NodeType.kind

def get? (table : NodeTypeTable) (kind : String) : Option NodeType := table.entries.find? kind

def isSum (table : NodeTypeTable) (kind : String) : Bool := table.concrete.contains kind

def concreteKinds (table : NodeTypeTable) (kind : String) : List String :=
  (table.concrete.find? kind).getD []

def field? (table : NodeTypeTable) (kind name : String) : Option Slot :=
  (table.get? kind).bind fun t => t.field? name

def children? (table : NodeTypeTable) (kind : String) : Option Slot :=
  (table.get? kind).bind NodeType.children?

/-- Whether a node may fill a slot, as one of its types or as what a sum among them stands for. -/
def accepts (table : NodeTypeTable) (slot : Slot) (kind : String) (named : Bool) : Bool :=
  slot.types.any fun type =>
    (type.kind = kind && type.named = named) ||
      (type.named && named && (table.concreteKinds type.kind).contains kind)

def fieldForChild? (table : NodeTypeTable) (parent kind : String) (named : Bool) : Option String := do
  let t ← table.get? parent
  let (name, _) ← t.fields.find? fun (_, slot) => table.accepts slot kind named
  return name

end NodeTypeTable

end CraftDsl
