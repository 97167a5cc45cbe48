import CraftDsl.OrderedMap

/-!
Node types: for each kind of node either the kinds it stands for, or the slots that its children fill.
-/
namespace CraftDsl

structure TypeRef where
  kind : String
  named : Bool
  deriving DecidableEq, Repr

def TypeRef.lt (a b : TypeRef) : Bool :=
  a.kind < b.kind || (a.kind = b.kind && !a.named && b.named)

/-- How many children fill a slot, and of which types. -/
structure Slot where
  multiple : Bool
  required : Bool
  types : List TypeRef
  deriving DecidableEq, Repr

/-- A sum stands for one of its subtypes. A product has named fields and other children. -/
inductive Shape
  | sum (subtypes : List TypeRef)
  | product (fields : OrderedMap Slot) (children : List Slot)
  deriving DecidableEq

structure NodeType where
  kind : String
  named : Bool
  shape : Shape
  deriving DecidableEq

namespace NodeType

def isSum (t : NodeType) : Bool :=
  match t.shape with
  | .sum _ => true
  | .product _ _ => false

def subtypes (t : NodeType) : List TypeRef :=
  match t.shape with
  | .sum subtypes => subtypes
  | .product _ _ => []

def fields (t : NodeType) : List (String × Slot) :=
  match t.shape with
  | .sum _ => []
  | .product fields _ => fields.entries

def field? (t : NodeType) (name : String) : Option Slot := t.fields.lookup name

def children? (t : NodeType) : Option Slot :=
  match t.shape with
  | .sum _ => none
  | .product _ children => children.head?

end NodeType

end CraftDsl
