import CraftDsl.Tree.Selection

/-!
Architectures: sections of components with modifiers. In a tree every component after the first hangs
off the one before it, and so does the next section.
-/
namespace CraftDsl

inductive ModifierValue
  | identifier (word : Word)
  | number (digits : Word)
  | boolean (value : Bool)
  deriving DecidableEq, Repr

structure Modifier where
  key : Option Word
  value : Option ModifierValue
  deriving DecidableEq, Repr

structure Component where
  name : Option Word
  modifiers : List Modifier
  deriving DecidableEq, Repr

/-- A line of a section: one component, or several with arrowheads between. -/
inductive ComponentLine
  | simple (components : List Component)
  | flow (components : List Component)
  deriving DecidableEq, Repr

inductive SectionKind
  | presentation | gateway
  deriving DecidableEq, Repr

structure Section where
  kind : SectionKind
  lines : List ComponentLine
  deriving DecidableEq, Repr

structure Arch where
  name : Option Word
  sections : List Section
  deriving DecidableEq, Repr

namespace Modifier

def valueOf? (t : Tree) : Option ModifierValue :=
  match t.part? .boolean, t.word? .number with
  | some boolean, _ => some (.boolean (boolean.word? (.keyword .trueValue)).isSome)
  | none, some digits => some (.number digits)
  | none, none => t.identifier?.map .identifier

def ofTree (t : Tree) : Modifier := ⟨t.identifierIn? .modifierKey, valueOf? t⟩

end Modifier

namespace Component

def ofTree (t : Tree) : Component where
  name := t.identifierIn? .componentName
  modifiers :=
    ((t.parts .componentModifiers).flatMap fun brackets =>
      (brackets.parts .modifierList).flatMap fun list => list.parts .modifier).map Modifier.ofTree

def allUnder (t : Tree) : List Component := (t.parts .componentWithModifiers).map ofTree

end Component

namespace ComponentLine

def isNode (kind : Kind) : Bool := kind = .node .simpleComponent || kind = .node .componentFlow

def ofTree? (t : Tree) : Option ComponentLine :=
  match t.kind with
  | .node .simpleComponent => some (.simple (Component.allUnder t))
  | .node .componentFlow => some (.flow (Component.allUnder t))
  | _ => none

def components : ComponentLine → List Component
  | simple components | flow components => components

end ComponentLine

namespace Section

def isNode (kind : Kind) : Bool :=
  kind = .node .presentationSection || kind = .node .gatewaySection

def kindOf? (t : Tree) : Option SectionKind :=
  match t.kind with
  | .node .presentationSection => some .presentation
  | .node .gatewaySection => some .gateway
  | _ => none

def listNodes (t : Tree) : List Tree :=
  match t.part? .archComponentList with
  | none => []
  | some list => list.chain .archContinuation [.archComponentList]

def lineNodes (t : Tree) : List Tree :=
  (listNodes t).filterMap fun list => list.child? ComponentLine.isNode

def ofTree? (t : Tree) : Option Section :=
  (kindOf? t).map fun kind => ⟨kind, (lineNodes t).filterMap ComponentLine.ofTree?⟩

def next? (t : Tree) : Option Tree :=
  (listNodes t).getLast?.bind fun list =>
    (list.part? .archContinuation).bind fun continuation => continuation.child? isNode

theorem sizeOf_lt_of_mem_listNodes {t list : Tree} (h : list ∈ listNodes t) :
    sizeOf list < sizeOf t := by
  unfold listNodes at h
  split at h
  · simp at h
  · rename_i first found
    exact Nat.lt_of_le_of_lt (Tree.sizeOf_le_of_mem_chain h) (Tree.sizeOf_lt_of_child found)

theorem sizeOf_lt_of_next {t next : Tree} (h : next? t = some next) : sizeOf next < sizeOf t := by
  obtain ⟨list, last, h⟩ := Option.bind_eq_some_iff.mp h
  obtain ⟨continuation, found, h⟩ := Option.bind_eq_some_iff.mp h
  have inside := Tree.sizeOf_lt_of_child h
  have below := Tree.sizeOf_lt_of_child found
  have first := sizeOf_lt_of_mem_listNodes (List.mem_of_getLast? last)
  omega

def nodesFrom (t : Tree) : List Tree :=
  match h : next? t with
  | none => [t]
  | some next =>
    have := sizeOf_lt_of_next h
    t :: nodesFrom next
termination_by sizeOf t

theorem nodesFrom_last {t : Tree} (last : next? t = none) : nodesFrom t = [t] := by
  rw [nodesFrom]
  split
  · rfl
  · rename_i found
    cases last.symm.trans found

theorem nodesFrom_next {t next : Tree} (found : next? t = some next) :
    nodesFrom t = t :: nodesFrom next := by
  rw [nodesFrom]
  split
  · rename_i last
    cases last.symm.trans found
  · rename_i other same
    obtain rfl : next = other := Option.some.inj (found.symm.trans same)
    rfl

end Section

namespace Arch

def sectionNodes (t : Tree) : List Tree :=
  match t.child? Section.isNode with
  | none => []
  | some first => Section.nodesFrom first

def ofTree (t : Tree) : Arch := ⟨t.identifier?, (sectionNodes t).filterMap Section.ofTree?⟩

end Arch

end CraftDsl
