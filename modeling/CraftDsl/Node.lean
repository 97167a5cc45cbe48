import CraftDsl.Language.Rules
import CraftDsl.Parse

/-!
Nodes of a tree with their place in it. A listing leaves out blanks and newlines, and the fields that
children fill follow from the node types of the language.
-/
namespace CraftDsl

def fieldOf? (parent : NodeKind) (child : Kind) : Option String :=
  Language.table.fieldForChild? parent.name child.name child.isNamed

/-- A node on the way from a place up to the root: its children, where it starts, and which of the
children the way leads through. -/
structure Ancestor where
  kind : NodeKind
  children : List Tree
  start : Nat
  index : Nat

/-- A tree or leaf in its place; the ancestors are listed from the parent up. -/
structure Node where
  focus : Tree
  start : Nat
  above : List Ancestor

namespace Node

def root (t : Tree) : Node := ⟨t, 0, []⟩

def path (n : Node) : List Nat := n.above.map Ancestor.index

def kind (n : Node) : Kind := n.focus.kind

def isNamed (n : Node) : Bool := n.kind.isNamed

def isError (n : Node) : Bool := n.kind.isError

def isHidden (n : Node) : Bool := n.kind.isHidden

def isMissing (n : Node) : Bool := n.kind = .node .error && n.focus.width = 0

def hasError (n : Node) : Bool := n.focus.hasError

def span (n : Node) : Span := ⟨n.start, n.start + n.focus.width⟩

def text (n : Node) : List Char := n.focus.text

def parent? (n : Node) : Option Node :=
  match n.above with
  | [] => none
  | a :: above => some ⟨.node a.kind a.children, a.start, above⟩

/-- The trees, the first of which is the child `index` and starts at `start`, below a parent. -/
def place (parent : Nat → Ancestor) (above : List Ancestor) (index start : Nat) :
    List Tree → List Node
  | [] => []
  | t :: ts => ⟨t, start, parent index :: above⟩ :: place parent above (index + 1) (start + t.width) ts

def allChildren (n : Node) : List Node :=
  match n.focus with
  | .leaf _ => []
  | .node kind children =>
    place (fun index => ⟨kind, children, n.start, index⟩) n.above 0 n.start children

def children (n : Node) : List Node := n.allChildren.filter fun child => !child.isHidden

def namedChildren (n : Node) : List Node := n.children.filter isNamed

def field? (n : Node) : Option String :=
  match n.above with
  | [] => none
  | a :: _ => fieldOf? a.kind n.kind

def childrenByField (n : Node) (name : String) : List Node :=
  n.children.filter fun child => child.field? = some name

def childByField? (n : Node) (name : String) : Option Node := (n.childrenByField name).head?

mutual

/-- A tree that starts at `start`, and all below it, in pre-order, before `rest`. -/
def placeAllBefore (start : Nat) (above : List Ancestor) (rest : List Node) : Tree → List Node
  | .leaf token => ⟨.leaf token, start, above⟩ :: rest
  | .node kind children =>
    ⟨.node kind children, start, above⟩ ::
      placeChildrenBefore (fun index => ⟨kind, children, start, index⟩) above 0 start rest children

def placeChildrenBefore (parent : Nat → Ancestor) (above : List Ancestor) (index start : Nat)
    (rest : List Node) : List Tree → List Node
  | [] => rest
  | t :: ts =>
    placeAllBefore start (parent index :: above)
      (placeChildrenBefore parent above (index + 1) (start + t.width) rest ts) t

end

def descendants (n : Node) : List Node :=
  (placeAllBefore n.start n.above [] n.focus).filter fun d => !d.isHidden

end Node

def Parse.root (p : Parse) : Node := .root p.tree

end CraftDsl
