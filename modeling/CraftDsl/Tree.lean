import CraftDsl.Kind

/-!
Concrete trees and how they are built. The leaves of a source's tree are its tokens, blanks and comments
included, so the text of a tree needs no source beside it.
-/
namespace CraftDsl

inductive Tree
  | leaf (token : Token)
  | node (kind : NodeKind) (children : List Tree)
  deriving Repr

namespace Tree

def kind : Tree → Kind
  | leaf token => .token token.kind
  | node kind _ => .node kind

def children : Tree → List Tree
  | leaf _ => []
  | node _ children => children

def token? : Tree → Option Token
  | leaf token => some token
  | node _ _ => none

def isError (t : Tree) : Bool := t.kind.isError

mutual

def width : Tree → Nat
  | leaf token => token.width
  | node _ children => widthAll children

def widthAll : List Tree → Nat
  | [] => 0
  | t :: ts => t.width + widthAll ts

end

mutual

/-- The leaves from left to right, before `rest`. -/
def tokensBefore (rest : List Token) : Tree → List Token
  | leaf token => token :: rest
  | node _ children => tokensBeforeAll rest children

def tokensBeforeAll (rest : List Token) : List Tree → List Token
  | [] => rest
  | t :: ts => tokensBefore (tokensBeforeAll rest ts) t

end

def tokens (t : Tree) : List Token := tokensBefore [] t

def text (t : Tree) : List Char := t.tokens.flatMap Token.text

mutual

/-- Every node and leaf in pre-order with its depth, before `rest`. -/
def outlineBefore (depth : Nat) (rest : List (Nat × Kind)) : Tree → List (Nat × Kind)
  | leaf token => (depth, .token token.kind) :: rest
  | node kind children => (depth, .node kind) :: outlineBeforeAll (depth + 1) rest children

def outlineBeforeAll (depth : Nat) (rest : List (Nat × Kind)) : List Tree → List (Nat × Kind)
  | [] => rest
  | t :: ts => outlineBefore depth (outlineBeforeAll depth rest ts) t

end

/-- Every node and leaf in pre-order with its depth; the root is at depth 1. -/
def outline (t : Tree) : List (Nat × Kind) := outlineBefore 1 [] t

def depth (t : Tree) : Nat := (t.outline.map Prod.fst).foldl max 0

def hasError (t : Tree) : Bool := t.outline.any fun (_, kind) => kind.isError

mutual

/-- Nodes and leaves in pre-order, the tree itself first, before `rest`. -/
def subtreesBefore (rest : List Tree) : Tree → List Tree
  | leaf token => leaf token :: rest
  | node kind children => node kind children :: subtreesBeforeAll rest children

def subtreesBeforeAll (rest : List Tree) : List Tree → List Tree
  | [] => rest
  | t :: ts => subtreesBefore (subtreesBeforeAll rest ts) t

end

def subtrees (t : Tree) : List Tree := subtreesBefore [] t

end Tree

/-- Open nodes, the innermost first, each with the number of trees that wait before its children. -/
structure Builder where
  parents : List (NodeKind × Nat)
  waiting : Array Tree

namespace Builder

def empty : Builder := ⟨[], #[]⟩

def push (b : Builder) (t : Tree) : Builder := { b with waiting := b.waiting.push t }

def pushTokens (b : Builder) (tokens : List Token) : Builder :=
  tokens.foldl (fun b token => b.push (.leaf token)) b

def startNode (b : Builder) (kind : NodeKind) : Builder :=
  { b with parents := (kind, b.waiting.size) :: b.parents }

def checkpoint (b : Builder) : Nat := b.waiting.size

/-- Opens a node around all that came after the checkpoint. It may not reach into what an open node
had before it, nor past the end. -/
def startNodeAt? (b : Builder) (checkpoint : Nat) (kind : NodeKind) : Option Builder :=
  let inner := match b.parents with
    | [] => true
    | (_, first) :: _ => first ≤ checkpoint
  if checkpoint ≤ b.waiting.size && inner then
    some { b with parents := (kind, checkpoint) :: b.parents }
  else none

/-- Closes the innermost open node, if there is one. -/
def finishNode? (b : Builder) : Option Builder :=
  match b.parents with
  | [] => none
  | (kind, first) :: parents =>
    if first ≤ b.waiting.size then
      let children := (b.waiting.extract first b.waiting.size).toList
      some ⟨parents, (b.waiting.shrink first).push (.node kind children)⟩
    else none

def root? (b : Builder) : Option Tree :=
  match b.parents, b.waiting.toList with
  | [], [.node kind children] => some (.node kind children)
  | _, _ => none

end Builder

end CraftDsl
