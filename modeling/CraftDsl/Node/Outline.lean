import CraftDsl.Node
import CraftDsl.Tree.Dump

/-!
Outlines of trees: named nodes in parentheses with the fields they fill, one on a line.
-/
namespace CraftDsl.Tree

def outlineHead (spans : Bool) (field : Option String) (depth start width : Nat) (name : String) :
    List Char :=
  indentation depth ++ (field.map fun label => label.toList ++ [':', ' ']).getD [] ++
    '(' :: name.toList ++ spanSuffix spans start width

mutual

/-- The outline of a tree that starts at the byte `start` and fills the field, before `rest`. -/
def outlineTextBefore (spans : Bool) (field : Option String) (depth start : Nat) (rest : List Char) :
    Tree → List Char
  | leaf token =>
    outlineHead spans field depth start token.width token.kind.name ++
      ([' ', '"'] ++ escapeLeaf token.text ++ '"' :: ')' :: rest)
  | node kind children =>
    outlineHead spans field depth start (widthAll children) kind.name ++
      outlineChildrenBefore spans kind (depth + 1) start (')' :: rest) children

def outlineChildrenBefore (spans : Bool) (parent : NodeKind) (depth start : Nat)
    (rest : List Char) : List Tree → List Char
  | [] => rest
  | t :: ts =>
    let others := outlineChildrenBefore spans parent depth (start + t.width) rest ts
    if t.kind.isHidden || !t.kind.isNamed then others
    else '\n' :: outlineTextBefore spans (fieldOf? parent t.kind) depth start others t

end

def render (spans : Bool) (t : Tree) : List Char := outlineTextBefore spans none 0 0 ['\n'] t

end CraftDsl.Tree
