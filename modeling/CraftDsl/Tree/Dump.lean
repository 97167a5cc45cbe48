import CraftDsl.Text.Escape
import CraftDsl.Tree

/-!
Dumps of concrete trees: one line for each node and leaf, indented by depth.
-/
namespace CraftDsl

structure DumpOptions where
  trivia : Bool
  spans : Bool

def decimal (n : Nat) : List Char := Nat.toDigits 10 n

def indentation (depth : Nat) : List Char := List.replicate (2 * depth) ' '

/-- The span of what starts at `start`, after a blank, if spans are asked for. -/
def spanSuffix (spans : Bool) (start width : Nat) : List Char :=
  if spans then
    " [".toList ++ decimal start ++ "..".toList ++ decimal (start + width) ++ [']']
  else []

namespace Tree

mutual

def dumpLines (options : DumpOptions) (depth start : Nat) : Tree → List (List Char)
  | leaf token =>
    if token.isTrivia && !options.trivia then []
    else
      [indentation depth ++ token.kind.label.toList ++ spanSuffix options.spans start token.width ++
        " \"".toList ++ escapeLeaf token.text ++ ['"']]
  | node kind children =>
    (indentation depth ++ kind.label.toList ++ spanSuffix options.spans start (widthAll children)) ::
      dumpLinesAll options (depth + 1) start children

def dumpLinesAll (options : DumpOptions) (depth start : Nat) : List Tree → List (List Char)
  | [] => []
  | t :: ts => dumpLines options depth start t ++ dumpLinesAll options depth (start + t.width) ts

end

def dump (options : DumpOptions) (t : Tree) : List Char :=
  (t.dumpLines options 0 0).flatMap fun line => line ++ ['\n']

end Tree

end CraftDsl
