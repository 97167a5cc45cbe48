import CraftDsl.Production.Outcome
import CraftDsl.Tree
import Mathlib.Data.Option.Basic
import Mathlib.Tactic.Common

/-!
What a builder makes of pieces. Closing as many nodes as the pieces opened leaves the trees that
`closePieces` gives, and a node opened at a checkpoint adopts what came after it.
-/
namespace CraftDsl

def Piece.opens : Piece → Nat
  | tree _ => 0
  | opening _ => 1

def openings : List Piece → Nat
  | [] => 0
  | piece :: rest => piece.opens + openings rest

@[simp] theorem openings_nil : openings [] = 0 := rfl

@[simp] theorem openings_append (first second : List Piece) :
    openings (first ++ second) = openings first + openings second := by
  induction first with
  | nil => exact (Nat.zero_add _).symm
  | cons piece rest ih => simp only [List.cons_append, openings, ih, Nat.add_assoc]

@[simp] theorem openings_trees (trees : List Tree) : openings (trees.map Piece.tree) = 0 := by
  induction trees with
  | nil => rfl
  | cons t ts ih => simpa [openings, Piece.opens] using ih

@[simp] theorem openings_leaves (tokens : List Token) : openings (leaves tokens) = 0 := by
  rw [leaves, ← Function.comp_def, ← List.map_map]
  exact openings_trees _

@[simp] theorem closePieces_trees (trees : List Tree) :
    closePieces (trees.map Piece.tree) = trees := by
  induction trees with
  | nil => rfl
  | cons t ts ih => exact congrArg (List.cons t) ih

theorem eq_trees_of_openings (pieces : List Piece) (closed : openings pieces = 0) :
    pieces = (closePieces pieces).map Piece.tree := by
  induction pieces with
  | nil => rfl
  | cons piece rest ih =>
    cases piece with
    | tree t =>
      have rest_closed : openings rest = 0 := by simpa [openings, Piece.opens] using closed
      exact congrArg (List.cons (Piece.tree t)) (ih rest_closed)
    | opening kind => simp [openings, Piece.opens] at closed

namespace Builder

def add (b : Builder) : Piece → Builder
  | .tree t => b.push t
  | .opening kind => b.startNode kind

def absorb (b : Builder) (pieces : List Piece) : Builder := pieces.foldl add b

@[simp] theorem absorb_nil (b : Builder) : b.absorb [] = b := rfl

@[simp] theorem absorb_cons (b : Builder) (piece : Piece) (pieces : List Piece) :
    b.absorb (piece :: pieces) = (b.add piece).absorb pieces := rfl

@[simp] theorem absorb_append (b : Builder) (first second : List Piece) :
    b.absorb (first ++ second) = (b.absorb first).absorb second :=
  List.foldl_append

theorem pushTokens_eq_absorb (b : Builder) (tokens : List Token) :
    b.pushTokens tokens = b.absorb (leaves tokens) := by
  induction tokens generalizing b with
  | nil => rfl
  | cons token tokens ih => exact ih (b.push (.leaf token))

theorem absorb_trees (b : Builder) (trees : List Tree) :
    b.absorb (trees.map Piece.tree) = { b with waiting := b.waiting ++ trees.toArray } := by
  induction trees generalizing b with
  | nil => simp
  | cons t ts ih =>
    rw [List.map_cons, absorb_cons, ih]
    simp [add, push]

def Sound (b : Builder) : Prop := ∀ parent ∈ b.parents.head?, parent.2 ≤ b.waiting.size

theorem Sound.add {b : Builder} (sound : b.Sound) (piece : Piece) : (b.add piece).Sound := by
  intro parent member
  cases piece with
  | tree t =>
    have before := sound parent member
    simp only [Builder.add, push, Array.size_push]
    omega
  | opening kind =>
    have innermost : parent = (kind, b.waiting.size) := by
      simpa [Builder.add, startNode, eq_comm] using member
    rw [innermost]
    exact Nat.le_refl _

theorem Sound.absorb {b : Builder} (sound : b.Sound) (pieces : List Piece) :
    (b.absorb pieces).Sound := by
  induction pieces generalizing b with
  | nil => exact sound
  | cons piece pieces ih => exact ih (sound.add piece)

theorem extract_appended (waiting : Array Tree) (trees : List Tree) :
    ((waiting ++ trees.toArray).extract waiting.size (waiting ++ trees.toArray).size).toList =
      trees := by
  simp

theorem shrink_appended (waiting : Array Tree) (trees : List Tree) :
    (waiting ++ trees.toArray).shrink waiting.size = waiting := by
  rw [Array.shrink_eq_take]
  simp

/-- A node around the trees that came after it opened, wherever it was opened. -/
theorem finishNode?_opened (b : Builder) (kind : NodeKind) (trees : List Tree) :
    finishNode? ⟨(kind, b.waiting.size) :: b.parents, b.waiting ++ trees.toArray⟩ =
      some (b.push (.node kind trees)) := by
  have inside : b.waiting.size ≤ (b.waiting ++ trees.toArray).size := by simp
  simp only [finishNode?, if_pos inside, extract_appended, shrink_appended, push]

theorem finishNode?_startNode (b : Builder) (kind : NodeKind) (trees : List Tree) :
    ((b.startNode kind).absorb (trees.map Piece.tree)).finishNode? =
      some (b.push (.node kind trees)) := by
  rw [absorb_trees]
  exact finishNode?_opened b kind trees

theorem startNodeAt?_checkpoint (b : Builder) (sound : b.Sound) (kind : NodeKind)
    (trees : List Tree) :
    (b.absorb (trees.map Piece.tree)).startNodeAt? b.checkpoint kind =
      some ⟨(kind, b.waiting.size) :: b.parents, b.waiting ++ trees.toArray⟩ := by
  rw [absorb_trees]
  unfold startNodeAt? checkpoint
  cases parents : b.parents with
  | nil => simp
  | cons parent outer =>
    have inner : parent.2 ≤ b.waiting.size := sound parent (by simp [parents])
    simp [inner]

end Builder

end CraftDsl
