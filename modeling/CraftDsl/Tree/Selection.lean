import CraftDsl.Tree

/-!
Picking children of a tree by their kinds, and the phrases below it. What is picked is smaller than the
tree, so a chain of nodes that hang off one another can be followed to its end.
-/
namespace CraftDsl

namespace Tree

def child? (t : Tree) (passes : Kind → Bool) : Option Tree := t.children.find? fun c => passes c.kind

def part? (t : Tree) (kind : NodeKind) : Option Tree := t.child? fun k => k = .node kind

def parts (t : Tree) (kind : NodeKind) : List Tree := t.children.filter fun c => c.kind = .node kind

def wordOf? (t : Tree) (kinds : List TokenKind) : Option (List Char) :=
  (t.child? fun k => kinds.any fun kind => k = .token kind).map text

def word? (t : Tree) (kind : TokenKind) : Option (List Char) := t.wordOf? [kind]

def identifier? (t : Tree) : Option (List Char) := t.word? .identifier

def identifierIn? (t : Tree) (kind : NodeKind) : Option (List Char) :=
  (t.part? kind).bind identifier?

def firstWordIn? (t : Tree) (kind : NodeKind) : Option (List Char) :=
  (t.part? kind).bind fun part => part.tokens.head?.map Token.text

def identifiers (t : Tree) : List (List Char) :=
  match t.part? .identifierList with
  | none => []
  | some list =>
    (list.children.filter fun c => c.kind = .token .identifier).map text

def descend? (t : Tree) : List NodeKind → Option Tree
  | [] => some t
  | kind :: kinds => (t.part? kind).bind fun part => part.descend? kinds

theorem sizeOf_lt_of_child {t c : Tree} {passes : Kind → Bool} (h : t.child? passes = some c) :
    sizeOf c < sizeOf t := by
  cases t with
  | leaf token => simp [child?, children] at h
  | node kind children =>
    have member := List.mem_of_find?_eq_some h
    have smaller := List.sizeOf_lt_of_mem member
    simp only [Tree.children] at smaller
    simp only [node.sizeOf_spec]
    omega

theorem sizeOf_le_of_descend {kinds : List NodeKind} {t c : Tree} (h : t.descend? kinds = some c) :
    sizeOf c ≤ sizeOf t := by
  induction kinds generalizing t with
  | nil => simp_all [descend?]
  | cons kind kinds ih =>
    obtain ⟨part, found, rest⟩ := Option.bind_eq_some_iff.mp h
    exact Nat.le_of_lt (Nat.lt_of_le_of_lt (ih rest) (sizeOf_lt_of_child found))

theorem sizeOf_lt_of_descend {kind : NodeKind} {kinds : List NodeKind} {t c : Tree}
    (h : t.descend? (kind :: kinds) = some c) : sizeOf c < sizeOf t := by
  obtain ⟨part, found, rest⟩ := Option.bind_eq_some_iff.mp h
  exact Nat.lt_of_le_of_lt (sizeOf_le_of_descend rest) (sizeOf_lt_of_child found)

/-- The tree, what is reached from it by going to the first part of each kind in turn, what is reached
from there, and so on. -/
def chain (kind : NodeKind) (kinds : List NodeKind) (t : Tree) : List Tree :=
  match h : t.descend? (kind :: kinds) with
  | none => [t]
  | some next =>
    have := sizeOf_lt_of_descend h
    t :: chain kind kinds next
termination_by sizeOf t

theorem sizeOf_le_of_mem_chain {kind : NodeKind} {kinds : List NodeKind} {t c : Tree}
    (h : c ∈ t.chain kind kinds) : sizeOf c ≤ sizeOf t := by
  induction t using chain.induct kind kinds with
  | case1 t last =>
    rw [chain] at h
    split at h <;> simp_all
  | case2 t next found _ ih =>
    rw [chain] at h
    split at h
    · simp_all
    rename_i other same
    obtain rfl : next = other := Option.some.inj (found.symm.trans same)
    rcases List.mem_cons.mp h with rfl | later
    · exact Nat.le_refl _
    · exact Nat.le_of_lt (Nat.lt_of_le_of_lt (ih later) (sizeOf_lt_of_descend found))

end Tree

abbrev Word := List Char

structure Phrase where
  words : List Word
  deriving DecidableEq, Repr

namespace Phrase

/-- All tokens below that are not blank or a comment. -/
def ofTree (t : Tree) : Phrase := ⟨(t.tokens.filter fun token => !token.isTrivia).map Token.text⟩

def text (p : Phrase) : List Char := [' '].intercalate p.words

def under? (t : Tree) : Option Phrase := (t.part? .phrase).map ofTree

end Phrase

def connector? (t : Tree) : Option Word := t.firstWordIn? .connectorWord

end CraftDsl
