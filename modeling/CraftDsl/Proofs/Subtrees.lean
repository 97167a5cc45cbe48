import CraftDsl.Tree.Selection
import Mathlib.Data.List.Basic
import Mathlib.Tactic.Common

/-!
The trees below a tree, in pre-order, and the chains in it.
-/
namespace CraftDsl.Tree

mutual

theorem subtreesBefore_eq (rest : List Tree) : (t : Tree) → subtreesBefore rest t = subtrees t ++ rest
  | leaf _ => rfl
  | node kind children => by
    rw [subtreesBefore, subtreesBeforeAll_eq rest children, subtrees, subtreesBefore, List.cons_append,
      subtreesBeforeAll_eq [] children, List.append_nil]

theorem subtreesBeforeAll_eq (rest : List Tree) : (ts : List Tree) →
    subtreesBeforeAll rest ts = ts.flatMap subtrees ++ rest
  | [] => rfl
  | t :: ts => by
    rw [subtreesBeforeAll, subtreesBefore_eq, subtreesBeforeAll_eq rest ts, List.flatMap_cons,
      List.append_assoc]

end

theorem subtrees_node (kind : NodeKind) (children : List Tree) :
    (node kind children).subtrees = node kind children :: children.flatMap subtrees := by
  rw [subtrees, subtreesBefore, subtreesBeforeAll_eq, List.append_nil]

theorem mem_subtrees_self (t : Tree) : t ∈ t.subtrees := by
  cases t with
  | leaf token => exact List.mem_cons_self
  | node kind children =>
    rw [subtrees_node]
    exact List.mem_cons_self

theorem mem_subtrees_child {kind : NodeKind} {children : List Tree} {c : Tree} (member : c ∈ children) :
    c ∈ (node kind children).subtrees := by
  rw [subtrees_node]
  exact List.mem_cons_of_mem _ (List.mem_flatMap.mpr ⟨c, member, mem_subtrees_self c⟩)

mutual

theorem subtrees_induction {motive : Tree → Prop}
    (child : ∀ kind children, motive (node kind children) → ∀ c ∈ children, motive c) :
    (t : Tree) → motive t → ∀ s ∈ t.subtrees, motive s
  | leaf token, root => List.forall_mem_singleton.mpr root
  | node kind children, root => by
    rw [subtrees_node]
    exact List.forall_mem_cons.mpr
      ⟨root, subtreesAll_induction child children (child kind children root)⟩

theorem subtreesAll_induction {motive : Tree → Prop}
    (child : ∀ kind children, motive (node kind children) → ∀ c ∈ children, motive c) :
    (ts : List Tree) → (∀ t ∈ ts, motive t) → ∀ s ∈ ts.flatMap subtrees, motive s
  | [], _ => List.forall_mem_nil _
  | t :: ts, roots => by
    obtain ⟨first, rest⟩ := List.forall_mem_cons.mp roots
    rw [List.flatMap_cons]
    exact List.forall_mem_append.mpr
      ⟨subtrees_induction child t first, subtreesAll_induction child ts rest⟩

end

theorem subtrees_subset {s t : Tree} (below : s ∈ t.subtrees) : s.subtrees ⊆ t.subtrees := by
  refine subtrees_induction (motive := fun u => u.subtrees ⊆ t.subtrees) ?_ t
    (List.Subset.refl _) s below
  intro kind children inside c member r under
  apply inside
  rw [subtrees_node]
  exact List.mem_cons_of_mem _ (List.mem_flatMap.mpr ⟨c, member, under⟩)

theorem child?_passes {t c : Tree} {passes : Kind → Bool} (found : t.child? passes = some c) :
    passes c.kind = true := by
  have passed := List.find?_some (p := fun c : Tree => passes c.kind) found
  exact passed

/-- The trees below of the kinds that pass, in the order of the text. -/
def listed (passes : Kind → Bool) (t : Tree) : List Tree := t.subtrees.filter fun s => passes s.kind

theorem chain_last {t : Tree} {kind : NodeKind} {kinds : List NodeKind}
    (last : t.descend? (kind :: kinds) = none) : t.chain kind kinds = [t] := by
  rw [chain]
  split
  · rfl
  · rename_i found
    cases last.symm.trans found

theorem chain_next {t next : Tree} {kind : NodeKind} {kinds : List NodeKind}
    (found : t.descend? (kind :: kinds) = some next) :
    t.chain kind kinds = t :: next.chain kind kinds := by
  rw [chain]
  split
  · rename_i last
    cases last.symm.trans found
  · rename_i other same
    obtain rfl : next = other := Option.some.inj (found.symm.trans same)
    rfl

theorem node_of_kind {t : Tree} {kind : NodeKind} (same : t.kind = .node kind) :
    ∃ children, t = node kind children := by
  cases t with
  | leaf token => cases same
  | node other children => exact ⟨children, congrArg (node · children) (Kind.node.inj same)⟩

end CraftDsl.Tree
