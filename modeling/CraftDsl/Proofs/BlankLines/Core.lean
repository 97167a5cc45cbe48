import CraftDsl.Ast.UseCase
import CraftDsl.Proofs.Displacement
import CraftDsl.Proofs.Subtrees

/-!
The core of a tree: what is left of it without newlines, blanks and comments, where the lines of a use
case stand side by side, however they hang together. Main statements: `coreAll_closePieces`,
`error_corePieces`.
-/
namespace CraftDsl

def NodeKind.isLoose : NodeKind → Bool
  | .scenario | .scenarioContinuation => true
  | _ => false

def Tree.isLine (t : Tree) : Bool := Action.isNode t.kind || t.kind = .node .error

def NodeKind.gather (kind : NodeKind) (inner : List Tree) : List Tree :=
  if kind.isLoose then inner
  else if kind = .whenClause then
    .node kind (inner.filter fun t => !t.isLine) :: inner.filter Tree.isLine
  else [.node kind inner]

namespace Tree

mutual

def core : Tree → List Tree
  | leaf token => token.content.toList.map leaf
  | node kind children => kind.gather (coreAll children)

def coreAll : List Tree → List Tree
  | [] => []
  | t :: ts => t.core ++ coreAll ts

end

theorem coreAll_flatMap (ts : List Tree) : coreAll ts = ts.flatMap core := by
  induction ts with
  | nil => rfl
  | cons t ts ih => rw [coreAll, ih, List.flatMap_cons]

theorem coreAll_append (first second : List Tree) :
    coreAll (first ++ second) = coreAll first ++ coreAll second := by
  rw [coreAll_flatMap, coreAll_flatMap, coreAll_flatMap, List.flatMap_append]

theorem coreAll_leaves (tokens : List Token) :
    coreAll (tokens.map leaf) = (tokens.filterMap Token.content).map leaf := by
  induction tokens with
  | nil => rfl
  | cons token tokens ih =>
    rw [List.map_cons, coreAll, ih, core, List.filterMap_cons]
    cases token.content <;> rfl

theorem coreAll_fixed {ts : List Tree} (fixed : ∀ t ∈ ts, t.core = [t]) : coreAll ts = ts := by
  induction ts with
  | nil => rfl
  | cons t ts ih =>
    obtain ⟨first, rest⟩ := List.forall_mem_cons.mp fixed
    rw [coreAll, first, ih rest]
    rfl

end Tree

namespace NodeKind

variable {kind : NodeKind} {inner : List Tree}

theorem gather_loose (loose : kind.isLoose = true) : kind.gather inner = inner := if_pos loose

theorem gather_clause : whenClause.gather inner =
    .node .whenClause (inner.filter fun t => !t.isLine) :: inner.filter Tree.isLine := rfl

theorem gather_firm (firm : kind.isLoose = false) (other : kind ≠ .whenClause) :
    kind.gather inner = [.node kind inner] := by
  rw [gather, if_neg (Bool.eq_false_iff.mp firm), if_neg other]

theorem gather_fixed (fixed : ∀ t ∈ inner, t.core = [t]) : ∀ t ∈ kind.gather inner, t.core = [t] := by
  have whole (kind : NodeKind) : (Tree.node kind inner).core = kind.gather inner := by
    rw [Tree.core, Tree.coreAll_fixed fixed]
  by_cases loose : kind.isLoose = true
  · rw [gather_loose loose]
    exact fixed
  · by_cases clause : kind = .whenClause
    · subst clause
      have head : ∀ t ∈ inner.filter fun t => !t.isLine, t.core = [t] := fun t member =>
        fixed t (List.mem_of_mem_filter member)
      rw [gather_clause]
      refine List.forall_mem_cons.mpr ⟨?_, fun t member => fixed t (List.mem_of_mem_filter member)⟩
      rw [Tree.core, Tree.coreAll_fixed head, gather_clause, List.filter_filter, List.filter_filter]
      simp
    · have firm : kind.gather inner = [.node kind inner] :=
        gather_firm (Bool.eq_false_iff.mpr loose) clause
      rw [firm]
      exact List.forall_mem_singleton.mpr ((whole kind).trans firm)

end NodeKind

namespace Tree

theorem content_fixed {token kept : Token} (content : token.content = some kept) :
    (leaf kept).core = [leaf kept] := by
  have same : kept.content = some kept := by
    unfold Token.content at content
    split at content
    · cases content
    · rename_i held
      cases content
      exact if_neg held
  rw [core, same]
  rfl

mutual

theorem core_fixed : (t : Tree) → ∀ s ∈ t.core, s.core = [s]
  | leaf token => by
    intro s member
    obtain ⟨kept, found, rfl⟩ := List.mem_map.mp member
    exact content_fixed (Option.mem_toList.mp found)
  | node kind children => NodeKind.gather_fixed (all_fixed children)

theorem all_fixed : (ts : List Tree) → ∀ s ∈ coreAll ts, s.core = [s]
  | [] => List.forall_mem_nil _
  | t :: ts => List.forall_mem_append.mpr ⟨core_fixed t, all_fixed ts⟩

end

mutual

theorem core_sift : (t : Tree) → coreAll (t.sift Token.content) = t.core
  | leaf token => by
    rw [sift, core]
    cases content : token.content with
    | none => rfl
    | some kept => exact (List.append_nil _).trans (content_fixed content)
  | node kind children => by
    rw [sift, coreAll, coreAll, core, all_sift children, List.append_nil, core]

theorem all_sift : (ts : List Tree) → coreAll (siftAll Token.content ts) = coreAll ts
  | [] => rfl
  | t :: ts => by rw [siftAll, coreAll_append, core_sift t, all_sift ts, coreAll]

end

end Tree

def corePieces : List Piece → List Piece
  | [] => []
  | .tree t :: pieces => t.core.map .tree ++ corePieces pieces
  | .opening kind :: pieces =>
    if kind.isLoose then corePieces pieces else .opening kind :: corePieces pieces

theorem corePieces_append (first second : List Piece) :
    corePieces (first ++ second) = corePieces first ++ corePieces second := by
  induction first with
  | nil => rfl
  | cons piece pieces ih =>
    cases piece with
    | tree t => rw [List.cons_append, corePieces, ih, corePieces, List.append_assoc]
    | opening kind =>
      rw [List.cons_append, corePieces, ih, corePieces]
      split <;> rfl

theorem corePieces_trees (trees : List Tree) :
    corePieces (trees.map .tree) = (Tree.coreAll trees).map .tree := by
  induction trees with
  | nil => rfl
  | cons t ts ih => rw [List.map_cons, corePieces, ih, Tree.coreAll, List.map_append]

theorem corePieces_tree (t : Tree) : corePieces [.tree t] = t.core.map .tree :=
  List.append_nil _

theorem corePieces_leaves (tokens : List Token) :
    corePieces (leaves tokens) = leaves (tokens.filterMap Token.content) := by
  have trees (tokens : List Token) : leaves tokens = (tokens.map Tree.leaf).map .tree :=
    (List.map_map ..).symm
  rw [trees, corePieces_trees, Tree.coreAll_leaves, ← trees]

theorem corePieces_sift (pieces : List Piece) :
    corePieces (siftPieces Token.content pieces) = corePieces pieces := by
  induction pieces with
  | nil => rfl
  | cons piece pieces ih =>
    cases piece with
    | tree t => rw [siftPieces, corePieces_append, corePieces_trees, t.core_sift, ih, corePieces]
    | opening kind => rw [siftPieces, corePieces, corePieces, ih]

theorem corePieces_blank {tokens : List Token}
    (blank : ∀ token ∈ tokens, token.isTrivia = true ∨ token.kind = .newline) :
    corePieces (leaves tokens) = [] := by
  have none : tokens.filterMap Token.content = [] := by
    refine List.filterMap_eq_nil_iff.mpr fun token member => if_pos ?_
    rcases blank token member with trivia | newline
    · rw [trivia, Bool.true_or]
    · rw [decide_eq_true newline, Bool.or_true]
  rw [corePieces_leaves, none]
  rfl

theorem corePieces_pending (c : Cursor) : corePieces (leaves c.pending) = [] :=
  corePieces_blank fun token member => .inl (c.pending_trivia token member)

theorem coreAll_closePieces (pieces : List Piece) :
    Tree.coreAll (closePieces pieces) = Tree.coreAll (closePieces (corePieces pieces)) := by
  induction pieces with
  | nil => rfl
  | cons piece pieces ih =>
    cases piece with
    | tree t =>
      have first : closePieces (.tree t :: pieces) = t :: closePieces pieces := rfl
      rw [first, Tree.coreAll, ih, corePieces, closePieces_append, Tree.coreAll_append,
        Tree.coreAll_fixed t.core_fixed]
    | opening kind =>
      have one (pieces : List Piece) :
          closePieces (.opening kind :: pieces) = [.node kind (closePieces pieces)] := rfl
      rw [one, Tree.coreAll, Tree.core, Tree.coreAll, List.append_nil, ih, corePieces]
      split
      · rename_i loose
        rw [NodeKind.gather_loose loose]
      · rw [one, Tree.coreAll, Tree.core, Tree.coreAll, List.append_nil]

theorem corePieces_node (kind : NodeKind) (pieces : List Piece) :
    corePieces [.tree (.node kind (closePieces pieces))] =
      (kind.gather (Tree.coreAll (closePieces (corePieces pieces)))).map .tree := by
  rw [corePieces_tree, Tree.core, coreAll_closePieces]

theorem corePieces_closed (pieces : List Piece) :
    corePieces ((closePieces pieces).map .tree) =
      (Tree.coreAll (closePieces (corePieces pieces))).map .tree := by
  rw [corePieces_trees, coreAll_closePieces]

theorem mem_nodeKindsAll {kind : NodeKind} {ts : List Tree} :
    kind ∈ Tree.nodeKindsAll ts ↔ ∃ t ∈ ts, kind ∈ t.nodeKinds := by
  induction ts with
  | nil => simp [Tree.nodeKindsAll]
  | cons t ts ih => simp [Tree.nodeKindsAll, ih]

theorem error_gather (kind : NodeKind) (inner : List Tree) :
    NodeKind.error ∈ Tree.nodeKindsAll (kind.gather inner) ↔
      NodeKind.error = kind ∨ NodeKind.error ∈ Tree.nodeKindsAll inner := by
  by_cases loose : kind.isLoose = true
  · have other : NodeKind.error ≠ kind := by
      rintro rfl
      cases loose
    rw [NodeKind.gather_loose loose, or_iff_right other]
  · by_cases clause : kind = .whenClause
    · subst clause
      rw [NodeKind.gather_clause, Tree.nodeKindsAll, Tree.nodeKinds, List.mem_append, List.mem_cons,
        mem_nodeKindsAll, mem_nodeKindsAll, mem_nodeKindsAll, or_assoc]
      refine or_congr_right ⟨?_, ?_⟩
      · rintro (⟨t, member, error⟩ | ⟨t, member, error⟩)
        · exact ⟨t, List.mem_of_mem_filter member, error⟩
        · exact ⟨t, List.mem_of_mem_filter member, error⟩
      · rintro ⟨t, member, error⟩
        by_cases line : t.isLine = true
        · exact .inr ⟨t, List.mem_filter.mpr ⟨member, line⟩, error⟩
        · exact .inl ⟨t, List.mem_filter.mpr ⟨member, by simp [line]⟩, error⟩
    · rw [NodeKind.gather_firm (Bool.eq_false_iff.mpr loose) clause, Tree.nodeKindsAll,
        Tree.nodeKinds, Tree.nodeKindsAll, List.append_nil, List.mem_cons]

mutual

theorem error_core : (t : Tree) →
    (NodeKind.error ∈ Tree.nodeKindsAll t.core ↔ NodeKind.error ∈ t.nodeKinds)
  | .leaf token => by
    rw [Tree.core]
    cases token.content <;> simp [Tree.nodeKindsAll, Tree.nodeKinds]
  | .node kind children => by
    rw [Tree.core, error_gather, error_coreAll children, Tree.nodeKinds, List.mem_cons]

theorem error_coreAll : (ts : List Tree) →
    (NodeKind.error ∈ Tree.nodeKindsAll (Tree.coreAll ts) ↔ NodeKind.error ∈ Tree.nodeKindsAll ts)
  | [] => Iff.rfl
  | t :: ts => by
    rw [Tree.coreAll, Tree.nodeKindsAll_append, List.mem_append, error_core t, error_coreAll ts,
      Tree.nodeKindsAll, List.mem_append]

end

/-- An error node is found in the core as well. -/
theorem error_corePieces (pieces : List Piece) :
    NodeKind.error ∈ kindsOf (corePieces pieces) ↔ NodeKind.error ∈ kindsOf pieces := by
  induction pieces with
  | nil => rfl
  | cons piece pieces ih =>
    cases piece with
    | tree t =>
      have whole : kindsOf (.tree t :: pieces) = t.nodeKinds ++ kindsOf pieces := rfl
      rw [corePieces, kindsOf_append, List.mem_append, kindsOf_trees, error_core, ih, whole,
        List.mem_append]
    | opening kind =>
      rw [corePieces]
      split
      · rename_i loose
        have other : NodeKind.error ≠ kind := by
          rintro rfl
          cases loose
        have whole : kindsOf (.opening kind :: pieces) = kind :: kindsOf pieces := rfl
        rw [ih, whole, List.mem_cons, or_iff_right other]
      · have whole (pieces : List Piece) :
            kindsOf (.opening kind :: pieces) = kind :: kindsOf pieces := rfl
        rw [whole, whole, List.mem_cons, List.mem_cons, ih]

end CraftDsl
