import CraftDsl.Proofs.Fields.Sheaths
import CraftDsl.Proofs.Slots

/-!
Children of a node looked up in their places, by their kinds or by the field they fill, and the only
token of a node that holds one.
-/
namespace CraftDsl

namespace Node

def child? (n : Node) (passes : Kind → Bool) : Option Node :=
  n.children.find? fun child => passes child.kind

theorem place_focus (parent : Nat → Ancestor) (above : List Ancestor) (index start : Nat)
    (ts : List Tree) : (place parent above index start ts).map focus = ts := by
  induction ts generalizing index start with
  | nil => rfl
  | cons t ts ih => exact congrArg (List.cons t) (ih _ _)

theorem allChildren_focus (n : Node) : n.allChildren.map focus = n.focus.children := by
  obtain ⟨t, start, above⟩ := n
  cases t with
  | leaf token => rfl
  | node kind children => exact place_focus _ _ _ _ children

variable {n : Node} {passes : Kind → Bool}

theorem child?_focus (visible : ∀ kind, passes kind = true → kind.isHidden = false) :
    (n.child? passes).map focus = n.focus.child? passes := by
  have seen : ∀ c : Node, decide ((!c.isHidden) = true ∧ passes c.kind = true) = passes c.kind := by
    intro c
    cases passed : passes c.kind with
    | false => simp
    | true => simp [isHidden, visible _ passed]
  rw [child?, Node.children, List.find?_filter, Tree.child?, ← allChildren_focus, List.find?_map]
  exact congrArg (fun p => (n.allChildren.find? p).map focus) (funext seen)

theorem child?_kind {child : Node} (found : n.child? passes = some child) :
    passes child.kind = true := by
  simpa using List.find?_some found

theorem mem_of_child? {child : Node} (found : n.child? passes = some child) :
    child ∈ n.allChildren := by
  have member : child ∈ n.children := List.mem_of_find?_eq_some found
  exact (List.mem_filter.mp member).1

def part? (n : Node) (kind : NodeKind) : Option Node := n.child? fun k => k = .node kind

def tokenOf? (n : Node) (kinds : List TokenKind) : Option Node :=
  n.child? fun k => kinds.any fun kind => k = .token kind

theorem part?_focus (kind : NodeKind) : (n.part? kind).map focus = n.focus.part? kind := by
  refine child?_focus fun k same => ?_
  rw [of_decide_eq_true same]
  rfl

theorem part?_kind {kind : NodeKind} {child : Node} (found : n.part? kind = some child) :
    child.kind = .node kind := of_decide_eq_true (child?_kind found)

theorem tokenOf?_kind {kind : TokenKind} {child : Node} (found : n.tokenOf? [kind] = some child) :
    child.kind = .token kind := by simpa using child?_kind found

theorem tokenOf?_text {kinds : List TokenKind} (visible : ∀ kind ∈ kinds, kind.isHidden = false) :
    (n.tokenOf? kinds).map (fun found => found.focus.text) = n.focus.wordOf? kinds := by
  have located : (n.tokenOf? kinds).map focus =
      n.focus.child? fun k => kinds.any fun kind => k = .token kind := by
    refine child?_focus fun k among => ?_
    obtain ⟨kind, member, same⟩ := List.any_eq_true.mp among
    rw [of_decide_eq_true same]
    exact visible kind member
  rw [Tree.wordOf?, ← located, Option.map_map]
  rfl

theorem childByField?_eq {kind : NodeKind} (same : n.kind = .node kind) (name : String) :
    n.childByField? name = n.child? fun k => fieldOf? kind k = some name := by
  have fields : n.childrenByField name =
      n.children.filter fun child => fieldOf? kind child.kind = some name := by
    refine List.filter_congr fun child member => ?_
    obtain ⟨parent, before, after, held, -, above⟩ := mem_allChildren (List.mem_filter.mp member).1
    have here : parent = kind := by
      rw [Node.kind, held] at same
      exact Kind.node.inj same
    rw [field?, above, here]
  rw [childByField?, fields, List.head?_filter, child?]

structure Around (n : Node) (token : Token) (leaf : Node) : Prop where
  focus : leaf.focus = .leaf token
  children : n.allChildren = [leaf]

theorem around_of_focus {kind : NodeKind} {token : Token} (held : n.focus = .node kind [.leaf token]) :
    ∃ leaf, n.Around token leaf := by
  obtain ⟨t, start, above⟩ := n
  cases held
  exact ⟨_, rfl, rfl⟩

namespace Around

variable {token : Token} {leaf : Node} (around : n.Around token leaf)

include around

theorem kind : leaf.kind = .token token.kind := by rw [Node.kind, around.focus, Tree.kind]

theorem everything : n.everything = [n, leaf] := by
  have below : leaf.allChildren = [] := by rw [allChildren, around.focus]
  rw [everything_eq, around.children, List.flatMap_singleton, everything_eq, below]
  rfl

theorem child? (visible : token.kind.isHidden = false) (passed : passes (.token token.kind) = true) :
    n.child? passes = some leaf := by
  have shown : leaf.isHidden = false := by rw [isHidden, around.kind, Kind.isHidden, visible]
  rw [Node.child?, Node.children, around.children]
  simp [shown, around.kind, passed]

/-- What is searched for below the node is the token if the node is passed over. -/
theorem find? {check : Node → Bool} (visible : token.kind.isHidden = false) (shown : n.isHidden = false)
    (passed_over : check n = false) (passed : check leaf = true) :
    n.descendants.find? check = some leaf := by
  have token_shown : leaf.isHidden = false := by rw [isHidden, around.kind, Kind.isHidden, visible]
  have unfolded : n.descendants = n.everything.filter fun d => !d.isHidden := rfl
  rw [unfolded, around.everything]
  simp [shown, token_shown, passed_over, passed]

end Around

end Node

theorem Node.child_subtrees {n child : Node} (member : child ∈ n.allChildren) :
    child.focus ∈ n.focus.subtrees := by
  obtain ⟨kind, before, after, held, -, -⟩ := mem_allChildren member
  rw [held]
  exact Tree.mem_subtrees_child (List.mem_append_right _ List.mem_cons_self)

theorem Node.focus_subtrees {root : Node} : ∀ n ∈ root.everything, n.focus ∈ root.focus.subtrees := by
  refine everything_induction root (Tree.mem_subtrees_self _) ?_
  intro n _ below child member
  exact Tree.subtrees_subset below (child_subtrees member)

theorem sheath_around (source : List Char) {n child : Node}
    (below : n ∈ (parse source).root.everything) (member : child ∈ n.allChildren) {kind : NodeKind}
    (same : child.kind = .node kind) {content : KindSet} (holds : kind.content? = some content) :
    ∃ token leaf, child.Around token leaf ∧ content.has token.kind = true := by
  have inside : child.focus ∈ (parse source).tree.subtrees :=
    Tree.subtrees_subset (Node.focus_subtrees n below) (Node.child_subtrees member)
  obtain ⟨children, held⟩ := Tree.node_of_kind same
  rw [held] at inside
  obtain ⟨token, rfl, among⟩ := parse_sheathed source kind children inside content holds
  obtain ⟨leaf, around⟩ := Node.around_of_focus held
  exact ⟨token, leaf, around, among⟩

end CraftDsl
