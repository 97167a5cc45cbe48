import CraftDsl.Node
import CraftDsl.Proofs.Contents

/-!
Places in a tree: a node with everything below it, and where the leaves stand.
-/
namespace CraftDsl

namespace Token

theorem locate_append (start : Nat) (first second : List Token) :
    locate start (first ++ second) = locate start first ++ locate (start + widthOf first) second := by
  induction first generalizing start with
  | nil => rfl
  | cons token tokens ih =>
    rw [List.cons_append, locate, locate, ih, widthOf_cons, Nat.add_assoc]
    rfl

theorem mem_locate {start : Nat} {tokens : List Token} {located : Span × Token}
    (member : located ∈ locate start tokens) :
    located.2 ∈ tokens ∧ start ≤ located.1.start ∧
      located.1.stop = located.1.start + located.2.width ∧
      located.1.stop ≤ start + widthOf tokens := by
  induction tokens generalizing start with
  | nil => cases member
  | cons token tokens ih =>
    rw [widthOf_cons]
    rcases List.mem_cons.mp member with rfl | later
    · exact ⟨List.mem_cons_self, Nat.le_refl _, rfl, by simp⟩
    · obtain ⟨inside, after, stop, before⟩ := ih later
      exact ⟨List.mem_cons_of_mem _ inside, by omega, stop, by omega⟩

/-- Each character of a text is in one of the tokens that the text is cut into. -/
theorem locate_char {tokens : List Token} {before after : List Char} {c : Char} (start : Nat)
    (text : tokens.flatMap Token.text = before ++ c :: after) :
    ∃ span token front back, (span, token) ∈ locate start tokens ∧
      token.text = front ++ c :: back ∧
      span.start + byteLength front = start + byteLength before := by
  induction tokens generalizing start before with
  | nil => simp at text
  | cons token tokens ih =>
    rw [List.flatMap_cons, List.append_eq_append_iff] at text
    rcases text with ⟨more, rfl, later⟩ | ⟨more, whole, rest⟩
    · obtain ⟨span, found, front, back, member, shape, place⟩ := ih (start + token.width) later
      refine ⟨span, found, front, back, List.mem_cons_of_mem _ member, shape, ?_⟩
      rw [place, byteLength_append, width, Nat.add_assoc]
    · cases more with
      | nil =>
        rw [List.append_nil] at whole
        have later : tokens.flatMap Token.text = [] ++ c :: after := by simpa using rest.symm
        obtain ⟨span, found, front, back, member, shape, place⟩ := ih (start + token.width) later
        refine ⟨span, found, front, back, List.mem_cons_of_mem _ member, shape, ?_⟩
        rw [place, ← whole, width]
        rfl
      | cons d back =>
        obtain ⟨rfl, -⟩ := List.cons.inj rest
        exact ⟨_, token, before, back, List.mem_cons_self, whole, rfl⟩

theorem locate_unique {start : Nat} {tokens : List Token} {one other : Span × Token} (place : Nat)
    (first : one ∈ locate start tokens) (second : other ∈ locate start tokens)
    (inFirst : one.1.start ≤ place ∧ place < one.1.stop)
    (inSecond : other.1.start ≤ place ∧ place < other.1.stop) : one = other := by
  induction tokens generalizing start with
  | nil => cases first
  | cons token tokens ih =>
    rcases List.mem_cons.mp first with rfl | one_later <;>
      rcases List.mem_cons.mp second with rfl | other_later
    · rfl
    · have behind := (mem_locate other_later).2.1
      dsimp only at inFirst
      omega
    · have behind := (mem_locate one_later).2.1
      dsimp only at inSecond
      omega
    · exact ih one_later other_later

end Token

namespace Node

/-- The node and all that is below it in pre-order, blanks and newlines included. -/
def everything (n : Node) : List Node := placeAllBefore n.start n.above [] n.focus

mutual

theorem placeAllBefore_eq (start : Nat) (above : List Ancestor) (rest : List Node) : (t : Tree) →
    placeAllBefore start above rest t = placeAllBefore start above [] t ++ rest
  | .leaf _ => rfl
  | .node kind children => by
    rw [placeAllBefore, placeChildrenBefore_eq _ above 0 start rest children, placeAllBefore,
      placeChildrenBefore_eq _ above 0 start [] children, List.append_nil]
    rfl

theorem placeChildrenBefore_eq (parent : Nat → Ancestor) (above : List Ancestor)
    (index start : Nat) (rest : List Node) : (ts : List Tree) →
    placeChildrenBefore parent above index start rest ts =
      (place parent above index start ts).flatMap everything ++ rest
  | [] => rfl
  | t :: ts => by
    rw [placeChildrenBefore, placeAllBefore_eq start (parent index :: above) _ t,
      placeChildrenBefore_eq parent above (index + 1) _ rest ts, place, List.flatMap_cons,
      List.append_assoc]
    rfl

end

theorem everything_eq (n : Node) : n.everything = n :: n.allChildren.flatMap everything := by
  rcases n with ⟨focus, start, above⟩
  cases focus with
  | leaf token => rfl
  | node kind children =>
    show _ :: placeChildrenBefore _ above 0 start [] children = _
    rw [placeChildrenBefore_eq, List.append_nil]
    rfl

def leaves (n : Node) : List (Span × Token) :=
  n.everything.filterMap fun m => m.focus.token?.map fun token => (m.span, token)

mutual

theorem leaves_tree (start : Nat) (above : List Ancestor) : (t : Tree) →
    leaves ⟨t, start, above⟩ = Token.locate start t.tokens
  | .leaf _ => rfl
  | .node kind children => by
    rw [leaves, everything_eq, Tree.tokens_node]
    exact (List.filterMap_flatMap ..).trans (leaves_place _ above 0 start children)

theorem leaves_place (parent : Nat → Ancestor) (above : List Ancestor) (index start : Nat) :
    (ts : List Tree) → (place parent above index start ts).flatMap leaves =
      Token.locate start (ts.flatMap Tree.tokens)
  | [] => rfl
  | t :: ts => by
    rw [place, List.flatMap_cons, leaves_tree start _ t, leaves_place parent above _ _ ts,
      List.flatMap_cons, Token.locate_append, Tree.width_eq]

end

theorem leaves_eq (n : Node) : n.leaves = Token.locate n.start n.focus.tokens :=
  leaves_tree n.start n.above n.focus

theorem mem_leaves {n : Node} {token : Token} (member : token ∈ n.focus.tokens) :
    ∃ m ∈ n.everything, m.focus = .leaf token := by
  have placed : token ∈ n.leaves.map Prod.snd := by
    rw [leaves_eq, Token.locate_tokens]
    exact member
  rcases List.mem_map.mp placed with ⟨leaf, inside, same⟩
  rcases List.mem_filterMap.mp inside with ⟨m, below, found⟩
  rcases Option.map_eq_some_iff.mp found with ⟨carried, is_leaf, rfl⟩
  refine ⟨m, below, ?_⟩
  cases focus : m.focus with
  | leaf other =>
    rw [focus] at is_leaf
    rw [← same, Option.some.inj is_leaf]
  | node kind children =>
    rw [focus] at is_leaf
    cases is_leaf

mutual

theorem outlineBefore_kinds (depth : Nat) (rest : List (Nat × Kind)) (start : Nat)
    (above : List Ancestor) : (t : Tree) →
    (Tree.outlineBefore depth rest t).map Prod.snd =
      (everything ⟨t, start, above⟩).map kind ++ rest.map Prod.snd
  | .leaf _ => rfl
  | .node kind children => by
    rw [Tree.outlineBefore, List.map_cons, everything_eq, List.map_cons, List.cons_append,
      outlineBeforeAll_kinds (depth + 1) rest _ above 0 start children]
    rfl

theorem outlineBeforeAll_kinds (depth : Nat) (rest : List (Nat × Kind))
    (parent : Nat → Ancestor) (above : List Ancestor) (index start : Nat) : (ts : List Tree) →
    (Tree.outlineBeforeAll depth rest ts).map Prod.snd =
      ((place parent above index start ts).flatMap everything).map kind ++ rest.map Prod.snd
  | [] => rfl
  | t :: ts => by
    rw [Tree.outlineBeforeAll, place, List.flatMap_cons, List.map_append, List.append_assoc,
      outlineBefore_kinds depth _ start (parent index :: above) t,
      outlineBeforeAll_kinds depth rest parent above (index + 1) (start + t.width) ts]

end

theorem outline_kinds (n : Node) : n.focus.outline.map Prod.snd = n.everything.map kind := by
  have kinds := outlineBefore_kinds 1 [] n.start n.above n.focus
  rw [List.map_nil, List.append_nil] at kinds
  exact kinds

/-- A tree has an error if it has an error node or a lexical error token. -/
theorem hasError_iff (n : Node) :
    n.focus.hasError = true ↔ ∃ m ∈ n.everything, m.kind.isError = true := by
  have any : n.focus.hasError = (n.focus.outline.map Prod.snd).any Kind.isError := by
    rw [List.any_map]
    rfl
  rw [any, outline_kinds, List.any_map, List.any_eq_true]
  exact Iff.rfl

theorem mem_place {parent : Nat → Ancestor} {above : List Ancestor} {index start : Nat}
    {ts : List Tree} {child : Node} (member : child ∈ place parent above index start ts) :
    ∃ before after, ts = before ++ child.focus :: after ∧
      child.start = start + Tree.widthAll before ∧
      child.above = parent (index + before.length) :: above := by
  induction ts generalizing index start with
  | nil => simp [place] at member
  | cons t ts ih =>
    rcases List.mem_cons.mp member with rfl | later
    · exact ⟨[], ts, rfl, rfl, rfl⟩
    · rcases ih later with ⟨before, after, split, offset, place⟩
      refine ⟨t :: before, after, by rw [split, List.cons_append], ?_, ?_⟩
      · rw [offset, Tree.widthAll, Nat.add_assoc]
      · rw [place, List.length_cons, Nat.add_assoc, Nat.add_comm 1]

theorem mem_allChildren {n child : Node} (member : child ∈ n.allChildren) :
    ∃ kind before after, n.focus = .node kind (before ++ child.focus :: after) ∧
      child.start = n.start + Tree.widthAll before ∧
      child.above = ⟨kind, before ++ child.focus :: after, n.start, before.length⟩ :: n.above := by
  rcases n with ⟨focus, start, above⟩
  cases focus with
  | leaf token => simp [allChildren] at member
  | node kind children =>
    rcases mem_place member with ⟨before, after, split, offset, place⟩
    rw [Nat.zero_add] at place
    exact ⟨kind, before, after, congrArg _ split, offset, split ▸ place⟩

theorem place_kinds (parent : Nat → Ancestor) (above : List Ancestor) (index start : Nat)
    (ts : List Tree) : (place parent above index start ts).map kind = ts.map Tree.kind := by
  induction ts generalizing index start with
  | nil => rfl
  | cons t ts ih => exact congrArg (List.cons t.kind) (ih _ _)

def nodeKind? (n : Node) : Option NodeKind :=
  match n.kind with
  | .node kind => some kind
  | .token _ => none

mutual

theorem nodeKinds_tree (start : Nat) (above : List Ancestor) : (t : Tree) →
    (everything ⟨t, start, above⟩).filterMap nodeKind? = t.nodeKinds
  | .leaf _ => rfl
  | .node kind children => by
    rw [everything_eq, List.filterMap_cons, Tree.nodeKinds, List.filterMap_flatMap]
    exact congrArg (List.cons kind) (nodeKinds_place _ above 0 start children)

theorem nodeKinds_place (parent : Nat → Ancestor) (above : List Ancestor) (index start : Nat) :
    (ts : List Tree) → ((place parent above index start ts).flatMap fun n =>
      n.everything.filterMap nodeKind?) = Tree.nodeKindsAll ts
  | [] => rfl
  | t :: ts => by
    rw [place, List.flatMap_cons, nodeKinds_tree start _ t, nodeKinds_place parent above _ _ ts]
    rfl

end

theorem mem_nodeKinds {n : Node} {kind : NodeKind} (member : kind ∈ n.focus.nodeKinds) :
    ∃ m ∈ n.everything, m.kind = .node kind := by
  rw [← nodeKinds_tree n.start n.above n.focus] at member
  rcases List.mem_filterMap.mp member with ⟨m, below, found⟩
  refine ⟨m, below, ?_⟩
  cases same : m.kind with
  | token other => simp [nodeKind?, same] at found
  | node other => simpa [nodeKind?, same] using found

theorem nodeKinds_of_mem {n m : Node} (below : m ∈ n.everything) {kind : NodeKind}
    (same : m.kind = .node kind) : kind ∈ n.focus.nodeKinds := by
  rw [← nodeKinds_tree n.start n.above n.focus]
  exact List.mem_filterMap.mpr ⟨m, below, by rw [nodeKind?, same]⟩

def following (n : Node) : List Token :=
  n.above.flatMap fun a => (a.children.drop (a.index + 1)).flatMap Tree.tokens

theorem following_child {n child : Node} {kind : NodeKind} {before after : List Tree} {start : Nat}
    (above : child.above = ⟨kind, before ++ child.focus :: after, start, before.length⟩ :: n.above) :
    child.following = after.flatMap Tree.tokens ++ n.following := by
  have later : (before ++ child.focus :: after).drop (before.length + 1) = after := by
    rw [List.drop_length_add_append]
    rfl
  rw [following, above, List.flatMap_cons, later]
  rfl

theorem sizeOf_lt_of_mem {n child : Node} (member : child ∈ n.allChildren) :
    sizeOf child.focus < sizeOf n.focus := by
  rcases mem_allChildren member with ⟨kind, before, after, focus, -, -⟩
  have among : child.focus ∈ before ++ child.focus :: after := by simp
  have smaller := List.sizeOf_lt_of_mem among
  rw [focus, Tree.node.sizeOf_spec]
  omega

theorem everything_induction {motive : Node → Prop} (root : Node) (holds : motive root)
    (step : ∀ n ∈ root.everything, motive n → ∀ child ∈ n.allChildren, motive child) :
    ∀ m ∈ root.everything, motive m := by
  induction size : sizeOf root.focus using Nat.strongRecOn generalizing root with
  | _ bound ih =>
    intro m member
    rw [everything_eq] at member
    rcases List.mem_cons.mp member with rfl | below
    · exact holds
    · rcases List.mem_flatMap.mp below with ⟨child, among, inside⟩
      have smaller : sizeOf child.focus < bound := size ▸ sizeOf_lt_of_mem among
      have start : motive child := by
        apply step root ?_ holds child among
        rw [everything_eq]
        exact List.mem_cons_self
      refine ih _ smaller child start ?_ rfl m inside
      intro n lower
      apply step n
      rw [everything_eq]
      exact List.mem_cons_of_mem _ (List.mem_flatMap.mpr ⟨child, among, lower⟩)

/-- What goes over from a tree that begins at the tokens ahead to its children, each at its own place,
holds of every node, with the tokens of the node and of what comes after it ahead. -/
theorem carried_everywhere {P : List Token → Tree → Prop}
    (down : ∀ {ahead : List Token} {kind : NodeKind} {before after : List Tree} {t : Tree},
      P ahead (.node kind (before ++ t :: after)) →
        P (ahead.drop (before.flatMap Tree.tokens).length) t)
    {ahead : List Token} {root : Node} (holds : P ahead root.focus)
    (carried : List.Forall₂ Carried ahead (root.focus.tokens ++ root.following)) :
    ∀ n ∈ root.everything, ∃ ahead, P ahead n.focus ∧
      List.Forall₂ Carried ahead (n.focus.tokens ++ n.following) := by
  apply everything_induction (motive := fun n => ∃ ahead, P ahead n.focus ∧
    List.Forall₂ Carried ahead (n.focus.tokens ++ n.following)) root ⟨ahead, holds, carried⟩
  rintro n - ⟨ahead, holds, carried⟩ child member
  rcases mem_allChildren member with ⟨kind, before, after, focus, -, above⟩
  rw [focus] at holds carried
  refine ⟨_, down holds, ?_⟩
  have rest := List.forall₂_drop (before.flatMap Tree.tokens).length carried
  rw [Tree.tokens_node, List.flatMap_append, List.flatMap_cons, List.append_assoc,
    List.append_assoc, List.drop_left] at rest
  rw [following_child above]
  exact rest

end Node

end CraftDsl
