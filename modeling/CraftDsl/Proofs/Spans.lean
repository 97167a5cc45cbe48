import CraftDsl.Proofs.Edges
import CraftDsl.Proofs.Plan

/-!
Where nodes begin and end. In the tree of a source without errors every node below the root holds
something besides blanks and comments, so its span and its text reach from one of its own tokens to
another. Main statement: `nodes_reach`.
-/
namespace CraftDsl

/-- Waits in every node but the root for a child that is no blank or comment. Outside of all nodes, in
state 2, there is the root, and nowhere else. -/
def Monitor.filled : Monitor where
  start kind := if kind = .sourceFile then 0 else 1
  step s kind := if s < 2 ∧ kind = .node .sourceFile then none else some 0
  ends _ s := if s = 0 then .anything else .empty
  strict := true

theorem sourceFile_filled :
    (Production.sourceFile.foresee .filled false (.unknown ⟨none, 2⟩)).isSome = true := by
  decide +kernel

theorem filled_walk {s : Nat} {children : List Tree} (inside : s < 2)
    (walked : Monitor.filled.walk s children = some 0) :
    (s = 1 → ∃ c ∈ children, c.kind.isTrivia = false) ∧
      ∀ c ∈ children, c.kind ≠ .node .sourceFile := by
  induction children generalizing s with
  | nil => cases walked; simp
  | cons c children ih =>
    rw [Monitor.walk] at walked
    split at walked
    · rename_i trivia
      obtain ⟨waiting, others⟩ := ih inside walked
      refine ⟨fun start => ?_, List.forall_mem_cons.mpr ⟨?_, others⟩⟩
      · obtain ⟨d, member, solid⟩ := waiting start
        exact ⟨d, List.mem_cons_of_mem _ member, solid⟩
      · rintro node
        rw [node] at trivia
        cases trivia
    · rename_i solid
      obtain ⟨next, stepped, rest⟩ := Option.bind_eq_some_iff.mp walked
      obtain ⟨other, same⟩ := Option.ite_none_left_eq_some.mp stepped
      cases same
      exact ⟨fun _ => ⟨c, List.mem_cons_self, Bool.eq_false_iff.mpr solid⟩,
        List.forall_mem_cons.mpr ⟨fun root => other ⟨inside, root⟩, (ih (by decide) rest).2⟩⟩

namespace Tree

theorem nodeKinds_below {t : Tree} : ∀ s ∈ t.subtrees, s.nodeKinds ⊆ t.nodeKinds := by
  refine subtrees_induction ?_ t (List.Subset.refl _)
  intro kind children inside c member
  obtain ⟨before, after, rfl⟩ := List.append_of_mem member
  have among : c.nodeKinds ⊆ (node kind (before ++ c :: after)).nodeKinds := by
    intro other found
    simp [nodeKinds, nodeKindsAll, found]
  exact List.Subset.trans among inside

def Filled (t : Tree) : Prop := t.Everywhere fun _ children => ∃ c ∈ children, c.kind.isTrivia = false

theorem Everywhere.child {Q : NodeKind → List Tree → Prop} {kind : NodeKind} {children : List Tree}
    (everywhere : (node kind children).Everywhere Q) {c : Tree} (member : c ∈ children) :
    c.Everywhere Q :=
  fun other held below => everywhere other held (subtrees_subset (mem_subtrees_child member) below)

theorem last_solid : (t : Tree) → t.Cropped → t.Filled → t.kind.isTrivia = false →
    ∃ last ∈ t.tokens.getLast?, last.isTrivia = false
  | leaf token, _, _, solid => ⟨token, rfl, solid⟩
  | node kind children, cropped, filled, _ => by
    have some : children ≠ [] := by
      rintro rfl
      obtain ⟨c, member, -⟩ := filled kind [] (mem_subtrees_self _)
      cases member
    have member := List.getLast_mem some
    have ends := (cropped kind children (mem_subtrees_self _)).2 _ (List.getLast?_eq_some_getLast some)
    have smaller : sizeOf (children.getLast some) < sizeOf (node kind children) := by
      have inside := List.sizeOf_lt_of_mem member
      rw [node.sizeOf_spec]
      omega
    obtain ⟨last, found, solid⟩ :=
      last_solid (children.getLast some) (cropped.child member) (filled.child member) ends
    refine ⟨last, ?_, solid⟩
    rw [tokens_node, ← List.dropLast_append_getLast some, List.flatMap_append, List.flatMap_singleton,
      List.getLast?_append, Option.mem_def.mp found]
    rfl
termination_by t => sizeOf t

end Tree

theorem parse_filled {source : List Char} (sound : (parse source).hasErrors = false) :
    ∀ t ∈ (parse source).tree.children, t.Filled := by
  obtain ⟨trees, -, spelled⟩ := parse_spelled source
  have walks : ∀ kind children, Tree.node kind children ∈ (parse source).tree.subtrees →
      Monitor.filled.walk (Monitor.filled.start kind) children = some 0 := by
    intro kind children below
    have ordinary : kind ≠ .error := by
      rintro rfl
      exact parse_ordinary sound (Tree.nodeKinds_below _ below List.mem_cons_self)
    have accepted := parse_accepts sourceFile_filled source (parse_fair source sound)
    obtain ⟨ahead, passes, -⟩ := Monitor.accepts_below accepted _ below
    obtain ⟨s, walked, ended⟩ := passes ordinary
    have finished : s = 0 := by
      by_contra waiting
      simp [Monitor.filled, waiting] at ended
    rwa [finished] at walked
  have early : ∀ kind, Monitor.filled.start kind < 2 := by
    intro kind
    simp only [Monitor.filled]
    split <;> decide
  intro t member kind children below
  -- No node below the root is a root.
  have inner : Tree.node kind children ∈ (parse source).tree.subtrees ∧
      (Tree.node kind children).kind ≠ .node .sourceFile := by
    refine Tree.subtrees_induction
      (motive := fun s => s ∈ (parse source).tree.subtrees ∧ s.kind ≠ .node .sourceFile) ?_ t ?_ _ below
    · rintro kind children ⟨above, -⟩ c inside
      exact ⟨Tree.subtrees_subset above (Tree.mem_subtrees_child inside),
        (filled_walk (early _) (walks _ _ above)).2 c inside⟩
    · rw [spelled, Tree.children] at member
      have root : Tree.node .sourceFile trees ∈ (parse source).tree.subtrees := by
        rw [spelled]
        exact Tree.mem_subtrees_self _
      exact ⟨Tree.subtrees_subset root (Tree.mem_subtrees_child member),
        (filled_walk (early _) (walks _ _ root)).2 t member⟩
  have start : Monitor.filled.start kind = 1 := if_neg fun same => inner.2 (congrArg Kind.node same)
  exact (filled_walk (early kind) (walks kind children inner.1)).1 start

theorem Token.locate_last (start : Nat) {tokens : List Token} {last : Token}
    (found : last ∈ tokens.getLast?) :
    ∃ place, (place, last) ∈ (locate start tokens).getLast? ∧ place.stop = start + widthOf tokens := by
  obtain ⟨before, rfl⟩ := List.getLast?_eq_some_iff.mp found
  refine ⟨⟨start + widthOf before, start + widthOf before + last.width⟩, ?_, ?_⟩
  · rw [locate_append]
    simp [locate]
  · rw [widthOf_append, ← Nat.add_assoc]
    rfl

theorem Token.locate_first {start : Nat} {tokens : List Token} {first : Span × Token}
    (found : first ∈ (locate start tokens).head?) : first.2 ∈ tokens.head? := by
  rw [← locate_tokens start tokens, List.head?_map]
  exact Option.mem_map_of_mem Prod.snd found

/-- The two are the first and the last leaf of the node, and its span and its text reach from the one
to the other. -/
structure Node.Reaches (n : Node) (opening closing : Span × Token) : Prop where
  first : opening ∈ n.leaves.head?
  last : closing ∈ n.leaves.getLast?
  span : n.span = ⟨opening.1.start, closing.1.stop⟩
  begins : opening.2.text <+: n.text
  ends : closing.2.text <:+ n.text

theorem Node.reaches {n : Node} {last : Token} (found : last ∈ n.focus.tokens.getLast?) :
    ∃ first place, n.Reaches first (place, last) := by
  obtain ⟨place, final, stop⟩ := Token.locate_last n.start found
  cases tokens : n.focus.tokens with
  | nil =>
    rw [tokens] at found
    cases found
  | cons first rest =>
    rw [tokens] at final
    refine ⟨(⟨n.start, n.start + first.width⟩, first), place, ?_, ?_, ?_, ?_, ?_⟩
    · rw [leaves_eq, tokens]
      rfl
    · rwa [leaves_eq, tokens]
    · rw [Node.span, Tree.width_eq, stop]
    · rw [Node.text, Tree.text, tokens, List.flatMap_cons]
      exact List.prefix_append _ _
    · obtain ⟨before, split⟩ := List.getLast?_eq_some_iff.mp found
      rw [Node.text, Tree.text, split, List.flatMap_append, List.flatMap_singleton]
      exact List.suffix_append _ _

/-- Below the root, no node but one that opens early begins with a blank or comment. If the source has
no errors, every node has a first and a last leaf, the last is no blank or comment, and the span and
the text of the node reach from the first to the last. -/
theorem nodes_reach (source : List Char) {n : Node} (below : n ∈ (parse source).root.everything)
    (inner : n.parent? ≠ none) {kind : NodeKind} (node : n.kind = .node kind) :
    (kind ≠ .deploymentSpec → ∀ first ∈ n.leaves.head?, first.2.isTrivia = false) ∧
      ((parse source).hasErrors = false →
        ∃ first ∈ n.leaves.head?, ∃ last ∈ n.leaves.getLast?, last.2.isTrivia = false ∧
          n.span = ⟨first.1.start, last.1.stop⟩ ∧ first.2.text <+: n.text ∧ last.2.text <:+ n.text) := by
  obtain ⟨child, among, inside⟩ : ∃ child ∈ (parse source).root.allChildren, n ∈ child.everything := by
    rw [Node.everything_eq] at below
    rcases List.mem_cons.mp below with rfl | lower
    · exact absurd rfl inner
    · exact List.mem_flatMap.mp lower
  have member : child.focus ∈ (parse source).tree.children := by
    have mapped := List.mem_map_of_mem (f := Node.focus) among
    rwa [Node.allChildren_focus] at mapped
  have under : n.focus.subtrees ⊆ child.focus.subtrees :=
    Tree.subtrees_subset (Node.focus_subtrees n inside)
  have cropped : n.focus.Cropped := fun other held lower =>
    parse_cropped source _ member other held (under lower)
  constructor
  · intro late first found
    obtain ⟨children, held⟩ := Tree.node_of_kind node
    have edges := (cropped kind children (held ▸ Tree.mem_subtrees_self _)).1
      (decide_eq_false late)
    rw [← Tree.tokens_node kind, ← held] at edges
    rw [Node.leaves_eq] at found
    exact edges _ (Token.locate_first found)
  · intro sound
    have filled : n.focus.Filled := fun other held lower =>
      parse_filled sound _ member other held (under lower)
    have solid : n.focus.kind.isTrivia = false := by
      rw [show n.focus.kind = .node kind from node]
      rfl
    obtain ⟨last, found, real⟩ := n.focus.last_solid cropped filled solid
    obtain ⟨first, place, reach⟩ := Node.reaches found
    exact ⟨first, reach.first, (place, last), reach.last, real, reach.span, reach.begins, reach.ends⟩

def spacedDeployment : List Char := "service A \x7b\n deployment: canary\n\x7d\n".toList

/-- The property, and below it the specification, which starts with the blank. -/
theorem spacedDeployment_nodes :
    (parse spacedDeployment).hasErrors = false ∧
      ([9, 12].map fun place => (parse spacedDeployment).root.everything[place]?.map fun n =>
        (n.parent?.isSome, n.kind, n.text, n.leaves.head?.map fun first => first.2.isTrivia)) =
      [some (true, .node .deploymentProperty, "deployment: canary".toList, some false),
        some (true, .node .deploymentSpec, " canary".toList, some true)] := by
  decide +kernel

/-- A property takes up its own tokens. -/
theorem deploymentProperty_reaches :
    ∃ n ∈ (parse spacedDeployment).root.everything, n.parent? ≠ none ∧
      n.kind = .node .deploymentProperty ∧ n.text = "deployment: canary".toList ∧
      (∀ first ∈ n.leaves.head?, first.2.isTrivia = false) ∧
      ∃ first ∈ n.leaves.head?, ∃ last ∈ n.leaves.getLast?, last.2.isTrivia = false ∧
        n.span = ⟨first.1.start, last.1.stop⟩ ∧ first.2.text <+: n.text ∧ last.2.text <:+ n.text := by
  obtain ⟨sound, found⟩ := spacedDeployment_nodes
  obtain ⟨n, place, same⟩ := Option.map_eq_some_iff.mp (List.cons.inj found).1
  simp only [Prod.mk.injEq] at same
  obtain ⟨parent, property, text, -⟩ := same
  have below := List.mem_of_getElem? place
  have inner : n.parent? ≠ none := Option.isSome_iff_ne_none.mp parent
  obtain ⟨starts, reaches⟩ := nodes_reach spacedDeployment below inner property
  exact ⟨n, below, inner, property, text, starts (by decide), reaches sound⟩

/-- The specification of a deployment opens early: the blank after the colon is its first leaf. -/
theorem deploymentSpec_blank :
    (parse spacedDeployment).hasErrors = false ∧
      ∃ n ∈ (parse spacedDeployment).root.everything, n.parent? ≠ none ∧
        n.kind = .node .deploymentSpec ∧ n.text = " canary".toList ∧
        ∃ first ∈ n.leaves.head?, first.2.isTrivia = true := by
  obtain ⟨sound, found⟩ := spacedDeployment_nodes
  obtain ⟨n, place, same⟩ :=
    Option.map_eq_some_iff.mp (List.cons.inj (List.cons.inj found).2).1
  simp only [Prod.mk.injEq] at same
  obtain ⟨parent, spec, text, first⟩ := same
  refine ⟨sound, n, List.mem_of_getElem? place, ?_, spec, text, ?_⟩
  · exact Option.isSome_iff_ne_none.mp parent
  · exact Option.map_eq_some_iff.mp first

end CraftDsl
