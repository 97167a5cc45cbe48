import CraftDsl.Proofs.Arch.Sections
import CraftDsl.Proofs.Rereading
import CraftDsl.Proofs.Subtrees

/-!
An architecture that is printed and read again is the same. Main statement: `arch_roundTrip`.
-/
namespace CraftDsl

theorem Modifier.ofTree_tree {m : Modifier} (legible : m.Legible) : Modifier.ofTree m.tree = m := by
  obtain ⟨key, value⟩ := m
  obtain ⟨⟨k, rfl, -⟩, -⟩ := legible
  have key : (Modifier.tree ⟨some k, value⟩).identifierIn? .modifierKey = some k :=
    identifierIn?_named rfl
  have value : valueOf? (Modifier.tree ⟨some k, value⟩) = value := by
    cases value with
    | none => rfl
    | some v =>
      cases v with
      | identifier word => exact congrArg (fun w => some (ModifierValue.identifier w)) (text_leaf _)
      | number digits => exact congrArg (fun w => some (ModifierValue.number w)) (text_leaf _)
      | boolean value => cases value <;> rfl
  rw [Modifier.ofTree, key, value]

theorem modifiers_found (m : Modifier) (ms : List Modifier) :
    (m.tree :: ms.flatMap fun m => [.leaf (sign ','), .leaf blank, m.tree]).filter
      (fun c => c.kind = .node .modifier) = (m :: ms).map Modifier.tree := by
  have others : (ms.flatMap fun m => [.leaf (sign ','), .leaf blank, m.tree]).filter
      (fun c => c.kind = .node .modifier) = ms.map Modifier.tree := by
    induction ms with
    | nil => rfl
    | cons m ms ih => exact congrArg (m.tree :: ·) ih
  exact congrArg (m.tree :: ·) others

theorem Component.ofTree_tree {c : Component} (legible : c.Legible) :
    Component.ofTree c.tree = c := by
  obtain ⟨name, modifiers⟩ := c
  obtain ⟨⟨n, rfl, -⟩, legible⟩ := legible
  have name : (Component.tree ⟨some n, modifiers⟩).identifierIn? .componentName = some n :=
    identifierIn?_named rfl
  have found : (((Component.tree ⟨some n, modifiers⟩).parts .componentModifiers).flatMap fun brackets =>
      (brackets.parts .modifierList).flatMap fun list => list.parts .modifier) =
      modifiers.map Modifier.tree := by
    cases modifiers with
    | nil => rfl
    | cons m ms =>
      refine Eq.trans ?_ (modifiers_found m ms)
      exact (List.append_nil _).trans (List.append_nil _)
  have read : (modifiers.map Modifier.tree).map Modifier.ofTree = modifiers := by
    rw [List.map_map]
    have each : ∀ m ∈ modifiers, Modifier.ofTree m.tree = m := fun m member =>
      Modifier.ofTree_tree (legible m member)
    exact (List.map_congr_left each).trans (List.map_id _)
  rw [Component.ofTree, name, found, read]

theorem ComponentLine.isNode_tree (l : ComponentLine) : ComponentLine.isNode l.tree.kind = true := by
  cases l <;> rfl

theorem ComponentLine.continuation_list (l : ComponentLine) (after : List Tree) :
    (l.list after).part? .archContinuation =
      some (.node .archContinuation (.leaf lineBreak :: after)) := by
  cases l <;> rfl

theorem ComponentLine.ofTree?_tree {l : ComponentLine} (legible : l.Legible) :
    ComponentLine.ofTree? l.tree = some l := by
  obtain ⟨c, cs, components, here, later⟩ := l.first legible
  have found : l.tree.parts .componentWithModifiers = (c :: cs).map Component.tree := by
    have others : (tailTrees cs).filter (fun c => c.kind = .node .componentWithModifiers) =
        cs.map Component.tree := by
      clear components later
      induction cs with
      | nil => rfl
      | cons d ds ih => exact congrArg (d.tree :: ·) ih
    rw [ComponentLine.tree, components]
    exact congrArg (c.tree :: ·) others
  have read : Component.allUnder l.tree = l.components := by
    rw [Component.allUnder, found, components, List.map_map]
    have each : ∀ d ∈ c :: cs, Component.ofTree d.tree = d :=
      List.forall_mem_cons.mpr ⟨Component.ofTree_tree here, fun d member =>
        Component.ofTree_tree (later d member)⟩
    exact (List.map_congr_left each).trans (List.map_id _)
  cases l with
  | simple components => exact congrArg (fun cs => some (ComponentLine.simple cs)) read
  | flow components => exact congrArg (fun cs => some (ComponentLine.flow cs)) read

namespace Section

theorem isNode_tree (s : Section) (after : List Tree) : Section.isNode (s.tree after).kind = true := by
  obtain ⟨kind, lines⟩ := s
  cases kind <;> rfl

theorem isNode_sections (sections : List Section) :
    ∀ t ∈ sectionTrees sections, Section.isNode t.kind = true := by
  cases sections with
  | nil => exact List.forall_mem_nil _
  | cons s sections => exact List.forall_mem_singleton.mpr (s.isNode_tree _)

/-- The lists of a section, up to the last, with the sections after it in its continuation. -/
theorem lists_found (l : ComponentLine) (lines : List ComponentLine) {after : List Tree}
    (sections : ∀ t ∈ after, Section.isNode t.kind = true) :
    ∃ lists : List Tree,
      (l.list (listTrees lines after)).chain .archContinuation [.archComponentList] = lists ∧
      lists.filterMap (Tree.child? · ComponentLine.isNode) = (l :: lines).map ComponentLine.tree ∧
      ∃ last : ComponentLine, lists.getLast? = some (last.list after) := by
  have line (l : ComponentLine) (after lists : List Tree) :
      (l.list after :: lists).filterMap (Tree.child? · ComponentLine.isNode) =
        l.tree :: lists.filterMap (Tree.child? · ComponentLine.isNode) :=
    List.filterMap_cons_some (List.find?_cons_of_pos l.isNode_tree)
  induction lines generalizing l with
  | nil =>
    -- The last list is followed by sections, if by anything, so the chain ends with it.
    have no_list : (Tree.node .archContinuation (.leaf lineBreak :: after)).part? .archComponentList =
        none := by
      refine List.find?_eq_none.mpr (List.forall_mem_cons.mpr ⟨by decide, fun t member same => ?_⟩)
      have other := sections t member
      rw [of_decide_eq_true same] at other
      cases other
    have last : (l.list after).descend? [.archContinuation, .archComponentList] = none := by
      rw [Tree.descend?, l.continuation_list, Option.bind_some, Tree.descend?, no_list, Option.bind_none]
    exact ⟨_, Tree.chain_last last, line l after [], l, rfl⟩
  | cons next lines ih =>
    obtain ⟨lists, chain, found, last, ends⟩ := ih next
    have onward : (l.list (listTrees (next :: lines) after)).descend?
        [.archContinuation, .archComponentList] = some (next.list (listTrees lines after)) := by
      rw [Tree.descend?, l.continuation_list]
      rfl
    refine ⟨_, (Tree.chain_next onward).trans (congrArg _ chain), ?_, last, ?_⟩
    · exact (line l _ lists).trans (congrArg _ found)
    · rw [List.getLast?_cons, ends]
      rfl

variable {s : Section} {after : List Tree}

theorem listNodes_tree (legible : s.Legible) (sections : ∀ t ∈ after, Section.isNode t.kind = true) :
    (listNodes (s.tree after)).filterMap (Tree.child? · ComponentLine.isNode) =
        s.lines.map ComponentLine.tree ∧
      ∃ last : ComponentLine, (listNodes (s.tree after)).getLast? = some (last.list after) := by
  obtain ⟨kind, lines⟩ := s
  obtain ⟨some_line, -⟩ := legible
  obtain ⟨l, lines, rfl⟩ := List.exists_cons_of_ne_nil some_line
  obtain ⟨lists, chain, found, ends⟩ := lists_found l lines sections
  have first : (Section.tree after ⟨kind, l :: lines⟩).part? .archComponentList =
      some (l.list (listTrees lines after)) := by
    cases kind <;> rfl
  have nodes : listNodes (Section.tree after ⟨kind, l :: lines⟩) = lists := by
    rw [listNodes, first]
    exact chain
  rw [nodes]
  exact ⟨found, ends⟩

theorem ofTree?_tree (legible : s.Legible) (sections : ∀ t ∈ after, Section.isNode t.kind = true) :
    Section.ofTree? (s.tree after) = some s := by
  have kind : kindOf? (s.tree after) = some s.kind := by
    obtain ⟨kind, lines⟩ := s
    cases kind <;> rfl
  have lines : lineNodes (s.tree after) = s.lines.map ComponentLine.tree :=
    (listNodes_tree legible sections).1
  have read : (s.lines.map ComponentLine.tree).filterMap ComponentLine.ofTree? = s.lines := by
    have each : ∀ l ∈ s.lines, ComponentLine.ofTree? l.tree = some l := fun l member =>
      ComponentLine.ofTree?_tree (legible.2.1 l member)
    rw [List.filterMap_map]
    exact (List.filterMap_congr each).trans List.filterMap_some
  rw [Section.ofTree?, kind, lines, read, Option.map_some]

theorem next?_tree (legible : s.Legible) (sections : ∀ t ∈ after, Section.isNode t.kind = true) :
    next? (s.tree after) = after.head? := by
  obtain ⟨-, last, ends⟩ := listNodes_tree legible sections
  have first : (Tree.node .archContinuation (.leaf lineBreak :: after)).child? Section.isNode =
      after.head? := by
    refine (List.find?_cons_of_neg (by decide)).trans ?_
    cases after with
    | nil => rfl
    | cons t after => exact List.find?_cons_of_pos (sections t List.mem_cons_self)
  rw [next?, ends, Option.bind_some, last.continuation_list, Option.bind_some, first]

theorem nodesFrom_tree {sections : List Section} (legible : ∀ t ∈ s :: sections, t.Legible) :
    (nodesFrom (s.tree (sectionTrees sections))).filterMap Section.ofTree? = s :: sections := by
  induction sections generalizing s with
  | nil =>
    have here := legible s List.mem_cons_self
    have none := next?_tree here (isNode_sections [])
    have read := ofTree?_tree here (isNode_sections [])
    rw [nodesFrom_last none, List.filterMap_cons_some read, List.filterMap_nil]
  | cons t sections ih =>
    obtain ⟨here, later⟩ := List.forall_mem_cons.mp legible
    have next := next?_tree here (isNode_sections (t :: sections))
    have read := ofTree?_tree here (isNode_sections (t :: sections))
    have onward : next? (s.tree (sectionTrees (t :: sections))) = some (t.tree (sectionTrees sections)) :=
      next
    rw [nodesFrom_next onward, List.filterMap_cons_some read, ih later]

end Section

theorem Arch.ofTree_tree {a : Arch} (legible : a.Legible) : Arch.ofTree a.tree = a := by
  obtain ⟨name, sections⟩ := a
  obtain ⟨-, some_section, legible⟩ := legible
  obtain ⟨s, sections, rfl⟩ := List.exists_cons_of_ne_nil some_section
  have named : (Arch.tree ⟨name, s :: sections⟩).identifier? = name := by
    cases name with
    | none => rfl
    | some n => exact word?_leaf rfl
  have first : (Arch.tree ⟨name, s :: sections⟩).child? Section.isNode =
      some (s.tree (sectionTrees sections)) := by
    have isNode := s.isNode_tree (sectionTrees sections)
    have block : (Arch.tree ⟨name, s :: sections⟩).children =
        .leaf (part Keyword.arch.word) ::
          ((name.map fun name => [.leaf blank, identifierLeaf name]).getD [] ++
            [.leaf blank, .leaf (part ['\x7b']), .leaf lineBreak]) ++
          s.tree (sectionTrees sections) :: [.leaf closing] := by
      simp [Arch.tree, Tree.children, sectionTrees]
    have none : (.leaf (part Keyword.arch.word) ::
          ((name.map fun name => [.leaf blank, identifierLeaf name]).getD [] ++
            [.leaf blank, .leaf (part ['\x7b']), .leaf lineBreak]) : List Tree).find?
          (fun c => Section.isNode c.kind) = none := by
      cases name <;> rfl
    rw [Tree.child?, block, List.find?_append, none, Option.none_or]
    exact List.find?_cons_of_pos isNode
  rw [Arch.ofTree, named, sectionNodes, first, Section.nodesFrom_tree legible]

/-- An architecture that is printed and read again is the same, and nothing is reported. -/
theorem arch_roundTrip (a : Arch) (legible : a.Legible) :
    (parse a.text).diagnostics = [] ∧ (parse a.text).items = [.arch a] := by
  have lexes := a.lexes legible
  have first : KindSet.itemFirst.has (kindIn 0 a.tokens) = true := by
    have begins : kindIn 0 a.tokens = .keyword .arch := rfl
    rw [begins]
    decide
  exact item_reread lexes.whole lexes.sound first (Production.arch_builds legible)
    (congrArg (fun a => some (Item.arch a)) (Arch.ofTree_tree legible))

/-- Keywords for names, a first line that begins like a section, and modifiers of all kinds. -/
def gateways : Arch where
  name := some "arch".toList
  sections :=
    [⟨.presentation,
      [.simple [⟨some "presentation".toList, []⟩],
        .flow [⟨some "WebApp".toList, [⟨some "ssl".toList, none⟩]⟩, ⟨some "gateways".toList, []⟩]]⟩,
      ⟨.gateway,
        [.flow
          [⟨some "gateway".toList,
            [⟨some "retries".toList, some (.number "3".toList)⟩,
              ⟨some "true".toList, some (.boolean false)⟩,
              ⟨some "kind".toList, some (.identifier "service".toList)⟩]⟩,
            ⟨some "to".toList, []⟩, ⟨some "Router".toList, []⟩]]⟩,
      ⟨.presentation, [.simple [⟨some "gateway".toList, []⟩]]⟩]

theorem gateways_roundTrip : gateways.Legible ∧ (parse gateways.text).diagnostics = [] ∧
    (parse gateways.text).items = [.arch gateways] := by
  have legible : gateways.Legible := by decide +kernel
  exact ⟨legible, arch_roundTrip gateways legible⟩

end CraftDsl
