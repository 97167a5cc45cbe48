import CraftDsl.Ast.Item
import CraftDsl.Proofs.Plan

/-!
The sections of an architecture account for all that is in it, however the source is formed: read in
order, each with its lines, they are all sections, components and flows below the block in the order of
the text. Main statement: `sections_cover`.
-/
namespace CraftDsl

open CraftDsl.Tree

namespace Arch

def isLaid (kind : Kind) : Bool := Section.isNode kind || ComponentLine.isNode kind

/-- Where sections and their lines may stand. States: 0, nothing of it may come; 1, an architecture;
2, a section; 3, a list; 4, a line or a continuation; 5, a continuation; 6, a list or a section;
7, outside of all nodes. -/
def plan : Plan where
  places kind := isLaid (.node kind) ||
    [NodeKind.sourceFile, .archBlock, .archComponentList, .archContinuation].contains kind
  start
    | .sourceFile => 1
    | .archBlock => 2
    | .presentationSection | .gatewaySection => 3
    | .archComponentList => 4
    | .archContinuation => 6
    | _ => 0
  onward
    | 1 => [(.archBlock, 1)]
    | 2 => [(.presentationSection, 0), (.gatewaySection, 0)]
    | 3 => [(.archComponentList, 0)]
    | 4 => [(.simpleComponent, 5), (.componentFlow, 5), (.archContinuation, 0)]
    | 5 => [(.archContinuation, 0)]
    | 6 => [(.archComponentList, 0), (.presentationSection, 0), (.gatewaySection, 0)]
    | 7 => [(.sourceFile, 0)]
    | _ => []
  unfinished := []
  bare kind := by cases kind <;> decide
  error := by decide

theorem sourceFile_plan :
    (Production.sourceFile.foresee plan.monitor false (.unknown ⟨none, 7⟩)).isSome = true := by
  decide +kernel

def heads : NodeKind → Option Keyword
  | .presentationSection => some .presentation
  | .gatewaySection => some .gateway
  | _ => none

theorem sourceFile_heads :
    (Production.sourceFile.foresee (headed heads) false (.unknown ⟨none, 0⟩)).isSome = true := by
  decide +kernel

def layer (s : Tree) : List Tree := s :: Section.lineNodes s

/-- All sections, components and flows below, in the order of the text. -/
def laid (t : Tree) : List Tree := t.listed isLaid

section

variable {ts : List Tree} {after : Nat}

/-- A list holds one line at most, and then a continuation at most. -/
theorem leads_list (leads : plan.Leads 4 ts after) :
    ∃ (line : Option Tree) (rest : List Tree), ts = line.toList ++ rest ∧
      (∀ l ∈ line, ComponentLine.isNode l.kind = true) ∧
      (rest = [] ∨ ∃ inner, rest = [node .archContinuation inner]) := by
  cases leads with
  | nil => exact ⟨none, [], rfl, by simp, .inl rfl⟩
  | @cons _ middle _ kind t rest move same leads =>
    have following (there : middle = 5) :
        rest = [] ∨ ∃ inner, rest = [node .archContinuation inner] := by
      subst there
      simpa [plan] using Plan.leads_last (by decide) leads
    simp only [plan, List.mem_cons, List.not_mem_nil, or_false, Prod.mk.injEq] at move
    rcases move with ⟨rfl, there⟩ | ⟨rfl, there⟩ | ⟨rfl, rfl⟩
    · exact ⟨some t, rest, rfl, by simp [same, ComponentLine.isNode], following there⟩
    · exact ⟨some t, rest, rfl, by simp [same, ComponentLine.isNode], following there⟩
    · obtain ⟨inner, rfl⟩ := node_of_kind same
      exact ⟨none, _, rfl, by simp, .inr ⟨inner, by rw [Plan.leads_none rfl leads]⟩⟩

theorem leads_onward (leads : plan.Leads 6 ts after) :
    ts = [] ∨ (∃ inner, ts = [node .archComponentList inner]) ∨
      ∃ kind inner, ts = [node kind inner] ∧ Section.isNode (.node kind) = true := by
  rcases Plan.leads_last (by decide) leads with none | ⟨move, among, inner, one⟩
  · exact .inl none
  · simp only [plan, List.mem_cons, List.not_mem_nil, or_false] at among
    rcases among with rfl | rfl | rfl
    · exact .inr (.inl ⟨inner, one⟩)
    · exact .inr (.inr ⟨_, inner, one, rfl⟩)
    · exact .inr (.inr ⟨_, inner, one, rfl⟩)

end

theorem has_of_laid {kind : Kind} (laid : isLaid kind = true) : plan.has kind = true := by
  cases kind with
  | token kind => cases laid
  | node kind => simp [Plan.has, plan, laid]

theorem laid_of_line {kind : Kind} (line : ComponentLine.isNode kind = true) : isLaid kind = true := by
  simp [isLaid, line]

theorem laid_of_section {kind : Kind} (here : Section.isNode kind = true) : isLaid kind = true := by
  simp [isLaid, here]

section

variable {children : List Tree}

theorem laid_node {kind : NodeKind} (kept : plan.Kept (node kind children))
    (placed : plan.places kind = true) :
    laid (node kind children) = (if isLaid (.node kind) then [node kind children] else []) ++
      (plan.parts children).flatMap laid :=
  kept.listed_node placed fun _ => has_of_laid

theorem laid_line {l : Tree} (kept : plan.Kept l) (line : ComponentLine.isNode l.kind = true) :
    laid l = [l] := by
  have bare : ∀ kind, ComponentLine.isNode (.node kind) = true →
      plan.places kind = true ∧ plan.start kind = 0 := by
    intro kind
    cases kind <;> decide
  cases l with
  | leaf token => cases line
  | node kind inner =>
    obtain ⟨placed, start⟩ := bare kind line
    obtain ⟨after, leads, -⟩ := kept.leads
    rw [start] at leads
    have here : isLaid (.node kind) = true := laid_of_line line
    simp [laid_node kept placed, Plan.leads_none rfl leads, here]

end

/-- The lines of a list and of those that hang off it. -/
def lines (l : Tree) : List Tree :=
  (l.chain .archContinuation [.archComponentList]).filterMap (Tree.child? · ComponentLine.isNode)

def sectionIn? (l : Tree) : Option Tree :=
  (l.part? .archContinuation).bind fun continuation => continuation.child? Section.isNode

def following? (l : Tree) : Option Tree :=
  (l.chain .archContinuation [.archComponentList]).getLast?.bind sectionIn?

section

variable {l next : Tree}

theorem lines_last (last : l.descend? [.archContinuation, .archComponentList] = none) :
    lines l = (l.child? ComponentLine.isNode).toList ∧ following? l = sectionIn? l := by
  rw [lines, following?, chain_last last]
  cases found : l.child? ComponentLine.isNode <;> simp [found]

theorem lines_next (found : l.descend? [.archContinuation, .archComponentList] = some next) :
    lines l = (l.child? ComponentLine.isNode).toList ++ lines next ∧
      following? l = following? next := by
  have some_list : next.chain .archContinuation [.archComponentList] ≠ [] := by
    rw [chain]
    split <;> simp
  rw [lines, following?, chain_next found]
  constructor
  · cases line : l.child? ComponentLine.isNode <;> simp [line, lines]
  · rw [following?, List.getLast?_cons_of_ne_nil some_list]

end

theorem lineNodes_eq (s : Tree) :
    Section.lineNodes s = ((s.part? .archComponentList).map lines).getD [] := by
  rw [Section.lineNodes, Section.listNodes]
  cases s.part? .archComponentList <;> rfl

theorem next?_eq (s : Tree) : Section.next? s = (s.part? .archComponentList).bind following? := by
  rw [Section.next?, Section.listNodes]
  cases s.part? .archComponentList <;> rfl

/-- What a list holds: its line and its continuation, of which neither need be there. -/
theorem list_parts {children : List Tree} (kept : plan.Kept (node .archComponentList children)) :
    ∃ (line : Option Tree) (rest : List Tree), plan.parts children = line.toList ++ rest ∧
      (rest = [] ∨ ∃ inner, rest = [node .archContinuation inner]) ∧
      (node .archComponentList children).child? ComponentLine.isNode = line ∧
      (node .archComponentList children).part? .archContinuation = rest.head? ∧
      laid (node .archComponentList children) = line.toList ++ rest.flatMap laid := by
  obtain ⟨after, leads, -⟩ := kept.leads
  obtain ⟨line, rest, parts, isLine, onward⟩ := leads_list leads
  refine ⟨line, rest, parts, onward, ?_, ?_, ?_⟩
  · rw [Plan.child?_parts fun _ line => has_of_laid (laid_of_line line), parts]
    cases line with
    | none => rcases onward with rfl | ⟨inner, rfl⟩ <;> simp [Tree.kind, ComponentLine.isNode]
    | some l => simp [isLine l rfl]
  · have placed : plan.places .archContinuation = true := by decide
    have other : ∀ l ∈ line, l.kind ≠ .node .archContinuation := by
      intro l found same
      have line := isLine l found
      rw [same] at line
      cases line
    rw [Plan.part?_parts placed, parts]
    cases line <;> rcases onward with rfl | ⟨inner, rfl⟩ <;> simp_all [Tree.kind]
  · rw [laid_node kept (by decide), parts]
    cases line with
    | none => simp [isLaid, Section.isNode, ComponentLine.isNode]
    | some l =>
      have part : l ∈ plan.parts children := by simp [parts]
      have alone := laid_line (kept.child (Plan.mem_parts part)) (isLine l rfl)
      simp [alone, isLaid, Section.isNode, ComponentLine.isNode]

/-- What hangs off a list is found among the parts of its continuation. -/
theorem list_onward {children inner : List Tree}
    (continuation? : (node .archComponentList children).part? .archContinuation =
      some (node .archContinuation inner)) :
    ((node .archComponentList children).descend? [.archContinuation, .archComponentList] =
        (plan.parts inner).find? fun c => c.kind = .node .archComponentList) ∧
      sectionIn? (node .archComponentList children) =
        (plan.parts inner).find? fun c => Section.isNode c.kind := by
  have list? : (node .archContinuation inner).part? .archComponentList =
      (plan.parts inner).find? fun c => c.kind = .node .archComponentList :=
    Plan.part?_parts (by decide)
  have section? : (node .archContinuation inner).child? Section.isNode =
      (plan.parts inner).find? fun c => Section.isNode c.kind :=
    Plan.child?_parts fun _ here => has_of_laid (laid_of_section here)
  exact ⟨by simp [Tree.descend?, continuation?, list?], by simp [sectionIn?, continuation?, section?]⟩

mutual

theorem laid_section (kind : NodeKind) (children : List Tree) (kept : plan.Kept (node kind children))
    (here : Section.isNode (.node kind) = true) :
    laid (node kind children) = (Section.nodesFrom (node kind children)).flatMap layer := by
  have opens : plan.places kind = true ∧ plan.start kind = 3 := by
    revert here
    cases kind <;> decide
  obtain ⟨placed, start⟩ := opens
  have list? : (node kind children).part? .archComponentList =
      (plan.parts children).find? fun c => c.kind = .node .archComponentList :=
    Plan.part?_parts (by decide)
  obtain ⟨after, leads, -⟩ := kept.leads
  rw [start] at leads
  rw [laid_node kept placed, if_pos (laid_of_section here)]
  rcases Plan.leads_last (by decide) leads with none | ⟨move, among, inner, one⟩
  · have last : Section.next? (node kind children) = .none := by simp [next?_eq, list?, none]
    simp [Section.nodesFrom_last last, none, layer, lineNodes_eq, list?]
  · obtain rfl : move = (.archComponentList, 0) := by simpa [plan] using among
    have part : node .archComponentList inner ∈ plan.parts children := by simp [one]
    have smaller := Plan.parts_smaller part
    have inside := laid_list inner (kept.child (Plan.mem_parts part))
    have found : (node kind children).part? .archComponentList =
        some (node .archComponentList inner) := by simp [list?, one, Tree.kind]
    have lines : Section.lineNodes (node kind children) = lines (node .archComponentList inner) := by
      simp [lineNodes_eq, found]
    have next : Section.next? (node kind children) =
        following? (node .archComponentList inner) := by simp [next?_eq, found]
    rw [one, List.flatMap_singleton, inside]
    cases following : following? (node .archComponentList inner) with
    | none => simp [Section.nodesFrom_last (next.trans following), layer, lines]
    | some s => simp [Section.nodesFrom_next (next.trans following), layer, lines]
termination_by sizeOf children

theorem laid_list (children : List Tree) (kept : plan.Kept (node .archComponentList children)) :
    laid (node .archComponentList children) = lines (node .archComponentList children) ++
      ((following? (node .archComponentList children)).map fun s =>
        (Section.nodesFrom s).flatMap layer).getD [] := by
  obtain ⟨line, rest, parts, onward, line?, continuation?, below⟩ := list_parts kept
  rcases onward with rfl | ⟨inner, rfl⟩
  · have last : (node .archComponentList children).descend?
        [.archContinuation, .archComponentList] = none := by simp [Tree.descend?, continuation?]
    obtain ⟨lines, following⟩ := lines_last last
    simp [below, lines, following, sectionIn?, continuation?, line?]
  have part : node .archContinuation inner ∈ plan.parts children := by simp [parts]
  have smaller := Plan.parts_smaller part
  have inner_kept := kept.child (Plan.mem_parts part)
  have inner_below : laid (node .archContinuation inner) = (plan.parts inner).flatMap laid :=
    laid_node inner_kept (by decide)
  obtain ⟨list?, section?⟩ := list_onward continuation?
  obtain ⟨after, leads, -⟩ := inner_kept.leads
  rcases leads_onward leads with none | ⟨held, one⟩ | ⟨kind, held, one, here⟩
  · obtain ⟨lines, following⟩ := lines_last (by rw [list?, none]; rfl)
    simp [below, inner_below, lines, following, section?, line?, none]
  · have held_part : node .archComponentList held ∈ plan.parts inner := by simp [one]
    have held_smaller := Plan.parts_smaller held_part
    have inside := laid_list held (inner_kept.child (Plan.mem_parts held_part))
    have found : (node .archComponentList children).descend?
        [.archContinuation, .archComponentList] = some (node .archComponentList held) := by
      simp [list?, one, Tree.kind]
    obtain ⟨lines, following⟩ := lines_next found
    simp [below, inner_below, one, inside, lines, following, line?]
  · have held_part : node kind held ∈ plan.parts inner := by simp [one]
    have held_smaller := Plan.parts_smaller held_part
    have inside := laid_section kind held (inner_kept.child (Plan.mem_parts held_part)) here
    have no_list : kind ≠ .archComponentList := by
      rintro rfl
      cases here
    have last : (node .archComponentList children).descend?
        [.archContinuation, .archComponentList] = none := by
      simp [list?, one, Tree.kind, no_list]
    have found : sectionIn? (node .archComponentList children) = some (node kind held) := by
      simp [section?, one, Tree.kind, here]
    obtain ⟨lines, following⟩ := lines_last last
    simp [below, inner_below, one, inside, lines, following, found, line?]
termination_by sizeOf children

end

theorem laid_block {children : List Tree} (kept : plan.Kept (node .archBlock children)) :
    laid (node .archBlock children) = (sectionNodes (node .archBlock children)).flatMap layer := by
  have section? : (node .archBlock children).child? Section.isNode =
      (plan.parts children).find? fun c => Section.isNode c.kind :=
    Plan.child?_parts fun _ here => has_of_laid (laid_of_section here)
  have below : laid (node .archBlock children) = (plan.parts children).flatMap laid :=
    laid_node kept (by decide)
  obtain ⟨after, leads, -⟩ := kept.leads
  rcases Plan.leads_last (by decide) leads with none | ⟨⟨kind, middle⟩, among, inner, one⟩
  · simp [below, sectionNodes, section?, none]
  · have here : Section.isNode (.node kind) = true := by
      simp only [plan, List.mem_cons, List.not_mem_nil, or_false, Prod.mk.injEq] at among
      rcases among with ⟨rfl, -⟩ | ⟨rfl, -⟩ <;> rfl
    have part : node kind inner ∈ plan.parts children := by simp [one]
    have inside := laid_section kind inner (kept.child (Plan.mem_parts part)) here
    simp [below, sectionNodes, section?, one, Tree.kind, here, inside]

theorem nodesFrom_sections {t : Tree} (here : Section.isNode t.kind = true) :
    ∀ s ∈ Section.nodesFrom t, Section.isNode s.kind = true := by
  induction t using Section.nodesFrom.induct with
  | case1 t last => simpa [Section.nodesFrom_last last] using here
  | case2 t next found _ ih =>
    have passed : Section.isNode next.kind = true := by
      simp only [Section.next?, Option.bind_eq_some_iff] at found
      obtain ⟨_, -, _, -, found⟩ := found
      exact child?_passes found
    simpa [Section.nodesFrom_next found, here] using ih passed

theorem sectionNodes_sections (t : Tree) : ∀ s ∈ sectionNodes t, Section.isNode s.kind = true := by
  rw [sectionNodes]
  cases found : t.child? Section.isNode with
  | none => simp
  | some first => exact nodesFrom_sections (child?_passes found)

theorem lineNodes_lines (s : Tree) : ∀ l ∈ Section.lineNodes s, ComponentLine.isNode l.kind = true := by
  intro l member
  obtain ⟨list, -, found⟩ := List.mem_filterMap.mp member
  exact child?_passes found

theorem section_no_line {kind : Kind} (here : Section.isNode kind = true) :
    ComponentLine.isNode kind = false := by
  simp only [Section.isNode, Bool.or_eq_true, decide_eq_true_eq] at here
  rcases here with rfl | rfl <;> rfl

theorem layer_sections {s : Tree} (here : Section.isNode s.kind = true) :
    (layer s).filter (fun t => Section.isNode t.kind) = [s] := by
  have lines : (Section.lineNodes s).filter (fun t => Section.isNode t.kind) = [] := by
    refine List.filter_eq_nil_iff.mpr fun l member head => ?_
    have line := lineNodes_lines s l member
    rw [section_no_line head] at line
    cases line
  simp [layer, here, lines]

theorem layer_lines {s : Tree} (here : Section.isNode s.kind = true) :
    (layer s).filter (fun t => ComponentLine.isNode t.kind) = Section.lineNodes s := by
  simpa [layer, section_no_line here] using lineNodes_lines s

theorem listed_laid {passes : Kind → Bool} (among : ∀ kind, passes kind = true → isLaid kind = true)
    (t : Tree) : (laid t).filter (fun s => passes s.kind) = t.listed passes := by
  simp only [laid, Tree.listed, List.filter_filter]
  refine List.filter_congr fun s _ => ?_
  by_cases passed : passes s.kind = true
  · simp [passed, among _ passed]
  · simp [passed]

theorem lines_read {sections : List Tree} (here : ∀ s ∈ sections, Section.isNode s.kind = true) :
    (sections.filterMap Section.ofTree?).flatMap Section.lines =
      (sections.flatMap Section.lineNodes).filterMap ComponentLine.ofTree? := by
  induction sections with
  | nil => rfl
  | cons s sections ih =>
    obtain ⟨first, later⟩ := List.forall_mem_cons.mp here
    obtain ⟨kind, found⟩ : ∃ kind, Section.kindOf? s = some kind := by
      simp only [Section.isNode, Bool.or_eq_true, decide_eq_true_eq] at first
      rcases first with same | same <;> simp [Section.kindOf?, same]
    simp [Section.ofTree?, found, ih later]

/-- The sections of an architecture are all those below it, and their lines all components and flows
below it, in the order of the text, each after the section that it belongs to and before the next. A
section begins with its keyword. -/
theorem sections_cover (source : List Char) {block : Tree}
    (inside : block ∈ (parse source).tree.subtrees) (arch : block.kind = .node .archBlock) :
    (Arch.ofTree block).sections = (block.listed Section.isNode).filterMap Section.ofTree? ∧
      (Arch.ofTree block).sections.flatMap Section.lines =
        (block.listed ComponentLine.isNode).filterMap ComponentLine.ofTree? ∧
      sectionNodes block = block.listed Section.isNode ∧
      (sectionNodes block).flatMap Section.lineNodes = block.listed ComponentLine.isNode ∧
      (sectionNodes block).flatMap layer = laid block ∧
      ∀ s ∈ sectionNodes block, ∃ kind word, s.kind = .node kind ∧ heads kind = some word ∧
        s.heading? = some (.token (.keyword word)) := by
  have kept := (Plan.parse_planned sourceFile_plan source).below inside
  obtain ⟨children, rfl⟩ := node_of_kind arch
  have cover := laid_block kept
  have heads_of := sectionNodes_sections (node .archBlock children)
  have sections : sectionNodes (node .archBlock children) =
      (node .archBlock children).listed Section.isNode := by
    rw [← listed_laid (fun _ => laid_of_section), cover, List.filter_flatMap,
      List.flatMap_congr fun s member => layer_sections (heads_of s member)]
    exact (List.flatMap_singleton' _).symm
  have lines : (sectionNodes (node .archBlock children)).flatMap Section.lineNodes =
      (node .archBlock children).listed ComponentLine.isNode := by
    rw [← listed_laid (fun _ => laid_of_line), cover, List.filter_flatMap]
    exact List.flatMap_congr fun s member => (layer_lines (heads_of s member)).symm
  refine ⟨by rw [← sections]; rfl, ?_, sections, lines, cover.symm, fun s member => ?_⟩
  · rw [← lines]
    exact lines_read heads_of
  · have below : s ∈ (node .archBlock children).subtrees := by
      rw [sections] at member
      exact (List.mem_filter.mp member).1
    have here := heads_of s member
    simp only [Section.isNode, Bool.or_eq_true, decide_eq_true_eq] at here
    rcases here with same | same
    all_goals
      obtain ⟨inner, rfl⟩ := node_of_kind same
      exact ⟨_, _, same, rfl,
        parse_headed sourceFile_heads (subtrees_subset inside below) rfl NodeKind.noConfusion⟩

/-- A flow that breaks off, a value that is missing, a head without its colon, and no closing brace. -/
def brokenLayers : List Char :=
  "arch a \x7b\n presentation:\n A >\n\n B [x: ] > C\n gateway\n D\n presentation: gateway, x".toList

theorem brokenLayers_covered :
    ∃ block ∈ (parse brokenLayers).tree.subtrees, block.kind = .node .archBlock ∧
      (sectionNodes block).map (fun s => (Section.lineNodes s).map Tree.kind) =
        [[.node .componentFlow, .node .componentFlow], [.node .simpleComponent],
          [.node .simpleComponent]] ∧
      (sectionNodes block).flatMap layer = laid block := by
  have found : (parse brokenLayers).tree.subtrees[1]?.map (fun block => (block.kind,
      (sectionNodes block).map fun s => (Section.lineNodes s).map Tree.kind)) =
      some (.node .archBlock, [[.node .componentFlow, .node .componentFlow],
        [.node .simpleComponent], [.node .simpleComponent]]) := by
    decide +kernel
  obtain ⟨block, place, same⟩ := Option.map_eq_some_iff.mp found
  obtain ⟨kind, lines⟩ := Prod.mk.inj same
  have inside := List.mem_of_getElem? place
  exact ⟨block, inside, kind, lines, (sections_cover brokenLayers inside kind).2.2.2.2.1⟩

end Arch

end CraftDsl
