import CraftDsl.Ast.Item
import CraftDsl.Proofs.Plan

/-!
The scenarios of a use case account for all that is in it, however the source is formed: read in order,
each with its clause and then its actions, they are all scenarios, clauses and actions below the block
in the order of the text. Main statement: `scenarios_cover`.
-/
namespace CraftDsl

open CraftDsl.Tree

namespace UseCase

def actionKinds : List NodeKind := [.syncAction, .asyncAction, .internalAction, .returnAction]

def isTold (kind : Kind) : Bool :=
  kind = .node .scenario || kind = .node .whenClause || Action.isNode kind

/-- Where scenarios and what is in them may stand. States: 0, nothing of it may come; 1, a use case;
2, a scenario; 3, a clause, without which no scenario ends; 4, a continuation; 5, a scenario or an
action; 6, actions; 7, outside of all nodes. -/
def plan : Plan where
  places kind := isTold (.node kind) ||
    [NodeKind.sourceFile, .useCaseBlock, .scenarioContinuation].contains kind
  start
    | .sourceFile => 1
    | .useCaseBlock => 2
    | .scenario => 3
    | .scenarioContinuation => 5
    | .whenClause => 6
    | _ => 0
  onward
    | 1 => [(.useCaseBlock, 1)]
    | 2 => [(.scenario, 0)]
    | 3 => [(.whenClause, 4)]
    | 4 => [(.scenarioContinuation, 0)]
    | 5 => (.scenario, 0) :: actionKinds.map fun action => (action, 4)
    | 6 => actionKinds.map fun action => (action, 6)
    | 7 => [(.sourceFile, 0)]
    | _ => []
  unfinished := [3]
  bare kind := by cases kind <;> decide
  error := by decide

theorem sourceFile_plan :
    (Production.sourceFile.foresee plan.monitor false (.unknown ⟨none, 7⟩)).isSome = true := by
  decide +kernel

/-- A scenario, its clause, and its actions. -/
def tale (s : Tree) : List Tree := s :: (Scenario.whenClause? s).toList ++ Scenario.actionNodes s

/-- All scenarios, clauses and actions below, in the order of the text. -/
def told (t : Tree) : List Tree := t.subtrees.filter fun s => isTold s.kind

section

variable {ts : List Tree} {after : Nat}

theorem leads_last {s : Nat} {kind : NodeKind} (only : plan.onward s = [(kind, 0)])
    (leads : plan.Leads s ts after) : ts = [] ∨ ∃ inner, ts = [node kind inner] := by
  have last : ∀ move ∈ plan.onward s, plan.onward move.2 = [] := by
    rw [only]
    exact List.forall_mem_singleton.mpr rfl
  simpa [only] using Plan.leads_last last leads

theorem leads_clause (leads : plan.Leads 3 ts after) (finished : after ∉ plan.unfinished) :
    ∃ inner rest, ts = node .whenClause inner :: rest ∧
      (rest = [] ∨ ∃ next, rest = [node .scenarioContinuation next]) := by
  cases leads with
  | nil => exact absurd List.mem_cons_self finished
  | cons move same rest =>
    cases List.mem_singleton.mp move
    obtain ⟨inner, rfl⟩ := node_of_kind same
    exact ⟨inner, _, rfl, leads_last rfl rest⟩

theorem action_listed {t : Tree} {kind : NodeKind} (same : t.kind = .node kind)
    (listed : kind ∈ actionKinds) : Action.isNode t.kind = true :=
  List.any_eq_true.mpr ⟨kind, listed, decide_eq_true same⟩

theorem leads_onward (leads : plan.Leads 5 ts after) :
    ts = [] ∨ (∃ inner, ts = [node .scenario inner]) ∨
      ∃ a rest, ts = a :: rest ∧ Action.isNode a.kind = true ∧
        (rest = [] ∨ ∃ next, rest = [node .scenarioContinuation next]) := by
  cases leads with
  | nil => exact .inl rfl
  | cons move same rest =>
    right
    rcases List.mem_cons.mp move with scenario | acting
    · cases scenario
      obtain ⟨inner, rfl⟩ := node_of_kind same
      rw [Plan.leads_none rfl rest]
      exact .inl ⟨inner, rfl⟩
    · obtain ⟨action, listed, here⟩ := List.mem_map.mp acting
      cases here
      exact .inr ⟨_, _, rfl, action_listed same listed, leads_last rfl rest⟩

theorem leads_actions (leads : plan.Leads 6 ts after) : ∀ t ∈ ts, Action.isNode t.kind = true := by
  generalize state : 6 = s at leads
  induction leads with
  | nil => exact List.forall_mem_nil _
  | cons move same rest ih =>
    subst state
    obtain ⟨action, listed, here⟩ := List.mem_map.mp move
    cases here
    exact List.forall_mem_cons.mpr ⟨action_listed same listed, ih rfl⟩

end

section

variable {children : List Tree}

theorem has_of_told {kind : Kind} (told : isTold kind = true) : plan.has kind = true := by
  cases kind with
  | token kind => cases told
  | node kind =>
    show (isTold (.node kind) || _) = true
    rw [told]
    rfl

theorem told_of_action {kind : Kind} (action : Action.isNode kind = true) : isTold kind = true := by
  rw [isTold, action, Bool.or_true]

theorem told_node {kind : NodeKind} (kept : plan.Kept (node kind children))
    (placed : plan.places kind = true) :
    told (node kind children) = (if isTold (.node kind) then [node kind children] else []) ++
      (plan.parts children).flatMap told :=
  kept.listed_node placed fun _ => has_of_told

theorem action_bare : ∀ kind ∈ actionKinds, plan.places kind = true ∧ plan.start kind = 0 := by
  decide

theorem told_action {a : Tree} (kept : plan.Kept a) (action : Action.isNode a.kind = true) :
    told a = [a] := by
  obtain ⟨kind, listed, same⟩ := List.any_eq_true.mp action
  obtain ⟨inner, rfl⟩ := node_of_kind (of_decide_eq_true same)
  obtain ⟨placed, start⟩ := action_bare kind listed
  obtain ⟨after, leads, -⟩ := kept.leads
  rw [start] at leads
  have here : isTold (.node kind) = true := told_of_action action
  rw [told_node kept placed, Plan.leads_none rfl leads, if_pos here]
  rfl

theorem clauseActionNodes_parts (kept : plan.Kept (node .whenClause children)) :
    Scenario.clauseActionNodes (node .whenClause children) = plan.parts children := by
  obtain ⟨after, leads, -⟩ := kept.leads
  have actions := List.filter_eq_self.mpr (leads_actions leads)
  rw [← actions, Plan.parts, List.filter_filter]
  refine List.filter_congr fun c _ => ?_
  cases action : Action.isNode c.kind with
  | false => rfl
  | true => rw [has_of_told (told_of_action action)]; rfl

theorem told_clause (kept : plan.Kept (node .whenClause children)) :
    told (node .whenClause children) =
      node .whenClause children :: Scenario.clauseActionNodes (node .whenClause children) := by
  obtain ⟨after, leads, -⟩ := kept.leads
  have single : (plan.parts children).flatMap told = plan.parts children := by
    have each : ∀ a ∈ plan.parts children, told a = [a] := fun a part =>
      told_action (kept.child (Plan.mem_parts part)) (leads_actions leads a part)
    rw [List.flatMap_congr each]
    exact List.flatMap_singleton' _
  rw [told_node kept (by decide), single, clauseActionNodes_parts kept]
  rfl

def later (c : Tree) : List Tree := (c.chain .scenarioContinuation []).filterMap Scenario.actionNode?

theorem later_last {c : Tree} (last : c.part? .scenarioContinuation = none) :
    later c = (Scenario.actionNode? c).toList := by
  have none : c.descend? [.scenarioContinuation] = none := by
    rw [Tree.descend?, last, Option.bind_none]
  rw [later, chain_last none]
  cases found : Scenario.actionNode? c <;> simp [found]

theorem later_next {c next : Tree} (found : c.part? .scenarioContinuation = some next) :
    later c = (Scenario.actionNode? c).toList ++ later next := by
  have one : c.descend? [.scenarioContinuation] = some next := by
    rw [Tree.descend?, found]
    rfl
  rw [later, chain_next one, List.filterMap_cons, later]
  cases Scenario.actionNode? c <;> rfl

theorem scenarios_told (t : Tree) :
    scenarioNodes t = (told t).filter fun s => s.kind = .node .scenario := by
  rw [scenarioNodes, told, List.filter_filter]
  refine List.filter_congr fun s _ => ?_
  by_cases scenario : s.kind = .node .scenario
  · rw [scenario]
    rfl
  · rw [decide_eq_false scenario]
    rfl

theorem scenarios_parts {kind : NodeKind} (kept : plan.Kept (node kind children))
    (placed : plan.places kind = true) :
    scenarioNodes (node kind children) =
      (if kind = .scenario then [node kind children] else []) ++
        (plan.parts children).flatMap scenarioNodes := by
  have among : ∀ k : Kind, decide (k = .node .scenario) = true → plan.has k = true := by
    intro k same
    rw [of_decide_eq_true same]
    rfl
  have parts := kept.listed_node placed among
  simp only [decide_eq_true_eq, Kind.node.injEq] at parts
  exact parts

theorem action_scenarios {a : Tree} (kept : plan.Kept a)
    (action : Action.isNode a.kind = true) : scenarioNodes a = [] := by
  rw [scenarios_told, told_action kept action]
  refine List.filter_eq_nil_iff.mpr (List.forall_mem_singleton.mpr fun scenario => ?_)
  rw [of_decide_eq_true scenario] at action
  cases action

theorem clause_scenarios (kept : plan.Kept (node .whenClause children)) :
    scenarioNodes (node .whenClause children) = [] := by
  obtain ⟨after, leads, -⟩ := kept.leads
  rw [scenarios_parts kept (by decide), if_neg NodeKind.noConfusion, List.nil_append]
  refine List.flatMap_eq_nil_iff.mpr fun a part => ?_
  exact action_scenarios (kept.child (Plan.mem_parts part)) (leads_actions leads a part)

theorem actionNode?_parts {kind : NodeKind} :
    Scenario.actionNode? (node kind children) =
      (plan.parts children).find? fun c => Action.isNode c.kind :=
  Plan.child?_parts fun _ action => has_of_told (told_of_action action)

end

section

variable {children rest : List Tree}

theorem tale_scenario {clause : List Tree} (kept : plan.Kept (node .scenario children))
    (parts : plan.parts children = node .whenClause clause :: rest) :
    tale (node .scenario children) = node .scenario children :: (told (node .whenClause clause) ++
      (Scenario.continuations (node .scenario children)).filterMap Scenario.actionNode?) := by
  have clause_part : node .whenClause clause ∈ plan.parts children := by
    rw [parts]
    exact List.mem_cons_self
  have found : Scenario.whenClause? (node .scenario children) = some (node .whenClause clause) := by
    rw [Scenario.whenClause?, Plan.part?_parts (P := plan) (by decide), parts]
    rfl
  rw [told_clause (kept.child (Plan.mem_parts clause_part)), tale, found, Scenario.actionNodes, found]
  simp

end

mutual

theorem told_scenario (children : List Tree) (kept : plan.Kept (node .scenario children)) :
    told (node .scenario children) = (scenarioNodes (node .scenario children)).flatMap tale := by
  obtain ⟨after, leads, finished⟩ := kept.leads
  obtain ⟨clause, rest, parts, following⟩ := leads_clause leads finished
  have clause_kept : plan.Kept (node .whenClause clause) :=
    kept.child (Plan.mem_parts (by rw [parts]; exact List.mem_cons_self))
  have split : told (node .scenario children) =
      node .scenario children :: (told (node .whenClause clause) ++ rest.flatMap told) := by
    rw [told_node kept (by decide), parts]
    rfl
  have scenarios : scenarioNodes (node .scenario children) =
      node .scenario children :: rest.flatMap scenarioNodes := by
    rw [scenarios_parts kept (by decide), parts, List.flatMap_cons,
      clause_scenarios clause_kept]
    rfl
  have continuation : Scenario.continuation? (node .scenario children) =
      rest.find? fun c => c.kind = .node .scenarioContinuation := by
    rw [Scenario.continuation?, Plan.part?_parts (P := plan) (by decide), parts]
    rfl
  rw [split, scenarios, List.flatMap_cons, tale_scenario kept parts, Scenario.continuations,
    continuation]
  rcases following with rfl | ⟨next, rfl⟩
  · simp
  · have part : node .scenarioContinuation next ∈ plan.parts children := by
      rw [parts]
      exact List.mem_cons_of_mem _ List.mem_cons_self
    have smaller := Plan.parts_smaller part
    have onward := told_continuation next (kept.child (Plan.mem_parts part))
    rw [List.flatMap_singleton, onward, List.flatMap_singleton]
    simp [later, Tree.kind]
termination_by sizeOf children

theorem told_continuation (children : List Tree)
    (kept : plan.Kept (node .scenarioContinuation children)) :
    told (node .scenarioContinuation children) = later (node .scenarioContinuation children) ++
      (scenarioNodes (node .scenarioContinuation children)).flatMap tale := by
  have below : told (node .scenarioContinuation children) =
      (plan.parts children).flatMap told := told_node kept (by decide)
  have scenarios : scenarioNodes (node .scenarioContinuation children) =
      (plan.parts children).flatMap scenarioNodes := scenarios_parts kept (by decide)
  have next : (node .scenarioContinuation children).part? .scenarioContinuation =
      (plan.parts children).find? fun c => c.kind = .node .scenarioContinuation :=
    Plan.part?_parts (by decide)
  have first : Scenario.actionNode? (node .scenarioContinuation children) =
      (plan.parts children).find? fun c => Action.isNode c.kind := actionNode?_parts
  obtain ⟨after, leads, -⟩ := kept.leads
  rcases leads_onward leads with none | ⟨inner, one⟩ | ⟨a, rest, split, action, following⟩
  · rw [none] at below scenarios next first
    rw [below, scenarios, later_last next, first]
    rfl
  · have part : node .scenario inner ∈ plan.parts children := by
      rw [one]
      exact List.mem_cons_self
    have smaller := Plan.parts_smaller part
    have onward := told_scenario inner (kept.child (Plan.mem_parts part))
    rw [one] at below scenarios next first
    rw [below, scenarios, later_last next, first, List.flatMap_singleton, List.flatMap_singleton,
      onward]
    rfl
  · have part : a ∈ plan.parts children := by
      rw [split]
      exact List.mem_cons_self
    have action_kept := kept.child (Plan.mem_parts part)
    rw [split, List.flatMap_cons] at below scenarios
    have found : Scenario.actionNode? (node .scenarioContinuation children) = some a := by
      rw [first, split]
      exact List.find?_cons_of_pos action
    have other : ¬ decide (a.kind = .node .scenarioContinuation) = true := by
      intro same
      rw [of_decide_eq_true same] at action
      cases action
    have onward : (node .scenarioContinuation children).part? .scenarioContinuation =
        rest.find? fun c => c.kind = .node .scenarioContinuation := by
      rw [next, split]
      exact List.find?_cons_of_neg other
    rw [below, scenarios, told_action action_kept action, action_scenarios action_kept action]
    rcases following with rfl | ⟨inner, rfl⟩
    · rw [later_last onward, found]
      rfl
    · have part : node .scenarioContinuation inner ∈ plan.parts children := by
        rw [split]
        exact List.mem_cons_of_mem _ List.mem_cons_self
      have smaller := Plan.parts_smaller part
      have inner_told := told_continuation inner (kept.child (Plan.mem_parts part))
      rw [later_next onward, found, List.flatMap_singleton, List.flatMap_singleton, inner_told]
      rfl
termination_by sizeOf children

end

theorem told_useCase {children : List Tree} (kept : plan.Kept (node .useCaseBlock children)) :
    told (node .useCaseBlock children) = (scenarioNodes (node .useCaseBlock children)).flatMap tale := by
  obtain ⟨after, leads, -⟩ := kept.leads
  have below : told (node .useCaseBlock children) = (plan.parts children).flatMap told :=
    told_node kept (by decide)
  have scenarios : scenarioNodes (node .useCaseBlock children) =
      (plan.parts children).flatMap scenarioNodes := scenarios_parts kept (by decide)
  rw [below, scenarios]
  rcases leads_last rfl leads with none | ⟨inner, one⟩
  · rw [none]
    rfl
  · have part : node .scenario inner ∈ plan.parts children := by
      rw [one]
      exact List.mem_cons_self
    rw [one, List.flatMap_singleton, List.flatMap_singleton]
    exact told_scenario inner (kept.child (Plan.mem_parts part))

def heads : NodeKind → Option Keyword
  | .whenClause => some .when
  | _ => none

theorem sourceFile_heads :
    (Production.sourceFile.foresee (headed heads) false (.unknown ⟨none, 0⟩)).isSome = true := by
  decide +kernel

def BeginsWith (word : Keyword) (t : Tree) : Prop :=
  (t.child? fun kind => !kind.isTrivia).map Tree.kind = some (.token (.keyword word))

theorem clause_begins (source : List Char) {children : List Tree}
    (below : node .whenClause children ∈ (parse source).tree.subtrees) :
    BeginsWith .when (node .whenClause children) :=
  parse_headed sourceFile_heads below rfl NodeKind.noConfusion

theorem actionNodes_actions (s : Tree) :
    ∀ a ∈ Scenario.actionNodes s, Action.isNode a.kind = true := by
  intro a member
  rcases List.mem_append.mp member with first | later
  · cases found : Scenario.whenClause? s with
    | none =>
      rw [found] at first
      cases first
    | some clause =>
      rw [found] at first
      exact (List.mem_filter.mp first).2
  · obtain ⟨c, -, found⟩ := List.mem_filterMap.mp later
    have passed := List.find?_some (found : c.children.find? (fun t => Action.isNode t.kind) = some a)
    exact passed

theorem tale_actions {s : Tree} (scenario : s.kind = .node .scenario) :
    (tale s).filter (fun t => Action.isNode t.kind) = Scenario.actionNodes s := by
  have front : (s :: (Scenario.whenClause? s).toList).filter (fun t => Action.isNode t.kind) = [] := by
    refine List.filter_eq_nil_iff.mpr fun t member => ?_
    rcases List.mem_cons.mp member with rfl | clause
    · rw [scenario]
      exact Bool.false_ne_true
    · have found := List.find?_some (Option.mem_toList.mp clause)
      rw [of_decide_eq_true found]
      exact Bool.false_ne_true
  have back := List.filter_eq_self.mpr (actionNodes_actions s)
  rw [tale, List.filter_append, front, back, List.nil_append]

theorem ofTree?_other {t : Tree} (other : Action.isNode t.kind = false) : Action.ofTree? t = none := by
  unfold Action.ofTree?
  split <;> first | rfl | skip
  all_goals
    rename_i kind
    rw [kind] at other
    cases other

/-- The scenarios of a use case are all those below it, and their actions all those below it, in the
order of the text, each after the `when` of the scenario that it belongs to and before the next. -/
theorem scenarios_cover (source : List Char) {block : Tree}
    (inside : block ∈ (parse source).tree.subtrees) (useCase : block.kind = .node .useCaseBlock) :
    (UseCase.ofTree block).scenarios =
        (block.subtrees.filter fun s => s.kind = .node .scenario).map Scenario.ofTree ∧
      (UseCase.ofTree block).scenarios.flatMap Scenario.actions =
        block.subtrees.filterMap Action.ofTree? ∧
      (scenarioNodes block).flatMap Scenario.actionNodes =
        block.subtrees.filter (fun t => Action.isNode t.kind) ∧
      (scenarioNodes block).flatMap tale = told block ∧
      ∀ s ∈ scenarioNodes block, ∃ clause,
        Scenario.whenClause? s = some clause ∧ BeginsWith .when clause := by
  have kept := (Plan.parse_planned sourceFile_plan source).below inside
  obtain ⟨children, rfl⟩ := node_of_kind useCase
  have cover := told_useCase kept
  have actions : (scenarioNodes (node .useCaseBlock children)).flatMap Scenario.actionNodes =
      (node .useCaseBlock children).subtrees.filter fun t => Action.isNode t.kind := by
    have all : (told (node .useCaseBlock children)).filter (fun t => Action.isNode t.kind) =
        (node .useCaseBlock children).subtrees.filter fun t => Action.isNode t.kind := by
      rw [told, List.filter_filter]
      refine List.filter_congr fun t _ => ?_
      cases action : Action.isNode t.kind with
      | false => rfl
      | true => rw [told_of_action action]; rfl
    rw [← all, cover, List.filter_flatMap]
    refine List.flatMap_congr fun s member => ?_
    exact (tale_actions (of_decide_eq_true (List.mem_filter.mp member).2)).symm
  refine ⟨rfl, ?_, actions, cover.symm, ?_⟩
  · have read : (UseCase.ofTree (node .useCaseBlock children)).scenarios.flatMap Scenario.actions =
        ((scenarioNodes (node .useCaseBlock children)).flatMap Scenario.actionNodes).filterMap
          Action.ofTree? := by
      rw [List.filterMap_flatMap, UseCase.ofTree, List.flatMap_map]
      rfl
    rw [read, actions, List.filterMap_filter]
    refine List.filterMap_congr fun t _ => ?_
    cases action : Action.isNode t.kind with
    | false => exact (ofTree?_other action).symm
    | true => rfl
  · intro s member
    obtain ⟨below, scenario⟩ := List.mem_filter.mp member
    obtain ⟨inner, rfl⟩ := node_of_kind (of_decide_eq_true scenario)
    have inner_kept := kept.below below
    obtain ⟨after, leads, finished⟩ := inner_kept.leads
    obtain ⟨clause, rest, parts, -⟩ := leads_clause leads finished
    have part : node .whenClause clause ∈ plan.parts inner := by
      rw [parts]
      exact List.mem_cons_self
    refine ⟨node .whenClause clause, ?_, ?_⟩
    · rw [Scenario.whenClause?, Plan.part?_parts (P := plan) (by decide), parts]
      rfl
    · have under : node .whenClause clause ∈ (node .scenario inner).subtrees := by
        rw [subtrees_node]
        exact List.mem_cons_of_mem _
          (List.mem_flatMap.mpr ⟨_, Plan.mem_parts part, mem_subtrees_self _⟩)
      exact clause_begins source (subtrees_subset inside (subtrees_subset below under))

/-- An action without a target, one after a blank line, a clause without a trigger, and no closing
brace. -/
def unfinishedTale : List Char :=
  "use_case \"u\" \x7b\n when \"e\"\n a asks\n\n b returns c\n when\n d checks it".toList

theorem unfinishedTale_covered :
    ∃ block ∈ (parse unfinishedTale).tree.subtrees, block.kind = .node .useCaseBlock ∧
      (scenarioNodes block).map (fun s => (Scenario.actionNodes s).map Tree.kind) =
        [[.node .syncAction, .node .returnAction], [.node .internalAction]] ∧
      (scenarioNodes block).flatMap tale = told block := by
  have found : (parse unfinishedTale).tree.subtrees[1]?.map (fun block => (block.kind,
      (scenarioNodes block).map fun s => (Scenario.actionNodes s).map Tree.kind)) =
      some (.node .useCaseBlock,
        [[.node .syncAction, .node .returnAction], [.node .internalAction]]) := by
    decide +kernel
  obtain ⟨block, place, same⟩ := Option.map_eq_some_iff.mp found
  obtain ⟨kind, actions⟩ := Prod.mk.inj same
  have inside := List.mem_of_getElem? place
  exact ⟨block, inside, kind, actions, (scenarios_cover unfinishedTale inside kind).2.2.2.1⟩

end UseCase

end CraftDsl
