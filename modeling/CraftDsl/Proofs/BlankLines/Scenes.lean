import CraftDsl.Proofs.BlankLines.Bare
import CraftDsl.Proofs.BlankLines.Core
import CraftDsl.Proofs.UseCase.Coverage

/-!
Scenarios told from lines side by side: a clause begins one, and it goes on with the actions up to the
next clause. So they are known from the core of a use case. Main statement: `scenes_core`.
-/
namespace CraftDsl

open CraftDsl.Tree

def Tree.Plain (t : Tree) : Prop :=
  t.Everywhere fun kind _ => kind.isLoose = false ∧ kind ≠ .whenClause

theorem Tree.Plain.child {kind : NodeKind} {children : List Tree}
    (plain : (node kind children).Plain) : ∀ c ∈ children, c.Plain := by
  intro c member other held below
  exact plain other held (subtrees_subset (mem_subtrees_child member) below)

theorem Tree.Plain.no_clause {s t : Tree} (plain : t.Plain) (below : s ∈ t.subtrees) :
    s.kind ≠ .node .whenClause := by
  intro clause
  obtain ⟨children, rfl⟩ := node_of_kind clause
  exact (plain _ _ below).2 rfl

mutual

theorem core_plain : (t : Tree) → t.Plain → t.core = t.sift Token.content
  | .leaf _, _ => rfl
  | .node kind children, plain => by
    obtain ⟨firm, other⟩ := plain kind children (mem_subtrees_self _)
    rw [core, coreAll_plain children plain.child, NodeKind.gather_firm firm other, sift]

theorem coreAll_plain : (ts : List Tree) → (∀ t ∈ ts, t.Plain) →
    coreAll ts = siftAll Token.content ts
  | [], _ => rfl
  | t :: ts, plain => by
    obtain ⟨first, rest⟩ := List.forall_mem_cons.mp plain
    rw [coreAll, core_plain t first, coreAll_plain ts rest, siftAll]

end

namespace UseCase

theorem plain_of_landmarks {t : Tree}
    (actions : ∀ s ∈ plan.landmarks t, Action.isNode s.kind = true) : t.Plain := by
  intro kind children below
  have placed : ∀ kind : NodeKind, kind.isLoose = true ∨ kind = .whenClause →
      plan.has (.node kind) = true ∧ Action.isNode (.node kind) = false := by
    intro kind
    cases kind <;> decide
  have absent : ¬ (kind.isLoose = true ∨ kind = .whenClause) := by
    intro held
    obtain ⟨here, other⟩ := placed kind held
    have action := actions _ (List.mem_filter.mpr ⟨below, here⟩)
    exact Bool.noConfusion (other.symm.trans action)
  exact ⟨Bool.eq_false_iff.mpr fun loose => absent (.inl loose), fun clause => absent (.inr clause)⟩

theorem plain_absent {t : Tree} (kept : plan.Kept t) (absent : plan.has t.kind = false) : t.Plain :=
  plain_of_landmarks (by
    rw [Plan.landmarks_absent t kept absent]
    exact List.forall_mem_nil _)

theorem landmarks_action {a : Tree} (kept : plan.Kept a) (action : Action.isNode a.kind = true) :
    plan.landmarks a = [a] := by
  obtain ⟨kind, listed, same⟩ := List.any_eq_true.mp action
  obtain ⟨inner, rfl⟩ := node_of_kind (of_decide_eq_true same)
  obtain ⟨placed, start⟩ := action_bare kind listed
  obtain ⟨after, leads, -⟩ := kept.leads
  rw [start] at leads
  rw [kept.landmarks_node placed, Plan.leads_none rfl leads]
  rfl

theorem plain_action {a : Tree} (kept : plan.Kept a) (action : Action.isNode a.kind = true) :
    a.Plain :=
  plain_of_landmarks (by
    rw [landmarks_action kept action]
    exact List.forall_mem_singleton.mpr action)

theorem plain_clause {children : List Tree} (kept : plan.Kept (node .whenClause children)) :
    ∀ c ∈ children, c.Plain := by
  intro c member
  have inner := kept.child member
  by_cases placed : plan.has c.kind = true
  · obtain ⟨after, leads, -⟩ := kept.leads
    exact plain_action inner (leads_actions leads c (List.mem_filter.mpr ⟨member, placed⟩))
  · exact plain_absent inner (Bool.eq_false_iff.mpr placed)

def isBeat (kind : Kind) : Bool := kind = .node .whenClause || Action.isNode kind

def beat : Tree → Tree
  | .leaf token => .leaf token
  | .node .whenClause children =>
    .node .whenClause ((coreAll children).filter fun t => !t.isLine)
  | .node kind children => .node kind (coreAll children)

@[simp] theorem beat_kind (t : Tree) : (beat t).kind = t.kind := by
  unfold beat
  split <;> rfl

theorem beat_firm {kind : NodeKind} {children : List Tree} (other : kind ≠ .whenClause) :
    beat (node kind children) = node kind (coreAll children) := by
  cases kind <;> first | rfl | contradiction

def beats (t : Tree) : List Tree := t.subtrees.filter fun s => isBeat s.kind

def IsInner (t : Tree) : Prop := t.kind ≠ .node .useCaseBlock ∧ t.kind ≠ .node .sourceFile

theorem places_other {kind : NodeKind} {children : List Tree} (firm : kind.isLoose = false)
    (other : kind ≠ .whenClause) (action : Action.isNode (.node kind) = false)
    (inner : IsInner (node kind children)) : plan.places kind = false := by
  obtain ⟨block, source⟩ := inner
  cases kind <;> first | rfl | contradiction

theorem inner_move {s : Nat} (first : s ≠ 1) (outside : s ≠ 7) : ∀ move ∈ plan.onward s,
    (move.1 ≠ .useCaseBlock ∧ move.1 ≠ .sourceFile) ∧ move.2 ≠ 1 ∧ move.2 ≠ 7 := by
  have listed : ∀ s ∈ List.range 8, s = 1 ∨ s = 7 ∨ ∀ move ∈ plan.onward s,
      (move.1 ≠ .useCaseBlock ∧ move.1 ≠ .sourceFile) ∧ move.2 ≠ 1 ∧ move.2 ≠ 7 := by decide
  rcases Nat.lt_or_ge s 8 with small | large
  · exact ((listed s (List.mem_range.mpr small)).resolve_left first).resolve_left outside
  · obtain ⟨n, rfl⟩ := Nat.exists_eq_add_of_le' large
    exact List.forall_mem_nil _

theorem leads_inner {s after : Nat} {ts : List Tree} (leads : plan.Leads s ts after)
    (first : s ≠ 1) (outside : s ≠ 7) : ∀ t ∈ ts, IsInner t := by
  induction leads with
  | nil => exact List.forall_mem_nil _
  | cons move same rest ih =>
    obtain ⟨⟨block, source⟩, next, onward⟩ := inner_move first outside _ move
    refine List.forall_mem_cons.mpr ⟨?_, ih next onward⟩
    rw [IsInner, same]
    exact ⟨fun equal => block (Kind.node.inj equal), fun equal => source (Kind.node.inj equal)⟩

theorem children_inner {kind : NodeKind} {children : List Tree}
    (kept : plan.Kept (node kind children)) (other : kind ≠ .sourceFile) :
    ∀ c ∈ children, IsInner c := by
  have starts : plan.start kind ≠ 1 ∧ plan.start kind ≠ 7 := by
    revert other
    cases kind <;> decide
  intro c member
  by_cases placed : plan.has c.kind = true
  · obtain ⟨after, leads, -⟩ := kept.leads
    exact leads_inner leads starts.1 starts.2 c (List.mem_filter.mpr ⟨member, placed⟩)
  · refine ⟨fun block => placed ?_, fun source => placed ?_⟩
    · rw [block]
      rfl
    · rw [source]
      rfl

theorem told_of_beat {kind : Kind} (beat : isBeat kind = true) : isTold kind = true := by
  rw [isTold, Bool.or_assoc, Bool.or_eq_true]
  exact .inr beat

theorem beats_landmarks (t : Tree) : beats t = (plan.landmarks t).filter fun s => isBeat s.kind := by
  rw [beats, Plan.landmarks, List.filter_filter]
  refine List.filter_congr fun s _ => ?_
  cases found : isBeat s.kind with
  | false => rfl
  | true => rw [has_of_told (told_of_beat found)]; rfl

theorem beats_node (kind : NodeKind) (children : List Tree) : beats (node kind children) =
    (if isBeat (.node kind) then [node kind children] else []) ++ children.flatMap beats := by
  have here : (node kind children).kind = .node kind := rfl
  rw [beats, subtrees_node, List.filter_cons, List.filter_flatMap, here]
  split <;> rfl

theorem beats_action {a : Tree} (kept : plan.Kept a) (action : Action.isNode a.kind = true) :
    beats a = [a] := by
  have here : isBeat a.kind = true := by rw [isBeat, action, Bool.or_true]
  rw [beats_landmarks, landmarks_action kept action, List.filter_singleton, here]
  rfl

theorem beats_absent {t : Tree} (kept : plan.Kept t) (absent : plan.has t.kind = false) :
    beats t = [] := by
  rw [beats_landmarks, Plan.landmarks_absent t kept absent]
  rfl

/-- The clauses and actions in the core of a node, given those in the core of its children. -/
theorem gather_beats {kind : NodeKind} {children : List Tree} (kept : plan.Kept (node kind children))
    (inner : IsInner (node kind children))
    (below : (coreAll children).filter (fun s => isBeat s.kind) = (children.flatMap beats).map beat) :
    (kind.gather (coreAll children)).filter (fun s => isBeat s.kind) =
      (beats (node kind children)).map beat := by
  by_cases loose : kind.isLoose = true
  · have none : ¬ isBeat (.node kind) = true := by
      revert loose
      cases kind <;> decide
    rw [NodeKind.gather_loose loose, below, beats_node, if_neg none]
    rfl
  by_cases clause : kind = .whenClause
  · subst clause
    -- A clause holds no other, so each clause or action in its core is a line.
    have lines : ((coreAll children).filter Tree.isLine).filter (fun s => isBeat s.kind) =
        (coreAll children).filter fun s => isBeat s.kind := by
      rw [List.filter_filter]
      refine List.filter_congr fun s member => ?_
      cases found : isBeat s.kind with
      | false => rfl
      | true =>
        have listed : s ∈ (coreAll children).filter fun s => isBeat s.kind :=
          List.mem_filter.mpr ⟨member, found⟩
        rw [below] at listed
        obtain ⟨b, under, rfl⟩ := List.mem_map.mp listed
        obtain ⟨c, child, inside⟩ := List.mem_flatMap.mp under
        have other := (plain_clause kept c child).no_clause (List.mem_filter.mp inside).1
        rw [beat_kind, isBeat, decide_eq_false other, Bool.false_or] at found
        rw [Tree.isLine, beat_kind, found]
        rfl
    have first : isBeat (node .whenClause ((coreAll children).filter fun t => !t.isLine)).kind = true :=
      rfl
    rw [NodeKind.gather_clause, List.filter_cons, if_pos first, lines, below, beats_node]
    rfl
  · rw [NodeKind.gather_firm (Bool.eq_false_iff.mpr loose) clause]
    have here : (node kind (coreAll children)).kind = .node kind := rfl
    rw [List.filter_singleton, here]
    by_cases action : Action.isNode (.node kind) = true
    · rw [isBeat, action, Bool.or_true, beats_action kept action, List.map_singleton,
        beat_firm clause]
      rfl
    · have firm := Bool.eq_false_iff.mpr loose
      have absent := places_other firm clause (Bool.eq_false_iff.mpr action) inner
      rw [isBeat, Bool.eq_false_iff.mpr action, decide_eq_false fun same => clause (Kind.node.inj same),
        beats_absent kept absent]
      rfl

mutual

theorem core_beats : (t : Tree) → plan.Kept t → IsInner t →
    t.core.filter (fun s => isBeat s.kind) = (beats t).map beat
  | .leaf token, _, _ => by
    rw [core]
    cases token.content <;> rfl
  | .node kind children, kept, inner => by
    rw [core]
    refine gather_beats kept inner (coreAll_beats children (fun c member => kept.child member) ?_)
    exact children_inner kept fun same => inner.2 (congrArg _ same)

theorem coreAll_beats : (ts : List Tree) → (∀ t ∈ ts, plan.Kept t) → (∀ t ∈ ts, IsInner t) →
    (coreAll ts).filter (fun s => isBeat s.kind) = (ts.flatMap beats).map beat
  | [], _, _ => rfl
  | t :: ts, kept, inner => by
    obtain ⟨first, rest⟩ := List.forall_mem_cons.mp kept
    obtain ⟨here, later⟩ := List.forall_mem_cons.mp inner
    rw [coreAll, List.filter_append, core_beats t first here, coreAll_beats ts rest later,
      List.flatMap_cons, List.map_append]

end

def scenes : List Tree → List Action × List Scenario
  | [] => ([], [])
  | t :: ts =>
    if t.kind = .node .whenClause then
      ([], ⟨(Scenario.triggerNode? t).bind Trigger.ofTree?, (scenes ts).1⟩ :: (scenes ts).2)
    else ((Action.ofTree? t).toList ++ (scenes ts).1, (scenes ts).2)

theorem scenes_actions {actions : List Tree} (acts : ∀ a ∈ actions, Action.isNode a.kind = true)
    (rest : List Tree) :
    scenes (actions ++ rest) = (actions.filterMap Action.ofTree? ++ (scenes rest).1, (scenes rest).2) := by
  induction actions with
  | nil => rfl
  | cons a actions ih =>
    obtain ⟨first, later⟩ := List.forall_mem_cons.mp acts
    have other : a.kind ≠ .node .whenClause := by
      intro same
      rw [same] at first
      cases first
    rw [List.cons_append, scenes, if_neg other, ih later, List.filterMap_cons]
    cases Action.ofTree? a <;> rfl

theorem trigger_firm (kind : Kind) (trigger : Trigger.isNode kind = true) :
    kind.isFirm = true ∧ Action.isNode kind = false ∧ kind ≠ .node .error := by
  obtain ⟨k, listed, same⟩ := List.any_eq_true.mp trigger
  rw [of_decide_eq_true same]
  clear same
  revert k
  decide

theorem trigger_beat {clause : List Tree} (kept : plan.Kept (node .whenClause clause))
    (orderly : (node .whenClause clause).Orderly) :
    (Scenario.triggerNode? (beat (node .whenClause clause))).bind Trigger.ofTree? =
      (Scenario.triggerNode? (node .whenClause clause)).bind Trigger.ofTree? := by
  have first : Scenario.triggerNode? (beat (node .whenClause clause)) =
      (node .whenClause clause).bare.child? Trigger.isNode := by
    rw [Scenario.triggerNode?, beat, coreAll_plain clause (plain_clause kept), bare, child?, child?]
    show ((siftAll Token.content clause).filter _).find? _ = (siftAll Token.content clause).find? _
    rw [List.find?_filter]
    refine congrArg (fun p => (siftAll Token.content clause).find? p) (funext fun t => ?_)
    cases trigger : Trigger.isNode t.kind with
    | false => simp
    | true =>
      obtain ⟨-, action, error⟩ := trigger_firm _ trigger
      rw [Tree.isLine, action, decide_eq_false error]
      rfl
  rw [first, child?_bare fun kind trigger => (trigger_firm kind trigger).1, Scenario.triggerNode?]
  cases found : (node .whenClause clause).child? Trigger.isNode with
  | none => rfl
  | some t => exact Trigger.ofTree?_bare (orderly.child (List.mem_of_find?_eq_some found))

theorem action_beat {a : Tree} (kept : plan.Kept a) (action : Action.isNode a.kind = true)
    (orderly : a.Orderly) : Action.ofTree? (beat a) = Action.ofTree? a := by
  obtain ⟨kind, listed, same⟩ := List.any_eq_true.mp action
  obtain ⟨children, rfl⟩ := node_of_kind (of_decide_eq_true same)
  have other : kind ≠ .whenClause := by
    rintro rfl
    cases action
  have left : beat (node kind children) = (node kind children).bare := by
    rw [beat_firm other, coreAll_plain children (plain_action kept action).child, bare]
  rw [left, Action.ofTree?_bare orderly]

theorem clause_of_scenario {s : Tree} (kept : plan.Kept s) (scenario : s.kind = .node .scenario) :
    ∃ clause, Scenario.whenClause? s = some (node .whenClause clause) := by
  obtain ⟨children, rfl⟩ := node_of_kind scenario
  obtain ⟨after, leads, finished⟩ := kept.leads
  obtain ⟨clause, rest, parts, -⟩ := leads_clause leads finished
  refine ⟨clause, ?_⟩
  rw [Scenario.whenClause?, Plan.part?_parts (P := plan) (by decide), parts]
  rfl

/-- A scenario is told from its clause and its actions, newlines between them or not. -/
theorem scenes_scenario {s : Tree} (kept : plan.Kept s) (scenario : s.kind = .node .scenario)
    (below : ∀ t ∈ tale s, plan.Kept t ∧ t.Orderly) {rest : List Tree}
    (clauses : (scenes rest).1 = []) :
    scenes (((tale s).filter fun t => isBeat t.kind).map beat ++ rest) =
      ([], Scenario.ofTree s :: (scenes rest).2) := by
  obtain ⟨clause, found⟩ := clause_of_scenario kept scenario
  have acts := actionNodes_actions s
  have told : (tale s).filter (fun t => isBeat t.kind) =
      node .whenClause clause :: Scenario.actionNodes s := by
    have beats : ∀ a ∈ Scenario.actionNodes s, isBeat a.kind = true := fun a member => by
      rw [isBeat, acts a member, Bool.or_true]
    have here : ¬ isBeat s.kind = true := by
      rw [scenario]
      decide
    have next : isBeat (node .whenClause clause).kind = true := rfl
    rw [tale, found, List.cons_append, List.filter_cons, if_neg here, Option.toList_some,
      List.singleton_append, List.filter_cons, if_pos next, List.filter_eq_self.mpr beats]
  obtain ⟨clause_kept, clause_orderly⟩ := below (node .whenClause clause) (by
    rw [tale, found]
    exact List.mem_cons_of_mem _ List.mem_cons_self)
  have each : ((Scenario.actionNodes s).map beat).filterMap Action.ofTree? =
      (Scenario.actionNodes s).filterMap Action.ofTree? := by
    rw [List.filterMap_map]
    refine List.filterMap_congr fun a member => ?_
    obtain ⟨a_kept, a_orderly⟩ := below a (List.mem_append_right _ member)
    exact action_beat a_kept (acts a member) a_orderly
  have left : ∀ a ∈ (Scenario.actionNodes s).map beat, Action.isNode a.kind = true := by
    intro a member
    obtain ⟨b, listed, rfl⟩ := List.mem_map.mp member
    rw [beat_kind]
    exact acts b listed
  have first : (beat (node .whenClause clause)).kind = .node .whenClause := rfl
  rw [told, List.map_cons, List.cons_append, scenes, if_pos first, scenes_actions left, each, clauses,
    trigger_beat clause_kept clause_orderly, List.append_nil, Scenario.ofTree, found]
  rfl

theorem scenes_tales {ss : List Tree} (kept : ∀ s ∈ ss, plan.Kept s)
    (scenarios : ∀ s ∈ ss, s.kind = .node .scenario)
    (below : ∀ s ∈ ss, ∀ t ∈ tale s, plan.Kept t ∧ t.Orderly) :
    scenes (((ss.flatMap tale).filter fun t => isBeat t.kind).map beat) =
      ([], ss.map Scenario.ofTree) := by
  induction ss with
  | nil => rfl
  | cons s ss ih =>
    obtain ⟨s_kept, later_kept⟩ := List.forall_mem_cons.mp kept
    obtain ⟨s_scenario, later_scenarios⟩ := List.forall_mem_cons.mp scenarios
    obtain ⟨s_below, later_below⟩ := List.forall_mem_cons.mp below
    have later := ih later_kept later_scenarios later_below
    rw [List.flatMap_cons, List.filter_append, List.map_append,
      scenes_scenario s_kept s_scenario s_below (congrArg Prod.fst later), later, List.map_cons]

theorem scenes_core {children : List Tree} (kept : plan.Kept (node .useCaseBlock children))
    (orderly : (node .useCaseBlock children).Orderly) :
    scenes ((coreAll children).filter fun t => isBeat t.kind) =
      ([], (scenarioNodes (node .useCaseBlock children)).map Scenario.ofTree) := by
  have core := coreAll_beats children (fun c member => kept.child member)
    (children_inner kept NodeKind.noConfusion)
  have block : children.flatMap beats = beats (node .useCaseBlock children) := by
    rw [beats_node, if_neg (by decide), List.nil_append]
  have tales : beats (node .useCaseBlock children) =
      ((scenarioNodes (node .useCaseBlock children)).flatMap tale).filter fun t => isBeat t.kind := by
    rw [← told_useCase kept, told, List.filter_filter, beats]
    refine List.filter_congr fun t _ => ?_
    cases found : isBeat t.kind with
    | false => rfl
    | true => rw [told_of_beat found]; rfl
  have under : ∀ s ∈ scenarioNodes (node .useCaseBlock children), ∀ t ∈ tale s,
      t ∈ (node .useCaseBlock children).subtrees := by
    intro s scenario t member
    have listed := List.mem_flatMap.mpr ⟨s, scenario, member⟩
    rw [← told_useCase kept] at listed
    exact (List.mem_filter.mp listed).1
  rw [core, block, tales]
  refine scenes_tales (fun s member => kept.below (List.mem_filter.mp member).1)
    (fun s member => of_decide_eq_true (List.mem_filter.mp member).2) fun s scenario t member => ?_
  exact ⟨kept.below (under s scenario t member), orderly.below (under s scenario t member)⟩

end UseCase

end CraftDsl
