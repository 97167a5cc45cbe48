import CraftDsl.Proofs.Rereading
import CraftDsl.Proofs.Subtrees
import CraftDsl.Proofs.UseCase.Scenarios

/-!
What is found in the tree of a use case is what it was printed from. Main statement:
`useCase_roundTrip`.
-/
namespace CraftDsl

open CraftDsl.Tree

theorem wordTree_tokens (w : Word) :
    ((wordTree w).tokens.filter fun token => !token.isTrivia).map Token.text = [w] := by
  unfold wordTree
  split
  · rfl
  · split
    · show ([part w].filter fun token => !token.isTrivia).map Token.text = [w]
      rw [List.filter_cons_of_pos (by rw [part_isTrivia]; rfl)]
      rfl
    · rfl

theorem apart_words (words : List Word) :
    (((apart (words.map wordTree)).flatMap Tree.tokens).filter fun token => !token.isTrivia).map
      Token.text = words := by
  induction words with
  | nil => rfl
  | cons w words ih =>
    have split : (apart ((w :: words).map wordTree)).flatMap Tree.tokens =
        blank :: ((wordTree w).tokens ++ (apart (words.map wordTree)).flatMap Tree.tokens) := rfl
    rw [split, List.filter_cons_of_neg (by decide), List.filter_append, List.map_append,
      wordTree_tokens, ih]
    rfl

theorem Phrase.ofTree_tree (p : Phrase) : Phrase.ofTree p.tree = p := by
  obtain ⟨words⟩ := p
  cases words with
  | nil => rfl
  | cons w words =>
    have tokens : (Phrase.tree ⟨w :: words⟩).tokens =
        (wordTree w).tokens ++ (apart (words.map wordTree)).flatMap Tree.tokens := by
      rw [Phrase.tree, tokens_node, List.flatMap_cons]
    rw [Phrase.ofTree, tokens, List.filter_append, List.map_append, wordTree_tokens, apart_words]
    rfl

section

variable {kind other : NodeKind} {front : List Tree} (connector : Option Word) (phrase : Option Phrase)

theorem part?_front (silent : (node kind front).part? other = none) (back : List Tree) :
    (node kind (front ++ back)).part? other = (node kind back).part? other := by
  have here : front.find? (fun t => t.kind = .node other) = none := silent
  show (front ++ back).find? _ = back.find? _
  rw [List.find?_append, here, Option.none_or]

theorem connector?_complement (silent : (node kind front).part? .connectorWord = none) :
    connector? (node kind (front ++ complementTrees connector phrase)) = connector := by
  rw [connector?, Tree.firstWordIn?, part?_front silent]
  cases connector <;> cases phrase <;> rfl

theorem under?_complement (silent : (node kind front).part? .phrase = none) :
    Phrase.under? (node kind (front ++ complementTrees connector phrase)) = phrase := by
  have found : (node kind (complementTrees connector phrase)).part? .phrase =
      phrase.map Phrase.tree := by
    cases connector <;> cases phrase <;> rfl
  rw [Phrase.under?, part?_front silent, found, Option.map_map]
  cases phrase with
  | none => rfl
  | some p => exact congrArg some p.ofTree_tree

/-- What is made of the connector and the phrase found in a tree is made of the ones printed there. -/
theorem made_of_complement {α : Type} (make : Option Word → Option Phrase → α)
    (no_connector : (node kind front).part? .connectorWord = none)
    (no_phrase : (node kind front).part? .phrase = none) :
    make (connector? (node kind (front ++ complementTrees connector phrase)))
      (Phrase.under? (node kind (front ++ complementTrees connector phrase))) = make connector phrase :=
  congrArg₂ make (connector?_complement connector phrase no_connector)
    (under?_complement connector phrase no_phrase)

end

theorem Trigger.ofTree?_tree {t : Trigger} (legible : t.Legible) : Trigger.ofTree? t.tree = some t := by
  cases t with
  | external actor verb connector phrase =>
    obtain ⟨⟨a, rfl, -⟩, ⟨v, rfl, -⟩, -⟩ := legible
    have actor : (Trigger.external (some a) (some v) connector phrase).tree.identifierIn?
        .triggerActor = some a := identifierIn?_named rfl
    have verb : (Trigger.external (some a) (some v) connector phrase).tree.identifierIn?
        .triggerVerb = some v := identifierIn?_named rfl
    show some (Trigger.external (Tree.identifierIn? _ _) (Tree.identifierIn? _ _) (connector? _)
      (Phrase.under? _)) = _
    rw [actor, verb]
    exact made_of_complement connector phrase
      (fun c p => some (Trigger.external (some a) (some v) c p)) rfl rfl
  | event name =>
    obtain ⟨s, rfl, -⟩ := legible
    exact congrArg (fun w => some (Trigger.event w)) (word?_leaf rfl)
  | listener domain name =>
    obtain ⟨⟨d, rfl, -⟩, s, rfl, -⟩ := legible
    exact congrArg₂ (fun d s => some (Trigger.listener d s)) (word?_leaf rfl) (word?_leaf rfl)
  | cron schedule =>
    have found : Phrase.under? (.node .cronTrigger
        ([.leaf (part Keyword.cron.word)] ++ complementTrees none schedule)) = schedule :=
      under?_complement none schedule rfl
    exact congrArg (fun p => some (Trigger.cron p)) found

theorem Action.ofTree?_tree {a : Action} (legible : a.Legible) : Action.ofTree? a.tree = some a := by
  cases a with
  | sync subject target connector phrase =>
    obtain ⟨⟨s, rfl, -⟩, ⟨t, rfl, -⟩, -⟩ := legible
    have subject : (Action.sync (some s) (some t) connector phrase).tree.identifierIn?
        .actionSubject = some s := identifierIn?_named rfl
    have asked : (Action.sync (some s) (some t) connector phrase).tree.identifierIn?
        .actionTarget = some t := identifierIn?_named rfl
    show some (Action.sync (Tree.identifierIn? _ _) (Tree.identifierIn? _ _) (connector? _)
      (Phrase.under? _)) = _
    rw [subject, asked]
    exact made_of_complement connector phrase
      (fun c p => some (Action.sync (some s) (some t) c p)) rfl rfl
  | async subject event phrase =>
    obtain ⟨⟨s, rfl, -⟩, ⟨e, rfl, -⟩, rfl⟩ := legible
    have subject : (Action.async (some s) (some e) none).tree.identifierIn?
        .actionSubject = some s := identifierIn?_named rfl
    have event : (Action.async (some s) (some e) none).tree.word? .string = some e := word?_leaf rfl
    have nothing : Phrase.under? (Action.async (some s) (some e) none).tree = none := rfl
    show some (Action.async (Tree.identifierIn? _ _) (Tree.word? _ _) (Phrase.under? _)) = _
    rw [subject, event, nothing]
  | internal subject verb connector phrase =>
    obtain ⟨⟨s, rfl, -⟩, ⟨v, rfl, -⟩, -⟩ := legible
    have subject : (Action.internal (some s) (some v) connector phrase).tree.identifierIn?
        .actionSubject = some s := identifierIn?_named rfl
    have verb : (Action.internal (some s) (some v) connector phrase).tree.identifierIn?
        .actionVerb = some v := identifierIn?_named rfl
    show some (Action.internal (Tree.identifierIn? _ _) (Tree.identifierIn? _ _) (connector? _)
      (Phrase.under? _)) = _
    rw [subject, verb]
    exact made_of_complement connector phrase
      (fun c p => some (Action.internal (some s) (some v) c p)) rfl rfl
  | returns subject target connector phrase =>
    obtain ⟨⟨s, rfl, -⟩, -⟩ := legible
    have subject : (Action.returns (some s) target connector phrase).tree.identifierIn?
        .actionSubject = some s := identifierIn?_named rfl
    have target_found :
        (Action.returns (some s) target connector phrase).tree.identifierIn? .actionTarget = target := by
      cases target with
      | none => cases connector <;> cases phrase <;> rfl
      | some t => exact identifierIn?_named rfl
    show some (Action.returns (Tree.identifierIn? _ _) (Tree.identifierIn? _ _) (connector? _)
      (Phrase.under? _)) = _
    rw [subject, target_found]
    cases target <;> exact made_of_complement connector phrase
      (fun c p => some (Action.returns (some s) _ c p)) rfl rfl

theorem Trigger.isNode_tree (t : Trigger) : Trigger.isNode t.tree.kind = true := by cases t <;> rfl

theorem Trigger.not_action (t : Trigger) : Action.isNode t.tree.kind = false := by cases t <;> rfl

theorem Action.isNode_tree (a : Action) : Action.isNode a.tree.kind = true := by cases a <;> rfl

namespace Scenario

theorem triggerNode?_clause (t : Trigger) (actions : List Action) :
    triggerNode? (Scenario.clause ⟨some t, actions⟩) = some t.tree := by
  have children : (Scenario.clause ⟨some t, actions⟩).children =
      [.leaf (part Keyword.when.word), .leaf blank] ++ t.tree ::
        .leaf lineBreak :: actions.flatMap fun a => [a.tree, .leaf lineBreak] := rfl
  have first : [Tree.leaf (part Keyword.when.word), .leaf blank].find?
    (fun c => Trigger.isNode c.kind) = none := rfl
  rw [triggerNode?, Tree.child?, children, List.find?_append, first, Option.none_or]
  exact List.find?_cons_of_pos t.isNode_tree

theorem clauseActionNodes_clause (t : Trigger) (actions : List Action) :
    clauseActionNodes (Scenario.clause ⟨some t, actions⟩) = actions.map Action.tree := by
  have lines : (actions.flatMap fun a => [a.tree, .leaf lineBreak]).filter
      (fun c => Action.isNode c.kind) = actions.map Action.tree := by
    induction actions with
    | nil => rfl
    | cons a actions ih =>
      simp only [List.flatMap_cons, List.filter_append, ih, List.filter_cons, a.isNode_tree, if_true]
      rfl
  have children : (Scenario.clause ⟨some t, actions⟩).children =
      .leaf (part Keyword.when.word) :: .leaf blank :: t.tree ::
        .leaf lineBreak :: actions.flatMap fun a => [a.tree, .leaf lineBreak] := rfl
  have leaf_not (token : Token) : Action.isNode (Tree.leaf token).kind = false := rfl
  simp only [clauseActionNodes, children, List.filter_cons, leaf_not, t.not_action,
    Bool.false_eq_true, if_false, lines]

theorem spine_kind (s : Scenario) (rest : List Scenario) : (spine s rest).kind = .node .scenario := by
  cases rest <;> rfl

theorem whenClause?_spine (s : Scenario) (rest : List Scenario) :
    whenClause? (spine s rest) = some s.clause := by
  cases rest <;> rfl

theorem continuations_spine (s : Scenario) (rest : List Scenario) :
    (continuations (spine s rest)).filterMap actionNode? = [] := by
  cases rest with
  | nil => rfl
  | cons next rest =>
    let c : Tree := .node .scenarioContinuation [spine next rest]
    have other (passes : Kind → Bool) (not : passes (.node .scenario) = false) :
        c.child? passes = none := by
      have refused : ¬ passes (spine next rest).kind = true := by
        rw [spine_kind, not]
        exact Bool.false_ne_true
      exact List.find?_cons_of_neg refused
    have last : c.descend? [.scenarioContinuation] = none := by
      rw [Tree.descend?, Tree.part?, other _ rfl, Option.bind_none]
    have only : continuations (spine s (next :: rest)) = [c] := Tree.chain_last last
    have no_action : actionNode? c = none := other _ rfl
    rw [only, List.filterMap_cons_none no_action, List.filterMap_nil]

theorem ofTree_spine {s : Scenario} (legible : s.Legible) (rest : List Scenario) :
    Scenario.ofTree (spine s rest) = s := by
  obtain ⟨trigger, actions⟩ := s
  obtain ⟨⟨t, rfl, spoken⟩, legible⟩ := legible
  have read : (actions.map Action.tree).filterMap Action.ofTree? = actions := by
    induction actions with
    | nil => rfl
    | cons a actions ih =>
      obtain ⟨here, later⟩ := List.forall_mem_cons.mp legible
      rw [List.map_cons, List.filterMap_cons_some (Action.ofTree?_tree here), ih later]
  rw [Scenario.ofTree, actionNodes, whenClause?_spine, continuations_spine, List.append_nil,
    Option.bind_some, triggerNode?_clause, Option.bind_some, Trigger.ofTree?_tree spoken,
    Option.map_some, Option.getD_some, clauseActionNodes_clause, read]

end Scenario

namespace UseCase

@[simp] theorem scenarioNodes_leaf (token : Token) : scenarioNodes (.leaf token) = [] := rfl

theorem scenarioNodes_scenario (children : List Tree) :
    scenarioNodes (.node .scenario children) =
      .node .scenario children :: children.flatMap scenarioNodes := by
  rw [scenarioNodes, subtrees_node, List.filter_cons, List.filter_flatMap]
  rfl

theorem scenarioNodes_node {kind : NodeKind} (other : kind ≠ .scenario) (children : List Tree) :
    scenarioNodes (.node kind children) = children.flatMap scenarioNodes := by
  have passed : ¬ decide ((Tree.node kind children).kind = .node .scenario) = true := fun same =>
    other (Kind.node.inj (of_decide_eq_true same))
  rw [scenarioNodes, subtrees_node, List.filter_cons, if_neg passed, List.filter_flatMap]
  rfl

theorem scenarioNodes_apart (trees : List Tree) :
    (apart trees).flatMap scenarioNodes = trees.flatMap scenarioNodes := by
  induction trees with
  | nil => rfl
  | cons t trees ih => exact congrArg (scenarioNodes t ++ ·) ih

theorem scenarioNodes_wordTree (w : Word) : scenarioNodes (wordTree w) = [] := by
  unfold wordTree
  split
  · rfl
  · split <;> rfl

theorem scenarioNodes_phrase (p : Phrase) : scenarioNodes p.tree = [] := by
  obtain ⟨words⟩ := p
  cases words with
  | nil => rfl
  | cons w words =>
    rw [Phrase.tree, scenarioNodes_node NodeKind.noConfusion, List.flatMap_cons, scenarioNodes_wordTree,
      scenarioNodes_apart, List.flatMap_map]
    simp [scenarioNodes_wordTree]

theorem scenarioNodes_complement (connector : Option Word) (phrase : Option Phrase) :
    (complementTrees connector phrase).flatMap scenarioNodes = [] := by
  rw [complementTrees, scenarioNodes_apart, List.flatMap_append, List.append_eq_nil_iff]
  constructor
  · cases connector <;> rfl
  · cases phrase with
    | none => rfl
    | some p => exact (List.append_nil _).trans (scenarioNodes_phrase p)

theorem scenarioNodes_trigger (t : Trigger) : scenarioNodes t.tree = [] := by
  cases t with
  | external actor verb connector phrase =>
    rw [Trigger.tree, scenarioNodes_node NodeKind.noConfusion, List.flatMap_append,
      scenarioNodes_complement]
    cases actor <;> cases verb <;> rfl
  | event name => cases name <;> rfl
  | listener domain name => cases domain <;> cases name <;> rfl
  | cron schedule =>
    rw [Trigger.tree, scenarioNodes_node NodeKind.noConfusion, List.flatMap_cons, scenarioNodes_leaf]
    exact scenarioNodes_complement none schedule

theorem scenarioNodes_action (a : Action) : scenarioNodes a.tree = [] := by
  cases a with
  | sync subject target connector phrase =>
    rw [Action.tree, scenarioNodes_node NodeKind.noConfusion, List.flatMap_append,
      scenarioNodes_complement]
    cases subject <;> cases target <;> rfl
  | async subject event => cases subject <;> cases event <;> rfl
  | internal subject verb connector phrase =>
    rw [Action.tree, scenarioNodes_node NodeKind.noConfusion, List.flatMap_append,
      scenarioNodes_complement]
    cases subject <;> cases verb <;> rfl
  | returns subject target connector phrase =>
    rw [Action.tree, scenarioNodes_node NodeKind.noConfusion, List.flatMap_append,
      scenarioNodes_complement]
    cases subject <;> cases target <;> rfl

theorem scenarioNodes_clause (s : Scenario) : scenarioNodes s.clause = [] := by
  have lines : (s.actions.flatMap fun a => [a.tree, .leaf lineBreak]).flatMap scenarioNodes = [] := by
    rw [List.flatMap_assoc, List.flatMap_eq_nil_iff]
    intro a _
    exact (List.append_nil _).trans (scenarioNodes_action a)
  have trigger : (s.trigger.toList.map Trigger.tree).flatMap scenarioNodes = [] := by
    rw [List.flatMap_map, List.flatMap_eq_nil_iff]
    intro t _
    exact scenarioNodes_trigger t
  rw [Scenario.clause, scenarioNodes_node NodeKind.noConfusion, List.cons_append, List.flatMap_cons,
    List.flatMap_append, scenarioNodes_apart, trigger, List.flatMap_cons, lines]
  rfl

theorem scenarioNodes_spine (s : Scenario) (rest : List Scenario)
    (legible : ∀ t ∈ s :: rest, t.Legible) :
    (scenarioNodes (spine s rest)).map Scenario.ofTree = s :: rest := by
  induction rest generalizing s with
  | nil =>
    have nodes : scenarioNodes (spine s []) = [spine s []] := by
      rw [spine, scenarioNodes_scenario, List.flatMap_singleton, scenarioNodes_clause]
    rw [nodes, List.map_singleton, Scenario.ofTree_spine (legible s List.mem_cons_self)]
  | cons next rest ih =>
    obtain ⟨here, later⟩ := List.forall_mem_cons.mp legible
    have nodes : scenarioNodes (spine s (next :: rest)) =
        spine s (next :: rest) :: scenarioNodes (spine next rest) := by
      rw [spine, scenarioNodes_scenario, List.flatMap_cons, scenarioNodes_clause,
        List.flatMap_singleton, scenarioNodes_node NodeKind.noConfusion, List.flatMap_singleton,
        List.nil_append]
    rw [nodes, List.map_cons, Scenario.ofTree_spine here, ih next later]

theorem ofTree_tree {u : UseCase} (legible : u.Legible) : UseCase.ofTree u.tree = u := by
  obtain ⟨name, scenarios⟩ := u
  obtain ⟨⟨n, rfl, -⟩, some_scenario, legible⟩ := legible
  cases scenarios with
  | nil => exact absurd rfl some_scenario
  | cons s rest =>
    have read : (UseCase.tree ⟨some n, s :: rest⟩).word? .string = some n := word?_leaf rfl
    have nodes : scenarioNodes (UseCase.tree ⟨some n, s :: rest⟩) = scenarioNodes (spine s rest) := by
      rw [UseCase.tree, scenarioNodes_node NodeKind.noConfusion]
      exact List.append_nil _
    rw [UseCase.ofTree, read, nodes, scenarioNodes_spine s rest legible]

end UseCase

theorem lineTokens_sound (words : List Word) :
    ∀ token ∈ lineTokens words, token.kind.isError = false := by
  cases words with
  | nil => exact List.forall_mem_singleton.mpr rfl
  | cons w words =>
    refine List.forall_mem_append.mpr ⟨List.forall_mem_cons.mpr ⟨part_sound w, ?_⟩,
      List.forall_mem_singleton.mpr rfl⟩
    intro token member
    obtain ⟨other, -, inside⟩ := List.mem_flatMap.mp member
    rcases List.mem_cons.mp inside with rfl | last
    · rfl
    · rw [List.mem_singleton.mp last]
      exact part_sound other

/-- A use case that is printed and read again is the same, and nothing is reported. -/
theorem useCase_roundTrip (u : UseCase) (legible : u.Legible) :
    (parse u.text).diagnostics = [] ∧ (parse u.text).items = [.useCase u] := by
  have tokens := u.lex_text legible
  set c := ((Production.atKind .endOfInput).run (.start (lex u.text))).cursor with c_eq
  have ahead : c.ahead = u.lines.flatMap lineTokens ++ [closing] := tokens
  have built := Production.item_builds legible c ahead
  have first : KindSet.itemFirst.has ((Cursor.start (lex u.text)).kindAhead 0) = true := by
    have begins : (Cursor.start (lex u.text)).kindAhead 0 = .keyword .useCase := by
      rw [Cursor.kindAhead, Cursor.start, tokens]
      rfl
    rw [begins]
    decide
  obtain ⟨tree, reports⟩ := Production.parse_single first built.pieces built.ahead
  constructor
  · have sound : ∀ token ∈ lex u.text, token.kind.isError = false := by
      rw [tokens]
      refine List.forall_mem_append.mpr ⟨fun token member => ?_, List.forall_mem_singleton.mpr rfl⟩
      obtain ⟨line, -, inside⟩ := List.mem_flatMap.mp member
      exact lineTokens_sound line token inside
    rw [parse_diagnostics, reports, built.reports, lexical_none sound]
    rfl
  · have found : Item.ofTree? u.tree = some (.useCase u) :=
      congrArg (fun u => some (Item.useCase u)) (UseCase.ofTree_tree legible)
    rw [Parse.items, tree]
    exact List.filterMap_cons_some found

/-- All kinds of triggers and actions, with keywords for names. -/
def flows : UseCase where
  name := some "\"Flows\"".toList
  scenarios :=
    [⟨some (.external (some "when".toList) (some "asks".toList) (some "for".toList)
        (some ⟨["the".toList, "\"order\"".toList]⟩)),
      [.internal (some "Ledger".toList) (some "to".toList) none (some ⟨["the".toList]⟩),
        .returns (some "Ledger".toList) (some "Customer".toList) (some "a".toList)
          (some ⟨["receipt".toList]⟩),
        .returns (some "Ledger".toList) none (some "to".toList) (some ⟨["notifies".toList]⟩)]⟩,
      ⟨some (.listener (some "CRON".toList) (some "\"Paid\"".toList)),
        [.async (some "Billing".toList) (some "\"Settled\"".toList) none]⟩,
      ⟨some (.event (some "\"Paid\"".toList)), []⟩,
      ⟨some (.cron (some ⟨["every".toList, "hour".toList]⟩)),
        [.sync (some "CRON".toList) (some "returns".toList) none
          (some ⟨["old".toList, "logs".toList]⟩)]⟩]

theorem flows_roundTrip : flows.Legible ∧ (parse flows.text).diagnostics = [] ∧
    (parse flows.text).items = [.useCase flows] := by
  have legible : flows.Legible := by decide +kernel
  exact ⟨legible, useCase_roundTrip flows legible⟩

end CraftDsl
