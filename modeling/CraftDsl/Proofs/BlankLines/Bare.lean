import CraftDsl.Ast.Item
import CraftDsl.Proofs.Displacement
import CraftDsl.Proofs.Fields.Sheaths

/-!
Trees without newlines, blanks and comments. Selecting children by kind does not tell them from the
trees they come from, and nor does any item, where names and phrases hold no newline. Main statement:
`item_bare`.
-/
namespace CraftDsl

def Kind.isFirm : Kind → Bool
  | .token kind => !(kind.isTrivia || kind = .newline)
  | .node _ => true

namespace Tree

def bare : Tree → Tree
  | leaf token => leaf token
  | node kind children => node kind (siftAll Token.content children)

@[simp] theorem bare_kind (t : Tree) : t.bare.kind = t.kind := by
  cases t <;> rfl

theorem sift_bare (t : Tree) :
    t.sift Token.content = if t.kind.isFirm = true then [t.bare] else [] := by
  cases t with
  | leaf token =>
    have firm : (leaf token).kind.isFirm = !(token.isTrivia || token.kind = .newline) := rfl
    rw [sift, Token.content, firm]
    cases token.isTrivia || token.kind = .newline <;> rfl
  | node kind children => rfl

theorem siftAll_bare (ts : List Tree) :
    siftAll Token.content ts = (ts.filter fun t => t.kind.isFirm).map bare := by
  induction ts with
  | nil => rfl
  | cons t ts ih =>
    rw [siftAll, sift_bare, ih, List.filter_cons]
    split <;> rfl

theorem children_bare (t : Tree) :
    t.bare.children = (t.children.filter fun c => c.kind.isFirm).map bare := by
  cases t with
  | leaf token => rfl
  | node kind children => exact siftAll_bare children

section

variable {passes : Kind → Bool} (firm : ∀ k, passes k = true → k.isFirm = true) (t : Tree)

include firm

theorem filter_bare : (t.bare.children.filter fun c => passes c.kind) =
    (t.children.filter fun c => passes c.kind).map bare := by
  rw [children_bare, List.filter_map, List.filter_filter]
  refine congrArg (List.map bare) (List.filter_congr fun c _ => ?_)
  show (passes c.bare.kind && c.kind.isFirm) = passes c.kind
  rw [bare_kind]
  cases passed : passes c.kind with
  | false => rfl
  | true => exact firm _ passed

theorem child?_bare : t.bare.child? passes = (t.child? passes).map bare := by
  rw [child?, child?, ← List.head?_filter, ← List.head?_filter, filter_bare firm, List.head?_map]

end

theorem firm_node (kind : NodeKind) (k : Kind) (same : decide (k = .node kind) = true) :
    k.isFirm = true := by
  rw [of_decide_eq_true same]
  rfl

theorem part?_bare (t : Tree) (kind : NodeKind) : t.bare.part? kind = (t.part? kind).map bare :=
  child?_bare (firm_node kind) t

theorem parts_bare (t : Tree) (kind : NodeKind) : t.bare.parts kind = (t.parts kind).map bare :=
  filter_bare (firm_node kind) t

theorem bare_leaf {t : Tree} {kind : TokenKind} (same : t.kind = .token kind) : t.bare = t := by
  cases t with
  | leaf token => rfl
  | node other children => cases same

theorem wordOf?_bare (t : Tree) {kinds : List TokenKind}
    (firm : ∀ kind ∈ kinds, (Kind.token kind).isFirm = true) :
    t.bare.wordOf? kinds = t.wordOf? kinds := by
  have words (k : Kind) (passed : (kinds.any fun kind => k = .token kind) = true) :
      ∃ kind ∈ kinds, k = .token kind := by
    obtain ⟨kind, member, same⟩ := List.any_eq_true.mp passed
    exact ⟨kind, member, of_decide_eq_true same⟩
  rw [wordOf?, wordOf?, child?_bare]
  · cases found : t.child? fun k => kinds.any fun kind => k = .token kind with
    | none => rfl
    | some c =>
      have passed : (kinds.any fun kind => c.kind = .token kind) = true :=
        List.find?_some (p := fun c : Tree => kinds.any fun kind => c.kind = .token kind) found
      obtain ⟨kind, -, same⟩ := words _ passed
      rw [Option.map_some, bare_leaf same]
  · intro k passed
    obtain ⟨kind, member, rfl⟩ := words k passed
    exact firm kind member

theorem word?_bare (t : Tree) {kind : TokenKind} (firm : (Kind.token kind).isFirm = true) :
    t.bare.word? kind = t.word? kind := wordOf?_bare t (List.forall_mem_singleton.mpr firm)

theorem identifier?_bare (t : Tree) : t.bare.identifier? = t.identifier? := word?_bare t rfl

theorem identifierIn?_bare (t : Tree) (kind : NodeKind) :
    t.bare.identifierIn? kind = t.identifierIn? kind := by
  rw [identifierIn?, identifierIn?, part?_bare, Option.bind_map]
  exact congrArg (t.part? kind).bind (funext identifier?_bare)

theorem identifiers_bare (t : Tree) : t.bare.identifiers = t.identifiers := by
  have word (k : Kind) (same : decide (k = .token .identifier) = true) : k.isFirm = true := by
    rw [of_decide_eq_true same]
    rfl
  rw [identifiers, identifiers, part?_bare]
  cases t.part? .identifierList with
  | none => rfl
  | some list =>
    show (list.bare.children.filter fun c => c.kind = .token .identifier).map text = _
    rw [filter_bare word, List.map_map]
    refine List.map_congr_left fun c member => ?_
    exact congrArg text (bare_leaf (of_decide_eq_true (List.mem_filter.mp member).2))

theorem filterMap_bare {α : Type} (read : Tree → Option α)
    (firm : ∀ t : Tree, t.kind.isFirm = false → read t = none) (t : Tree)
    (same : ∀ c ∈ t.children, read c.bare = read c) :
    t.bare.children.filterMap read = t.children.filterMap read := by
  rw [children_bare, List.filterMap_map, List.filterMap_filter]
  refine List.filterMap_congr fun c member => ?_
  cases kept : c.kind.isFirm with
  | false => exact (firm c kept).symm
  | true => exact same c member

theorem descend?_bare (kinds : List NodeKind) (t : Tree) :
    t.bare.descend? kinds = (t.descend? kinds).map bare := by
  induction kinds generalizing t with
  | nil => rfl
  | cons kind kinds ih =>
    rw [descend?, descend?, part?_bare, Option.bind_map, Option.map_bind]
    exact congrArg (t.part? kind).bind (funext ih)

theorem chain_bare (kind : NodeKind) (kinds : List NodeKind) (t : Tree) :
    t.bare.chain kind kinds = (t.chain kind kinds).map bare := by
  induction t using chain.induct kind kinds with
  | case1 t last =>
    have last' : t.bare.descend? (kind :: kinds) = none := by rw [descend?_bare, last]; rfl
    rw [chain_last last, chain_last last']
    rfl
  | case2 t next found _ ih =>
    have found' : t.bare.descend? (kind :: kinds) = some next.bare := by
      rw [descend?_bare, found]
      rfl
    rw [chain_next found, chain_next found', ih, List.map_cons]

end Tree

open CraftDsl.Tree

theorem Modifier.valueOf?_bare (t : Tree) : Modifier.valueOf? t.bare = Modifier.valueOf? t := by
  rw [Modifier.valueOf?, Modifier.valueOf?, part?_bare, word?_bare t rfl, identifier?_bare]
  cases t.part? .boolean with
  | none => rfl
  | some boolean =>
    show some (ModifierValue.boolean (boolean.bare.word? (.keyword .trueValue)).isSome) = _
    rw [word?_bare boolean rfl]

theorem Modifier.ofTree_bare (t : Tree) : Modifier.ofTree t.bare = Modifier.ofTree t := by
  rw [Modifier.ofTree, Modifier.ofTree, identifierIn?_bare, Modifier.valueOf?_bare]

theorem Component.ofTree_bare (t : Tree) : Component.ofTree t.bare = Component.ofTree t := by
  have modifiers : ((t.bare.parts .componentModifiers).flatMap fun brackets =>
      (brackets.parts .modifierList).flatMap fun list => list.parts .modifier) =
      ((t.parts .componentModifiers).flatMap fun brackets =>
        (brackets.parts .modifierList).flatMap fun list => list.parts .modifier).map bare := by
    rw [parts_bare, List.flatMap_map, List.map_flatMap]
    refine List.flatMap_congr fun brackets _ => ?_
    rw [parts_bare, List.flatMap_map, List.map_flatMap]
    exact List.flatMap_congr fun list _ => parts_bare list .modifier
  rw [Component.ofTree, Component.ofTree, identifierIn?_bare, modifiers, List.map_map]
  exact congrArg (Component.mk _) (List.map_congr_left fun m _ => Modifier.ofTree_bare m)

theorem Component.allUnder_bare (t : Tree) : Component.allUnder t.bare = Component.allUnder t := by
  rw [Component.allUnder, Component.allUnder, parts_bare, List.map_map]
  exact List.map_congr_left fun c _ => Component.ofTree_bare c

theorem ComponentLine.ofTree?_bare (t : Tree) :
    ComponentLine.ofTree? t.bare = ComponentLine.ofTree? t := by
  simp only [ComponentLine.ofTree?, bare_kind, Component.allUnder_bare]

namespace Section

theorem listNodes_bare (t : Tree) : listNodes t.bare = (listNodes t).map bare := by
  rw [listNodes, listNodes, part?_bare]
  cases t.part? .archComponentList with
  | none => rfl
  | some list => exact chain_bare _ _ list

theorem lineNodes_bare (t : Tree) : lineNodes t.bare = (lineNodes t).map bare := by
  have line (k : Kind) (passed : ComponentLine.isNode k = true) : k.isFirm = true := by
    cases k with
    | token kind => cases passed
    | node kind => rfl
  rw [lineNodes, lineNodes, listNodes_bare, List.filterMap_map, List.map_filterMap]
  exact List.filterMap_congr fun list _ => child?_bare line list

theorem ofTree?_bare (t : Tree) : ofTree? t.bare = ofTree? t := by
  have lines : (lineNodes t.bare).filterMap ComponentLine.ofTree? =
      (lineNodes t).filterMap ComponentLine.ofTree? := by
    rw [lineNodes_bare, List.filterMap_map]
    exact List.filterMap_congr fun line _ => ComponentLine.ofTree?_bare line
  simp only [ofTree?, kindOf?, bare_kind, lines]

theorem firm_isNode (k : Kind) (passed : isNode k = true) : k.isFirm = true := by
  cases k with
  | token kind => cases passed
  | node kind => rfl

theorem next?_bare (t : Tree) : next? t.bare = (next? t).map bare := by
  rw [next?, next?, listNodes_bare, List.getLast?_map, Option.bind_map, Option.map_bind]
  refine congrArg (listNodes t).getLast?.bind (funext fun list => ?_)
  show (list.bare.part? .archContinuation).bind _ = _
  rw [part?_bare, Option.bind_map, Function.comp, Option.map_bind]
  exact congrArg (list.part? .archContinuation).bind (funext (child?_bare firm_isNode))

theorem nodesFrom_bare (t : Tree) : nodesFrom t.bare = (nodesFrom t).map bare := by
  induction t using nodesFrom.induct with
  | case1 t last =>
    have last' : next? t.bare = none := by rw [next?_bare, last]; rfl
    rw [nodesFrom_last last, nodesFrom_last last']
    rfl
  | case2 t next found _ ih =>
    have found' : next? t.bare = some next.bare := by rw [next?_bare, found]; rfl
    rw [nodesFrom_next found, nodesFrom_next found', ih, List.map_cons]

end Section

theorem Arch.ofTree_bare (t : Tree) : Arch.ofTree t.bare = Arch.ofTree t := by
  have sections : Arch.sectionNodes t.bare = (Arch.sectionNodes t).map bare := by
    rw [Arch.sectionNodes, Arch.sectionNodes, child?_bare Section.firm_isNode]
    cases t.child? Section.isNode with
    | none => rfl
    | some first => exact Section.nodesFrom_bare first
  rw [Arch.ofTree, Arch.ofTree, identifier?_bare, sections, List.filterMap_map]
  exact congrArg (Arch.mk _) (List.filterMap_congr fun s _ => Section.ofTree?_bare s)

/-- Nodes around a single token hold just that, and phrases hold no newline. -/
structure Tree.Orderly (t : Tree) : Prop where
  sheathed : t.Everywhere Sheathed
  inline : ∀ p ∈ t.subtrees, p.kind = .node .phrase → ∀ token ∈ p.tokens, token.kind ≠ .newline

namespace Tree.Orderly

variable {t c : Tree}

theorem below (orderly : t.Orderly) (inside : c ∈ t.subtrees) : c.Orderly where
  sheathed kind children under := orderly.sheathed kind children (subtrees_subset inside under)
  inline p under := orderly.inline p (subtrees_subset inside under)

theorem child (orderly : t.Orderly) (member : c ∈ t.children) : c.Orderly := by
  cases t with
  | leaf token => cases member
  | node kind children => exact orderly.below (mem_subtrees_child member)

theorem part (orderly : t.Orderly) {kind : NodeKind} (found : t.part? kind = some c) :
    c.Orderly ∧ c.kind = .node kind := by
  have same := List.find?_some (p := fun c : Tree => decide (c.kind = .node kind)) found
  exact ⟨orderly.child (List.mem_of_find?_eq_some found), of_decide_eq_true same⟩

theorem parts (orderly : t.Orderly) {kind : NodeKind} (member : c ∈ t.parts kind) : c.Orderly :=
  orderly.child (List.mem_of_mem_filter member)

end Tree.Orderly

theorem content_firm {kind : NodeKind} {content : KindSet} (holds : kind.content? = some content)
    {token : TokenKind} (member : content.has token = true) : (Kind.token token).isFirm = true := by
  have kinds : ∀ kind : NodeKind, ((kind.content?).all fun content =>
      content.tokens.all fun token => (Kind.token token).isFirm) = true := by
    intro kind
    cases kind <;> decide +kernel
  have all := kinds kind
  rw [holds, Option.all_some, List.all_eq_true] at all
  exact all token (KindSet.mem_tokens member)

theorem bare_sheathed {t : Tree} {kind : NodeKind} (sheathed : t.Everywhere Sheathed)
    (same : t.kind = .node kind) (single : kind.content?.isSome = true) : t.bare = t := by
  obtain ⟨children, rfl⟩ := node_of_kind same
  obtain ⟨content, holds⟩ := Option.isSome_iff_exists.mp single
  obtain ⟨token, rfl, member⟩ := sheathed kind children (mem_subtrees_self _) content holds
  have firm : ∀ t ∈ [leaf token], t.kind.isFirm = true :=
    List.forall_mem_singleton.mpr (content_firm holds member)
  rw [bare, siftAll_bare, List.filter_eq_self.mpr firm]
  rfl

theorem firstWordIn?_bare {t : Tree} (orderly : t.Orderly) {kind : NodeKind}
    (single : kind.content?.isSome = true) : t.bare.firstWordIn? kind = t.firstWordIn? kind := by
  rw [firstWordIn?, firstWordIn?, part?_bare]
  cases found : t.part? kind with
  | none => rfl
  | some part =>
    obtain ⟨inner, same⟩ := orderly.part found
    rw [Option.map_some, bare_sheathed inner.sheathed same single]

mutual

theorem tokens_sift : (t : Tree) →
    (t.sift Token.content).flatMap Tree.tokens = t.tokens.filterMap Token.content
  | .leaf token => by
    have single : (leaf token).tokens = [token] := rfl
    rw [sift, single, List.filterMap_cons]
    cases token.content <;> rfl
  | .node kind children => by
    rw [sift, List.flatMap_singleton, tokens_node, tokens_node, tokens_siftAll children]

theorem tokens_siftAll : (ts : List Tree) →
    (siftAll Token.content ts).flatMap Tree.tokens =
      (ts.flatMap Tree.tokens).filterMap Token.content
  | [] => rfl
  | t :: ts => by
    rw [siftAll, List.flatMap_append, tokens_sift t, tokens_siftAll ts, List.flatMap_cons,
      List.filterMap_append]

end

theorem content_inline {tokens : List Token} (inline : ∀ token ∈ tokens, token.kind ≠ .newline) :
    tokens.filterMap Token.content = tokens.filter fun token => !token.isTrivia := by
  rw [← List.filterMap_eq_filter]
  refine List.filterMap_congr fun token member => ?_
  rw [Token.content, decide_eq_false (inline token member), Bool.or_false, Option.guard]
  cases token.isTrivia <;> rfl

theorem Phrase.under?_bare {t : Tree} (orderly : t.Orderly) :
    Phrase.under? t.bare = Phrase.under? t := by
  rw [Phrase.under?, Phrase.under?, part?_bare]
  cases found : t.part? .phrase with
  | none => rfl
  | some part =>
    obtain ⟨inner, same⟩ := orderly.part found
    have inline := inner.inline part (mem_subtrees_self part) same
    obtain ⟨children, rfl⟩ := node_of_kind same
    have tokens : (node .phrase children).bare.tokens =
        (node .phrase children).tokens.filterMap Token.content := by
      rw [bare, tokens_node, tokens_siftAll, tokens_node]
    rw [Option.map_some, Option.map_some, Option.map_some, Phrase.ofTree, Phrase.ofTree, tokens,
      content_inline inline, List.filter_filter]
    simp

theorem connector?_bare {t : Tree} (orderly : t.Orderly) : connector? t.bare = connector? t :=
  firstWordIn?_bare orderly rfl

theorem Trigger.ofTree?_bare {t : Tree} (orderly : t.Orderly) :
    Trigger.ofTree? t.bare = Trigger.ofTree? t := by
  simp only [Trigger.ofTree?, bare_kind, identifierIn?_bare, connector?_bare orderly,
    Phrase.under?_bare orderly, word?_bare t (rfl : (Kind.token .string).isFirm = true),
    identifier?_bare]

theorem Action.ofTree?_bare {t : Tree} (orderly : t.Orderly) :
    Action.ofTree? t.bare = Action.ofTree? t := by
  simp only [Action.ofTree?, bare_kind, identifierIn?_bare, connector?_bare orderly,
    Phrase.under?_bare orderly, word?_bare t (rfl : (Kind.token .string).isFirm = true)]

theorem Deployment.ofTree_bare {t : Tree} (orderly : t.Orderly) :
    Deployment.ofTree t.bare = Deployment.ofTree t := by
  have rules : ((t.bare.parts .deploymentRules).flatMap fun list => list.parts .deploymentRule) =
      ((t.parts .deploymentRules).flatMap fun list => list.parts .deploymentRule).map bare := by
    rw [parts_bare, List.flatMap_map, List.map_flatMap]
    exact List.flatMap_congr fun list _ => parts_bare list .deploymentRule
  have rule (t : Tree) : DeploymentRule.ofTree t.bare = DeploymentRule.ofTree t := by
    rw [DeploymentRule.ofTree, DeploymentRule.ofTree, word?_bare t rfl, identifier?_bare]
  rw [Deployment.ofTree, Deployment.ofTree, firstWordIn?_bare orderly rfl, rules, List.map_map]
  exact congrArg (Deployment.mk _) (List.map_congr_left fun r _ => rule r)

theorem ServiceProperty.ofTree?_bare {t : Tree} (orderly : t.Orderly) :
    ServiceProperty.ofTree? t.bare = ServiceProperty.ofTree? t := by
  have spec : (t.bare.part? .deploymentSpec).map Deployment.ofTree =
      (t.part? .deploymentSpec).map Deployment.ofTree := by
    rw [part?_bare]
    cases found : t.part? .deploymentSpec with
    | none => rfl
    | some part => exact congrArg some (Deployment.ofTree_bare (orderly.part found).1)
  simp only [ServiceProperty.ofTree?, bare_kind, identifiers_bare, identifier?_bare, spec]

theorem Service.propertiesOf_bare {t : Tree} (orderly : t.Orderly) :
    Service.propertiesOf t.bare = Service.propertiesOf t := by
  refine filterMap_bare _ (fun t blank => ?_) t fun c member =>
    ServiceProperty.ofTree?_bare (orderly.child member)
  cases t with
  | leaf token => rfl
  | node kind children => cases blank

theorem Service.ofBlock_bare {t : Tree} (orderly : t.Orderly) :
    Service.ofBlock t.bare = Service.ofBlock t := by
  rw [Service.ofBlock, Service.ofBlock, identifier?_bare, Service.propertiesOf_bare orderly]

theorem Service.ofDefinition_bare {t : Tree} (orderly : t.Orderly) :
    Service.ofDefinition t.bare = Service.ofDefinition t := by
  rw [Service.ofDefinition, Service.ofDefinition, wordOf?_bare t (by decide),
    Service.propertiesOf_bare orderly]

theorem Domain.ofTree_bare (t : Tree) : Domain.ofTree t.bare = Domain.ofTree t := by
  rw [Domain.ofTree, Domain.ofTree, identifier?_bare, parts_bare, List.filterMap_map]
  exact congrArg (Domain.mk _) (List.filterMap_congr fun c _ => identifier?_bare c)

theorem Actor.ofTree_bare {t : Tree} (orderly : t.Orderly) : Actor.ofTree t.bare = Actor.ofTree t := by
  rw [Actor.ofTree, Actor.ofTree, firstWordIn?_bare orderly rfl, identifierIn?_bare]

theorem Exposure.ofTree_bare (t : Tree) : Exposure.ofTree t.bare = Exposure.ofTree t := by
  have properties : t.bare.children.filterMap ExposureProperty.ofTree? =
      t.children.filterMap ExposureProperty.ofTree? := by
    refine filterMap_bare _ (fun t blank => ?_) t fun c _ => ?_
    · cases t with
      | leaf token => rfl
      | node kind children => cases blank
    · simp only [ExposureProperty.ofTree?, bare_kind, identifiers_bare]
  rw [Exposure.ofTree, Exposure.ofTree, identifier?_bare, properties]

theorem item_bare {t : Tree} (orderly : t.Orderly) (other : t.kind ≠ .node .useCaseBlock) :
    Item.ofTree? t.bare = Item.ofTree? t := by
  have services : (t.bare.parts .serviceDefinition).map Service.ofDefinition =
      (t.parts .serviceDefinition).map Service.ofDefinition := by
    rw [parts_bare, List.map_map]
    exact List.map_congr_left fun c member => Service.ofDefinition_bare (orderly.parts member)
  have domains : (t.bare.parts .domainDefinition).map Domain.ofTree =
      (t.parts .domainDefinition).map Domain.ofTree := by
    rw [parts_bare, List.map_map]
    exact List.map_congr_left fun c _ => Domain.ofTree_bare c
  have actors : (t.bare.parts .actorDefinition).map Actor.ofTree =
      (t.parts .actorDefinition).map Actor.ofTree := by
    rw [parts_bare, List.map_map]
    exact List.map_congr_left fun c member => Actor.ofTree_bare (orderly.parts member)
  simp only [Item.ofTree?, bare_kind, Arch.ofTree_bare, services, Service.ofBlock_bare orderly,
    Domain.ofTree_bare, domains, actors, Actor.ofTree_bare orderly, Exposure.ofTree_bare]
  split <;> first | rfl | exact absurd ‹_› other

end CraftDsl
