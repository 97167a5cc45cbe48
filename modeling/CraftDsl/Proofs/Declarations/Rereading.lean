import CraftDsl.Proofs.Declarations.Reading

/-!
Declarations that are printed and read again are the same. Main statement: `declarations_roundTrip`.
-/
namespace CraftDsl

open CraftDsl.Tree

section

variable {α β : Type} {tree : α → Tree} {xs : List α}

/-- Of a list only the trees are of their kind, not the commas and blanks between. -/
theorem commas_filter {passes : Tree → Bool} (comma : passes (leaf (sign ',')) = false)
    (space : passes (leaf blank) = false) (each : ∀ x ∈ xs, passes (tree x) = true) :
    (xs.flatMap fun x => [leaf (sign ','), leaf blank, tree x]).filter passes = xs.map tree := by
  induction xs with
  | nil => rfl
  | cons x xs ih =>
    obtain ⟨here, later⟩ := List.forall_mem_cons.mp each
    rw [List.flatMap_cons, List.filter_append, ih later]
    simp [comma, space, here]

theorem lines_filterMap {make : Tree → Option β} {value : α → β}
    (none : ∀ token, make (leaf token) = none) (each : ∀ x ∈ xs, make (tree x) = some (value x)) :
    (xs.flatMap fun x => [tree x, leaf lineBreak]).filterMap make = xs.map value := by
  induction xs with
  | nil => rfl
  | cons x xs ih =>
    obtain ⟨here, later⟩ := List.forall_mem_cons.mp each
    rw [List.flatMap_cons, List.filterMap_append, ih later, List.filterMap_cons_some here,
      List.filterMap_cons_none (none lineBreak)]
    rfl

theorem body_filterMap {make : Tree → Option β} {value : α → β}
    (none : ∀ token, make (leaf token) = none) (each : ∀ x ∈ xs, make (tree x) = some (value x))
    (front back : List Token) :
    (front.map leaf ++ (bodyTrees (xs.map tree) ++ back.map leaf)).filterMap make = xs.map value := by
  have silent (tokens : List Token) : (tokens.map leaf).filterMap make = [] := by
    rw [List.filterMap_map]
    exact List.filterMap_eq_nil_iff.mpr fun token _ => none token
  have opened := silent [blank, part ['\x7b'], lineBreak]
  have closed := silent [closing]
  have body : (bodyTrees (xs.map tree)).filterMap make = xs.map value := by
    rw [bodyTrees, List.flatMap_map, List.filterMap_append, List.filterMap_append,
      lines_filterMap none each]
    exact (congrArg₂ (fun front back => front ++ xs.map value ++ back) opened closed).trans
      (List.append_nil _)
  rw [List.filterMap_append, List.filterMap_append, silent, silent, body, List.nil_append,
    List.append_nil]

theorem body_parts {kind : NodeKind} (each : ∀ x ∈ xs, (tree x).kind = .node kind)
    (root : NodeKind) (front back : List Token) :
    (node root (front.map leaf ++ (bodyTrees (xs.map tree) ++ back.map leaf))).parts kind =
      xs.map tree := by
  have token (t : Token) : Option.guard (fun c : Tree => decide (c.kind = .node kind)) (leaf t) =
      none := rfl
  have line (x : α) (member : x ∈ xs) :
      Option.guard (fun c : Tree => decide (c.kind = .node kind)) (tree x) = some (tree x) := by
    rw [Option.guard_eq_some_iff]
    exact ⟨rfl, decide_eq_true (each x member)⟩
  have all := body_filterMap token line front back
  rwa [List.filterMap_eq_filter] at all

end

theorem identifier?_after {front : List Token} (other : ∀ token ∈ front, token.kind ≠ .identifier)
    (root : NodeKind) (w : Word) (more : List Tree) :
    (node root (front.map leaf ++ identifierLeaf w :: more)).identifier? = some w := by
  refine word?_leaf ?_
  have none : (front.map leaf).find? (fun t => [TokenKind.identifier].any fun kind =>
      t.kind = .token kind) = none := by
    rw [List.find?_map, Option.map_eq_none_iff, List.find?_eq_none]
    intro token member
    simpa [Tree.kind] using other token member
  rw [Tree.child?, Tree.children, List.find?_append, none, Option.none_or]
  exact List.find?_cons_of_pos rfl

theorem keyword_front (k : Keyword) (tokens : List Token)
    (other : ∀ token ∈ tokens, token.kind ≠ .identifier) :
    ∀ token ∈ part k.word :: tokens, token.kind ≠ .identifier := by
  refine List.forall_mem_cons.mpr ⟨?_, other⟩
  rw [Production.part_keyword]
  exact TokenKind.noConfusion

theorem NameList.identifiers_tree (l : NameList) (kind : NodeKind) (k : Keyword) :
    (propertyTree kind k [leaf blank, l.tree]).identifiers = l.words := by
  obtain ⟨first, others, trailing⟩ := l
  have list : (propertyTree kind k [leaf blank, NameList.tree ⟨first, others, trailing⟩]).part?
      .identifierList = some (NameList.tree ⟨first, others, trailing⟩) := rfl
  have comma : (if trailing then [leaf (sign ',')] else []).filter
      (fun c => c.kind = .token .identifier) = [] := by cases trailing <;> rfl
  have found : (NameList.tree ⟨first, others, trailing⟩).children.filter
      (fun c => c.kind = .token .identifier) =
        (first :: others).map fun name => identifierLeaf name.word := by
    rw [NameList.tree, Tree.children, List.filter_cons_of_pos rfl, List.filter_append,
      commas_filter rfl rfl fun _ _ => rfl, comma, List.append_nil, List.map_cons]
  rw [Tree.identifiers, list]
  show (List.filter _ _).map Tree.text = _
  rw [found, List.map_map]
  exact List.map_congr_left fun name _ => text_leaf _

theorem Rollout.ofTree_tree (r : Rollout) : DeploymentRule.ofTree r.tree = r.rule :=
  congrArg₂ (fun share target => DeploymentRule.mk (some share) (some target)) (text_leaf _)
    (text_leaf _)

theorem Deployment.ofTree_spec (strategy : Strategy) (rules : List Rollout) :
    Deployment.ofTree (node .deploymentSpec ([leaf blank,
      node .deploymentType [leaf (part strategy.keyword.word)]] ++ rulesTrees rules)) =
        ⟨some strategy.keyword.word, rules.map Rollout.rule⟩ := by
  set spec : Tree := node .deploymentSpec ([leaf blank,
    node .deploymentType [leaf (part strategy.keyword.word)]] ++ rulesTrees rules) with spec_eq
  have typed : spec.firstWordIn? .deploymentType = some strategy.keyword.word := rfl
  have found : ((spec.parts .deploymentRules).flatMap fun list => list.parts .deploymentRule) =
      rules.map Rollout.tree := by
    cases rules with
    | nil => rfl
    | cons r rs =>
      have others : ((rs.flatMap fun r => [leaf (sign ','), leaf blank, r.tree]) ++
          [leaf (sign ')')]).filter (fun c => c.kind = .node .deploymentRule) =
            rs.map Rollout.tree := by
        rw [List.filter_append, commas_filter rfl rfl fun _ _ => rfl]
        exact List.append_nil _
      exact (List.append_nil _).trans (congrArg (r.tree :: ·) others)
  have read : (rules.map Rollout.tree).map DeploymentRule.ofTree = rules.map Rollout.rule := by
    rw [List.map_map]
    exact List.map_congr_left fun r _ => r.ofTree_tree
  rw [Deployment.ofTree, typed, found, read]

theorem ServiceLine.ofTree?_tree (l : ServiceLine) : ServiceProperty.ofTree? l.tree = some l.property := by
  cases l with
  | domains names =>
    exact congrArg (fun words => some (ServiceProperty.domains words)) (names.identifiers_tree _ _)
  | language name =>
    have front := keyword_front .language [sign ':', blank] (by decide)
    exact congrArg (fun word => some (ServiceProperty.language word)) (identifier?_after front _ _ [])
  | dataStores names =>
    exact congrArg (fun words => some (ServiceProperty.dataStores words)) (names.identifiers_tree _ _)
  | deployment strategy rules =>
    exact congrArg (fun spec => some (ServiceProperty.deployment (some spec)))
      (Deployment.ofTree_spec strategy rules)

theorem ExposureLine.ofTree?_tree (l : ExposureLine) :
    ExposureProperty.ofTree? l.tree = some l.property := by
  obtain ⟨relation, names⟩ := l
  have found := names.identifiers_tree (relationNode relation) (relationKeyword relation)
  cases relation <;> exact congrArg (fun words => some (ExposureProperty.mk _ words)) found

theorem ActorEntry.ofTree_trees (e : ActorEntry) {t : Tree}
    (typed : t.part? .actorType = some (node .actorType [leaf (part e.role.keyword.word)]))
    (name : t.part? .actorName = some (named .actorName e.name.word)) : Actor.ofTree t = e.actor := by
  have role : t.firstWordIn? .actorType = some e.role.keyword.word := by
    rw [Tree.firstWordIn?, typed]
    rfl
  rw [Actor.ofTree, role, identifierIn?_named name, ActorEntry.actor]

section

variable (root : NodeKind) (front back : List Token)

theorem propertiesOf_body (properties : List ServiceLine) :
    Service.propertiesOf (node root (front.map leaf ++
      (bodyTrees (properties.map ServiceLine.tree) ++ back.map leaf))) =
        properties.map ServiceLine.property :=
  body_filterMap (fun _ => rfl) (fun l _ => l.ofTree?_tree) front back

theorem DomainEntry.ofTree_trees (e : DomainEntry)
    (other : ∀ token ∈ front, token.kind ≠ .identifier) :
    Domain.ofTree (node root (front.map leaf ++ (e.trees ++ back.map leaf))) = e.domain := by
  have named : (node root (front.map leaf ++ (e.trees ++ back.map leaf))).identifier? =
      some e.name.word := identifier?_after other root e.name.word _
  let name : Token := ⟨.identifier, e.name.word⟩
  have found : (node root ((front ++ [name]).map leaf ++
      (bodyTrees (e.subdomains.map subdomainTree) ++ back.map leaf))).parts .subdomain =
        e.subdomains.map subdomainTree := body_parts (fun _ _ => rfl) root _ back
  have nodes : (node root (front.map leaf ++ (e.trees ++ back.map leaf))).parts .subdomain =
      e.subdomains.map subdomainTree := by
    rwa [List.map_append, List.append_assoc] at found
  have read : (e.subdomains.map subdomainTree).filterMap Tree.identifier? =
      e.subdomains.map Name.word := by
    rw [List.filterMap_map, ← List.filterMap_eq_map]
    exact List.filterMap_congr fun name _ => identifier?_named .subdomain name.word
  rw [Domain.ofTree, named, nodes, read, DomainEntry.domain]

/-- The definitions of a block, each of which is found again in its own tree. -/
theorem definitions_read {α β : Type} {tree : α → Tree} {make : Tree → β} {value : α → β}
    {kind : NodeKind} (definitions : List α) (kinds : ∀ e ∈ definitions, (tree e).kind = .node kind)
    (each : ∀ e, make (tree e) = value e) :
    ((node root (front.map leaf ++ (bodyTrees (definitions.map tree) ++ back.map leaf))).parts
      kind).map make = definitions.map value := by
  rw [body_parts kinds, List.map_map]
  exact List.map_congr_left fun e _ => each e

end

theorem ServiceEntry.ofDefinition_tree (e : ServiceEntry) :
    Service.ofDefinition e.tree = e.service := by
  obtain ⟨title, properties⟩ := e
  obtain ⟨token, same, titled⟩ : ∃ token, title.tree = leaf token ∧
      (ServiceEntry.tree ⟨title, properties⟩).wordOf? [.string, .identifier] = some title.text := by
    cases title with
    | word name => exact ⟨_, rfl, congrArg some (text_leaf _)⟩
    | quoted text spelled => exact ⟨_, rfl, congrArg some (text_leaf _)⟩
  have read := propertiesOf_body .serviceDefinition [token] [] properties
  rw [List.map_nil, List.append_nil, List.map_singleton, ← same] at read
  exact congrArg₂ Service.mk titled read

theorem Declaration.ofTree?_tree (d : Declaration) : Item.ofTree? d.tree = some d.item := by
  cases d with
  | services definitions =>
    have read := definitions_read .servicesBlock [part Keyword.services.word] [lineBreak] definitions
      (fun _ _ => rfl) ServiceEntry.ofDefinition_tree
    exact congrArg (fun services => some (Item.services services)) read
  | service name properties =>
    have front := keyword_front .service [blank] (by decide)
    have named := identifier?_after front .serviceBlock name.word
    have read := propertiesOf_body .serviceBlock
      [part Keyword.service.word, blank, ⟨.identifier, name.word⟩] [lineBreak] properties
    exact congrArg₂ (fun name properties => some (Item.service ⟨name, properties⟩)) (named _) read
  | domain definition =>
    have front := keyword_front .domain [blank] (by decide)
    have read := definition.ofTree_trees .domainBlock [part Keyword.domain.word, blank] [lineBreak]
      front
    exact congrArg (fun domain => some (Item.domain domain)) read
  | domains definitions =>
    have each (e : DomainEntry) : Domain.ofTree (node .domainDefinition e.trees) = e.domain := by
      have read := e.ofTree_trees .domainDefinition [] [] (List.forall_mem_nil _)
      rwa [List.map_nil, List.append_nil] at read
    have read := definitions_read .domainsBlock [part Keyword.domains.word] [lineBreak] definitions
      (fun _ _ => rfl) each
    exact congrArg (fun domains => some (Item.domains domains)) read
  | actors definitions =>
    have each (e : ActorEntry) : Actor.ofTree (node .actorDefinition e.trees) = e.actor :=
      e.ofTree_trees rfl rfl
    have read := definitions_read .actorsBlock [part Keyword.actors.word] [lineBreak] definitions
      (fun _ _ => rfl) each
    exact congrArg (fun actors => some (Item.actors actors)) read
  | actor definition =>
    exact congrArg (fun actor => some (Item.actor actor)) (definition.ofTree_trees rfl rfl)
  | exposure name properties =>
    have front := keyword_front .exposure [blank] (by decide)
    have named := identifier?_after front .exposureBlock name.word
    have read : (Declaration.exposure name properties).tree.children.filterMap
        ExposureProperty.ofTree? = properties.map ExposureLine.property :=
      body_filterMap (fun _ => rfl) (fun l _ => l.ofTree?_tree)
        [part Keyword.exposure.word, blank, ⟨.identifier, name.word⟩] [lineBreak]
    exact congrArg₂ (fun name properties => some (Item.exposure ⟨name, properties⟩)) (named _) read

namespace Declaration

def keyword : Declaration → Keyword
  | services _ => .services
  | service _ _ => .service
  | domain _ => .domain
  | domains _ => .domains
  | actors _ => .actors
  | actor _ => .actor
  | exposure _ _ => .exposure

theorem tokens_eq (d : Declaration) : d.tokens = part d.keyword.word :: d.tokens.tail := by
  cases d <;> rfl

theorem begins (d : Declaration) (more : List Token) :
    KindSet.itemFirst.has (kindIn 0 (d.tokens ++ more)) = true := by
  rw [d.tokens_eq, List.cons_append, kindIn_part, KindSet.itemFirst, keywords_part d.keyword.spelled,
    decide_eq_true_iff]
  refine List.mem_map_of_mem ?_
  cases d <;> simp [keyword]

end Declaration

theorem declarations_laps (ds : List Declaration) :
    Production.Rounds Production.lap (ds.flatMap Declaration.tokens)
      ((ds.map Declaration.tree).map Piece.tree) [] := by
  induction ds with
  | nil => exact .last (p := []) Production.lap_ends
  | cons d ds ih =>
    have next : kindIn 0 (ds.flatMap Declaration.tokens) ≠ .newline := by
      cases ds with
      | nil => exact TokenKind.noConfusion
      | cons e es =>
        intro newline
        have first := e.begins (es.flatMap Declaration.tokens)
        rw [← List.flatMap_cons, newline] at first
        cases first
    have lap := Production.lap_item (d.begins _) (Production.declaration_builds d next)
    have fewer : 0 < d.tokens.length := by cases d <;> exact Nat.succ_pos _
    rw [List.flatMap_cons]
    exact .more lap (by rw [List.length_append]; omega) ih

/-- Declarations that are printed and read again are the same, in order, and nothing is reported. -/
theorem declarations_roundTrip (ds : List Declaration) :
    (parse (declarationsText ds)).diagnostics = [] ∧
      (parse (declarationsText ds)).items = ds.map Declaration.item := by
  have lexes := declarations_lexes ds
  obtain ⟨silent, tree⟩ := source_reread lexes.whole lexes.sound (declarations_laps ds)
  refine ⟨silent, ?_⟩
  rw [Parse.items, tree, Tree.children, List.filterMap_map, ← List.filterMap_eq_map]
  exact List.filterMap_congr fun d _ => d.ofTree?_tree

end CraftDsl
