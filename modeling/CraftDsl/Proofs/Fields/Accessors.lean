import CraftDsl.Ast.Item
import CraftDsl.Proofs.Fields.Lookup

/-!
Fields and the typed view. The field of a child follows from its kind and the node types of the
language, while each part of the typed view looks for kinds of its own. Both find the same child. Main
statements: `accessors_agree`, `accessors_cover`.
-/
namespace CraftDsl

namespace Trigger

def actor? : Trigger → Option Word
  | external actor _ _ _ => actor
  | _ => none

def verb? : Trigger → Option Word
  | external _ verb _ _ => verb
  | _ => none

def connectorWord? : Trigger → Option Word
  | external _ _ connector _ => connector
  | _ => none

def phrase? : Trigger → Option Phrase
  | external _ _ _ phrase => phrase
  | _ => none

def domain? : Trigger → Option Word
  | listener domain _ => domain
  | _ => none

def event? : Trigger → Option Word
  | event name | listener _ name => name
  | _ => none

end Trigger

namespace Action

def subject? : Action → Option Word
  | sync subject _ _ _ | async subject _ _ | internal subject _ _ _ | returns subject _ _ _ => subject

def target? : Action → Option Word
  | sync _ target _ _ | returns _ target _ _ => target
  | _ => none

def verb? : Action → Option Word
  | internal _ verb _ _ => verb
  | _ => none

def event? : Action → Option Word
  | async _ event _ => event
  | _ => none

def connectorWord? : Action → Option Word
  | sync _ _ connector _ | internal _ _ connector _ | returns _ _ connector _ => connector
  | _ => none

def phrase? : Action → Option Phrase
  | sync _ _ _ phrase | async _ _ phrase | internal _ _ _ phrase | returns _ _ _ phrase => phrase

end Action

inductive Reading
  | word (word : Word)
  | phrase (phrase : Phrase)
  | value (value : ModifierValue)

/-- What a part of the typed view looks for in a node. -/
inductive Search
  /-- A token of one of the kinds. -/
  | token (kinds : List TokenKind)
  /-- An identifier in the first part of the kind. -/
  | identifierIn (part : NodeKind)
  /-- The first token in the first part of the kind. -/
  | firstWordIn (part : NodeKind)
  | phrase
  /-- A boolean, or else a number, or else an identifier. -/
  | value

namespace Search

def passes : Search → Kind → Bool
  | token kinds, kind => kinds.any fun k => kind = .token k
  | identifierIn part, kind | firstWordIn part, kind => kind = .node part
  | phrase, kind => kind = .node .phrase
  | value, kind => kind = .node .boolean || kind = .token .number || kind = .token .identifier

def find? (n : Node) : Search → Option Node
  | token kinds => n.tokenOf? kinds
  | identifierIn part => (n.part? part).bind fun inner => inner.tokenOf? [.identifier]
  | firstWordIn part =>
    (n.part? part).bind fun inner => inner.everything.find? fun below => below.kind.isToken
  | phrase => n.part? .phrase
  | value =>
    match n.part? .boolean, n.tokenOf? [.number] with
    | some boolean, _ => some boolean
    | none, some number => some number
    | none, none => n.tokenOf? [.identifier]

def reading (t : Tree) : Search → Reading
  | phrase => .phrase (.ofTree t)
  | value =>
    .value <|
      match t.kind with
      | .node _ => .boolean (t.word? (.keyword .trueValue)).isSome
      | .token .number => .number t.text
      | .token _ => .identifier t.text
  | _ => .word t.text

/-- Where in the child of the field the search ends: at the first identifier or keyword below, or at
the child itself. -/
def target? (child : Node) : Search → Option Node
  | identifierIn _ => child.descendants.find? fun below => below.kind = .token .identifier
  | firstWordIn _ => child.descendants.find? fun below => below.kind.isKeyword
  | _ => some child

def read? (t : Tree) : Search → Option Reading
  | token kinds => (t.wordOf? kinds).map .word
  | identifierIn part => (t.identifierIn? part).map .word
  | firstWordIn part => (t.firstWordIn? part).map .word
  | phrase => (Phrase.under? t).map .phrase
  | value => (Modifier.valueOf? t).map .value

end Search

/-- A part of the typed view of nodes of the kind that goes with a field of theirs. -/
structure Accessor where
  kind : NodeKind
  field : String
  search : Search
  read : Tree → Option Reading

namespace Accessor

def ofTrigger (kind : NodeKind) (field : String) (search : Search) (read : Trigger → Option Reading) :
    Accessor :=
  ⟨kind, field, search, fun t => (Trigger.ofTree? t).bind read⟩

def ofAction (kind : NodeKind) (field : String) (search : Search) (read : Action → Option Reading) :
    Accessor :=
  ⟨kind, field, search, fun t => (Action.ofTree? t).bind read⟩

def ofBlocks : List Accessor :=
  [⟨.archBlock, "name", .token [.identifier], fun t => (Arch.ofTree t).name.map .word⟩,
    ⟨.componentWithModifiers, "name", .identifierIn .componentName,
      fun t => (Component.ofTree t).name.map .word⟩,
    ⟨.modifier, "key", .identifierIn .modifierKey, fun t => (Modifier.ofTree t).key.map .word⟩,
    ⟨.modifier, "value", .value, fun t => (Modifier.ofTree t).value.map .value⟩,
    ⟨.serviceBlock, "name", .token [.identifier], fun t => (Service.ofBlock t).name.map .word⟩,
    ⟨.serviceDefinition, "name", .token [.string, .identifier],
      fun t => (Service.ofDefinition t).name.map .word⟩,
    ⟨.deploymentSpec, "type", .firstWordIn .deploymentType,
      fun t => (Deployment.ofTree t).strategy.map .word⟩,
    ⟨.deploymentRule, "percentage", .token [.percentage],
      fun t => (DeploymentRule.ofTree t).percentage.map .word⟩,
    ⟨.deploymentRule, "target", .token [.identifier],
      fun t => (DeploymentRule.ofTree t).target.map .word⟩,
    ⟨.domainBlock, "name", .token [.identifier], fun t => (Domain.ofTree t).name.map .word⟩,
    ⟨.domainDefinition, "name", .token [.identifier], fun t => (Domain.ofTree t).name.map .word⟩,
    ⟨.actorBlock, "type", .firstWordIn .actorType, fun t => (Actor.ofTree t).type.map .word⟩,
    ⟨.actorBlock, "name", .identifierIn .actorName, fun t => (Actor.ofTree t).name.map .word⟩,
    ⟨.actorDefinition, "type", .firstWordIn .actorType, fun t => (Actor.ofTree t).type.map .word⟩,
    ⟨.actorDefinition, "name", .identifierIn .actorName, fun t => (Actor.ofTree t).name.map .word⟩,
    ⟨.exposureBlock, "name", .token [.identifier], fun t => (Exposure.ofTree t).name.map .word⟩,
    ⟨.useCaseBlock, "name", .token [.string], fun t => (UseCase.ofTree t).name.map .word⟩]

def ofTriggers : List Accessor :=
  [ofTrigger .externalTrigger "actor" (.identifierIn .triggerActor) fun t => t.actor?.map .word,
    ofTrigger .externalTrigger "verb" (.identifierIn .triggerVerb) fun t => t.verb?.map .word,
    ofTrigger .externalTrigger "connector" (.firstWordIn .connectorWord)
      fun t => t.connectorWord?.map .word,
    ofTrigger .externalTrigger "phrase" .phrase fun t => t.phrase?.map .phrase,
    ofTrigger .domainListener "domain" (.token [.identifier]) fun t => t.domain?.map .word,
    ofTrigger .domainListener "event" (.token [.string]) fun t => t.event?.map .word]

def ofActions : List Accessor :=
  [ofAction .syncAction "subject" (.identifierIn .actionSubject) fun a => a.subject?.map .word,
    ofAction .syncAction "target" (.identifierIn .actionTarget) fun a => a.target?.map .word,
    ofAction .syncAction "connector" (.firstWordIn .connectorWord) fun a => a.connectorWord?.map .word,
    ofAction .syncAction "phrase" .phrase fun a => a.phrase?.map .phrase,
    ofAction .asyncAction "subject" (.identifierIn .actionSubject) fun a => a.subject?.map .word,
    ofAction .asyncAction "event" (.token [.string]) fun a => a.event?.map .word,
    ofAction .internalAction "subject" (.identifierIn .actionSubject) fun a => a.subject?.map .word,
    ofAction .internalAction "verb" (.identifierIn .actionVerb) fun a => a.verb?.map .word,
    ofAction .internalAction "connector" (.firstWordIn .connectorWord)
      fun a => a.connectorWord?.map .word,
    ofAction .internalAction "phrase" .phrase fun a => a.phrase?.map .phrase,
    ofAction .returnAction "subject" (.identifierIn .actionSubject) fun a => a.subject?.map .word,
    ofAction .returnAction "target" (.identifierIn .actionTarget) fun a => a.target?.map .word,
    ofAction .returnAction "connector" (.firstWordIn .connectorWord) fun a => a.connectorWord?.map .word,
    ofAction .returnAction "phrase" .phrase fun a => a.phrase?.map .phrase]

def all : List Accessor := ofBlocks ++ ofTriggers ++ ofActions

end Accessor

theorem Node.firstToken_text (n : Node) :
    (n.everything.find? fun below => below.kind.isToken).map (fun below => below.focus.text) =
      n.focus.tokens.head?.map Token.text := by
  have tokens : n.focus.tokens = n.leaves.map Prod.snd := by
    rw [leaves_eq, Token.locate_tokens]
  rw [tokens, leaves]
  generalize n.everything = nodes
  induction nodes with
  | nil => rfl
  | cons m nodes ih =>
    cases focus : m.focus with
    | leaf token =>
      have text : (Tree.leaf token).text = token.text := List.append_nil _
      simp [Node.kind, focus, Tree.kind, Kind.isToken, Tree.token?, text]
    | node kind children => simpa [Node.kind, focus, Tree.kind, Kind.isToken, Tree.token?] using ih

namespace Search

variable {n : Node}

theorem read?_value : value.read? n.focus = (value.find? n).map fun found => value.reading found.focus := by
  have boolean := n.part?_focus .boolean
  have number : _ = n.focus.word? .number := n.tokenOf?_text (List.forall_mem_singleton.mpr rfl)
  have word : _ = n.focus.identifier? := n.tokenOf?_text (List.forall_mem_singleton.mpr rfl)
  rw [read?, Modifier.valueOf?, ← boolean, ← number, ← word, find?]
  cases first : n.part? .boolean with
  | some found =>
    have kind : found.focus.kind = .node .boolean := Node.part?_kind first
    simp only [Option.map_some, reading, kind]
  | none =>
    cases second : n.tokenOf? [.number] with
    | some found =>
      have kind : found.focus.kind = .token .number := Node.tokenOf?_kind second
      simp only [Option.map_none, Option.map_some, reading, kind]
    | none =>
      cases third : n.tokenOf? [.identifier] with
      | some found =>
        have kind : found.focus.kind = .token .identifier := Node.tokenOf?_kind third
        simp only [Option.map_none, Option.map_some, reading, kind]
      | none => rfl

theorem read?_find (s : Search) (visible : ∀ kind, s.passes kind = true → kind.isHidden = false) :
    s.read? n.focus = (s.find? n).map fun found => s.reading found.focus := by
  cases s with
  | token kinds =>
    have shown : ∀ kind ∈ kinds, kind.isHidden = false := fun kind member =>
      visible (.token kind) (List.any_eq_true.mpr ⟨kind, member, decide_eq_true rfl⟩)
    rw [read?, ← Node.tokenOf?_text shown, Option.map_map]
    rfl
  | identifierIn part =>
    rw [read?, Tree.identifierIn?, ← n.part?_focus, Option.bind_map, Option.map_bind, find?,
      Option.map_bind]
    refine congrArg (n.part? part).bind (funext fun inner => ?_)
    have text : _ = inner.focus.identifier? := inner.tokenOf?_text (List.forall_mem_singleton.mpr rfl)
    rw [Function.comp_apply, Function.comp_apply, ← text, Option.map_map]
    rfl
  | firstWordIn part =>
    rw [read?, Tree.firstWordIn?, ← n.part?_focus, Option.bind_map, Option.map_bind, find?,
      Option.map_bind]
    refine congrArg (n.part? part).bind (funext fun inner => ?_)
    rw [Function.comp_apply, Function.comp_apply, ← inner.firstToken_text, Option.map_map]
    rfl
  | phrase =>
    rw [read?, Phrase.under?, ← n.part?_focus, Option.map_map, Option.map_map]
    rfl
  | value => exact read?_value

end Search

namespace Accessor

theorem all_ordinary : all.all (fun a => a.kind ≠ .error) = true := by decide

theorem blocks_read : ∀ a ∈ ofBlocks, ∀ t, a.read t = a.search.read? t := by
  simp only [ofBlocks, List.forall_mem_cons]
  refine ⟨?_, ?_, ?_, ?_, ?_, ?_, ?_, ?_, ?_, ?_, ?_, ?_, ?_, ?_, ?_, ?_, ?_, List.forall_mem_nil _⟩ <;>
    exact fun _ => rfl

theorem triggers_read : ∀ a ∈ ofTriggers, ∀ t, t.kind = .node a.kind → a.read t = a.search.read? t := by
  simp only [ofTriggers, List.forall_mem_cons]
  refine ⟨?_, ?_, ?_, ?_, ?_, ?_, List.forall_mem_nil _⟩ <;>
  · intro t kind
    simp only [ofTrigger] at kind ⊢
    simp only [Trigger.ofTree?, kind, Option.bind_some]
    rfl

theorem actions_read : ∀ a ∈ ofActions, ∀ t, t.kind = .node a.kind → a.read t = a.search.read? t := by
  simp only [ofActions, List.forall_mem_cons]
  refine ⟨?_, ?_, ?_, ?_, ?_, ?_, ?_, ?_, ?_, ?_, ?_, ?_, ?_, ?_, List.forall_mem_nil _⟩ <;>
  · intro t kind
    simp only [ofAction] at kind ⊢
    simp only [Action.ofTree?, kind, Option.bind_some]
    rfl

theorem read_eq {a : Accessor} (listed : a ∈ all) {t : Tree} (kind : t.kind = .node a.kind) :
    a.read t = a.search.read? t := by
  rcases List.mem_append.mp listed with earlier | action
  · rcases List.mem_append.mp earlier with block | trigger
    · exact blocks_read a block t
    · exact triggers_read a trigger t kind
  · exact actions_read a action t kind

end Accessor

namespace Search

/-- What the search relies on: it goes to one child at most if it tells children apart by their kinds,
and where it goes on below the child, that holds the token only. -/
def relies (type : NodeType) : Search → Bool
  | identifierIn part => part.content? == some (.single TokenKind.identifier)
  | firstWordIn part => part.content?.any fun content => content.tokens.all TokenKind.isKeyword
  | value => type.slots.any fun slot => !slot.multiple && Kind.all.all fun kind =>
      value.passes kind == (kind.isPart && slot.takes kind)
  | _ => true

end Search

def Accessor.isSound (a : Accessor) : Bool :=
  a.kind.type?.any fun type =>
    a.search.relies type && Kind.all.all fun kind =>
      ((type.fields.find? fun field => field.2.takes kind).map Prod.fst = some a.field) ==
        a.search.passes kind && !(a.search.passes kind && kind.isHidden)

/-- The fields that have a part of the typed view to go with: all but those that hold a list. -/
def NodeType.viewed (type : NodeType) : List String :=
  (type.fields.map Prod.fst).filter fun name => name ∉ ["modifiers", "rules"]

def NodeKind.isCovered (kind : NodeKind) : Bool :=
  kind.type?.all fun type =>
    ((Accessor.all.filter fun a => a.kind = kind).map Accessor.field).isPerm type.viewed

theorem accessors_checked :
    (Accessor.all.all Accessor.isSound && NodeKind.all.all NodeKind.isCovered) = true := by
  decide +kernel

theorem accessors_cover {kind : NodeKind} {type : NodeType}
    (typed : Language.table.get? kind.name = some type) (name : String) :
    (∃ a ∈ Accessor.all, a.kind = kind ∧ a.field = name) ↔
      (∃ slot, (name, slot) ∈ type.fields) ∧ name ∉ ["modifiers", "rules"] := by
  have covered := List.all_eq_true.mp (Bool.and_eq_true_iff.mp accessors_checked).2 kind
    (List.mem_of_getElem? kind.all_at)
  have typed : kind.type? = some type := typed
  rw [NodeKind.isCovered, typed, Option.all_some, List.isPerm_iff] at covered
  have same := covered.mem_iff (a := name)
  simpa [NodeType.viewed, and_assoc] using same

namespace Search

variable {n : Node}

/-- If one child at most passes, it does not matter what is looked for first. -/
theorem find?_value (single : (n.children.filter fun child => value.passes child.kind).length ≤ 1) :
    value.find? n = n.child? value.passes := by
  have narrow (passes : Kind → Bool) (less : ∀ kind, passes kind = true → value.passes kind = true) :
      n.child? passes = (n.children.filter fun child => value.passes child.kind).find?
        fun child => passes child.kind := by
    rw [Node.child?, List.find?_filter]
    refine congrArg (fun p => n.children.find? p) (funext fun child => ?_)
    cases passed : passes child.kind with
    | false => simp
    | true => simp [less _ passed]
  have boolean : n.part? .boolean = _ := narrow _ fun kind same => by simp_all [passes]
  have number : n.tokenOf? [.number] = _ := narrow _ fun kind same => by simp_all [passes]
  have word : n.tokenOf? [.identifier] = _ := narrow _ fun kind same => by simp_all [passes]
  rw [find?, boolean, number, word, narrow value.passes fun _ => id]
  have passed : ∀ child ∈ n.children.filter (fun child => value.passes child.kind),
      value.passes child.kind = true := fun child member => (List.mem_filter.mp member).2
  generalize n.children.filter (fun child => value.passes child.kind) = found at single passed ⊢
  cases found with
  | nil => rfl
  | cons child rest =>
    obtain rfl : rest = [] := List.eq_nil_of_length_eq_zero (by simpa using single)
    have here := passed child List.mem_cons_self
    simp only [List.find?_singleton, here]
    simp only [passes, Bool.or_eq_true, decide_eq_true_eq] at here
    rcases here with (same | same) | same <;> simp [same]

theorem modifierValue_single {type : NodeType} (conforms : n.Conforms type)
    (relies : value.relies type = true) :
    (n.children.filter fun child => value.passes child.kind).length ≤ 1 := by
  obtain ⟨slot, member, checked⟩ := List.any_eq_true.mp relies
  obtain ⟨single, takes⟩ := Bool.and_eq_true_iff.mp checked
  have few := conforms.single slot member (by simpa using single)
  have same : n.filling slot = n.children.filter fun child => value.passes child.kind := by
    rw [Node.filling, Node.parts, Node.namedChildren, List.filter_filter, List.filter_filter]
    refine List.filter_congr fun child _ => ?_
    have kinds := List.all_eq_true.mp takes child.kind (List.mem_of_getElem? child.kind.all_index)
    rw [eq_of_beq kinds, Kind.isPart, Node.isNamed, Node.isError]
    grind
  rw [← same]
  exact few

/-- A search goes to the child that it passes, and on to the token in it if that holds one. -/
theorem find?_child {type : NodeType} (s : Search) (relies : s.relies type = true)
    (conforms : n.Conforms type)
    (sheathed : ∀ child ∈ n.allChildren, ∀ kind, child.kind = .node kind →
      ∀ content ∈ kind.content?, ∃ token leaf, child.Around token leaf ∧
        content.has token.kind = true) :
    s.find? n = (n.child? s.passes).bind s.target? ∧
      (s.find? n).isSome = (n.child? s.passes).isSome := by
  cases s with
  | token kinds => exact ⟨(Option.bind_fun_some _).symm, rfl⟩
  | phrase => exact ⟨(Option.bind_fun_some _).symm, rfl⟩
  | value =>
    rw [find?_value (modifierValue_single conforms relies)]
    exact ⟨(Option.bind_fun_some _).symm, rfl⟩
  | identifierIn part =>
    have child : n.child? (identifierIn part).passes = n.part? part := rfl
    rw [find?, child]
    cases found : n.part? part with
    | none => exact ⟨rfl, rfl⟩
    | some inner =>
      have node := Node.part?_kind found
      obtain ⟨token, leaf, around, among⟩ := sheathed inner (Node.mem_of_child? found) part node
        (.single TokenKind.identifier) (eq_of_beq relies)
      have kind : token.kind = .identifier := by simpa using among
      have direct : inner.tokenOf? [.identifier] = some leaf :=
        around.child? (by rw [kind]; rfl) (by rw [kind]; rfl)
      have below : (identifierIn part).target? inner = some leaf :=
        around.find? (by rw [kind]; rfl) (by rw [Node.isHidden, node]; rfl) (by rw [node]; rfl)
          (by rw [around.kind, kind]; rfl)
      rw [Option.bind_some, Option.bind_some, direct, below]
      exact ⟨rfl, rfl⟩
  | firstWordIn part =>
    obtain ⟨content, holds, words⟩ := (Option.any_eq_true _ _).mp relies
    have child : n.child? (firstWordIn part).passes = n.part? part := rfl
    rw [find?, child]
    cases found : n.part? part with
    | none => exact ⟨rfl, rfl⟩
    | some inner =>
      have node := Node.part?_kind found
      obtain ⟨token, leaf, around, among⟩ := sheathed inner (Node.mem_of_child? found) part node
        content holds
      have word : token.kind.isKeyword = true :=
        List.all_eq_true.mp words _ (KindSet.mem_tokens among)
      have visible : token.kind.isHidden = false := by
        cases kind : token.kind <;> rw [kind] at word <;> first | rfl | cases word
      have first : (inner.everything.find? fun below => below.kind.isToken) = some leaf := by
        rw [around.everything]
        simp [node, around.kind, Kind.isToken]
      have below : (firstWordIn part).target? inner = some leaf :=
        around.find? visible (by rw [Node.isHidden, node]; rfl) (by rw [node]; rfl)
          (by rw [around.kind]; exact word)
      rw [Option.bind_some, Option.bind_some, first, below]
      exact ⟨rfl, rfl⟩

end Search

/-- In the tree of any source, the child of a field is there if and only if the typed view has the part
that goes with it, and that is read from the child itself, or from the first identifier or keyword in
it. -/
theorem accessors_agree (source : List Char) {a : Accessor} (listed : a ∈ Accessor.all) {n : Node}
    (below : n ∈ (parse source).root.descendants) (kind : n.kind = .node a.kind) :
    (a.search.find? n).isSome = (n.childByField? a.field).isSome ∧
      a.search.find? n = (n.childByField? a.field).bind a.search.target? ∧
      a.read n.focus = (a.search.find? n).map fun found => a.search.reading found.focus := by
  have inside : n ∈ (parse source).root.everything := (List.mem_filter.mp below).1
  have ordinary : a.kind ≠ .error := of_decide_eq_true (List.all_eq_true.mp Accessor.all_ordinary a listed)
  obtain ⟨type, typed, conforms⟩ := children_conform source below kind ordinary
  have typed : a.kind.type? = some type := typed
  have sound := List.all_eq_true.mp (Bool.and_eq_true_iff.mp accessors_checked).1 a listed
  rw [Accessor.isSound, typed, Option.any_some, Bool.and_eq_true] at sound
  obtain ⟨relies, kinds⟩ := sound
  have each (k : Kind) : decide (fieldOf? a.kind k = some a.field) = a.search.passes k ∧
      (a.search.passes k = true → k.isHidden = false) := by
    have checked := List.all_eq_true.mp kinds k (List.mem_of_getElem? k.all_index)
    rw [Bool.and_eq_true, beq_iff_eq, ← fieldOf?_eq typed] at checked
    exact ⟨checked.1, fun passed => by simpa [passed] using checked.2⟩
  have field : n.childByField? a.field = n.child? a.search.passes := by
    rw [Node.childByField?_eq kind]
    exact congrArg n.child? (funext fun k => (each k).1)
  have found := a.search.find?_child relies conforms fun child member part same content holds =>
    sheath_around source inside member same holds
  rw [field]
  refine ⟨found.2, found.1, ?_⟩
  rw [a.read_eq listed kind, a.search.read?_find fun k => (each k).2]

/-- Of the declaration without a type, the typed view has the name only, and reads it in the child that
fills the field. -/
theorem typelessActor_agrees :
    ∃ n ∈ (parse typelessActor).root.descendants, n.kind = .node .actorBlock ∧
      n.childByField? "type" = none ∧ (Actor.ofTree n.focus).type = none ∧
      (Actor.ofTree n.focus).name = some "clerk".toList ∧
      ∃ child leaf, n.childByField? "name" = some child ∧
        (child.descendants.find? fun below => below.kind = .token .identifier) = some leaf ∧
        leaf.text = "clerk".toList := by
  have place : (parse typelessActor).root.descendants[1]?.map (fun n => (n.kind,
      (n.part? .actorType).isSome, (Actor.ofTree n.focus).type, (Actor.ofTree n.focus).name)) =
        some (.node .actorBlock, false, none, some "clerk".toList) := by
    decide +kernel
  obtain ⟨n, place, same⟩ := Option.map_eq_some_iff.mp place
  simp only [Prod.mk.injEq] at same
  obtain ⟨kind, absent, no_type, named⟩ := same
  have below := List.mem_of_getElem? place
  obtain ⟨type, -, -⟩ := accessors_agree typelessActor (a := ⟨.actorBlock, "type",
    .firstWordIn .actorType, fun t => (Actor.ofTree t).type.map .word⟩)
    (List.mem_of_getElem? (i := 11) rfl) below kind
  obtain ⟨-, name, read⟩ := accessors_agree typelessActor (a := ⟨.actorBlock, "name",
    .identifierIn .actorName, fun t => (Actor.ofTree t).name.map .word⟩)
    (List.mem_of_getElem? (i := 12) rfl) below kind
  have nothing : n.part? .actorType = none := Option.isNone_iff_eq_none.mp (by simpa using absent)
  rw [Search.find?, nothing] at type
  have word : some (Reading.word "clerk".toList) =
      ((Search.identifierIn .actorName).find? n).map fun leaf => .word leaf.text := by
    have typed : (Actor.ofTree n.focus).name.map Reading.word = some (.word "clerk".toList) := by
      rw [named, Option.map_some]
    exact typed.symm.trans read
  obtain ⟨leaf, found, text⟩ := Option.map_eq_some_iff.mp word.symm
  obtain ⟨child, field, inside⟩ := Option.bind_eq_some_iff.mp (name.symm.trans found)
  exact ⟨n, below, kind, Option.isNone_iff_eq_none.mp (by simpa using type.symm), no_type, named,
    child, leaf, field, inside, Reading.word.inj text⟩

end CraftDsl
