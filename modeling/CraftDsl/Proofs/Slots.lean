import CraftDsl.Proofs.Conformity

/-!
Trees keep to the node types of the language, whatever the source. Every part of a node goes into one
slot of the node's type, no slot holds more than it may, and what is required is there unless an error
node stands for it. Main statement: `children_conform`.
-/
namespace CraftDsl

def Slot.takes (slot : Slot) (kind : Kind) : Bool :=
  Language.table.accepts slot kind.name kind.isNamed

def Kind.isPart (kind : Kind) : Bool := kind.isNamed && !kind.isTrivia && !kind.isError

namespace NodeType

def slots (t : NodeType) : List Slot := t.fields.map Prod.snd ++ t.children?.toList

def adopts (t : NodeType) (kind : Kind) : Bool := t.children?.any fun slot => slot.takes kind

def places (t : NodeType) (kind : Kind) : Bool :=
  match t.fields.filter fun field => field.2.takes kind with
  | [] => t.adopts kind
  | [_] => !t.adopts kind
  | _ => false

end NodeType

namespace Slot

def isFree (slot : Slot) : Bool := slot.multiple && !slot.required

/-- Puts a child of the kind where it goes. The lowest bit tells whether the first slot is filled; a
slot for one child is not filled twice, and of a free slot nothing is noted. -/
def fill (kind : Kind) : List Slot → Nat → Option Nat
  | [], _ => some 0
  | slot :: slots, filled =>
    (fill kind slots (filled / 2)).bind fun rest =>
      if slot.isFree || !slot.takes kind then some (2 * rest + filled % 2)
      else if filled % 2 = 1 && !slot.multiple then none
      else some (2 * rest + 1)

def fillAll (slots : List Slot) : List Kind → Nat → Option Nat
  | [], filled => some filled
  | kind :: kinds, filled => (fill kind slots filled).bind (fillAll slots kinds)

def complete : List Slot → Nat → Bool
  | [], _ => true
  | slot :: slots, filled => (filled % 2 = 1 || !slot.required) && complete slots (filled / 2)

/-- What a child does to the first slot, and to the others. -/
theorem fill_cons {kind : Kind} {slot : Slot} {slots : List Slot} {filled after : Nat}
    (found : fill kind (slot :: slots) filled = some after) :
    fill kind slots (filled / 2) = some (after / 2) ∧
      ((slot.isFree || !slot.takes kind) = true ∧ after % 2 = filled % 2 ∨
        slot.takes kind = true ∧ after % 2 = 1 ∧ (slot.multiple = false → filled % 2 = 0)) := by
  rcases Option.bind_eq_some_iff.mp found with ⟨rest, others, first⟩
  split_ifs at first with passed twice
  · cases first
    have half : (2 * rest + filled % 2) / 2 = rest := by omega
    have bit : (2 * rest + filled % 2) % 2 = filled % 2 := by omega
    rw [half]
    exact ⟨others, .inl ⟨passed, bit⟩⟩
  · cases first
    have half : (2 * rest + 1) / 2 = rest := by omega
    have bit : (2 * rest + 1) % 2 = 1 := by omega
    simp only [Bool.or_eq_true, not_or, Bool.not_eq_true', Bool.not_eq_false] at passed
    refine ⟨by rw [half]; exact others, .inr ⟨passed.2, bit, fun single => ?_⟩⟩
    simp only [single, Bool.not_false, Bool.and_true, decide_eq_true_eq] at twice
    omega

/-- What children do to the first slot, and to the others. -/
theorem fillAll_cons {slot : Slot} {slots : List Slot} {kinds : List Kind} {filled after : Nat}
    (found : fillAll (slot :: slots) kinds filled = some after) :
    fillAll slots kinds (filled / 2) = some (after / 2) ∧
      (slot.multiple = false → filled % 2 + kinds.countP slot.takes ≤ 1) ∧
      (slot.required = true → after % 2 = 1 → filled % 2 = 1 ∨ 0 < kinds.countP slot.takes) := by
  induction kinds generalizing filled with
  | nil =>
    cases found
    refine ⟨rfl, fun _ => ?_, fun _ bit => .inl bit⟩
    rw [List.countP_nil]
    omega
  | cons kind kinds ih =>
    rcases Option.bind_eq_some_iff.mp found with ⟨next, first, rest⟩
    rcases fill_cons first with ⟨others, here⟩
    rcases ih rest with ⟨later, single, required⟩
    refine ⟨?_, ?_, ?_⟩
    · rw [fillAll, others]
      exact later
    · intro one
      have most := single one
      rcases here with ⟨passed, bit⟩ | ⟨taken, bit, fresh⟩
      · have refused : slot.takes kind = false := by simpa [isFree, one] using passed
        rw [List.countP_cons_of_neg (by simp [refused])]
        omega
      · have empty := fresh one
        rw [List.countP_cons_of_pos taken]
        omega
    · intro needed bit
      by_cases taken : slot.takes kind = true
      · rw [List.countP_cons_of_pos taken]
        omega
      · rw [List.countP_cons_of_neg taken]
        rcases here with ⟨-, same⟩ | ⟨is_taken, -, -⟩
        · rw [← same]
          exact required needed bit
        · exact absurd is_taken taken

/-- From empty slots on, a slot for one child has got one at most, and what is complete has got a
child for each slot that requires one. -/
theorem fillAll_slots {slots : List Slot} {kinds : List Kind} {filled after : Nat}
    (found : fillAll slots kinds filled = some after) (empty : filled = 0) :
    ∀ slot ∈ slots, (slot.multiple = false → kinds.countP slot.takes ≤ 1) ∧
      (slot.required = true → complete slots after = true → 0 < kinds.countP slot.takes) := by
  induction slots generalizing filled after with
  | nil => simp
  | cons first slots ih =>
    rcases fillAll_cons found with ⟨others, single, required⟩
    have rest := ih others (by rw [empty])
    intro slot member
    rcases List.mem_cons.mp member with rfl | later
    · constructor
      · intro one
        have most := single one
        omega
      · intro needed whole
        simp only [complete, needed, Bool.not_true, Bool.or_false, Bool.and_eq_true,
          decide_eq_true_eq] at whole
        rcases required needed whole.1 with before | now
        · omega
        · exact now
    · refine ⟨(rest slot later).1, fun needed whole => (rest slot later).2 needed ?_⟩
      exact (Bool.and_eq_true_iff.mp whole).2

end Slot

namespace NodeKind

def type? (kind : NodeKind) : Option NodeType := Language.table.get? kind.name

def slots (kind : NodeKind) : List Slot := (kind.type?.map NodeType.slots).getD []

def places (kind : NodeKind) (child : Kind) : Bool := kind.type?.any fun t => t.places child

end NodeKind

/-- Puts the children of every node into the slots of its type. A state is the kind of the node,
whether it has an error node, and which of its slots are filled; nothing is counted outside of all
nodes. -/
def Monitor.conforming : Monitor where
  start kind := kind.ctorIdx
  step s kind :=
    match NodeKind.all[s % 64]? with
    | some parent =>
      if kind = .node .error then some (128 * (s / 128) + 64 + s % 64)
      else if !kind.isPart then some s
      else if parent.places kind then
        (Slot.fill kind parent.slots (s / 128)).map fun filled => 128 * filled + s % 128
      else none
    | none => some s
  ends kind s :=
    if kind.type?.isSome && (s % 128 / 64 = 1 || Slot.complete kind.slots (s / 128)) then .anything
    else .empty
  strict := false

theorem sourceFile_conforming :
    (Production.sourceFile.foresee .conforming false (.unknown ⟨none, 63⟩)).isSome = true := by
  decide +kernel

theorem Kind.isPart_error : Kind.isPart (.node .error) = false := rfl

theorem Kind.isPart_trivia {kind : Kind} (trivia : kind.isTrivia = true) : kind.isPart = false := by
  rw [isPart, trivia, Bool.not_true, Bool.and_false, Bool.false_and]

def partsOf (trees : List Tree) : List Kind := (trees.map Tree.kind).filter Kind.isPart

/-- One child of a node: an error node is noted, and a part goes to its slot. -/
theorem conforming_step {parent : NodeKind} {filled error after : Nat} {kind : Kind}
    (bit : error ≤ 1)
    (stepped : Monitor.conforming.step (128 * filled + 64 * error + parent.ctorIdx) kind =
      some after) :
    ∃ more found, found ≤ 1 ∧ after = 128 * more + 64 * found + parent.ctorIdx ∧
      (found = 1 → error = 1 ∨ kind = .node .error) ∧
      (kind.isPart = true → parent.places kind = true) ∧
      Slot.fillAll parent.slots ([kind].filter Kind.isPart) filled = some more := by
  have small := parent.small_index
  have index : (128 * filled + 64 * error + parent.ctorIdx) % 64 = parent.ctorIdx := by omega
  have state : (128 * filled + 64 * error + parent.ctorIdx) % 128 =
      64 * error + parent.ctorIdx := by omega
  have slots : (128 * filled + 64 * error + parent.ctorIdx) / 128 = filled := by omega
  simp only [Monitor.conforming, index, state, slots, parent.all_at] at stepped
  split_ifs at stepped with marked other placed
  · subst marked
    refine ⟨filled, 1, Nat.le_refl 1, ?_, fun _ => .inr rfl, ?_, rfl⟩
    · rw [← Option.some.inj stepped]
    · rw [Kind.isPart_error]
      exact fun part => Bool.noConfusion part
  · simp only [Bool.not_eq_true'] at other
    refine ⟨filled, error, bit, (Option.some.inj stepped).symm, .inl, ?_, ?_⟩
    · rw [other]
      exact fun part => Bool.noConfusion part
    · rw [List.filter_cons_of_neg (by simp [other])]
      rfl
  · simp only [Bool.not_eq_true', Bool.not_eq_false] at other
    rcases Option.map_eq_some_iff.mp stepped with ⟨more, found, rfl⟩
    refine ⟨more, error, bit, by omega, .inl, fun _ => placed, ?_⟩
    rw [List.filter_cons_of_pos other, Slot.fillAll, found]
    rfl

theorem Slot.fillAll_append {slots : List Slot} {first second : List Kind} {filled more after : Nat}
    (now : fillAll slots first filled = some more) (later : fillAll slots second more = some after) :
    fillAll slots (first ++ second) filled = some after := by
  induction first generalizing filled with
  | nil =>
    cases now
    exact later
  | cons kind kinds ih =>
    obtain ⟨next, one, rest⟩ := Option.bind_eq_some_iff.mp now
    rw [List.cons_append, fillAll, one]
    exact ih rest

/-- All children of a node: each part has its place and goes there. -/
theorem conforming_walk {parent : NodeKind} {children : List Tree} {filled error after : Nat}
    (bit : error ≤ 1)
    (walked : Monitor.conforming.walk (128 * filled + 64 * error + parent.ctorIdx) children =
      some after) :
    ∃ more found, found ≤ 1 ∧ after = 128 * more + 64 * found + parent.ctorIdx ∧
      (found = 1 → error = 1 ∨ ∃ child ∈ children, child.kind = .node .error) ∧
      (∀ kind ∈ partsOf children, parent.places kind = true) ∧
      Slot.fillAll parent.slots (partsOf children) filled = some more := by
  induction children generalizing filled error with
  | nil =>
    refine ⟨filled, error, bit, (Option.some.inj walked).symm, .inl, ?_, rfl⟩
    simp [partsOf]
  | cons t ts ih =>
    have split : partsOf (t :: ts) = [t.kind].filter Kind.isPart ++ partsOf ts := by
      rw [partsOf, List.map_cons, ← List.singleton_append, List.filter_append]
      rfl
    rw [Monitor.walk] at walked
    split at walked
    -- Trivia are no parts of a node and leave the state as it is.
    · rename_i trivia
      obtain ⟨more, found, most, state, flagged, placed, rest⟩ := ih bit walked
      have none_here : [t.kind].filter Kind.isPart = [] := by
        rw [List.filter_cons_of_neg (by simp [Kind.isPart_trivia trivia])]
        rfl
      rw [none_here, List.nil_append] at split
      rw [split]
      refine ⟨more, found, most, state, fun one => ?_, placed, rest⟩
      rcases flagged one with before | ⟨child, member, same⟩
      · exact .inl before
      · exact .inr ⟨child, List.mem_cons_of_mem _ member, same⟩
    · obtain ⟨state, stepped, walked⟩ := Option.bind_eq_some_iff.mp walked
      obtain ⟨next, seen, seen_bit, rfl, marked, place, one⟩ := conforming_step bit stepped
      obtain ⟨more, found, most, state, flagged, placed, rest⟩ := ih seen_bit walked
      refine ⟨more, found, most, state, fun raised => ?_, ?_, ?_⟩
      · rcases flagged raised with before | ⟨child, member, same⟩
        · rcases marked before with already | here
          · exact .inl already
          · exact .inr ⟨t, List.mem_cons_self, here⟩
        · exact .inr ⟨child, List.mem_cons_of_mem _ member, same⟩
      · intro kind member
        rw [split] at member
        rcases List.mem_append.mp member with here | later
        · obtain ⟨among, part⟩ := List.mem_filter.mp here
          rw [List.mem_singleton.mp among] at part ⊢
          exact place part
        · exact placed kind later
      · rw [split]
        exact Slot.fillAll_append one rest

namespace Node

def parts (n : Node) : List Node :=
  n.namedChildren.filter fun child => !child.kind.isTrivia && !child.isError

def filling (n : Node) (slot : Slot) : List Node :=
  n.parts.filter fun child => slot.takes child.kind

structure Conforms (n : Node) (type : NodeType) : Prop where
  /-- Each part fills just one field, which is the field it has, or it fills the slot of the other
  children and has no field. -/
  placed : ∀ child ∈ n.parts,
    (∃ field ∈ type.fields, child.field? = some field.1 ∧ field.2.takes child.kind = true ∧
      (∀ other ∈ type.fields, other.2.takes child.kind = true → other = field) ∧
      ∀ slot ∈ type.children?, slot.takes child.kind = false) ∨
    (child.field? = none ∧ ∃ slot ∈ type.children?, slot.takes child.kind = true)
  /-- A slot for one child has got one at most. -/
  single : ∀ slot ∈ type.slots, slot.multiple = false → (n.filling slot).length ≤ 1
  /-- What is required is there, or an error node is. -/
  filled : ∀ slot ∈ type.slots, slot.required = true →
    n.filling slot ≠ [] ∨ ∃ child ∈ n.children, child.kind = .node .error

theorem allChildren_kinds {n : Node} {kind : NodeKind} {children : List Tree}
    (focus : n.focus = .node kind children) :
    n.allChildren.map Node.kind = children.map Tree.kind := by
  obtain ⟨t, start, above⟩ := n
  cases focus
  exact place_kinds _ _ _ _ _

theorem parts_kinds {n : Node} {kind : NodeKind} {children : List Tree}
    (focus : n.focus = .node kind children) : n.parts.map Node.kind = partsOf children := by
  have same : ∀ child : Node, (!child.kind.isTrivia && !child.isError && child.isNamed &&
      !child.isHidden) = child.kind.isPart := by
    intro child
    rw [isError, isNamed, isHidden]
    cases child.kind with
    | token kind => cases kind <;> rfl
    | node kind => cases kind <;> rfl
  rw [parts, namedChildren, Node.children, List.filter_filter, List.filter_filter, partsOf,
    ← allChildren_kinds focus, List.filter_map]
  exact congrArg _ (List.filter_congr fun child _ => same child)

theorem filling_length {n : Node} {kind : NodeKind} {children : List Tree}
    (focus : n.focus = .node kind children) (slot : Slot) :
    (n.filling slot).length = (partsOf children).countP slot.takes := by
  rw [← parts_kinds focus, List.countP_map, List.countP_eq_length_filter]
  rfl

end Node

theorem fieldOf?_eq {parent : NodeKind} {type : NodeType} (found : parent.type? = some type)
    (kind : Kind) :
    fieldOf? parent kind = (type.fields.find? fun field => field.2.takes kind).map Prod.fst := by
  have entry : Language.table.get? parent.name = some type := found
  rw [fieldOf?, NodeTypeTable.fieldForChild?, entry]
  show (type.fields.find? fun field => field.2.takes kind).bind _ = _
  cases type.fields.find? fun field => field.2.takes kind <;> rfl

/-- A kind that has a place fills one field only, or the slot of the other children. -/
theorem placed_cases {parent : NodeKind} {type : NodeType} {kind : Kind}
    (found : parent.type? = some type) (placed : parent.places kind = true) :
    (∃ field ∈ type.fields, fieldOf? parent kind = some field.1 ∧ field.2.takes kind = true ∧
      (∀ other ∈ type.fields, other.2.takes kind = true → other = field) ∧
      ∀ slot ∈ type.children?, slot.takes kind = false) ∨
    (fieldOf? parent kind = none ∧ ∃ slot ∈ type.children?, slot.takes kind = true) := by
  rw [NodeKind.places, found, Option.any_some, NodeType.places] at placed
  rw [fieldOf?_eq found, ← List.head?_filter]
  have member (field : String × Slot) :
      field ∈ type.fields.filter (fun field => field.2.takes kind) ↔
        field ∈ type.fields ∧ field.2.takes kind = true := List.mem_filter
  split at placed
  · rename_i nothing
    rw [nothing]
    rw [NodeType.adopts] at placed
    cases others : type.children? with
    | none =>
      rw [others] at placed
      cases placed
    | some slot =>
      rw [others] at placed
      exact .inr ⟨rfl, slot, rfl, placed⟩
  · rename_i field only
    rw [only] at member ⊢
    obtain ⟨among, takes⟩ := (member field).mp List.mem_cons_self
    refine .inl ⟨field, among, rfl, takes, fun other inside taken => ?_, ?_⟩
    · exact List.mem_singleton.mp ((member other).mpr ⟨inside, taken⟩)
    · intro slot mine
      rw [Bool.not_eq_true', NodeType.adopts, mine, Option.any_some] at placed
      exact placed
  · cases placed

theorem parse_conforming (source : List Char) :
    Monitor.conforming.Accepts (lex source) (parse source).tree :=
  parse_accepts sourceFile_conforming source fun strict => Bool.noConfusion strict

/-- What the children of a node that passes make of its type. -/
theorem conforms_of_walk {n : Node} {kind : NodeKind} {children : List Tree} {s : Nat}
    {next : TokenKind} (focus : n.focus = .node kind children)
    (walked : Monitor.conforming.walk (Monitor.conforming.start kind) children = some s)
    (ended : (Monitor.conforming.ends kind s).has next = true) :
    ∃ type, kind.type? = some type ∧ n.Conforms type := by
  -- The state holds the slots filled so far, a bit for errors, and the kind of the node.
  have start : Monitor.conforming.start kind = 128 * 0 + 64 * 0 + kind.ctorIdx := by
    simp [Monitor.conforming]
  rw [start] at walked
  obtain ⟨more, found, bit, rfl, flagged, placed, filled⟩ := conforming_walk (Nat.zero_le 1) walked
  have small := kind.small_index
  have flag : (128 * more + 64 * found + kind.ctorIdx) % 128 / 64 = found := by omega
  have slots : (128 * more + 64 * found + kind.ctorIdx) / 128 = more := by omega
  have complete : kind.type?.isSome = true ∧
      (found = 1 ∨ Slot.complete kind.slots more = true) := by
    simp only [Monitor.conforming, flag, slots] at ended
    split at ended
    · rename_i whole
      simpa using whole
    · simp at ended
  obtain ⟨type, typed⟩ := Option.isSome_iff_exists.mp complete.1
  have same : kind.slots = type.slots := by
    rw [NodeKind.slots, typed]
    rfl
  have counts := Slot.fillAll_slots filled rfl
  refine ⟨type, typed, ?_, ?_, ?_⟩
  · intro child member
    have inside : child ∈ n.allChildren := by
      simp only [Node.parts, Node.namedChildren, Node.children, List.mem_filter] at member
      exact member.1.1.1
    obtain ⟨parent, before, after, held, -, above⟩ := Node.mem_allChildren inside
    have field : child.field? = fieldOf? kind child.kind := by
      rw [focus] at held
      cases held
      rw [Node.field?, above]
    have part : child.kind ∈ partsOf children := by
      rw [← Node.parts_kinds focus]
      exact List.mem_map_of_mem member
    rw [field]
    exact placed_cases typed (placed _ part)
  · intro slot member single
    rw [Node.filling_length focus]
    exact (counts slot (same ▸ member)).1 single
  · intro slot member required
    rcases complete.2 with raised | whole
    · rcases flagged raised with never | ⟨child, among, error⟩
      · cases never
      · have listed : child.kind ∈ n.allChildren.map Node.kind := by
          rw [Node.allChildren_kinds focus]
          exact List.mem_map_of_mem among
        obtain ⟨m, direct, same⟩ := List.mem_map.mp listed
        have marked : m.kind = .node .error := same.trans error
        refine .inr ⟨m, List.mem_filter.mpr ⟨direct, ?_⟩, marked⟩
        rw [Node.isHidden, marked]
        rfl
    · have some_part := (counts slot (same ▸ member)).2 required whole
      rw [← Node.filling_length focus] at some_part
      exact .inl (List.ne_nil_of_length_pos some_part)

/-- In the tree of any source, every node that is no error node is as its node type says. -/
theorem children_conform (source : List Char) {n : Node}
    (below : n ∈ (parse source).root.descendants) {kind : NodeKind} (node : n.kind = .node kind)
    (ordinary : kind ≠ .error) :
    ∃ type, Language.table.get? kind.name = some type ∧ n.Conforms type := by
  have root_carried : List.Forall₂ Carried (lex source)
      ((parse source).root.focus.tokens ++ (parse source).root.following) := by
    have carried := parse_carried source
    rw [← List.append_nil (parse source).tree.tokens] at carried
    exact carried
  have inside : n ∈ (parse source).root.everything := (List.mem_filter.mp below).1
  obtain ⟨ahead, accepted, -⟩ :=
    accepted_everywhere (parse_conforming source) root_carried n inside
  cases focus : n.focus with
  | leaf token =>
    rw [Node.kind, focus] at node
    cases node
  | node other children =>
    rw [Node.kind, focus] at node
    cases node
    rw [focus] at accepted
    obtain ⟨s, walked, ended⟩ := accepted.1 ordinary
    exact conforms_of_walk focus walked ended

def typelessActor : List Char := "actor clerk , desk\n".toList

theorem typelessActor_conforms :
    ∃ n ∈ (parse typelessActor).root.descendants, n.kind = .node .actorBlock ∧
      n.children.map Node.kind =
        [.token (.keyword .actor), .node .error, .node .actorName, .node .error] ∧
      ∃ type, Language.table.get? NodeKind.actorBlock.name = some type ∧ n.Conforms type := by
  have found : (parse typelessActor).root.descendants[1]?.map
      (fun n => (n.kind, n.children.map Node.kind)) = some (.node .actorBlock,
        [.token (.keyword .actor), .node .error, .node .actorName, .node .error]) := by
    decide +kernel
  obtain ⟨n, place, same⟩ := Option.map_eq_some_iff.mp found
  obtain ⟨kind, children⟩ := Prod.mk.inj same
  have below := List.mem_of_getElem? place
  refine ⟨n, below, kind, children, ?_⟩
  exact children_conform typelessActor below kind (by decide)

end CraftDsl
