import CraftDsl.Proofs.Exactness

/-!
The node types of a grammar speak of nothing but its visible rules. There is one for each of them, and
what they list are kinds of others, in order. Hidden rules are opened inside each other until one would
be opened again, which comes to an end also where they are recursive. Main statement:
`nodeTypes_closed`.
-/
namespace CraftDsl

theorem insertSorted_pairwise {α : Type} {lt : α → α → Bool}
    (trans : ∀ a b c, lt a b = true → lt b c = true → lt a c = true)
    (total : ∀ a b, lt a b = false → lt b a = false → a = b) (x : α) {xs : List α}
    (sorted : xs.Pairwise fun a b => lt a b = true) :
    (insertSorted lt x xs).Pairwise fun a b => lt a b = true := by
  induction xs with
  | nil => simp [insertSorted]
  | cons y ys ih =>
    obtain ⟨above, later⟩ := List.pairwise_cons.mp sorted
    rw [insertSorted]
    by_cases before : lt x y = true
    · rw [if_pos before]
      refine List.pairwise_cons.mpr ⟨List.forall_mem_cons.mpr ⟨before, ?_⟩, sorted⟩
      exact fun z member => trans x y z before (above z member)
    rw [if_neg before]
    by_cases after : lt y x = true
    · rw [if_pos after]
      refine List.pairwise_cons.mpr ⟨fun z member => ?_, ih later⟩
      rcases (mem_insertSorted total x z ys).mp member with rfl | inside
      · exact after
      · exact above z inside
    · rw [if_neg after]
      exact sorted

theorem TypeRef.lt_trans (a b c : TypeRef) (first : lt a b = true) (second : lt b c = true) :
    lt a c = true := by
  simp only [lt, Bool.or_eq_true, Bool.and_eq_true, decide_eq_true_eq, Bool.not_eq_true'] at *
  rcases first with less | ⟨⟨same, -⟩, named⟩
  · rcases second with less' | ⟨⟨same, -⟩, -⟩
    · exact .inl (less.trans less')
    · exact .inl (same ▸ less)
  · rcases second with less | ⟨⟨-, unnamed⟩, -⟩
    · exact .inl (same ▸ less)
    · simp [named] at unnamed

theorem Slot.insertTypes_pairwise {types : List TypeRef} (more : List TypeRef)
    (sorted : types.Pairwise fun a b => TypeRef.lt a b = true) :
    (insertTypes types more).Pairwise fun a b => TypeRef.lt a b = true := by
  unfold insertTypes
  induction more generalizing types with
  | nil => exact sorted
  | cons type more ih =>
    exact ih (insertSorted_pairwise TypeRef.lt_trans TypeRef.lt_total type sorted)

/-- The types of a slot come in order, and those with a name are visible rules. The slot itself is that
of a field of the grammar, or of the other children. -/
structure Slot.Closed (g : Grammar) (name : SlotName) (slot : Slot) : Prop where
  sorted : slot.types.Pairwise fun a b => TypeRef.lt a b = true
  visible : ∀ type ∈ slot.types, type.named = true →
    Rule.isHiddenName type.kind = false ∧ type.kind ∈ g.rules.map Prod.fst
  placed : ∀ label, name = .field label → label ∈ g.fieldNames

section

variable {g : Grammar} {name : SlotName} {a b : Option Slot}

theorem Slot.Closed.merge {slot other : Slot} (first : slot.Closed g name)
    (second : other.Closed g name) (multiple required : Bool) :
    Slot.Closed g name ⟨multiple, required, insertTypes slot.types other.types⟩ where
  sorted := insertTypes_pairwise other.types first.sorted
  visible type member := by
    rcases (mem_insertTypes type slot.types other.types).mp member with one | more
    · exact first.visible type one
    · exact second.visible type more
  placed := first.placed

theorem Slot.closed_inSequence (first : ∀ slot ∈ a, slot.Closed g name)
    (second : ∀ slot ∈ b, slot.Closed g name) : ∀ slot ∈ inSequence a b, slot.Closed g name := by
  cases a with
  | none => exact second
  | some slot =>
    cases b with
    | none => exact first
    | some other =>
      rintro _ ⟨⟩
      exact (first slot rfl).merge (second other rfl) _ _

theorem Slot.closed_map (change : Slot → Slot) (types : ∀ slot, (change slot).types = slot.types)
    (closed : ∀ slot ∈ a, slot.Closed g name) : ∀ slot ∈ a.map change, slot.Closed g name := by
  intro slot member
  obtain ⟨before, inside, rfl⟩ := Option.map_eq_some_iff.mp member
  have closed := closed before inside
  exact ⟨types before ▸ closed.sorted, types before ▸ closed.visible, closed.placed⟩

theorem Slot.closed_inChoice (first : ∀ slot ∈ a, slot.Closed g name)
    (second : ∀ slot ∈ b, slot.Closed g name) : ∀ slot ∈ inChoice a b, slot.Closed g name := by
  cases a with
  | none => exact closed_map notRequired (fun _ => rfl) second
  | some slot =>
    cases b with
    | none => exact closed_map notRequired (fun _ => rfl) first
    | some other =>
      rintro _ ⟨⟩
      exact (first slot rfl).merge (second other rfl) _ _

end

namespace Rule

def Grounded (g : Grammar) : Rule → Prop
  | symbol used => used ∈ g.rules.map Prod.fst
  | field label _ => label ∈ g.fieldNames
  | _ => True

def Known (g : Grammar) (around : Option String) : Prop := ∀ label ∈ around, label ∈ g.fieldNames

section

variable {g : Grammar} {expand : Option String → String → Option Slot} {name : SlotName}

theorem closed_one {around : Option String} (known : Known g around) (type : TypeRef)
    (visible : type.named = true → isHiddenName type.kind = false ∧ type.kind ∈ g.rules.map Prod.fst) :
    ∀ slot ∈ if name = .ofField around then some (Slot.one type) else none, slot.Closed g name := by
  intro slot member
  obtain ⟨here, same⟩ := Option.ite_none_right_eq_some.mp member
  obtain rfl := Option.some.inj same
  refine ⟨List.pairwise_singleton _ _, ?_, ?_⟩
  · intro other inside
    obtain rfl := List.mem_singleton.mp inside
    exact visible
  · rintro label rfl
    cases around with
    | none => cases here
    | some other =>
      obtain rfl := SlotName.field.inj here
      exact known label rfl

mutual

/-- What a rule body makes of a slot is closed if what hidden symbols make of it is. -/
theorem slot_closed (expands : ∀ around used, Known g around →
      ∀ slot ∈ expand around used, slot.Closed g name) : (rule : Rule) → (around : Option String) →
    Known g around → (∀ position ∈ rule.positions, position.Grounded g) →
      ∀ slot ∈ rule.slot expand name around, slot.Closed g name
  | blank, _, _, _ => by simp [slot]
  | pattern _ _, _, _, _ => by simp [slot]
  | string value, around, known, _ => by
    cases around with
    | none => simp [slot]
    | some label => simpa [slot] using closed_one known ⟨value, false⟩ (by simp)
  | symbol used, around, known, grounded => by
    rw [slot]
    by_cases hidden : isHiddenName used = true
    · rw [if_pos hidden]
      exact expands around used known
    · rw [if_neg hidden]
      have defined : used ∈ g.rules.map Prod.fst := grounded (symbol used) List.mem_cons_self
      exact closed_one known ⟨used, true⟩ fun _ => ⟨by simpa using hidden, defined⟩
  | seq members, around, known, grounded => by
    rw [slot]
    exact slotOfAll_closed expands members around none known (by simp) fun position inside =>
      grounded position (List.mem_cons_of_mem _ inside)
  | choice [], _, _, _ => by simp [slot]
  | choice (member :: members), around, known, grounded => by
    have inner (position : Rule) (inside : position ∈ positionsAll (member :: members)) :=
      grounded position (List.mem_cons_of_mem _ inside)
    rw [slot]
    refine slotOfAny_closed expands members around _ known ?_ fun position inside =>
      inner position (List.mem_append_right _ inside)
    exact slot_closed expands member around known fun position inside =>
      inner position (List.mem_append_left _ inside)
  | repeat0 content, around, known, grounded => by
    rw [slot]
    exact Slot.closed_map Slot.anyNumber (fun _ => rfl) (slot_closed expands content around known
      fun position inside => grounded position (List.mem_cons_of_mem _ inside))
  | repeat1 content, around, known, grounded => by
    rw [slot]
    exact Slot.closed_map Slot.oneOrMore (fun _ => rfl) (slot_closed expands content around known
      fun position inside => grounded position (List.mem_cons_of_mem _ inside))
  | field label content, around, known, grounded => by
    have labeled : label ∈ g.fieldNames := grounded (field label content) List.mem_cons_self
    rw [slot]
    refine slot_closed expands content (some label) ?_ fun position inside =>
      grounded position (List.mem_cons_of_mem _ inside)
    rintro _ ⟨⟩
    exact labeled
  | prec side value content, around, known, grounded => by
    rw [slot]
    exact slot_closed expands content around known fun position inside =>
      grounded position (List.mem_cons_of_mem _ inside)

theorem slotOfAll_closed (expands : ∀ around used, Known g around →
      ∀ slot ∈ expand around used, slot.Closed g name) : (members : List Rule) →
    (around : Option String) → (before : Option Slot) → Known g around →
    (∀ slot ∈ before, slot.Closed g name) →
    (∀ position ∈ positionsAll members, position.Grounded g) →
      ∀ slot ∈ slotOfAll expand name around before members, slot.Closed g name
  | [], _, _, _, closed, _ => by simpa [slotOfAll] using closed
  | member :: members, around, before, known, closed, grounded => by
    rw [slotOfAll]
    refine slotOfAll_closed expands members around _ known (Slot.closed_inSequence closed ?_)
      fun position inside => grounded position (List.mem_append_right _ inside)
    exact slot_closed expands member around known fun position inside =>
      grounded position (List.mem_append_left _ inside)

theorem slotOfAny_closed (expands : ∀ around used, Known g around →
      ∀ slot ∈ expand around used, slot.Closed g name) : (members : List Rule) →
    (around : Option String) → (before : Option Slot) → Known g around →
    (∀ slot ∈ before, slot.Closed g name) →
    (∀ position ∈ positionsAll members, position.Grounded g) →
      ∀ slot ∈ slotOfAny expand name around before members, slot.Closed g name
  | [], _, _, _, closed, _ => by simpa [slotOfAny] using closed
  | member :: members, around, before, known, closed, grounded => by
    rw [slotOfAny]
    refine slotOfAny_closed expands members around _ known (Slot.closed_inChoice closed ?_)
      fun position inside => grounded position (List.mem_append_right _ inside)
    exact slot_closed expands member around known fun position inside =>
      grounded position (List.mem_append_left _ inside)

end

end

end Rule

namespace Grammar

variable {g : Grammar} {name : SlotName}

/-- Opening a hidden rule leads to opening another one inside it. A rule is opened if it is not open
yet and refers to rules; the state says which ones are open and which one is to be opened. -/
inductive Opens (g : Grammar) : List String × String → List String × String → Prop
  | inside {opened : List String} {used next : String} {body : Rule}
    (rule : g.definition? used = some body) (composed : body.isTerminal = false)
    (fresh : used ∉ opened) (hidden : Rule.isHiddenName next = true)
    (inside : .symbol next ∈ body.positions) : Opens g (opened, used) (used :: opened, next)

/-- Hidden symbols are expanded by opening rules inside each other, however many there are. -/
def Unbounded (g : Grammar) (name : SlotName)
    (expand : List String → Option String → String → Option Slot) : Prop :=
  ∀ opened around used, expand opened around used =
    match g.definition? used with
    | none => none
    | some body =>
      if body.isTerminal || opened.contains used then none
      else body.slot (expand (used :: opened)) name around

def closedNames (g : Grammar) (opened : List String) : List String :=
  (g.rules.map Prod.fst).filter fun name => !opened.contains name

theorem mem_names_of_definition {used : String} {body : Rule}
    (rule : g.definition? used = some body) : used ∈ g.rules.map Prod.fst := by
  obtain ⟨before, after, split, -⟩ := List.lookup_eq_some_iff.mp rule
  have member : (used, body) ∈ g.rules.reverse := by simp [split]
  exact List.mem_map_of_mem (List.mem_reverse.mp member)

theorem closedNames_lt {opened : List String} {used : String} {body : Rule}
    (rule : g.definition? used = some body) (fresh : used ∉ opened) :
    (g.closedNames (used :: opened)).length < (g.closedNames opened).length := by
  have fewer : g.closedNames (used :: opened) =
      (g.closedNames opened).filter fun name => decide (name ≠ used) := by
    rw [closedNames, closedNames, List.filter_filter]
    refine List.filter_congr fun name _ => ?_
    simp
  rw [fewer, List.length_filter_lt_length_iff_exists]
  refine ⟨used, ?_, by simp⟩
  exact List.mem_filter.mpr ⟨mem_names_of_definition rule, by simpa using fresh⟩

theorem opens_wellFounded (g : Grammar) : WellFounded fun later earlier => g.Opens earlier later := by
  refine Subrelation.wf ?_ (measure fun state : List String × String =>
    (g.closedNames state.1).length).wf
  rintro _ _ ⟨rule, -, fresh, -, -⟩
  exact closedNames_lt rule fresh

theorem expand_levels (levels more : Nat) {opened : List String}
    (enough : (g.closedNames opened).length ≤ levels) :
    g.expand name (levels + more) opened = g.expand name levels opened := by
  induction levels generalizing opened with
  | zero =>
    have all : g.closedNames opened = [] := List.length_eq_zero_iff.mp (Nat.le_zero.mp enough)
    cases more with
    | zero => rfl
    | succ more =>
      funext around used
      rw [Nat.zero_add, expand, expand]
      cases rule : g.definition? used with
      | none => rfl
      | some body =>
        have open_already : used ∈ opened := by
          have kept := List.filter_eq_nil_iff.mp all used (mem_names_of_definition rule)
          simpa using kept
        simp [open_already]
  | succ levels ih =>
    funext around used
    rw [Nat.succ_add, expand, expand]
    cases rule : g.definition? used with
    | none => rfl
    | some body =>
      by_cases open_already : used ∈ opened
      · simp [open_already]
      · have fewer := closedNames_lt rule open_already
        have deeper : (g.closedNames (used :: opened)).length ≤ levels := by omega
        simp only [ih deeper]

theorem expand_unbounded (g : Grammar) (name : SlotName) :
    g.Unbounded name (g.expand name g.rules.length) := by
  intro opened around used
  have enough : (g.closedNames opened).length ≤ g.rules.length := by
    have fewer := List.length_filter_le (fun name => !opened.contains name) (g.rules.map Prod.fst)
    rwa [List.length_map] at fewer
  rw [← expand_levels g.rules.length 1 enough]
  rfl

theorem grounded_body (sound : g.Sound) {owner : String} {body : Rule} (rule : (owner, body) ∈ g.rules) :
    ∀ position ∈ body.positions, position.Grounded g := by
  intro position inside
  unfold Rule.Grounded
  split
  · exact sound.defined _ rule _ inside
  · exact bodies_labeled _ rule _ inside _ rfl
  · trivial

theorem expand_closed (sound : g.Sound) (levels : Nat) (opened : List String) (around : Option String)
    (used : String) (known : Rule.Known g around) :
    ∀ slot ∈ g.expand name levels opened around used, slot.Closed g name := by
  induction levels generalizing opened around used with
  | zero => simp [expand]
  | succ levels ih =>
    rw [expand]
    cases rule : g.definition? used with
    | none => simp
    | some body =>
      dsimp only
      split
      · simp
      · exact Rule.slot_closed (fun around next known => ih (used :: opened) around next known) body
          around known (grounded_body sound (sound.definition.mp rule))

theorem slot?_closed (sound : g.Sound) {owner : String} {body : Rule}
    (rule : (owner, body) ∈ g.rules) : ∀ slot ∈ g.slot? body name, slot.Closed g name :=
  Rule.slot_closed (fun around used known => expand_closed sound _ [] around used known) body none
    (by simp [Rule.Known]) (grounded_body sound rule)

theorem mem_of_mapM_some {α β : Type} {f : α → Option β} {xs : List α} {ys : List β}
    (mapped : xs.mapM f = some ys) : ∀ y ∈ ys, ∃ x ∈ xs, f x = some y := by
  induction xs generalizing ys with
  | nil =>
    obtain rfl : ys = [] := by simpa using mapped.symm
    simp
  | cons x xs ih =>
    rw [List.mapM_cons] at mapped
    obtain ⟨first, here, mapped⟩ := Option.bind_eq_some_iff.mp mapped
    obtain ⟨rest, later, mapped⟩ := Option.bind_eq_some_iff.mp mapped
    obtain rfl := Option.some.inj mapped
    refine List.forall_mem_cons.mpr ⟨⟨x, List.mem_cons_self, here⟩, fun y member => ?_⟩
    obtain ⟨source, inside, found⟩ := ih later y member
    exact ⟨source, List.mem_cons_of_mem _ inside, found⟩

theorem subtypes?_closed {body : Rule} {types : List TypeRef} (sum : g.subtypes? body = some types) :
    types.Pairwise (fun a b => TypeRef.lt a b = true) ∧ ∀ type ∈ types, type.named = true →
      Rule.isHiddenName type.kind = false ∧ type.kind ∈ g.rules.map Prod.fst := by
  obtain ⟨members, -, sum⟩ := Option.bind_eq_some_iff.mp sum
  obtain ⟨subtypes, each, sum⟩ := Option.bind_eq_some_iff.mp sum
  obtain rfl := Option.some.inj sum
  refine ⟨Slot.insertTypes_pairwise subtypes List.Pairwise.nil, fun type member _ => ?_⟩
  have inside : type ∈ subtypes := by simpa [Slot.mem_insertTypes] using member
  obtain ⟨symbol, -, found⟩ := mem_of_mapM_some each type inside
  unfold subtype? at found
  split at found
  · obtain ⟨shown, same⟩ := Option.ite_none_right_eq_some.mp found
    obtain rfl := Option.some.inj same
    rw [Bool.and_eq_true, Bool.not_eq_true', Option.isSome_iff_exists] at shown
    obtain ⟨visible, body, rule⟩ := shown
    exact ⟨visible, mem_names_of_definition rule⟩
  · cases found

end Grammar

/-- All lists of types in a node type: its subtypes, or the types of its slots. -/
def NodeType.typeLists (t : NodeType) : List (List TypeRef) :=
  match t.shape with
  | .sum subtypes => [subtypes]
  | .product fields children => (fields.values ++ children).map Slot.types

theorem nodeTypes_kinds (g : Grammar) : g.nodeTypes.map NodeType.kind =
    (g.rules.map Prod.fst).filter fun name => !Rule.isHiddenName name := by
  rw [Grammar.nodeTypes, List.map_map, List.filter_map]
  rfl

theorem mem_nodeTypes {g : Grammar} {t : NodeType} (entry : t ∈ g.nodeTypes) :
    ∃ body, (t.kind, body) ∈ g.rules ∧ t.shape = g.shape body := by
  obtain ⟨⟨owner, body⟩, shown, rfl⟩ := List.mem_map.mp entry
  exact ⟨body, (List.mem_filter.mp shown).1, rfl⟩

theorem OrderedMap.find?_of_mem {α : Type} {m : OrderedMap α} {key : String} {value : α}
    (member : (key, value) ∈ m.entries) : m.find? key = some value := by
  obtain ⟨before, after, split⟩ := List.append_of_mem member
  have distinct := m.distinct
  rw [split, List.map_append, List.nodup_append] at distinct
  refine List.lookup_eq_some_iff.mpr ⟨before, after, split, fun entry inside => ?_⟩
  have apart := distinct.2.2 entry.1 (List.mem_map_of_mem inside) key List.mem_cons_self
  simpa using apart.symm

section

variable {g : Grammar} (sound : g.Sound) {t : NodeType} (entry : t ∈ g.nodeTypes)

include sound entry

theorem shape_slots {fields : OrderedMap Slot} {children : List Slot}
    (product : t.shape = .product fields children) : ∃ body, (t.kind, body) ∈ g.rules ∧
      children = (g.slot? body .children).toList ∧
      ∀ label slot, (label, slot) ∈ fields.entries → g.slot? body (.field label) = some slot := by
  obtain ⟨body, rule, -⟩ := mem_nodeTypes entry
  have no_sum : t.isSum = false := by simp [NodeType.isSum, product]
  have shape := shape_product sound entry no_sum rule
  rw [product] at shape
  obtain ⟨-, children⟩ := Shape.product.inj shape
  refine ⟨body, rule, children, fun label slot member => ?_⟩
  have found : t.slot? (.field label) = some slot := by
    simp only [NodeType.slot?, NodeType.field?, NodeType.fields, product]
    exact OrderedMap.find?_of_mem member
  rw [slot?_field sound entry no_sum rule] at found
  exact (Option.ite_none_right_eq_some.mp found).2

theorem typeLists_closed : ∀ types ∈ t.typeLists,
    types.Pairwise (fun a b => TypeRef.lt a b = true) ∧ ∀ type ∈ types, type.named = true →
      Rule.isHiddenName type.kind = false ∧ type.kind ∈ g.rules.map Prod.fst := by
  intro types member
  unfold NodeType.typeLists at member
  split at member
  · rename_i subtypes sum
    obtain rfl := List.mem_singleton.mp member
    obtain ⟨body, -, shape⟩ := mem_nodeTypes entry
    rw [sum, Grammar.shape] at shape
    split at shape
    · rename_i other found
      obtain rfl := Shape.sum.inj shape
      exact Grammar.subtypes?_closed found
    · cases shape
  · rename_i fields children product
    obtain ⟨body, rule, rfl, filled⟩ := shape_slots sound entry product
    obtain ⟨slot, inside, rfl⟩ := List.mem_map.mp member
    have closed : ∃ name, slot.Closed g name := by
      rcases List.mem_append.mp inside with field | child
      · obtain ⟨⟨label, slot⟩, among, rfl⟩ := List.mem_map.mp field
        exact ⟨_, Grammar.slot?_closed sound rule slot (filled label slot among)⟩
      · exact ⟨_, Grammar.slot?_closed sound rule slot (Option.mem_toList.mp child)⟩
    obtain ⟨name, closed⟩ := closed
    exact ⟨closed.sorted, closed.visible⟩

end

/-- The node types of a valid grammar are closed. Opening hidden rules inside each other ends, and is
not cut short. There is one entry for each visible rule, in the order of definition. Every list of types
is strictly sorted, and the named types in it are kinds of entries. A product has at most one slot for
children in no field, and the fields that its body fills are fields of the grammar. -/
theorem nodeTypes_closed (g : Grammar) (valid : g.validate = .ok ()) :
    (WellFounded fun later earlier => g.Opens earlier later) ∧
      (∀ name, g.Unbounded name (g.expand name g.rules.length)) ∧
      g.nodeTypes.map NodeType.kind =
        (g.rules.map Prod.fst).filter (fun name => !Rule.isHiddenName name) ∧
      (g.nodeTypes.map NodeType.kind).Nodup ∧
      (∀ t ∈ g.nodeTypes, ∀ types ∈ t.typeLists,
        types.Pairwise (fun a b => TypeRef.lt a b = true) ∧
          ∀ type ∈ types, type.named = true →
            Rule.isHiddenName type.kind = false ∧
              ∃ entry ∈ g.nodeTypes, entry.kind = type.kind) ∧
      (∀ t ∈ g.nodeTypes, ∀ fields children, t.shape = .product fields children →
        children.length ≤ 1 ∧ ∀ label ∈ fields.keys, label ∈ g.fieldNames) ∧
      ∀ owner body, (owner, body) ∈ g.rules →
        ∀ label, (g.slot? body (.field label)).isSome = true → label ∈ g.fieldNames := by
  have sound := Grammar.sound_of_validate valid
  refine ⟨g.opens_wellFounded, g.expand_unbounded, nodeTypes_kinds g, ?_, ?_, ?_, ?_⟩
  · rw [nodeTypes_kinds]
    exact sound.distinct.filter _
  · intro t entry types member
    obtain ⟨sorted, visible⟩ := typeLists_closed sound entry types member
    refine ⟨sorted, fun type inside named => ?_⟩
    obtain ⟨shown, defined⟩ := visible type inside named
    have listed : type.kind ∈ g.nodeTypes.map NodeType.kind := by
      rw [nodeTypes_kinds]
      exact List.mem_filter.mpr ⟨defined, by simp [shown]⟩
    exact ⟨shown, List.mem_map.mp listed⟩
  · intro t entry fields children product
    obtain ⟨body, rule, rfl, filled⟩ := shape_slots sound entry product
    refine ⟨Option.length_toList_le, fun label member => ?_⟩
    obtain ⟨⟨label, slot⟩, among, rfl⟩ := List.mem_map.mp member
    exact (Grammar.slot?_closed sound rule slot (filled label slot among)).placed label rfl
  · intro owner body rule label filled
    obtain ⟨slot, found⟩ := Option.isSome_iff_exists.mp filled
    exact (Grammar.slot?_closed sound rule slot found).placed label rfl

/-- Turns of a talk and the answers to them, in hidden rules that refer to each other. -/
def talkGrammar : Grammar where
  name := "talks"
  rules := [
    ("talk", .symbol "_turn"),
    ("_turn", .seq [.field "speaker" (.symbol "person"), .optional (.symbol "_answer")]),
    ("_answer", .seq [.field "mark" (.string "-"), .symbol "_turn"]),
    ("person", .pattern "[a-z]+" none)]
  extras := []

theorem talk_closed :
    talkGrammar.HiddenUse "_turn" "_answer" ∧ talkGrammar.HiddenUse "_answer" "_turn" ∧
      (WellFounded fun later earlier => talkGrammar.Opens earlier later) ∧
      ∃ t ∈ talkGrammar.nodeTypes, [⟨"person", true⟩] ∈ t.typeLists ∧
        ∃ entry ∈ talkGrammar.nodeTypes, entry.kind = "person" := by
  have valid : talkGrammar.validate = .ok () := rfl
  obtain ⟨ends, -, -, -, listed, -, -⟩ := nodeTypes_closed talkGrammar valid
  have turn : talkGrammar.HiddenUse "_turn" "_answer" :=
    ⟨by decide, by decide, _, List.mem_cons_of_mem _ List.mem_cons_self, by
      simp [Rule.positions, Rule.positionsAll, Rule.optional]⟩
  have answer : talkGrammar.HiddenUse "_answer" "_turn" :=
    ⟨by decide, by decide, _, List.mem_cons_of_mem _ (List.mem_cons_of_mem _ List.mem_cons_self), by
      simp [Rule.positions, Rule.positionsAll]⟩
  have talk : (⟨"talk", true, talkGrammar.shape (.symbol "_turn")⟩ : NodeType) ∈
      talkGrammar.nodeTypes := List.mem_cons_self
  have speaker : [⟨"person", true⟩] ∈
      (⟨"talk", true, talkGrammar.shape (.symbol "_turn")⟩ : NodeType).typeLists := by
    decide +kernel
  exact ⟨turn, answer, ends, _, talk, speaker,
    ((listed _ talk _ speaker).2 _ (List.mem_singleton_self _) rfl).2⟩

end CraftDsl
