import CraftDsl.Proofs.Exactness

/-!
Node types of grammars with recursive hidden rules. Inside itself a hidden rule counts as nothing, so
a slot may say less than derivations do. What is required is so in all of them; the types of a slot and
how often it may be filled hold where opening once more the hidden rules that the body reaches adds
nothing to it. Main statement: `product_sound`.
-/
namespace CraftDsl

namespace Slot

def typesOf (slot : Option Slot) : List TypeRef := (slot.map Slot.types).getD []

def isMultiple (slot : Option Slot) : Bool := slot.any Slot.multiple

def isRequired (slot : Option Slot) : Bool := slot.any Slot.required

section

variable {a b : Option Slot} {type : TypeRef}

theorem mem_typesOf_inSequence :
    type ∈ typesOf (inSequence a b) ↔ type ∈ typesOf a ∨ type ∈ typesOf b := by
  cases a <;> cases b <;> simp [typesOf, inSequence, mem_insertTypes]

theorem mem_typesOf_inChoice :
    type ∈ typesOf (inChoice a b) ↔ type ∈ typesOf a ∨ type ∈ typesOf b := by
  cases a <;> cases b <;> simp [typesOf, inChoice, notRequired, mem_insertTypes]

@[simp] theorem typesOf_anyNumber : typesOf (a.map anyNumber) = typesOf a := by
  cases a <;> rfl

@[simp] theorem typesOf_oneOrMore : typesOf (a.map oneOrMore) = typesOf a := by
  cases a <;> rfl

theorem isMultiple_inChoice : isMultiple (inChoice a b) = (isMultiple a || isMultiple b) := by
  cases a <;> cases b <;> simp [isMultiple, inChoice, notRequired]

theorem isRequired_inSequence : isRequired (inSequence a b) = (isRequired a || isRequired b) := by
  cases a <;> cases b <;> simp [isRequired, inSequence]

theorem isRequired_inChoice : isRequired (inChoice a b) = (isRequired a && isRequired b) := by
  cases a <;> cases b <;> simp [isRequired, inChoice, notRequired]

@[simp] theorem isRequired_anyNumber : isRequired (a.map anyNumber) = false := by
  cases a <;> rfl

@[simp] theorem isRequired_oneOrMore : isRequired (a.map oneOrMore) = isRequired a := by
  cases a <;> rfl

end

/-- A relation between slots and the types put into them that goes over to what is put together from
them. -/
structure Compositional (R : Option Slot → List TypeRef → Prop) : Prop where
  nothing : R none []
  one : ∀ type, R (some (one type)) [type]
  sequence : ∀ {a b : Option Slot} {u v : List TypeRef}, R a u → R b v → R (inSequence a b) (u ++ v)
  left : ∀ {a : Option Slot} {u : List TypeRef} (b : Option Slot), R a u → R (inChoice a b) u
  right : ∀ {b : Option Slot} {u : List TypeRef} (a : Option Slot), R b u → R (inChoice a b) u
  never : ∀ a : Option Slot, R (a.map anyNumber) []
  again : ∀ {a : Option Slot} {u v : List TypeRef},
    R a u → R (a.map anyNumber) v → R (a.map anyNumber) (u ++ v)
  once : ∀ {a : Option Slot} {u v : List TypeRef},
    R a u → R (a.map anyNumber) v → R (a.map oneOrMore) (u ++ v)

def Demands (slot : Option Slot) (types : List TypeRef) : Prop := isRequired slot = true → types ≠ []

theorem demands_none (types : List TypeRef) : Demands none types := by
  simp [Demands, isRequired]

theorem demands_compositional : Compositional Demands where
  nothing := demands_none []
  one type := by simp [Demands]
  sequence first second := by
    rw [Demands, isRequired_inSequence, Bool.or_eq_true]
    rintro (required | required)
    · exact List.append_ne_nil_of_left_ne_nil (first required) _
    · exact List.append_ne_nil_of_right_ne_nil _ (second required)
  left b first := by
    rw [Demands, isRequired_inChoice, Bool.and_eq_true]
    exact fun required => first required.1
  right a second := by
    rw [Demands, isRequired_inChoice, Bool.and_eq_true]
    exact fun required => second required.2
  never a := by simp [Demands]
  again _ _ := by simp [Demands]
  once first _ := by
    rw [Demands, isRequired_oneOrMore]
    exact fun required => List.append_ne_nil_of_left_ne_nil (first required) _

/-- Only types of the slot are put into it, and not more than one unless it is multiple. -/
structure Limits (slot : Option Slot) (types : List TypeRef) : Prop where
  among : ∀ type ∈ types, type ∈ typesOf slot
  single : isMultiple slot = false → types.length ≤ 1

theorem limits_nil (slot : Option Slot) : Limits slot [] := ⟨nofun, fun _ => Nat.zero_le 1⟩

theorem Limits.nothing {types : List TypeRef} (limits : Limits none types) : types = [] :=
  List.eq_nil_iff_forall_not_mem.mpr fun type member => List.not_mem_nil (limits.among type member)

theorem limits_compositional : Compositional Limits where
  nothing := limits_nil none
  one type := ⟨by simp [typesOf, Slot.one], by simp⟩
  sequence {a b u v} first second := by
    constructor
    · intro type member
      rw [mem_typesOf_inSequence]
      exact (List.mem_append.mp member).imp (first.among type) (second.among type)
    · intro few
      cases a with
      | none =>
        rw [first.nothing]
        exact second.single few
      | some slot =>
        cases b with
        | none =>
          rw [second.nothing, List.append_nil]
          exact first.single few
        | some other => cases few
  left b first := by
    refine ⟨fun type member => mem_typesOf_inChoice.mpr (.inl (first.among type member)), ?_⟩
    rw [isMultiple_inChoice, Bool.or_eq_false_iff]
    exact fun few => first.single few.1
  right a second := by
    refine ⟨fun type member => mem_typesOf_inChoice.mpr (.inr (second.among type member)), ?_⟩
    rw [isMultiple_inChoice, Bool.or_eq_false_iff]
    exact fun few => second.single few.2
  never a := limits_nil _
  again {a u v} first later := by
    constructor
    · intro type member
      rw [typesOf_anyNumber]
      rcases List.mem_append.mp member with here | there
      · exact first.among type here
      · simpa using later.among type there
    · intro few
      cases a with
      | none =>
        rw [first.nothing]
        exact later.single few
      | some slot => cases few
  once {a u v} first later := by
    constructor
    · intro type member
      rw [typesOf_oneOrMore]
      rcases List.mem_append.mp member with here | there
      · exact first.among type here
      · simpa using later.among type there
    · intro few
      cases a with
      | none => simp [first.nothing, later.nothing]
      | some slot => cases few

def within (a b : Option Slot) : Bool :=
  (typesOf a).all (fun type => type ∈ typesOf b) && (!isMultiple a || isMultiple b)

theorem within_iff {a b : Option Slot} : within a b = true ↔
    (∀ type ∈ typesOf a, type ∈ typesOf b) ∧ (isMultiple a = true → isMultiple b = true) := by
  simp only [within, Bool.and_eq_true, List.all_eq_true, decide_eq_true_eq]
  cases isMultiple a <;> simp

theorem Limits.within {a b : Option Slot} {types : List TypeRef} (limits : Limits a types)
    (wider : within a b = true) : Limits b types := by
  obtain ⟨known, more⟩ := within_iff.mp wider
  refine ⟨fun type member => known type (limits.among type member), fun few => limits.single ?_⟩
  by_contra many
  rw [more (Bool.not_eq_false _ ▸ many)] at few
  cases few

end Slot

namespace Rule

open Slot

variable {g : Grammar} {name : SlotName} {R : Option Slot → List TypeRef → Prop}

section

variable {expand : Option String → String → Option Slot} {around : Option String}

theorem slotOfAny_before (compositional : Compositional R) {types : List TypeRef} (members : List Rule)
    {before : Option Slot} (holds : R before types) :
    R (slotOfAny expand name around before members) types := by
  induction members generalizing before with
  | nil => exact holds
  | cons member members ih => exact ih (compositional.left _ holds)

theorem slotOfAny_member (compositional : Compositional R) {types : List TypeRef} {members : List Rule}
    {member : Rule} (among : member ∈ members) (holds : R (member.slot expand name around) types)
    (before : Option Slot) : R (slotOfAny expand name around before members) types := by
  induction members generalizing before with
  | nil => cases among
  | cons first members ih =>
    rcases List.mem_cons.mp among with rfl | later
    · exact slotOfAny_before compositional members (compositional.right _ holds)
    · exact ih later _

theorem slot_choice (compositional : Compositional R) {types : List TypeRef} {members : List Rule}
    {member : Rule} (among : member ∈ members) (holds : R (member.slot expand name around) types) :
    R ((choice members).slot expand name around) types := by
  cases members with
  | nil => cases among
  | cons first members =>
    rw [slot]
    rcases List.mem_cons.mp among with rfl | later
    · exact slotOfAny_before compositional members holds
    · exact slotOfAny_member compositional later holds _

theorem slot_child (compositional : Compositional R) (type : TypeRef) :
    R (if name = .ofField around then some (one type) else none)
      (inSlot name [(.ofField around, type)]) := by
  by_cases here : name = .ofField around
  · rw [if_pos here, inSlot, List.filterMap_cons, if_pos here.symm]
    exact compositional.one type
  · rw [if_neg here, inSlot, List.filterMap_cons, if_neg (Ne.symm here)]
    exact compositional.nothing

end

mutual

/-- The hidden symbols of a rule, each with the innermost field around it. -/
def uses (around : Option String) : Rule → List (Option String × String)
  | symbol used => if isHiddenName used then [(around, used)] else []
  | seq members | choice members => usesAll around members
  | repeat0 content | repeat1 content | prec _ _ content => content.uses around
  | field label content => content.uses (some label)
  | blank | string _ | pattern _ _ => []

def usesAll (around : Option String) : List Rule → List (Option String × String)
  | [] => []
  | rule :: rules => rule.uses around ++ usesAll around rules

end

theorem uses_member {around : Option String} {members : List Rule} {member : Rule}
    (among : member ∈ members) : member.uses around ⊆ usesAll around members := by
  induction members with
  | nil => cases among
  | cons first members ih =>
    rw [usesAll]
    rcases List.mem_cons.mp among with rfl | later
    · exact List.subset_append_left _ _
    · exact List.Subset.trans (ih later) (List.subset_append_right _ _)

mutual

theorem uses_hidden {use : Option String × String} : (rule : Rule) → {around : Option String} →
    use ∈ rule.uses around → isHiddenName use.2 = true
  | symbol used, around, inside => by
    rw [uses] at inside
    split at inside
    · rename_i hidden
      rwa [List.mem_singleton.mp inside]
    · cases inside
  | seq members, _, inside | choice members, _, inside => usesAll_hidden members inside
  | repeat0 content, _, inside | repeat1 content, _, inside | prec _ _ content, _, inside
  | field _ content, _, inside => uses_hidden content inside
  | blank, _, inside | string _, _, inside | pattern _ _, _, inside => nomatch inside

theorem usesAll_hidden {use : Option String × String} : (members : List Rule) →
    {around : Option String} → use ∈ usesAll around members → isHiddenName use.2 = true
  | [], _, inside => nomatch inside
  | member :: members, _, inside =>
    (List.mem_append.mp inside).elim (uses_hidden member) (usesAll_hidden members)

end

/-- What is said of hidden symbols in their places, for those that are `reached`: it holds of one that
stands for no other rule, and of any other if it holds of what its body makes of the slot. -/
structure Inlines (g : Grammar) (name : SlotName) (R : Option Slot → List TypeRef → Prop)
    (reached : Option String × String → Prop) {ι : Type}
    (expand : ι → Option String → String → Option Slot) : Prop where
  plain : ∀ {used body}, (used, body) ∈ g.rules → isHiddenName used = true →
    body.isTerminal = true → ∀ i around, R (expand i around used) []
  onward : ∀ {around used body}, reached (around, used) → (used, body) ∈ g.rules →
    body.isTerminal = false → ∀ use ∈ body.uses around, reached use
  opened : ∀ {around used body}, reached (around, used) → (used, body) ∈ g.rules →
    body.isTerminal = false → ∀ {types}, (∀ i, R (body.slot (expand i) name around) types) →
      ∀ i, R (expand i around used) types

/-- What a rule body makes of a slot is in the relation to what its derivations put into it. -/
theorem Fills.compositional (compositional : Compositional R)
    {reached : Option String × String → Prop} {ι : Type}
    {expand : ι → Option String → String → Option Slot} (inlines : Inlines g name R reached expand)
    {around : Option String} {rule : Rule} {word : List Child} (fills : rule.Fills g around word)
    (from_reached : ∀ use ∈ rule.uses around, reached use) :
    (∀ i, R (rule.slot (expand i) name around) (inSlot name word)) ∧
      ∀ members, rule = seq members → ∀ i before types, R before types →
        R (slotOfAll (expand i) name around before members) (types ++ inSlot name word) := by
  induction fills with
  | blank => exact ⟨fun _ => compositional.nothing, fun _ => Rule.noConfusion⟩
  | pattern => exact ⟨fun _ => compositional.nothing, fun _ => Rule.noConfusion⟩
  | bare => exact ⟨fun _ => compositional.nothing, fun _ => Rule.noConfusion⟩
  | @string label value =>
    refine ⟨fun i => ?_, fun _ => Rule.noConfusion⟩
    rw [slot]
    simp only [Option.isSome_some, Bool.true_and, decide_eq_true_eq]
    exact slot_child compositional ⟨value, false⟩
  | @visible around used shown =>
    refine ⟨fun i => ?_, fun _ => Rule.noConfusion⟩
    rw [slot, if_neg (Bool.eq_false_iff.mp shown)]
    exact slot_child compositional ⟨used, true⟩
  | @terminal around used body hidden rule plain =>
    refine ⟨fun i => ?_, fun _ => Rule.noConfusion⟩
    rw [slot, if_pos hidden]
    exact inlines.plain rule hidden plain i around
  | @inlined around used body word hidden rule composed inner ih =>
    refine ⟨fun i => ?_, fun _ => Rule.noConfusion⟩
    have here : reached (around, used) := from_reached _ (by simp [uses, hidden])
    rw [slot, if_pos hidden]
    exact inlines.opened here rule composed (ih (inlines.onward here rule composed)).1 i
  | seqNil =>
    refine ⟨fun _ => compositional.nothing, ?_⟩
    rintro _ ⟨⟩ i before types holds
    rwa [slotOfAll, inSlot, List.filterMap_nil, List.append_nil]
  -- The rest of a sequence goes on from the slot that its first member leaves.
  | @seqCons around first rest u v now later now_ih later_ih =>
    have head := (now_ih fun use inside => from_reached use (List.mem_append_left _ inside)).1
    have tail := (later_ih fun use inside => from_reached use (List.mem_append_right _ inside)).2 rest rfl
    have onward (i : ι) (before : Option Slot) (types : List TypeRef) (holds : R before types) :
        R (slotOfAll (expand i) name around before (first :: rest)) (types ++ inSlot name (u ++ v)) := by
      rw [slotOfAll, inSlot_append, ← List.append_assoc]
      exact tail i _ _ (compositional.sequence holds (head i))
    refine ⟨fun i => onward i none [] compositional.nothing, ?_⟩
    rintro _ ⟨⟩
    exact onward
  | @choice around members member word among inner ih =>
    have below : ∀ use ∈ member.uses around, reached use := fun use inside =>
      from_reached use (uses_member among inside)
    exact ⟨fun i => slot_choice compositional among ((ih below).1 i), fun _ => Rule.noConfusion⟩
  | repeatNil => exact ⟨fun _ => compositional.never _, fun _ => Rule.noConfusion⟩
  | repeatCons _ _ now_ih later_ih =>
    refine ⟨fun i => ?_, fun _ => Rule.noConfusion⟩
    rw [inSlot_append]
    exact compositional.again ((now_ih from_reached).1 i) ((later_ih from_reached).1 i)
  | repeatOnce _ _ now_ih later_ih =>
    refine ⟨fun i => ?_, fun _ => Rule.noConfusion⟩
    rw [inSlot_append]
    exact compositional.once ((now_ih from_reached).1 i) ((later_ih from_reached).1 i)
  | field _ ih => exact ⟨(ih from_reached).1, fun _ => Rule.noConfusion⟩
  | prec _ ih => exact ⟨(ih from_reached).1, fun _ => Rule.noConfusion⟩

end Rule

namespace Grammar

open Slot

variable {g : Grammar} {name : SlotName}

/-- The hidden symbols, in their fields, that a rule body leads to. -/
inductive Reaches (g : Grammar) (body : Rule) : Option String × String → Prop
  | here {use : Option String × String} : use ∈ body.uses none → Reaches g body use
  | inside {around : Option String} {used : String} {inner : Rule} {use : Option String × String} :
    Reaches g body (around, used) → (used, inner) ∈ g.rules → inner.isTerminal = false →
      use ∈ inner.uses around → Reaches g body use

theorem Reaches.hidden {body : Rule} {use : Option String × String} (reached : g.Reaches body use) :
    Rule.isHiddenName use.2 = true := by
  cases reached with
  | here inside => exact body.uses_hidden inside
  | inside _ _ _ further => exact Rule.uses_hidden _ further

/-- Opening a hidden rule once more in a place that the body reaches adds nothing to the slot. -/
def Settled (g : Grammar) (body : Rule) (name : SlotName) : Prop :=
  ∀ {around used inner}, g.Reaches body (around, used) → (used, inner) ∈ g.rules →
    inner.isTerminal = false →
      within (inner.slot (g.expand name g.rules.length []) name around)
        (g.expand name g.rules.length [] around used) = true

/-- A list that the body begins in and does not lead out of has all that it reaches. -/
theorem settled_of_listed {body : Rule} (places : List (Option String × String))
    (begins : ∀ use ∈ body.uses none, use ∈ places)
    (onward : ∀ use ∈ places, ∀ entry ∈ g.rules, entry.1 = use.2 → entry.2.isTerminal = false →
      (∀ inner ∈ entry.2.uses use.1, inner ∈ places) ∧
        within (entry.2.slot (g.expand name g.rules.length []) name use.1)
          (g.expand name g.rules.length [] use.1 use.2) = true) : g.Settled body name := by
  have listed {use : Option String × String} (reached : g.Reaches body use) : use ∈ places := by
    induction reached with
    | here begun => exact begins _ begun
    | inside _ rule composed inner ih => exact (onward _ ih _ rule rfl composed).1 _ inner
  intro around used inner reached rule composed
  exact (onward _ (listed reached) _ rule rfl composed).2

-- Recursion among other hidden rules is no concern of a body that leads to none of them.
example (g : Grammar) (name : SlotName) :
    g.Settled (.seq [.field "key" (.symbol "item"), .symbol "item"]) name :=
  settled_of_listed [] (by decide) nofun

/-- However many levels are left and whichever rules are open, a hidden symbol in its place demands no
more than its body does. -/
theorem expand_demands (sound : g.Sound) : Rule.Inlines g name Demands (fun _ => True)
    fun stage : Nat × List String => g.expand name stage.1 stage.2 where
  plain {used body} rule hidden plain stage around := by
    obtain ⟨levels, opened⟩ := stage
    cases levels with
    | zero => exact demands_none []
    | succ levels => simp [expand, sound.definition.mpr rule, plain, Demands, isRequired]
  onward _ _ _ _ _ := trivial
  opened {around used body} _ rule composed types holds stage := by
    obtain ⟨levels, opened⟩ := stage
    cases levels with
    | zero => exact demands_none _
    | succ levels =>
      show Demands (g.expand name (levels + 1) opened around used) types
      simp only [expand, sound.definition.mpr rule, composed, Bool.false_or]
      split
      · exact demands_none types
      · exact holds (levels, used :: opened)

theorem expand_limits {start : Rule} (settled : g.Settled start name) :
    Rule.Inlines g name Limits (g.Reaches start) fun _ : Unit =>
      g.expand name g.rules.length [] where
  plain _ _ _ _ _ := limits_nil _
  onward reached rule composed _ inner := .inside reached rule composed inner
  opened reached rule composed _ holds i := (holds i).within (settled reached rule composed)

theorem within_of_describes {given : Language TypeRef} {a b : Option Slot}
    (one : Describes given a) (other : Describes given b) : within a b = true := by
  cases a with
  | none => exact within_iff.mpr ⟨nofun, nofun⟩
  | some slot =>
    cases b with
    | none =>
      obtain ⟨types, among, filled⟩ := one.filled
      rw [show given = 1 from other, Language.mem_one] at among
      exact absurd among filled
    | some wider =>
      exact within_iff.mpr ⟨fun type member => (other.types type).mpr ((one.types type).mp member),
        fun many => other.multiple.mpr (one.multiple.mp many)⟩

theorem settled_of_acyclic (sound : g.Sound) (acyclic : g.Acyclic) {body : Rule} :
    g.Settled body name := by
  intro around used inner reached rule composed
  have hidden : Rule.isHiddenName used = true := reached.hidden
  have opened := describes_inlined sound acyclic rule name around
  rw [← Rule.fillings_inlined sound hidden rule composed] at opened
  exact within_of_describes opened (describes_expand sound acyclic name _ [] List.nodup_nil used
    (by simp) (by simp) hidden (List.mem_map_of_mem rule) around)

end Grammar

section

open Slot

variable {g : Grammar} (sound : g.Sound) {name : SlotName} {word : List Child}

include sound

/-- What goes over from slots to what is put together from them holds of a node type. A field that is
not in the grammar is never filled. -/
theorem slot?_compositional {R : Option Slot → List TypeRef → Prop} (compositional : Compositional R)
    {t : NodeType} (entry : t ∈ g.nodeTypes) (product : t.isSum = false) {body : Rule}
    (rule : (t.kind, body) ∈ g.rules) (fills : body.Fills g none word)
    (holds : R (g.slot? body name) (inSlot name word)) : R (t.slot? name) (inSlot name word) := by
  cases name with
  | children => rwa [slot?_children sound entry product rule]
  | field label =>
    rw [slot?_field sound entry product rule]
    split
    · exact holds
    · rename_i unknown
      have unfilled : inSlot (.field label) word = [] := by
        rw [inSlot, List.filterMap_eq_nil_iff]
        rintro ⟨slot, type⟩ member
        rw [if_neg]
        rintro rfl
        rcases fills.field_known Grammar.bodies_labeled (Grammar.bodies_labeled _ rule) member with
          nothing | known
        · cases nothing
        · exact unknown known
      rw [unfilled]
      exact compositional.nothing

theorem body_demands {body : Rule} (fills : body.Fills g none word) :
    Demands (g.slot? body name) (inSlot name word) :=
  (fills.compositional demands_compositional (Grammar.expand_demands sound) fun _ _ => trivial).1
    (g.rules.length, [])

omit sound in
theorem body_limits {body : Rule} (settled : g.Settled body name) (fills : body.Fills g none word) :
    Limits (g.slot? body name) (inSlot name word) :=
  (fills.compositional limits_compositional (Grammar.expand_limits settled) fun _ => .here).1 ()

end

/-- The node type of a product and the derivations of its body. A required slot is filled in all of
them, however hidden rules refer to each other. Where the slot is settled, the children that go into it
are of its types, and there is at most one unless it is multiple. -/
theorem product_sound (g : Grammar) (valid : g.validate = .ok ()) {t : NodeType}
    (entry : t ∈ g.nodeTypes) (product : t.isSum = false) {body : Rule}
    (rule : (t.kind, body) ∈ g.rules) (name : SlotName) {word : List Child}
    (fills : body.Fills g none word) :
    (∀ slot ∈ t.slot? name, slot.required = true → 1 ≤ (inSlot name word).length) ∧
      (g.Settled body name →
        (∀ type ∈ inSlot name word, ∃ slot ∈ t.slot? name, type ∈ slot.types) ∧
          ∀ slot ∈ t.slot? name, slot.multiple = false → (inSlot name word).length ≤ 1) := by
  have sound := Grammar.sound_of_validate valid
  constructor
  · intro slot found required
    have demands : Slot.Demands (t.slot? name) (inSlot name word) :=
      slot?_compositional sound Slot.demands_compositional entry product rule fills
        (body_demands sound fills)
    rw [Option.mem_def.mp found] at demands
    exact List.length_pos_iff.mpr (demands required)
  · intro settled
    have limits := slot?_compositional sound Slot.limits_compositional entry product rule fills
      (body_limits settled fills)
    constructor
    · intro type member
      have known := limits.among type member
      cases found : t.slot? name with
      | none =>
        rw [found] at known
        cases known
      | some slot =>
        rw [found] at known
        exact ⟨slot, rfl, known⟩
    · intro slot found single
      rw [Option.mem_def.mp found] at limits
      exact limits.single single

/-- Links, then a comma and further links if there are any. -/
def chainBody : Rule := .symbol "_links"

def chainGrammar : Grammar where
  name := "chains"
  rules := [
    ("chain", chainBody),
    ("_links", .seq [.repeat1 (.symbol "link"), .optional (.seq [.string ",", .symbol "_links"])]),
    ("link", .pattern "o" none)]
  extras := []

def twoLinks : List Child := [(.children, ⟨"link", true⟩), (.children, ⟨"link", true⟩)]

theorem twoLinks_fills : chainBody.Fills chainGrammar none twoLinks := by
  have link : Rule.Fills chainGrammar none (.symbol "link") [(.children, ⟨"link", true⟩)] :=
    .visible (by decide)
  have first : Rule.Fills chainGrammar none (.repeat1 (.symbol "link")) [(.children, ⟨"link", true⟩)] :=
    .repeatOnce link .repeatNil
  have links {rest : Rule} {word : List Child} (more : rest.Fills chainGrammar none word)
      (member : rest ∈ [Rule.seq [.string ",", .symbol "_links"], .blank]) :
      Rule.Fills chainGrammar none (.symbol "_links") ((.children, ⟨"link", true⟩) :: word) := by
    have whole := Rule.Fills.seqCons first (.seqCons (.choice member more) .seqNil)
    rw [List.append_nil] at whole
    exact .inlined (by decide) (List.mem_cons_of_mem _ List.mem_cons_self) rfl whole
  have further : Rule.Fills chainGrammar none (.seq [.string ",", .symbol "_links"])
      [(.children, ⟨"link", true⟩)] := .seqCons .bare (.seqCons (links .blank (by simp)) .seqNil)
  exact links further (by simp)

/-- The rest of a chain counts as nothing, and that it counts as nothing changes nothing. -/
theorem twoLinks_sound :
    chainGrammar.Settled chainBody .children ∧
      (⟨"chain", true, chainGrammar.shape chainBody⟩ : NodeType).slot? .children =
        some ⟨true, true, [⟨"link", true⟩]⟩ ∧
      1 ≤ (inSlot .children twoLinks).length ∧
      ∀ type ∈ inSlot .children twoLinks, ∃ slot ∈
        (⟨"chain", true, chainGrammar.shape chainBody⟩ : NodeType).slot? .children,
          type ∈ slot.types := by
  have settled : chainGrammar.Settled chainBody .children :=
    Grammar.settled_of_listed [(none, "_links")] (by decide +kernel) (by decide +kernel)
  have slot : (⟨"chain", true, chainGrammar.shape chainBody⟩ : NodeType).slot? .children =
      some ⟨true, true, [⟨"link", true⟩]⟩ := by decide +kernel
  obtain ⟨required, types⟩ := product_sound chainGrammar rfl
    (t := ⟨"chain", true, chainGrammar.shape chainBody⟩) List.mem_cons_self (by decide +kernel)
    (show ("chain", chainBody) ∈ chainGrammar.rules from List.mem_cons_self) .children twoLinks_fills
  exact ⟨settled, slot, required _ slot rfl, (types settled).1⟩

/-- An item, or an item and the rest of a list. -/
def listBody : Rule := .symbol "_list"

def listGrammar : Grammar where
  name := "lists"
  rules := [
    ("list", listBody),
    ("_list", .choice [.symbol "item", .seq [.symbol "item", .symbol "_list"]]),
    ("item", .pattern "x" none)]
  extras := []

/-- The rest of a list counts as nothing, so a list is said to hold one item, and it may hold two. -/
theorem list_overfilled :
    listGrammar.validate = .ok () ∧
      ⟨"list", true, listGrammar.shape listBody⟩ ∈ listGrammar.nodeTypes ∧
      (⟨"list", true, listGrammar.shape listBody⟩ : NodeType).isSum = false ∧
      (⟨"list", true, listGrammar.shape listBody⟩ : NodeType).slot? .children =
        some ⟨false, true, [⟨"item", true⟩]⟩ ∧
      listBody.Fills listGrammar none [(.children, ⟨"item", true⟩), (.children, ⟨"item", true⟩)] := by
  have hidden : Rule.isHiddenName "_list" = true := by decide
  have item : Rule.Fills listGrammar none (.symbol "item") [(.children, ⟨"item", true⟩)] :=
    .visible (by decide)
  have one : Rule.Fills listGrammar none (.symbol "_list") [(.children, ⟨"item", true⟩)] :=
    .inlined hidden (List.mem_cons_of_mem _ List.mem_cons_self) rfl (.choice List.mem_cons_self item)
  have more := Rule.Fills.seqCons item (.seqCons one .seqNil)
  refine ⟨rfl, List.mem_cons_self, by decide +kernel, by decide +kernel, ?_⟩
  exact .inlined hidden (List.mem_cons_of_mem _ List.mem_cons_self) rfl
    (.choice (List.mem_cons_of_mem _ List.mem_cons_self) more)

def tailBody : Rule := .symbol "_tail"

def tailGrammar : Grammar where
  name := "tails"
  rules := [
    ("tail", tailBody),
    ("_tail", .choice [.symbol "x", .seq [.symbol "x", .field "next" (.symbol "_tail")]]),
    ("x", .pattern "x" none)]
  extras := []

/-- The tail in the field counts as nothing, so a node is said to have no such field, and it may have
one. -/
theorem field_lost :
    tailGrammar.validate = .ok () ∧
      ⟨"tail", true, tailGrammar.shape tailBody⟩ ∈ tailGrammar.nodeTypes ∧
      (⟨"tail", true, tailGrammar.shape tailBody⟩ : NodeType).isSum = false ∧
      (⟨"tail", true, tailGrammar.shape tailBody⟩ : NodeType).slot? (.field "next") = none ∧
      tailBody.Fills tailGrammar none [(.children, ⟨"x", true⟩), (.field "next", ⟨"x", true⟩)] := by
  have hidden : Rule.isHiddenName "_tail" = true := by decide
  have operand {around : Option String} :
      Rule.Fills tailGrammar around (.symbol "x") [(.ofField around, ⟨"x", true⟩)] :=
    .visible (by decide)
  have tail : Rule.Fills tailGrammar (some "next") (.symbol "_tail") [(.field "next", ⟨"x", true⟩)] :=
    .inlined hidden (List.mem_cons_of_mem _ List.mem_cons_self) rfl
      (.choice List.mem_cons_self operand)
  have more : Rule.Fills tailGrammar none (.seq [.symbol "x", .field "next" (.symbol "_tail")])
      [(.children, ⟨"x", true⟩), (.field "next", ⟨"x", true⟩)] :=
    .seqCons operand (.seqCons (.field tail) .seqNil)
  refine ⟨rfl, List.mem_cons_self, by decide +kernel, by decide +kernel, ?_⟩
  exact .inlined hidden (List.mem_cons_of_mem _ List.mem_cons_self) rfl
    (.choice (List.mem_cons_of_mem _ List.mem_cons_self) more)

end CraftDsl
