import CraftDsl.Proofs.Fillings

/-!
Node types say exactly what derivations do. Where no hidden rule reaches itself, a slot is there if
some derivation fills it, its types are those that fill it in some derivation, and how often it may and
must be filled is how often derivations fill it. Main statement: `product_exact`.
-/
namespace CraftDsl

open Computability

/-- The types of the children that are put into the slot. -/
def inSlot (name : SlotName) (word : List Child) : List TypeRef :=
  word.filterMap fun child => if child.1 = name then some child.2 else none

def share (name : SlotName) (words : Language Child) : Language TypeRef :=
  {types : List TypeRef | ∃ word ∈ words, inSlot name word = types}

section

variable {name : SlotName} {words more : Language Child}

theorem mem_share {types : List TypeRef} :
    types ∈ share name words ↔ ∃ word ∈ words, inSlot name word = types := Iff.rfl

theorem inSlot_append (u v : List Child) : inSlot name (u ++ v) = inSlot name u ++ inSlot name v :=
  List.filterMap_append

theorem inSlot_flatten (list : List (List Child)) :
    inSlot name list.flatten = (list.map (inSlot name)).flatten := by
  induction list with
  | nil => rfl
  | cons word list ih => rw [List.flatten_cons, inSlot_append, ih, List.map_cons, List.flatten_cons]

theorem share_zero : share name 0 = 0 := by
  ext types
  simp [mem_share]

theorem share_one : share name 1 = 1 := by
  ext types
  simp only [mem_share, Language.mem_one, exists_eq_left]
  exact eq_comm

theorem share_single (child : Child) : share name {[child]} = {inSlot name [child]} := by
  ext types
  constructor
  · rintro ⟨word, rfl, rfl⟩
    rfl
  · rintro rfl
    exact ⟨[child], rfl, rfl⟩

theorem share_add : share name (words + more) = share name words + share name more := by
  ext types
  simp only [mem_share, Language.mem_add, or_and_right, exists_or]

theorem share_mul : share name (words * more) = share name words * share name more := by
  ext types
  simp only [mem_share, Language.mem_mul]
  constructor
  · rintro ⟨_, ⟨u, first, v, second, rfl⟩, rfl⟩
    exact ⟨_, ⟨u, first, rfl⟩, _, ⟨v, second, rfl⟩, (inSlot_append u v).symm⟩
  · rintro ⟨_, ⟨u, first, rfl⟩, _, ⟨v, second, rfl⟩, rfl⟩
    exact ⟨u ++ v, ⟨u, first, v, second, rfl⟩, inSlot_append u v⟩

theorem share_kstar : share name words∗ = (share name words)∗ := by
  ext types
  simp only [mem_share, Language.mem_kstar]
  constructor
  · rintro ⟨_, ⟨list, rfl, all⟩, rfl⟩
    refine ⟨list.map (inSlot name), inSlot_flatten list, ?_⟩
    simp only [List.forall_mem_map]
    exact fun word member => ⟨word, all word member, rfl⟩
  · rintro ⟨list, rfl, all⟩
    induction list with
    | nil => exact ⟨[], ⟨[], rfl, by simp⟩, rfl⟩
    | cons types list ih =>
      obtain ⟨⟨word, among, rfl⟩, later⟩ := List.forall_mem_cons.mp all
      obtain ⟨_, ⟨words, rfl, rest⟩, same⟩ := ih later
      refine ⟨word ++ words.flatten, ⟨word :: words, rfl, ?_⟩, ?_⟩
      · exact List.forall_mem_cons.mpr ⟨among, rest⟩
      · rw [inSlot_append, same, List.flatten_cons]

end

theorem mem_insertSorted {α : Type} {lt : α → α → Bool}
    (total : ∀ a b, lt a b = false → lt b a = false → a = b) (x y : α) (sorted : List α) :
    y ∈ insertSorted lt x sorted ↔ y = x ∨ y ∈ sorted := by
  induction sorted with
  | nil => simp [insertSorted]
  | cons z sorted ih =>
    rw [insertSorted]
    split
    · simp
    · rename_i before
      split
      · rw [List.mem_cons, ih, List.mem_cons]
        exact or_left_comm
      · rename_i after
        have same := total x z (Bool.eq_false_iff.mpr before) (Bool.eq_false_iff.mpr after)
        simp [same]

theorem mem_foldl_insertSorted {α : Type} {lt : α → α → Bool}
    (total : ∀ a b, lt a b = false → lt b a = false → a = b) (y : α) (more sorted : List α) :
    y ∈ more.foldl (fun sorted x => insertSorted lt x sorted) sorted ↔ y ∈ sorted ∨ y ∈ more := by
  induction more generalizing sorted with
  | nil => simp
  | cons x more ih =>
    rw [List.foldl_cons, ih, mem_insertSorted total, List.mem_cons, or_assoc]
    exact or_left_comm

theorem eq_of_not_lt {a b : String} (before : decide (a < b) = false)
    (after : decide (b < a) = false) : a = b := by
  simp only [decide_eq_false_iff_not, not_lt] at before after
  exact le_antisymm after before

theorem TypeRef.lt_total (a b : TypeRef) (before : lt a b = false) (after : lt b a = false) :
    a = b := by
  obtain ⟨kind, named⟩ := a
  obtain ⟨kind', named'⟩ := b
  simp only [lt, Bool.or_eq_false_iff] at before after
  obtain rfl : kind = kind' := eq_of_not_lt before.1 after.1
  have flags := before.2
  have flags' := after.2
  cases named <;> cases named' <;> simp_all

namespace Slot

theorem mem_insertTypes (type : TypeRef) (types more : List TypeRef) :
    type ∈ insertTypes types more ↔ type ∈ types ∨ type ∈ more :=
  mem_foldl_insertSorted TypeRef.lt_total type more types

/-- The slot says exactly what is put into it. -/
structure Exact (given : Language TypeRef) (slot : Slot) : Prop where
  filled : ∃ types ∈ given, types ≠ []
  types : ∀ type, type ∈ slot.types ↔ ∃ types ∈ given, type ∈ types
  required : slot.required = true ↔ ∀ types ∈ given, types ≠ []
  multiple : slot.multiple = true ↔ ∃ types ∈ given, 2 ≤ types.length

def Describes (given : Language TypeRef) : Option Slot → Prop
  | none => given = 1
  | some slot => slot.Exact given

section

variable {given further : Language TypeRef} {slot other : Slot}

theorem exact_one (type : TypeRef) : (one type).Exact {[type]} := by
  constructor
  · exact ⟨[type], rfl, by simp⟩
  · intro other
    constructor
    · intro member
      exact ⟨[type], rfl, member⟩
    · rintro ⟨types, rfl, member⟩
      exact member
  · simp only [one, true_iff]
    rintro types rfl
    simp
  · simp only [one, Bool.false_eq_true, false_iff]
    rintro ⟨types, rfl, long⟩
    simp at long

theorem Exact.mul (first : slot.Exact given) (second : other.Exact further) :
    Exact (given * further)
      ⟨true, slot.required || other.required, insertTypes slot.types other.types⟩ := by
  -- A filling of both parts in a row shows what the joint slot may hold.
  obtain ⟨u, u_given, u_filled⟩ := first.filled
  obtain ⟨v, v_given, v_filled⟩ := second.filled
  have joint := Language.append_mem_mul u_given v_given
  constructor
  · exact ⟨u ++ v, joint, by simp [u_filled]⟩
  · intro type
    rw [mem_insertTypes, first.types, second.types]
    constructor
    · rintro (⟨types, among, inside⟩ | ⟨types, among, inside⟩)
      · exact ⟨types ++ v, Language.append_mem_mul among v_given, List.mem_append_left _ inside⟩
      · exact ⟨u ++ types, Language.append_mem_mul u_given among, List.mem_append_right _ inside⟩
    · rintro ⟨_, ⟨x, x_given, y, y_given, rfl⟩, inside⟩
      rcases List.mem_append.mp inside with left | right
      · exact .inl ⟨x, x_given, left⟩
      · exact .inr ⟨y, y_given, right⟩
  · rw [Bool.or_eq_true, first.required, second.required]
    constructor
    · rintro (always | always) _ ⟨x, x_given, y, y_given, rfl⟩
      · exact List.append_ne_nil_of_left_ne_nil (always x x_given) y
      · exact List.append_ne_nil_of_right_ne_nil x (always y y_given)
    · intro always
      by_contra sometimes
      push Not at sometimes
      obtain ⟨⟨x, x_given, rfl⟩, y, y_given, rfl⟩ := sometimes
      exact always [] (Language.append_mem_mul x_given y_given) rfl
  · simp only [true_iff]
    refine ⟨u ++ v, joint, ?_⟩
    have left := List.length_pos_of_ne_nil u_filled
    have right := List.length_pos_of_ne_nil v_filled
    rw [List.length_append]
    omega

theorem Exact.add (first : slot.Exact given) (second : other.Exact further) :
    Exact (given + further)
      ⟨slot.multiple || other.multiple, slot.required && other.required,
        insertTypes slot.types other.types⟩ := by
  constructor
  · obtain ⟨types, among, filled⟩ := first.filled
    exact ⟨types, .inl among, filled⟩
  · intro type
    rw [mem_insertTypes, first.types, second.types]
    simp only [Language.mem_add, or_and_right, exists_or]
  · rw [Bool.and_eq_true, first.required, second.required]
    simp only [Language.mem_add, or_imp, forall_and]
  · rw [Bool.or_eq_true, first.multiple, second.multiple]
    simp only [Language.mem_add, or_and_right, exists_or]

theorem Exact.optional (exact : slot.Exact given) : slot.notRequired.Exact (1 + given) := by
  obtain ⟨types, among, filled⟩ := exact.filled
  constructor
  · exact ⟨types, .inr among, filled⟩
  · intro type
    rw [show slot.notRequired.types = slot.types from rfl, exact.types]
    simp only [Language.mem_add, Language.mem_one, or_and_right, exists_or, exists_eq_left,
      List.not_mem_nil, false_or]
  · simp only [notRequired, Bool.false_eq_true, false_iff]
    intro always
    exact always [] (.inl Language.nil_mem_one) rfl
  · have short : ¬ 2 ≤ ([] : List TypeRef).length := by decide
    rw [show slot.notRequired.multiple = slot.multiple from rfl, exact.multiple]
    simp only [Language.mem_add, Language.mem_one, or_and_right, exists_or, exists_eq_left, short,
      false_or]

theorem Exact.kstar (exact : slot.Exact given) : slot.anyNumber.Exact given∗ := by
  obtain ⟨u, among, filled⟩ := exact.filled
  have single {types : List TypeRef} (member : types ∈ given) : types ∈ given∗ :=
    Language.mem_kstar.mpr ⟨[types], by simp, by simp [member]⟩
  constructor
  · exact ⟨u, single among, filled⟩
  · intro type
    rw [show slot.anyNumber.types = slot.types from rfl, exact.types]
    constructor
    · rintro ⟨types, member, inside⟩
      exact ⟨types, single member, inside⟩
    · rintro ⟨_, ⟨list, rfl, all⟩, inside⟩
      obtain ⟨types, member, within⟩ := List.mem_flatten.mp inside
      exact ⟨types, all types member, within⟩
  · simp only [anyNumber, Bool.false_eq_true, false_iff]
    intro always
    exact always [] (Language.nil_mem_kstar given) rfl
  · simp only [anyNumber, true_iff]
    refine ⟨u ++ u, Language.mem_kstar.mpr ⟨[u, u], by simp, by simp [among]⟩, ?_⟩
    have long := List.length_pos_of_ne_nil filled
    rw [List.length_append]
    omega

theorem Exact.plus (exact : slot.Exact given) : slot.oneOrMore.Exact (given * given∗) := by
  have many := exact.mul exact.kstar
  have types (type : TypeRef) : type ∈ slot.types ↔
      type ∈ insertTypes slot.types slot.anyNumber.types := by
    rw [mem_insertTypes]
    exact (or_self _).to_iff.symm
  constructor
  · exact many.filled
  · exact fun type => (types type).trans (many.types type)
  · rw [← many.required]
    simp [oneOrMore, anyNumber]
  · exact many.multiple

end

section

variable {given further : Language TypeRef} {a b : Option Slot}

theorem Describes.mul (first : Describes given a) (second : Describes further b) :
    Describes (given * further) (inSequence a b) := by
  cases a with
  | none =>
    rw [show given = 1 from first, one_mul]
    cases b <;> exact second
  | some slot =>
    cases b with
    | none =>
      rw [show further = 1 from second, mul_one]
      exact first
    | some other => exact Exact.mul first second

theorem Describes.add (first : Describes given a) (second : Describes further b) :
    Describes (given + further) (inChoice a b) := by
  cases a with
  | none =>
    rw [show given = 1 from first]
    cases b with
    | none =>
      rw [show further = 1 from second]
      exact Language.add_self 1
    | some other => exact Exact.optional second
  | some slot =>
    cases b with
    | none =>
      rw [show further = 1 from second, add_comm]
      exact Exact.optional first
    | some other => exact Exact.add first second

theorem Describes.kstar (described : Describes given a) :
    Describes given∗ (a.map anyNumber) := by
  cases a with
  | none =>
    rw [show given = 1 from described]
    exact kstar_one
  | some slot => exact Exact.kstar described

theorem Describes.plus (described : Describes given a) :
    Describes (given * given∗) (a.map oneOrMore) := by
  cases a with
  | none =>
    rw [show given = 1 from described, kstar_one]
    exact one_mul 1
  | some slot => exact Exact.plus described

end

end Slot

namespace Rule

open Slot

def Expands (g : Grammar) (expand : Option String → String → Option Slot) (name : SlotName) :
    Rule → Prop
  | choice [] => False
  | symbol used => isHiddenName used = true → ∀ around,
    Describes (share name ((symbol used).fillings g around)) (expand around used)
  | _ => True

section

variable {g : Grammar} {expand : Option String → String → Option Slot} {name : SlotName}

theorem describes_child (around : Option String) (type : TypeRef) :
    Describes (share name {[(SlotName.ofField around, type)]})
      (if name = .ofField around then some (.one type) else none) := by
  rw [share_single]
  by_cases here : name = .ofField around
  · rw [if_pos here, inSlot, List.filterMap_cons, if_pos here.symm]
    exact exact_one type
  · rw [if_neg here, inSlot, List.filterMap_cons, if_neg (Ne.symm here)]
    exact Language.one_def.symm

mutual

theorem describes_slot : (rule : Rule) → (around : Option String) →
    (∀ position ∈ rule.positions, position.Expands g expand name) →
      Describes (share name (rule.fillings g around)) (rule.slot expand name around)
  | blank, around, _ => by
    rw [fillings_blank, share_one]
    rfl
  | pattern value flags, around, _ => by
    rw [fillings_pattern, share_one]
    rfl
  | string value, around, _ => by
    rw [slot]
    cases around with
    | none =>
      rw [fillings_bare, share_one]
      rfl
    | some label =>
      rw [fillings_string]
      simp only [Option.isSome_some, Bool.true_and, decide_eq_true_eq]
      exact describes_child (some label) ⟨value, false⟩
  | symbol used, around, known => by
    rw [slot]
    by_cases hidden : isHiddenName used = true
    · rw [if_pos hidden]
      exact known (symbol used) List.mem_cons_self hidden around
    · rw [if_neg hidden, fillings_visible (Bool.eq_false_iff.mpr hidden)]
      exact describes_child around ⟨used, true⟩
  | seq members, around, known => by
    rw [slot, ← one_mul (share name _)]
    exact describes_slotOfAll members around none 1 rfl fun position inside =>
      known position (List.mem_cons_of_mem _ inside)
  | choice [], around, known => (known (choice []) List.mem_cons_self).elim
  | choice (member :: members), around, known => by
    have inner (position : Rule) (inside : position ∈ positionsAll (member :: members)) :=
      known position (List.mem_cons_of_mem _ inside)
    rw [slot, fillings_choice_cons, share_add]
    exact describes_slotOfAny members around _ _
      (describes_slot member around fun position inside =>
        inner position (List.mem_append_left _ inside))
      fun position inside => inner position (List.mem_append_right _ inside)
  | repeat0 content, around, known => by
    rw [slot, fillings_repeat0, share_kstar]
    exact (describes_slot content around fun position inside =>
      known position (List.mem_cons_of_mem _ inside)).kstar
  | repeat1 content, around, known => by
    rw [slot, fillings_repeat1, share_mul, share_kstar]
    exact (describes_slot content around fun position inside =>
      known position (List.mem_cons_of_mem _ inside)).plus
  | field label content, around, known => by
    rw [slot, fillings_field]
    exact describes_slot content (some label) fun position inside =>
      known position (List.mem_cons_of_mem _ inside)
  | prec side value content, around, known => by
    rw [slot, fillings_prec]
    exact describes_slot content around fun position inside =>
      known position (List.mem_cons_of_mem _ inside)

theorem describes_slotOfAll : (members : List Rule) → (around : Option String) →
    (before : Option Slot) → (given : Language TypeRef) → Describes given before →
    (∀ position ∈ positionsAll members, position.Expands g expand name) →
      Describes (given * share name ((seq members).fillings g around))
        (slotOfAll expand name around before members)
  | [], around, before, given, described, _ => by
    rw [fillings_seq_nil, share_one, mul_one]
    exact described
  | member :: members, around, before, given, described, known => by
    rw [slotOfAll, fillings_seq_cons, share_mul, ← mul_assoc]
    exact describes_slotOfAll members around _ _
      (described.mul (describes_slot member around fun position inside =>
        known position (List.mem_append_left _ inside)))
      fun position inside => known position (List.mem_append_right _ inside)

theorem describes_slotOfAny : (members : List Rule) → (around : Option String) →
    (before : Option Slot) → (given : Language TypeRef) → Describes given before →
    (∀ position ∈ positionsAll members, position.Expands g expand name) →
      Describes (given + share name ((choice members).fillings g around))
        (slotOfAny expand name around before members)
  | [], around, before, given, described, _ => by
    rw [fillings_choice_nil, share_zero, add_zero]
    exact described
  | member :: members, around, before, given, described, known => by
    rw [slotOfAny, fillings_choice_cons, share_add, ← add_assoc]
    exact describes_slotOfAny members around _ _
      (described.add (describes_slot member around fun position inside =>
        known position (List.mem_append_left _ inside)))
      fun position inside => known position (List.mem_append_right _ inside)

end

end

end Rule

namespace Grammar

open Slot

variable {g : Grammar}

/-- A hidden rule in its place makes of a slot what its derivations put into it. There are enough
levels, since the rules opened on the way differ from each other and from the one to open. -/
theorem describes_expand (sound : g.Sound) (acyclic : g.Acyclic) (name : SlotName) (levels : Nat)
    (opened : List String) (distinct : opened.Nodup) (used : String)
    (reaches : ∀ user ∈ opened, Relation.TransGen g.HiddenUse user used)
    (enough : g.rules.length ≤ levels + opened.length) (hidden : Rule.isHiddenName used = true)
    (defined : used ∈ g.rules.map Prod.fst) (around : Option String) :
    Describes (share name ((Rule.symbol used).fillings g around))
      (g.expand name levels opened around used) := by
  have fresh : used ∉ opened := fun member => acyclic used (reaches used member)
  induction levels generalizing opened used around with
  | zero =>
    -- The rules opened on the way are defined and differ, so the levels cannot run out.
    have known : used :: opened ⊆ g.rules.map Prod.fst := by
      intro user member
      rcases List.mem_cons.mp member with rfl | before
      · exact defined
      · obtain ⟨next, ⟨-, -, body, rule, -⟩, -⟩ :=
          Relation.TransGen.head'_iff.mp (reaches user before)
        exact List.mem_map.mpr ⟨(user, body), rule, rfl⟩
    have fewer := (List.nodup_cons.mpr ⟨fresh, distinct⟩).subperm known |>.length_le
    rw [List.length_cons, List.length_map] at fewer
    omega
  | succ levels ih =>
    obtain ⟨body, rule⟩ : ∃ body, (used, body) ∈ g.rules := by simpa using defined
    rw [expand, sound.definition.mpr rule]
    by_cases plain : body.isTerminal = true
    · rw [Rule.fillings_terminal sound hidden rule plain, share_one]
      simp [plain, Describes]
    · have composed : body.isTerminal = false := Bool.eq_false_iff.mpr plain
      rw [Rule.fillings_inlined sound hidden rule composed]
      simp only [composed, List.contains_iff_mem, fresh, Bool.false_or, if_false]
      apply Rule.describes_slot
      intro position inside
      unfold Rule.Expands
      split
      · exact sound.choices _ rule inside
      · rename_i next
        intro next_hidden around
        have step : g.HiddenUse used next := ⟨hidden, next_hidden, body, rule, inside⟩
        have onward : ∀ user ∈ used :: opened, Relation.TransGen g.HiddenUse user next := by
          intro user member
          rcases List.mem_cons.mp member with rfl | before
          · exact .single step
          · exact (reaches user before).tail step
        apply ih (used :: opened) (List.nodup_cons.mpr ⟨fresh, distinct⟩) next onward _ next_hidden
          (sound.defined (used, body) rule next inside) around
        · exact fun member => acyclic next (onward next member)
        · rw [List.length_cons]
          omega
      · trivial

theorem describes_inlined (sound : g.Sound) (acyclic : g.Acyclic) {owner : String} {body : Rule}
    (rule : (owner, body) ∈ g.rules) (name : SlotName) (around : Option String) :
    Describes (share name (body.fillings g around))
      (body.slot (g.expand name g.rules.length []) name around) := by
  apply Rule.describes_slot
  intro position inside
  unfold Rule.Expands
  split
  · exact sound.choices _ rule inside
  · rename_i used
    intro hidden around
    exact describes_expand sound acyclic name _ [] List.nodup_nil used (by simp) (by simp) hidden
      (sound.defined _ rule used inside) around
  · trivial

theorem describes_body (sound : g.Sound) (acyclic : g.Acyclic) {owner : String} {body : Rule}
    (rule : (owner, body) ∈ g.rules) (name : SlotName) :
    Describes (share name (body.fillings g none)) (g.slot? body name) :=
  describes_inlined sound acyclic rule name none

theorem mem_fieldNames {name : String} : name ∈ g.fieldNames ↔
    ∃ entry ∈ g.rules, ∃ position ∈ entry.2.positions, position.fieldName? = some name := by
  rw [fieldNames, mem_foldl_insertSorted fun _ _ => eq_of_not_lt]
  simp only [List.not_mem_nil, false_or, List.mem_flatMap, List.mem_filterMap]

theorem bodies_labeled : ∀ entry ∈ g.rules, entry.2.Labeled g := by
  intro entry member position inside label found
  exact mem_fieldNames.mpr ⟨entry, member, position, inside, found⟩

theorem slot?_unknown (sound : g.Sound) (acyclic : g.Acyclic) {owner : String} {body : Rule}
    (rule : (owner, body) ∈ g.rules) {label : String} (unknown : label ∉ g.fieldNames) :
    g.slot? body (.field label) = none := by
  have described := describes_body sound acyclic rule (.field label)
  cases found : g.slot? body (.field label) with
  | none => rfl
  | some slot =>
    rw [found] at described
    obtain ⟨_, ⟨word, fills, rfl⟩, filled⟩ := described.filled
    obtain ⟨type, member⟩ := List.exists_mem_of_ne_nil _ filled
    obtain ⟨child, inside, same⟩ := List.mem_filterMap.mp member
    obtain ⟨here, -⟩ := Option.ite_none_right_eq_some.mp same
    have placed : (SlotName.field label, child.2) ∈ word := here ▸ inside
    rcases fills.field_known bodies_labeled (bodies_labeled _ rule) placed with nothing | known
    · cases nothing
    · exact absurd known unknown

theorem lookup_filterMap {α : Type} (value : String → Option α) (names : List String)
    (name : String) :
    (names.filterMap fun n => (value n).map fun v => (n, v)).lookup name =
      if name ∈ names then value name else none := by
  induction names with
  | nil => rfl
  | cons first names ih =>
    by_cases same : name = first
    · subst same
      cases found : value name with
      | none => simp [found, ih]
      | some v => simp [found]
    · cases found : value first with
      | none => simp [found, ih, same]
      | some v => simp [found, ih, same, List.lookup_cons, beq_false_of_ne same]

end Grammar

/-- The slot of a field, or of the children that are in no field. -/
def NodeType.slot? (t : NodeType) : SlotName → Option Slot
  | .children => t.children?
  | .field label => t.field? label

section

variable {g : Grammar} (sound : g.Sound) {t : NodeType} (entry : t ∈ g.nodeTypes)
  (product : t.isSum = false) {body : Rule} (rule : (t.kind, body) ∈ g.rules)

include sound entry product rule

theorem shape_product : t.shape = .product (.ofList (g.fieldNames.filterMap fun label =>
    (g.slot? body (.field label)).map fun slot => (label, slot))) (g.slot? body .children).toList := by
  obtain ⟨⟨kind, other⟩, shown, rfl⟩ := List.mem_map.mp entry
  obtain rfl : other = body := by
    have first := sound.definition.mpr (List.mem_filter.mp shown).1
    exact Option.some.inj (first.symm.trans (sound.definition.mpr rule))
  simp only [NodeType.isSum, Grammar.shape] at product ⊢
  cases subtypes : g.subtypes? other with
  | none => rfl
  | some subtypes =>
    rw [subtypes] at product
    cases product

theorem slot?_children : t.slot? .children = g.slot? body .children := by
  simp only [NodeType.slot?, NodeType.children?, shape_product sound entry product rule]
  cases g.slot? body .children <;> rfl

theorem slot?_field (label : String) : t.slot? (.field label) =
    if label ∈ g.fieldNames then g.slot? body (.field label) else none := by
  have found := OrderedMap.find?_ofList (g.fieldNames.filterMap fun label =>
    (g.slot? body (.field label)).map fun slot => (label, slot)) label
  rw [← List.filterMap_reverse, Grammar.lookup_filterMap] at found
  simp only [List.mem_reverse] at found
  simp only [NodeType.slot?, NodeType.field?, NodeType.fields, shape_product sound entry product rule]
  exact found

end

theorem slot?_product {g : Grammar} (sound : g.Sound) (acyclic : g.Acyclic) {t : NodeType}
    (entry : t ∈ g.nodeTypes) (product : t.isSum = false) {body : Rule}
    (rule : (t.kind, body) ∈ g.rules) (name : SlotName) : t.slot? name = g.slot? body name := by
  cases name with
  | children => exact slot?_children sound entry product rule
  | field label =>
    rw [slot?_field sound entry product rule]
    split
    · rfl
    · exact (Grammar.slot?_unknown sound acyclic rule ‹_›).symm

/-- The node type of a product is exact. A slot is there if some derivation of the body fills it. Its
types are those that fill it in some derivation. It is required if every derivation fills it, and
multiple if some derivation fills it more than once. -/
theorem product_exact (g : Grammar) (valid : g.validate = .ok ()) (acyclic : g.Acyclic)
    {t : NodeType} (entry : t ∈ g.nodeTypes) (product : t.isSum = false) {body : Rule}
    (rule : (t.kind, body) ∈ g.rules) (name : SlotName) :
    ((t.slot? name).isSome = true ↔ ∃ word, body.Fills g none word ∧ inSlot name word ≠ []) ∧
      ∀ slot ∈ t.slot? name,
        (∀ type, type ∈ slot.types ↔ ∃ word, body.Fills g none word ∧ type ∈ inSlot name word) ∧
          (slot.required = true ↔ ∀ word, body.Fills g none word → 1 ≤ (inSlot name word).length) ∧
          (slot.multiple = true ↔
            ∃ word, body.Fills g none word ∧ 2 ≤ (inSlot name word).length) := by
  have sound := Grammar.sound_of_validate valid
  have described := Grammar.describes_body sound acyclic rule name
  rw [slot?_product sound acyclic entry product rule name]
  cases found : g.slot? body name with
  | none =>
    rw [found] at described
    have empty : share name (body.fillings g none) = 1 := described
    refine ⟨⟨nofun, ?_⟩, nofun⟩
    rintro ⟨word, fills, filled⟩
    have given : inSlot name word ∈ share name (body.fillings g none) := ⟨word, fills, rfl⟩
    rw [empty] at given
    exact absurd given filled
  | some slot =>
    rw [found] at described
    have exact : slot.Exact (share name (body.fillings g none)) := described
    refine ⟨⟨fun _ => ?_, fun _ => rfl⟩, ?_⟩
    · obtain ⟨_, ⟨word, fills, rfl⟩, filled⟩ := exact.filled
      exact ⟨word, fills, filled⟩
    · rintro _ ⟨⟩
      refine ⟨fun type => (exact.types type).trans ?_, exact.required.trans ?_,
        exact.multiple.trans ?_⟩
      · simp only [mem_share, Rule.mem_fillings, exists_exists_and_eq_and]
      · simp only [mem_share, Rule.mem_fillings, Nat.one_le_iff_ne_zero, ne_eq,
          List.length_eq_zero_iff, forall_exists_index, and_imp, forall_apply_eq_imp_iff₂]
      · simp only [mem_share, Rule.mem_fillings, exists_exists_and_eq_and]

/-- A call with arguments, in hidden rules inside each other. -/
def callBody : Rule :=
  .seq [.field "callee" (.symbol "name"), .optional (.symbol "_arguments")]

def callGrammar : Grammar where
  name := "calls"
  rules := [
    ("call", callBody),
    ("_arguments", .seq [.string "(", .repeat0 (.symbol "_argument"), .string ")"]),
    ("_argument", .field "argument" (.symbol "name")),
    ("name", .pattern "[a-z]+" none)]
  extras := []

theorem callGrammar_hiddenUse {user used : String} (use : callGrammar.HiddenUse user used) :
    user = "_arguments" ∧ used = "_argument" := by
  obtain ⟨outer, inner, body, rule, inside⟩ := use
  simp only [callGrammar, List.mem_cons, Prod.mk.injEq, List.not_mem_nil, or_false] at rule
  obtain ⟨rfl, rfl⟩ | ⟨rfl, rfl⟩ | ⟨rfl, rfl⟩ | ⟨rfl, rfl⟩ := rule
  · exact absurd outer (by decide)
  · simpa [Rule.positions, Rule.positionsAll] using inside
  · obtain rfl : used = "name" := by simpa [Rule.positions] using inside
    exact absurd inner (by decide)
  · exact absurd outer (by decide)

theorem callGrammar_acyclic : callGrammar.Acyclic := by
  intro name cycle
  obtain ⟨next, first, -⟩ := Relation.TransGen.head'_iff.mp cycle
  obtain ⟨previous, -, last⟩ := Relation.TransGen.tail'_iff.mp cycle
  have starts := (callGrammar_hiddenUse first).1
  have ends := (callGrammar_hiddenUse last).2
  exact absurd (starts.symm.trans ends) (by decide)

theorem callArguments_exact :
    (∃ word, callBody.Fills callGrammar none word ∧
        2 ≤ (inSlot (.field "argument") word).length) ∧
      ¬ ∀ word, callBody.Fills callGrammar none word →
        1 ≤ (inSlot (.field "argument") word).length := by
  have exact := product_exact callGrammar rfl callGrammar_acyclic
    (t := ⟨"call", true, callGrammar.shape callBody⟩) List.mem_cons_self (by decide +kernel)
    (show ("call", callBody) ∈ callGrammar.rules from List.mem_cons_self) (.field "argument")
  have slot : (⟨"call", true, callGrammar.shape callBody⟩ : NodeType).slot? (.field "argument") =
      some ⟨true, false, [⟨"name", true⟩]⟩ := by decide +kernel
  obtain ⟨-, required, multiple⟩ := exact.2 _ slot
  exact ⟨multiple.mp rfl, fun always => Bool.noConfusion (required.mpr always)⟩

end CraftDsl
