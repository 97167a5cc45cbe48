import CraftDsl.Grammar.Validity
import CraftDsl.NodeType.Generate
import Mathlib.Computability.Language
import Mathlib.Data.String.Basic
import Mathlib.Logic.Relation

/-!
What stands in a node. A rule body has derivations, each of which lists the children it puts into the
slots of a node; hidden rules stand for their bodies. The derivations of a body make up a language over
slots and types, put together from those of its parts.
-/
namespace CraftDsl

open Computability

/-- A child: the slot that it fills, and its type. -/
abbrev Child := SlotName × TypeRef

namespace Grammar

/-- What validity says of a grammar: no name is defined twice, and every position in a rule body
refers to rules that exist and offers something to choose from. -/
structure Sound (g : Grammar) : Prop where
  distinct : (g.rules.map Prod.fst).Nodup
  defined : ∀ entry ∈ g.rules, ∀ name, .symbol name ∈ entry.2.positions →
    name ∈ g.rules.map Prod.fst
  choices : ∀ entry ∈ g.rules, Rule.choice [] ∉ entry.2.positions

theorem firstRepeated_none {seen names : List String} (found : firstRepeated seen names = none) :
    names.Nodup ∧ ∀ name ∈ names, name ∉ seen := by
  induction names generalizing seen with
  | nil => simp
  | cons name names ih =>
    rw [firstRepeated] at found
    split at found
    · cases found
    · rename_i fresh
      obtain ⟨distinct, unseen⟩ := ih found
      have apart : ∀ other ∈ names, other ≠ name ∧ other ∉ seen := by
        intro other member
        simpa using unseen other member
      refine ⟨List.nodup_cons.mpr ⟨fun member => (apart name member).1 rfl, distinct⟩, ?_⟩
      intro other member
      rcases List.mem_cons.mp member with rfl | later
      · simpa using fresh
      · exact (apart other later).2

theorem sound_of_validate {g : Grammar} (valid : g.validate = .ok ()) : g.Sound := by
  have clean : g.error? = none := by
    unfold validate at valid
    split at valid
    · cases valid
    · assumption
  simp only [error?] at clean
  split at clean
  · cases clean
  split at clean
  · cases clean
  rename_i unrepeated
  have flawless : ∀ entry ∈ g.rules, ∀ position ∈ entry.2.positions,
      flaw? (g.rules.map Prod.fst) entry.1 position = none := by
    intro entry member position inside
    have owned : (entry.1, position) ∈ g.ownedPositions :=
      List.mem_flatMap.mpr ⟨entry, List.mem_append_left _ member, List.mem_map_of_mem inside⟩
    exact List.findSome?_eq_none_iff.mp clean _ owned
  refine ⟨(firstRepeated_none unrepeated).1, ?_, ?_⟩
  · intro entry member name inside
    have known := flawless entry member _ inside
    by_contra undefined
    simp [flaw?, undefined] at known
  · intro entry member inside
    nomatch flawless entry member _ inside

def HiddenUse (g : Grammar) (user used : String) : Prop :=
  Rule.isHiddenName user = true ∧ Rule.isHiddenName used = true ∧
    ∃ body, (user, body) ∈ g.rules ∧ .symbol used ∈ body.positions

/-- No hidden rule reaches itself through hidden rules. -/
def Acyclic (g : Grammar) : Prop := ∀ name, ¬ Relation.TransGen g.HiddenUse name name

theorem Sound.definition {g : Grammar} (sound : g.Sound) {name : String} {body : Rule} :
    g.definition? name = some body ↔ (name, body) ∈ g.rules := by
  have distinct : (g.rules.reverse.map Prod.fst).Nodup := by
    rw [List.map_reverse, List.nodup_reverse]
    exact sound.distinct
  rw [definition?, ← List.mem_reverse]
  generalize g.rules.reverse = rules at distinct
  induction rules with
  | nil => simp
  | cons entry rules ih =>
    obtain ⟨key, value⟩ := entry
    rw [List.map_cons, List.nodup_cons] at distinct
    have later := ih distinct.2
    by_cases same : name = key
    · subst same
      have other : (name, body) ∉ rules := fun member =>
        distinct.1 (List.mem_map.mpr ⟨(name, body), member, rfl⟩)
      simp [other, eq_comm]
    · simp [List.lookup_cons, beq_false_of_ne same, later, same]

end Grammar

namespace Rule

/-- The derivations of a rule body in a field, or in none: the children that are put into a node, in
order. A visible symbol is a child, and so is a string in a field, without a name. A hidden rule stands
for its body, unless that refers to no rule. The innermost field around a child names its slot. -/
inductive Fills (g : Grammar) : Option String → Rule → List Child → Prop
  | blank {around : Option String} : Fills g around blank []
  | pattern {around flags : Option String} {value : String} :
    Fills g around (pattern value flags) []
  | bare {value : String} : Fills g none (string value) []
  | string {label value : String} :
    Fills g (some label) (string value) [(.field label, ⟨value, false⟩)]
  | visible {around : Option String} {name : String} (shown : isHiddenName name = false) :
    Fills g around (symbol name) [(.ofField around, ⟨name, true⟩)]
  | terminal {around : Option String} {name : String} {body : Rule}
    (hidden : isHiddenName name = true) (rule : (name, body) ∈ g.rules)
    (plain : body.isTerminal = true) : Fills g around (symbol name) []
  | inlined {around : Option String} {name : String} {body : Rule} {word : List Child}
    (hidden : isHiddenName name = true) (rule : (name, body) ∈ g.rules)
    (composed : body.isTerminal = false) (inner : Fills g around body word) :
    Fills g around (symbol name) word
  | seqNil {around : Option String} : Fills g around (seq []) []
  | seqCons {around : Option String} {first : Rule} {rest : List Rule} {u v : List Child}
    (now : Fills g around first u) (later : Fills g around (seq rest) v) :
    Fills g around (seq (first :: rest)) (u ++ v)
  | choice {around : Option String} {members : List Rule} {member : Rule} {word : List Child}
    (among : member ∈ members) (inner : Fills g around member word) :
    Fills g around (choice members) word
  | repeatNil {around : Option String} {content : Rule} : Fills g around (repeat0 content) []
  | repeatCons {around : Option String} {content : Rule} {u v : List Child}
    (now : Fills g around content u) (later : Fills g around (repeat0 content) v) :
    Fills g around (repeat0 content) (u ++ v)
  | repeatOnce {around : Option String} {content : Rule} {u v : List Child}
    (now : Fills g around content u) (later : Fills g around (repeat0 content) v) :
    Fills g around (repeat1 content) (u ++ v)
  | field {around : Option String} {label : String} {content : Rule} {word : List Child}
    (inner : Fills g (some label) content word) : Fills g around (field label content) word
  | prec {around : Option String} {side : Associativity} {value : Int32} {content : Rule}
    {word : List Child} (inner : Fills g around content word) :
    Fills g around (prec side value content) word

def fillings (g : Grammar) (around : Option String) (rule : Rule) : Language Child :=
  {word : List Child | rule.Fills g around word}

section

variable {g : Grammar} {around : Option String}

theorem mem_fillings {rule : Rule} {word : List Child} :
    word ∈ rule.fillings g around ↔ rule.Fills g around word := Iff.rfl

theorem fillings_blank : blank.fillings g around = 1 := by
  ext word
  rw [mem_fillings, Language.mem_one]
  constructor
  · rintro ⟨⟩
    rfl
  · rintro rfl
    exact .blank

theorem fillings_pattern (value : String) (flags : Option String) :
    (pattern value flags).fillings g around = 1 := by
  ext word
  rw [mem_fillings, Language.mem_one]
  constructor
  · rintro ⟨⟩
    rfl
  · rintro rfl
    exact .pattern

theorem fillings_bare (value : String) : (string value).fillings g none = 1 := by
  ext word
  rw [mem_fillings, Language.mem_one]
  constructor
  · rintro ⟨⟩
    rfl
  · rintro rfl
    exact .bare

theorem fillings_string (label value : String) :
    (string value).fillings g (some label) = {[(SlotName.field label, ⟨value, false⟩)]} := by
  ext word
  rw [mem_fillings]
  constructor
  · rintro ⟨⟩
    rfl
  · rintro rfl
    exact .string

theorem fillings_visible {name : String} (shown : isHiddenName name = false) :
    (symbol name).fillings g around = {[(SlotName.ofField around, ⟨name, true⟩)]} := by
  ext word
  rw [mem_fillings]
  constructor
  · intro fills
    cases fills with
    | visible => rfl
    | terminal hidden | inlined hidden => rw [shown] at hidden; cases hidden
  · rintro rfl
    exact .visible shown

theorem fillings_terminal (sound : g.Sound) {name : String} {body : Rule}
    (hidden : isHiddenName name = true) (rule : (name, body) ∈ g.rules)
    (plain : body.isTerminal = true) : (symbol name).fillings g around = 1 := by
  ext word
  rw [mem_fillings, Language.mem_one]
  constructor
  · intro fills
    cases fills with
    | visible shown => rw [shown] at hidden; cases hidden
    | terminal => rfl
    | inlined _ found composed _ =>
      rw [← sound.definition] at rule found
      rw [Option.some.inj (rule.symm.trans found), composed] at plain
      cases plain
  · rintro rfl
    exact .terminal hidden rule plain

theorem fillings_inlined (sound : g.Sound) {name : String} {body : Rule}
    (hidden : isHiddenName name = true) (rule : (name, body) ∈ g.rules)
    (composed : body.isTerminal = false) :
    (symbol name).fillings g around = body.fillings g around := by
  ext word
  rw [mem_fillings, mem_fillings]
  constructor
  · intro fills
    cases fills with
    | visible shown => rw [shown] at hidden; cases hidden
    | terminal _ found plain =>
      rw [← sound.definition] at rule found
      rw [Option.some.inj (rule.symm.trans found), plain] at composed
      cases composed
    | inlined _ found _ inner =>
      rw [← sound.definition] at rule found
      rw [Option.some.inj (rule.symm.trans found)]
      exact inner
  · exact .inlined hidden rule composed

theorem fillings_seq_nil : (seq []).fillings g around = 1 := by
  ext word
  rw [mem_fillings, Language.mem_one]
  constructor
  · rintro ⟨⟩
    rfl
  · rintro rfl
    exact .seqNil

theorem fillings_seq_cons (first : Rule) (rest : List Rule) :
    (seq (first :: rest)).fillings g around =
      first.fillings g around * (seq rest).fillings g around := by
  ext word
  rw [mem_fillings, Language.mem_mul]
  constructor
  · intro fills
    cases fills with
    | seqCons now later => exact ⟨_, now, _, later, rfl⟩
  · rintro ⟨u, now, v, later, rfl⟩
    exact .seqCons now later

theorem fillings_choice_cons (first : Rule) (rest : List Rule) :
    (choice (first :: rest)).fillings g around =
      first.fillings g around + (choice rest).fillings g around := by
  ext word
  rw [mem_fillings, Language.mem_add, mem_fillings, mem_fillings]
  constructor
  · intro fills
    cases fills with
    | choice among inner =>
      rcases List.mem_cons.mp among with rfl | later
      · exact .inl inner
      · exact .inr (.choice later inner)
  · rintro (inner | later)
    · exact .choice List.mem_cons_self inner
    · cases later with
      | choice among inner => exact .choice (List.mem_cons_of_mem _ among) inner

theorem fillings_choice_nil : (choice []).fillings g around = 0 := by
  ext word
  rw [mem_fillings]
  constructor
  · intro fills
    cases fills with
    | choice among inner => cases among
  · intro nothing
    exact absurd nothing (Language.notMem_zero word)

theorem fillings_repeat0 (content : Rule) :
    (repeat0 content).fillings g around = (content.fillings g around)∗ := by
  ext word
  rw [mem_fillings, Language.mem_kstar]
  constructor
  · intro fills
    generalize same : repeat0 content = rule at fills
    induction fills with
    | repeatNil => exact ⟨[], rfl, by simp⟩
    | repeatCons now later _ later_ih =>
      cases same
      obtain ⟨words, rfl, all⟩ := later_ih rfl
      exact ⟨_ :: words, rfl, List.forall_mem_cons.mpr ⟨now, all⟩⟩
    | _ => cases same
  · rintro ⟨words, rfl, all⟩
    induction words with
    | nil => exact .repeatNil
    | cons u words ih =>
      obtain ⟨now, later⟩ := List.forall_mem_cons.mp all
      exact .repeatCons now (ih later)

theorem fillings_repeat1 (content : Rule) :
    (repeat1 content).fillings g around =
      content.fillings g around * (content.fillings g around)∗ := by
  rw [← fillings_repeat0]
  ext word
  rw [mem_fillings, Language.mem_mul]
  constructor
  · intro fills
    cases fills with
    | repeatOnce now later => exact ⟨_, now, _, later, rfl⟩
  · rintro ⟨u, now, v, later, rfl⟩
    exact .repeatOnce now later

theorem fillings_field (label : String) (content : Rule) :
    (field label content).fillings g around = content.fillings g (some label) := by
  ext word
  rw [mem_fillings, mem_fillings]
  constructor
  · rintro ⟨⟩
    assumption
  · exact .field

theorem fillings_prec (side : Associativity) (value : Int32) (content : Rule) :
    (prec side value content).fillings g around = content.fillings g around := by
  ext word
  rw [mem_fillings, mem_fillings]
  constructor
  · rintro ⟨⟩
    assumption
  · exact .prec

end

theorem mem_positionsAll {position : Rule} {rules : List Rule} :
    position ∈ positionsAll rules ↔ ∃ rule ∈ rules, position ∈ rule.positions := by
  induction rules with
  | nil => simp [positionsAll]
  | cons rule rules ih => simp [positionsAll, ih]

def Labeled (g : Grammar) (rule : Rule) : Prop :=
  ∀ position ∈ rule.positions, ∀ label ∈ position.fieldName?, label ∈ g.fieldNames

section

variable {g : Grammar}

theorem Labeled.inner {rule inner : Rule} (labeled : rule.Labeled g)
    (below : inner.positions ⊆ rule.positions) : inner.Labeled g :=
  fun position inside => labeled position (below inside)

theorem Labeled.seq_tail {first : Rule} {rest : List Rule}
    (labeled : (seq (first :: rest)).Labeled g) : (seq rest).Labeled g := by
  intro position inside
  rcases List.mem_cons.mp inside with rfl | later
  · nofun
  · exact labeled position (List.mem_cons_of_mem _ (List.mem_append_right _ later))

/-- A field that derivations fill is the one around the body or a field of the grammar. -/
theorem Fills.field_known (bodies : ∀ entry ∈ g.rules, entry.2.Labeled g) {around : Option String}
    {rule : Rule} {word : List Child} (fills : rule.Fills g around word)
    (labeled : rule.Labeled g) {label : String} {type : TypeRef}
    (member : (SlotName.field label, type) ∈ word) :
    around = some label ∨ label ∈ g.fieldNames := by
  induction fills with
  | blank | pattern | bare | terminal | seqNil | repeatNil => cases member
  | string => 
    obtain ⟨same, -⟩ := Prod.mk.inj (List.mem_singleton.mp member)
    exact .inl (congrArg some (SlotName.field.inj same).symm)
  | @visible around name shown =>
    obtain ⟨same, -⟩ := Prod.mk.inj (List.mem_singleton.mp member)
    cases around with
    | none => cases same
    | some other => exact .inl (congrArg some (SlotName.field.inj same).symm)
  | inlined _ rule _ _ ih => exact ih (bodies _ rule) member
  | seqCons _ _ now_ih later_ih =>
    rcases List.mem_append.mp member with here | there
    · exact now_ih (labeled.inner fun position inside =>
        List.mem_cons_of_mem _ (List.mem_append_left _ inside)) here
    · exact later_ih labeled.seq_tail there
  | choice among _ ih =>
    exact ih (labeled.inner fun position inside =>
      List.mem_cons_of_mem _ (mem_positionsAll.mpr ⟨_, among, inside⟩)) member
  | repeatCons _ _ now_ih later_ih =>
    rcases List.mem_append.mp member with here | there
    · exact now_ih (labeled.inner (List.subset_cons_self ..)) here
    · exact later_ih labeled there
  | repeatOnce _ _ now_ih later_ih =>
    have content := labeled.inner (List.subset_cons_self ..)
    rcases List.mem_append.mp member with here | there
    · exact now_ih content here
    · refine later_ih ?_ there
      intro position inside
      rcases List.mem_cons.mp inside with rfl | later
      · nofun
      · exact content position later
  | field _ ih =>
    rcases ih (labeled.inner (List.subset_cons_self ..)) member with same | known
    · obtain rfl := Option.some.inj same
      exact .inr (labeled _ List.mem_cons_self _ rfl)
    · exact .inr known
  | prec _ ih => exact ih (labeled.inner (List.subset_cons_self ..)) member

end

end Rule

end CraftDsl
