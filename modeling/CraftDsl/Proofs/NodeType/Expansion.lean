import CraftDsl.NodeType.Table
import Mathlib.Algebra.Order.BigOperators.Group.List
import Mathlib.Data.Finset.Card
import Mathlib.Logic.Relation
import Mathlib.Tactic.Ring

/-!
What the expansion of a sum comes to. It keeps no list of what it has been through, so it goes on for
ever if it can go around in a circle without coming back to the sum, and only then; otherwise it finds
every kind that the sum stands for, once. Main statement: `concreteKinds_exact`.
-/
namespace CraftDsl

open Relation (ReflTransGen TransGen)

/-- The named record of a kind; the last one if there are several. -/
def lastRecord (types : List NodeType) (kind : String) : Option NodeType :=
  (types.filter NodeType.named).reverse.find? fun t => t.kind = kind

namespace Expansion

section

variable (record : String → Option NodeType) (root : String)

def SumKind (kind : String) : Prop := ∃ t, record kind = some t ∧ t.isSum = true

def Leads (kind next : String) : Prop :=
  ∃ t, record kind = some t ∧ ∃ type ∈ t.subtypes, type.kind = next

def LeadsPast (kind next : String) : Prop := Leads record kind next ∧ next ≠ root

/-- From the kind one comes to a circle, and around it, without coming to the root. -/
def Endless (kind : String) : Prop :=
  ∃ turn, ReflTransGen (LeadsPast record root) kind turn ∧ TransGen (LeadsPast record root) turn turn

end

section

variable {record : String → Option NodeType} {root kind : String}

theorem Leads.sumKind {next : String} (leads : Leads record kind next) : SumKind record kind := by
  obtain ⟨t, found, type, member, -⟩ := leads
  refine ⟨t, found, ?_⟩
  unfold NodeType.subtypes at member
  unfold NodeType.isSum
  split at member
  · rfl
  · cases member

theorem reached_past (reached : ReflTransGen (Leads record) root kind) :
    ReflTransGen (LeadsPast record root) root kind := by
  induction reached with
  | refl => exact .refl
  | @tail kind next _ leads ih =>
    by_cases back : next = root
    · rw [back]
    · exact ih.tail ⟨leads, back⟩

theorem reached_of_past (reached : ReflTransGen (LeadsPast record root) root kind) :
    ReflTransGen (Leads record) root kind := by
  induction reached with
  | refl => exact .refl
  | tail _ leads ih => exact ih.tail leads.1

theorem Endless.onward (endless : Endless record root kind) :
    ∃ next, LeadsPast record root kind next ∧ Endless record root next := by
  obtain ⟨turn, reached, around⟩ := endless
  rcases reached.cases_head with rfl | ⟨next, leads, onward⟩
  · obtain ⟨next, leads, back⟩ := TransGen.head'_iff.mp around
    exact ⟨next, leads, kind, back, around⟩
  · exact ⟨next, leads, turn, onward, around⟩

end

section

variable {entries : OrderedMap NodeType} {root : String} {e next : Expansion}

theorem mem_push {subtypes : List TypeRef} {waiting : List String} {kind : String} :
    kind ∈ push root subtypes waiting ↔
      kind ∈ waiting ∨ kind ≠ root ∧ ∃ type ∈ subtypes, type.kind = kind := by
  induction subtypes with
  | nil => simp [push]
  | cons type subtypes ih =>
    have pushed : push root (type :: subtypes) waiting =
        if type.kind = root || (push root subtypes waiting).contains type.kind
        then push root subtypes waiting else type.kind :: push root subtypes waiting := rfl
    rw [pushed]
    split
    · rename_i skipped
      rw [Bool.or_eq_true, decide_eq_true_iff, List.contains_iff_mem] at skipped
      grind
    · rename_i new
      rw [Bool.or_eq_true, decide_eq_true_iff, List.contains_iff_mem] at new
      grind

/-- What a step does: a sum gives way to its subtypes, and any other kind is found. -/
theorem step_cases (step : e.step entries root = some next) :
    ∃ kind rest, e.waiting = kind :: rest ∧
      ((∃ sum, entries.find? kind = some sum ∧ sum.isSum = true ∧
          next = ⟨push root sum.subtypes rest, e.found⟩) ∨
        (¬ SumKind entries.find? kind ∧ (kind = root ∨ kind ∈ e.found) ∧ next = ⟨rest, e.found⟩) ∨
        (¬ SumKind entries.find? kind ∧ kind ≠ root ∧ kind ∉ e.found ∧
          next = ⟨rest, e.found ++ [kind]⟩)) := by
  unfold Expansion.step at step
  split at step
  · cases step
  · rename_i kind rest waiting
    refine ⟨kind, rest, waiting, ?_⟩
    split at step
    · rename_i sum found
      obtain ⟨found, is_sum⟩ := Option.filter_eq_some_iff.mp found
      exact .inl ⟨sum, found, is_sum, (Option.some.inj step).symm⟩
    · rename_i none
      have no_sum : ¬ SumKind entries.find? kind := by
        rintro ⟨t, found, is_sum⟩
        rw [found, Option.filter_some, if_pos is_sum] at none
        cases none
      split at step
      · rename_i known
        rw [Bool.or_eq_true, decide_eq_true_iff, List.contains_iff_mem] at known
        exact .inr (.inl ⟨no_sum, known, (Option.some.inj step).symm⟩)
      · rename_i new
        rw [Bool.or_eq_true, decide_eq_true_iff, List.contains_iff_mem, not_or] at new
        exact .inr (.inr ⟨no_sum, new.1, new.2, (Option.some.inj step).symm⟩)

theorem step_none : e.step entries root = none ↔ e.waiting = [] := by
  unfold Expansion.step
  split
  · simp_all
  · split <;> [skip; split] <;> simp_all

theorem run_add (steps more : Nat) (e : Expansion) :
    run entries root (steps + more) e = run entries root more (run entries root steps e) := by
  induction steps generalizing e with
  | zero => rw [Nat.zero_add, run]
  | succ steps ih =>
    rw [Nat.succ_add, run, run]
    split
    · rename_i ended
      cases more with
      | zero => rfl
      | succ more => rw [run, ended]
    · exact ih _

theorem run_ended (steps : Nat) (found : List String) :
    run entries root steps ⟨[], found⟩ = ⟨[], found⟩ := by
  cases steps <;> rfl

theorem run_keeps {holds : Expansion → Prop}
    (kept : ∀ e next, e.step entries root = some next → holds e → holds next) (steps : Nat)
    (start : holds e) : holds (run entries root steps e) := by
  induction steps generalizing e with
  | zero => exact start
  | succ steps ih =>
    rw [run]
    split
    · exact start
    · rename_i next step
      exact ih (kept e next step start)

end

section

variable (entries : OrderedMap NodeType) (root : String)

/-- What is known of an expansion under way. All that waits and all that is found was reached from the
root, and what was not found yet can be reached from what waits. -/
structure Underway (e : Expansion) : Prop where
  waiting : ∀ kind ∈ e.waiting, ReflTransGen (LeadsPast entries.find? root) root kind
  found : ∀ kind ∈ e.found,
    ¬ SumKind entries.find? kind ∧ ReflTransGen (LeadsPast entries.find? root) root kind
  once : e.found.Nodup
  missing : ∀ kind, ¬ SumKind entries.find? kind →
    ReflTransGen (LeadsPast entries.find? root) root kind → kind ∈ e.found ∨
      ∃ first ∈ e.waiting, ReflTransGen (LeadsPast entries.find? root) first kind

theorem underway_start : Underway entries root (start root) where
  waiting := List.forall_mem_singleton.mpr .refl
  found := List.forall_mem_nil _
  once := List.nodup_nil
  missing := fun _ _ reached => .inr ⟨root, List.mem_singleton_self root, reached⟩

end

section

variable {entries : OrderedMap NodeType} {root : String} {e next : Expansion}

theorem underway_step (sum : SumKind entries.find? root) (step : e.step entries root = some next)
    (underway : Underway entries root e) : Underway entries root next := by
  obtain ⟨kind, rest, waiting, does⟩ := step_cases step
  obtain ⟨here, later⟩ := List.forall_mem_cons.mp (waiting ▸ underway.waiting)
  have missing := underway.missing
  rw [waiting] at missing
  rcases does with ⟨t, record, is_sum, rfl⟩ | ⟨no_sum, known, rfl⟩ | ⟨no_sum, -, new, rfl⟩
  · refine ⟨fun next member => ?_, underway.found, underway.once, fun wanted concrete reached => ?_⟩
    · rcases mem_push.mp member with before | ⟨past, leads⟩
      · exact later next before
      · exact here.tail ⟨⟨t, record, leads⟩, past⟩
    -- What was to be reached from the sum is reached from one of its subtypes.
    · refine (missing wanted concrete reached).imp_right ?_
      rintro ⟨first, member, path⟩
      rcases List.mem_cons.mp member with rfl | member
      · rcases path.cases_head with rfl | ⟨next, leads, path⟩
        · exact absurd ⟨t, record, is_sum⟩ concrete
        · obtain ⟨⟨other, same, subtype⟩, past⟩ := leads
          obtain rfl := Option.some.inj (record.symm.trans same)
          exact ⟨next, mem_push.mpr (.inr ⟨past, subtype⟩), path⟩
      · exact ⟨first, mem_push.mpr (.inl member), path⟩
  · have known : kind ∈ e.found := known.resolve_left fun same => no_sum (same ▸ sum)
    refine ⟨later, underway.found, underway.once, fun wanted concrete reached => ?_⟩
    rcases missing wanted concrete reached with found | ⟨first, member, path⟩
    · exact .inl found
    · rcases List.mem_cons.mp member with rfl | member
      -- Only sums lead on, so what is reached from this kind is the kind itself.
      · rcases path.cases_head with rfl | ⟨next, leads, -⟩
        · exact .inl known
        · exact absurd leads.1.sumKind no_sum
      · exact .inr ⟨first, member, path⟩
  · refine ⟨later, fun found member => ?_, ?_, fun wanted concrete reached => ?_⟩
    · rcases List.mem_append.mp member with before | last
      · exact underway.found found before
      · obtain rfl := List.mem_singleton.mp last
        exact ⟨no_sum, here⟩
    · refine List.nodup_append.mpr ⟨underway.once, List.nodup_singleton kind, ?_⟩
      rintro found before last member rfl
      exact new (List.mem_singleton.mp member ▸ before)
    · rcases missing wanted concrete reached with found | ⟨first, member, path⟩
      · exact .inl (List.mem_append_left _ found)
      · rcases List.mem_cons.mp member with rfl | member
        · rcases path.cases_head with rfl | ⟨next, leads, -⟩
          · exact .inl (List.mem_append_right _ (List.mem_singleton_self _))
          · exact absurd leads.1.sumKind no_sum
        · exact .inr ⟨first, member, path⟩

theorem Underway.ended {found : List String} (underway : Underway entries root ⟨[], found⟩)
    (kind : String) :
    kind ∈ found ↔ ¬ SumKind entries.find? kind ∧ ReflTransGen (Leads entries.find?) root kind := by
  constructor
  · intro member
    obtain ⟨concrete, reached⟩ := underway.found kind member
    exact ⟨concrete, reached_of_past reached⟩
  · rintro ⟨concrete, reached⟩
    refine (underway.missing kind concrete (reached_past reached)).resolve_right ?_
    rintro ⟨first, member, -⟩
    cases member

theorem endless_step (step : e.step entries root = some next)
    (endless : ∃ kind ∈ e.waiting, Endless entries.find? root kind) :
    ∃ kind ∈ next.waiting, Endless entries.find? root kind := by
  obtain ⟨kind, rest, waiting, does⟩ := step_cases step
  obtain ⟨wanted, member, endless⟩ := endless
  rw [waiting] at member
  rcases List.mem_cons.mp member with rfl | later
  · obtain ⟨onward, ⟨leads, past⟩, endless⟩ := endless.onward
    rcases does with ⟨t, record, -, rfl⟩ | ⟨no_sum, -, -⟩ | ⟨no_sum, -, -, -⟩
    · obtain ⟨other, same, subtype⟩ := leads
      obtain rfl := Option.some.inj (record.symm.trans same)
      exact ⟨onward, mem_push.mpr (.inr ⟨past, subtype⟩), endless⟩
    · exact absurd leads.sumKind no_sum
    · exact absurd leads.sumKind no_sum
  · rcases does with ⟨t, -, -, rfl⟩ | ⟨-, -, rfl⟩ | ⟨-, -, -, rfl⟩
    · exact ⟨wanted, mem_push.mpr (.inl later), endless⟩
    · exact ⟨wanted, later, endless⟩
    · exact ⟨wanted, later, endless⟩

end

section

variable (entries : OrderedMap NodeType) (root : String)

def sums : List NodeType := entries.values.filter NodeType.isSum

def sumKeys : List String := (entries.entries.filter fun (_, t) => t.isSum).map Prod.fst

def base : Nat := (sums entries).foldr (fun sum count => sum.subtypes.length + count) 2

open Classical in
noncomputable def below (kind : String) : Finset String :=
  (sumKeys entries).toFinset.filter fun sum => ReflTransGen (LeadsPast entries.find? root) kind sum

noncomputable def weight (kind : String) : Nat := base entries ^ (below entries root kind).card

end

section

variable {entries : OrderedMap NodeType} {root kind next : String}

theorem mem_entries {t : NodeType} (found : entries.find? kind = some t) :
    (kind, t) ∈ entries.entries := by
  rw [OrderedMap.find?, List.lookup_eq_some_iff] at found
  obtain ⟨before, after, split, -⟩ := found
  rw [split]
  exact List.mem_append_right _ List.mem_cons_self

theorem mem_sumKeys (sum : SumKind entries.find? kind) : kind ∈ sumKeys entries := by
  obtain ⟨t, found, is_sum⟩ := sum
  exact List.mem_map_of_mem (List.mem_filter.mpr ⟨mem_entries found, is_sum⟩)

theorem sumKeys_length : (sumKeys entries).length = (sums entries).length := by
  rw [sumKeys, sums, OrderedMap.values, List.filter_map, List.length_map, List.length_map]
  rfl

theorem base_eq : base entries = ((sums entries).map fun sum => sum.subtypes.length).sum + 2 := by
  unfold base
  induction sums entries with
  | nil => rfl
  | cons sum sums ih => rw [List.foldr_cons, ih, List.map_cons, List.sum_cons, Nat.add_assoc]

theorem two_le_base : 2 ≤ base entries := base_eq ▸ Nat.le_add_left 2 _

theorem subtypes_base {t : NodeType} (found : entries.find? kind = some t) (is_sum : t.isSum = true) :
    t.subtypes.length + 2 ≤ base entries := by
  have member : t ∈ sums entries :=
    List.mem_filter.mpr ⟨List.mem_map_of_mem (mem_entries found), is_sum⟩
  rw [base_eq, Nat.add_le_add_iff_right]
  exact List.le_sum_of_mem (List.mem_map_of_mem member)

theorem mem_below {sum : String} : sum ∈ below entries root kind ↔
    sum ∈ sumKeys entries ∧ ReflTransGen (LeadsPast entries.find? root) kind sum := by
  classical rw [below, Finset.mem_filter, List.mem_toFinset]

theorem card_below : (below entries root kind).card ≤ (sums entries).length := by
  rw [← sumKeys_length]
  refine Nat.le_trans (Finset.card_le_card fun sum member => ?_) (List.toFinset_card_le _)
  exact List.mem_toFinset.mpr (mem_below.mp member).1

/-- One step down there are fewer sums below, unless the kind leads into a circle. -/
theorem below_lt (finite : ¬ Endless entries.find? root kind)
    (leads : LeadsPast entries.find? root kind next) :
    (below entries root next).card < (below entries root kind).card := by
  refine Finset.card_lt_card (Finset.ssubset_iff_subset_ne.mpr ⟨fun sum member => ?_, fun same => ?_⟩)
  · obtain ⟨is_sum, reached⟩ := mem_below.mp member
    exact mem_below.mpr ⟨is_sum, reached.head leads⟩
  · have back : kind ∈ below entries root next :=
      same ▸ mem_below.mpr ⟨mem_sumKeys leads.1.sumKind, .refl⟩
    exact finite ⟨next, .single leads, TransGen.tail' (mem_below.mp back).2 leads⟩

theorem weight_push {subtypes : List TypeRef} {waiting : List String} {most : Nat}
    (each : ∀ type ∈ subtypes, type.kind ≠ root → weight entries root type.kind ≤ most) :
    ((push root subtypes waiting).map (weight entries root)).sum ≤
      subtypes.length * most + (waiting.map (weight entries root)).sum := by
  induction subtypes with
  | nil => simp [push]
  | cons type subtypes ih =>
    obtain ⟨here, later⟩ := List.forall_mem_cons.mp each
    have rest := ih later
    have pushed : push root (type :: subtypes) waiting =
        if type.kind = root || (push root subtypes waiting).contains type.kind
        then push root subtypes waiting else type.kind :: push root subtypes waiting := rfl
    rw [pushed, List.length_cons, Nat.add_one_mul]
    split
    · omega
    · rename_i new
      rw [Bool.or_eq_true, decide_eq_true_iff, not_or] at new
      have here := here new.1
      rw [List.map_cons, List.sum_cons]
      omega

/-- A sum weighs more than all its subtypes, unless it leads into a circle. -/
theorem weight_subtypes {t : NodeType} (finite : ¬ Endless entries.find? root kind)
    (record : entries.find? kind = some t) (is_sum : t.isSum = true) :
    ∃ most, (∀ type ∈ t.subtypes, type.kind ≠ root → weight entries root type.kind ≤ most) ∧
      t.subtypes.length * most < weight entries root kind := by
  have itself : kind ∈ below entries root kind :=
    mem_below.mpr ⟨mem_sumKeys ⟨t, record, is_sum⟩, .refl⟩
  obtain ⟨fewer, count⟩ := Nat.exists_eq_add_one.mpr (Finset.card_pos.mpr ⟨kind, itself⟩)
  have many := subtypes_base record is_sum
  have some_weight : 0 < base entries ^ fewer := Nat.pow_pos (Nat.lt_of_lt_of_le Nat.two_pos two_le_base)
  refine ⟨base entries ^ fewer, fun type member past => ?_, ?_⟩
  · have less := below_lt finite ⟨⟨t, record, type, member, rfl⟩, past⟩
    exact Nat.pow_le_pow_right (Nat.le_trans (by decide) two_le_base) (by omega)
  · calc t.subtypes.length * base entries ^ fewer
        < base entries * base entries ^ fewer := Nat.mul_lt_mul_of_pos_right (by omega) some_weight
      _ = weight entries root kind := by rw [weight, count, Nat.pow_succ, Nat.mul_comm]

theorem weight_step {e next : Expansion} (step : e.step entries root = some next)
    (finite : ∀ kind ∈ e.waiting, ¬ Endless entries.find? root kind) :
    (next.waiting.map (weight entries root)).sum < (e.waiting.map (weight entries root)).sum := by
  obtain ⟨kind, rest, waiting, does⟩ := step_cases step
  have finite := (List.forall_mem_cons.mp (waiting ▸ finite)).1
  have some_weight : 0 < weight entries root kind :=
    Nat.pow_pos (Nat.lt_of_lt_of_le Nat.two_pos two_le_base)
  rw [waiting, List.map_cons, List.sum_cons]
  rcases does with ⟨t, record, is_sum, rfl⟩ | ⟨-, -, rfl⟩ | ⟨-, -, -, rfl⟩
  · obtain ⟨most, each, less⟩ := weight_subtypes finite record is_sum
    exact Nat.lt_of_le_of_lt (weight_push each) (Nat.add_lt_add_right less _)
  · exact Nat.lt_add_of_pos_left some_weight
  · exact Nat.lt_add_of_pos_left some_weight

theorem finite_step {e next : Expansion} (step : e.step entries root = some next)
    (finite : ∀ kind ∈ e.waiting, ¬ Endless entries.find? root kind) :
    ∀ kind ∈ next.waiting, ¬ Endless entries.find? root kind := by
  obtain ⟨kind, rest, waiting, does⟩ := step_cases step
  obtain ⟨here, later⟩ := List.forall_mem_cons.mp (waiting ▸ finite)
  rcases does with ⟨t, record, -, rfl⟩ | ⟨-, -, rfl⟩ | ⟨-, -, -, rfl⟩
  · intro next member
    rcases mem_push.mp member with before | ⟨past, leads⟩
    · exact later next before
    · rintro ⟨turn, reached, around⟩
      exact here ⟨turn, reached.head ⟨⟨t, record, leads⟩, past⟩, around⟩
  · exact later
  · exact later

theorem run_finite {steps : Nat} {e : Expansion}
    (finite : ∀ kind ∈ e.waiting, ¬ Endless entries.find? root kind)
    (enough : (e.waiting.map (weight entries root)).sum ≤ steps) :
    (run entries root steps e).waiting = [] := by
  induction steps generalizing e with
  | zero =>
    cases step : e.step entries root with
    | none => exact step_none.mp step
    | some next =>
      have less := weight_step step finite
      omega
  | succ steps ih =>
    rw [run]
    split
    · rename_i ended
      exact step_none.mp ended
    · rename_i next step
      have less := weight_step step finite
      exact ih (finite_step step finite) (by omega)

theorem run_limit (finite : ¬ Endless entries.find? root root) :
    (run entries root (limit entries) (start root)).waiting = [] := by
  refine run_finite (List.forall_mem_singleton.mpr finite) ?_
  have count : (below entries root root).card ≤ (sums entries).length + 1 :=
    Nat.le_succ_of_le card_below
  have bound : limit entries = base entries ^ ((sums entries).length + 1) := rfl
  rw [bound]
  show weight entries root root + 0 ≤ _
  exact Nat.pow_le_pow_right (Nat.le_trans (by decide) two_le_base) count

end

end Expansion

end CraftDsl
