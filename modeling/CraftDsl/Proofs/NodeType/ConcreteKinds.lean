import CraftDsl.Proofs.NodeType.Expansion

/-!
The concrete kinds that a table has for a sum, and what may fill a slot by them. Main statement:
`concreteKinds_exact`.
-/
namespace CraftDsl

open Relation (ReflTransGen)

open Expansion

theorem lookup_records (types : List NodeType) (kind : String) :
    (types.map fun t => (t.kind, t)).lookup kind = types.find? fun t => t.kind = kind := by
  induction types with
  | nil => rfl
  | cons t types ih =>
    rw [List.map_cons, List.lookup_cons, List.find?_cons, ih]
    by_cases here : t.kind = kind
    · simp [here]
    · simp [here, beq_false_of_ne (Ne.symm here)]

theorem lookup_sums (list : String → List String) {entries : List (String × NodeType)}
    (distinct : (entries.map Prod.fst).Nodup) (kind : String) :
    (((entries.filter fun (_, t) => t.isSum).map fun (kind, _) => (kind, list kind)).lookup kind) =
      ((entries.lookup kind).filter NodeType.isSum).map fun _ => list kind := by
  induction entries with
  | nil => rfl
  | cons entry entries ih =>
    obtain ⟨name, t⟩ := entry
    rw [List.map_cons, List.nodup_cons] at distinct
    have rest := ih distinct.2
    by_cases here : kind = name
    · have absent : entries.lookup name = none := by
        rw [List.lookup_eq_none_iff]
        rintro ⟨other, u⟩ member
        refine bne_iff_ne.mpr ?_
        rintro (rfl : name = other)
        exact distinct.1 (List.mem_map.mpr ⟨(name, u), member, rfl⟩)
      rw [here, absent] at rest
      cases is_sum : t.isSum with
      | true => simp [here, is_sum]
      | false => simp [here, is_sum, rest]
    · cases is_sum : t.isSum with
      | true => simp [List.lookup_cons, is_sum, rest, beq_false_of_ne here]
      | false => simp [List.lookup_cons, is_sum, rest, beq_false_of_ne here]

namespace NodeTypeTable

variable (types : List NodeType)

theorem find?_entries : (ofTypes types).entries.find? = lastRecord types := by
  funext kind
  show (OrderedMap.ofList ((types.filter NodeType.named).map fun t => (t.kind, t))).find? kind = _
  rw [OrderedMap.find?_ofList, ← List.map_reverse, lookup_records]
  rfl

theorem concreteKinds_eq (kind : String) : (ofTypes types).concreteKinds kind =
    ((((ofTypes types).entries.find? kind).filter NodeType.isSum).map
      fun _ => expand (ofTypes types).entries kind).getD [] := by
  have distinct : ((((ofTypes types).entries.entries.filter fun (_, t) => t.isSum).map
      fun (kind, _) => (kind, expand (ofTypes types).entries kind)).map Prod.fst).Nodup := by
    rw [List.map_map]
    exact (List.filter_sublist.map Prod.fst).nodup (ofTypes types).entries.distinct
  have sums : (ofTypes types).concrete.find? kind =
      (((ofTypes types).entries.find? kind).filter NodeType.isSum).map
        fun _ => expand (ofTypes types).entries kind :=
    (congrArg (List.lookup kind) (OrderedMap.entries_ofList distinct)).trans
      (lookup_sums _ (ofTypes types).entries.distinct kind)
  rw [concreteKinds, sums]

variable {types} {kind : String}

theorem concreteKinds_sum (sum : SumKind (lastRecord types) kind) :
    (ofTypes types).concreteKinds kind = expand (ofTypes types).entries kind := by
  obtain ⟨t, found, is_sum⟩ := sum
  rw [concreteKinds_eq, find?_entries, found, Option.filter_some, if_pos is_sum]
  rfl

theorem concreteKinds_other (other : ¬ SumKind (lastRecord types) kind) :
    (ofTypes types).concreteKinds kind = [] := by
  rw [concreteKinds_eq, find?_entries]
  cases found : lastRecord types kind with
  | none => rfl
  | some t =>
    rw [Option.filter_some, if_neg fun is_sum => other ⟨t, found, is_sum⟩]
    rfl

end NodeTypeTable

/-- The expansion of the root comes to an end, with these kinds found. -/
def ExpandsTo (entries : OrderedMap NodeType) (root : String) (found : List String) : Prop :=
  ∃ steps, Expansion.run entries root steps (start root) = ⟨[], found⟩

section

variable {entries : OrderedMap NodeType} {root : String}

theorem expandsTo_unique {found other : List String} (one : ExpandsTo entries root found)
    (two : ExpandsTo entries root other) : found = other := by
  obtain ⟨steps, one⟩ := one
  obtain ⟨more, two⟩ := two
  have together : Expansion.run entries root (steps + more) (start root) = _ := run_add steps more _
  have together' : Expansion.run entries root (more + steps) (start root) = _ := run_add more steps _
  rw [one, run_ended] at together
  rw [two, run_ended, Nat.add_comm, together] at together'
  exact congrArg Expansion.found together'

theorem expandsTo_iff : (∃ found, ExpandsTo entries root found) ↔ ¬ Endless entries.find? root root := by
  constructor
  · rintro ⟨found, steps, ended⟩ endless
    have kept : ∃ kind ∈ (Expansion.run entries root steps (start root)).waiting,
        Endless entries.find? root kind :=
      run_keeps (fun e next => endless_step) steps ⟨root, List.mem_singleton_self root, endless⟩
    obtain ⟨kind, member, -⟩ := kept
    rw [ended] at member
    cases member
  · intro finite
    have ended := run_limit finite
    exact ⟨_, limit entries, by rw [← ended]⟩

theorem expandsTo_expand {found : List String} (expands : ExpandsTo entries root found) :
    NodeTypeTable.expand entries root = found := by
  have ended := run_limit (expandsTo_iff.mp ⟨found, expands⟩)
  exact expandsTo_unique ⟨limit entries, by rw [← ended]; rfl⟩ expands

theorem expandsTo_found (sum : SumKind entries.find? root) {found : List String}
    (expands : ExpandsTo entries root found) : found.Nodup ∧
      ∀ kind, kind ∈ found ↔
        ¬ SumKind entries.find? kind ∧ ReflTransGen (Leads entries.find?) root kind := by
  obtain ⟨steps, ended⟩ := expands
  have underway := run_keeps (fun e next => underway_step sum) steps (underway_start entries root)
  rw [ended] at underway
  exact ⟨underway.once, underway.ended⟩

end

/-- The expansion of a sum comes to an end exactly if no circle of other sums can be reached from it
without coming back to it. It then lists, each once, the kinds that are no sums and can be reached from
it. So a slot takes a node that is of one of its kinds, or that one of its sums leads to. -/
theorem concreteKinds_exact (types : List NodeType) :
    (∀ root, SumKind (lastRecord types) root →
      ((∃ found, ExpandsTo (NodeTypeTable.ofTypes types).entries root found) ↔
        ¬ Endless (lastRecord types) root root) ∧
      ∀ found, ExpandsTo (NodeTypeTable.ofTypes types).entries root found →
        (NodeTypeTable.ofTypes types).concreteKinds root = found ∧ found.Nodup ∧
        ∀ kind, kind ∈ found ↔
          ¬ SumKind (lastRecord types) kind ∧ ReflTransGen (Leads (lastRecord types)) root kind) ∧
    ∀ (slot : Slot) (kind : String),
      (∀ type ∈ slot.types, type.named = true → SumKind (lastRecord types) type.kind →
        ∃ found, ExpandsTo (NodeTypeTable.ofTypes types).entries type.kind found) →
      ((NodeTypeTable.ofTypes types).accepts slot kind true = true ↔
        ⟨kind, true⟩ ∈ slot.types ∨
        ∃ type ∈ slot.types, type.named = true ∧ SumKind (lastRecord types) type.kind ∧
          ¬ SumKind (lastRecord types) kind ∧
          ReflTransGen (Leads (lastRecord types)) type.kind kind) := by
  have exact_found (root : String) (sum : SumKind (lastRecord types) root) (found : List String)
      (expands : ExpandsTo (NodeTypeTable.ofTypes types).entries root found) :
      (NodeTypeTable.ofTypes types).concreteKinds root = found ∧ found.Nodup ∧
        ∀ kind, kind ∈ found ↔
          ¬ SumKind (lastRecord types) kind ∧ ReflTransGen (Leads (lastRecord types)) root kind := by
    have reached := expandsTo_found (by rwa [NodeTypeTable.find?_entries]) expands
    rw [NodeTypeTable.find?_entries] at reached
    exact ⟨(NodeTypeTable.concreteKinds_sum sum).trans (expandsTo_expand expands), reached⟩
  refine ⟨fun root sum => ⟨?_, exact_found root sum⟩, fun slot kind expand => ?_⟩
  · rw [← NodeTypeTable.find?_entries]
    exact expandsTo_iff
  · simp only [NodeTypeTable.accepts, List.any_eq_true, Bool.or_eq_true, Bool.and_eq_true,
      decide_eq_true_eq, List.contains_iff_mem, and_true]
    constructor
    · rintro ⟨type, member, ⟨rfl, is_named⟩ | ⟨is_named, listed⟩⟩
      · refine .inl ?_
        rwa [← is_named]
      · by_cases sum : SumKind (lastRecord types) type.kind
        · obtain ⟨found, expands⟩ := expand type member is_named sum
          obtain ⟨same, -, reached⟩ := exact_found type.kind sum found expands
          exact .inr ⟨type, member, is_named, sum, (reached kind).mp (same ▸ listed)⟩
        · rw [NodeTypeTable.concreteKinds_other sum] at listed
          cases listed
    · rintro (member | ⟨type, member, is_named, sum, concrete, path⟩)
      · exact ⟨_, member, .inl ⟨rfl, rfl⟩⟩
      · obtain ⟨found, expands⟩ := expand type member is_named sum
        obtain ⟨same, -, reached⟩ := exact_found type.kind sum found expands
        exact ⟨type, member, .inr ⟨is_named, same ▸ (reached kind).mpr ⟨concrete, path⟩⟩⟩

/-- Sums that share a subtype, lead back to one another or to themselves, and a record that comes twice. -/
def layers : List NodeType :=
  [⟨"item", true, .sum [⟨"component", true⟩]⟩,
    ⟨"section", true, .sum [⟨"gateway", true⟩, ⟨"component", true⟩, ⟨"item", true⟩]⟩,
    ⟨"item", true, .sum [⟨"component", true⟩, ⟨"item", true⟩, ⟨"section", true⟩, ⟨"number", false⟩]⟩,
    ⟨"component", true, .product .empty []⟩,
    ⟨"odd", true, .sum [⟨"even", true⟩, ⟨"number", true⟩]⟩,
    ⟨"even", true, .sum [⟨"odd", true⟩]⟩,
    ⟨"parity", true, .sum [⟨"odd", true⟩]⟩]

theorem layers_expanded :
    SumKind (lastRecord layers) "item" ∧ ¬ Endless (lastRecord layers) "item" "item" ∧
    (NodeTypeTable.ofTypes layers).concreteKinds "item" = ["component", "gateway", "number"] ∧
    ReflTransGen (Leads (lastRecord layers)) "item" "gateway" ∧
    (NodeTypeTable.ofTypes layers).accepts ⟨false, true, [⟨"item", true⟩]⟩ "number" true = true ∧
    SumKind (lastRecord layers) "parity" ∧ Endless (lastRecord layers) "parity" "parity" ∧
    ¬ ∃ found, ExpandsTo (NodeTypeTable.ofTypes layers).entries "parity" found := by
  have item : SumKind (lastRecord layers) "item" := ⟨layers[2], by decide, rfl⟩
  have parity : SumKind (lastRecord layers) "parity" := ⟨layers[6], by decide, rfl⟩
  have ends : ExpandsTo (NodeTypeTable.ofTypes layers).entries "item" ["component", "gateway", "number"] :=
    ⟨6, by decide⟩
  obtain ⟨finite, listed⟩ := (concreteKinds_exact layers).1 "item" item
  obtain ⟨concrete, -, reached⟩ := listed _ ends
  have accepted := (concreteKinds_exact layers).2 ⟨false, true, [⟨"item", true⟩]⟩ "number"
    (List.forall_mem_singleton.mpr fun _ _ => ⟨_, ends⟩)
  have odd : LeadsPast (lastRecord layers) "parity" "parity" "odd" :=
    ⟨⟨layers[6], by decide, ⟨"odd", true⟩, by decide, rfl⟩, by decide⟩
  have onward : LeadsPast (lastRecord layers) "parity" "odd" "even" :=
    ⟨⟨layers[4], by decide, ⟨"even", true⟩, by decide, rfl⟩, by decide⟩
  have back : LeadsPast (lastRecord layers) "parity" "even" "odd" :=
    ⟨⟨layers[5], by decide, ⟨"odd", true⟩, by decide, rfl⟩, by decide⟩
  have circle : Endless (lastRecord layers) "parity" "parity" :=
    ⟨"odd", .single odd, .tail (.single onward) back⟩
  refine ⟨item, finite.mp ⟨_, ends⟩, concrete, ((reached "gateway").mp (by decide)).2, ?_, parity, circle,
    fun expands => ((concreteKinds_exact layers).1 "parity" parity).1.mp expands circle⟩
  exact accepted.mpr (.inr ⟨_, List.mem_singleton_self _, rfl, item, (reached "number").mp (by decide)⟩)

end CraftDsl
