/-!
Maps that keep the order in which their keys came in. A key that comes again keeps its place and
takes the new value.
-/
namespace CraftDsl

def insertEntry {α : Type} (key : String) (value : α) : List (String × α) → List (String × α)
  | [] => [(key, value)]
  | (k, v) :: rest => if k = key then (key, value) :: rest else (k, v) :: insertEntry key value rest

theorem mem_keys_insertEntry {α : Type} (key : String) (value : α) (entries : List (String × α))
    (k : String) :
    k ∈ (insertEntry key value entries).map Prod.fst ↔ k = key ∨ k ∈ entries.map Prod.fst := by
  induction entries with
  | nil => simp [insertEntry]
  | cons entry rest ih =>
    by_cases same : entry.1 = key
    · simp [insertEntry, same]
    · simp only [insertEntry, same, if_false, List.map_cons, List.mem_cons, ih]
      grind

theorem nodup_insertEntry {α : Type} (key : String) (value : α) (entries : List (String × α))
    (distinct : (entries.map Prod.fst).Nodup) :
    ((insertEntry key value entries).map Prod.fst).Nodup := by
  induction entries with
  | nil => simp [insertEntry]
  | cons entry rest ih =>
    simp only [List.map_cons, List.nodup_cons] at distinct
    by_cases same : entry.1 = key
    · simp only [insertEntry, same, if_true, List.map_cons, List.nodup_cons]
      exact ⟨same ▸ distinct.1, distinct.2⟩
    · simp only [insertEntry, same, if_false, List.map_cons, List.nodup_cons]
      refine ⟨fun member => ?_, ih distinct.2⟩
      rcases (mem_keys_insertEntry key value rest entry.1).1 member with h | h
      · exact same h
      · exact distinct.1 h

theorem lookup_insertEntry {α : Type} (key : String) (value : α) (entries : List (String × α))
    (k : String) :
    (insertEntry key value entries).lookup k = if k = key then some value else entries.lookup k := by
  induction entries with
  | nil =>
    by_cases here : k = key
    · simp [insertEntry, here]
    · simp [insertEntry, List.lookup_cons, beq_false_of_ne here, here]
  | cons entry rest ih =>
    obtain ⟨name, given⟩ := entry
    by_cases same : name = key
    · by_cases here : k = key
      · simp [insertEntry, same, here]
      · simp [insertEntry, List.lookup_cons, same, beq_false_of_ne here, here]
    · simp only [insertEntry, same, if_false, List.lookup_cons, ih]
      by_cases here : k = key
      · simp [here, beq_false_of_ne (Ne.symm same)]
      · simp [here]

theorem insertEntry_fresh {α : Type} {key : String} {entries : List (String × α)}
    (fresh : key ∉ entries.map Prod.fst) (value : α) :
    insertEntry key value entries = entries ++ [(key, value)] := by
  induction entries with
  | nil => rfl
  | cons entry rest ih =>
    rw [List.map_cons, List.mem_cons, not_or] at fresh
    rw [insertEntry, if_neg (Ne.symm fresh.1), ih fresh.2, List.cons_append]

theorem keys_insertEntry {α : Type} {key : String} {entries : List (String × α)}
    (member : key ∈ entries.map Prod.fst) (value : α) :
    (insertEntry key value entries).map Prod.fst = entries.map Prod.fst := by
  induction entries with
  | nil => cases member
  | cons entry rest ih =>
    rw [insertEntry]
    split
    · rename_i same
      rw [List.map_cons, List.map_cons, same]
    · rename_i other
      have later : key ∈ rest.map Prod.fst :=
        (List.mem_cons.mp member).resolve_left (Ne.symm other)
      rw [List.map_cons, List.map_cons, ih later]

structure OrderedMap (α : Type) where
  entries : List (String × α)
  distinct : (entries.map Prod.fst).Nodup
  deriving DecidableEq

namespace OrderedMap

variable {α β : Type}

def empty : OrderedMap α := ⟨[], List.nodup_nil⟩

def insert (m : OrderedMap α) (key : String) (value : α) : OrderedMap α :=
  ⟨insertEntry key value m.entries, nodup_insertEntry key value m.entries m.distinct⟩

def ofList (entries : List (String × α)) : OrderedMap α :=
  entries.foldl (fun m (key, value) => m.insert key value) empty

def find? (m : OrderedMap α) (key : String) : Option α := m.entries.lookup key

def contains (m : OrderedMap α) (key : String) : Bool := (m.find? key).isSome

theorem find?_foldl (entries : List (String × α)) (m : OrderedMap α) (key : String) :
    (entries.foldl (fun m (key, value) => m.insert key value) m).find? key =
      (entries.reverse.lookup key).or (m.find? key) := by
  induction entries generalizing m with
  | nil => rfl
  | cons entry entries ih =>
    obtain ⟨name, value⟩ := entry
    have inserted : (m.insert name value).find? key =
        ([(name, value)].lookup key).or (m.find? key) := by
      rw [find?, insert, lookup_insertEntry]
      by_cases here : key = name
      · simp [here]
      · simp [List.lookup_cons, beq_false_of_ne here, here, find?]
    rw [List.foldl_cons, ih, inserted, List.reverse_cons, List.lookup_append, Option.or_assoc]

theorem find?_ofList (entries : List (String × α)) (key : String) :
    (ofList entries).find? key = entries.reverse.lookup key :=
  (find?_foldl entries empty key).trans (Option.or_none ..)

def keys (m : OrderedMap α) : List String := m.entries.map Prod.fst

theorem keys_foldl (entries : List (String × α)) (m : OrderedMap α) :
    (entries.foldl (fun m (key, value) => m.insert key value) m).keys =
      m.keys ++ ((entries.map Prod.fst).filter (· ∉ m.keys)).eraseDups := by
  induction entries generalizing m with
  | nil => exact (List.append_nil _).symm
  | cons entry entries ih =>
    obtain ⟨key, value⟩ := entry
    rw [List.foldl_cons, ih, List.map_cons]
    by_cases known : key ∈ m.keys
    -- A known key keeps its place, and a new one comes last.
    · have same : (m.insert key value).keys = m.keys := keys_insertEntry known value
      rw [same, List.filter_cons_of_neg (by simpa using known)]
    · have more : (m.insert key value).keys = m.keys ++ [key] :=
        (congrArg (List.map Prod.fst) (insertEntry_fresh known value)).trans List.map_append
      -- What is left of the later keys has to be without the new one as well.
      have both : (entries.map Prod.fst).filter (· ∉ m.keys ++ [key]) =
          ((entries.map Prod.fst).filter (· ∉ m.keys)).filter (fun k => !k == key) := by
        rw [List.filter_filter]
        refine List.filter_congr fun k _ => ?_
        simp only [List.mem_append, List.mem_singleton, not_or, Bool.decide_and, decide_not,
          Bool.and_comm]
        rfl
      rw [more, both, List.filter_cons_of_pos (by simpa using known), List.eraseDups_cons,
        List.append_assoc, List.singleton_append]

theorem keys_ofList (entries : List (String × α)) :
    (ofList entries).keys = (entries.map Prod.fst).eraseDups := by
  refine (keys_foldl entries empty).trans ?_
  have all : (entries.map Prod.fst).filter (· ∉ (empty : OrderedMap α).keys) = entries.map Prod.fst :=
    List.filter_eq_self.mpr fun key _ => decide_eq_true List.not_mem_nil
  rw [all]
  rfl

theorem entries_foldl {entries : List (String × α)} {m : OrderedMap α}
    (distinct : ((m.entries ++ entries).map Prod.fst).Nodup) :
    (entries.foldl (fun m (key, value) => m.insert key value) m).entries = m.entries ++ entries := by
  induction entries generalizing m with
  | nil => exact (List.append_nil _).symm
  | cons entry entries ih =>
    obtain ⟨key, value⟩ := entry
    have fresh : key ∉ m.entries.map Prod.fst := by
      intro known
      rw [List.map_append, List.nodup_append] at distinct
      exact distinct.2.2 key known key List.mem_cons_self rfl
    have inserted : (m.insert key value).entries = m.entries ++ [(key, value)] :=
      insertEntry_fresh fresh value
    rw [List.foldl_cons, ih (by rwa [inserted, List.append_assoc]), inserted, List.append_assoc]
    rfl

/-- Entries with distinct keys stay as they are. -/
theorem entries_ofList {entries : List (String × α)} (distinct : (entries.map Prod.fst).Nodup) :
    (ofList entries).entries = entries := entries_foldl distinct

theorem ofList_entries (m : OrderedMap α) : ofList m.entries = m := by
  have same : (ofList m.entries).entries = m.entries := entries_ofList m.distinct
  cases m
  cases h : ofList _
  simp_all

def values (m : OrderedMap α) : List α := m.entries.map Prod.snd

def size (m : OrderedMap α) : Nat := m.entries.length

end OrderedMap

end CraftDsl
