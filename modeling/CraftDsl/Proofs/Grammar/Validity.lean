import CraftDsl.Grammar.Validity
import CraftDsl.Proofs.Grammar.Rules
import Mathlib.Order.Defs.LinearOrder
import Mathlib.Data.List.Induction
import Mathlib.Data.List.Lex

/-!
What validity asks of a grammar, and which of several errors is the one reported. A position of a
grammar has an address: the place of its rule body or extra, and the way down from there. Addresses in
lexicographic order list the bodies as they are defined and then the extras, each in pre-order. Main
statement: `validate_exact`.
-/
namespace CraftDsl

/-- What a search has to find: what is seen at the least address where something is seen. -/
def FirstSeen {α : Type} (sees : List Nat → Option α) : Option α → Prop
  | none => ∀ address, sees address = none
  | some x => ∃ address, sees address = some x ∧ ∀ earlier < address, sees earlier = none

section

variable {α β : Type}

theorem findSome?_flatMap {γ : Type} (items : List β) (parts : β → List γ) (found : γ → Option α) :
    (items.flatMap parts).findSome? found =
      items.findSome? fun item => (parts item).findSome? found := by
  induction items with
  | nil => rfl
  | cons item items ih =>
    rw [List.flatMap_cons, List.findSome?_append, ih, List.findSome?_cons]
    cases (parts item).findSome? found <;> rfl

theorem FirstSeen.unique {sees : List Nat → Option α} {a b : Option α} (first : FirstSeen sees a)
    (second : FirstSeen sees b) : a = b := by
  cases a with
  | none =>
    cases b with
    | none => rfl
    | some y =>
      obtain ⟨address, seen, -⟩ := second
      simp [first address] at seen
  | some x =>
    obtain ⟨address, seen, before⟩ := first
    cases b with
    | none => simp [second address] at seen
    | some y =>
      obtain ⟨other, seen', before'⟩ := second
      rcases lt_trichotomy address other with less | rfl | less
      · simp [before' address less] at seen
      · exact seen.symm.trans seen'
      · simp [before other less] at seen'

/-- What is seen in a list, item by item: the address begins with the place of the item. -/
def seesAmong (sees : β → List Nat → Option α) (items : List β) : List Nat → Option α
  | [] => none
  | place :: address => items[place]?.bind fun item => sees item address

theorem firstSeen_among (sees : β → List Nat → Option α) (search : β → Option α) {items : List β}
    (each : ∀ item ∈ items, FirstSeen (sees item) (search item)) :
    FirstSeen (seesAmong sees items) (items.findSome? search) := by
  induction items with
  | nil =>
    intro address
    cases address <;> simp [seesAmong]
  | cons item items ih =>
    have here := each item List.mem_cons_self
    have later := ih fun other member => each other (List.mem_cons_of_mem _ member)
    rw [List.findSome?_cons]
    cases found : search item with
    | some x =>
      rw [found] at here
      obtain ⟨address, seen, before⟩ := here
      refine ⟨0 :: address, by simpa [seesAmong] using seen, ?_⟩
      intro earlier less
      cases earlier with
      | nil => rfl
      | cons place earlier =>
        -- An earlier address is in the first item too.
        obtain ⟨rfl, shorter⟩ : place = 0 ∧ earlier < address := by
          simpa [List.cons_lt_cons_iff] using less
        simpa [seesAmong] using before earlier shorter
    | none =>
      rw [found] at here
      cases result : items.findSome? search with
      | none =>
        rw [result] at later
        intro address
        match address with
        | [] => rfl
        | 0 :: address => simpa [seesAmong] using here address
        | (place + 1) :: address => simpa [seesAmong] using later (place :: address)
      | some x =>
        rw [result] at later
        obtain ⟨address, seen, before⟩ := later
        cases address with
        | nil => cases seen
        | cons place address =>
          refine ⟨(place + 1) :: address, by simpa [seesAmong] using seen, ?_⟩
          intro earlier less
          match earlier with
          | [] => rfl
          | 0 :: earlier => simpa [seesAmong] using here earlier
          | (other + 1) :: earlier =>
            have less : other :: earlier < place :: address := by
              simpa [List.cons_lt_cons_iff] using less
            simpa [seesAmong] using before (other :: earlier) less

end

namespace Rule

def at? (rule : Rule) : List Nat → Option Rule
  | [] => some rule
  | place :: address => rule.inner[place]?.bind fun next => next.at? address

theorem positions_eq (rule : Rule) : rule.positions = rule :: positionsAll rule.inner := by
  cases rule <;> simp [positions, positionsAll, inner]

theorem positionsAll_eq (rules : List Rule) : positionsAll rules = rules.flatMap positions := by
  induction rules with
  | nil => rfl
  | cons rule rules ih => rw [positionsAll, ih, List.flatMap_cons]

theorem sizeOf_inner {rule next : Rule} (member : next ∈ rule.inner) : sizeOf next < sizeOf rule := by
  cases rule with
  | seq members | choice members =>
    have below : sizeOf next < sizeOf members := List.sizeOf_lt_of_mem member
    simp only [seq.sizeOf_spec, choice.sizeOf_spec]
    omega
  | repeat0 | repeat1 | field | prec =>
    obtain rfl := List.mem_singleton.mp member
    simp only [repeat0.sizeOf_spec, repeat1.sizeOf_spec, field.sizeOf_spec, prec.sizeOf_spec]
    omega
  | blank | string | pattern | symbol => cases member

theorem firstSeen_positions {α : Type} (found : Rule → Option α) (rule : Rule) :
    FirstSeen (fun address => (rule.at? address).bind found) (rule.positions.findSome? found) := by
  have inside := firstSeen_among (fun next address => (next.at? address).bind found)
    (fun next => next.positions.findSome? found)
    fun next (member : next ∈ rule.inner) => firstSeen_positions found next
  have below (place : Nat) (address : List Nat) : (rule.at? (place :: address)).bind found =
      seesAmong (fun next address => (next.at? address).bind found) rule.inner (place :: address) := by
    simp [at?, seesAmong, Option.bind_assoc]
  rw [← findSome?_flatMap, ← positionsAll_eq] at inside
  rw [positions_eq, List.findSome?_cons]
  cases here : found rule with
  | some x =>
    refine ⟨[], here, fun earlier less => absurd less (List.not_lt_nil earlier)⟩
  | none =>
    cases later : (positionsAll rule.inner).findSome? found with
    | none =>
      rw [later] at inside
      intro address
      cases address with
      | nil => exact here
      | cons place address => exact (below place address).trans (inside (place :: address))
    | some x =>
      rw [later] at inside
      obtain ⟨address, seen, before⟩ := inside
      cases address with
      | nil => cases seen
      | cons place address =>
        refine ⟨place :: address, (below place address).trans seen, ?_⟩
        intro earlier less
        cases earlier with
        | nil => exact here
        | cons other earlier => exact (below other earlier).trans (before _ less)
termination_by sizeOf rule
decreasing_by exact sizeOf_inner member

end Rule

/-- A name that stands behind an equal one is found first if none before it does. -/
theorem firstRepeated_append {seen before : List String} (distinct : before.Nodup)
    (fresh : ∀ name ∈ before, name ∉ seen) (names : List String) :
    Grammar.firstRepeated seen (before ++ names) =
      Grammar.firstRepeated (before.reverse ++ seen) names := by
  induction before generalizing seen with
  | nil => rfl
  | cons name before ih =>
    obtain ⟨new, distinct⟩ := List.nodup_cons.mp distinct
    obtain ⟨first, fresh⟩ := List.forall_mem_cons.mp fresh
    rw [List.cons_append, Grammar.firstRepeated, if_neg (by simpa using first), ih distinct]
    · simp
    · intro other member
      rw [List.mem_cons, not_or]
      exact ⟨fun same => new (same ▸ member), fresh other member⟩

theorem nodup_or_repeated (names : List String) :
    names.Nodup ∨ ∃ before name after, names = before ++ name :: after ∧ before.Nodup ∧
      name ∈ before := by
  induction names using List.reverseRecOn with
  | nil => exact .inl List.nodup_nil
  | append_singleton names last ih =>
    rcases ih with distinct | ⟨before, name, after, rfl, distinct, again⟩
    · by_cases again : last ∈ names
      · exact .inr ⟨names, last, [], rfl, distinct, again⟩
      · have apart : ∀ name ∈ names, ¬ name = last := fun name member same => again (same ▸ member)
        exact .inl (by simpa [List.nodup_append] using ⟨distinct, apart⟩)
    · exact .inr ⟨before, name, after ++ [last], by simp, distinct, again⟩

namespace Grammar

/-- The position at an address, with the name of its owner: the place of a rule body or, behind all of
them, of an extra, and the way down from there. -/
def position? (g : Grammar) : List Nat → Option (String × Rule)
  | [] => none
  | place :: address =>
    (g.rules ++ g.extras.map fun rule => ("extras", rule))[place]?.bind fun (owner, rule) =>
      (rule.at? address).map fun position => (owner, position)

inductive Flaw (g : Grammar) (owner : String) : Rule → GrammarError → Prop
  | undefinedSymbol {name : String} (undefined : name ∉ g.rules.map Prod.fst) :
    Flaw g owner (.symbol name) (.undefinedSymbol owner name)
  | emptySeq : Flaw g owner (.seq []) (.emptySeq owner)
  | emptyChoice : Flaw g owner (.choice []) (.emptyChoice owner)

/-- A grammar has rules with distinct names, all symbols name a rule, and no sequence and no choice is
empty. -/
structure Valid (g : Grammar) : Prop where
  inhabited : g.rules ≠ []
  distinct : (g.rules.map Prod.fst).Nodup
  defined : ∀ address owner name, g.position? address = some (owner, .symbol name) →
    name ∈ g.rules.map Prod.fst
  filled : ∀ address owner, g.position? address ≠ some (owner, .seq []) ∧
    g.position? address ≠ some (owner, .choice [])

inductive Refused (g : Grammar) : GrammarError → Prop
  | noRules (none : g.rules = []) : Refused g (.noRules g.name)
  | duplicateRule {before after : List String} {name : String}
    (names : g.rules.map Prod.fst = before ++ name :: after) (distinct : before.Nodup)
    (again : name ∈ before) : Refused g (.duplicateRule name)
  | flaw {address : List Nat} {owner : String} {position : Rule} {e : GrammarError}
    (inhabited : g.rules ≠ []) (distinct : (g.rules.map Prod.fst).Nodup)
    (here : g.position? address = some (owner, position)) (flawed : g.Flaw owner position e)
    (first : ∀ earlier < address, ∀ owner position, g.position? earlier = some (owner, position) →
      ∀ e, ¬ g.Flaw owner position e) : Refused g e

variable {g : Grammar}

theorem flaw?_iff {owner : String} {position : Rule} {e : GrammarError} :
    flaw? (g.rules.map Prod.fst) owner position = some e ↔ g.Flaw owner position e := by
  constructor
  · intro found
    unfold flaw? at found
    split at found
    · split at found
      · cases found
      · rename_i undefined
        obtain rfl := Option.some.inj found
        exact .undefinedSymbol (by simpa using undefined)
    · obtain rfl := Option.some.inj found
      exact .emptySeq
    · obtain rfl := Option.some.inj found
      exact .emptyChoice
    · cases found
  · rintro (undefined | _ | _)
    · simpa [flaw?] using undefined
    · rfl
    · rfl

theorem flaw?_none {owner : String} {position : Rule} :
    flaw? (g.rules.map Prod.fst) owner position = none ↔ ∀ e, ¬ g.Flaw owner position e := by
  rw [Option.eq_none_iff_forall_ne_some]
  exact forall_congr' fun e => not_congr flaw?_iff

theorem firstSeen_owned {α : Type} (found : String × Rule → Option α) :
    FirstSeen (fun address => (g.position? address).bind found) (g.ownedPositions.findSome? found) := by
  have inside := firstSeen_among
    (fun (entry : String × Rule) address =>
      (entry.2.at? address).bind fun position => found (entry.1, position))
    (fun entry => entry.2.positions.findSome? fun position => found (entry.1, position))
    fun entry (_ : entry ∈ g.rules ++ g.extras.map fun rule => ("extras", rule)) =>
      Rule.firstSeen_positions (fun position => found (entry.1, position)) entry.2
  rw [ownedPositions, findSome?_flatMap]
  simp only [List.findSome?_map, Function.comp_def]
  convert inside using 2 with address
  cases address with
  | nil => rfl
  | cons place address => simp [position?, seesAmong, Option.bind_assoc, Option.map_eq_bind]

theorem error?_distinct (inhabited : g.rules ≠ []) (distinct : (g.rules.map Prod.fst).Nodup) :
    FirstSeen (fun address => (g.position? address).bind fun (owner, position) =>
      flaw? (g.rules.map Prod.fst) owner position) g.error? := by
  have unrepeated : firstRepeated [] (g.rules.map Prod.fst) = none := by
    have all := firstRepeated_append distinct (fun _ _ => List.not_mem_nil) []
    rwa [List.append_nil] at all
  rw [error?, if_neg (by simpa using inhabited)]
  simp only [unrepeated]
  exact firstSeen_owned _

theorem error?_repeated {before after : List String} {name : String}
    (names : g.rules.map Prod.fst = before ++ name :: after) (distinct : before.Nodup)
    (again : name ∈ before) : g.error? = some (.duplicateRule name) := by
  have repeated : firstRepeated [] (g.rules.map Prod.fst) = some name := by
    rw [names, firstRepeated_append distinct (fun _ _ => List.not_mem_nil), firstRepeated,
      if_pos (by simpa using again)]
  have inhabited : g.rules ≠ [] := by
    rintro none
    simp [none] at names
  rw [error?, if_neg (by simpa using inhabited)]
  simp only [repeated]

theorem Valid.unflawed (valid : g.Valid) {address : List Nat} {owner : String} {position : Rule}
    (here : g.position? address = some (owner, position)) (e : GrammarError) :
    ¬ g.Flaw owner position e := by
  rintro (undefined | _ | _)
  · exact undefined (valid.defined address owner _ here)
  · exact (valid.filled address owner).1 here
  · exact (valid.filled address owner).2 here

theorem Valid.error? (valid : g.Valid) : g.error? = none := by
  refine (error?_distinct valid.inhabited valid.distinct).unique fun address => ?_
  rw [Option.bind_eq_none_iff]
  rintro ⟨owner, position⟩ here
  exact flaw?_none.mpr (valid.unflawed here)

theorem Refused.error? {e : GrammarError} (refused : g.Refused e) : g.error? = some e := by
  cases refused with
  | noRules none => simp [Grammar.error?, none]
  | duplicateRule names distinct again => exact error?_repeated names distinct again
  | @flaw address owner position e inhabited distinct here flawed first =>
    refine (error?_distinct inhabited distinct).unique ⟨address, ?_, fun earlier less => ?_⟩
    · simp only [here, Option.bind_some, flaw?_iff]
      exact flawed
    · rw [Option.bind_eq_none_iff]
      rintro ⟨owner, position⟩ there
      exact flaw?_none.mpr (first earlier less owner position there)

theorem valid_or_refused (g : Grammar) : g.Valid ∨ ∃ e, g.Refused e := by
  by_cases none : g.rules = []
  · exact .inr ⟨_, .noRules none⟩
  rcases nodup_or_repeated (g.rules.map Prod.fst) with
    distinct | ⟨before, name, after, names, distinct, again⟩
  · have first := error?_distinct none distinct
    cases found : g.error? with
    | none =>
      rw [found] at first
      have unflawed (address : List Nat) (owner : String) (position : Rule)
          (here : g.position? address = some (owner, position)) :
          ∀ e, ¬ g.Flaw owner position e :=
        flaw?_none.mp (Option.bind_eq_none_iff.mp (first address) _ here)
      refine .inl ⟨none, distinct, ?_, ?_⟩
      · intro address owner name here
        by_contra undefined
        exact unflawed address owner _ here _ (.undefinedSymbol undefined)
      · intro address owner
        exact ⟨fun here => unflawed address owner _ here _ .emptySeq,
          fun here => unflawed address owner _ here _ .emptyChoice⟩
    | some e =>
      rw [found] at first
      obtain ⟨address, seen, before⟩ := first
      obtain ⟨⟨owner, position⟩, here, flawed⟩ := Option.bind_eq_some_iff.mp seen
      refine .inr ⟨e, .flaw none distinct here (flaw?_iff.mp flawed) ?_⟩
      intro earlier less owner position there
      exact flaw?_none.mp (Option.bind_eq_none_iff.mp (before earlier less) _ there)
  · exact .inr ⟨_, .duplicateRule names distinct again⟩

theorem validate_ok : g.validate = .ok () ↔ g.error? = none := by
  unfold validate
  split <;> simp_all

theorem validate_error {e : GrammarError} : g.validate = .error e ↔ g.error? = some e := by
  unfold validate
  split <;> simp_all

/-- Validity accepts the valid grammars. Any other is refused for what comes first: that it has no
rules, the first name that is equal to an earlier one, or what is wrong with the first position that
something is wrong with. -/
theorem validate_exact (g : Grammar) :
    (g.validate = .ok () ↔ g.Valid) ∧ ∀ e, g.validate = .error e ↔ g.Refused e := by
  constructor
  · rw [validate_ok]
    refine ⟨fun clean => (valid_or_refused g).resolve_right ?_, Valid.error?⟩
    rintro ⟨e, refused⟩
    simp [refused.error?] at clean
  · intro e
    rw [validate_error]
    refine ⟨fun found => ?_, Refused.error?⟩
    rcases valid_or_refused g with valid | ⟨other, refused⟩
    · simp [valid.error?] at found
    · obtain rfl := Option.some.inj (refused.error?.symm.trans found)
      exact refused

/-- A symbol that names nothing comes before an empty choice further down and an empty extra. -/
example : Grammar.validate ⟨"calls", [("call", .seq [.field "callee" (.symbol "name"), .choice []])],
    [.seq []]⟩ = .error (.undefinedSymbol "call" "name") := rfl

end Grammar

end CraftDsl
