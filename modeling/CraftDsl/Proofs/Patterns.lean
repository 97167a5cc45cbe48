import CraftDsl.KindSet
import CraftDsl.Proofs.Exits

/-!
Regular patterns of kinds, and how a word is read along a pattern one kind at a time: each state is
what may still come, as a list of patterns, and sets of states are numbers with one bit for each.
-/
namespace CraftDsl

inductive Pattern
  | one (letters : KindSet)
  | nothing
  | seq (first second : Pattern)
  | alt (first second : Pattern)
  | many (body : Pattern)
  deriving DecidableEq

namespace Pattern

inductive Matches : Pattern → List Kind → Prop
  | one {letters : KindSet} {kind : Kind} (member : letters.has kind = true) :
    Matches (one letters) [kind]
  | nothing : Matches nothing []
  | seq {first second : Pattern} {u v : List Kind} (left : Matches first u)
    (right : Matches second v) : Matches (seq first second) (u ++ v)
  | left {first second : Pattern} {word : List Kind} (inner : Matches first word) :
    Matches (alt first second) word
  | right {first second : Pattern} {word : List Kind} (inner : Matches second word) :
    Matches (alt first second) word
  | done {body : Pattern} : Matches (many body) []
  | more {body : Pattern} {u v : List Kind} (now : Matches body u) (later : Matches (many body) v) :
    Matches (many body) (u ++ v)

def MatchesAll : List Pattern → List Kind → Prop
  | [], word => word = []
  | p :: rest, word => ∃ u v, word = u ++ v ∧ p.Matches u ∧ MatchesAll rest v

def nullable : Pattern → Bool
  | one _ => false
  | nothing => true
  | seq first second => first.nullable && second.nullable
  | alt first second => first.nullable || second.nullable
  | many _ => true

theorem matches_nil {p : Pattern} (nullable : p.nullable = true) : p.Matches [] := by
  induction p with
  | one letters => cases nullable
  | nothing => exact .nothing
  | seq first second first_ih second_ih =>
    rcases Bool.and_eq_true_iff.mp nullable with ⟨first_null, second_null⟩
    exact .seq (first_ih first_null) (second_ih second_null)
  | alt first second first_ih second_ih =>
    rcases Bool.or_eq_true_iff.mp nullable with first_null | second_null
    · exact .left (first_ih first_null)
    · exact .right (second_ih second_null)
  | many body ih => exact .done

theorem matchesAll_nil {rest : List Pattern} (nullable : rest.all Pattern.nullable = true) :
    MatchesAll rest [] := by
  induction rest with
  | nil => rfl
  | cons p rest ih =>
    rcases Bool.and_eq_true_iff.mp nullable with ⟨first, later⟩
    exact ⟨[], [], rfl, matches_nil first, ih later⟩

/-- What the pattern may read next, before `rest`, and what comes then. -/
def moves (rest : List Pattern) : Pattern → List (KindSet × List Pattern)
  | one letters => [(letters, rest)]
  | nothing => []
  | seq first second =>
    first.moves (second :: rest) ++ if first.nullable then second.moves rest else []
  | alt first second => first.moves rest ++ second.moves rest
  | many body => body.moves (many body :: rest)

def movesAll : List Pattern → List (KindSet × List Pattern)
  | [] => []
  | p :: rest => p.moves rest ++ if p.nullable then movesAll rest else []

theorem moves_sound {p : Pattern} {rest next : List Pattern} {letters : KindSet}
    (move : (letters, next) ∈ p.moves rest) {kind : Kind} (member : letters.has kind = true)
    {word : List Kind} (later : MatchesAll next word) : MatchesAll (p :: rest) (kind :: word) := by
  induction p generalizing rest with
  | one inside =>
    rcases Prod.mk.inj (List.mem_singleton.mp move) with ⟨rfl, rfl⟩
    exact ⟨[kind], word, rfl, .one member, later⟩
  | nothing => cases move
  | seq first second first_ih second_ih =>
    rcases List.mem_append.mp move with move | move
    · rcases first_ih move with ⟨u, v, split, now, x, y, split_rest, after, others⟩
      refine ⟨u ++ x, y, ?_, .seq now after, others⟩
      rw [split, split_rest, List.append_assoc]
    · split at move
      · rename_i nullable
        rcases second_ih move with ⟨u, v, split, now, others⟩
        exact ⟨u, v, split, .seq (matches_nil nullable) now, others⟩
      · cases move
  | alt first second first_ih second_ih =>
    rcases List.mem_append.mp move with move | move
    · rcases first_ih move with ⟨u, v, split, now, others⟩
      exact ⟨u, v, split, .left now, others⟩
    · rcases second_ih move with ⟨u, v, split, now, others⟩
      exact ⟨u, v, split, .right now, others⟩
  | many body ih =>
    rcases ih move with ⟨u, v, split, now, x, y, split_rest, after, others⟩
    refine ⟨u ++ x, y, ?_, .more now after, others⟩
    rw [split, split_rest, List.append_assoc]

theorem movesAll_sound {rest next : List Pattern} {letters : KindSet}
    (move : (letters, next) ∈ movesAll rest) {kind : Kind} (member : letters.has kind = true)
    {word : List Kind} (later : MatchesAll next word) : MatchesAll rest (kind :: word) := by
  induction rest with
  | nil => cases move
  | cons p rest ih =>
    rcases List.mem_append.mp move with move | move
    · exact moves_sound move member later
    · split at move
      · rename_i nullable
        exact ⟨[], kind :: word, rfl, matches_nil nullable, ih move⟩
      · cases move

def reach : Nat → List (List Pattern) → List (List Pattern) → List (List Pattern)
  | fuel + 1, found, rest :: todo =>
    if found.contains rest then reach fuel found todo
    else reach fuel (rest :: found) (todo ++ (movesAll rest).map Prod.snd)
  | _, found, _ => found.reverse

def states (p : Pattern) : List (List Pattern) := reach 60 [] [[p]]

def place (states : List (List Pattern)) (rest : List Pattern) : Nat := 1 <<< states.idxOf rest

/-- What can be done in a state: whether the word may end there, and which kinds lead where. -/
structure Row where
  accepting : Bool
  moves : List (KindSet × Nat)

def row (states : List (List Pattern)) (rest : List Pattern) : Row where
  accepting := rest.all Pattern.nullable
  moves := (movesAll rest).map fun (letters, next) =>
    workOut letters.bits fun bits => workOut (place states next) fun target => (⟨bits⟩, target)

def table (states : List (List Pattern)) : List Row := states.map (row states)

def Row.step (kind : Kind) (r : Row) : Nat :=
  r.moves.foldr (fun (letters, target) set => if letters.has kind then target ||| set else set) 0

def advance (kind : Kind) : Nat → List Row → Nat
  | _, [] => 0
  | set, r :: rows =>
    if set = 0 then 0
    else if set % 2 = 1 then r.step kind ||| advance kind (set / 2) rows
    else advance kind (set / 2) rows

def accepting : Nat → List Row → Bool
  | _, [] => false
  | set, r :: rows => set % 2 = 1 && r.accepting || accepting (set / 2) rows

def Reads (states : List (List Pattern)) (set : Nat) (word : List Kind) : Prop :=
  ∃ index rest, states[index]? = some rest ∧ set.testBit index = true ∧ MatchesAll rest word

theorem reads_place {states : List (List Pattern)} {rest : List Pattern} {word : List Kind}
    (reads : Reads states (place states rest) word) : MatchesAll rest word := by
  rcases reads with ⟨index, found, at_index, set, matched⟩
  have same : states.idxOf rest = index := by
    simpa [place, Nat.one_shiftLeft, Nat.testBit_two_pow] using set
  have inside : states.idxOf rest < states.length := by
    rw [same]
    exact (List.getElem?_eq_some_iff.mp at_index).1
  have located : states[states.idxOf rest]? = some rest :=
    (List.getElem?_eq_getElem inside).trans (congrArg some (List.getElem_idxOf inside))
  rw [same, at_index] at located
  exact Option.some.inj located ▸ matched

theorem step_bit {kind : Kind} {r : Row} {index : Nat} (set : (r.step kind).testBit index = true) :
    ∃ move ∈ r.moves, move.1.has kind = true ∧ move.2.testBit index = true := by
  rcases r with ⟨ended, moves⟩
  induction moves with
  | nil => simp [Row.step] at set
  | cons move moves ih =>
    have split : Row.step kind ⟨ended, move :: moves⟩ =
        if move.1.has kind then move.2 ||| Row.step kind ⟨ended, moves⟩
        else Row.step kind ⟨ended, moves⟩ := rfl
    rw [split] at set
    by_cases reads : move.1.has kind = true
    · rw [if_pos reads, Nat.testBit_or, Bool.or_eq_true_iff] at set
      rcases set with here | later
      · exact ⟨move, List.mem_cons_self, reads, here⟩
      · rcases ih later with ⟨other, member, rest⟩
        exact ⟨other, List.mem_cons_of_mem _ member, rest⟩
    · rw [if_neg reads] at set
      rcases ih set with ⟨other, member, rest⟩
      exact ⟨other, List.mem_cons_of_mem _ member, rest⟩

theorem advance_bit {kind : Kind} {set index : Nat} {rows : List Row}
    (reached : (advance kind set rows).testBit index = true) :
    ∃ source r, rows[source]? = some r ∧ set.testBit source = true ∧
      (r.step kind).testBit index = true := by
  induction rows generalizing set with
  | nil => simp [advance] at reached
  | cons r rows ih =>
    have later : (advance kind (set / 2) rows).testBit index = true →
        ∃ source r', (r :: rows)[source]? = some r' ∧ set.testBit source = true ∧
          (r'.step kind).testBit index = true := by
      intro further
      rcases ih further with ⟨source, other, found, bit, step⟩
      exact ⟨source + 1, other, found, by rwa [Nat.testBit_succ], step⟩
    rw [advance] at reached
    split_ifs at reached with empty odd
    · simp at reached
    · rw [Nat.testBit_or, Bool.or_eq_true_iff] at reached
      rcases reached with here | further
      · exact ⟨0, r, rfl, by simpa [Nat.testBit_zero] using odd, here⟩
      · exact later further
    · exact later reached

theorem accepting_bit {set : Nat} {rows : List Row} (ended : accepting set rows = true) :
    ∃ source r, rows[source]? = some r ∧ set.testBit source = true ∧ r.accepting = true := by
  induction rows generalizing set with
  | nil => cases ended
  | cons r rows ih =>
    rcases Bool.or_eq_true_iff.mp ended with here | later
    · rcases Bool.and_eq_true_iff.mp here with ⟨odd, accepting⟩
      exact ⟨0, r, rfl, by simpa [Nat.testBit_zero] using odd, accepting⟩
    · rcases ih later with ⟨source, other, found, bit, accepting⟩
      exact ⟨source + 1, other, found, by rwa [Nat.testBit_succ], accepting⟩

theorem row_of_table {states : List (List Pattern)} {source : Nat} {r : Row}
    (found : (table states)[source]? = some r) :
    ∃ rest, states[source]? = some rest ∧ r = row states rest := by
  rw [table, List.getElem?_map, Option.map_eq_some_iff] at found
  rcases found with ⟨rest, at_source, same⟩
  exact ⟨rest, at_source, same.symm⟩

/-- A word can be read after a kind from wherever the kind leads. -/
theorem advance_sound {states : List (List Pattern)} {kind : Kind} {set : Nat} {word : List Kind}
    (reads : Reads states (advance kind set (table states)) word) :
    Reads states set (kind :: word) := by
  rcases reads with ⟨index, next, at_index, reached, matched⟩
  rcases advance_bit reached with ⟨source, r, found, bit, step⟩
  rcases row_of_table found with ⟨rest, at_source, rfl⟩
  rcases step_bit step with ⟨move, member, letter, target⟩
  rcases List.mem_map.mp member with ⟨⟨letters, after⟩, among, rfl⟩
  simp only [workOut_eq] at letter target
  have later : MatchesAll after word := reads_place ⟨index, next, at_index, target, matched⟩
  exact ⟨source, rest, at_source, bit, movesAll_sound among letter later⟩

theorem accepting_sound {states : List (List Pattern)} {set : Nat}
    (ended : accepting set (table states) = true) : Reads states set [] := by
  rcases accepting_bit ended with ⟨source, r, found, bit, accepting⟩
  rcases row_of_table found with ⟨rest, at_source, rfl⟩
  exact ⟨source, rest, at_source, bit, matchesAll_nil accepting⟩

end Pattern

end CraftDsl
