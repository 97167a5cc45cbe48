import CraftDsl.Production
import Mathlib.Tactic.Common

/-!
What is known after a production, for each answer apart: a list of states of which one holds. A check
follows the states through a production, through both ways of a branch and round by round through a
loop, until a round adds nothing new.
-/
namespace CraftDsl

def workOut {α : Type} (n : Nat) (next : Nat → α) : α :=
  match n with
  | 0 => next 0
  | n + 1 => next (n + 1)

@[simp] theorem workOut_eq {α : Type} (n : Nat) (next : Nat → α) : workOut n next = next n := by
  cases n <;> rfl

/-- States of knowledge. A weaker state may stand for a stronger one. -/
class Knowledge (σ : Type) where
  le : σ → σ → Bool
  /-- One state for both, if there is one that is precise enough. -/
  join? : σ → σ → Option σ
  le_refl : ∀ s : σ, le s s = true
  le_join : ∀ {s t u : σ}, join? s t = some u → le s u = true ∧ le t u = true

/-- Of the states one holds after the answer yes, of the others one after the answer no. -/
structure Exits (σ : Type) where
  yes : List σ
  no : List σ
  deriving DecidableEq

namespace Exits

variable {σ : Type}

def after (e : Exits σ) : Bool → List σ
  | true => e.yes
  | false => e.no

def only (answer : Bool) (states : List σ) : Exits σ :=
  if answer then ⟨states, []⟩ else ⟨[], states⟩

def map {τ : Type} (f : σ → τ) (e : Exits σ) : Exits τ := ⟨e.yes.map f, e.no.map f⟩

def Covers (e : Exits σ) (holds : σ → Prop) (answer : Bool) : Prop :=
  ∃ s ∈ e.after answer, holds s

theorem covers_only {holds : σ → Prop} {states : List σ} (answer : Bool)
    (one : ∃ s ∈ states, holds s) : (only answer states).Covers holds answer := by
  cases answer <;> exact one

theorem covers_both {holds : σ → Prop} {s : σ} (answer : Bool) (held : holds s) :
    (⟨[s], [s]⟩ : Exits σ).Covers holds answer := by
  cases answer <;> exact ⟨s, List.mem_singleton_self s, held⟩

theorem covers_map {τ : Type} {f : σ → τ} {e : Exits σ} {answer : Bool} {holds : τ → Prop} {s : σ}
    (member : s ∈ e.after answer) (held : holds (f s)) : (e.map f).Covers holds answer := by
  cases answer <;> exact ⟨f s, List.mem_map_of_mem member, held⟩

theorem covers_yes {holds : σ → Prop} {yes : List σ} (no : List σ) {answer : Bool}
    (covers : (⟨yes, []⟩ : Exits σ).Covers holds answer) :
    (⟨yes, no⟩ : Exits σ).Covers holds answer := by
  cases answer with
  | true => exact covers
  | false =>
    rcases covers with ⟨s, member, -⟩
    simp [after] at member

theorem covers_no {holds : σ → Prop} (yes : List σ) {no : List σ} {answer : Bool}
    (covers : (⟨[], no⟩ : Exits σ).Covers holds answer) :
    (⟨yes, no⟩ : Exits σ).Covers holds answer := by
  cases answer with
  | true =>
    rcases covers with ⟨s, member, -⟩
    simp [after] at member
  | false => exact covers

theorem covers_among {holds : σ → Prop} {s : σ} {states : List σ} (no : List σ) {answer : Bool}
    (member : s ∈ states) (covers : (⟨[s], []⟩ : Exits σ).Covers holds answer) :
    (⟨states, no⟩ : Exits σ).Covers holds answer := by
  apply covers_yes no
  cases answer with
  | true =>
    rcases covers with ⟨t, only, held⟩
    rw [List.mem_singleton.mp only] at held
    exact ⟨s, member, held⟩
  | false => exact covers

theorem mem_append_of_after {e : Exits σ} {answer : Bool} {s : σ} (member : s ∈ e.after answer) :
    s ∈ e.yes ++ e.no := by
  cases answer with
  | true => exact List.mem_append_left _ member
  | false => exact List.mem_append_right _ member

variable [Knowledge σ]

def Upward (holds : σ → Prop) : Prop :=
  ∀ s t : σ, Knowledge.le s t = true → holds s → holds t

def insert (s : σ) : List σ → List σ
  | [] => [s]
  | t :: states =>
    match Knowledge.join? s t with
    | some u => u :: states
    | none => t :: insert s states

theorem Upward.insert {holds : σ → Prop} (upward : Upward holds) {s : σ} {states : List σ}
    (either : holds s ∨ ∃ t ∈ states, holds t) : ∃ t ∈ insert s states, holds t := by
  induction states with
  | nil => simpa [Exits.insert] using either
  | cons t states ih =>
    unfold Exits.insert
    cases joined : Knowledge.join? s t with
    | some u =>
      rcases Knowledge.le_join joined with ⟨first, second⟩
      rcases either with held | ⟨v, member, held⟩
      · exact ⟨u, List.mem_cons_self, upward _ _ first held⟩
      · rcases List.mem_cons.mp member with rfl | later
        · exact ⟨u, List.mem_cons_self, upward _ _ second held⟩
        · exact ⟨v, List.mem_cons_of_mem _ later, held⟩
    | none =>
      have split : holds t ∨ holds s ∨ ∃ v ∈ states, holds v := by
        rcases either with held | ⟨v, member, held⟩
        · exact .inr (.inl held)
        · rcases List.mem_cons.mp member with rfl | later
          · exact .inl held
          · exact .inr (.inr ⟨v, later, held⟩)
      rcases split with held | rest
      · exact ⟨t, List.mem_cons_self, held⟩
      · rcases ih rest with ⟨v, member, held⟩
        exact ⟨v, List.mem_cons_of_mem _ member, held⟩

def joinAll (first second : List σ) : List σ := first.foldr insert second

theorem Upward.joinAll {holds : σ → Prop} (upward : Upward holds) {first second : List σ}
    (either : (∃ s ∈ first, holds s) ∨ ∃ s ∈ second, holds s) :
    ∃ s ∈ joinAll first second, holds s := by
  induction first with
  | nil => simpa [Exits.joinAll] using either
  | cons s states ih =>
    have rest : holds s ∨ ∃ t ∈ Exits.joinAll states second, holds t := by
      rcases either with ⟨t, member, held⟩ | later
      · rcases List.mem_cons.mp member with rfl | older
        · exact .inl held
        · exact .inr (ih (.inl ⟨t, older, held⟩))
      · exact .inr (ih (.inr later))
    exact upward.insert rest

def all (e : Exits σ) : List σ := joinAll e.yes e.no

theorem Upward.all {holds : σ → Prop} (upward : Upward holds) {e : Exits σ} {answer : Bool}
    (covers : e.Covers holds answer) : ∃ s ∈ e.all, holds s := by
  cases answer with
  | true => exact upward.joinAll (.inl covers)
  | false => exact upward.joinAll (.inr covers)

def union (e f : Exits σ) : Exits σ := ⟨joinAll e.yes f.yes, joinAll e.no f.no⟩

theorem Upward.union {holds : σ → Prop} (upward : Upward holds) {e f : Exits σ} {answer : Bool}
    (either : e.Covers holds answer ∨ f.Covers holds answer) :
    (e.union f).Covers holds answer := by
  cases answer with
  | true => exact upward.joinAll either
  | false => exact upward.joinAll either

def collect (step : σ → Option (Exits σ)) : List σ → Option (Exits σ)
  | [] => some ⟨[], []⟩
  | s :: states => (step s).bind fun e => (collect step states).map e.union

theorem collect_covers {step : σ → Option (Exits σ)} {states : List σ} {e : Exits σ}
    (collected : collect step states = some e) {s : σ} (member : s ∈ states) :
    ∃ f, step s = some f ∧ ∀ holds answer, Upward holds → f.Covers holds answer →
      e.Covers holds answer := by
  induction states generalizing e with
  | nil => simp at member
  | cons t states ih =>
    simp only [collect, Option.bind_eq_some_iff, Option.map_eq_some_iff] at collected
    rcases collected with ⟨first, stepped, later, rest, rfl⟩
    rcases List.mem_cons.mp member with rfl | older
    · exact ⟨first, stepped, fun holds answer upward covers => upward.union (.inl covers)⟩
    · rcases ih rest older with ⟨f, found, onward⟩
      exact ⟨f, found, fun holds answer upward covers =>
        upward.union (.inr (onward holds answer upward covers))⟩

def gather {τ : Type} (f : τ → Option σ) : List τ → Option (List σ)
  | [] => some []
  | t :: states => (f t).bind fun s => (gather f states).map (insert s)

theorem gather_covers {τ : Type} {f : τ → Option σ} {states : List τ} {result : List σ}
    (gathered : gather f states = some result) {t : τ} (member : t ∈ states) :
    ∃ s, f t = some s ∧ ∀ holds, Upward holds → holds s → ∃ u ∈ result, holds u := by
  induction states generalizing result with
  | nil => simp at member
  | cons u states ih =>
    simp only [gather, Option.bind_eq_some_iff, Option.map_eq_some_iff] at gathered
    rcases gathered with ⟨first, found, later, rest, rfl⟩
    rcases List.mem_cons.mp member with rfl | older
    · exact ⟨first, found, fun holds upward held => upward.insert (.inl held)⟩
    · rcases ih rest older with ⟨s, found, onward⟩
      exact ⟨s, found, fun holds upward held =>
        upward.insert (.inr (onward holds upward held))⟩

def through {τ : Type} (f : τ → Option σ) (e : Exits τ) : Option (Exits σ) :=
  (gather f e.yes).bind fun yes => (gather f e.no).map fun no => ⟨yes, no⟩

theorem through_covers {τ : Type} {f : τ → Option σ} {e : Exits τ} {result : Exits σ}
    (passed : through f e = some result) {answer : Bool} {t : τ} (member : t ∈ e.after answer) :
    ∃ s, f t = some s ∧ ∀ holds, Upward holds → holds s → result.Covers holds answer := by
  simp only [through, Option.bind_eq_some_iff, Option.map_eq_some_iff] at passed
  rcases passed with ⟨yes, yes_gathered, no, no_gathered, rfl⟩
  cases answer with
  | true => exact gather_covers yes_gathered member
  | false => exact gather_covers no_gathered member

/-- Goes through the rounds of a loop from the states to do, with those seen before and with what is
known at the end so far. A state that a seen one stands for needs no further round. -/
def explore (round : σ → Option (Exits σ)) : Nat → List σ → List σ → List σ → Option (List σ)
  | _, _, ended, [] => some ended
  | 0, _, _, _ :: _ => none
  | fuel + 1, seen, ended, s :: todo =>
    if seen.any (Knowledge.le s) then explore round fuel seen ended todo
    else (round s).bind fun e =>
      explore round fuel (s :: seen) (joinAll e.no ended) (e.yes ++ todo)

def rounds (round : σ → Option (Exits σ)) (s : σ) : Option (List σ) := explore round 32 [] [] [s]

/-- Some state of the list stands for the state. -/
def Within (s : σ) (states : List σ) : Prop := ∃ t ∈ states, Knowledge.le s t = true

/-- A round from a state leads on to one of the states, or to what is known at the end. -/
def Leads (round : σ → Option (Exits σ)) (states ended : List σ) (s : σ) : Prop :=
  ∃ e, round s = some e ∧ (∀ t ∈ e.yes, Within t states) ∧
    ∀ holds, Upward holds → (∃ t ∈ e.no, holds t) → ∃ t ∈ ended, holds t

/-- What exploring finds is kept by every round. -/
theorem explore_closed {round : σ → Option (Exits σ)} (fuel : Nat) {seen ended todo result : List σ}
    (explored : explore round fuel seen ended todo = some result) :
    ∃ states, (∀ s ∈ todo, Within s states) ∧ (∀ s ∈ seen, s ∈ states) ∧
      (∀ s ∈ states, s ∈ seen ∨ Leads round states result s) ∧
      ∀ holds, Upward holds → (∃ t ∈ ended, holds t) → ∃ t ∈ result, holds t := by
  induction fuel generalizing seen ended todo with
  | zero =>
    cases todo with
    | nil =>
      cases explored
      exact ⟨seen, by simp, fun s member => member, fun s member => .inl member,
        fun holds upward one => one⟩
    | cons s todo => simp [explore] at explored
  | succ fuel ih =>
    cases todo with
    | nil =>
      cases explored
      exact ⟨seen, by simp, fun s member => member, fun s member => .inl member,
        fun holds upward one => one⟩
    | cons s todo =>
      rw [explore] at explored
      by_cases known : seen.any (Knowledge.le s) = true
      · rw [if_pos known] at explored
        rcases ih explored with ⟨states, done, kept, closed, ends⟩
        -- A weaker state was seen before and stands for this one.
        rcases List.any_eq_true.mp known with ⟨t, member, below⟩
        refine ⟨states, ?_, kept, closed, ends⟩
        intro u member_todo
        rcases List.mem_cons.mp member_todo with rfl | later
        · exact ⟨t, kept t member, below⟩
        · exact done u later
      · rw [if_neg known, Option.bind_eq_some_iff] at explored
        rcases explored with ⟨e, stepped, explored⟩
        rcases ih explored with ⟨states, done, kept, closed, ends⟩
        -- A new state leads on to those found in its round, which are still to be explored.
        have leads : Leads round states result s := by
          refine ⟨e, stepped, fun t member => done t (List.mem_append_left _ member), ?_⟩
          exact fun holds upward one => ends holds upward (upward.joinAll (.inl one))
        refine ⟨states, ?_, fun t member => kept t (List.mem_cons_of_mem _ member), ?_, ?_⟩
        · intro u member
          rcases List.mem_cons.mp member with rfl | later
          · exact ⟨u, kept u List.mem_cons_self, Knowledge.le_refl u⟩
          · exact done u (List.mem_append_right _ later)
        · intro u member
          rcases closed u member with old | new
          · rcases List.mem_cons.mp old with rfl | older
            · exact .inr leads
            · exact .inl older
          · exact .inr new
        · exact fun holds upward one => ends holds upward (upward.joinAll (.inr one))

theorem rounds_closed {round : σ → Option (Exits σ)} {s : σ} {ended : List σ}
    (explored : rounds round s = some ended) :
    ∃ states, Within s states ∧ ∀ t ∈ states, Leads round states ended t := by
  rcases explore_closed 32 explored with ⟨states, done, -, closed, -⟩
  refine ⟨states, done s (List.mem_singleton_self s), fun t member => ?_⟩
  rcases closed t member with none_seen | leads
  · simp at none_seen
  · exact leads

end Exits

end CraftDsl
