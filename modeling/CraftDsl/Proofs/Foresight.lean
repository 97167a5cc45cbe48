import CraftDsl.Proofs.Exits
import CraftDsl.Proofs.Monitor

/-!
Foresight: what can be known of the tokens ahead at every point of a production, and where the nodes
under construction stand with a monitor. From the kinds that the next two tokens can have, it is
checked that no token is taken that a production may not take, that every round of a loop takes one,
and that there are never too many looks in between.
-/
namespace CraftDsl

/-- The kinds that the next two tokens can have, the looks since a token was taken at most, whether a
token has been taken since the beginning of a round, and the place in the tree. -/
structure Outlook where
  first : KindSet
  second : KindSet
  looks : Nat
  moved : Bool
  site : Site

def KindSet.ending : KindSet := .single TokenKind.endOfInput

namespace Outlook

def le (s t : Outlook) : Bool :=
  s.site = t.site && s.first.within t.first && s.second.within t.second && s.looks ≤ t.looks &&
    (s.moved || !t.moved)

def join? (s t : Outlook) : Option Outlook :=
  if s.site = t.site then
    some ⟨s.first ∪ t.first, s.second ∪ t.second, max s.looks t.looks, s.moved && t.moved, t.site⟩
  else none

theorem le_join {s t u : Outlook} (joined : s.join? t = some u) : s.le u = true ∧ t.le u = true := by
  rw [join?, Option.ite_none_right_eq_some] at joined
  rcases joined with ⟨same, found⟩
  cases found
  simp only [le, same, KindSet.within_union_left, KindSet.within_union_right, decide_true,
    Bool.true_and]
  have left : s.looks ≤ max s.looks t.looks := Nat.le_max_left _ _
  have right : t.looks ≤ max s.looks t.looks := Nat.le_max_right _ _
  cases s.moved <;> cases t.moved <;> simp [left, right]

instance : Knowledge Outlook where
  le := le
  join? := join?
  le_refl s := by simp [le, KindSet.within_self]
  le_join := le_join

/-- A step from an outlook of which all parts are worked out first, so that what is found for an
outlook once is found for all outlooks that are the same. -/
def onward {α : Type} (step : Outlook → α) (s : Outlook) : α :=
  workOut s.first.bits fun first => workOut s.second.bits fun second => workOut s.looks fun looks =>
    workOut s.site.here fun here =>
      match s.moved, s.site.spine with
      | true, none => step ⟨⟨first⟩, ⟨second⟩, looks, true, ⟨none, here⟩⟩
      | false, none => step ⟨⟨first⟩, ⟨second⟩, looks, false, ⟨none, here⟩⟩
      | moved, some (kind, outer) => workOut outer fun outer =>
        step ⟨⟨first⟩, ⟨second⟩, looks, moved, ⟨some (kind, outer), here⟩⟩

@[simp] theorem onward_eq {α : Type} (step : Outlook → α) : onward step = step := by
  funext s
  rcases s with ⟨first, second, looks, moved, spine, here⟩
  cases moved <;> cases spine <;> simp [onward]

def peek (s : Outlook) : Option Outlook :=
  if s.looks < lookLimit then some { s with looks := s.looks + 1 } else none

def withFirst (s : Outlook) (first : KindSet) : List Outlook :=
  if first = .empty then [] else [{ s with first }]

def withSecond (s : Outlook) (second : KindSet) : List Outlook :=
  if second = .empty then [] else [{ s with second }]

/-- What the answer about the `n`-th token ahead tells of it. -/
def sight (s : Outlook) (among : KindSet) : Nat → Exits Outlook
  | 0 => ⟨s.withFirst (s.first ∩ among), s.withFirst (s.first.without among)⟩
  | 1 => ⟨s.withSecond (s.second ∩ among), s.withSecond (s.second.without among)⟩
  | _ => ⟨[s], [s]⟩

def skipped (s : Outlook) : Outlook :=
  { s with first := .lineEnd, second := .anything, looks := 1, moved := true }

def ifFirst (s : Outlook) (among : KindSet) (step : Outlook → Option (List Outlook)) :
    Option (List Outlook) :=
  if s.first ∩ among = .empty then some [] else step { s with first := s.first ∩ among }

def round (body : Outlook → Option (Exits Outlook)) (s : Outlook) : Option (Exits Outlook) :=
  (onward body { s with moved := false }).bind fun e =>
    if e.yes.all Outlook.moved then
      some ⟨e.yes, e.no.map fun t => { t with moved := t.moved || s.moved }⟩
    else none

end Outlook

namespace Monitor

variable (M : Monitor)

/-- The next token is taken as a leaf of the kind. In a block the input does not end after it, or the
block has an error node. -/
def takeAs (inside : Bool) (s : Outlook) (kind : TokenKind) : Option Outlook :=
  (M.see s.site kind).map fun site =>
    { first := if M.strict && inside then s.second.without .ending else s.second
      second := .anything
      looks := 0
      moved := true
      site }

def take (inside : Bool) (among : KindSet) (s : Outlook) : Option (List Outlook) :=
  if s.first.within among && !s.first.has TokenKind.endOfInput then
    Exits.gather (M.takeAs inside s) s.first.tokens
  else none

def begin (s : Outlook) (kind : NodeKind) : Outlook := { s with site := ⟨none, M.start kind⟩ }

def leave (s : Outlook) (kind : NodeKind) (t : Outlook) : Option Outlook :=
  if t.site.spine.isNone && t.first.within (M.ends kind t.site.here) then
    (M.see s.site kind).map fun site => { t with site }
  else none

def close (s t : Outlook) : Option Outlook :=
  match t.site.spine with
  | none => some { t with site := ⟨s.site.spine, t.site.here⟩ }
  | some (kind, outer) =>
    if t.first.within (M.ends kind t.site.here) then some { t with site := ⟨s.site.spine, outer⟩ }
    else none

def flag (s : Outlook) : Option (List Outlook) :=
  if M.strict then some []
  else (M.see s.site NodeKind.error).map fun site => [{ s with site }]

def finish (inside : Bool) (s : Outlook) : Option (Exits Outlook) :=
  if s.first.within (.single TokenKind.braceClose ∪ .ending) then
    (s.ifFirst (.single TokenKind.braceClose) (M.take inside (.single TokenKind.braceClose))).bind
      fun closed => (s.ifFirst .ending M.flag).map fun unclosed => ⟨closed, unclosed⟩
  else none

end Monitor

namespace Production

open Outlook (onward)

/-- Checks a production from an outlook on, inside a block or not. -/
def foresee (M : Monitor) : Production → Bool → Outlook → Option (Exits Outlook)
  | answer value, _, s => some (.only value [s])
  | look n among, _, s => s.peek.map fun t => t.sight among n
  | glance n among, _, s => some (s.sight among n)
  | demand among, _, s =>
    s.peek.bind fun t => if t.first.within among then some ⟨[t], []⟩ else none
  | impossible, _, _ => none
  | take among, inside, s => (M.take inside among s).map fun after => ⟨after, []⟩
  | name, inside, s =>
    if s.first.within .words then (M.takeAs inside s .identifier).map fun t => ⟨[t], []⟩ else none
  | pass, _, s | settle, _, s | count _, _, s => some ⟨[s], []⟩
  | within kind body, inside, s =>
    (onward (body.foresee M inside) (M.begin s kind)).bind (Exits.through (M.leave s kind))
  | into kind, _, s => (M.enter s.site kind).map fun site => ⟨[{ s with site }], []⟩
  | scope body, inside, s =>
    (onward (body.foresee M inside) { s with site := ⟨none, s.site.here⟩ }).bind
      (Exits.through (M.close s))
  | wrap yes no first question rest, inside, s =>
    let asked (kind : NodeKind) : Option (Exits Outlook) :=
      (onward (first.foresee M inside) (M.begin s kind)).bind fun e =>
        Exits.collect (onward (question.foresee M inside)) e.all
    (asked yes).bind fun e => (Exits.collect (onward (rest.foresee M inside)) e.yes).bind fun f =>
      (Exits.gather (M.leave s yes) f.all).bind fun longer =>
        (asked no).bind fun e => (Exits.gather (M.leave s no) e.no).map fun shorter =>
          ⟨longer, shorter⟩
  | seq first second, inside, s =>
    (first.foresee M inside s).bind fun e => Exits.collect (onward (second.foresee M inside)) e.all
  | branch question yes no, inside, s =>
    (question.foresee M inside s).bind fun e =>
      (Exits.collect (onward (yes.foresee M inside)) e.yes).bind fun f =>
        (Exits.collect (onward (no.foresee M inside)) e.no).map f.union
  | loop body, inside, s =>
    (Exits.rounds (Outlook.round (body.foresee M inside)) s).map fun ended => ⟨ended, []⟩
  | missing _ _, _, s => s.peek.bind fun t => (M.flag t).map fun flagged => ⟨[], flagged⟩
  | skip _, _, s =>
    s.peek.bind fun t => t.peek.bind fun u => u.peek.bind fun v => (M.flag v).map fun flagged =>
      ⟨Exits.joinAll (flagged.map Outlook.skipped) (t.withFirst (t.first ∩ .ending)), []⟩
  | block _ body, inside, s =>
    (M.take true (.single TokenKind.braceOpen) s).bind fun opened =>
      (Exits.collect (onward (body.foresee M true)) opened).bind fun e =>
        Exits.collect (M.finish inside) e.all

end Production

end CraftDsl
