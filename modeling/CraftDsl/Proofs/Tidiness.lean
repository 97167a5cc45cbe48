import CraftDsl.Proofs.Building
import CraftDsl.Proofs.Exits

/-!
A check of productions: blanks are put into the tree before a node opens, and nodes that are opened
for a scope are counted as they are opened. Which nodes a production leaves open is told with it.
-/
namespace CraftDsl

/-- What is known of a parser before it carries out a production: whether all blanks ahead are kept
aside, whether none is, and how many nodes it has opened for a scope that are not counted yet. -/
structure Trim where
  poised : Bool
  flushed : Bool
  uncounted : Nat
  deriving DecidableEq

namespace Trim

/-- What is known of `u` is known of `t`. -/
def le (t u : Trim) : Bool :=
  (t.poised || !u.poised) && (t.flushed || !u.flushed) && t.uncounted == u.uncounted

def join? (t u : Trim) : Option Trim :=
  if t.uncounted = u.uncounted then
    some ⟨t.poised && u.poised, t.flushed && u.flushed, u.uncounted⟩
  else none

theorem le_join {t u v : Trim} (joined : t.join? u = some v) :
    t.le v = true ∧ u.le v = true := by
  rw [join?, Option.ite_none_right_eq_some] at joined
  rcases joined with ⟨same, found⟩
  cases found
  simp only [le, same]
  cases t.poised <;> cases u.poised <;> cases t.flushed <;> cases u.flushed <;> simp

instance : Knowledge Trim where
  le := le
  join? := join?
  le_refl t := by simp [le]
  le_join := le_join

def passed (t : Trim) : Trim := { t with poised := true, flushed := t.poised && t.flushed }

def taken (t : Trim) : Trim := { t with poised := false, flushed := true }

end Trim

namespace Production

def isSealed : Production → Bool
  | into _ | count _ => false
  | within _ body | loop body | block _ body => body.isSealed
  | wrap _ _ first question rest => first.isSealed && question.isSealed && rest.isSealed
  | seq first second => first.isSealed && second.isSealed
  | branch question yes no => question.isSealed && yes.isSealed && no.isSealed
  | _ => true

/-- Checks that blanks are put into the tree before a node opens, and that nodes are counted as they
are opened. -/
def tidy : Production → Trim → Option (Exits Trim)
  | answer value, t => some (.only value [t])
  | look 0 _, t => some ⟨[t.passed], [t.passed]⟩
  | look (_ + 1) _, t | glance _ _, t => some ⟨[t], [t]⟩
  | demand _, t | pass, t => some ⟨[t.passed], []⟩
  | impossible, _ => some ⟨[], []⟩
  | take _, t | name, t => some ⟨[t.taken], []⟩
  | settle, t => if t.poised then some ⟨[{ t with flushed := true }], []⟩ else none
  | within _ body, t => if t.flushed && body.isSealed then body.tidy t else none
  | into _, t => if t.flushed then some ⟨[{ t with uncounted := t.uncounted + 1 }], []⟩ else none
  | count opened, t =>
    if opened ≤ t.uncounted then some ⟨[{ t with uncounted := t.uncounted - opened }], []⟩ else none
  | scope body, t =>
    (body.tidy { t with uncounted := 0 }).bind fun e =>
      let outer (u : Trim) : Trim := { u with uncounted := t.uncounted }
      if (e.yes ++ e.no).all (·.uncounted = 0) then some (e.map outer) else none
  | wrap _ _ first question rest, t =>
    if t.flushed && first.isSealed && question.isSealed && rest.isSealed then
      (first.tidy t).bind fun e =>
        (Exits.collect question.tidy e.all).bind fun asked =>
          (Exits.collect rest.tidy asked.yes).map fun f => ⟨f.all, asked.no⟩
    else none
  | seq first second, t => (first.tidy t).bind fun e => Exits.collect second.tidy e.all
  | branch question yes no, t =>
    (question.tidy t).bind fun e =>
      (Exits.collect yes.tidy e.yes).bind fun f => (Exits.collect no.tidy e.no).map f.union
  | loop body, t => (Exits.rounds body.tidy t).map fun ended => ⟨ended, []⟩
  | missing _ _, t => some ⟨[], [{ t with poised := true, flushed := true }]⟩
  | skip _, t => some ⟨[{ t with poised := true, flushed := false }], []⟩
  | block _ body, t =>
    (body.tidy t.taken).map fun e =>
      let closed := e.all.map Trim.taken
      ⟨closed, closed⟩

end Production

namespace Outcome

@[simp] theorem openings_quiet (answer : Bool) (c : Cursor) :
    openings (quiet answer c).pieces = 0 := rfl

@[simp] theorem openings_check (holds : Bool) (fault : Fault) (answer : Bool) (c : Cursor) :
    openings (check holds fault answer c).pieces = 0 := rfl

@[simp] theorem openings_andThen (o : Outcome) (next : Bool → Cursor → Outcome) :
    openings (o.andThen next).pieces =
      openings o.pieces + openings (next o.answer o.cursor).pieces :=
  openings_append _ _

@[simp] theorem openings_closed (o : Outcome) : openings o.closed.pieces = 0 := openings_trees _

@[simp] theorem openings_wrapped (o : Outcome) (kind : NodeKind) :
    openings (o.wrapped kind).pieces = 0 := rfl

end Outcome

namespace Cursor

variable (c : Cursor)

@[simp] theorem openings_look (n : Nat) (among : KindSet) : openings (c.look n among).pieces = 0 :=
  rfl

@[simp] theorem openings_shift (count : Nat) : openings (c.shift count).pieces = 0 :=
  openings_leaves _

@[simp] theorem openings_settle : openings c.settle.pieces = 0 := c.openings_shift _

@[simp] theorem openings_take (among : KindSet) (retag : Option TokenKind) :
    openings (c.take among retag).pieces = 0 := by
  simp only [take, Outcome.openings_andThen, openings_settle, Nat.zero_add]
  split <;> rfl

@[simp] theorem openings_report (diagnostic : Span → Diagnostic) :
    openings (c.report diagnostic).pieces = 0 := by
  simp only [report]
  split <;> rfl

@[simp] theorem openings_gap : openings c.gap.pieces = 0 := by simp [gap]

@[simp] theorem openings_missing (kind : DiagnosticKind) (message : String) :
    openings (c.missing kind message).pieces = 0 := by
  simp [missing, trace]

@[simp] theorem openings_discard : openings c.discard.pieces = 0 := by simp [discard]

@[simp] theorem openings_skip (complaint : Complaint) :
    openings (c.skip complaint).pieces = 0 := by
  simp only [skip, Outcome.openings_andThen, openings_look, Nat.zero_add]
  split <;> simp [trace]

@[simp] theorem openings_unclosed (what : String) (brace : Span) :
    openings (c.unclosed what brace).pieces = 0 := by
  simp [unclosed]

@[simp] theorem openings_closeBlock (what : String) (brace : Span) :
    openings (c.closeBlock what brace).pieces = 0 := by
  unfold closeBlock
  split <;> simp

theorem openings_block (what : String) (body : Cursor → Outcome) :
    openings (c.block what body).pieces =
      openings (body (c.take (.single TokenKind.braceOpen) none).cursor).pieces := by
  simp [block]

end Cursor

namespace Production

theorem rounds_sealed {round : Cursor → Outcome} (body : ∀ c, openings (round c).pieces = 0)
    (limit : List Token) (c : Cursor) : openings (rounds round limit c).pieces = 0 := by
  induction limit generalizing c with
  | nil => simp [rounds, body]
  | cons token limit ih =>
    simp only [rounds, Outcome.openings_andThen, body, Nat.zero_add]
    split
    · exact ih _
    · rfl

theorem run_sealed (x : Production) (closed : x.isSealed = true) (c : Cursor) :
    openings (x.run c).pieces = 0 := by
  induction x generalizing c with
  | into kind => simp [isSealed] at closed
  | count opened => simp [isSealed] at closed
  | loop body ih => exact rounds_sealed (ih closed) _ _
  | seq first second first_ih second_ih =>
    simp only [isSealed, Bool.and_eq_true] at closed
    simp [run, first_ih closed.1, second_ih closed.2]
  | branch question yes no question_ih yes_ih no_ih =>
    simp only [isSealed, Bool.and_eq_true] at closed
    simp only [run, Outcome.openings_andThen, question_ih closed.1.1, Nat.zero_add]
    split
    · exact yes_ih closed.1.2 _
    · exact no_ih closed.2 _
  | block what body ih => exact (c.openings_block what body.run).trans (ih closed _)
  | _ => simp [run]

end Production

end CraftDsl
