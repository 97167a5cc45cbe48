import CraftDsl.Proofs.Parallel
import Mathlib.Data.List.Nodup

/-!
Matching of braces. The opening and closing braces of a source are matched with a stack, from left to
right; a closing brace that meets an empty stack is passed over. Main statements: `bracePairs_unique`,
`openBraces_lone`, `Bracing.stretch`.
-/
namespace CraftDsl

def TokenKind.isBrace : TokenKind → Bool
  | braceOpen | braceClose => true
  | _ => false

/-- The braces that are open after a token, the innermost first, each told by its place. -/
def openAfter (opened : List Nat) (place : Nat) : TokenKind → List Nat
  | .braceOpen => place :: opened
  | .braceClose => opened.tail
  | _ => opened

def closedBy (opened : List Nat) (place : Nat) : TokenKind → List (Nat × Nat)
  | .braceClose => opened.head?.toList.map fun partner => (partner, place)
  | _ => []

/-- The braces that are open after the tokens. -/
def openBraces (opened : List Nat) : List (Span × Token) → List Nat
  | [] => opened
  | (span, token) :: rest => openBraces (openAfter opened span.start token.kind) rest

/-- The places of an opening brace and of the closing brace that it is matched with. -/
def bracePairs (opened : List Nat) : List (Span × Token) → List (Nat × Nat)
  | [] => []
  | (span, token) :: rest =>
    closedBy opened span.start token.kind ++
      bracePairs (openAfter opened span.start token.kind) rest

theorem openAfter_plain (opened : List Nat) (place : Nat) {kind : TokenKind}
    (plain : kind.isBrace = false) : openAfter opened place kind = opened := by
  cases kind <;> first | rfl | exact Bool.noConfusion plain

theorem openBraces_append (opened : List Nat) (first second : List (Span × Token)) :
    openBraces opened (first ++ second) = openBraces (openBraces opened first) second := by
  induction first generalizing opened with
  | nil => rfl
  | cons located rest ih => exact ih _

theorem bracePairs_append (opened : List Nat) (first second : List (Span × Token)) :
    bracePairs opened (first ++ second) =
      bracePairs opened first ++ bracePairs (openBraces opened first) second := by
  induction first generalizing opened with
  | nil => rfl
  | cons located rest ih => rw [List.cons_append, bracePairs, ih, bracePairs, List.append_assoc]; rfl

theorem openBraces_plain (opened : List Nat) (start : Nat) {tokens : List Token}
    (plain : ∀ token ∈ tokens, token.kind.isBrace = false) :
    openBraces opened (Token.locate start tokens) = opened := by
  induction tokens generalizing start with
  | nil => rfl
  | cons token tokens ih =>
    rw [Token.locate, openBraces, openAfter_plain _ _ (plain token List.mem_cons_self)]
    exact ih _ fun later member => plain later (List.mem_cons_of_mem _ member)

def braceOpenings (located : List (Span × Token)) : List Nat :=
  (located.filter fun located => located.2.kind = .braceOpen).map fun located => located.1.start

theorem braceOpenings_cons (located : Span × Token) (rest : List (Span × Token)) :
    braceOpenings (located :: rest) =
      (if located.2.kind = .braceOpen then [located.1.start] else []) ++ braceOpenings rest := by
  by_cases opening : located.2.kind = .braceOpen <;> simp [braceOpenings, opening]

theorem braces_step (opened : List Nat) (located : Span × Token) (starts : List Nat) :
    ((closedBy opened located.1.start located.2.kind).map Prod.fst ++
      (openAfter opened located.1.start located.2.kind ++ starts)).Perm
        (opened ++ ((if located.2.kind = .braceOpen then [located.1.start] else []) ++ starts)) := by
  cases located.2.kind with
  | braceOpen => exact List.perm_middle.symm
  | braceClose =>
    cases opened with
    | nil => exact .refl _
    | cons partner outer => exact .refl _
  | _ => exact .refl _

theorem braces_perm (opened : List Nat) (located : List (Span × Token)) :
    ((bracePairs opened located).map Prod.fst ++ openBraces opened located).Perm
      (opened ++ braceOpenings located) := by
  induction located generalizing opened with
  | nil => simp [bracePairs, openBraces, braceOpenings]
  | cons first rest ih =>
    have later := ih (openAfter opened first.1.start first.2.kind)
    have step := braces_step opened first (braceOpenings rest)
    rw [bracePairs, openBraces, List.map_append, List.append_assoc, braceOpenings_cons]
    exact (later.append_left _).trans step

theorem braceOpenings_nodup (start : Nat) {tokens : List Token}
    (wide : ∀ token ∈ tokens, 0 < token.width) :
    (braceOpenings (Token.locate start tokens)).Nodup := by
  induction tokens generalizing start with
  | nil => exact List.nodup_nil
  | cons token tokens ih =>
    have later := ih (start + token.width) fun t member => wide t (List.mem_cons_of_mem _ member)
    rw [Token.locate, braceOpenings_cons]
    split
    · apply List.nodup_cons.mpr
      refine ⟨fun again => ?_, later⟩
      obtain ⟨located, member, place⟩ := List.mem_map.mp again
      have further := Token.mem_locate (List.mem_of_mem_filter member)
      have positive := wide token List.mem_cons_self
      simp only at place
      omega
    · exact later

section

variable {tokens : List Token} (wide : ∀ token ∈ tokens, 0 < token.width)

include wide

theorem braces_nodup :
    ((bracePairs [] (Token.locate 0 tokens)).map Prod.fst ++
      openBraces [] (Token.locate 0 tokens)).Nodup :=
  (braces_perm [] _).nodup_iff.mpr (braceOpenings_nodup 0 wide)

theorem bracePairs_unique {first second second' : Nat}
    (pair : (first, second) ∈ bracePairs [] (Token.locate 0 tokens))
    (pair' : (first, second') ∈ bracePairs [] (Token.locate 0 tokens)) : second = second' := by
  have distinct := (List.nodup_append.mp (braces_nodup wide)).1
  have same := List.inj_on_of_nodup_map distinct pair pair' rfl
  exact (Prod.mk.inj same).2

theorem openBraces_lone {first second : Nat}
    (left : first ∈ openBraces [] (Token.locate 0 tokens)) :
    (first, second) ∉ bracePairs [] (Token.locate 0 tokens) := by
  intro pair
  have apart := (List.nodup_append.mp (braces_nodup wide)).2.2
  exact apart first (List.mem_map_of_mem pair) first left rfl

end

/-- Of the tokens ahead, with these braces open before them, the pairs are among the given ones, and
the given braces are open at the end. -/
structure Bracing (pairs : List (Nat × Nat)) (left opened : List Nat) (start : Nat)
    (tokens : List Token) : Prop where
  pairs : ∀ pair ∈ bracePairs opened (Token.locate start tokens), pair ∈ pairs
  left : openBraces opened (Token.locate start tokens) = left

namespace Bracing

variable {pairs : List (Nat × Nat)} {left opened : List Nat} {start : Nat}

theorem behind {first second : List Token}
    (bracing : Bracing pairs left opened start (first ++ second)) :
    Bracing pairs left (openBraces opened (Token.locate start first)) (start + widthOf first)
      second := by
  constructor
  · intro pair member
    apply bracing.pairs
    rw [Token.locate_append, bracePairs_append]
    exact List.mem_append_right _ member
  · rw [← bracing.left, Token.locate_append, openBraces_append]

theorem plain {first second : List Token}
    (bracing : Bracing pairs left opened start (first ++ second))
    (plain : ∀ token ∈ first, token.kind.isBrace = false) :
    Bracing pairs left opened (start + widthOf first) second := by
  have behind := bracing.behind
  rwa [openBraces_plain opened start plain] at behind

theorem next {token : Token} {tokens : List Token}
    (bracing : Bracing pairs left opened start (token :: tokens)) :
    Bracing pairs left (openAfter opened start token.kind) (start + token.width) tokens := by
  show Bracing pairs left (openBraces opened (Token.locate start [token]))
    (start + widthOf [token]) tokens
  exact bracing.behind

/-- Nothing but blanks is ahead, so what is open stays open. -/
theorem left_eq {tokens : List Token} (bracing : Bracing pairs left opened start tokens)
    (plain : ∀ token ∈ tokens, token.kind.isBrace = false) : left = opened := by
  rw [← bracing.left, openBraces_plain opened start plain]

end Bracing

/-- Where a skipped stretch leads that began with these braces open: to a token before which they are
open again, or to the end of input, where they are still open and perhaps more. If no more are, the
stretch did not end with a newline, at which it would have stopped. -/
def Regained (pairs : List (Nat × Nat)) (left opened : List Nat) (start : Nat)
    (tokens rest : List Token) : Prop :=
  (Bracing pairs left opened start rest ∧ ∃ token ∈ rest, token.isTrivia = false) ∨
    (∀ token ∈ rest, token.isTrivia = true) ∧ opened <:+ left ∧
      (left = opened → ∀ token ∈ tokens.getLast?, token.kind ≠ .newline)

theorem trivia_plain {token : Token} (trivia : token.isTrivia = true) :
    token.kind.isBrace = false ∧ token.kind ≠ .newline := by
  rcases token with ⟨kind, text⟩
  cases kind <;> first
    | exact Bool.noConfusion trivia
    | exact ⟨rfl, fun same => TokenKind.noConfusion same⟩

/-- Within a stretch a token opens or closes braces of the stretch only. -/
theorem openAfter_inner (inner opened : List Nat) (place : Nat) {kind : TokenKind}
    (goes_on : ¬ stopsAt inner.length false kind = true) :
    ∃ inner', openAfter (inner ++ opened) place kind = inner' ++ opened ∧
      inner'.length = depthAfter inner.length kind ∧ (kind = .newline → inner' ≠ []) := by
  cases inner with
  | nil =>
    have open_line : kind ≠ .newline ∧ kind ≠ .braceClose := by
      simpa [stopsAt] using goes_on
    cases kind with
    | braceOpen => exact ⟨[place], rfl, rfl, fun _ => List.cons_ne_nil _ _⟩
    | braceClose => exact absurd rfl open_line.2
    | newline => exact absurd rfl open_line.1
    | _ => exact ⟨[], rfl, rfl, fun even => TokenKind.noConfusion even⟩
  | cons last outer =>
    cases kind with
    | braceOpen => exact ⟨place :: last :: outer, rfl, rfl, fun _ => List.cons_ne_nil _ _⟩
    | braceClose => exact ⟨outer, rfl, rfl, fun even => TokenKind.noConfusion even⟩
    | _ => exact ⟨last :: outer, rfl, rfl, fun _ => List.cons_ne_nil _ _⟩

/-- The braces that a stretch opened are those on top of the stack, as many as its depth says. -/
theorem Bracing.stretch {pairs : List (Nat × Nat)} {left opened inner : List Nat} {start : Nat}
    (tokens : List Token) (bracing : Bracing pairs left (inner ++ opened) start tokens) :
    Regained pairs left opened
      (start + widthOf (tokens.take (CraftDsl.stretch inner.length false 0 tokens))) tokens
      (tokens.drop (CraftDsl.stretch inner.length false 0 tokens)) := by
  generalize depth_eq : inner.length = depth
  generalize later_eq : false = first
  induction depth, first, tokens using stretch_induction generalizing inner start with
  | ended depth first blanks trivia =>
    rw [stretch_trivia depth first trivia, List.drop_zero]
    right
    refine ⟨trivia, ?_, ?_⟩
    · rw [bracing.left_eq fun token member => (trivia_plain (trivia token member)).1]
      exact List.suffix_append inner opened
    · intro _ token last
      exact (trivia_plain (trivia token (List.mem_of_mem_getLast? last))).2
  | halts depth first blanks token tokens trivia solid stops =>
    rw [stretch_halts depth first tokens trivia solid stops, List.take_zero, List.drop_zero]
    have shallow : inner = [] := by
      simp only [stopsAt, Bool.and_eq_true, decide_eq_true_eq] at stops
      exact List.length_eq_zero_iff.mp (depth_eq.trans stops.1.2)
    rw [shallow] at bracing
    exact .inl ⟨bracing, token, by simp, solid⟩
  | goes_on depth first blanks token tokens trivia solid passes ih =>
    subst depth_eq later_eq
    obtain ⟨inner', after, depth, newline⟩ :=
      openAfter_inner inner opened (start + widthOf blanks) passes
    have inside := (bracing.plain fun b member => (trivia_plain (trivia b member)).1).next
    rw [after] at inside
    rw [stretch_goes_on inner.length false tokens trivia solid passes,
      List.take_length_add_append, List.take_succ_cons, List.drop_length_add_append,
      List.drop_succ_cons, widthOf_append, widthOf_cons, ← Nat.add_assoc, ← Nat.add_assoc]
    rcases ih inside depth rfl with halted | ⟨ended, below, same⟩
    · exact .inl halted
    · refine .inr ⟨ended, below, fun even last member => ?_⟩
      cases tokens with
      | nil =>
        have only : last = token := by simpa [eq_comm] using member
        rw [only]
        intro is_newline
        have all := inside.left
        rw [even] at all
        exact newline is_newline (List.append_left_eq_self.mp all)
      | cons second rest => exact same even last (by simpa using member)

/-- The first token of a skipped stretch is passed over whatever it is. It is no closing brace, except
where none is open. -/
theorem openAfter_first (opened : List Nat) (place : Nat) {kind : TokenKind}
    (ground : kind ≠ .braceClose ∨ opened = []) :
    ∃ inner, openAfter opened place kind = inner ++ opened ∧ inner.length = depthAfter 0 kind := by
  cases kind with
  | braceOpen => exact ⟨[place], rfl, rfl⟩
  | braceClose =>
    rcases ground with other | rfl
    · exact absurd rfl other
    · exact ⟨[], rfl, rfl⟩
  | _ => exact ⟨[], rfl, rfl⟩

theorem Bracing.discard {pairs : List (Nat × Nat)} {left opened : List Nat} {c : Cursor}
    {token : Token} {tokens : List Token} (due : c.due = token :: tokens)
    (bracing : Bracing pairs left opened c.offset c.ahead)
    (ground : token.kind ≠ .braceClose ∨ opened = []) :
    Regained pairs left opened c.discard.cursor.offset tokens c.discard.cursor.ahead := by
  rw [c.ahead_eq, due] at bracing
  have inside :=
    (bracing.plain fun b member => (trivia_plain (c.pending_trivia b member)).1).next
  obtain ⟨inner, after, depth⟩ := openAfter_first opened (c.offset + widthOf c.pending) ground
  rw [after] at inside
  have later := Bracing.stretch tokens inside
  rw [depth] at later
  rw [c.discard_eq, due, stretch_first 0 tokens (c.due_cons due).1, List.take_succ_cons,
    List.drop_succ_cons, widthOf_cons, ← Nat.add_assoc]
  exact later

end CraftDsl
