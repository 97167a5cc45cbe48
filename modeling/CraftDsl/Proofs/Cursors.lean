import CraftDsl.Production.Outcome
import Mathlib.Data.List.TakeWhile
import Mathlib.Tactic.Common

/-!
Cursors: which tokens a step leaves ahead, and of what kinds the next ones are.
-/
namespace CraftDsl

theorem kindIn_append_trivia (n : Nat) (blanks tokens : List Token)
    (trivia : ∀ token ∈ blanks, token.isTrivia = true) :
    kindIn n (blanks ++ tokens) = kindIn n tokens := by
  induction blanks with
  | nil => rfl
  | cons blank blanks ih =>
    have first := trivia blank List.mem_cons_self
    have later := ih fun token member => trivia token (List.mem_cons_of_mem _ member)
    simpa [kindIn, first] using later

theorem kindIn_dropWhile (n : Nat) (tokens : List Token) :
    kindIn n (tokens.dropWhile Token.isTrivia) = kindIn n tokens := by
  conv_rhs => rw [← List.takeWhile_append_dropWhile (p := Token.isTrivia) (l := tokens)]
  exact (kindIn_append_trivia n _ _ fun token member => List.mem_takeWhile_imp member).symm

theorem kindIn_trivia (n : Nat) {tokens : List Token}
    (trivia : ∀ token ∈ tokens, token.isTrivia = true) : kindIn n tokens = .endOfInput := by
  have nothing := kindIn_append_trivia n tokens [] trivia
  rw [List.append_nil] at nothing
  rw [nothing]
  rfl

theorem widthOf_cons (token : Token) (tokens : List Token) :
    widthOf (token :: tokens) = token.width + widthOf tokens := rfl

@[simp] theorem widthOf_append (first second : List Token) :
    widthOf (first ++ second) = widthOf first + widthOf second := by
  induction first with
  | nil => exact (Nat.zero_add _).symm
  | cons token tokens ih =>
    rw [List.cons_append, widthOf_cons, widthOf_cons, ih, Nat.add_assoc]

@[simp] theorem closePieces_leaves (tokens : List Token) :
    closePieces (leaves tokens) = tokens.map .leaf := by
  induction tokens with
  | nil => rfl
  | cons token tokens ih => exact congrArg (List.cons (Tree.leaf token)) ih

theorem Outcome.andThen_clear {o : Outcome} {next : Bool → Cursor → Outcome}
    (clear : (o.andThen next).faults = []) :
    o.faults = [] ∧ (next o.answer o.cursor).faults = [] :=
  List.append_eq_nil_iff.mp clear

theorem Outcome.andThen_assoc (o : Outcome) (next later : Bool → Cursor → Outcome) :
    (o.andThen next).andThen later = o.andThen fun answer c => (next answer c).andThen later := by
  simp [andThen, List.append_assoc]

namespace Cursor

theorem settle_eq (c : Cursor) :
    c.settle = ⟨true, leaves c.pending, [], [],
      { c with ahead := c.due, offset := c.offset + widthOf c.pending }⟩ := by
  have split : c.ahead = c.pending ++ c.due := List.takeWhile_append_dropWhile.symm
  have taken : c.ahead.take c.pending.length = c.pending := by
    conv_lhs => rw [split]
    exact List.take_left
  have left : c.ahead.drop c.pending.length = c.due := by
    conv_lhs => rw [split]
    exact List.drop_left
  simp only [settle, shift, Outcome.quiet, advance, taken, left]

theorem report_ahead (c : Cursor) (diagnostic : Span → Diagnostic) :
    (c.report diagnostic).cursor.ahead = c.ahead := by
  simp only [Cursor.report]
  split <;> rfl

theorem report_pieces (c : Cursor) (diagnostic : Span → Diagnostic) :
    (c.report diagnostic).pieces = [] := by
  simp only [Cursor.report]
  split <;> rfl

theorem report_clear (c : Cursor) (diagnostic : Span → Diagnostic) :
    (c.report diagnostic).faults = [] := by
  simp only [Cursor.report]
  split <;> rfl

theorem shift_append (c : Cursor) (first rest : List Token) (ahead : c.ahead = first ++ rest)
    (count : Nat) :
    c.shift (first.length + count) = ⟨true, leaves (first ++ rest.take count), [], [],
      { c with
        ahead := rest.drop count
        offset := c.offset + widthOf first + widthOf (rest.take count) }⟩ := by
  simp only [Cursor.shift, Cursor.advance, Outcome.quiet, ahead, List.take_length_add_append,
    List.drop_length_add_append, widthOf_append, Nat.add_assoc]

theorem kindAhead_due (c : Cursor) (n : Nat) : kindIn n c.due = c.kindAhead n :=
  kindIn_dropWhile n c.ahead

theorem ahead_eq (c : Cursor) : c.ahead = c.pending ++ c.due :=
  List.takeWhile_append_dropWhile.symm

theorem pending_trivia (c : Cursor) : ∀ token ∈ c.pending, token.isTrivia = true :=
  fun _ member => List.mem_takeWhile_imp member

theorem due_cons (c : Cursor) {token : Token} {tokens : List Token} (due : c.due = token :: tokens) :
    token.isTrivia = false ∧ c.kindAhead 0 = token.kind ∧ c.kindAhead 1 = kindIn 0 tokens := by
  have solid : token.isTrivia = false := by
    have first := List.head?_dropWhile_not Token.isTrivia c.ahead
    rw [← Cursor.due, due] at first
    exact first
  refine ⟨solid, ?_, ?_⟩
  · rw [← kindAhead_due, due, kindIn, solid]
    rfl
  · rw [← kindAhead_due, due, kindIn, solid]
    rfl

theorem dropWhile_due (c : Cursor) : c.due.dropWhile Token.isTrivia = c.due := by
  cases due : c.due with
  | nil => rfl
  | cons token tokens =>
    have solid := (c.due_cons due).1
    exact List.dropWhile_cons_of_neg (Bool.eq_false_iff.mp solid)

theorem settle_settled (c : Cursor) : c.settle.cursor.settle = .quiet true c.settle.cursor := by
  have settled : c.settle.cursor =
      { c with ahead := c.due, offset := c.offset + widthOf c.pending } := by rw [c.settle_eq]
  have ahead : c.settle.cursor.ahead = c.due := by rw [settled]
  have due : c.settle.cursor.due = c.due := by
    rw [Cursor.due, ahead]
    exact c.dropWhile_due
  have pending : c.settle.cursor.pending = [] := by
    have split := c.settle.cursor.ahead_eq
    rw [due, ahead] at split
    exact List.self_eq_append_left.mp split
  rw [c.settle.cursor.settle_eq, pending, due, settled]
  rfl

theorem due_subset (c : Cursor) {token : Token} (member : token ∈ c.due) : token ∈ c.ahead := by
  rw [c.ahead_eq]
  exact List.mem_append_right _ member

theorem due_length (c : Cursor) : c.due.length ≤ c.ahead.length := by
  rw [c.ahead_eq, List.length_append]
  omega

theorem due_of_kindAhead (c : Cursor) (more : c.kindAhead 0 ≠ .endOfInput) :
    ∃ token tokens, c.due = token :: tokens ∧ token.isTrivia = false ∧
      c.kindAhead 0 = token.kind ∧ c.kindAhead 1 = kindIn 0 tokens := by
  cases due : c.due with
  | nil =>
    rw [← kindAhead_due, due] at more
    exact absurd rfl more
  | cons token tokens => exact ⟨token, tokens, rfl, c.due_cons due⟩

theorem due_of_over (c : Cursor) (solid : ∀ token ∈ c.ahead, token.kind ≠ .endOfInput)
    (at_end : c.kindAhead 0 = .endOfInput) : c.due = [] := by
  cases due : c.due with
  | nil => rfl
  | cons token tokens =>
    have member : token ∈ c.due := by
      rw [due]
      exact List.mem_cons_self
    exact absurd ((c.due_cons due).2.1.symm.trans at_end) (solid token (c.due_subset member))

/-- Taking the next token takes what comes before it too. -/
theorem take_eq (c : Cursor) (among : KindSet) (retag : Option TokenKind) {token : Token}
    {tokens : List Token} (due : c.due = token :: tokens) :
    c.take among retag =
      ⟨true, leaves c.pending ++ [.tree (.leaf ⟨retag.getD token.kind, token.text⟩)], [],
        if among.has token.kind then [] else [.misplaced],
        ⟨tokens, c.offset + widthOf (c.pending ++ [token]), c.reported, 0⟩⟩ := by
  simp [take, settle_eq, due, Outcome.andThen, Outcome.check, Outcome.quiet, advance,
    Nat.add_assoc]

theorem due_of_ahead {c : Cursor} {blanks tokens : List Token} {token : Token}
    (trivia : ∀ blank ∈ blanks, blank.isTrivia = true) (solid : token.isTrivia = false)
    (ahead : c.ahead = blanks ++ token :: tokens) : c.pending = blanks ∧ c.due = token :: tokens := by
  constructor
  · rw [pending, ahead, List.takeWhile_append_of_pos trivia]
    simp [solid]
  · rw [Cursor.due, ahead, List.dropWhile_append_of_pos trivia]
    simp [solid]

/-- Taking the first token that is not trivia, whatever it is. -/
theorem take_own_eq (c : Cursor) (blanks : List Token) {tokens : List Token} {token : Token}
    (trivia : ∀ blank ∈ blanks, blank.isTrivia = true) (solid : token.isTrivia = false)
    (ahead : c.ahead = blanks ++ token :: tokens) :
    c.take (.single token.kind) none = ⟨true, leaves (blanks ++ [token]), [], [],
      ⟨tokens, c.offset + widthOf (blanks ++ [token]), c.reported, 0⟩⟩ := by
  obtain ⟨pending, due⟩ := due_of_ahead trivia solid ahead
  rw [c.take_eq _ _ due, pending]
  simp [leaves]

theorem gap_eq (c : Cursor) :
    c.gap = ⟨false, leaves c.pending ++ [.tree (.node .error [])], [], [],
      { c with ahead := c.due, offset := c.offset + widthOf c.pending }⟩ := by
  rw [gap, settle_eq]
  rfl

theorem discard_eq (c : Cursor) :
    c.discard = ⟨true,
      leaves c.pending ++ [.tree (.node .error ((c.due.take (stretch 0 true 0 c.due)).map .leaf))],
      [], if c.looks < lookLimit then [] else [.stuck],
      ⟨c.due.drop (stretch 0 true 0 c.due), c.offset + widthOf c.pending +
        widthOf (c.due.take (stretch 0 true 0 c.due)), c.reported, 1⟩⟩ := by
  simp [discard, settle_eq, Outcome.andThen, trace, look, Outcome.check, Outcome.quiet, shift,
    advance, Outcome.wrapped]

@[simp] theorem take_answer (c : Cursor) (among : KindSet) (retag : Option TokenKind) :
    (c.take among retag).answer = true := by
  simp only [take, Outcome.andThen]
  split <;> rfl

@[simp] theorem skip_answer (c : Cursor) (complaint : Complaint) : (c.skip complaint).answer = true := by
  simp only [skip, Outcome.andThen]
  split <;> rfl

end Cursor

section

variable (depth : Nat) (first : Bool) {blanks : List Token} {token : Token} (tokens : List Token)

theorem stretch_append_trivia (count : Nat) (trivia : ∀ blank ∈ blanks, blank.isTrivia = true) :
    stretch depth first count (blanks ++ tokens) =
      stretch depth first (count + blanks.length) tokens := by
  induction blanks generalizing count with
  | nil => rfl
  | cons blank blanks ih =>
    obtain ⟨here, later⟩ := List.forall_mem_cons.mp trivia
    rw [List.cons_append, stretch, if_pos here, ih (count + 1) later, List.length_cons,
      Nat.add_assoc, Nat.add_comm 1]

theorem stretch_trivia (trivia : ∀ blank ∈ blanks, blank.isTrivia = true) :
    stretch depth first 0 blanks = 0 := by
  have nothing := stretch_append_trivia depth first [] 0 trivia
  rwa [List.append_nil] at nothing

theorem stretch_halts (trivia : ∀ blank ∈ blanks, blank.isTrivia = true)
    (solid : token.isTrivia = false) (stops : stopsAt depth first token.kind = true) :
    stretch depth first 0 (blanks ++ token :: tokens) = 0 := by
  rw [stretch_append_trivia depth first _ 0 trivia, stretch, if_neg (Bool.eq_false_iff.mp solid),
    if_pos stops]

theorem stretch_goes_on (trivia : ∀ blank ∈ blanks, blank.isTrivia = true)
    (solid : token.isTrivia = false) (passes : ¬ stopsAt depth first token.kind = true) :
    stretch depth first 0 (blanks ++ token :: tokens) =
      blanks.length + (stretch (depthAfter depth token.kind) false 0 tokens + 1) := by
  rw [stretch_append_trivia depth first _ 0 trivia, stretch, if_neg (Bool.eq_false_iff.mp solid),
    if_neg passes]
  omega

/-- The first token is taken whatever it is. -/
theorem stretch_first (solid : token.isTrivia = false) :
    stretch depth true 0 (token :: tokens) =
      stretch (depthAfter depth token.kind) false 0 tokens + 1 := by
  have taken := stretch_goes_on depth true tokens (List.forall_mem_nil _) solid (by simp [stopsAt])
  rwa [List.nil_append, List.length_nil, Nat.zero_add] at taken

end

/-- Induction along a skipped stretch. Nothing but blanks is ahead, or after blanks comes a token that
it stops before, or one that it takes. -/
@[elab_as_elim]
theorem stretch_induction {motive : Nat → Bool → List Token → Prop}
    (ended : ∀ depth first blanks, (∀ blank ∈ blanks, blank.isTrivia = true) →
      motive depth first blanks)
    (halts : ∀ depth first blanks token tokens, (∀ blank ∈ blanks, blank.isTrivia = true) →
      token.isTrivia = false → stopsAt depth first token.kind = true →
      motive depth first (blanks ++ token :: tokens))
    (goes_on : ∀ depth first blanks token tokens, (∀ blank ∈ blanks, blank.isTrivia = true) →
      token.isTrivia = false → ¬ stopsAt depth first token.kind = true →
      motive (depthAfter depth token.kind) false tokens →
      motive depth first (blanks ++ token :: tokens))
    (depth : Nat) (first : Bool) (tokens : List Token) : motive depth first tokens := by
  -- Blanks that were passed over wait until it is known what comes after them.
  suffices waiting : ∀ blanks, (∀ blank ∈ blanks, blank.isTrivia = true) →
      motive depth first (blanks ++ tokens) from waiting [] nofun
  induction tokens generalizing depth first with
  | nil =>
    intro blanks trivia
    rw [List.append_nil]
    exact ended depth first blanks trivia
  | cons token tokens ih =>
    intro blanks trivia
    by_cases blank : token.isTrivia = true
    · have longer : ∀ b ∈ blanks ++ [token], b.isTrivia = true :=
        List.forall_mem_append.mpr ⟨trivia, List.forall_mem_singleton.mpr blank⟩
      rw [List.append_cons]
      exact ih depth first (blanks ++ [token]) longer
    · have solid : token.isTrivia = false := Bool.eq_false_iff.mpr blank
      by_cases stops : stopsAt depth first token.kind = true
      · exact halts depth first blanks token tokens trivia solid stops
      · exact goes_on depth first blanks token tokens trivia solid stops (ih _ false [] nofun)

theorem stretch_stops (depth : Nat) (first : Bool) (tokens : List Token) :
    KindSet.lineEnd.has (kindIn 0 (tokens.drop (stretch depth first 0 tokens))) = true := by
  induction depth, first, tokens using stretch_induction with
  | ended depth first blanks trivia =>
    rw [stretch_trivia depth first trivia, List.drop_zero, kindIn_trivia 0 trivia]
    decide
  | halts depth first blanks token tokens trivia solid stops =>
    rw [stretch_halts depth first tokens trivia solid stops, List.drop_zero,
      kindIn_append_trivia 0 _ _ trivia, kindIn, if_neg (Bool.eq_false_iff.mp solid)]
    simp only [stopsAt, Bool.and_eq_true, Bool.or_eq_true, decide_eq_true_eq] at stops
    rcases stops.2 with newline | brace
    · rw [newline]
      decide
    · rw [brace]
      decide
  | goes_on depth first blanks token tokens trivia solid passes ih =>
    rwa [stretch_goes_on depth first tokens trivia solid passes, List.drop_length_add_append,
      List.drop_succ_cons]

/-- A skipped stretch has a token at least. -/
theorem Cursor.stretch_due (c : Cursor) (more : c.kindAhead 0 ≠ .endOfInput) :
    (c.due.drop (stretch 0 true 0 c.due)).length < c.ahead.length ∧
      KindSet.lineEnd.has (kindIn 0 (c.due.drop (stretch 0 true 0 c.due))) = true := by
  refine ⟨?_, stretch_stops 0 true c.due⟩
  rcases c.due_of_kindAhead more with ⟨token, tokens, due, solid, -, -⟩
  have shorter := c.due_length
  rw [due, List.length_cons] at shorter
  rw [due, stretch_first 0 tokens solid, List.drop_succ_cons, List.length_drop]
  omega

end CraftDsl
