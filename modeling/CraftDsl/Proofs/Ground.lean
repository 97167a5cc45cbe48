import CraftDsl.Proofs.Displacement
import CraftDsl.Proofs.Enclosure.Run
import CraftDsl.Proofs.Extension

/-!
Between blocks, before a line end. Productions that take no newline there, but for those in a block,
leave that line end ahead, since blocks end at their own braces and stretches before a newline. Main
statement: `firm_grounded`.
-/
namespace CraftDsl

/-- No brace is open, and a newline comes last. -/
structure Cursor.Grounded (pairs : List (Nat × Nat)) (c : Cursor) : Prop where
  bracing : Bracing pairs [] [] c.offset c.ahead
  newline : ∃ token ∈ c.ahead.getLast?, token.kind = .newline

section

variable {pairs : List (Nat × Nat)} {c d : Cursor}

/-- A newline that comes last stays last until it is taken. -/
theorem newline_left {taken rest : List Token}
    (newline : ∃ token ∈ (taken ++ rest).getLast?, token.kind = .newline)
    (short : rest = [] → ∀ token ∈ taken.getLast?, token.kind ≠ .newline) :
    ∃ token ∈ rest.getLast?, token.kind = .newline := by
  cases rest with
  | nil =>
    obtain ⟨token, last, kind⟩ := newline
    rw [List.append_nil] at last
    exact absurd kind (short rfl token last)
  | cons token tokens => rwa [List.getLast?_append_of_ne_nil _ (by simp)] at newline

theorem newline_due {token : Token} {tokens : List Token}
    (newline : ∃ last ∈ c.ahead.getLast?, last.kind = .newline) (due : c.due = token :: tokens)
    (inline : token.kind ≠ .newline) : ∃ last ∈ tokens.getLast?, last.kind = .newline := by
  rw [c.ahead_eq, due, List.append_cons] at newline
  apply newline_left newline
  intro _ last found
  rw [List.getLast?_concat] at found
  cases found
  exact inline

namespace Cursor

namespace Grounded

variable (grounded : c.Grounded pairs)

include grounded

theorem ongoing : Reserve false c.ahead := by
  obtain ⟨token, last, kind⟩ := grounded.newline
  exact ⟨token, List.mem_of_getLast? last, by rw [Token.isTrivia, kind]; rfl⟩

theorem going (solid : ∀ token ∈ c.ahead, token.kind ≠ .endOfInput) :
    c.kindAhead 0 ≠ .endOfInput := by
  obtain ⟨token, tokens, due⟩ := due_of_ongoing grounded.ongoing
  rw [(c.due_cons due).2.1]
  exact solid token (c.due_subset (due ▸ List.mem_cons_self))

theorem at_same (ahead : d.ahead = c.ahead) (offset : d.offset = c.offset) :
    d.Grounded pairs := by
  constructor
  · rw [ahead, offset]
    exact grounded.bracing
  · rw [ahead]
    exact grounded.newline

theorem move {taken : List Token} (moves : c.Moves taken d)
    (plain : ∀ token ∈ taken, token.kind.isBrace = false)
    (newline : ∃ last ∈ d.ahead.getLast?, last.kind = .newline) : d.Grounded pairs := by
  refine ⟨?_, newline⟩
  have bracing := grounded.bracing
  rw [moves.ahead] at bracing
  rw [moves.offset]
  exact bracing.plain plain

theorem settle : c.settle.cursor.Grounded pairs := by
  have moves := c.settle_moves
  have newline := grounded.newline
  rw [moves.ahead] at newline
  apply grounded.move moves (pending_plain c) (newline_left newline _)
  intro _ token last
  exact (trivia_plain (c.pending_trivia token (List.mem_of_getLast? last))).2

theorem take (among : KindSet) (retag : Option TokenKind)
    (clear : (c.take among retag).faults = [])
    (plain : ∀ kind : TokenKind, among.has kind = true → kind.isBrace = false ∧ kind ≠ .newline) :
    (c.take among retag).cursor.Grounded pairs := by
  obtain ⟨token, tokens, due⟩ := due_of_take clear
  obtain ⟨inner, inline⟩ := plain token.kind (has_of_take due clear)
  apply grounded.move (c.take_moves among retag due) (pending_concat_plain c inner)
  rw [c.take_eq among retag due]
  exact newline_due grounded.newline due inline

theorem missing (kind : DiagnosticKind) (message : String) :
    (c.missing kind message).cursor.Grounded pairs := by
  apply grounded.settle.at_same
  · simp only [Cursor.missing, Outcome.andThen, gap_eq, settle_eq, Cursor.report]
    split <;> rfl
  · simp only [Cursor.missing, Outcome.andThen, gap_eq, settle_eq, Cursor.report]
    split <;> rfl

end Grounded

theorem skip_cursor (complaint : Complaint) (more : c.kindAhead 0 ≠ .endOfInput) :
    (c.skip complaint).cursor.ahead = c.discard.cursor.ahead ∧
      (c.skip complaint).cursor.offset = c.discard.cursor.offset := by
  have going : ¬ (c.look 0 (.single TokenKind.endOfInput)).answer = true := fun at_end =>
    more ((KindSet.has_token _ _).mp at_end)
  simp only [Cursor.skip, Outcome.andThen, if_neg going, Cursor.report]
  split <;> exact ⟨by simp only [Cursor.discard_eq]; rfl, by simp only [Cursor.discard_eq]; rfl⟩

theorem Grounded.skip (grounded : c.Grounded pairs)
    (solid : ∀ token ∈ c.ahead, token.kind ≠ .endOfInput) (complaint : Complaint)
    (here : c.kindAhead 0 ≠ .newline) : (c.skip complaint).cursor.Grounded pairs := by
  obtain ⟨token, tokens, due⟩ := due_of_ongoing grounded.ongoing
  have kind := (c.due_cons due).2.1
  have more := grounded.going solid
  obtain ⟨bracing, newline⟩ := grounded
  obtain ⟨ahead, offset⟩ := skip_cursor complaint more
  rcases bracing.discard due (.inr rfl) with ⟨stopped, next, member, inner⟩ | ⟨-, -, past⟩
  · constructor
    · rw [ahead, offset]
      exact stopped
    · have moves := c.discard_moves
      rw [moves.ahead] at newline
      rw [ahead]
      apply newline_left newline
      intro none
      rw [none] at member
      cases member
  · obtain ⟨last, found, same⟩ := newline_due newline due (kind ▸ here)
    exact absurd same (past rfl last found)

/-- A block that no brace is open after ends at its own. -/
theorem closeBlock_grounded {place : Nat} (bracing : Bracing pairs [] [place] c.offset c.ahead)
    (newline : ∃ last ∈ c.ahead.getLast?, last.kind = .newline)
    (solid : ∀ token ∈ c.ahead, token.kind ≠ .endOfInput) {what : String} {brace : Span}
    (clear : (c.closeBlock what brace).faults = []) :
    (c.closeBlock what brace).cursor.Grounded pairs := by
  unfold closeBlock at clear ⊢
  by_cases closing : c.kindAhead 0 = .braceClose
  · obtain ⟨token, tokens, due, -, kind, -⟩ := c.due_of_kindAhead (by rw [closing]; nofun)
    have same : token.kind = .braceClose := kind.symm.trans closing
    obtain ⟨after, -⟩ := bracing.taken (.single TokenKind.braceClose) due
    rw [if_pos closing]
    rw [same] at after
    refine ⟨after, ?_⟩
    rw [c.take_eq _ none due]
    exact newline_due newline due (by rw [same]; nofun)
  · rw [if_neg closing] at clear
    have at_end : c.kindAhead 0 = .endOfInput := by
      simpa [Outcome.check] using (Outcome.andThen_clear clear).1
    rw [c.ahead_eq, c.due_of_over solid at_end, List.append_nil] at bracing
    cases bracing.left_eq (pending_plain c)

theorem Grounded.block (grounded : c.Grounded pairs) (what : String) {body : Production}
    (solid : ∀ token ∈ c.ahead, token.kind ≠ .endOfInput) (plain : body.blocks = 0)
    (clear : (c.block what (body.guard true).run).faults = []) :
    (c.block what (body.guard true).run).cursor.Grounded pairs := by
  obtain ⟨begun, filled, finished⟩ := block_clear clear
  obtain ⟨token, tokens, due⟩ := Cursor.due_of_take begun
  have brace : token.kind = .braceOpen := (KindSet.has_token _ _).mp (has_of_take due begun)
  obtain ⟨opened, -⟩ := grounded.bracing.taken (.single TokenKind.braceOpen) due
  have newline : ∃ last ∈ (c.take (.single TokenKind.braceOpen) none).cursor.ahead.getLast?,
      last.kind = .newline := by
    rw [c.take_eq _ none due]
    exact newline_due grounded.newline due (by rw [brace]; nofun)
  rw [brace] at opened
  have begun_spent := c.take_own_spent (.single TokenKind.braceOpen)
  show (closeBlock _ what c.spanAhead).cursor.Grounded pairs
  generalize c.take (.single TokenKind.braceOpen) none = begin at *
  have inner_solid := fun t member => solid t (begun_spent.subset member)
  have filling := body.run_paired true (.inl rfl) (.inl opened) inner_solid
    (plain ▸ Nat.zero_le 1) filled
  have spent := (body.guard true).run_spent begin.cursor
  have ⟨passed, spends⟩ := spent
  rcases filling.level with bracing | ⟨-, below⟩
  · apply closeBlock_grounded bracing _ (fun t member => inner_solid t (spent.subset member)) finished
    rw [spends.ahead] at newline
    apply newline_left newline
    intro none
    rw [none] at bracing
    cases bracing.left_eq nofun
  · cases List.suffix_nil.mp below

end Cursor

end

namespace Production

def firm : Production → Bool
  | take among => !(among.has TokenKind.newline || among.has TokenKind.braceOpen ||
      among.has TokenKind.braceClose)
  | within _ body => body.firm
  | scope _ | loop _ | wrap .. => false
  | seq first second => first.firm && second.firm
  | branch question yes no => question.firm && yes.firm && no.firm
  | block _ body => body.blocks = 0
  | _ => true

theorem firm_grounded {pairs : List (Nat × Nat)} (x : Production) (stays : x.firm = true)
    {c : Cursor} (solid : ∀ token ∈ c.ahead, token.kind ≠ .endOfInput)
    (grounded : c.Grounded pairs) (clear : ((x.guard false).run c).faults = []) :
    ((x.guard false).run c).cursor.Grounded pairs := by
  induction x generalizing c with
  | look n among =>
    rw [guard, (sight_run clear).1]
    exact ⟨grounded.bracing, grounded.newline⟩
  | glance n among =>
    rw [guard, (sight_run clear).1]
    exact grounded
  | demand among => exact ⟨grounded.bracing, grounded.newline⟩
  | take among =>
    apply grounded.take among none clear
    intro kind member
    simp only [firm, Bool.not_eq_true', Bool.or_eq_false_iff] at stays
    refine ⟨plain_of_has member stays.1.2 stays.2, ?_⟩
    rintro rfl
    exact Bool.noConfusion (stays.1.1.symm.trans member)
  | name =>
    apply grounded.take .words (some .identifier) clear
    intro kind word
    refine ⟨plain_word word, ?_⟩
    rintro rfl
    rw [KindSet.has_words] at word
    cases word
  | settle => exact grounded.settle
  | within kind body ih => exact ih stays solid grounded clear
  | seq first second first_ih second_ih =>
    obtain ⟨started, rest⟩ := Outcome.andThen_clear clear
    rw [firm, Bool.and_eq_true] at stays
    have between := first_ih stays.1 solid grounded started
    have spent := (first.guard false).run_spent c
    exact second_ih stays.2 (fun t member => solid t (spent.subset member)) between rest
  | branch question yes no question_ih yes_ih no_ih =>
    rw [guard] at clear ⊢
    obtain ⟨asked, later⟩ := branch_cases clear
    simp only [firm, Bool.and_eq_true] at stays
    have between := question_ih stays.1.1 solid grounded asked
    have spent := (question.guard false).run_spent c
    have onward := fun t member => solid t (spent.subset member)
    rcases later with ⟨rest, whole⟩ | ⟨rest, whole⟩
    · rw [whole]
      exact yes_ih stays.1.2 onward between rest
    · rw [whole]
      exact no_ih stays.2 onward between rest
  | missing kind message => exact grounded.missing kind message
  | skip complaint =>
    obtain ⟨here, same⟩ := away_run clear
    rw [guard, same]
    exact grounded.skip solid complaint here
  | block what body ih =>
    exact grounded.block what solid (of_decide_eq_true stays) clear
  | scope body | loop body => cases stays
  | wrap yes no first question rest => cases stays
  | _ => exact grounded

end Production

end CraftDsl
