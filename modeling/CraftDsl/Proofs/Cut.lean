import CraftDsl.Proofs.Extension
import CraftDsl.Proofs.Guard

/-!
Cutting off what comes later. A production that leaves no error node does the same where the input ends
at the cut, if it takes no token past the cut, and its heeded looks see none. Main statements:
`run_cut`, `trails_cut`.
-/
namespace CraftDsl

/-- What is left before the cut settles a look at the next token; within a block the closing brace is
left. -/
def Stock (inside : Bool) (tokens : List Token) : Prop :=
  ∃ token ∈ tokens, if inside then token.kind = .braceClose else token.isTrivia = false

theorem braceClose_solid {token : Token} (brace : token.kind = .braceClose) :
    token.isTrivia = false := by
  rw [Token.isTrivia, brace]
  rfl

namespace Stock

variable {inside : Bool} {tokens : List Token}

theorem before (taken : List Token) (stock : Stock inside tokens) :
    Stock inside (taken ++ tokens) := by
  obtain ⟨token, member, holds⟩ := stock
  exact ⟨token, List.mem_append_right _ member, holds⟩

theorem ongoing (stock : Stock inside tokens) : Reserve false tokens := by
  obtain ⟨token, member, holds⟩ := stock
  cases inside with
  | false => exact ⟨token, member, holds⟩
  | true => exact ⟨token, member, braceClose_solid holds⟩

end Stock

theorem Stock.enough {inside : Bool} {tokens rest : List Token} (stock : Stock inside tokens) {n : Nat}
    (near : n = 0 ∨ inside = true ∧ ∀ m < n, kindIn m (tokens ++ rest) ≠ .braceClose) :
    n < solidCount tokens := by
  rcases near with rfl | ⟨rfl, near⟩
  · exact solidCount_pos.mpr stock.ongoing
  · obtain ⟨close, member, brace⟩ := stock
    -- The closing brace stands before the cut, and counts as a token that is seen there.
    obtain ⟨before, after, rfl⟩ := List.append_of_mem member
    have solid := braceClose_solid brace
    have found := kindIn_solidCount before (after ++ rest) solid
    rw [List.append_assoc, List.cons_append] at near
    have count : solidCount (before ++ close :: after) = solidCount before + (solidCount after + 1) := by
      rw [solidCount, List.countP_append, List.countP_cons_of_pos (by simp [solid])]
      rfl
    have seen : ¬ solidCount before < n := fun less => near _ less (found.trans brace)
    omega

namespace Outcome

def Clean (o : Outcome) : Prop := NodeKind.error ∉ kindsOf o.pieces

variable {o : Outcome}

theorem Clean.andThen {next : Bool → Cursor → Outcome} (clean : (o.andThen next).Clean) :
    o.Clean ∧ (next o.answer o.cursor).Clean := by
  unfold Clean at clean
  rw [Outcome.andThen, kindsOf_append, List.mem_append, not_or] at clean
  exact clean

theorem Clean.wrapped {kind : NodeKind} (clean : (o.wrapped kind).Clean) : o.Clean := by
  intro member
  apply clean
  rw [Outcome.wrapped, kindsOf, List.flatMap_singleton, Piece.kinds, Tree.nodeKinds,
    closePieces_kinds]
  exact List.mem_cons_of_mem _ member

theorem Clean.closed (clean : o.closed.Clean) : o.Clean := by
  intro member
  apply clean
  rw [Outcome.closed, kindsOf_trees, closePieces_kinds]
  exact member

end Outcome

namespace Cursor

variable {c : Cursor}

theorem gap_unclean : ¬ c.gap.Clean := fun clean =>
  clean (c.gap_eq ▸ Monitor.error_among _ _)

theorem missing_unclean (kind : DiagnosticKind) (message : String) :
    ¬ (c.missing kind message).Clean :=
  fun clean => gap_unclean clean.andThen.2.andThen.2

theorem discard_unclean : ¬ c.discard.Clean := fun clean =>
  clean (c.discard_eq ▸ Monitor.error_among _ _)

/-- Nothing is skipped without an error node, except at the end of input. -/
theorem skip_unclean (complaint : Complaint) (more : c.kindAhead 0 ≠ .endOfInput) :
    ¬ (c.skip complaint).Clean := by
  intro clean
  have later := clean.andThen.2
  have going : ¬ (c.look 0 (.single TokenKind.endOfInput)).answer = true := fun at_end =>
    more ((KindSet.has_token _ _).mp at_end)
  rw [if_neg going] at later
  exact discard_unclean later.andThen.2.andThen.2

theorem closeBlock_clean {what : String} {brace : Span} (clean : (c.closeBlock what brace).Clean) :
    c.kindAhead 0 = .braceClose ∧
      c.closeBlock what brace = c.take (.single TokenKind.braceClose) none := by
  by_cases closing : c.kindAhead 0 = .braceClose
  · exact ⟨closing, if_pos closing⟩
  · rw [closeBlock, if_neg closing] at clean
    exact absurd clean.andThen.2.andThen.2 gap_unclean

end Cursor

/-- The outcome where more comes after the cut, and where the input ends there. The answer may differ
if it is idle. -/
structure Cut (rest : List Token) (idle : Bool) (o p : Outcome) : Prop where
  pieces : p.pieces = o.pieces
  ahead : o.cursor.ahead = p.cursor.ahead ++ rest
  answer : idle = true ∨ p.answer = o.answer

namespace Cut

variable {rest : List Token} {idle : Bool} {o p : Outcome}

theorem andThen {next next' : Bool → Cursor → Outcome} {first : Bool} (cut : Cut rest first o p)
    (later : Cut rest idle (next o.answer o.cursor) (next' p.answer p.cursor)) :
    Cut rest idle (o.andThen next) (p.andThen next') := by
  refine ⟨?_, later.ahead, later.answer⟩
  rw [Outcome.andThen, Outcome.andThen, cut.pieces, later.pieces]

theorem wrapped (cut : Cut rest idle o p) (kind : NodeKind) :
    Cut rest idle (o.wrapped kind) (p.wrapped kind) := by
  refine ⟨?_, cut.ahead, cut.answer⟩
  rw [Outcome.wrapped, Outcome.wrapped, cut.pieces]

theorem closed (cut : Cut rest idle o p) : Cut rest idle o.closed p.closed := by
  refine ⟨?_, cut.ahead, cut.answer⟩
  rw [Outcome.closed, Outcome.closed, cut.pieces]

end Cut

section

variable {c d : Cursor} {left rest : List Token} {idle : Bool}

theorem Cursor.cut_due (ahead : c.ahead = d.ahead ++ rest) {token : Token}
    (due : c.due = token :: (left ++ rest)) : d.pending = c.pending ∧ d.due = token :: left := by
  apply Cursor.due_of_ahead c.pending_trivia (c.due_cons due).1
  refine List.append_cancel_right (show _ ++ rest = _ ++ rest from ?_)
  rw [← ahead, c.ahead_eq, due, List.append_assoc, List.cons_append]

theorem cut_quiet (ahead : c.ahead = d.ahead ++ rest) (value : Bool) :
    Cut rest idle (.quiet value c) (.quiet value d) := ⟨rfl, ahead, .inr rfl⟩

theorem cut_take {among : KindSet} {retag : Option TokenKind} (ahead : c.ahead = d.ahead ++ rest)
    (clear : (c.take among retag).faults = [])
    (taken : (c.take among retag).cursor.ahead = left ++ rest) :
    Cut rest idle (c.take among retag) (d.take among retag) ∧
      (d.take among retag).cursor.ahead = left := by
  obtain ⟨token, tokens, due⟩ := Cursor.due_of_take clear
  rw [c.take_eq among retag due] at taken ⊢
  obtain rfl : tokens = left ++ rest := taken
  obtain ⟨pending, later⟩ := Cursor.cut_due ahead due
  rw [d.take_eq among retag later, pending]
  exact ⟨⟨rfl, rfl, .inr rfl⟩, rfl⟩

theorem cut_settle (ahead : c.ahead = d.ahead ++ rest) (settled : c.settle.cursor.ahead = left ++ rest)
    (stock : Reserve false left) : Cut rest idle c.settle d.settle := by
  rw [c.settle_eq] at settled ⊢
  have due : c.due = left ++ rest := settled
  obtain ⟨first, others, rfl⟩ : ∃ first others, left = first :: others := by
    obtain ⟨token, member, -⟩ := stock
    exact List.exists_cons_of_ne_nil (List.ne_nil_of_mem member)
  obtain ⟨pending, later⟩ := Cursor.cut_due ahead due
  rw [d.settle_eq, pending, later, due]
  exact ⟨rfl, rfl, .inr rfl⟩

end

namespace Production

/-- Whether the production takes a token, unless it leaves an error node. -/
def takes : Production → Bool
  | take _ | name | block _ _ | missing _ _ | impossible => true
  | within _ body | scope body => body.takes
  | seq first second => first.takes || second.takes
  | branch _ yes no => yes.takes && no.takes
  | _ => false

/-- Whether the last thing that the production does is to take a token, unless it leaves an error
node. -/
def ends : Production → Bool
  | take _ | name | block _ _ | missing _ _ | impossible => true
  | within _ body | scope body => body.ends
  | seq _ second => second.ends
  | branch _ yes no => yes.ends && no.ends
  | _ => false

theorem takes_of_ends (x : Production) (last : x.ends = true) : x.takes = true := by
  induction x with
  | within kind body ih => exact ih last
  | scope body ih => exact ih last
  | seq first second first_ih second_ih => exact Bool.or_eq_true_iff.mpr (.inr (second_ih last))
  | branch question yes no question_ih yes_ih no_ih =>
    obtain ⟨yes_ends, no_ends⟩ := Bool.and_eq_true_iff.mp last
    exact Bool.and_eq_true_iff.mpr ⟨yes_ih yes_ends, no_ih no_ends⟩
  | take _ | name | block _ _ _ | missing _ _ | impossible => rfl
  | _ => cases last

def Takes (c : Cursor) (o : Outcome) : Prop :=
  ∃ taken, c.ahead = taken ++ o.cursor.ahead ∧ Stock false taken

section

variable {c : Cursor} {o : Outcome} {next : Bool → Cursor → Outcome}

theorem Takes.first (takes : Takes c o) (later : Spent o.cursor (next o.answer o.cursor)) :
    Takes c (o.andThen next) := by
  obtain ⟨taken, ahead, token, member, solid⟩ := takes
  obtain ⟨more, spends⟩ := later
  refine ⟨taken ++ more, ?_, token, List.mem_append_left _ member, solid⟩
  rw [ahead, spends.ahead, List.append_assoc]
  rfl

theorem Takes.second (spent : Spent c o) (takes : Takes o.cursor (next o.answer o.cursor)) :
    Takes c (o.andThen next) := by
  obtain ⟨taken, spends⟩ := spent
  obtain ⟨more, ahead, stock⟩ := takes
  refine ⟨taken ++ more, ?_, stock.before taken⟩
  rw [spends.ahead, ahead, List.append_assoc]
  rfl

theorem takes_take {among : KindSet} {retag : Option TokenKind}
    (clear : (c.take among retag).faults = []) : Takes c (c.take among retag) := by
  obtain ⟨token, tokens, due⟩ := Cursor.due_of_take clear
  exact ⟨c.pending ++ [token], (c.take_moves among retag due).ahead, token, by simp,
    (c.due_cons due).1⟩

end

theorem run_takes (x : Production) (takes : x.takes = true) {c : Cursor}
    (clear : (x.run c).faults = []) (clean : (x.run c).Clean) : Takes c (x.run c) := by
  induction x generalizing c with
  | take among => exact takes_take clear
  | name => exact takes_take clear
  | missing kind message => exact absurd clean (Cursor.missing_unclean kind message)
  | impossible => cases clear
  | within kind body ih => exact ih takes clear clean.wrapped
  | scope body ih => exact ih takes clear clean.closed
  | seq first second first_ih second_ih =>
    obtain ⟨started, rest⟩ := Outcome.andThen_clear clear
    rcases Bool.or_eq_true_iff.mp takes with early | late
    · exact (first_ih early started clean.andThen.1).first (second.run_spent _)
    · exact .second (first.run_spent c) (second_ih late rest clean.andThen.2)
  | branch question yes no question_ih yes_ih no_ih =>
    obtain ⟨yes_takes, no_takes⟩ := Bool.and_eq_true_iff.mp takes
    obtain ⟨-, ⟨rest, whole⟩ | ⟨rest, whole⟩⟩ := branch_cases clear
    · rw [whole] at clean ⊢
      exact .second (question.run_spent c) (yes_ih yes_takes rest clean.andThen.2)
    · rw [whole] at clean ⊢
      exact .second (question.run_spent c) (no_ih no_takes rest clean.andThen.2)
  | block what body ih =>
    exact (takes_take (Outcome.andThen_clear clear).1).first
      ((body.run_spent _).andThen (Cursor.closeBlock_spent _ _ _))
  | _ => cases takes

def Settles (x : Production) (inside : Bool) (left : List Token) : Prop :=
  Stock inside left ∨ inside = false ∧ x.ends = true

theorem Settles.stock {x : Production} {inside : Bool} {left : List Token}
    (settles : x.Settles inside left) (looks : x.ends = false) : Stock inside left :=
  settles.resolve_right fun last => Bool.noConfusion (looks.symm.trans last.2)

/-- Where a further step begins, what is left before the cut settles the looks made so far. -/
theorem Settles.before {x : Production} {inside idle : Bool} {c : Cursor} {left rest : List Token}
    (settles : x.Settles inside left) (clear : ((x.heed inside idle).run c).faults = [])
    (clean : ((x.heed inside idle).run c).Clean)
    (ahead : ((x.heed inside idle).run c).cursor.ahead = left ++ rest) :
    ∃ taken, c.ahead = (taken ++ left) ++ rest ∧ Stock inside (taken ++ left) := by
  rcases settles with stock | ⟨rfl, last⟩
  · obtain ⟨taken, spends⟩ := (x.heed inside idle).run_spent c
    refine ⟨taken, ?_, stock.before taken⟩
    rw [spends.ahead, ahead, List.append_assoc]
  · have same := heed_run x false idle clear
    rw [← same] at clear clean ahead
    obtain ⟨taken, split, token, member, solid⟩ :=
      x.run_takes (x.takes_of_ends last) clear clean
    refine ⟨taken, ?_, token, List.mem_append_left _ member, solid⟩
    rw [split, ahead, List.append_assoc]

def Local (x : Production) : Prop :=
  ∀ (inside idle : Bool) ⦃c d : Cursor⦄ ⦃left rest : List Token⦄, c.ahead = d.ahead ++ rest →
    (∀ token ∈ c.ahead, token.kind ≠ .endOfInput) →
      ((x.heed inside idle).run c).faults = [] → (x.run d).faults = [] →
        ((x.heed inside idle).run c).Clean →
          ((x.heed inside idle).run c).cursor.ahead = left ++ rest → x.Settles inside left →
            Cut rest idle ((x.heed inside idle).run c) (x.run d)

section

variable {c d : Cursor} {left rest : List Token}

theorem local_seq {first second : Production} (one : first.Local) (two : second.Local) :
    (seq first second).Local := by
  intro inside idle c d left rest ahead solid clear clear' clean after settles
  obtain ⟨started, going⟩ := Outcome.andThen_clear clear
  obtain ⟨started', going'⟩ := Outcome.andThen_clear clear'
  obtain ⟨start, later⟩ := clean.andThen
  have onward : second.Settles inside left := settles
  obtain ⟨taken, between, stock⟩ := onward.before going later after
  have begun := one inside true ahead solid started started' start between (.inl stock)
  have within := fun t member => solid t (((first.heed inside true).run_spent c).subset member)
  exact begun.andThen (two inside idle begun.ahead within going going' later after onward)

theorem local_branch {question yes no : Production} (asking : question.Local)
    (affirming : yes.Local) (denying : no.Local) : (branch question yes no).Local := by
  intro inside idle c d left rest ahead solid clear clear' clean after settles
  obtain ⟨asked, going⟩ := Outcome.andThen_clear clear
  obtain ⟨asked', going'⟩ := Outcome.andThen_clear clear'
  obtain ⟨start, later⟩ := clean.andThen
  have within := fun t member =>
    solid t (((question.heed inside false).run_spent c).subset member)
  have both (ends : inside = false ∧ (branch question yes no).ends = true) :
      yes.ends = true ∧ no.ends = true := Bool.and_eq_true_iff.mp ends.2
  by_cases answer : ((question.heed inside false).run c).answer = true
  · have settled : yes.Settles inside left :=
      settles.imp_right fun ends => ⟨ends.1, (both ends).1⟩
    simp only [heed, checkLooks, run, Outcome.andThen, if_pos answer] at after
    rw [if_pos answer] at going later
    obtain ⟨taken, between, stock⟩ := settled.before going later after
    have begun := asking inside false ahead solid asked asked' start between (.inl stock)
    have same := begun.answer.resolve_left Bool.false_ne_true
    rw [same, if_pos answer] at going'
    apply begun.andThen
    rw [same, if_pos answer, if_pos answer]
    exact affirming inside idle begun.ahead within going going' later after settled
  · have settled : no.Settles inside left :=
      settles.imp_right fun ends => ⟨ends.1, (both ends).2⟩
    simp only [heed, checkLooks, run, Outcome.andThen, if_neg answer] at after
    rw [if_neg answer] at going later
    obtain ⟨taken, between, stock⟩ := settled.before going later after
    have begun := asking inside false ahead solid asked asked' start between (.inl stock)
    have same := begun.answer.resolve_left Bool.false_ne_true
    rw [same, if_neg answer] at going'
    apply begun.andThen
    rw [same, if_neg answer, if_neg answer]
    exact denying inside idle begun.ahead within going going' later after settled

theorem local_answer (value : Bool) : (answer value).Local :=
  fun _ _ _ _ _ _ ahead _ _ _ _ _ _ => cut_quiet ahead value

theorem cut_heeded {inside idle : Bool} {x : Production} {n : Nat}
    (ahead : c.ahead = d.ahead ++ rest)
    (clear : ((if idle then x else sight inside n n x).run c).faults = [])
    (unmoved : (x.run c).cursor.ahead = c.ahead)
    (after : ((if idle then x else sight inside n n x).run c).cursor.ahead = left ++ rest)
    (stock : Stock inside left)
    (idly : Cut rest true (x.run c) (x.run d))
    (plain : c.kindAhead n = d.kindAhead n → (x.run d).answer = (x.run c).answer) :
    Cut rest idle ((if idle then x else sight inside n n x).run c) (x.run d) := by
  cases idle with
  | true => exact idly
  | false =>
    obtain ⟨same, close⟩ := sight_run clear
    have here : (sight inside n n x).run c = x.run c := same
    have left_ahead : d.ahead = left := by
      refine List.append_cancel_right (show _ ++ rest = _ ++ rest from ?_)
      rw [← ahead, ← unmoved, ← here]
      exact after
    have enough : n < solidCount d.ahead := by
      subst left_ahead
      simp only [Cursor.kindAhead, ahead] at close
      exact stock.enough close
    have seen : c.kindAhead n = d.kindAhead n := by
      rw [Cursor.kindAhead, ahead]
      exact kindIn_append rest enough
    have whole : (if false = true then x else sight inside n n x).run c = x.run c := here
    rw [whole]
    exact ⟨idly.pieces, idly.ahead, .inr (plain seen)⟩

/-- A question for a token says the same if that token is before the cut. -/
theorem local_asked {x : Production} {n : Nat} {among : KindSet}
    (heeds : ∀ inside idle, x.heed inside idle = if idle then x else sight inside n n x)
    (looks : x.ends = false)
    (asks : ∀ c : Cursor, (x.run c).pieces = [] ∧ (x.run c).cursor.ahead = c.ahead ∧
      (x.run c).answer = among.has (c.kindAhead n)) : x.Local := by
  intro inside idle c d left rest ahead solid clear clear' clean after settles
  obtain ⟨nothing, still, answer⟩ := asks c
  obtain ⟨nothing', still', answer'⟩ := asks d
  rw [heeds] at clear after ⊢
  have idly : Cut rest true (x.run c) (x.run d) :=
    ⟨nothing'.trans nothing.symm, by rw [still, still', ahead], .inl rfl⟩
  apply cut_heeded ahead clear still after (settles.stock looks) idly
  intro same
  rw [answer, answer', same]

theorem local_wrap (affirmed denied : NodeKind) {first question rest : Production}
    (inner : (wrapped first question rest).Local) :
    (wrap affirmed denied first question rest).Local := by
  intro inside idle c d left more ahead solid clear clear' clean after settles
  rw [heed, checkLooks, run_wrap] at clean
  have whole := inner inside false ahead solid clear clear' clean.wrapped after
    (.inl (settles.stock rfl))
  rw [heed, checkLooks, run_wrap, run_wrap, whole.answer.resolve_left Bool.false_ne_true]
  have same := whole.wrapped
    (if ((wrapped (first.heed inside true) (question.heed inside false)
      (rest.heed inside true)).run c).answer then affirmed else denied)
  exact ⟨same.pieces, same.ahead, .inr (same.answer.resolve_left Bool.false_ne_true)⟩

theorem local_skip (complaint : Complaint) : (skip complaint).Local := by
  intro inside idle c d left rest ahead solid clear clear' clean after settles
  obtain ⟨taken, spends⟩ := (skip complaint).run_spent c
  have more : c.kindAhead 0 ≠ .endOfInput := by
    intro at_end
    have due := c.due_of_over solid at_end
    obtain ⟨token, member, inner⟩ := (settles.stock rfl).ongoing
    have among : token ∈ c.ahead := by
      rw [spends.ahead]
      exact List.mem_append_right _ (after ▸ List.mem_append_left _ member)
    rw [c.ahead_eq, due, List.append_nil] at among
    exact Bool.noConfusion ((c.pending_trivia token among).symm.trans inner)
  exact absurd clean (Cursor.skip_unclean complaint more)

/-- Rounds of a loop that ends before the cut. -/
theorem rounds_cut {body : Production} (inner : body.Local) {inside : Bool} {limit limit' : List Token}
    (ahead : c.ahead = d.ahead ++ rest) (solid : ∀ token ∈ c.ahead, token.kind ≠ .endOfInput)
    (clear : (rounds (body.heed inside false).run limit c).faults = [])
    (clear' : (rounds body.run limit' d).faults = [])
    (clean : (rounds (body.heed inside false).run limit c).Clean)
    (after : (rounds (body.heed inside false).run limit c).cursor.ahead = left ++ rest)
    (stock : Stock inside left) :
    Cut rest false (rounds (body.heed inside false).run limit c) (rounds body.run limit' d) := by
  induction limit generalizing limit' c d with
  | nil =>
    have next := rounds_eq clear'
    rw [next] at clear' ⊢
    have one := rounds_clear clear
    have last := rounds_stalled clear
    have first := inner inside false ahead solid one (Outcome.andThen_clear clear').1
      clean.andThen.1 after (.inl stock)
    have same := first.answer.resolve_left Bool.false_ne_true
    apply first.andThen
    rw [same, last]
    exact ⟨rfl, first.ahead, .inr rfl⟩
  | cons token limit ih =>
    have next := rounds_eq clear'
    rw [next] at clear' ⊢
    obtain ⟨one, going⟩ := Outcome.andThen_clear clear
    obtain ⟨one', going'⟩ := Outcome.andThen_clear clear'
    obtain ⟨start, later⟩ := clean.andThen
    have spent := (body.heed inside false).run_spent c
    by_cases again : ((body.heed inside false).run c).answer = true
    · rw [if_pos again] at going later
      simp only [rounds, Outcome.andThen, if_pos again] at after
      obtain ⟨taken, spends⟩ := rounds_spent (body.heed inside false).run_spent limit
        ((body.heed inside false).run c).cursor
      -- What is left of the last round is left of this one too, and more.
      have between : ((body.heed inside false).run c).cursor.ahead = (taken ++ left) ++ rest := by
        rw [spends.ahead, after, List.append_assoc]
      have first := inner inside false ahead solid one one' start between
        (.inl (stock.before taken))
      have same := first.answer.resolve_left Bool.false_ne_true
      rw [same, if_pos again] at going'
      apply first.andThen
      rw [same, if_pos again, if_pos again]
      exact ih first.ahead (fun t member => solid t (spent.subset member)) going going' later after
    · simp only [rounds, Outcome.andThen, if_neg again, Outcome.quiet] at after
      have first := inner inside false ahead solid one one' start after (.inl stock)
      have same := first.answer.resolve_left Bool.false_ne_true
      apply first.andThen
      rw [same, if_neg again, if_neg again]
      exact cut_quiet first.ahead true

theorem local_loop {body : Production} (inner : body.Local) : (loop body).Local := by
  intro inside idle c d left rest ahead solid clear clear' clean after settles
  have cut := rounds_cut inner ahead solid clear clear' clean after (settles.stock rfl)
  exact ⟨cut.pieces, cut.ahead, .inr (cut.answer.resolve_left Bool.false_ne_true)⟩

/-- A block ends at its closing brace, so the looks in it are settled before the cut. -/
theorem local_block {body : Production} (inner : body.Local) (what : String) :
    (block what body).Local := by
  intro inside idle c d left rest ahead solid clear clear' clean after _
  obtain ⟨begun, filled, closed⟩ := Cursor.block_clear clear
  obtain ⟨-, filled', -⟩ := Cursor.block_clear clear'
  obtain ⟨-, later⟩ := clean.andThen
  obtain ⟨within, ended⟩ := later.andThen
  set start := (c.take (.single TokenKind.braceOpen) none).cursor with start_eq
  set middle := (body.heed true true).run start with middle_eq
  obtain ⟨closing, brace⟩ := Cursor.closeBlock_clean ended
  have last : (middle.cursor.take (.single TokenKind.braceClose) none).cursor.ahead = left ++ rest :=
    brace ▸ after
  rw [brace] at closed
  obtain ⟨close, tokens, due⟩ := Cursor.due_of_take closed
  obtain rfl : tokens = left ++ rest := by
    rw [Cursor.take_eq _ _ none due] at last
    exact last
  have settled : middle.cursor.ahead = (middle.cursor.pending ++ close :: left) ++ rest := by
    rw [middle.cursor.ahead_eq, due, List.append_assoc]
    rfl
  obtain ⟨taken, spends⟩ := (body.heed true true).run_spent start
  have before : start.ahead = (taken ++ (middle.cursor.pending ++ close :: left)) ++ rest := by
    rw [spends.ahead, ← middle_eq, settled, ← List.append_assoc]
  have opened : Cut rest true (c.take (.single TokenKind.braceOpen) none)
      (d.take (.single TokenKind.braceOpen) none) := (cut_take ahead begun before).1
  -- The closing brace of the block is before the cut.
  have stock : Stock true (middle.cursor.pending ++ close :: left) :=
    ⟨close, by simp, (middle.cursor.due_cons due).2.1.symm.trans closing⟩
  have inward := fun t member =>
    solid t ((c.take_own_spent (.single TokenKind.braceOpen)).subset member)
  have content := inner true true opened.ahead inward filled filled' within settled (.inl stock)
  obtain ⟨-, due'⟩ := Cursor.cut_due content.ahead due
  have closing' : (body.run (d.take (.single TokenKind.braceOpen) none).cursor).cursor.kindAhead 0 =
      .braceClose :=
    ((Cursor.due_cons _ due').2.1.trans (middle.cursor.due_cons due).2.1.symm).trans closing
  rw [heed, checkLooks, run, run, Cursor.block, Cursor.block]
  apply opened.andThen
  apply content.andThen
  show Cut rest idle (middle.cursor.closeBlock what c.spanAhead) _
  rw [brace, Cursor.closeBlock, if_pos closing']
  exact (cut_take content.ahead closed last).1

end

theorem run_cut (x : Production) : x.Local := by
  induction x using wrapped_induction with
  | answer value => exact local_answer value
  | look n among => exact local_asked (fun _ _ => rfl) rfl fun _ => ⟨rfl, rfl, rfl⟩
  | glance n among => exact local_asked (fun _ _ => rfl) rfl fun _ => ⟨rfl, rfl, rfl⟩
  | demand among => exact fun _ _ _ _ _ _ ahead _ _ _ _ _ _ => ⟨rfl, ahead, .inr rfl⟩
  | impossible => exact fun _ _ _ _ _ _ _ _ clear _ _ _ _ => absurd clear (List.cons_ne_nil _ _)
  | take among =>
    exact fun _ _ _ _ _ _ ahead _ clear _ _ after _ => (cut_take ahead clear after).1
  | name => exact fun _ _ _ _ _ _ ahead _ clear _ _ after _ => (cut_take ahead clear after).1
  | pass => exact fun _ _ _ _ _ _ ahead _ _ _ _ _ _ => cut_quiet ahead true
  | settle =>
    exact fun _ _ _ _ _ _ ahead _ _ _ _ after settles =>
      cut_settle ahead after (settles.stock rfl).ongoing
  | within kind body ih =>
    exact fun inside idle _ _ _ _ ahead solid clear clear' clean after settles =>
      (ih inside idle ahead solid clear clear' clean.wrapped after settles).wrapped kind
  | into kind => exact fun _ _ _ _ _ _ ahead _ _ _ _ _ _ => ⟨rfl, ahead, .inr rfl⟩
  | count opened => exact fun _ _ _ _ _ _ ahead _ _ _ _ _ _ => cut_quiet ahead true
  | scope body ih =>
    exact fun inside idle _ _ _ _ ahead solid clear clear' clean after settles =>
      (ih inside idle ahead solid clear clear' clean.closed after settles).closed
  | wrap yes no first question rest ih => exact local_wrap yes no ih
  | seq first second first_ih second_ih => exact local_seq first_ih second_ih
  | branch question yes no question_ih yes_ih no_ih =>
    exact local_branch question_ih yes_ih no_ih
  | loop body ih => exact local_loop ih
  | missing kind message =>
    exact fun _ _ _ _ _ _ _ _ _ _ clean _ _ => absurd clean (Cursor.missing_unclean kind message)
  | skip complaint => exact local_skip complaint
  | block what body ih => exact local_block ih what

end Production

end CraftDsl
