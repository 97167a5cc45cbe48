import CraftDsl.Proofs.Enclosure.Steps
import CraftDsl.Proofs.Guard

/-!
More tokens after the last one. What a production does is settled by the tokens up to the next one it
leaves, so tokens after those change nothing; within a block the same is settled by the tokens up to
the one after the closing brace. Main statement: `run_extend`.
-/
namespace CraftDsl

/-- What is left ahead settles what was looked at before: a token that is not trivia, and within a
block its closing brace before that token. -/
def Reserve : Bool → List Token → Prop
  | false, tokens => ∃ token ∈ tokens, token.isTrivia = false
  | true, tokens => ∃ before close after, tokens = before ++ close :: after ∧
      close.kind = .braceClose ∧ ∃ token ∈ after, token.isTrivia = false

namespace Reserve

variable {inside : Bool} {tokens : List Token}

theorem before (taken : List Token) (reserve : Reserve inside tokens) :
    Reserve inside (taken ++ tokens) := by
  cases inside with
  | false =>
    obtain ⟨token, member, solid⟩ := reserve
    exact ⟨token, List.mem_append_right _ member, solid⟩
  | true =>
    obtain ⟨before, close, after, rfl, brace, more⟩ := reserve
    exact ⟨taken ++ before, close, after, by simp, brace, more⟩

theorem ongoing (reserve : Reserve inside tokens) : Reserve false tokens := by
  cases inside with
  | false => exact reserve
  | true =>
    obtain ⟨before, close, after, rfl, -, token, member, solid⟩ := reserve
    exact ⟨token, by simp [member], solid⟩

end Reserve

def solidCount (tokens : List Token) : Nat := tokens.countP fun token => !token.isTrivia

theorem kindIn_append {n : Nat} {tokens : List Token} (more : List Token)
    (enough : n < solidCount tokens) : kindIn n (tokens ++ more) = kindIn n tokens := by
  induction tokens generalizing n with
  | nil => cases enough
  | cons token tokens ih =>
    unfold kindIn
    by_cases trivia : token.isTrivia = true
    · rw [solidCount, List.countP_cons_of_neg (by simp [trivia])] at enough
      rw [if_pos trivia, List.cons_append]
      simp only [trivia, if_true]
      exact ih enough
    · rw [solidCount, List.countP_cons_of_pos (by simp [trivia])] at enough
      cases n with
      | zero => simp [trivia]
      | succ n =>
        simp only [List.cons_append, trivia]
        exact ih (Nat.lt_of_succ_lt_succ enough)

theorem solidCount_pos {tokens : List Token} : 0 < solidCount tokens ↔ Reserve false tokens := by
  rw [solidCount, List.countP_pos_iff]
  simp [Reserve]

/-- The token that as many come before as the number says. -/
theorem kindIn_solidCount (before after : List Token) {token : Token}
    (solid : token.isTrivia = false) :
    kindIn (solidCount before) (before ++ token :: after) = token.kind := by
  induction before with
  | nil =>
    show kindIn 0 (token :: after) = token.kind
    rw [kindIn, solid]
    rfl
  | cons first before ih =>
    by_cases trivia : first.isTrivia = true
    · have count : solidCount (first :: before) = solidCount before :=
        List.countP_cons_of_neg (by simp [trivia])
      rw [count, ← ih]
      exact kindIn_append_trivia _ [first] _ (by simp [trivia])
    · have count : solidCount (first :: before) = solidCount before + 1 :=
        List.countP_cons_of_pos (by simp [trivia])
      rw [count, ← ih, List.cons_append, kindIn, if_neg trivia]

/-- As many tokens are left as a production looks at. -/
theorem Reserve.enough {inside : Bool} {tokens : List Token} (reserve : Reserve inside tokens)
    (rest : List Token) {n : Nat}
    (near : n = 0 ∨ inside = true ∧ ∀ m < n - 1, kindIn m (tokens ++ rest) ≠ .braceClose) :
    n < solidCount tokens := by
  rcases near with rfl | ⟨rfl, near⟩
  · exact solidCount_pos.mpr reserve.ongoing
  · obtain ⟨before, close, after, rfl, brace, more⟩ := reserve
    have solid : close.isTrivia = false := by rw [Token.isTrivia, brace]; rfl
    have later := solidCount_pos.mpr more
    have count : solidCount (before ++ close :: after) = solidCount before + (solidCount after + 1) := by
      rw [solidCount, List.countP_append, List.countP_cons_of_pos (by simp [solid])]
      rfl
    have found := kindIn_solidCount before (after ++ rest) solid
    rw [List.append_assoc, List.cons_append] at near
    have seen : ¬ solidCount before < n - 1 := fun less => near _ less (found.trans brace)
    omega

/-- A stretch that stops at a token stops there whatever comes later. -/
theorem stretch_append (depth : Nat) (first : Bool) (more tokens : List Token)
    (stops : Reserve false (tokens.drop (stretch depth first 0 tokens))) :
    stretch depth first 0 (tokens ++ more) = stretch depth first 0 tokens := by
  induction depth, first, tokens using stretch_induction with
  | ended depth first blanks trivia =>
    obtain ⟨token, member, solid⟩ := stops
    exact Bool.noConfusion ((trivia token (List.mem_of_mem_drop member)).symm.trans solid)
  | halts depth first blanks token tokens trivia solid halted =>
    rw [List.append_assoc, List.cons_append, stretch_halts depth first _ trivia solid halted,
      stretch_halts depth first _ trivia solid halted]
  | goes_on depth first blanks token tokens trivia solid passes ih =>
    rw [stretch_goes_on depth first tokens trivia solid passes, List.drop_length_add_append,
      List.drop_succ_cons] at stops
    rw [List.append_assoc, List.cons_append, stretch_goes_on depth first _ trivia solid passes,
      stretch_goes_on depth first tokens trivia solid passes, ih stops]

namespace Cursor

def extend (c : Cursor) (more : List Token) : Cursor := { c with ahead := c.ahead ++ more }

variable {c : Cursor} (more : List Token)

theorem due_of_ongoing (ongoing : Reserve false c.ahead) :
    ∃ token tokens, c.due = token :: tokens := by
  apply List.exists_cons_of_ne_nil
  intro none
  obtain ⟨token, member, solid⟩ := ongoing
  rw [c.ahead_eq, none, List.append_nil] at member
  exact Bool.noConfusion ((c.pending_trivia token member).symm.trans solid)

theorem extend_due {token : Token} {tokens : List Token} (due : c.due = token :: tokens) :
    (c.extend more).pending = c.pending ∧ (c.extend more).due = token :: (tokens ++ more) := by
  apply due_of_ahead c.pending_trivia (c.due_cons due).1
  rw [extend, c.ahead_eq, due]
  simp

end Cursor

def Outcome.extend (o : Outcome) (more : List Token) : Outcome :=
  { o with cursor := o.cursor.extend more }

theorem Outcome.andThen_extend {o p : Outcome} {next next' : Bool → Cursor → Outcome}
    {more : List Token} (first : p = o.extend more)
    (second : next' o.answer (o.cursor.extend more) =
      (next o.answer o.cursor).extend more) : p.andThen next' = (o.andThen next).extend more := by
  subst first
  simp only [andThen, extend] at second ⊢
  rw [second]

namespace Cursor

variable {c : Cursor} (more : List Token)

theorem look_extend {n : Nat} (among : KindSet) (enough : n < solidCount c.ahead) :
    (c.extend more).look n among = (c.look n among).extend more := by
  have same : (c.extend more).kindAhead n = c.kindAhead n := kindIn_append more enough
  simp only [look, same]
  rfl

theorem take_extend (among : KindSet) (retag : Option TokenKind) {token : Token}
    {tokens : List Token} (due : c.due = token :: tokens) :
    (c.extend more).take among retag = (c.take among retag).extend more := by
  obtain ⟨pending, later⟩ := c.extend_due more due
  rw [take_eq _ among retag later, take_eq _ among retag due, pending]
  rfl

section

variable (ongoing : Reserve false c.ahead)

include ongoing

theorem settle_extend : (c.extend more).settle = c.settle.extend more := by
  obtain ⟨token, tokens, due⟩ := due_of_ongoing ongoing
  obtain ⟨pending, later⟩ := c.extend_due more due
  rw [settle_eq, settle_eq, pending, later, due]
  rfl

theorem gap_extend : (c.extend more).gap = c.gap.extend more :=
  Outcome.andThen_extend (c.settle_extend more ongoing) rfl

theorem spanAhead_extend : (c.extend more).spanAhead = c.spanAhead := by
  obtain ⟨token, tokens, due⟩ := due_of_ongoing ongoing
  obtain ⟨pending, later⟩ := c.extend_due more due
  rw [spanAhead, spanAhead, pending, later, due]
  rfl

theorem report_extend (diagnostic : Span → Diagnostic) :
    (c.extend more).report diagnostic = (c.report diagnostic).extend more := by
  have reported : (c.extend more).reported = c.reported := rfl
  simp only [report, spanAhead_extend more ongoing, reported]
  split <;> rfl

theorem trace_extend : (c.extend more).trace = c.trace.extend more :=
  c.look_extend more .empty (solidCount_pos.mpr ongoing)

theorem missing_extend (kind : DiagnosticKind) (message : String) :
    (c.extend more).missing kind message = (c.missing kind message).extend more := by
  apply Outcome.andThen_extend (trace_extend more ongoing)
  have traced : Reserve false c.trace.cursor.ahead := ongoing
  apply Outcome.andThen_extend (report_extend more traced _)
  apply gap_extend
  rw [report_ahead]
  exact traced

theorem discard_extend (stops : Reserve false c.discard.cursor.ahead) :
    (c.extend more).discard = c.discard.extend more := by
  obtain ⟨token, tokens, due⟩ := due_of_ongoing ongoing
  obtain ⟨pending, later⟩ := c.extend_due more due
  rw [← List.cons_append, ← due] at later
  rw [discard_eq] at stops
  have count : stretch 0 true 0 (c.due ++ more) = stretch 0 true 0 c.due :=
    stretch_append 0 true more c.due stops
  have room : stretch 0 true 0 c.due ≤ c.due.length := by
    by_contra past
    obtain ⟨token, member, -⟩ := stops
    rw [List.drop_eq_nil_of_le (Nat.le_of_not_le past)] at member
    cases member
  rw [discard_eq, discard_eq, later, count, pending, List.take_append_of_le_length room,
    List.drop_append_of_le_length room]
  rfl

theorem skip_extend (complaint : Complaint)
    (stops : Reserve false (c.skip complaint).cursor.ahead) :
    (c.extend more).skip complaint = (c.skip complaint).extend more := by
  obtain ⟨token, tokens, due⟩ := due_of_ongoing ongoing
  obtain ⟨-, later⟩ := c.extend_due more due
  have looked := c.look_extend more (.single TokenKind.endOfInput) (solidCount_pos.mpr ongoing)
  unfold skip at stops ⊢
  rw [looked]
  apply Outcome.andThen_extend rfl
  have same : (c.look 0 (.single TokenKind.endOfInput)).cursor.ahead = c.ahead := rfl
  have text : (((c.look 0 (.single TokenKind.endOfInput)).cursor.extend more).due.take 1).flatMap
      Token.text = ((c.look 0 (.single TokenKind.endOfInput)).cursor.due.take 1).flatMap
        Token.text := by
    show ((c.extend more).due.take 1).flatMap Token.text = (c.due.take 1).flatMap Token.text
    rw [later, due]
    rfl
  rw [← same] at ongoing
  rw [text]
  simp only [Outcome.andThen] at stops
  split
  · rfl
  · rename_i more_ahead
    rw [if_neg more_ahead] at stops
    have traced : Reserve false
        (c.look 0 (.single TokenKind.endOfInput)).cursor.trace.cursor.ahead := ongoing
    exact Outcome.andThen_extend (trace_extend more ongoing)
      (Outcome.andThen_extend (report_extend more traced _)
        (discard_extend more (by rwa [report_ahead]) stops))

end

/-- A block that tokens are left after ended at its brace. -/
theorem closeBlock_extend (solid : ∀ token ∈ c.ahead, token.kind ≠ .endOfInput) (what : String)
    (brace : Span) (clear : (c.closeBlock what brace).faults = [])
    (ongoing : Reserve false (c.closeBlock what brace).cursor.ahead) :
    Reserve true c.ahead ∧
      (c.extend more).closeBlock what brace = (c.closeBlock what brace).extend more := by
  unfold closeBlock at clear ongoing ⊢
  by_cases closing : c.kindAhead 0 = .braceClose
  · obtain ⟨token, tokens, due, -, kind, -⟩ := c.due_of_kindAhead (by rw [closing]; simp)
    rw [if_pos closing, c.take_eq _ _ due] at ongoing
    have reserve : Reserve true c.ahead := by
      rw [c.ahead_eq, due]
      exact ⟨c.pending, token, tokens, rfl, kind.symm.trans closing, ongoing⟩
    have same : (c.extend more).kindAhead 0 = c.kindAhead 0 :=
      kindIn_append more (solidCount_pos.mpr reserve.ongoing)
    rw [same, if_pos closing, if_pos closing]
    exact ⟨reserve, c.take_extend more _ _ due⟩
  · rw [if_neg closing] at clear ongoing
    have at_end : c.kindAhead 0 = .endOfInput := by
      simpa [Outcome.check] using (Outcome.andThen_clear clear).1
    obtain ⟨token, member, -⟩ := ongoing
    rw [(unclosed_eq c what brace).2, c.due_of_over solid at_end] at member
    cases member

end Cursor

theorem Spent.reserve {c : Cursor} {o : Outcome} {inside : Bool} (spent : Spent c o)
    (reserve : Reserve inside o.cursor.ahead) : Reserve inside c.ahead := by
  obtain ⟨taken, spends⟩ := spent
  rw [spends.ahead]
  exact reserve.before taken

namespace Production

def Extensive (x : Production) : Prop :=
  ∀ (inside : Bool) ⦃c : Cursor⦄ (more : List Token),
    (∀ token ∈ c.ahead, token.kind ≠ .endOfInput) → ((x.guard inside).run c).faults = [] →
      Reserve inside ((x.guard inside).run c).cursor.ahead →
        (x.guard inside).run (c.extend more) = ((x.guard inside).run c).extend more

theorem extensive_seq {first second : Production} (one : first.Extensive)
    (two : second.Extensive) : (seq first second).Extensive := by
  intro inside c more solid clear reserve
  obtain ⟨started, rest⟩ := Outcome.andThen_clear clear
  have spent := (first.guard inside).run_spent c
  have between := ((second.guard inside).run_spent _).reserve reserve
  apply Outcome.andThen_extend (one inside more solid started between)
  exact two inside more (fun t member => solid t (spent.subset member)) rest reserve

theorem extensive_branch {question yes no : Production} (asking : question.Extensive)
    (affirming : yes.Extensive) (denying : no.Extensive) :
    (branch question yes no).Extensive := by
  intro inside c more solid clear reserve
  obtain ⟨asked, rest⟩ := Outcome.andThen_clear clear
  have spent := (question.guard inside).run_spent c
  have onward := fun t member => solid t (spent.subset member)
  by_cases answer : ((question.guard inside).run c).answer = true
  · have after : Reserve inside ((yes.guard inside).run
        ((question.guard inside).run c).cursor).cursor.ahead := by
      simpa only [guard, run, Outcome.andThen, if_pos answer] using reserve
    rw [if_pos answer] at rest
    have between := ((yes.guard inside).run_spent _).reserve after
    apply Outcome.andThen_extend (asking inside more solid asked between)
    rw [if_pos answer, if_pos answer]
    exact affirming inside more onward rest after
  · have after : Reserve inside ((no.guard inside).run
        ((question.guard inside).run c).cursor).cursor.ahead := by
      simpa only [guard, run, Outcome.andThen, if_neg answer] using reserve
    rw [if_neg answer] at rest
    have between := ((no.guard inside).run_spent _).reserve after
    apply Outcome.andThen_extend (asking inside more solid asked between)
    rw [if_neg answer, if_neg answer]
    exact denying inside more onward rest after

theorem extensive_answer (value : Bool) : (answer value).Extensive := fun _ _ _ _ _ _ => rfl

/-- Rounds go on as before where more tokens come later, and there may be more of them. -/
theorem rounds_extend {round : Cursor → Outcome} {inside : Bool} {more : List Token}
    (spent : ∀ c, Spent c (round c))
    (inner : ∀ ⦃c : Cursor⦄, (∀ token ∈ c.ahead, token.kind ≠ .endOfInput) →
      (round c).faults = [] → Reserve inside (round c).cursor.ahead →
        round (c.extend more) = (round c).extend more) (limit limit' : List Token)
    (room : limit.length ≤ limit'.length)
    {c : Cursor} (solid : ∀ token ∈ c.ahead, token.kind ≠ .endOfInput)
    (clear : (rounds round limit c).faults = [])
    (reserve : Reserve inside (rounds round limit c).cursor.ahead) :
    rounds round limit' (c.extend more) = (rounds round limit c).extend more := by
  induction limit generalizing limit' c with
  | nil =>
    have last := rounds_stalled clear
    have first := inner solid (rounds_clear clear) reserve
    cases limit' with
    | nil => exact Outcome.andThen_extend first rfl
    | cons token limit' =>
      apply Outcome.andThen_extend first
      rw [last]
      rfl
  | cons token limit ih =>
    obtain ⟨next, limit', rfl⟩ := List.exists_cons_of_length_pos (Nat.lt_of_lt_of_le (by simp) room)
    obtain ⟨one, rest⟩ := Outcome.andThen_clear clear
    by_cases again : (round c).answer = true
    · have after : Reserve inside (rounds round limit (round c).cursor).cursor.ahead := by
        simpa only [rounds, Outcome.andThen, if_pos again] using reserve
      rw [if_pos again] at rest
      have between := (rounds_spent spent limit _).reserve after
      apply Outcome.andThen_extend (inner solid one between)
      rw [if_pos again, if_pos again]
      exact ih limit' (Nat.le_of_succ_le_succ room)
        (fun t member => solid t ((spent c).subset member)) rest after
    · have after : Reserve inside (round c).cursor.ahead := by
        simpa only [rounds, Outcome.andThen, if_neg again, Outcome.quiet] using reserve
      apply Outcome.andThen_extend (inner solid one after)
      rw [if_neg again, if_neg again]
      rfl

theorem away_extend (kind : TokenKind) {n : Nat} {x : Production} {c : Cursor} {more : List Token}
    (enough : n < solidCount c.ahead) (plain : x.run (c.extend more) = (x.run c).extend more) :
    (away n kind x).run (c.extend more) = ((away n kind x).run c).extend more := by
  have same : (c.extend more).kindAhead n = c.kindAhead n := kindIn_append more enough
  apply Outcome.andThen_extend
  · rw [run, run, same]
    rfl
  · split
    · rfl
    · exact plain

theorem clearOf_extend (kind : TokenKind) {n : Nat} {x : Production} {c : Cursor} {more : List Token}
    (enough : n ≤ solidCount c.ahead) (plain : x.run (c.extend more) = (x.run c).extend more) :
    (clearOf kind n x).run (c.extend more) = ((clearOf kind n x).run c).extend more := by
  induction n generalizing x with
  | zero => exact plain
  | succ n ih => exact ih (Nat.le_of_succ_le enough) (away_extend kind enough plain)

theorem sight_extend {inside : Bool} {x : Production} {n : Nat} {c : Cursor} {more : List Token}
    (clear : ((sight inside n (n - 1) x).run c).faults = []) (reserve : Reserve inside c.ahead)
    (plain : n < solidCount c.ahead → x.run (c.extend more) = (x.run c).extend more) :
    (sight inside n (n - 1) x).run (c.extend more) =
      ((sight inside n (n - 1) x).run c).extend more := by
  have seen := (sight_run clear).2
  have enough : n < solidCount c.ahead := reserve.enough [] (by rwa [List.append_nil])
  unfold sight
  split_ifs
  · exact plain enough
  · exact clearOf_extend .braceClose (by omega) (plain enough)
  · rfl

theorem extensive_wrap (affirmed denied : NodeKind) {first question rest : Production}
    (inner : (wrapped first question rest).Extensive) :
    (wrap affirmed denied first question rest).Extensive := by
  intro inside c more solid clear reserve
  have same : (wrapped (first.guard inside) (question.guard inside) (rest.guard inside)).run
      (c.extend more) = ((wrapped (first.guard inside) (question.guard inside)
        (rest.guard inside)).run c).extend more := inner inside more solid clear reserve
  have whole : (wrap affirmed denied first question rest).guard inside =
      wrap affirmed denied (first.guard inside) (question.guard inside) (rest.guard inside) := rfl
  rw [whole, run_wrap, run_wrap, same]
  rfl

theorem extensive_block (what : String) {body : Production} (inner : body.Extensive) :
    (block what body).Extensive := by
  intro inside c more solid clear reserve
  obtain ⟨begun, filled, closed⟩ := Cursor.block_clear clear
  obtain ⟨token, tokens, due⟩ := Cursor.due_of_take begun
  have before := (((block what body).guard inside).run_spent c).reserve reserve
  have start := c.take_extend more (.single TokenKind.braceOpen) none due
  have place : (c.extend more).spanAhead = c.spanAhead :=
    c.spanAhead_extend more before.ongoing
  have within := fun t member =>
    solid t ((c.take_own_spent (.single TokenKind.braceOpen)).subset member)
  have at_end := fun t member => within t (((body.guard true).run_spent _).subset member)
  obtain ⟨in_body, ended⟩ :=
    Cursor.closeBlock_extend more at_end what c.spanAhead closed reserve.ongoing
  show (c.extend more).block what (body.guard true).run =
    (c.block what (body.guard true).run).extend more
  rw [Cursor.block, place]
  apply Outcome.andThen_extend start
  apply Outcome.andThen_extend (inner true more within filled in_body)
  exact ended

theorem run_extend (x : Production) : x.Extensive := by
  induction x using wrapped_induction with
  | answer value => exact extensive_answer value
  | look n among =>
    intro inside c more solid clear reserve
    have before := ((sight inside n (n - 1) (look n among)).run_spent c).reserve reserve
    exact sight_extend clear before (c.look_extend more among)
  | glance n among =>
    intro inside c more solid clear reserve
    have before := ((sight inside n (n - 1) (glance n among)).run_spent c).reserve reserve
    apply sight_extend clear before
    intro enough
    have same : (c.extend more).kindAhead n = c.kindAhead n := kindIn_append more enough
    rw [run, run, same]
    rfl
  | demand among =>
    intro inside c more solid clear reserve
    apply Outcome.andThen_extend (c.look_extend more among (solidCount_pos.mpr reserve.ongoing)) rfl
  | impossible => exact fun _ _ _ _ _ _ => rfl
  | take among =>
    intro inside c more solid clear reserve
    obtain ⟨token, tokens, due⟩ := Cursor.due_of_take clear
    exact c.take_extend more among none due
  | name =>
    intro inside c more solid clear reserve
    obtain ⟨token, tokens, due⟩ := Cursor.due_of_take clear
    exact c.take_extend more .words (some .identifier) due
  | pass => exact fun _ _ _ _ _ _ => rfl
  | settle =>
    intro inside c more solid clear reserve
    exact c.settle_extend more (((Production.settle).run_spent c).reserve reserve).ongoing
  | within kind body ih =>
    intro inside c more solid clear reserve
    rw [guard, run, ih inside more solid clear reserve]
    rfl
  | into kind => exact fun _ _ _ _ _ _ => rfl
  | count opened => exact fun _ _ _ _ _ _ => rfl
  | scope body ih =>
    intro inside c more solid clear reserve
    rw [guard, run, ih inside more solid clear reserve]
    rfl
  | wrap yes no first question rest ih => exact extensive_wrap yes no ih
  | seq first second first_ih second_ih => exact extensive_seq first_ih second_ih
  | branch question yes no question_ih yes_ih no_ih =>
    exact extensive_branch question_ih yes_ih no_ih
  | loop body ih =>
    intro inside c more solid clear reserve
    apply rounds_extend (body.guard inside).run_spent (fun d => ih inside more) c.ahead _ _ solid
      clear reserve
    simp [Cursor.extend]
  | missing kind message =>
    intro inside c more solid clear reserve
    exact c.missing_extend more ((c.missing_spent kind message).reserve reserve).ongoing kind message
  | skip complaint =>
    intro inside c more solid clear reserve
    have before := (((skip complaint).guard inside).run_spent c).reserve reserve
    apply away_extend (halt inside) (solidCount_pos.mpr before.ongoing)
    apply c.skip_extend more before.ongoing complaint
    rw [guard, (away_run clear).2] at reserve
    exact reserve.ongoing
  | block what body ih => exact extensive_block what ih

end Production

end CraftDsl
