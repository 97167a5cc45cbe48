import CraftDsl.Proofs.SharedLines.Lag

/-!
Sources that part further on. A production that leaves tokens before the place where two sources part
looks no further than these, so it does the same in both; within a block it leaves the closing brace and
a token after that. Main statement: `distant_run`.
-/
namespace CraftDsl

def forked (first second : List Token) : Pace where
  near c d := ∃ before, solids c.ahead = before ++ first ∧ solids d.ahead = before ++ second
  known := Outcome.Clean
  parts := Outcome.Clean.andThen
  inside := Outcome.Clean.wrapped
  before := Outcome.Clean.closed

def Distant (first second : List Token) (inside : Bool) (c : Cursor) : Prop :=
  ∃ before, solids c.ahead = before ++ first ∧ (second = first ∨ Reserve inside before)

section

variable {first second : List Token} {inside : Bool} {c d : Cursor} {o : Outcome}

namespace Distant

theorem back (distant : Distant first second inside o.cursor) (spent : Spent c o) :
    Distant first second inside c := by
  obtain ⟨taken, spends⟩ := spent
  obtain ⟨before, ahead, far⟩ := distant
  refine ⟨solids taken ++ before, ?_, far.imp_right (Reserve.before _)⟩
  rw [spends.ahead, solids_append, ahead, List.append_assoc]

theorem shared (distant : Distant first second inside c) (near : (forked first second).near c d) :
    ∃ before, solids c.ahead = before ++ first ∧ solids d.ahead = before ++ second ∧
      (second = first ∨ Reserve inside before) := by
  obtain ⟨before, ahead, far⟩ := distant
  obtain ⟨before', here, there⟩ := near
  obtain rfl : before = before' := List.append_cancel_right (ahead.symm.trans here)
  exact ⟨before, here, there, far⟩

theorem kindAhead (distant : Distant first second inside c) (near : (forked first second).near c d)
    {n : Nat} (seen : n = 0 ∨ inside = true ∧ ∀ m < n - 1, c.kindAhead m ≠ .braceClose) :
    d.kindAhead n = c.kindAhead n := by
  obtain ⟨before, here, there, rfl | far⟩ := distant.shared near
  · rw [d.kindAhead_solids, there, c.kindAhead_solids, here]
  · have solid : solids before = before := by
      refine List.filter_eq_self.mpr fun token member => ?_
      have among : token ∈ solids c.ahead := here ▸ List.mem_append_left _ member
      exact (List.mem_filter.mp among).2
    have kinds (n : Nat) (more : List Token) (enough : n < solidCount before) :
        ((before ++ more).map Token.kind)[n]?.getD .endOfInput = kindIn n before := by
      rw [kindIn_solids, solid, List.map_append, List.getElem?_append_left]
      rwa [List.length_map, ← solid, solids, ← List.countP_eq_length_filter]
    have ahead_kind (m : Nat) : c.kindAhead m = kindIn m (before ++ first) := by
      rw [c.kindAhead_solids, kindIn_solids, ← here, solids, solids, List.filter_filter]
      simp only [Bool.and_self]
    simp only [ahead_kind] at seen
    have enough : n < solidCount before := far.enough first seen
    rw [d.kindAhead_solids, there, c.kindAhead_solids, here, kinds n second enough,
      kinds n first enough]

end Distant

theorem distant_take {among : KindSet} {retag : Option TokenKind} {idle : Bool}
    (near : (forked first second).near c d) (clear : (c.take among retag).faults = [])
    (distant : Distant first second inside (c.take among retag).cursor) :
    (forked first second).Matches idle (c.take among retag) (d.take among retag) := by
  obtain ⟨token, tokens, due⟩ := Cursor.due_of_take clear
  obtain ⟨before, here, there⟩ := near
  rw [c.take_eq among retag due] at distant ⊢
  obtain ⟨left, rest, -⟩ := distant
  have split : before ++ first = (token :: left) ++ first := by
    rw [← here, Cursor.solids_of_due due]
    exact congrArg (List.cons token) rest
  rw [List.append_cancel_right split] at there
  obtain ⟨tokens', due', rest'⟩ := Cursor.due_of_solids there
  rw [d.take_eq among retag due']
  refine ⟨.inr rfl, ?_, left, rest, rest'⟩
  simp only [corePieces_append, corePieces_pending]

theorem forked_still {o p : Outcome} (near : (forked first second).near c d)
    (still : o.pieces = [] ∧ o.cursor.ahead = c.ahead)
    (still' : p.pieces = [] ∧ p.cursor.ahead = d.ahead) (answer : p.answer = o.answer) :
    (forked first second).Matches false o p := by
  obtain ⟨before, ahead, ahead'⟩ := near
  exact ⟨.inr answer, by rw [still.1, still'.1], before, still.2 ▸ ahead, still'.2 ▸ ahead'⟩

namespace Production

def Unseen (first second : List Token) (inside : Bool) (x : Production) : Prop :=
  ∀ ⦃c d : Cursor⦄, (forked first second).near c d → (x.run c).faults = [] → (x.run d).faults = [] →
    (x.run c).Clean → Distant first second inside (x.run c).cursor →
      (forked first second).Matches false (x.run c) (x.run d)

section

variable {one two question yes no body : Production}

theorem unseen_seq (starts : one.Unseen first second inside)
    (goes_on : two.Unseen first second inside) : (seq one two).Unseen first second inside := by
  intro c d near clear clear' clean distant
  obtain ⟨started, rest⟩ := Outcome.andThen_clear clear
  obtain ⟨started', rest'⟩ := Outcome.andThen_clear clear'
  obtain ⟨clean_first, clean_rest⟩ := clean.andThen
  have between : Distant first second inside (one.run c).cursor :=
    Distant.back (o := two.run (one.run c).cursor) distant (two.run_spent _)
  have start := starts near started started' clean_first between
  exact (start.idly true).andThen (goes_on start.cursor rest rest' clean_rest distant)

theorem unseen_branch (asking : question.Unseen first second inside)
    (affirming : yes.Unseen first second inside) (denying : no.Unseen first second inside) :
    (branch question yes no).Unseen first second inside := by
  intro c d near clear clear' clean distant
  obtain ⟨asked, rest⟩ := Outcome.andThen_clear clear
  obtain ⟨asked', rest'⟩ := Outcome.andThen_clear clear'
  obtain ⟨clean_first, clean_rest⟩ := clean.andThen
  have onward (x : Production) (further : Distant first second inside
      (x.run (question.run c).cursor).cursor) :
      (forked first second).Matches false (question.run c) (question.run d) :=
    asking near asked asked' clean_first (further.back (x.run_spent _))
  simp only [run, Outcome.andThen] at distant
  by_cases answer : (question.run c).answer = true
  · rw [if_pos answer] at rest clean_rest distant
    have start := onward yes distant
    have answer' := (start.answer.resolve_left Bool.false_ne_true).trans answer
    rw [if_pos answer'] at rest'
    rw [run_yes answer, run_yes answer']
    exact start.andThen (affirming start.cursor rest rest' clean_rest distant)
  · rw [if_neg answer] at rest clean_rest distant
    have start := onward no distant
    have answer' : ¬ (question.run d).answer = true := by
      rwa [start.answer.resolve_left Bool.false_ne_true]
    rw [if_neg answer'] at rest'
    rw [run_no answer, run_no answer']
    exact start.andThen (denying start.cursor rest rest' clean_rest distant)

theorem unseen_wrap (inner : (wrapped one question two).Unseen first second inside)
    (kind other : NodeKind) : (wrap kind other one question two).Unseen first second inside := by
  intro c d near clear clear' clean distant
  rw [run_wrap] at clear clear' clean distant ⊢
  have whole := inner near clear clear' clean.wrapped distant
  rw [run_wrap, whole.answer.resolve_left Bool.false_ne_true]
  exact whole.wrapped _

theorem unseen_loop (round : body.Unseen first second inside) :
    (loop body).Unseen first second inside := by
  intro c d near clear clear' clean distant
  refine rounds_onward (P := forked first second) (Distant first second inside) ?_ c.ahead
    d.ahead near clear clear' clean distant
  intro c d limit limit' near clear clear' clean distant
  refine .inl (round near (rounds_clear clear) (rounds_clear clear')
    (rounds_known (P := forked first second) clean) ?_)
  rw [rounds_eq clear] at distant
  refine Distant.back (o := if (body.run c).answer = true then
    rounds body.run limit.tail (body.run c).cursor else .quiet true (body.run c).cursor) distant ?_
  split
  · exact rounds_spent body.run_spent _ _
  · exact Cursor.quiet_spent _ _

theorem distant_closing (closing : c.kindAhead 0 = .braceClose)
    (distant : Distant first second inside (c.take (.single TokenKind.braceClose) none).cursor) :
    Distant first second true c := by
  obtain ⟨close, tokens, due, -, kind, -⟩ :=
    c.due_of_kindAhead (by rw [closing]; exact TokenKind.noConfusion)
  rw [c.take_eq _ none due] at distant
  obtain ⟨left, rest, far⟩ := distant
  refine ⟨close :: left, ?_, far.imp_right fun reserve => ?_⟩
  · rw [Cursor.solids_of_due due]
    exact congrArg (List.cons close) rest
  · exact ⟨[], close, left, rfl, kind.symm.trans closing, reserve.ongoing⟩

theorem unseen_block (inner : body.Unseen first second true) (what : String) :
    (block what body).Unseen first second inside := by
  intro c d near clear clear' clean distant
  obtain ⟨opened, filled, closed⟩ := Cursor.block_clear clear
  obtain ⟨opened', filled', closed'⟩ := Cursor.block_clear clear'
  have whole : ((c.take (.single TokenKind.braceOpen) none).andThen fun _ inner =>
      (body.run inner).andThen fun _ after => after.closeBlock what c.spanAhead).Clean := clean
  obtain ⟨clean_open, clean_rest⟩ := whole.andThen
  obtain ⟨clean_body, clean_close⟩ := clean_rest.andThen
  obtain ⟨closing, taken⟩ := Cursor.closeBlock_clean clean_close
  have last : Distant first second inside
      ((body.run (c.take (.single TokenKind.braceOpen) none).cursor).cursor.take
        (.single TokenKind.braceClose) none).cursor := taken ▸ distant
  have before := distant_closing closing last
  have opening : (forked first second).Matches true (c.take _ none) (d.take _ none) :=
    distant_take near opened (before.back (body.run_spent _))
  have middle := inner opening.cursor filled filled' clean_body before
  have closing' := (before.kindAhead middle.cursor (.inl rfl)).trans closing
  have taken' : (body.run (d.take (.single TokenKind.braceOpen) none).cursor).cursor.closeBlock what
      d.spanAhead = _ := if_pos closing'
  rw [run, run, Cursor.block, Cursor.block]
  apply opening.andThen
  apply middle.andThen
  rw [taken] at closed ⊢
  rw [taken']
  exact distant_take middle.cursor closed last

theorem unseen_sight {x : Production} {n : Nat}
    (still : ∀ c : Cursor, (x.run c).pieces = [] ∧ (x.run c).cursor.ahead = c.ahead)
    (answers : ∀ {c d : Cursor}, d.kindAhead n = c.kindAhead n →
      (x.run d).answer = (x.run c).answer) : (sight inside n (n - 1) x).Unseen first second inside := by
  intro c d near clear clear' _ distant
  obtain ⟨same, seen⟩ := sight_run clear
  rw [same] at distant ⊢
  rw [(sight_run clear').1]
  have here : Distant first second inside c := distant.back (x.run_spent c)
  exact forked_still near (still c) (still d) (answers (here.kindAhead near seen))

theorem unseen_skip (complaint : Complaint) :
    (away 0 (halt inside) (skip complaint)).Unseen first second inside := by
  intro c d near clear clear' clean distant
  obtain ⟨-, same⟩ := away_run clear
  rw [same] at clean distant ⊢
  rw [(away_run clear').2]
  have last : c.kindAhead 0 = .endOfInput := by
    by_contra going
    exact Cursor.skip_unclean complaint going clean
  have here : Distant first second inside c := distant.back ((skip complaint).run_spent c)
  exact forked_still near (c.skip_over complaint last)
    (d.skip_over complaint ((here.kindAhead near (.inl rfl)).trans last))
    ((d.skip_answer complaint).trans (c.skip_answer complaint).symm)

theorem distant_run (x : Production) (inside : Bool) :
    (x.guard inside).Unseen first second inside := by
  induction x using wrapped_induction generalizing inside with
  | answer value => exact fun _ _ near _ _ _ _ => Pace.quiet near value
  | look n among =>
    exact unseen_sight (fun _ => ⟨rfl, rfl⟩) fun same => congrArg (among.has <| .token ·) same
  | glance n among =>
    exact unseen_sight (fun _ => ⟨rfl, rfl⟩) fun same => congrArg (among.has <| .token ·) same
  | demand among => exact fun _ _ near _ _ _ _ => forked_still near ⟨rfl, rfl⟩ ⟨rfl, rfl⟩ rfl
  | impossible => exact fun _ _ _ clear _ _ _ => absurd clear (List.cons_ne_nil _ _)
  | take among => exact fun _ _ near clear _ _ distant => distant_take near clear distant
  | name => exact fun _ _ near clear _ _ distant => distant_take near clear distant
  | pass => exact fun _ _ near _ _ _ _ => Pace.quiet near true
  | settle =>
    intro c d near _ _ _ _
    show (forked first second).Matches false c.settle d.settle
    obtain ⟨before, ahead, ahead'⟩ := near
    rw [c.settle_eq, d.settle_eq]
    rw [← c.solids_due] at ahead
    rw [← d.solids_due] at ahead'
    exact ⟨.inr rfl, by rw [corePieces_pending, corePieces_pending], before, ahead, ahead'⟩
  | within kind body ih =>
    exact fun _ _ near clear clear' clean distant =>
      (ih inside near clear clear' clean.wrapped distant).wrapped kind
  | into kind => exact fun _ _ near _ _ _ _ => ⟨.inr rfl, rfl, near⟩
  | count opened => exact fun _ _ near _ _ _ _ => Pace.quiet near true
  | scope body ih =>
    exact fun _ _ near clear clear' clean distant =>
      (ih inside near clear clear' clean.closed distant).closed
  | wrap yes no one question two ih => exact unseen_wrap (ih inside) yes no
  | seq one two one_ih two_ih => exact unseen_seq (one_ih inside) (two_ih inside)
  | branch question yes no question_ih yes_ih no_ih =>
    exact unseen_branch (question_ih inside) (yes_ih inside) (no_ih inside)
  | loop body ih => exact unseen_loop (ih inside)
  | missing kind message =>
    exact fun _ _ _ _ _ clean _ => absurd clean (Cursor.missing_unclean kind message)
  | skip complaint => exact unseen_skip complaint
  | block what body ih => exact unseen_block (ih true) what

end

end Production

end

end CraftDsl
