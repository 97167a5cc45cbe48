import CraftDsl.Proofs.Foreseen

/-!
What foresight says of single steps comes true: of looks, of tokens taken, and of error nodes.
-/
namespace CraftDsl

namespace Monitor

variable {M : Monitor} {s t : Outlook} {bound : Nat} {c : Cursor} {inside : Bool}

theorem foreseen_quiet (holds : s.Holds bound c) (answer : Bool) :
    M.Foreseen s bound (.only answer [s]) c (.quiet answer c) :=
  ⟨rfl, trivial, Exits.covers_only answer ⟨s, List.mem_singleton_self s, holds, rfl⟩⟩

theorem foreseen_look (holds : s.Holds bound c) (peeked : s.peek = some t) (n : Nat)
    (among : KindSet) : M.Foreseen s bound (t.sight among n) c (c.look n among) := by
  rcases holds.peek peeked with ⟨allowed, after, site⟩
  constructor
  · simp [Cursor.look, Outcome.check, allowed]
  · trivial
  · rcases after.sight among n with ⟨u, member, holds, same⟩
    refine ⟨u, member, holds, ?_⟩
    rw [same, site]
    rfl

theorem foreseen_trace (holds : s.Holds bound c) (peeked : s.peek = some t) (n : Nat)
    (among : KindSet) : M.Foreseen s bound ⟨[t], [t]⟩ c (c.look n among) := by
  rcases holds.peek peeked with ⟨allowed, after, site⟩
  constructor
  · simp [Cursor.look, Outcome.check, allowed]
  · trivial
  · apply Exits.covers_both
    refine ⟨after, ?_⟩
    rw [site]
    rfl

theorem foreseen_glance (holds : s.Holds bound c) (n : Nat) (among : KindSet) :
    M.Foreseen s bound (s.sight among n) c (.quiet (among.has (c.kindAhead n)) c) := by
  rcases holds.sight among n with ⟨t, member, after, site⟩
  refine ⟨rfl, trivial, t, member, after, ?_⟩
  rw [site]
  rfl

theorem foreseen_check (holds : s.Holds bound c) {passed : Bool} (fault : Fault)
    (sure : passed = true) : M.Foreseen s bound ⟨[s], []⟩ c (.check passed fault true c) :=
  ⟨if_pos sure, trivial, s, List.mem_singleton_self s, holds, rfl⟩

theorem foreseen_demand {among : KindSet} (holds : s.Holds bound c) (peeked : s.peek = some t)
    (within : t.first.within among = true) :
    M.Foreseen s bound ⟨[t], []⟩ c
      ((c.look 0 among).andThen fun found c => .check found .misplaced true c) := by
  have look := foreseen_trace (M := M) holds peeked 0 among
  have looked := look.reaches (t := t) (by simp)
  have member : among.has (c.kindAhead 0) = true := KindSet.has_of_within within looked.1.first
  exact look.step (c.look_spent 0 among) looked (foreseen_check looked.1 .misplaced member)

theorem foreseen_settle (holds : s.Holds bound c) : M.Foreseen s bound ⟨[s], []⟩ c c.settle := by
  rw [c.settle_eq]
  refine ⟨rfl, M.passes_leaves _ _, s, List.mem_singleton_self s, holds.due _, ?_⟩
  exact M.grow_trivia _ _ c.pending_trivia

theorem kindIn_solid {tokens : List Token} (solid : ∀ token ∈ tokens, token.kind ≠ .endOfInput)
    (more : ¬ ∀ token ∈ tokens, token.isTrivia = true) : kindIn 0 tokens ≠ .endOfInput := by
  induction tokens with
  | nil => exact absurd (by simp) more
  | cons token tokens ih =>
    unfold kindIn
    by_cases trivia : token.isTrivia = true
    · rw [if_pos trivia]
      apply ih
      · intro later member
        exact solid later (List.mem_cons_of_mem _ member)
      · intro all
        apply more
        intro later member
        rcases List.mem_cons.mp member with rfl | older
        · exact trivia
        · exact all later older
    · rw [if_neg trivia]
      exact solid token List.mem_cons_self

/-- After the next token comes what was second, and in a block that passes that is not the end. -/
theorem takeAs_holds {token : Token} {tokens : List Token} {kind : TokenKind} {offset : Nat}
    {reported : Option Nat} (holds : s.Holds bound c) (due : c.due = token :: tokens)
    (taken : M.takeAs inside s kind = some t)
    (more : M.strict = true → inside = true → ¬ ∀ later ∈ tokens, later.isTrivia = true) :
    t.Holds bound ⟨tokens, offset, reported, 0⟩ := by
  rcases Option.map_eq_some_iff.mp taken with ⟨site, -, rfl⟩
  have second := holds.second
  rw [(c.due_cons due).2.2] at second
  have solid : ∀ later ∈ tokens, later.kind ≠ .endOfInput := by
    intro later found
    apply holds.solid later
    apply c.due_subset
    rw [due]
    exact List.mem_cons_of_mem _ found
  have shorter : tokens.length < c.ahead.length := by
    have length := c.due_length
    rw [due, List.length_cons] at length
    omega
  have length := holds.length
  constructor
  · show KindSet.has (if M.strict && inside then _ else _) (kindIn 0 tokens) = true
    split
    · rename_i guarded
      rcases Bool.and_eq_true_iff.mp guarded with ⟨strict, block⟩
      apply KindSet.has_left second
      simpa [KindSet.ending] using kindIn_solid solid (more strict block)
    · exact second
  · exact KindSet.has_anything _
  · exact Nat.le_refl 0
  · exact (Nat.le_of_lt shorter).trans length
  · intro _
    exact shorter.trans_le length
  · exact solid

theorem foreseen_takeAs {among : KindSet} (retag : Option TokenKind) {token : Token}
    {tokens : List Token} (holds : s.Holds bound c) (due : c.due = token :: tokens)
    (member : among.has token.kind = true)
    (taken : M.takeAs inside s (retag.getD token.kind) = some t)
    (fair : M.Fair inside (c.take among retag)) :
    M.Foreseen s bound ⟨[t], []⟩ c (c.take among retag) := by
  rw [c.take_eq among retag due] at fair ⊢
  have after : t.Holds bound ⟨tokens, c.offset + widthOf (c.pending ++ [token]), c.reported, 0⟩ :=
    takeAs_holds holds due taken fun strict => (fair strict).2
  rcases Option.map_eq_some_iff.mp taken with ⟨site, seen, rfl⟩
  constructor
  · exact if_pos member
  · exact M.passes_child _ _ trivial
  · exact ⟨_, List.mem_singleton_self _, after, M.grow_child c.pending_trivia seen⟩

theorem foreseen_take {among : KindSet} {after : List Outlook} (holds : s.Holds bound c)
    (taken : M.take inside among s = some after) (fair : M.Fair inside (c.take among none)) :
    M.Foreseen s bound ⟨after, []⟩ c (c.take among none) := by
  rw [Monitor.take, Option.ite_none_right_eq_some, Bool.and_eq_true, Bool.not_eq_true'] at taken
  rcases taken with ⟨⟨within, more⟩, gathered⟩
  have first := holds.first
  have going : c.kindAhead 0 ≠ .endOfInput := by
    intro ended
    rw [ended, more] at first
    exact Bool.noConfusion first
  rcases c.due_of_kindAhead going with ⟨token, tokens, due, -, kind, -⟩
  rw [kind] at first
  rcases Exits.gather_covers gathered (KindSet.mem_tokens first) with ⟨t, found, wider⟩
  have foreseen := foreseen_takeAs none holds due (KindSet.has_of_within within first) found fair
  apply foreseen.widen
  intro held answer upward covers
  cases answer with
  | true =>
    rcases covers with ⟨u, member, one⟩
    rw [List.mem_singleton.mp member] at one
    exact wider held upward one
  | false => exact Exits.covers_no _ covers

theorem foreseen_name (holds : s.Holds bound c) (within : s.first.within .words = true)
    (taken : M.takeAs inside s .identifier = some t)
    (fair : M.Fair inside (c.take .words (some .identifier))) :
    M.Foreseen s bound ⟨[t], []⟩ c (c.take .words (some .identifier)) := by
  have word := KindSet.has_of_within within holds.first
  have going : c.kindAhead 0 ≠ .endOfInput := by
    intro ended
    rw [ended] at word
    revert word
    decide
  rcases c.due_of_kindAhead going with ⟨token, tokens, due, -, kind, -⟩
  rw [kind] at word
  exact foreseen_takeAs (some .identifier) holds due word taken fair

theorem foreseen_report (holds : s.Holds bound c) (diagnostic : Span → Diagnostic) :
    M.Foreseen s bound ⟨[s], []⟩ c (c.report diagnostic) := by
  simp only [Cursor.report]
  split <;> exact ⟨rfl, trivial, s, List.mem_singleton_self s, holds.same rfl rfl, rfl⟩

variable {flagged : List Outlook}

/-- A strict monitor is not told of an error node; another one goes on with it as a child. -/
theorem flag_covers {o : Outcome} (found : M.flag s = some flagged) (fair : M.Fair inside o)
    (error : NodeKind.error ∈ kindsOf o.pieces) :
    ∃ site, M.see s.site NodeKind.error = some site ∧ flagged = [{ s with site }] := by
  unfold Monitor.flag at found
  split at found
  · rename_i strict
    exact absurd error (fair strict).1
  · rcases Option.map_eq_some_iff.mp found with ⟨site, seen, rfl⟩
    exact ⟨site, seen, rfl⟩

theorem foreseen_gap (holds : s.Holds bound c) (found : M.flag s = some flagged)
    (fair : M.Fair inside c.gap) : M.Foreseen s bound ⟨[], flagged⟩ c c.gap := by
  rw [c.gap_eq] at fair ⊢
  rcases flag_covers found fair (error_among _ _) with ⟨site, seen, rfl⟩
  constructor
  · rfl
  · exact M.passes_child _ _ (M.accepts_error trivial)
  · refine ⟨_, List.mem_singleton_self _, (holds.due _).at_site site, ?_⟩
    exact M.grow_child c.pending_trivia seen

theorem foreseen_missing (holds : s.Holds bound c) (peeked : s.peek = some t)
    (found : M.flag t = some flagged) (kind : DiagnosticKind) (message : String)
    (fair : M.Fair inside (c.missing kind message)) :
    M.Foreseen s bound ⟨[], flagged⟩ c (c.missing kind message) := by
  have trace := foreseen_trace (M := M) holds peeked 0 .empty
  have traced := trace.reaches (t := t) (by simp)
  have report := foreseen_report (M := M) traced.1 fun place => ⟨kind, place, message, []⟩
  have reported := report.reaches (t := t) (by simp)
  have gap := foreseen_gap reported.1 found fair.second.second
  exact trace.step (c.look_spent 0 .empty) traced
    (report.step (Cursor.report_spent _ _) reported gap)

theorem foreseen_discard (holds : s.Holds bound c) (more : c.kindAhead 0 ≠ .endOfInput)
    (peeked : s.peek = some t) (found : M.flag t = some flagged) (fair : M.Fair inside c.discard) :
    M.Foreseen s bound ⟨flagged.map Outlook.skipped, []⟩ c c.discard := by
  rcases holds.peek peeked with ⟨allowed, -, same⟩
  rcases c.stretch_due more with ⟨shorter, stops⟩
  have length := holds.length
  rw [c.discard_eq, if_pos allowed] at fair ⊢
  rcases flag_covers found fair (error_among _ _) with ⟨site, seen, rfl⟩
  rw [same] at seen
  constructor
  · rfl
  · exact M.passes_child _ _ (M.accepts_error (M.accepts_leaves _ _))
  · refine ⟨_, List.mem_singleton_self _, ?_, M.grow_child c.pending_trivia seen⟩
    constructor
    · exact stops
    · exact KindSet.has_anything _
    · exact Nat.le_refl 1
    · exact (Nat.le_of_lt shorter).trans length
    · intro _
      exact shorter.trans_le length
    · intro token member
      exact holds.solid token (c.due_subset (List.mem_of_mem_drop member))

theorem foreseen_skip {u v : Outlook} (holds : s.Holds bound c) (first_look : s.peek = some t)
    (second_look : t.peek = some u) (third_look : u.peek = some v) (found : M.flag v = some flagged)
    (complaint : Complaint) (fair : M.Fair inside (c.skip complaint)) :
    M.Foreseen s bound
      ⟨Exits.joinAll (flagged.map Outlook.skipped) (t.withFirst (t.first ∩ .ending)), []⟩ c
      (c.skip complaint) := by
  have look := foreseen_trace (M := M) holds first_look 0 (.single TokenKind.endOfInput)
  have looked := look.reaches (t := t) (by simp)
  apply look.step (c.look_spent 0 _) looked
  have answer : (c.look 0 (.single TokenKind.endOfInput)).answer =
      decide (c.kindAhead 0 = .endOfInput) := by
    show KindSet.has _ _ = _
    rw [KindSet.has_single, beq_eq_decide]
    exact decide_eq_decide.mpr ⟨fun same => Kind.token.inj same, fun same => congrArg _ same⟩
  have rest_fair := fair.second
  simp only [answer, decide_eq_true_eq] at rest_fair ⊢
  by_cases at_end : c.kindAhead 0 = .endOfInput
  · simp only [if_pos at_end]
    have ending : KindSet.ending.has (c.kindAhead 0) = true := by
      rw [at_end]
      decide
    have exit := looked.1.withFirst (KindSet.has_both looked.1.first ending)
    constructor
    · rfl
    · trivial
    · exact (M.reaches_upward _ _ _).joinAll (.inr ⟨_, exit.1, exit.2, rfl⟩)
  · simp only [if_neg at_end] at rest_fair ⊢
    have trace := foreseen_trace (M := M) looked.1 second_look 0 .empty
    have traced := trace.reaches (t := u) (by simp)
    apply trace.step (Cursor.look_spent _ 0 .empty) traced
    have report := foreseen_report (M := M) traced.1 fun place => ⟨.unexpectedToken, place,
      complaint.message (((c.look 0 (.single TokenKind.endOfInput)).cursor.due.take 1).flatMap
        Token.text), []⟩
    have reported := report.reaches (t := u) (by simp)
    apply report.step (Cursor.report_spent _ _) reported
    have discard := foreseen_discard reported.1 (by rwa [Cursor.kindAhead, Cursor.report_ahead])
      third_look found rest_fair.second.second
    apply discard.widen
    intro held answer upward covers
    cases answer with
    | true => exact upward.joinAll (.inl covers)
    | false => exact covers

theorem foreseen_unclosed (holds : s.Holds bound c) (at_end : c.kindAhead 0 = .endOfInput)
    (found : M.flag s = some flagged) (what : String) (brace : Span)
    (fair : M.Fair inside (c.unclosed what brace)) :
    M.Foreseen s bound ⟨[], flagged⟩ c (c.unclosed what brace) := by
  have check := foreseen_check (M := M) holds .misplaced (decide_eq_true at_end)
  have checked := check.reaches (t := s) (by simp)
  have report := foreseen_report (M := M) checked.1 fun place =>
    ⟨.unclosedBlock, ⟨brace.start, place.stop⟩, "unclosed " ++ what,
      [⟨brace, "block opened here"⟩]⟩
  have reported := report.reaches (t := s) (by simp)
  have gap := foreseen_gap reported.1 found fair.second.second
  exact check.step (c.check_spent _ _ _) checked (report.step (Cursor.report_spent _ _) reported gap)

theorem foreseen_closeBlock {e : Exits Outlook} (holds : s.Holds bound c)
    (finished : M.finish inside s = some e) (what : String) (brace : Span)
    (fair : M.Fair inside (c.closeBlock what brace)) :
    M.Foreseen s bound e c (c.closeBlock what brace) := by
  rw [Monitor.finish, Option.ite_none_right_eq_some] at finished
  rcases finished with ⟨ends, finished⟩
  simp only [Option.bind_eq_some_iff, Option.map_eq_some_iff] at finished
  rcases finished with ⟨closed, closes, unclosed, opens, rfl⟩
  have next := KindSet.has_of_within ends holds.first
  unfold Cursor.closeBlock at fair ⊢
  by_cases brace_next : c.kindAhead 0 = .braceClose
  · simp only [if_pos brace_next] at fair ⊢
    have among : (KindSet.single TokenKind.braceClose).has (c.kindAhead 0) = true := by
      rw [brace_next]
      decide
    rcases holds.ifFirst among closes with ⟨taken, narrow⟩
    have take := foreseen_take narrow taken fair
    exact ⟨take.clear, take.passes, Exits.covers_yes unclosed take.exits⟩
  · simp only [if_neg brace_next] at fair ⊢
    have at_end : c.kindAhead 0 = .endOfInput := by
      simpa [KindSet.ending, brace_next] using next
    have among : KindSet.ending.has (c.kindAhead 0) = true := by
      rw [at_end]
      decide
    rcases holds.ifFirst among opens with ⟨flagged, narrow⟩
    have open_end := foreseen_unclosed narrow at_end flagged what brace fair
    exact ⟨open_end.clear, open_end.passes, Exits.covers_no closed open_end.exits⟩

end Monitor

end CraftDsl
