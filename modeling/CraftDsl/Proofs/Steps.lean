import CraftDsl.Parser
import CraftDsl.Proofs.Building
import CraftDsl.Proofs.Contents

/-!
Each step of the parser that runs does what the same step of a cursor says. A parser in motion shows a
cursor, for which the blanks kept aside count as ahead.
-/
namespace CraftDsl

namespace Parser

def view (p : Parser) : Cursor := ⟨p.aside ++ p.ahead, p.offset, p.reported, p.looks⟩

structure Mirrors (p : Parser) (o : Outcome) (q : Parser) : Prop where
  cursor : q.view = o.cursor
  builder : q.builder = p.builder.absorb o.pieces
  reports : q.reports = o.reports.reverse ++ p.reports
  faults : q.faults = o.faults.reverse ++ p.faults

theorem Mirrors.andThen {p q r : Parser} {o : Outcome} {next : Bool → Cursor → Outcome}
    (first : p.Mirrors o q) (second : q.Mirrors (next o.answer q.view) r) :
    p.Mirrors (o.andThen next) r := by
  rw [first.cursor] at second
  constructor
  · exact second.cursor
  · rw [second.builder, first.builder]
    exact (Builder.absorb_append _ _ _).symm
  · rw [second.reports, first.reports]
    simp [Outcome.andThen]
  · rw [second.faults, first.faults]
    simp [Outcome.andThen]

theorem Mirrors.trans {p q r : Parser} {o o' : Outcome} (first : p.Mirrors o q)
    (second : q.Mirrors o' r) : p.Mirrors (o.andThen fun _ _ => o') r :=
  Mirrors.andThen first second

theorem mirrors_check (p : Parser) (holds : Bool) (fault : Fault) (answer : Bool) :
    p.Mirrors (.check holds fault answer p.view) (p.check holds fault) := by
  cases holds with
  | true => exact ⟨rfl, rfl, rfl, rfl⟩
  | false => exact ⟨rfl, rfl, rfl, rfl⟩

def Kept (p : Parser) : Prop := ∀ token ∈ p.aside, token.isTrivia = true

def Poised (p : Parser) : Prop := p.ahead.takeWhile Token.isTrivia = []

theorem kept_of_flushed {p : Parser} (flushed : p.aside = []) : p.Kept := by
  intro token member
  simp [flushed] at member

theorem Kept.pass {p : Parser} (kept : p.Kept) : p.pass.Kept := by
  intro token member
  rcases List.mem_append.mp member with old | new
  · exact kept token old
  · exact List.mem_takeWhile_imp new

theorem poised_pass (p : Parser) : p.pass.Poised := by
  show (p.ahead.dropWhile Token.isTrivia).takeWhile Token.isTrivia = []
  rw [List.takeWhile_eq_nil_iff]
  intro nonempty
  simpa using List.dropWhile_get_zero_not Token.isTrivia p.ahead nonempty

theorem view_pass (p : Parser) : p.pass.view = p.view := by
  simp [view, pass, List.append_assoc, List.takeWhile_append_dropWhile]

theorem Poised.pending {p : Parser} (poised : p.Poised) (kept : p.Kept) :
    p.view.pending = p.aside := by
  show (p.aside ++ p.ahead).takeWhile Token.isTrivia = p.aside
  rw [List.takeWhile_append_of_pos kept, poised, List.append_nil]

theorem Poised.due {p : Parser} (poised : p.Poised) (kept : p.Kept) : p.view.due = p.ahead := by
  show (p.aside ++ p.ahead).dropWhile Token.isTrivia = p.ahead
  rw [List.dropWhile_append_of_pos kept]
  have split := List.takeWhile_append_dropWhile (p := Token.isTrivia) (l := p.ahead)
  rwa [poised, List.nil_append] at split

theorem mirrors_quiet (p : Parser) (answer : Bool) : p.Mirrors (.quiet answer p.view) p :=
  ⟨rfl, rfl, rfl, rfl⟩

theorem mirrors_pass (p : Parser) (answer : Bool) : p.Mirrors (.quiet answer p.view) p.pass :=
  ⟨p.view_pass, rfl, rfl, rfl⟩

theorem mirrors_settle {p : Parser} (kept : p.Kept) (poised : p.Poised) :
    p.Mirrors p.view.settle p.settle := by
  rw [Cursor.settle_eq, poised.pending kept, poised.due kept]
  exact ⟨rfl, Builder.pushTokens_eq_absorb _ _, rfl, rfl⟩

theorem mirrors_settle_pass {p : Parser} (kept : p.Kept) :
    p.Mirrors p.view.settle p.pass.settle := by
  have settled := mirrors_settle kept.pass p.poised_pass
  rw [view_pass] at settled
  exact ⟨settled.cursor, settled.builder, settled.reports, settled.faults⟩

theorem kindAhead_view {p : Parser} (kept : p.Kept) (n : Nat) :
    p.view.kindAhead n = kindIn n p.ahead := kindIn_append_trivia n _ _ kept

theorem look_answer {p : Parser} (kept : p.Kept) (n : Nat) (among : KindSet) :
    (p.look n among).1 = (p.view.look n among).answer := by
  have view_kind : (p.view.look n among).answer = among.has (kindIn n p.ahead) :=
    congrArg (fun kind => among.has (.token kind)) (kindAhead_view kept n)
  rw [view_kind]
  cases n with
  | zero => exact congrArg (fun kind => among.has (.token kind)) (kindIn_dropWhile 0 p.ahead)
  | succ n => rfl

theorem mirrors_look (p : Parser) (n : Nat) (among : KindSet) :
    p.Mirrors (p.view.look n among) (p.look n among).2 := by
  have faults (q : Parser) : (if decide (q.looks < lookLimit) = true then q.faults
      else .stuck :: q.faults) =
      (if decide (q.looks < lookLimit) = true then [] else [Fault.stuck]).reverse ++ q.faults := by
    split <;> rfl
  cases n with
  | zero =>
    have same := p.view_pass
    exact ⟨congrArg (fun c : Cursor => { c with looks := c.looks + 1 }) same, rfl, rfl, faults p⟩
  | succ n => exact ⟨rfl, rfl, rfl, faults p⟩

theorem Kept.look {p : Parser} (kept : p.Kept) (n : Nat) (among : KindSet) :
    (p.look n among).2.Kept := by
  cases n with
  | zero => exact kept.pass
  | succ n => exact kept

theorem poised_look (p : Parser) (among : KindSet) : (p.look 0 among).2.Poised := p.poised_pass

theorem mirrors_take {p : Parser} (kept : p.Kept) (among : KindSet) (retag : Option TokenKind) :
    p.Mirrors (p.view.take among retag) (p.take among retag) := by
  apply (mirrors_settle_pass kept).andThen
  cases ahead : p.pass.ahead with
  | nil =>
    have nothing : p.pass.settle.view.ahead = [] := ahead
    have stopped : p.take among retag = p.pass.settle.check false .pastEnd := by
      simp only [take, ahead]
    simp only [nothing, stopped]
    exact mirrors_check p.pass.settle false .pastEnd true
  | cons token tokens =>
    have next : p.pass.settle.view.ahead = token :: tokens := ahead
    simp only [next, take, ahead]
    constructor
    · simp [view, Cursor.advance, Outcome.check, Outcome.quiet, check, settle, ahead, widthOf]
    · rfl
    · rfl
    · cases among.has token.kind <;> rfl

theorem take_aside (p : Parser) (among : KindSet) (retag : Option TokenKind) :
    (p.take among retag).aside = [] := by
  simp only [take]
  split <;> rfl

theorem span_eq {p : Parser} (kept : p.Kept) : p.span = (p.view.spanAhead, p.pass) := by
  have pending : p.view.pending = p.pass.aside := by
    rw [← p.view_pass, p.poised_pass.pending kept.pass]
  have due : p.view.due = p.pass.ahead := by
    rw [← p.view_pass, p.poised_pass.due kept.pass]
  simp only [span, Cursor.spanAhead, pending, due]
  rfl

theorem report_eq {p : Parser} (kept : p.Kept) (diagnostic : Span → Diagnostic) :
    p.report diagnostic =
      if p.reported = some p.view.spanAhead.start then p.pass
      else { p.pass with
        reported := some p.view.spanAhead.start
        reports := diagnostic p.view.spanAhead :: p.reports } := by
  simp only [report, span_eq kept]
  rfl

theorem mirrors_report {p : Parser} (kept : p.Kept) (diagnostic : Span → Diagnostic) :
    p.Mirrors (p.view.report diagnostic) (p.report diagnostic) := by
  rw [report_eq kept]
  unfold Cursor.report
  by_cases again : p.reported = some p.view.spanAhead.start
  · have again_view : p.view.reported = some p.view.spanAhead.start := again
    simp only [if_pos again, if_pos again_view]
    exact p.mirrors_pass true
  · have first_view : ¬ p.view.reported = some p.view.spanAhead.start := again
    simp only [if_neg again, if_neg first_view]
    refine ⟨?_, rfl, rfl, rfl⟩
    exact congrArg (fun c : Cursor => { c with reported := some p.view.spanAhead.start }) p.view_pass

theorem report_ahead {p : Parser} (kept : p.Kept) (diagnostic : Span → Diagnostic) :
    (p.report diagnostic).aside = p.pass.aside ∧ (p.report diagnostic).ahead = p.pass.ahead ∧
      (p.report diagnostic).opened = p.opened := by
  rw [report_eq kept]
  split <;> exact ⟨rfl, rfl, rfl⟩

theorem Kept.report {p : Parser} (kept : p.Kept) (diagnostic : Span → Diagnostic) :
    (p.report diagnostic).Kept := by
  intro token member
  rw [(report_ahead kept diagnostic).1] at member
  exact kept.pass token member

theorem poised_report {p : Parser} (kept : p.Kept) (diagnostic : Span → Diagnostic) :
    (p.report diagnostic).Poised := by
  show (p.report diagnostic).ahead.takeWhile Token.isTrivia = []
  rw [(report_ahead kept diagnostic).2.1]
  exact p.poised_pass

theorem settle_flushed {p : Parser} (flushed : p.aside = []) : p.settle = p := by
  cases p
  cases flushed
  rfl

theorem startNode_flushed {p : Parser} (flushed : p.aside = []) (kind : NodeKind) :
    p.startNode kind = { p with builder := p.builder.startNode kind } := by
  simp only [startNode, settle_flushed flushed]

theorem Mirrors.within {p q : Parser} {kind : NodeKind} {o : Outcome} (flushed : p.aside = [])
    (body : (p.startNode kind).Mirrors o q) (closed : openings o.pieces = 0) :
    p.Mirrors (o.wrapped kind) q.finishNode := by
  have built : q.builder.finishNode? =
      some (p.builder.push (.node kind (closePieces o.pieces))) := by
    rw [body.builder, eq_trees_of_openings o.pieces closed, closePieces_trees]
    simp only [startNode, settle_flushed flushed]
    exact Builder.finishNode?_startNode p.builder kind _
  have finished : q.finishNode =
      { q with builder := p.builder.push (.node kind (closePieces o.pieces)) } := by
    simp only [finishNode, build, built]
  rw [startNode_flushed flushed] at body
  rw [finished]
  exact ⟨body.cursor, rfl, body.reports, body.faults⟩

theorem startNode_settle (p : Parser) (kind : NodeKind) :
    p.startNode kind = p.settle.startNode kind := by
  simp only [startNode, settle_flushed (p := p.settle) rfl]

theorem mirrors_gap {p : Parser} (kept : p.Kept) (poised : p.Poised) :
    p.Mirrors p.view.gap p.gap := by
  apply (mirrors_settle kept poised).andThen
  simp only [gap, startNode_settle p]
  have nothing : (p.settle.startNode .error).Mirrors (.quiet false p.settle.view)
      (p.settle.startNode .error) := ⟨rfl, rfl, rfl, rfl⟩
  exact nothing.within rfl rfl

theorem mirrors_missing {p : Parser} (kept : p.Kept) (kind : DiagnosticKind) (message : String) :
    p.Mirrors (p.view.missing kind message) (p.missing kind message) := by
  have traced : p.trace.Kept := kept.look 0 .empty
  apply (p.mirrors_look 0 .empty).andThen
  apply (mirrors_report traced _).andThen
  exact mirrors_gap (traced.report _) (poised_report traced _)

theorem mirrors_halt {p : Parser} (fresh : p.looks = 0) :
    p.Mirrors ((p.view.shift 0).andThen fun _ c => .quiet true { c with looks := 1 })
      p.trace := by
  have looked := p.mirrors_look 0 .empty
  have allowed : p.looks < lookLimit := by
    rw [fresh]
    decide
  constructor
  · rw [trace, looked.cursor]
    simp [Cursor.look, Outcome.check, Outcome.quiet, Outcome.andThen, Cursor.shift, Cursor.advance,
      view, fresh, widthOf]
  · rfl
  · rfl
  · rw [trace, looked.faults]
    simp [Cursor.look, Outcome.check, Outcome.quiet, Outcome.andThen, Cursor.shift, view, allowed]

/-- A token that is taken, with the blanks before it, makes the stretch after it longer. -/
theorem Mirrors.stretch_cons {p q r : Parser} {blanks tokens : List Token} {token : Token}
    {count : Nat} (trivia : ∀ blank ∈ blanks, blank.isTrivia = true)
    (solid : token.isTrivia = false) (ahead : p.view.ahead = blanks ++ token :: tokens)
    (taken : p.Mirrors (p.view.take (.single token.kind) none) q)
    (later : q.Mirrors
      ((q.view.shift count).andThen fun _ c => .quiet true { c with looks := 1 }) r) :
    p.Mirrors
      ((p.view.shift (blanks.length + (count + 1))).andThen fun _ c =>
        .quiet true { c with looks := 1 }) r := by
  rw [Cursor.take_own_eq _ blanks trivia solid ahead] at taken
  have whole := taken.trans later
  rw [taken.cursor] at whole
  have split : p.view.ahead = (blanks ++ [token]) ++ tokens := by simp [ahead]
  have length : blanks.length + (count + 1) = (blanks ++ [token]).length + count := by
    rw [List.length_append, List.length_singleton, Nat.add_assoc, Nat.add_comm 1]
  rw [length, Cursor.shift_append _ (blanks ++ [token]) tokens split]
  simpa [Cursor.shift, Outcome.quiet, Outcome.andThen, Cursor.advance, leaves, Nat.add_assoc]
    using whole

theorem discard_append_trivia (depth : Nat) (first : Bool) {blanks : List Token}
    (tokens : List Token) (p : Parser) (trivia : ∀ blank ∈ blanks, blank.isTrivia = true) :
    discard depth first (blanks ++ tokens) p = discard depth first tokens p := by
  induction blanks with
  | nil => rfl
  | cons blank blanks ih =>
    obtain ⟨here, later⟩ := List.forall_mem_cons.mp trivia
    rw [List.cons_append, discard, if_pos here, ih later]

/-- Taking tokens one by one until a stretch stops takes the stretch. -/
theorem mirrors_stretch (depth : Nat) (first : Bool) (tokens : List Token) (p : Parser)
    (kept : p.Kept) (ahead : p.view.ahead = tokens) (fresh : p.looks = 0) :
    p.Mirrors
      ((p.view.shift (stretch depth first 0 tokens)).andThen fun _ c =>
        .quiet true { c with looks := 1 })
      (discard depth first tokens p) := by
  induction depth, first, tokens using stretch_induction generalizing p with
  | ended depth first blanks trivia =>
    rw [stretch_trivia depth first trivia, ← List.append_nil blanks,
      discard_append_trivia depth first [] p trivia]
    exact mirrors_halt fresh
  | halts depth first blanks token tokens trivia solid stops =>
    rw [stretch_halts depth first tokens trivia solid stops,
      discard_append_trivia depth first _ p trivia, discard, if_neg (Bool.eq_false_iff.mp solid)]
    simp only [if_pos stops]
    exact mirrors_halt fresh
  | goes_on depth first blanks token tokens trivia solid passes ih =>
    rw [stretch_goes_on depth first tokens trivia solid passes,
      discard_append_trivia depth first _ p trivia, discard, if_neg (Bool.eq_false_iff.mp solid)]
    simp only [if_neg passes]
    have looked := p.mirrors_look 0 .empty
    have taken := mirrors_take (kept.look 0 .empty) (.single token.kind) none
    have seen : (p.look 0 .empty).2.view.ahead = blanks ++ token :: tokens := by
      rw [looked.cursor]
      exact ahead
    have clear := taken.cursor
    rw [Cursor.take_own_eq _ blanks trivia solid seen] at clear
    have later := ih _ (kept_of_flushed (take_aside _ _ _)) (congrArg Cursor.ahead clear)
      (congrArg Cursor.looks clear)
    have allowed : p.looks < lookLimit := by
      rw [fresh]
      decide
    have whole := looked.trans (Mirrors.stretch_cons trivia solid seen taken later)
    rw [looked.cursor] at whole
    simpa [Cursor.look, Cursor.shift, Outcome.check, Outcome.quiet, Outcome.andThen,
      Cursor.advance, view, allowed] using whole

theorem mirrors_discard {p : Parser} (kept : p.Kept) (poised : p.Poised) (token : Token)
    (tokens : List Token) (due : p.view.due = token :: tokens) :
    p.Mirrors p.view.discard (discard 0 true p.ahead (p.startNode .error)).finishNode := by
  have next : p.ahead = token :: tokens := by rw [← poised.due kept, due]
  have solid : token.isTrivia = false := by
    have first := poised
    rw [Poised, next, List.takeWhile_eq_nil_iff] at first
    simpa using first (by simp)
  apply (mirrors_settle kept poised).andThen
  rw [startNode_settle p]
  refine Mirrors.within rfl ?_ ?_
  · set s := p.settle.startNode .error with s_eq
    have flushed : s.Kept := kept_of_flushed rfl
    have looked := s.mirrors_look 0 .empty
    have taken := mirrors_take (flushed.look 0 .empty) (.single token.kind) none
    have seen : (s.look 0 .empty).2.view.ahead = [] ++ token :: tokens := by
      rw [looked.cursor]
      exact next
    have clear := taken.cursor
    rw [Cursor.take_own_eq _ [] (by simp) solid seen] at clear
    have later := mirrors_stretch (depthAfter 0 token.kind) false tokens _
      (kept_of_flushed (take_aside _ _ _)) (congrArg Cursor.ahead clear)
      (congrArg Cursor.looks clear)
    have enough := stretch_goes_on 0 true tokens (List.forall_mem_nil _) solid (by simp [stopsAt])
    have unfolded : discard 0 true p.ahead s = discard (depthAfter 0 token.kind) false tokens
        ((s.look 0 .empty).2.take (.single token.kind) none) := by
      rw [next, discard, if_neg (by simp [solid])]
      rfl
    rw [unfolded]
    apply looked.andThen
    rw [seen, enough]
    exact Mirrors.stretch_cons (by simp) solid seen taken later
  · simp [Outcome.andThen, Cursor.trace, Cursor.look, Outcome.check, Outcome.quiet, Cursor.shift]

theorem mirrors_skip {p : Parser} (kept : p.Kept) (complaint : Complaint) :
    p.Mirrors (p.view.skip complaint) (p.skip complaint) := by
  apply (p.mirrors_look 0 (.single TokenKind.endOfInput)).andThen
  rw [← look_answer kept 0 (.single TokenKind.endOfInput)]
  simp only [skip]
  set q := (p.look 0 (.single TokenKind.endOfInput)).2 with q_eq
  have looked : q.Kept := kept.look 0 _
  have poised : q.Poised := p.poised_look _
  cases atEnd : (p.look 0 (.single TokenKind.endOfInput)).1 with
  | true => exact q.mirrors_quiet true
  | false =>
    obtain ⟨token, tokens, next⟩ : ∃ token tokens, q.ahead = token :: tokens := by
      cases ahead : q.ahead with
      | nil =>
        have missed : (KindSet.single TokenKind.endOfInput).has (.token (kindIn 0 q.ahead)) =
            false := atEnd
        simp [ahead, kindIn] at missed
      | cons token tokens => exact ⟨token, tokens, rfl⟩
    have due : q.view.due = token :: tokens := by rw [poised.due looked, next]
    simp only [due, next, Bool.false_eq_true, if_false]
    have traced : q.trace.Kept := looked.look 0 .empty
    apply (q.mirrors_look 0 .empty).andThen
    have reported := mirrors_report traced fun place =>
      ⟨.unexpectedToken, place, complaint.message (((token :: tokens).take 1).flatMap Token.text), []⟩
    apply reported.andThen
    apply mirrors_discard (traced.report _) (poised_report traced _) token tokens
    rw [reported.cursor, Cursor.due, Cursor.report_ahead, trace, (q.mirrors_look 0 .empty).cursor]
    exact due

theorem mirrors_unclosed {p : Parser} (kept : p.Kept) (what : String) (brace : Span) :
    p.Mirrors (p.view.unclosed what brace) (p.unclosed what brace) := by
  have atEnd : p.view.kindAhead 0 = kindIn 0 p.ahead := kindAhead_view kept 0
  simp only [Cursor.unclosed, atEnd]
  apply (p.mirrors_check _ .misplaced true).andThen
  set q := p.check (decide (kindIn 0 p.ahead = .endOfInput)) .misplaced
  have checked : q.Kept := kept
  apply (mirrors_report checked _).andThen
  exact mirrors_gap (checked.report _) (poised_report checked _)

theorem finishNodes_succ (p : Parser) (count : Nat) :
    p.finishNodes (count + 1) = (p.finishNodes count).finishNode := by
  induction count generalizing p with
  | zero => rfl
  | succ count ih => exact ih p.finishNode

/-- Closing as many nodes as the pieces opened, the innermost first. -/
theorem finishNodes_openings (b : Builder) (pieces : List Piece) (q : Parser)
    (built : q.builder = b.absorb pieces) :
    q.finishNodes (openings pieces) =
      { q with builder := b.absorb ((closePieces pieces).map Piece.tree) } := by
  induction pieces generalizing b with
  | nil =>
    cases q
    cases built
    rfl
  | cons piece pieces ih =>
    cases piece with
    | tree t =>
      have none_opened : openings (.tree t :: pieces) = openings pieces := by
        simp [openings, Piece.opens]
      rw [none_opened]
      exact ih (b.push t) built
    | opening kind =>
      have one_more : openings (.opening kind :: pieces) = openings pieces + 1 := by
        simp [openings, Piece.opens, Nat.add_comm]
      rw [one_more, finishNodes_succ, ih (b.startNode kind) built, finishNode]
      simp only [Builder.finishNode?_startNode, build]
      rfl

theorem Mirrors.closed {p q : Parser} {o : Outcome} (body : p.Mirrors o q) :
    p.Mirrors o.closed (q.finishNodes (openings o.pieces)) := by
  rw [finishNodes_openings p.builder o.pieces q body.builder]
  exact ⟨body.cursor, rfl, body.reports, body.faults⟩

/-- A node that opens around trees when they are there already. -/
theorem Mirrors.adopt {p q : Parser} {o : Outcome} (flushed : p.aside = [])
    (sound : p.builder.Sound) (body : p.Mirrors o q) (closed : openings o.pieces = 0)
    (kind : NodeKind) (fault : Fault) :
    (p.startNode kind).Mirrors o
      (q.build (q.builder.startNodeAt? p.builder.checkpoint kind) fault) := by
  have opened : q.builder.startNodeAt? p.builder.checkpoint kind =
      some ((p.builder.startNode kind).absorb o.pieces) := by
    rw [body.builder, eq_trees_of_openings o.pieces closed,
      Builder.startNodeAt?_checkpoint _ sound, Builder.absorb_trees]
    rfl
  rw [startNode_flushed flushed, opened]
  exact ⟨body.cursor, rfl, body.reports, body.faults⟩

end Parser

end CraftDsl
