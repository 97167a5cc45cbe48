import CraftDsl.Proofs.Agreement
import CraftDsl.Proofs.Displacement
import CraftDsl.Proofs.Text.Positions
import Mathlib.Data.List.Chain

/-!
Diagnostics come in the order of the text. Those of single tokens come first. Each of the others is
anchored further on than the one before it, and all of them begin and end where tokens do, so that each
has a line and a column. Main statement: `diagnostics_ordered`.
-/
namespace CraftDsl

def Boundary (tokens : List Token) (place : Nat) : Prop :=
  ∃ before after, tokens = before ++ after ∧ place = widthOf before

def Span.Aligned (tokens : List Token) (s : Span) : Prop :=
  Boundary tokens s.start ∧ Boundary tokens s.stop ∧ s.start ≤ s.stop

def Diagnostic.spans (d : Diagnostic) : List Span := d.span :: d.notes.map Note.span

/-- A report points to tokens; an unclosed block is reported up to the end, with a note at the brace
that opens it. -/
structure Diagnostic.Sited (tokens : List Token) (d : Diagnostic) : Prop where
  aligned : ∀ span ∈ d.spans, span.Aligned tokens
  block : d.kind = .unclosedBlock → d.anchor = widthOf tokens ∧
    ∃ note brace, d.notes = [note] ∧ (note.span, brace) ∈ Token.locate 0 tokens ∧
      brace.kind = .braceOpen

theorem located_split {tokens : List Token} {start : Nat} {span : Span} {token : Token}
    (located : (span, token) ∈ Token.locate start tokens) :
    ∃ before after, tokens = before ++ token :: after ∧ span.start = start + widthOf before := by
  induction tokens generalizing start with
  | nil => cases located
  | cons first rest ih =>
    rcases List.mem_cons.mp located with here | later
    · cases here
      exact ⟨[], rest, rfl, rfl⟩
    · obtain ⟨before, after, same, place⟩ := ih later
      refine ⟨first :: before, after, by rw [same, List.cons_append], ?_⟩
      rw [place, widthOf_cons, Nat.add_assoc]

theorem aligned_located {tokens : List Token} {span : Span} {token : Token}
    (located : (span, token) ∈ Token.locate 0 tokens) : span.Aligned tokens := by
  obtain ⟨before, after, same, start⟩ := located_split located
  obtain ⟨-, -, stop, -⟩ := Token.mem_locate located
  rw [Nat.zero_add] at start
  refine ⟨⟨before, token :: after, same, start⟩, ⟨before ++ [token], after, ?_, ?_⟩, ?_⟩
  · rw [same, List.append_assoc, List.singleton_append]
  · rw [stop, start, widthOf_append]
    rfl
  · rw [stop]
    exact Nat.le_add_right _ _

/-- Before the tokens of a source that are left, with no report further on than the next one. -/
structure Cursor.Inside (tokens : List Token) (c : Cursor) : Prop extends c.Underway where
  behind : ∃ before, tokens = before ++ c.ahead ∧ c.offset = widthOf before

namespace Cursor.Inside

variable {tokens : List Token} {c : Cursor}

theorem run (inside : c.Inside tokens) (x : Production) (clear : (x.run c).faults = []) :
    (x.run c).cursor.Inside tokens := by
  obtain ⟨before, same, offset⟩ := inside.behind
  obtain ⟨taken, spends⟩ := x.run_spent c
  refine ⟨inside.toUnderway.run x clear, before ++ taken, ?_, ?_⟩
  · rw [same, spends.ahead, List.append_assoc]
  · rw [spends.offset, offset, widthOf_append]

theorem aligned (inside : c.Inside tokens) : c.spanAhead.Aligned tokens := by
  obtain ⟨before, same, offset⟩ := inside.behind
  have split : tokens = before ++ c.pending ++ c.due := by
    rw [same, List.append_assoc, ← c.ahead_eq]
  have start : c.spanAhead.start = widthOf (before ++ c.pending) := by
    rw [spanAhead, offset, widthOf_append]
  refine ⟨⟨_, _, split, start⟩, ⟨before ++ c.pending ++ c.due.take 1, c.due.drop 1, ?_, ?_⟩, ?_⟩
  · rw [List.append_assoc, List.take_append_drop, split]
  · rw [widthOf_append, ← start]
    rfl
  · exact Nat.le_add_right _ _

theorem located (inside : c.Inside tokens) {token : Token} {rest : List Token}
    (due : c.due = token :: rest) : (c.spanAhead, token) ∈ Token.locate 0 tokens := by
  obtain ⟨before, same, offset⟩ := inside.behind
  have split : tokens = before ++ c.pending ++ token :: rest := by
    rw [same, List.append_assoc, ← due, ← c.ahead_eq]
  have span : c.spanAhead = ⟨widthOf (before ++ c.pending),
      widthOf (before ++ c.pending) + token.width⟩ := by
    rw [spanAhead, due, offset, widthOf_append]
    rfl
  rw [split, Token.locate_append, span, Nat.zero_add]
  exact List.mem_append_right _ List.mem_cons_self

theorem finish (inside : c.Inside tokens) (at_end : c.kindAhead 0 = .endOfInput) :
    c.spanAhead.stop = widthOf tokens := by
  obtain ⟨before, same, offset⟩ := inside.behind
  have ended := c.due_of_over inside.solid at_end
  have pending : c.ahead = c.pending := by
    rw [← List.append_nil c.pending, ← ended, ← c.ahead_eq]
  rw [spanAhead, ended, same, pending, widthOf_append, offset]
  rfl

end Cursor.Inside

/-- The reports of an outcome are each further on than the one before, and than the latest that was
made before the outcome. -/
structure Rises (tokens : List Token) (c : Cursor) (o : Outcome) : Prop where
  rising : (c.reported.toList ++ o.reports.map Diagnostic.anchor).IsChain (· < ·)
  latest : o.cursor.reported = (c.reported.toList ++ o.reports.map Diagnostic.anchor).getLast?
  sited : ∀ d ∈ o.reports, d.Sited tokens

section

variable {tokens : List Token} {c : Cursor} {o : Outcome}

theorem rises_silent (reports : o.reports = []) (reported : o.cursor.reported = c.reported) :
    Rises tokens c o := by
  constructor
  · rw [reports, List.map_nil, List.append_nil]
    cases c.reported <;> simp
  · rw [reports, reported, List.map_nil, List.append_nil]
    cases c.reported <;> rfl
  · rw [reports]
    exact List.forall_mem_nil _

theorem Rises.andThen {next : Bool → Cursor → Outcome} (first : Rises tokens c o)
    (second : Rises tokens o.cursor (next o.answer o.cursor)) : Rises tokens c (o.andThen next) := by
  have reports : (o.andThen next).reports = o.reports ++ (next o.answer o.cursor).reports := rfl
  have last (place : Option Nat) : place.toList.getLast? = place := by cases place <;> rfl
  obtain ⟨-, later, joint⟩ := List.isChain_append.mp second.rising
  rw [last, first.latest] at joint
  constructor
  · rw [reports, List.map_append, ← List.append_assoc]
    exact List.isChain_append.mpr ⟨first.rising, later, joint⟩
  · have latest : (o.andThen next).cursor.reported = _ := second.latest
    rw [latest, reports, List.map_append, ← List.append_assoc, List.getLast?_append,
      List.getLast?_append, last, first.latest]
  · intro d member
    rcases List.mem_append.mp member with early | late
    · exact first.sited d early
    · exact second.sited d late

theorem Rises.wrapped (rises : Rises tokens c o) (kind : NodeKind) : Rises tokens c (o.wrapped kind) :=
  ⟨rises.rising, rises.latest, rises.sited⟩

theorem Rises.closed (rises : Rises tokens c o) : Rises tokens c o.closed :=
  ⟨rises.rising, rises.latest, rises.sited⟩

/-- A report at the next token, unless the latest was made there. -/
theorem report_rises {diagnostic : Span → Diagnostic} (prompt : c.Stale ∨ c.Fresh)
    (anchored : (diagnostic c.spanAhead).anchor = c.spanAhead.start)
    (sited : (diagnostic c.spanAhead).Sited tokens) : Rises tokens c (c.report diagnostic) := by
  simp only [Cursor.report]
  split
  · exact rises_silent rfl rfl
  · rename_i unreported
    have fresh : c.Fresh := prompt.resolve_left unreported
    constructor
    · refine List.isChain_append.mpr ⟨?_, List.isChain_singleton _, ?_⟩
      · cases c.reported <;> simp
      · intro place latest next first
        have before : place ∈ c.reported := by
          revert latest
          cases c.reported <;> simp
        cases first
        rw [anchored]
        exact fresh place before
    · rw [List.map_singleton, List.getLast?_concat, anchored]
      rfl
    · exact List.forall_mem_singleton.mpr sited

theorem missing_rises (inside : c.Inside tokens) {kind : DiagnosticKind} (message : String)
    (point : kind ≠ .unclosedBlock) : Rises tokens c (c.missing kind message) := by
  have looked : Rises tokens c c.trace := rises_silent rfl rfl
  refine looked.andThen (Rises.andThen (report_rises ?_ ?_ ?_) ?_)
  · exact inside.prompt
  · exact if_neg point
  · exact ⟨List.forall_mem_singleton.mpr inside.aligned, fun block => absurd block point⟩
  · exact rises_silent (by rw [Cursor.gap_eq]) (by rw [Cursor.gap_eq])

theorem skip_rises (inside : c.Inside tokens) (complaint : Complaint) :
    Rises tokens c (c.skip complaint) := by
  have looked : Rises tokens c (c.look 0 (.single TokenKind.endOfInput)) := rises_silent rfl rfl
  apply looked.andThen
  split
  · exact rises_silent rfl rfl
  · refine Rises.andThen (rises_silent rfl rfl) (Rises.andThen (report_rises ?_ ?_ ?_) ?_)
    · exact inside.prompt
    · rfl
    · exact ⟨List.forall_mem_singleton.mpr inside.aligned, DiagnosticKind.noConfusion⟩
    · exact rises_silent (by rw [Cursor.discard_eq]) (by rw [Cursor.discard_eq])

theorem unclosed_rises (inside : c.Inside tokens) (what : String) {span : Span} {brace : Token}
    (located : (span, brace) ∈ Token.locate 0 tokens) (opening : brace.kind = .braceOpen)
    (clear : (c.unclosed what span).faults = []) : Rises tokens c (c.unclosed what span) := by
  have checked := (Outcome.andThen_clear clear).1
  have at_end : c.kindAhead 0 = .endOfInput := by simpa [Outcome.check] using checked
  have finish := inside.finish at_end
  have aligned := aligned_located located
  have before : span.stop ≤ widthOf tokens := by
    simpa using (Token.mem_locate located).2.2.2
  have whole : Span.Aligned tokens ⟨span.start, c.spanAhead.stop⟩ := by
    refine ⟨aligned.1, inside.aligned.2.1, ?_⟩
    rw [finish]
    exact aligned.2.2.trans before
  refine Rises.andThen (rises_silent rfl rfl) (Rises.andThen (report_rises ?_ ?_ ?_) ?_)
  · exact inside.prompt
  · exact c.spanAhead_over inside.solid at_end
  · refine ⟨?_, fun _ => ⟨finish, _, brace, rfl, located, opening⟩⟩
    exact List.forall_mem_cons.mpr ⟨whole, List.forall_mem_singleton.mpr aligned⟩
  · exact rises_silent (by rw [Cursor.gap_eq]) (by rw [Cursor.gap_eq])

theorem closeBlock_rises (inside : c.Inside tokens) (what : String) {span : Span} {brace : Token}
    (located : (span, brace) ∈ Token.locate 0 tokens) (opening : brace.kind = .braceOpen)
    (clear : (c.closeBlock what span).faults = []) : Rises tokens c (c.closeBlock what span) := by
  unfold Cursor.closeBlock at clear ⊢
  split
  · rename_i closes
    obtain ⟨token, rest, due, -⟩ := c.due_of_kindAhead (by rw [closes]; exact TokenKind.noConfusion)
    exact rises_silent (by rw [c.take_eq _ _ due]) (by rw [c.take_eq _ _ due])
  · rename_i absent
    rw [if_neg absent] at clear
    exact unclosed_rises inside what located opening clear

theorem check_rises (holds : Bool) (fault : Fault) (answer : Bool) :
    Rises tokens c (.check holds fault answer c) :=
  rises_silent rfl rfl

theorem take_rises (among : KindSet) (retag : Option TokenKind) :
    Rises tokens c (c.take among retag) := by
  refine Rises.andThen (rises_silent rfl rfl) ?_
  split
  · exact rises_silent rfl rfl
  · exact rises_silent rfl rfl

theorem brace_located (inside : c.Inside tokens)
    (clear : (c.take (.single TokenKind.braceOpen) none).faults = []) :
    ∃ brace : Token, (c.spanAhead, brace) ∈ Token.locate 0 tokens ∧ brace.kind = .braceOpen := by
  cases due : c.due with
  | nil =>
    rw [Cursor.take, Cursor.settle_eq] at clear
    simp [due, Outcome.andThen, Outcome.check] at clear
  | cons token rest =>
    refine ⟨token, inside.located due, ?_⟩
    rw [c.take_eq _ _ due] at clear
    simpa using clear

end

namespace Production

variable {tokens : List Token}

theorem rounds_rises {round : Cursor → Outcome}
    (inner : ∀ c : Cursor, c.Inside tokens → (round c).faults = [] →
      Rises tokens c (round c) ∧ (round c).cursor.Inside tokens)
    (limit : List Token) {c : Cursor} (inside : c.Inside tokens)
    (clear : (rounds round limit c).faults = []) : Rises tokens c (rounds round limit c) := by
  apply rounds_induction (Cursor.Inside tokens) _ _ _ limit inside clear
  · exact fun c inside one => (inner c inside one).2
  · exact fun _ _ => rises_silent rfl rfl
  · exact fun c rest inside one _ later => (inner c inside one).1.andThen later

theorem run_rises (x : Production) (ordinary : x.isOrdinary = true) {c : Cursor}
    (inside : c.Inside tokens) (clear : (x.run c).faults = []) : Rises tokens c (x.run c) := by
  induction x using wrapped_induction generalizing c with
  | answer | look | glance | pass | settle | count | into => exact rises_silent rfl rfl
  | impossible => exact check_rises _ _ _
  | demand among => exact Rises.andThen (rises_silent rfl rfl) (check_rises _ _ _)
  | take among => exact take_rises among none
  | name => exact take_rises .words (some .identifier)
  | within kind body ih =>
    simp only [isOrdinary, Bool.and_eq_true] at ordinary
    exact (ih ordinary.2 inside clear).wrapped kind
  | scope body ih => exact (ih ordinary inside clear).closed
  | wrap yes no first question rest ih =>
    simp only [isOrdinary, Bool.and_eq_true] at ordinary
    have plain : (wrapped first question rest).isOrdinary = true := by
      simp only [wrapped, isOrdinary, ordinary, Bool.and_true]
    exact (ih plain inside clear).wrapped _
  | seq first second first_ih second_ih =>
    simp only [isOrdinary, Bool.and_eq_true] at ordinary
    obtain ⟨first_clear, second_clear⟩ := Outcome.andThen_clear clear
    exact (first_ih ordinary.1 inside first_clear).andThen
      (second_ih ordinary.2 (inside.run first first_clear) second_clear)
  | branch question yes no question_ih yes_ih no_ih =>
    simp only [isOrdinary, Bool.and_eq_true] at ordinary
    obtain ⟨⟨question_plain, yes_plain⟩, no_plain⟩ := ordinary
    obtain ⟨asked, ⟨rest, whole⟩ | ⟨rest, whole⟩⟩ := branch_cases clear
    all_goals
      rw [whole]
      apply (question_ih question_plain inside asked).andThen
    · exact yes_ih yes_plain (inside.run question asked) rest
    · exact no_ih no_plain (inside.run question asked) rest
  | loop body ih =>
    refine rounds_rises (fun c inside clear => ?_) _ inside clear
    exact ⟨ih ordinary inside clear, inside.run body clear⟩
  | missing kind message =>
    simp only [isOrdinary, Bool.and_eq_true, decide_eq_true_eq] at ordinary
    exact missing_rises inside message ordinary.2
  | skip complaint => exact skip_rises inside complaint
  | block what body ih =>
    obtain ⟨open_clear, body_clear, close_clear⟩ := Cursor.block_clear clear
    rw [run, Cursor.block]
    obtain ⟨brace, located, opening⟩ := brace_located inside open_clear
    have opened := inside.run (takeKind .braceOpen) open_clear
    have closing := opened.run body body_clear
    exact (take_rises _ none).andThen ((ih ordinary opened body_clear).andThen
      (closeBlock_rises closing what located opening close_clear))

end Production

theorem Boundary.position {source : List Char} {place : Nat}
    (boundary : Boundary (lex source) place) : (positionAt? source place).isSome = true := by
  obtain ⟨before, after, split, rfl⟩ := boundary
  have text : source = before.flatMap Token.text ++ after.flatMap Token.text := by
    rw [← List.flatMap_append, ← split, lex_text]
  rw [← byteLength_texts, positionAt?]
  conv in source => rw [text]
  rw [Position.advance_text]
  rfl

theorem Boundary.within {source : List Char} {place : Nat}
    (boundary : Boundary (lex source) place) : place ≤ byteLength source := by
  obtain ⟨before, after, split, rfl⟩ := boundary
  rw [← lex_width, split, widthOf_append]
  exact Nat.le_add_right _ _

def TokenKind.problem? : TokenKind → Option DiagnosticKind
  | unterminatedString => some .unterminatedString
  | unterminatedComment => some .unterminatedComment
  | garbage => some .invalidCharacter
  | _ => none

theorem ofToken_problem (span : Span) (token : Token) :
    (Diagnostic.ofToken? span token).map (fun d => (d.span, some d.kind)) =
      if token.kind.isError then some (span, token.kind.problem?) else none := by
  unfold Diagnostic.ofToken?
  cases token.kind <;> rfl

theorem lexical_problems (tokens : List Token) :
    (Diagnostic.lexical tokens).map (fun d => (d.span, some d.kind)) =
      ((Token.locate 0 tokens).filter fun located => located.2.kind.isError).map
        fun located => (located.1, located.2.kind.problem?) := by
  rw [Diagnostic.lexical, List.map_filterMap, ← List.filterMap_eq_map, List.filterMap_filter]
  refine List.filterMap_congr fun located _ => ?_
  exact ofToken_problem located.1 located.2

theorem lexical_aligned {tokens : List Token} {d : Diagnostic}
    (member : d ∈ Diagnostic.lexical tokens) : ∀ span ∈ d.spans, span.Aligned tokens := by
  obtain ⟨⟨place, token⟩, located, reported⟩ := List.mem_filterMap.mp member
  have point : d.spans = [place] := by
    revert reported
    simp only [Diagnostic.ofToken?]
    split <;> (intro reported; cases reported) <;> rfl
  rw [point]
  exact List.forall_mem_singleton.mpr (aligned_located located)

theorem parsed_rises (source : List Char) :
    Rises (lex source) (.start (lex source)) (parsed (lex source)) := by
  refine Production.run_rises _ sourceFile_ordinary ?_ (parsed_clear source)
  refine ⟨⟨lex_solid source, lex_wide source, .inr ?_⟩, [], rfl, rfl⟩
  intro place none
  cases none

theorem structural_rising (source : List Char) :
    ((parse source).structural.map Diagnostic.anchor).Pairwise (· < ·) := by
  rw [parse_structural]
  exact List.isChain_iff_pairwise.mp (parsed_rises source).rising

theorem diagnostics_aligned {source : List Char} {d : Diagnostic}
    (member : d ∈ (parse source).diagnostics) : ∀ span ∈ d.spans, span.Aligned (lex source) := by
  rw [parse_diagnostics] at member
  rcases List.mem_append.mp member with lexical | report
  · exact lexical_aligned lexical
  · exact ((parsed_rises source).sited d report).aligned

theorem unclosed_once (source : List Char) :
    ((parse source).diagnostics.filter fun d => d.kind = .unclosedBlock).length ≤ 1 := by
  have structural : (parse source).diagnostics.filter (fun d => d.kind = .unclosedBlock) =
      (parsed (lex source)).reports.filter fun d => d.kind = .unclosedBlock := by
    have none : (Diagnostic.lexical (lex source)).filter (fun d => d.kind = .unclosedBlock) = [] := by
      refine List.filter_eq_nil_iff.mpr fun d member block => ?_
      have lexical := (lexical_lexical member).1
      rw [of_decide_eq_true block] at lexical
      cases lexical
    rw [parse_diagnostics, List.filter_append, none, List.nil_append]
  rw [structural]
  have rising := structural_rising source
  rw [parse_structural, List.pairwise_map] at rising
  have blocks := rising.filter fun d => d.kind = .unclosedBlock
  have last : ∀ d ∈ (parsed (lex source)).reports.filter (fun d => d.kind = .unclosedBlock),
      d.anchor = widthOf (lex source) := by
    intro d member
    obtain ⟨report, block⟩ := List.mem_filter.mp member
    exact (((parsed_rises source).sited d report).block (of_decide_eq_true block)).1
  generalize (parsed (lex source)).reports.filter (fun d => d.kind = .unclosedBlock) = unclosed
    at blocks last ⊢
  match unclosed with
  | [] => exact Nat.zero_le _
  | [_] => exact Nat.le_refl _
  | d :: e :: _ =>
    have before := List.rel_of_pairwise_cons blocks List.mem_cons_self
    rw [last d List.mem_cons_self, last e (List.mem_cons_of_mem _ List.mem_cons_self)] at before
    exact absurd before (Nat.lt_irrefl _)

/-- Diagnostics are one for each error token in the order of the text, then those about tokens in the
wrong place, each anchored further on than the one before. At most one block is reported as unclosed,
with a note at its opening brace. All of them point to whole tokens, so every place has a line and a
column. -/
theorem diagnostics_ordered (source : List Char) :
    (parse source).diagnostics = (parse source).lexical ++ (parse source).structural ∧
      ((parse source).lexical.map fun d => (d.span, some d.kind)) =
        (((Token.locate 0 (lex source)).filter fun located => located.2.kind.isError).map
          fun located => (located.1, located.2.kind.problem?)) ∧
      ((parse source).structural.map Diagnostic.anchor).Pairwise (· < ·) ∧
      ((parse source).diagnostics.filter fun d => d.kind = .unclosedBlock).length ≤ 1 ∧
      (∀ d ∈ (parse source).diagnostics, d.kind = .unclosedBlock →
        ∃ note brace, d.notes = [note] ∧ (note.span, brace) ∈ Token.locate 0 (lex source) ∧
          brace.kind = .braceOpen) ∧
      ∀ d ∈ (parse source).diagnostics, ∀ span ∈ d.spans,
        span.Aligned (lex source) ∧ span.stop ≤ byteLength source ∧
          (positionAt? source span.start).isSome ∧ (positionAt? source span.stop).isSome := by
  refine ⟨?_, ?_, structural_rising source, unclosed_once source, ?_, ?_⟩
  · rw [parse_lexical, parse_structural, parse_diagnostics]
  · rw [parse_lexical]
    exact lexical_problems (lex source)
  · intro d member block
    rw [parse_diagnostics] at member
    rcases List.mem_append.mp member with lexical | report
    · have problem := (lexical_lexical lexical).1
      rw [block] at problem
      cases problem
    · exact (((parsed_rises source).sited d report).block block).2
  · intro d member span pointed
    have aligned := diagnostics_aligned member span pointed
    exact ⟨aligned, aligned.2.1.within, aligned.1.position, aligned.2.1.position⟩

end CraftDsl
