import CraftDsl.Proofs.BlankLines.Pace

/-!
One more newline. Where a production takes newlines in loops only, each in a round of its own, and its
heeded looks stop at newlines, a second newline right after one changes nothing about what it adds,
newlines left out, unless it leaves an error node. Main statement: `steady_run`.
-/
namespace CraftDsl

def Apart (newline extra : Token) (later : List Token) (c d : Cursor) : Prop :=
  d.due = c.due ∨
    ∃ before, c.due = before ++ newline :: later ∧ d.due = before ++ newline :: extra :: later

theorem dropWhile_newline (before after : List Token) {newline : Token}
    (solid : newline.isTrivia = false) :
    (before ++ newline :: after).dropWhile Token.isTrivia =
      before.dropWhile Token.isTrivia ++ newline :: after := by
  induction before with
  | nil => exact List.dropWhile_cons_of_neg (Bool.eq_false_iff.mp solid)
  | cons token before ih =>
    rw [List.cons_append, List.dropWhile_cons, List.dropWhile_cons, ih]
    split <;> rfl

theorem newline_solid {token : Token} (newline : token.kind = .newline) : token.isTrivia = false := by
  rw [Token.isTrivia, newline]
  rfl

section

variable {newline extra : Token} {later : List Token} {c d : Cursor}

namespace Apart

theorem kindAhead (apart : Apart newline extra later c d) (line : newline.kind = .newline) {n : Nat}
    (near : ∀ m < n, c.kindAhead m ≠ .newline) : d.kindAhead n = c.kindAhead n := by
  rw [← c.kindAhead_due, ← d.kindAhead_due]
  rcases apart with same | ⟨before, here, there⟩
  · rw [same]
  · have solid := newline_solid line
    rw [here, there]
    rcases Nat.lt_trichotomy n (solidCount before) with inside | rfl | past
    · rw [kindIn_append _ inside, kindIn_append _ inside]
    · rw [kindIn_solidCount before _ solid, kindIn_solidCount before _ solid]
    · refine absurd ?_ (near _ past)
      rw [← c.kindAhead_due, here, kindIn_solidCount before _ solid, line]

theorem next (apart : Apart newline extra later c d) (line : newline.kind = .newline) :
    d.kindAhead 0 = c.kindAhead 0 := apart.kindAhead line nofun

/-- The places stay apart by a newline at most when as many tokens are left behind. -/
theorem of_ahead (solid : newline.isTrivia = false)
    (ahead : d.ahead = c.ahead ∨
      ∃ before, c.ahead = before ++ newline :: later ∧ d.ahead = before ++ newline :: extra :: later) :
    Apart newline extra later c d := by
  rcases ahead with same | ⟨before, here, there⟩
  · exact .inl (congrArg (List.dropWhile Token.isTrivia) same)
  · refine .inr ⟨before.dropWhile Token.isTrivia, ?_, ?_⟩
    · rw [Cursor.due, here, dropWhile_newline before later solid]
    · rw [Cursor.due, there, dropWhile_newline before (extra :: later) solid]

end Apart

theorem Cursor.skip_over (c : Cursor) (complaint : Complaint) (last : c.kindAhead 0 = .endOfInput) :
    (c.skip complaint).pieces = [] ∧ (c.skip complaint).cursor.ahead = c.ahead := by
  have answer : (c.look 0 (.single TokenKind.endOfInput)).answer = true :=
    (KindSet.has_token _ _).mpr last
  rw [Cursor.skip, Outcome.andThen, if_pos answer]
  exact ⟨rfl, rfl⟩

def apace (newline extra : Token) (later : List Token) : Pace where
  near := Apart newline extra later
  known := Outcome.Clean
  parts := Outcome.Clean.andThen
  inside := Outcome.Clean.wrapped
  before := Outcome.Clean.closed

end

namespace Production

abbrev cautious (x : Production) (inside idle : Bool) : Production :=
  x.checkLooks (fun _ => clearOf .newline) inside idle

theorem cautious_run (x : Production) (inside idle : Bool) : x.Checked (x.cautious inside idle) :=
  checkLooks_run (fun _ _ _ _ clear => (clearOf_run clear).1.symm) x inside idle

def asks? : Production → Option KindSet
  | look 0 among | glance 0 among => some among
  | _ => none

def isTake : Production → Bool
  | take _ => true
  | _ => false

mutual

def steady : Production → Bool
  | take among => !among.has (.token .newline)
  | within _ body | scope body | block _ body => body.steady
  | wrap _ _ first question rest => first.steady && question.steady && rest.steady
  | seq first second => first.steady && second.steady
  | branch question yes no => question.steady && yes.steady && no.steady
  | loop body => body.steady || body.lines
  | _ => true

/-- Whether a newline is all that is taken in a round, and other rounds take none. -/
def lines : Production → Bool
  | branch question yes no =>
    match question.asks? with
    | some among =>
      if among.has (.token .newline) then yes.isTake && no.steady else yes.steady && no.lines
    | none => false
  | _ => false

end

end Production

section

variable {newline extra : Token} {later : List Token} {c d : Cursor} (line : newline.kind = .newline)

include line

omit line in
theorem apart_settle (apart : Apart newline extra later c d) {idle : Bool} :
    (apace newline extra later).Matches idle c.settle d.settle := by
  have due (c : Cursor) : c.settle.cursor.due = c.due := by
    rw [c.settle_eq]
    exact c.dropWhile_due
  refine ⟨.inr ?_, ?_, ?_⟩
  · rw [c.settle_eq, d.settle_eq]
  · rw [c.settle_eq, d.settle_eq, corePieces_pending, corePieces_pending]
  · show Apart newline extra later c.settle.cursor d.settle.cursor
    rw [Apart, due, due]
    exact apart

theorem apart_take (apart : Apart newline extra later c d) {idle : Bool} {among : KindSet}
    {retag : Option TokenKind} (other : c.kindAhead 0 ≠ .newline)
    (clear : (c.take among retag).faults = []) :
    (apace newline extra later).Matches idle (c.take among retag) (d.take among retag) := by
  obtain ⟨token, tokens, due⟩ := Cursor.due_of_take clear
  obtain ⟨tokens', due', ahead⟩ : ∃ tokens', d.due = token :: tokens' ∧ (tokens' = tokens ∨
      ∃ before, tokens = before ++ newline :: later ∧
        tokens' = before ++ newline :: extra :: later) := by
    rcases apart with same | ⟨before, here, there⟩
    · exact ⟨tokens, same.trans due, .inl rfl⟩
    · cases before with
      | nil =>
        obtain rfl : token = newline := (List.cons.inj (due.symm.trans here)).1
        exact absurd ((c.due_cons due).2.1.trans line) other
      | cons first before =>
        obtain ⟨rfl, rfl⟩ := List.cons.inj (due.symm.trans here)
        exact ⟨_, there, .inr ⟨before, rfl, rfl⟩⟩
  rw [c.take_eq among retag due, d.take_eq among retag due']
  refine ⟨.inr rfl, ?_, .of_ahead (newline_solid line) ahead⟩
  simp only [corePieces_append, corePieces_pending]

end

namespace Production

theorem asks_run {question : Production} {among : KindSet} (asks : question.asks? = some among)
    (c : Cursor) : (question.run c).answer = among.has (c.kindAhead 0) ∧
      (question.run c).pieces = [] ∧ (question.run c).cursor.ahead = c.ahead := by
  unfold asks? at asks
  split at asks
  · cases asks
    exact ⟨rfl, rfl, rfl⟩
  · cases asks
    exact ⟨rfl, rfl, rfl⟩
  · cases asks

theorem lines_cases {question yes no : Production} (own : (branch question yes no).lines = true) :
    ∃ among, question.asks? = some among ∧
      (among.has (.token .newline) = true ∧ yes.isTake = true ∧ no.steady = true ∨
        among.has (.token .newline) = false ∧ yes.steady = true ∧ no.lines = true) := by
  rw [lines] at own
  split at own
  · rename_i among asks
    refine ⟨among, asks, ?_⟩
    split at own
    · rename_i there
      exact .inl ⟨there, Bool.and_eq_true_iff.mp own⟩
    · rename_i absent
      exact .inr ⟨Bool.eq_false_iff.mpr absent, Bool.and_eq_true_iff.mp own⟩
  · cases own

theorem asks_steady {question : Production} {among : KindSet} (asks : question.asks? = some among) :
    question.steady = true := by
  unfold asks? at asks
  split at asks
  · rfl
  · rfl
  · cases asks

theorem isTake_eq {x : Production} (own : x.isTake = true) : ∃ among, x = take among := by
  unfold isTake at own
  split at own
  · exact ⟨_, rfl⟩
  · cases own

/-- A newline that is asked for and comes next is taken, whatever may be taken there. -/
theorem newline_taken {question no : Production} {among set : KindSet}
    (asks : question.asks? = some among) (there : among.has (.token .newline) = true) {c : Cursor}
    {token : Token} {tokens : List Token} (due : c.due = token :: tokens)
    (newline : token.kind = .newline) :
    ((branch question (take set) no).run c).answer = true ∧
      corePieces ((branch question (take set) no).run c).pieces = [] ∧
      ((branch question (take set) no).run c).cursor.ahead = tokens := by
  obtain ⟨answer, pieces, ahead⟩ := asks_run asks c
  rw [(c.due_cons due).2.1, newline] at answer
  have due' : (question.run c).cursor.due = token :: tokens := by
    rw [Cursor.due, ahead]
    exact due
  rw [run_yes (answer.trans there)]
  have took := Cursor.take_eq _ set none due'
  refine ⟨Cursor.take_answer _ _ _, ?_, ?_⟩
  · show corePieces ((question.run c).pieces ++ ((question.run c).cursor.take set none).pieces) = []
    rw [pieces, took, List.nil_append, corePieces_append, corePieces_pending]
    exact corePieces_blank (List.forall_mem_singleton.mpr (.inr newline) :
      ∀ t ∈ [(⟨token.kind, token.text⟩ : Token)], _)
  · show ((question.run c).cursor.take set none).cursor.ahead = tokens
    rw [took]

theorem lines_newline (x : Production) (own : x.lines = true) {c : Cursor} {token : Token}
    {tokens : List Token} (due : c.due = token :: tokens) (newline : token.kind = .newline) :
    (x.run c).answer = true ∧ corePieces (x.run c).pieces = [] ∧ (x.run c).cursor.ahead = tokens := by
  induction x generalizing c with
  | branch question yes no _ _ no_ih =>
    obtain ⟨among, asks, cases⟩ := lines_cases own
    rcases cases with ⟨there, takes, -⟩ | ⟨absent, -, rest⟩
    · obtain ⟨set, rfl⟩ := isTake_eq takes
      exact newline_taken asks there due newline
    · obtain ⟨answer, pieces, ahead⟩ := asks_run asks c
      rw [(c.due_cons due).2.1, newline] at answer
      have due' : (question.run c).cursor.due = token :: tokens := by
        rw [Cursor.due, ahead]
        exact due
      rw [run_no (Bool.eq_false_iff.mp (answer.trans absent))]
      obtain ⟨replied, core, after⟩ := no_ih rest due'
      refine ⟨replied, ?_, after⟩
      show corePieces ((question.run c).pieces ++ _) = []
      rw [pieces, List.nil_append, core]
  | _ => cases own

section

variable {newline extra : Token} {later : List Token} {c d : Cursor} {idle : Bool}
  (line : newline.kind = .newline)

abbrev Doubles (newline extra : Token) (later : List Token) (x : Production) : Prop :=
  ∀ inside idle, (x.cautious inside idle).Mirrors (apace newline extra later) idle x

include line

theorem doubles_asked {x : Production} {n : Nat}
    (still : ∀ c : Cursor, (x.run c).cursor.due = c.due ∧ (x.run c).pieces = [])
    (answers : ∀ {c d : Cursor}, d.kindAhead n = c.kindAhead n →
      (x.run d).answer = (x.run c).answer)
    (idle : Bool) :
    (if idle then x else clearOf .newline n x).Mirrors (apace newline extra later) idle x := by
  intro c d apart clear _ _
  have near : (apace newline extra later).near (x.run c).cursor (x.run d).cursor := by
    show Apart newline extra later _ _
    rw [Apart, (still c).1, (still d).1]
    exact apart
  have core : corePieces (x.run d).pieces = corePieces (x.run c).pieces := by
    rw [(still c).2, (still d).2]
  cases idle with
  | true => exact ⟨.inl rfl, core, near⟩
  | false =>
    obtain ⟨same, before⟩ := clearOf_run clear
    have whole : (if false = true then x else clearOf .newline n x).run c = x.run c := same
    rw [whole]
    exact ⟨.inr (answers (Apart.kindAhead apart line before)), core, near⟩

theorem doubles_take {among : KindSet} {retag : Option TokenKind}
    (other : among.has (.token .newline) = false) (apart : Apart newline extra later c d)
    (clear : (c.take among retag).faults = []) :
    (apace newline extra later).Matches idle (c.take among retag) (d.take among retag) := by
  obtain ⟨token, tokens, due⟩ := Cursor.due_of_take clear
  refine apart_take line apart (fun next => ?_) clear
  have member := Cursor.has_of_take due clear
  rw [← (c.due_cons due).2.1, next, other] at member
  cases member

omit line in
/-- In both places the production does the same unless a newline comes next. -/
abbrev Skirts (newline extra : Token) (later : List Token) (x : Production) : Prop :=
  ∀ (inside : Bool) ⦃c d : Cursor⦄, Apart newline extra later c d → c.kindAhead 0 ≠ .newline →
    ((x.cautious inside false).run c).faults = [] → (x.run d).faults = [] →
      ((x.cautious inside false).run c).Clean →
        (apace newline extra later).Matches false ((x.cautious inside false).run c) (x.run d)

theorem skirts_branch {question yes no : Production} (own : (branch question yes no).lines = true)
    (asking : question.Doubles newline extra later)
    (affirming : yes.steady = true → yes.Doubles newline extra later)
    (denying : no.steady = true → no.Doubles newline extra later)
    (onward : no.lines = true → no.Skirts newline extra later) :
    (branch question yes no).Skirts newline extra later := by
  intro inside c d apart other clear clear' clean
  obtain ⟨among, asks, cases⟩ := lines_cases own
  obtain ⟨asked, rest⟩ := Outcome.andThen_clear clear
  obtain ⟨asked', rest'⟩ := Outcome.andThen_clear clear'
  obtain ⟨clean_first, clean_rest⟩ := clean.andThen
  have start := asking inside false apart asked asked' clean_first
  have same := start.answer.resolve_left Bool.false_ne_true
  have still : ((question.cautious inside false).run c).cursor.kindAhead 0 ≠ .newline := by
    rw [← cautious_run question inside false asked, Cursor.kindAhead, (asks_run asks c).2.2]
    exact other
  rw [same] at rest'
  apply start.andThen
  rw [same]
  by_cases answer : ((question.cautious inside false).run c).answer = true
  · rw [if_pos answer] at rest rest' clean_rest
    rw [if_pos answer, if_pos answer]
    rcases cases with ⟨-, takes, -⟩ | ⟨-, calm, -⟩
    · obtain ⟨set, rfl⟩ := isTake_eq takes
      exact apart_take line start.cursor still rest
    · exact affirming calm inside false start.cursor rest rest' clean_rest
  · rw [if_neg answer] at rest rest' clean_rest
    rw [if_neg answer, if_neg answer]
    rcases cases with ⟨-, -, calm⟩ | ⟨-, -, own_rest⟩
    · exact denying calm inside false start.cursor rest rest' clean_rest
    · exact onward own_rest inside start.cursor still rest rest' clean_rest

omit line in
theorem rounds_newline {body : Production} (own : body.lines = true) {limit : List Token}
    {token : Token} {tokens : List Token} (due : d.due = token :: tokens)
    (kind : token.kind = .newline) (clear : (rounds body.run limit d).faults = []) :
    (body.run d).cursor.ahead = tokens ∧
      (rounds body.run limit.tail (body.run d).cursor).faults = [] ∧
      Outcome.Onward [] (rounds body.run limit d)
        (rounds body.run limit.tail (body.run d).cursor) := by
  obtain ⟨again, core, ahead⟩ := lines_newline body own due kind
  obtain ⟨rest, onward⟩ := rounds_again clear again
  rw [core] at onward
  exact ⟨ahead, rest, onward⟩

/-- Where the newline that is doubled comes next, the second loop has one more round. -/
theorem newline_passed {body : Production} (own : body.lines = true) (also : extra.kind = .newline)
    {limit : List Token} {token : Token} {tokens : List Token} (due : c.due = token :: tokens)
    (kind : token.kind = .newline) (apart : Apart newline extra later c d)
    (clear : (rounds body.run limit d).faults = []) :
    Passes (apace newline extra later) body.run limit d (body.run c) := by
  obtain ⟨-, core, ahead⟩ := lines_newline body own due kind
  rw [Passes, core]
  rcases apart with same | ⟨before, split, split'⟩
  · obtain ⟨ahead', rest, onward⟩ := rounds_newline own (same.trans due) kind clear
    exact ⟨_, _, Apart.of_ahead (newline_solid line) (.inl (ahead'.trans ahead.symm)), rest, onward⟩
  · cases before with
    | cons first before =>
      obtain ⟨rfl, rfl⟩ := List.cons.inj (due.symm.trans split)
      obtain ⟨ahead', rest, onward⟩ := rounds_newline own split' kind clear
      exact ⟨_, _, Apart.of_ahead (newline_solid line) (.inr ⟨before, ahead, ahead'⟩), rest, onward⟩
    | nil =>
      obtain ⟨rfl, rfl⟩ := List.cons.inj (due.symm.trans split)
      obtain ⟨ahead', rest, onward⟩ := rounds_newline own split' kind clear
      -- The newline is the doubled one: the second loop takes the extra one in a further round.
      have due' : (body.run d).cursor.due = extra :: tokens := by
        rw [Cursor.due, ahead']
        exact List.dropWhile_cons_of_neg (Bool.eq_false_iff.mp (newline_solid also))
      obtain ⟨last, more, further⟩ := rounds_newline own due' also rest
      exact ⟨_, _, Apart.of_ahead (newline_solid line) (.inl (last.trans ahead.symm)), more,
        onward.trans further⟩

theorem doubles_lines {body : Production} (own : body.lines = true) (also : extra.kind = .newline)
    (skirts : body.Skirts newline extra later) : (loop body).Doubles newline extra later := by
  intro inside idle c d apart clear clear' clean
  refine rounds_mirrors ?_ c.ahead d.ahead apart clear clear' clean
  intro c d limit apart one rest clean
  by_cases next : c.kindAhead 0 = .newline
  · obtain ⟨token, tokens, due, -, here, -⟩ :=
      c.due_of_kindAhead (by rw [next]; exact TokenKind.noConfusion)
    have kind := here.symm.trans next
    rw [← cautious_run body inside false one]
    exact .inr ⟨(lines_newline body own due kind).1, newline_passed line own also due kind apart rest⟩
  · exact .inl (skirts inside apart next one (rounds_clear rest) clean)

theorem doubles_skip (complaint : Complaint) : (skip complaint).Doubles newline extra later := by
  intro inside idle c d apart _ _ clean
  have last : c.kindAhead 0 = .endOfInput := by
    by_contra more
    exact Cursor.skip_unclean complaint more clean
  obtain ⟨pieces, ahead⟩ := c.skip_over complaint last
  obtain ⟨pieces', ahead'⟩ := d.skip_over complaint ((apart.next line).trans last)
  refine ⟨.inr ?_, ?_, ?_⟩
  · exact (d.skip_answer complaint).trans (c.skip_answer complaint).symm
  · exact congrArg corePieces (pieces'.trans pieces.symm)
  · show Apart newline extra later (c.skip complaint).cursor (d.skip complaint).cursor
    rw [Apart, Cursor.due, Cursor.due, ahead, ahead']
    exact apart

theorem doubles_block {body : Production} (inner : body.Doubles newline extra later)
    (what : String) : (block what body).Doubles newline extra later := by
  intro inside idle
  refine mirrors_block ?_ (inner true true) ?_
  · exact fun c d apart clear _ _ => doubles_take line (by decide) apart clear
  · intro _ b' c d _ apart clear _ clean
    obtain ⟨closing, taken⟩ := Cursor.closeBlock_clean clean
    have taken' : d.closeBlock what b'.spanAhead = d.take (.single TokenKind.braceClose) none :=
      if_pos ((apart.next line).trans closing)
    rw [taken] at clear ⊢
    rw [taken']
    exact doubles_take line (by decide) apart clear

omit line in
theorem doubles_demand (among : KindSet) : (demand among).Doubles newline extra later :=
  fun _ _ _ _ apart _ _ _ => ⟨.inr rfl, rfl, apart⟩

/-- A newline right after another one changes nothing about what a production adds, newlines left out,
if it leaves no error node. -/
theorem steady_run (also : extra.kind = .newline) (x : Production) :
    (x.steady = true → x.Doubles newline extra later) ∧
      (x.lines = true → x.Skirts newline extra later) := by
  induction x with
  | answer value => exact ⟨fun _ _ idle => mirrors_answer value, Bool.noConfusion⟩
  | look n among =>
    refine ⟨fun _ _ => doubles_asked line (fun c => ⟨rfl, rfl⟩) fun {c d} same => ?_,
      Bool.noConfusion⟩
    show among.has (d.kindAhead n) = among.has (c.kindAhead n)
    rw [same]
  | glance n among =>
    refine ⟨fun _ _ => doubles_asked line (fun c => ⟨rfl, rfl⟩) fun {c d} same => ?_,
      Bool.noConfusion⟩
    show among.has (d.kindAhead n) = among.has (c.kindAhead n)
    rw [same]
  | demand among => exact ⟨fun _ => doubles_demand among, Bool.noConfusion⟩
  | impossible =>
    exact ⟨fun _ _ _ _ _ _ clear _ _ => absurd clear (List.cons_ne_nil _ _), Bool.noConfusion⟩
  | take among =>
    refine ⟨fun calm _ idle c d apart clear _ _ => ?_, Bool.noConfusion⟩
    exact doubles_take line ((Bool.not_eq_true' _).mp calm) apart clear
  | name =>
    refine ⟨fun _ _ idle c d apart clear _ _ => ?_, Bool.noConfusion⟩
    exact doubles_take line (by decide) apart clear
  | pass => exact ⟨fun _ _ idle c d apart _ _ _ => Pace.quiet apart true, Bool.noConfusion⟩
  | settle => exact ⟨fun _ _ idle c d apart _ _ _ => apart_settle apart, Bool.noConfusion⟩
  | within kind body ih =>
    exact ⟨fun calm inside idle => mirrors_within (ih.1 calm inside idle) kind, Bool.noConfusion⟩
  | into kind => exact ⟨fun _ _ idle c d apart _ _ _ => ⟨.inr rfl, rfl, apart⟩, Bool.noConfusion⟩
  | count opened =>
    exact ⟨fun _ _ idle c d apart _ _ _ => Pace.quiet apart true, Bool.noConfusion⟩
  | scope body ih => exact ⟨fun calm inside idle => mirrors_scope (ih.1 calm inside idle), Bool.noConfusion⟩
  | wrap yes no first question rest first_ih question_ih rest_ih =>
    refine ⟨fun calm inside idle => ?_, Bool.noConfusion⟩
    simp only [steady, Bool.and_eq_true] at calm
    exact mirrors_wrap (first_ih.1 calm.1.1 inside true) (question_ih.1 calm.1.2 inside false)
      (rest_ih.1 calm.2 inside true) yes no
  | seq first second first_ih second_ih =>
    refine ⟨fun calm inside idle => ?_, Bool.noConfusion⟩
    obtain ⟨one, two⟩ := Bool.and_eq_true_iff.mp calm
    exact mirrors_seq (first_ih.1 one inside true) (second_ih.1 two inside idle)
  | branch question yes no question_ih yes_ih no_ih =>
    constructor
    · intro calm inside idle
      simp only [steady, Bool.and_eq_true] at calm
      exact mirrors_branch (question_ih.1 calm.1.1 inside false) (yes_ih.1 calm.1.2 inside idle)
        (no_ih.1 calm.2 inside idle)
    · intro own
      obtain ⟨among, asks, -⟩ := lines_cases own
      exact skirts_branch line own (question_ih.1 (asks_steady asks)) yes_ih.1 no_ih.1 no_ih.2
  | loop body ih =>
    refine ⟨fun calm inside idle => ?_, Bool.noConfusion⟩
    rcases Bool.or_eq_true_iff.mp calm with within | own
    · exact mirrors_loop (ih.1 within inside false)
    · exact doubles_lines line own also (ih.2 own) inside idle
  | missing kind message =>
    exact ⟨fun _ _ _ _ _ _ _ _ clean => absurd clean (Cursor.missing_unclean kind message),
      Bool.noConfusion⟩
  | skip complaint => exact ⟨fun _ => doubles_skip line complaint, Bool.noConfusion⟩
  | block what body ih => exact ⟨fun calm => doubles_block line (ih.1 calm) what, Bool.noConfusion⟩

end

end Production

end CraftDsl
