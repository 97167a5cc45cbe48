import CraftDsl.Proofs.Ground

/-!
Where one source ends and another begins. A production that begins before the last line end of the
first does the same with the second after it as without, except that it may go on to take blank lines
there. Main statement: `tail_seam`.
-/
namespace CraftDsl

inductive BlankLines : List Token → Prop
  | nil : BlankLines []
  | line {blanks rest : List Token} {newline : Token} (trivia : ∀ blank ∈ blanks, blank.isTrivia = true)
      (kind : newline.kind = .newline) (later : BlankLines rest) :
      BlankLines (blanks ++ newline :: rest)

namespace BlankLines

variable {lines : List Token}

theorem mem (blank : BlankLines lines) {token : Token} (member : token ∈ lines) :
    token.isTrivia = true ∨ token.kind = .newline := by
  induction blank with
  | nil => cases member
  | line trivia kind later ih =>
    rcases List.mem_append.mp member with before | rest
    · exact .inl (trivia token before)
    · rcases List.mem_cons.mp rest with rfl | after
      · exact .inr kind
      · exact ih after

theorem plain (blank : BlankLines lines) : ∀ token ∈ lines, token.kind.isBrace = false := by
  intro token member
  rcases blank.mem member with trivia | newline
  · exact (trivia_plain trivia).1
  · rw [newline]
    rfl

theorem content (blank : BlankLines lines) : siftPieces Token.content (leaves lines) = [] := by
  have nothing : lines.filterMap Token.content = [] := by
    rw [List.filterMap_eq_nil_iff]
    intro token member
    rcases blank.mem member with trivia | newline
    · simp [Token.content, trivia]
    · simp [Token.content, newline]
  rw [siftPieces_leaves, nothing]
  rfl

/-- Blank lines that go as far as they can begin with those that are there. -/
theorem split {first second more rest : List Token} (blank : BlankLines first)
    (all : BlankLines second) (same : first ++ more = second ++ rest)
    (far : kindIn 0 rest ≠ .newline) : ∃ eaten, BlankLines eaten ∧ second = first ++ eaten ∧
      more = eaten ++ rest := by
  have next (newline : Token) (kind : newline.kind = .newline) : newline.isTrivia = false := by
    rw [Token.isTrivia, kind]
    rfl
  induction blank generalizing second with
  | nil => exact ⟨second, all, rfl, same⟩
  | @line blanks later newline trivia kind lines ih =>
    cases all with
    | nil =>
      rw [List.nil_append] at same
      rw [← same, List.append_assoc, kindIn_append_trivia 0 _ _ trivia, List.cons_append, kindIn,
        next newline kind] at far
      exact absurd kind far
    | @line blanks' later' newline' trivia' kind' lines' =>
      rw [List.append_assoc, List.append_assoc, List.cons_append, List.cons_append] at same
      have front := congrArg (List.takeWhile Token.isTrivia) same
      rw [List.takeWhile_append_of_pos trivia, List.takeWhile_append_of_pos trivia',
        List.takeWhile_cons_of_neg (by simp [next newline kind]),
        List.takeWhile_cons_of_neg (by simp [next newline' kind']), List.append_nil,
        List.append_nil] at front
      subst front
      obtain ⟨rfl, others⟩ := List.cons.inj (List.append_cancel_left same)
      obtain ⟨eaten, blank, rfl, rest⟩ := ih lines' others
      exact ⟨eaten, blank, by simp, rest⟩

end BlankLines

structure Eats (c : Cursor) (eaten : List Token) (o : Outcome) : Prop where
  lines : BlankLines eaten
  moves : c.Moves eaten o.cursor
  answer : o.answer = true
  pieces : o.pieces = leaves eaten
  reports : o.reports = []
  far : o.cursor.kindAhead 0 ≠ .newline

/-- At the end of the first source, and past blank lines of the second. -/
structure Past (more eaten : List Token) (c d : Cursor) : Prop where
  lines : BlankLines eaten
  ended : c.ahead = []
  fresh : c.Fresh
  moves : (c.extend more).Moves eaten d

theorem Past.later {more eaten : List Token} {c d : Cursor} (past : Past more eaten c d) : d.Fresh := by
  intro place latest
  rw [past.moves.reported] at latest
  have before := past.fresh place latest
  have further := past.moves.offset
  have start : c.spanAhead.start = c.offset := by
    rw [Cursor.spanAhead, Cursor.pending, past.ended]
    rfl
  have next : d.offset ≤ d.spanAhead.start := Nat.le_add_right _ _
  have same : (c.extend more).offset = c.offset := rfl
  omega

/-- Still in the first source, or past its end. -/
inductive Joined (pairs : List (Nat × Nat)) (more : List Token) (c d : Cursor) : Prop
  | within (grounded : c.Grounded pairs) (same : d = c.extend more)
  | past (eaten : List Token) (past : Past more eaten c d)

/-- The outcome in the first source alone, and with more tokens after it. -/
structure Seam (pairs : List (Nat × Nat)) (more : List Token) (o p : Outcome) : Prop where
  answer : p.answer = o.answer
  pieces : siftPieces Token.content p.pieces = siftPieces Token.content o.pieces
  reports : p.reports = o.reports
  cursor : Joined pairs more o.cursor p.cursor

section

variable {pairs : List (Nat × Nat)} {more : List Token} {c d : Cursor} {o p : Outcome}

theorem Cursor.Grounded.onward (grounded : c.Grounded pairs) (underway : c.Underway)
    {taken : List Token} (moves : c.Moves taken d)
    (plain : ∀ token ∈ taken, token.kind.isBrace = false) :
    d.Grounded pairs ∨ d.ahead = [] ∧ d.Fresh := by
  by_cases ended : d.ahead = []
  · have all : c.ahead = taken := by
      rw [moves.ahead, ended, List.append_nil]
    obtain ⟨token, member, inner⟩ := grounded.ongoing
    have among : token ∈ (Token.solid c.offset taken).map Prod.snd := by
      rw [Token.solid_tokens, ← all]
      exact List.mem_filter.mpr ⟨member, by simp [inner]⟩
    refine .inr ⟨ended, ?_⟩
    rcases underway.prompt with stale | fresh
    · cases passed : Token.solid c.offset taken with
      | nil =>
        rw [passed] at among
        cases among
      | cons located rest =>
        intro place latest
        rw [moves.reported, stale] at latest
        cases latest
        exact moves.spanAhead_solid passed underway.wide
    · exact moves.fresh fresh underway.wide
  · have newline := grounded.newline
    rw [moves.ahead] at newline
    exact .inl (grounded.move moves plain (newline_left newline fun none => absurd none ended))

theorem Seam.onward {next : Bool → Cursor → Outcome} (same : p = o.extend more)
    (later : Seam pairs more (next o.answer o.cursor) (next o.answer (o.cursor.extend more))) :
    Seam pairs more (o.andThen next) (p.andThen next) := by
  subst same
  refine ⟨later.answer, ?_, ?_, later.cursor⟩
  · show siftPieces Token.content (_ ++ _) = siftPieces Token.content (_ ++ _)
    rw [siftPieces_append, siftPieces_append]
    exact congrArg (_ ++ ·) later.pieces
  · exact congrArg (o.reports ++ ·) later.reports

theorem Seam.quiet (seam : Seam pairs more o p) (value : Bool) :
    Seam pairs more (o.andThen fun _ c => .quiet value c) (p.andThen fun _ c => .quiet value c) := by
  refine ⟨rfl, ?_, ?_, seam.cursor⟩
  · show siftPieces Token.content (_ ++ []) = siftPieces Token.content (_ ++ [])
    rw [List.append_nil, List.append_nil, seam.pieces]
  · exact congrArg (· ++ []) seam.reports

theorem Seam.wrapped (seam : Seam pairs more o p) (kind : NodeKind) :
    Seam pairs more (o.wrapped kind) (p.wrapped kind) := by
  refine ⟨seam.answer, ?_, seam.reports, seam.cursor⟩
  simp only [Outcome.wrapped, siftPieces, Tree.sift, siftAll_closePieces, seam.pieces]

end

namespace Production

def isAnswer : Production → Bool
  | answer _ => true
  | _ => false

def isEat : Production → Bool
  | branch (look 0 among) (take taken) (answer false) =>
    among = .single TokenKind.newline && taken = .single TokenKind.newline
  | _ => false

def tail : Production → Bool
  | take among => !(among.has TokenKind.braceOpen || among.has TokenKind.braceClose)
  | within _ body => body.tail
  | loop body => body.isEat
  | seq first second => first.firm && second.tail || first.tail && second.isAnswer
  | branch question yes no => question.firm && yes.tail && no.tail
  | x => x.firm

theorem eq_of_isEat {x : Production} (eats : x.isEat = true) : x = eat .newline := by
  unfold isEat at eats
  split at eats
  · simp only [Bool.and_eq_true, decide_eq_true_eq] at eats
    rw [eats.1, eats.2]
    rfl
  · cases eats

/-- A newline is taken if it comes next. -/
theorem run_eat (c : Cursor) :
    (c.kindAhead 0 ≠ .newline ∧ (eat .newline).run c =
        ⟨false, [], [], ((eat .newline).run c).faults, { c with looks := c.looks + 1 }⟩) ∨
      ∃ newline tokens, c.due = newline :: tokens ∧ newline.kind = .newline ∧
        (eat .newline).run c =
          ⟨true, leaves (c.pending ++ [newline]), [], ((eat .newline).run c).faults,
            ⟨tokens, c.offset + widthOf (c.pending ++ [newline]), c.reported, 0⟩⟩ := by
  have unfolded : (eat .newline).run c = (c.look 0 (.single TokenKind.newline)).andThen
      fun answer c => if answer then c.take (.single TokenKind.newline) none
        else .quiet false c := rfl
  have asked : (c.look 0 (.single TokenKind.newline)).answer = true ↔ c.kindAhead 0 = .newline :=
    KindSet.has_token _ _
  by_cases next : c.kindAhead 0 = .newline
  · obtain ⟨newline, tokens, due, -, kind, -⟩ := c.due_of_kindAhead (by rw [next]; nofun)
    refine .inr ⟨newline, tokens, due, kind.symm.trans next, ?_⟩
    have taken := (c.look 0 (.single TokenKind.newline)).cursor.take_eq
      (.single TokenKind.newline) none due
    rw [unfolded, Outcome.andThen, if_pos (asked.mpr next), taken]
    simp only [leaves, List.map_append]
    rfl
  · refine .inl ⟨next, ?_⟩
    rw [unfolded, Outcome.andThen, if_neg (asked.not.mpr next)]
    rfl

theorem rounds_eat (limit : List Token) {c : Cursor}
    (clear : (rounds (eat .newline).run limit c).faults = []) :
    ∃ eaten, Eats c eaten (rounds (eat .newline).run limit c) := by
  induction limit generalizing c with
  | nil =>
    obtain ⟨-, stalled⟩ := Outcome.andThen_clear clear
    rcases run_eat c with ⟨far, one⟩ | ⟨newline, tokens, -, -, one⟩
    · refine ⟨[], .nil, ?_, ?_, ?_, ?_, ?_⟩
      all_goals rw [rounds, one]
      · exact ⟨rfl, rfl, rfl⟩
      · rfl
      · rfl
      · rfl
      · exact far
    · rw [one] at stalled
      cases stalled
  | cons token limit ih =>
    obtain ⟨-, rest⟩ := Outcome.andThen_clear clear
    rcases run_eat c with ⟨far, one⟩ | ⟨newline, tokens, due, kind, one⟩
    · refine ⟨[], .nil, ?_, ?_, ?_, ?_, ?_⟩
      all_goals rw [rounds, one]
      · exact ⟨rfl, rfl, rfl⟩
      · rfl
      · rfl
      · rfl
      · exact far
    · rw [one] at rest
      obtain ⟨eaten, eats⟩ := ih rest
      obtain ⟨lines, ⟨ahead, offset, reported⟩, answer, pieces, reports, far⟩ := eats
      refine ⟨(c.pending ++ [newline]) ++ eaten, ?_, ⟨?_, ?_, ?_⟩, ?_, ?_, ?_, ?_⟩
      · rw [← List.append_cons]
        exact .line c.pending_trivia kind lines
      all_goals rw [rounds, one]
      · rw [c.ahead_eq, due, List.append_assoc, List.append_assoc, List.singleton_append]
        exact congrArg (c.pending ++ newline :: ·) ahead
      · rw [widthOf_append (c.pending ++ [newline]) eaten, ← Nat.add_assoc]
        exact offset
      · exact reported
      · exact answer
      · simp only [leaves, List.map_append] at pieces ⊢
        exact congrArg (_ ++ ·) pieces
      · exact reports
      · exact far

variable {pairs : List (Nat × Nat)} {more : List Token} {c : Cursor}

theorem firm_seam (x : Production) (stays : x.firm = true) (underway : c.Underway)
    (grounded : c.Grounded pairs) (clear : ((x.guard false).run c).faults = []) :
    ((x.guard false).run c).cursor.Grounded pairs ∧
      (x.guard false).run (c.extend more) = ((x.guard false).run c).extend more := by
  have after := firm_grounded x stays underway.solid grounded clear
  exact ⟨after, run_extend x false more underway.solid clear after.ongoing⟩

theorem seam_of_extend {o p : Outcome} (joined : Joined pairs more o.cursor (o.cursor.extend more))
    (same : p = o.extend more) : Seam pairs more o p := by
  rw [same]
  exact ⟨rfl, rfl, rfl, joined⟩

theorem take_seam (among : KindSet) (ends : (take among).tail = true) (underway : c.Underway)
    (grounded : c.Grounded pairs) (clear : (c.take among none).faults = []) :
    Seam pairs more (c.take among none) ((c.extend more).take among none) := by
  obtain ⟨token, tokens, due⟩ := Cursor.due_of_take clear
  have member := Cursor.has_of_take due clear
  simp only [tail, Bool.not_eq_true', Bool.or_eq_false_iff] at ends
  have inner : token.kind.isBrace = false := plain_of_has member ends.1 ends.2
  apply seam_of_extend _ (c.take_extend more among none due)
  rcases grounded.onward underway (c.take_moves among none due) (pending_concat_plain c inner) with
    after | ⟨ended, fresh⟩
  · exact .within after rfl
  · exact .past [] ⟨.nil, ended, fresh, ⟨rfl, rfl, rfl⟩⟩

/-- A loop over newlines goes on with those that the second source begins with. -/
theorem loop_seam {body : Production} (eats : body.isEat = true) (underway : c.Underway)
    (grounded : c.Grounded pairs) (clear : (((loop body).guard false).run c).faults = [])
    (clear' : (((loop body).guard false).run (c.extend more)).faults = []) :
    Seam pairs more (((loop body).guard false).run c)
      (((loop body).guard false).run (c.extend more)) := by
  have settled := run_extend (loop body) false more underway.solid clear
  rw [eq_of_isEat eats] at clear clear' settled ⊢
  obtain ⟨eaten, first⟩ := rounds_eat c.ahead clear
  rcases grounded.onward underway first.moves first.lines.plain with after | ⟨ended, fresh⟩
  · exact seam_of_extend (.within after rfl) (settled after.ongoing)
  -- The loop uses up the first source, and then takes the newlines that begin the second.
  · obtain ⟨all, second⟩ := rounds_eat (c.extend more).ahead clear'
    have whole := first.moves.ahead
    rw [ended, List.append_nil] at whole
    have joint : eaten ++ more = all ++
        (rounds (eat .newline).run (c.extend more).ahead (c.extend more)).cursor.ahead := by
      rw [← whole]
      exact second.moves.ahead
    obtain ⟨further, lines, rfl, rest⟩ := first.lines.split second.lines joint second.far
    refine ⟨second.answer.trans first.answer.symm, ?_, second.reports.trans first.reports.symm,
      .past further ⟨lines, ended, fresh, ⟨?_, ?_, ?_⟩⟩⟩
    · exact (second.pieces ▸ second.lines.content).trans (first.pieces ▸ first.lines.content).symm
    · exact (congrArg (· ++ more) ended).trans rest
    · have both := second.moves.offset
      rw [widthOf_append, ← Nat.add_assoc] at both
      exact both.trans (congrArg (· + widthOf further) first.moves.offset.symm)
    · exact second.moves.reported.trans first.moves.reported.symm

theorem tail_seam (x : Production) (ends : x.tail = true) (underway : c.Underway)
    (grounded : c.Grounded pairs) (clear : ((x.guard false).run c).faults = [])
    (clear' : ((x.guard false).run (c.extend more)).faults = []) :
    Seam pairs more ((x.guard false).run c) ((x.guard false).run (c.extend more)) := by
  induction x generalizing c with
  | take among => exact take_seam among ends underway grounded clear
  | within kind body ih => exact (ih ends underway grounded clear clear').wrapped kind
  | loop body ih => exact loop_seam ends underway grounded clear clear'
  | seq first second first_ih second_ih =>
    obtain ⟨started, rest⟩ := Outcome.andThen_clear clear
    obtain ⟨started', rest'⟩ := Outcome.andThen_clear clear'
    rw [tail, Bool.or_eq_true, Bool.and_eq_true, Bool.and_eq_true] at ends
    rcases ends with ⟨stays, later⟩ | ⟨earlier, last⟩
    · obtain ⟨between, same⟩ := firm_seam first stays underway grounded started
      have onward := underway.run _ started
      rw [same] at rest'
      exact Seam.onward same (second_ih later onward between rest rest')
    · have seam := first_ih earlier underway grounded started started'
      cases second with
      | answer value => exact seam.quiet value
      | _ => cases last
  | branch question yes no question_ih yes_ih no_ih =>
    obtain ⟨asked, rest⟩ := Outcome.andThen_clear clear
    obtain ⟨-, rest'⟩ := Outcome.andThen_clear clear'
    simp only [tail, Bool.and_eq_true] at ends
    obtain ⟨between, same⟩ := firm_seam question ends.1.1 underway grounded asked
    have onward := underway.run _ asked
    rw [same] at rest'
    change (if ((question.guard false).run c).answer = true
      then (yes.guard false).run (((question.guard false).run c).cursor.extend more)
      else (no.guard false).run (((question.guard false).run c).cursor.extend more)).faults = []
        at rest'
    apply Seam.onward same
    split
    · rename_i answer
      rw [if_pos answer] at rest rest'
      exact yes_ih ends.1.2 onward between rest rest'
    · rename_i answer
      rw [if_neg answer] at rest rest'
      exact no_ih ends.2 onward between rest rest'
  | _ =>
    obtain ⟨after, same⟩ := firm_seam _ ends underway grounded clear
    exact seam_of_extend (.within after rfl) same

end Production

end CraftDsl
