import CraftDsl.Proofs.Agreement
import CraftDsl.Proofs.Relexing
import CraftDsl.Proofs.Seam

/-!
Sources one after the other. Where the first ends with a newline and closes its blocks, the items of
both together are those of the first and then those of the second, and so are the diagnostics. So an
error in one item changes nothing about the items after it. Main statement: `parse_append`.
-/
namespace CraftDsl

theorem closePieces_sealed_append {first : List Piece} (closed : openings first = 0)
    (keep : Token → Option Token) (second : List Piece) :
    closePieces (siftPieces keep first ++ second) =
      closePieces (siftPieces keep first) ++ closePieces second := by
  rw [eq_trees_of_openings first closed, siftPieces_trees, closePieces_append, closePieces_trees]

namespace Production

theorem lap_tail : lap.tail = true := by decide +kernel

theorem lap_sealed : lap.isSealed = true := by decide +kernel

def laps (limit : List Token) (c : Cursor) : Outcome := rounds (lap.guard false).run limit c

variable {c d : Cursor} {more : List Token} {pairs : List (Nat × Nat)}

theorem itemOr_answer : ((itemOr item).run c).answer = true := by
  by_cases first : ((onAny .itemFirst).run c).answer = true
  · rw [itemOr, run_yes first]
    rfl
  · rw [itemOr, run_no first]
    exact Cursor.skip_answer _ _

theorem lap_answer (next : c.kindAhead 0 ≠ .endOfInput)
    (clear : ((lap.guard false).run c).faults = []) : ((lap.guard false).run c).answer = true := by
  have going : ¬ ((atKind .endOfInput).run c).answer = true := fun at_end =>
    next ((KindSet.has_token _ _).mp at_end)
  rw [← guard_run lap false clear, lap, lapOf, run_no going]
  show ((branch (onKind .newline) (takeKind .newline) (itemOr item)).run
    ((atKind .endOfInput).run c).cursor).answer = true
  by_cases newline : ((onKind .newline).run ((atKind .endOfInput).run c).cursor).answer = true
  · rw [run_yes newline]
    exact Cursor.take_answer _ _ _
  · rw [run_no newline]
    exact itemOr_answer

section

variable (rest : Production)

theorem lapOf_over (at_end : c.kindAhead 0 = .endOfInput) :
    (lapOf rest).run c = ⟨false, [], [], ((lapOf rest).run c).faults,
      { c with looks := c.looks + 1 }⟩ := by
  have asked : ((atKind .endOfInput).run c).answer = true := (KindSet.has_token _ _).mpr at_end
  rw [lapOf, run_yes asked]
  rfl

theorem lapOf_newline {newline : Token} {tokens : List Token} (due : c.due = newline :: tokens)
    (kind : newline.kind = .newline) :
    (lapOf rest).run c =
      ⟨true, leaves (c.pending ++ [newline]), [], ((lapOf rest).run c).faults,
        ⟨tokens, c.offset + widthOf (c.pending ++ [newline]), c.reported, 0⟩⟩ := by
  have next : c.kindAhead 0 = .newline := (c.due_cons due).2.1.trans kind
  have going : ¬ ((atKind .endOfInput).run c).answer = true := fun at_end =>
    nomatch next.symm.trans ((KindSet.has_token _ _).mp at_end)
  have on_line : ((onKind .newline).run ((atKind .endOfInput).run c).cursor).answer = true :=
    (KindSet.has_token _ _).mpr next
  have taken := ((atKind .endOfInput).run c).cursor.take_eq (.single TokenKind.newline) none due
  have unfolded : (lapOf rest).run c = ((atKind .endOfInput).run c).andThen fun _ c =>
      ((onKind .newline).run c).andThen fun _ c => c.take (.single TokenKind.newline) none := by
    rw [lapOf, run_no going]
    exact Outcome.andThen_congr rfl (run_yes on_line)
  have same : ((onKind .newline).run ((atKind .endOfInput).run c).cursor).cursor.take
      (.single TokenKind.newline) none = _ := taken
  simp only [unfolded, Outcome.andThen, same, leaves, List.map_append]
  rfl

theorem lapsOf_over (limit : List Token) (ended : c.ahead = []) :
    (rounds (lapOf rest).run limit c).pieces = [] ∧
      (rounds (lapOf rest).run limit c).reports = [] ∧
      (rounds (lapOf rest).run limit c).cursor.ahead = [] := by
  have at_end : c.kindAhead 0 = .endOfInput := by
    rw [Cursor.kindAhead, ended]
    rfl
  cases limit with
  | nil =>
    rw [rounds, lapOf_over rest at_end]
    exact ⟨rfl, rfl, ended⟩
  | cons token limit =>
    rw [rounds, lapOf_over rest at_end]
    exact ⟨rfl, rfl, ended⟩

end

theorem laps_step {limit : List Token} (clear : (laps limit c).faults = [])
    (again : ((lap.guard false).run c).answer = true) :
    laps limit c = ((lap.guard false).run c).andThen fun _ c => laps limit.tail c :=
  rounds_more clear again

theorem laps_limit {limit : List Token} (clear : (laps limit c).faults = [])
    (again : ((lap.guard false).run c).answer = true) :
    ∃ token rest, limit = token :: rest := by
  cases limit with
  | nil =>
    obtain ⟨-, stalled⟩ := Outcome.andThen_clear clear
    rw [again] at stalled
    cases stalled
  | cons token rest => exact ⟨token, rest, rfl⟩

/-- The one outcome and then the other, newlines, blanks and comments left out. -/
structure Consists (o p all : Outcome) : Prop where
  pieces : siftPieces Token.content all.pieces =
    siftPieces Token.content o.pieces ++ siftPieces Token.content p.pieces
  reports : all.reports = o.reports ++ p.reports

theorem laps_past {eaten limit limit' : List Token} (past : Past more eaten c d) :
    Consists (laps limit c) (laps limit' d) (laps limit' d) := by
  have none_more : (laps limit c).pieces = [] ∧ (laps limit c).reports = [] ∧ _ :=
    lapsOf_over ((itemOr item).guard false) limit past.ended
  constructor
  · rw [none_more.1]
    rfl
  · rw [none_more.2.1]
    rfl

theorem Consists.after {o p q : Outcome} (seam : Seam pairs more o p)
    {next next' : Bool → Cursor → Outcome}
    (later : Consists (next o.answer o.cursor) q (next' p.answer p.cursor)) :
    Consists (o.andThen next) q (p.andThen next') := by
  constructor
  · show siftPieces Token.content (_ ++ _) = siftPieces Token.content (_ ++ _) ++ _
    rw [siftPieces_append, siftPieces_append, seam.pieces, later.pieces, List.append_assoc]
  · show _ ++ _ = (_ ++ _) ++ _
    rw [seam.reports, later.reports, List.append_assoc]

/-- The items of the first source, and then those of the second. -/
theorem laps_joined (limit limit' : List Token) (underway : c.Underway)
    (joined : Joined pairs more c d) (clear : (laps limit c).faults = [])
    (clear' : (laps limit' d).faults = []) :
    ∃ eaten e f limit'', Past more eaten e f ∧ e.finish = c.finish ∧
      (laps limit'' f).faults = [] ∧ Consists (laps limit c) (laps limit'' f) (laps limit' d) := by
  induction limit generalizing limit' c d with
  | nil =>
    rcases joined with ⟨grounded, rfl⟩ | ⟨eaten, past⟩
    -- Within the first source a lap goes on, so the limit cannot be used up.
    · have again := lap_answer (grounded.going underway.solid) (rounds_clear clear)
      obtain ⟨token, rest, impossible⟩ := laps_limit clear again
      cases impossible
    · exact ⟨eaten, c, d, limit', past, rfl, clear', laps_past past⟩
  | cons token limit ih =>
    rcases joined with ⟨grounded, rfl⟩ | ⟨eaten, past⟩
    -- Both laps do the same up to a seam, and the later ones go on from there.
    · have one := rounds_clear clear
      have seam : Seam pairs more ((lap.guard false).run c) ((lap.guard false).run (c.extend more)) :=
        tail_seam lap lap_tail underway grounded one (rounds_clear clear')
      have again := lap_answer (grounded.going underway.solid) one
      have first := laps_step clear again
      have second := laps_step clear' (seam.answer.trans again)
      rw [first] at clear ⊢
      rw [second] at clear' ⊢
      obtain ⟨eaten, e, f, limit'', past, finish, ended, consists⟩ := ih limit'.tail
        (underway.run _ one) seam.cursor (Outcome.andThen_clear clear).2
        (Outcome.andThen_clear clear').2
      exact ⟨eaten, e, f, limit'', past, finish.trans ((lap.guard false).run_spent c).finish, ended,
        .after seam consists⟩
    · exact ⟨eaten, c, d, limit', past, rfl, clear', laps_past past⟩

/-- Blank lines before the items of a source add nothing but themselves. -/
theorem laps_lines {eaten rest : List Token} (lines : BlankLines eaten) (limit : List Token)
    (ahead : c.ahead = eaten ++ rest) (clear : (laps limit c).faults = []) :
    ∃ d limit', c.Moves eaten d ∧ (laps limit' d).faults = [] ∧
      siftPieces Token.content (laps limit c).pieces =
        siftPieces Token.content (laps limit' d).pieces ∧
      (laps limit c).reports = (laps limit' d).reports := by
  induction lines generalizing limit c with
  | nil => exact ⟨c, limit, ⟨rfl, rfl, rfl⟩, clear, rfl, rfl⟩
  | @line blanks later newline trivia kind lines ih =>
    rw [List.append_assoc, List.cons_append] at ahead
    obtain ⟨pending, due⟩ := Cursor.due_of_ahead trivia (by rw [Token.isTrivia, kind]; rfl) ahead
    have one : (lap.guard false).run c = _ := lapOf_newline ((itemOr item).guard false) due kind
    have again : ((lap.guard false).run c).answer = true := by rw [one]
    have whole := laps_step clear again
    rw [whole] at clear ⊢
    rw [one] at clear ⊢
    obtain ⟨d, limit', moves, rest_clear, pieces, reports⟩ :=
      ih limit.tail rfl (Outcome.andThen_clear clear).2
    have line : BlankLines (c.pending ++ [newline]) := pending ▸ .line trivia kind .nil
    refine ⟨d, limit', ⟨?_, ?_, moves.reported⟩, rest_clear, ?_, reports⟩
    · rw [ahead, List.append_assoc, List.cons_append]
      exact congrArg (blanks ++ newline :: ·) moves.ahead
    · rw [List.append_cons, widthOf_append, ← Nat.add_assoc, ← pending]
      exact moves.offset
    · show siftPieces Token.content (_ ++ _) = _
      rw [siftPieces_append, line.content]
      exact pieces

/-- The items of two sources, the second displaced by the first. -/
theorem laps_append {first second : List Token}
    (underway : (Cursor.start first).Underway)
    (joined : Joined pairs second (.start first) (.start (first ++ second)))
    (clear : (laps first (.start first)).faults = [])
    (later : (laps second (.start second)).faults = [])
    (both : (laps (first ++ second) (.start (first ++ second))).faults = [])
    (wide : ∀ token ∈ second, 0 < token.width) :
    siftPieces Token.content (laps (first ++ second) (.start (first ++ second))).pieces =
        siftPieces Token.content (laps first (.start first)).pieces ++
          siftPieces Token.content (laps second (.start second)).pieces ∧
      (laps (first ++ second) (.start (first ++ second))).reports =
        (laps first (.start first)).reports ++
          (laps second (.start second)).reports.map (.shift (widthOf first)) := by
  obtain ⟨eaten, e, f, limit, past, finish, ended, consists⟩ :=
    laps_joined first (first ++ second) underway joined clear both
  have split : second = eaten ++ f.ahead := by
    have all := past.moves.ahead
    rw [Cursor.extend, past.ended, List.nil_append] at all
    exact all
  obtain ⟨g, limit', moves, clear', pieces, reports⟩ := laps_lines past.lines second split later
  have ahead : f.ahead = g.ahead := List.append_cancel_left (split.symm.trans moves.ahead)
  have offset : f.offset = g.offset + widthOf first := by
    have end_of_first : e.offset = 0 + widthOf first := by
      rw [Cursor.finish, past.ended] at finish
      exact finish
    have further : f.offset = e.offset + widthOf eaten := past.moves.offset
    have alone : g.offset = 0 + widthOf eaten := moves.offset
    omega
  have unreported : g.Fresh := by
    intro place latest
    rw [moves.reported] at latest
    cases latest
  have alike : (displaced (widthOf first)).Alike g f :=
    displaced_alike ahead offset (.inr ⟨unreported, past.later⟩)
      fun token member => wide token (moves.subset member)
  have parallel := rounds_parallel (run_parallel (lap.guard false)) limit' limit alike clear' ended
  constructor
  · rw [consists.pieces, pieces]
    exact congrArg (_ ++ ·) parallel.pieces.symm
  · rw [consists.reports, reports]
    exact congrArg (_ ++ ·) (displaced_reports parallel.reports)

theorem laps_sealed (limit : List Token) (c : Cursor) : openings (laps limit c).pieces = 0 :=
  rounds_sealed (run_sealed _ ((guard_isSealed lap false).trans lap_sealed)) limit c

/-- A source consists of its items, and of blanks and comments at its end. -/
theorem parse_laps (source : List Char) :
    (laps (lex source) (.start (lex source))).faults = [] ∧
      Tree.siftAll Token.content (parse source).tree.children =
        closePieces (siftPieces Token.content (laps (lex source) (.start (lex source))).pieces) ∧
      (parsed (lex source)).reports = (laps (lex source) (.start (lex source))).reports := by
  obtain ⟨clear, same⟩ := parsed_guarded source
  obtain ⟨trees, root, spelled⟩ := parse_spelled source
  have inner : ((laps (lex source) (.start (lex source))).andThen fun _ c => c.settle).wrapped
      .sourceFile = parsed (lex source) := same
  have passed : ((laps (lex source) (.start (lex source))).andThen fun _ c => c.settle).faults = [] :=
    clear
  rw [← inner] at root ⊢
  refine ⟨(Outcome.andThen_clear passed).1, ?_, ?_⟩
  · have blank := (displaced 0).leaves_blank
      (laps (lex source) (.start (lex source))).cursor.pending_trivia
    have children := (Tree.node.inj (Piece.tree.inj (List.cons.inj root).1)).2
    rw [spelled, Tree.children, ← children, siftAll_closePieces, Outcome.andThen,
      siftPieces_append, Cursor.settle_eq]
    exact congrArg (fun pieces => closePieces (_ ++ pieces)) blank |>.trans (by rw [List.append_nil])
  · rw [Outcome.wrapped, Outcome.andThen, Cursor.settle_eq]
    exact List.append_nil _

end Production

section

variable {first second : List Char}

theorem openBraces_matched (matched : ∀ place ∈ braceOpenings (Token.locate 0 (lex first)),
      ∃ partner, (place, partner) ∈ bracePairs [] (Token.locate 0 (lex first))) :
    openBraces [] (Token.locate 0 (lex first)) = [] := by
  rw [List.eq_nil_iff_forall_not_mem]
  intro place left
  have opening : place ∈ braceOpenings (Token.locate 0 (lex first)) :=
    (braces_perm [] _).subset (List.mem_append_right _ left)
  obtain ⟨partner, pair⟩ := matched place opening
  exact openBraces_lone (lex_wide first) left pair

theorem start_joined (ends : first = [] ∨ ∃ token ∈ (lex first).getLast?, token.kind = .newline)
    (matched : openBraces [] (Token.locate 0 (lex first)) = []) (more : List Token) :
    Joined (bracePairs [] (Token.locate 0 (lex first))) more (.start (lex first))
      (.start (lex first ++ more)) := by
  rcases ends with rfl | newline
  · exact .past [] ⟨.nil, lex_nil, nofun, ⟨rfl, rfl, rfl⟩⟩
  · exact .within ⟨⟨fun _ member => member, matched⟩, newline⟩ rfl

/-- Where the first source ends with a newline and each of its opening braces has a partner, the items
of both sources are those of the first and then those of the second, newlines, blanks and comments left
out, and each source has the diagnostics that it has alone. A string or comment without an end would be
the last token, so the first source has none. -/
theorem parse_append (ends : first = [] ∨ ∃ token ∈ (lex first).getLast?, token.kind = .newline)
    (matched : ∀ place ∈ braceOpenings (Token.locate 0 (lex first)),
      ∃ partner, (place, partner) ∈ bracePairs [] (Token.locate 0 (lex first))) :
    Tree.siftAll Token.content (parse (first ++ second)).tree.children =
        Tree.siftAll Token.content (parse first).tree.children ++
          Tree.siftAll Token.content (parse second).tree.children ∧
      (parse (first ++ second)).diagnostics =
        (parse first).lexical ++ (parse second).lexical.map (.shift (byteLength first)) ++
          (parse first).structural ++ (parse second).structural.map (.shift (byteLength first)) := by
  obtain ⟨clear, children, reports⟩ := Production.parse_laps first
  obtain ⟨clear', children', reports'⟩ := Production.parse_laps second
  obtain ⟨both, all, all_reports⟩ := Production.parse_laps (first ++ second)
  have tokens := lex_append first second ends
  rw [tokens] at both all all_reports
  have joined := start_joined ends (openBraces_matched matched) (lex second)
  have underway : (Cursor.start (lex first)).Underway :=
    ⟨lex_solid first, lex_wide first, .inr nofun⟩
  obtain ⟨pieces, later⟩ := Production.laps_append underway joined clear clear' both
    (lex_wide second)
  constructor
  · rw [all, pieces, children, children']
    exact closePieces_sealed_append (Production.laps_sealed _ _) _ _
  · rw [parse_diagnostics, tokens, all_reports, later, lexical_append, lex_width, parse_lexical,
      parse_lexical, parse_structural, parse_structural, reports, reports', ← List.append_assoc]

end

/-- A block without a name, with junk that has braces of its own. -/
def nameless : List Char := "domain \x7b\n : \x7b a \x7d\n b\n\x7d\n".toList

/-- A blank line, a comment, a stray character and an actor. -/
def announced : List Char := "\n// next\n#\nactor user Ann\n".toList

theorem nameless_announced :
    (∃ token ∈ (lex nameless).getLast?, token.kind = .newline) ∧
      braceOpenings (Token.locate 0 (lex nameless)) = [7, 12] ∧
      bracePairs [] (Token.locate 0 (lex nameless)) = [(12, 16), (7, 21)] ∧
      (parse nameless).diagnostics.map (fun d => d.span.start) = [7, 10] ∧
      (parse announced).diagnostics.map (fun d => d.span.start) = [9, 9] ∧
      (parse (nameless ++ announced)).diagnostics.map (fun d => d.span.start) = [32, 7, 10, 32] ∧
      Tree.siftAll Token.content (parse (nameless ++ announced)).tree.children =
        Tree.siftAll Token.content (parse nameless).tree.children ++
          Tree.siftAll Token.content (parse announced).tree.children ∧
      (parse (nameless ++ announced)).diagnostics =
        (parse nameless).lexical ++ (parse announced).lexical.map (.shift (byteLength nameless)) ++
          (parse nameless).structural ++
            (parse announced).structural.map (.shift (byteLength nameless)) := by
  have last : (lex nameless).getLast?.map Token.kind = some .newline := by decide +kernel
  have openings : braceOpenings (Token.locate 0 (lex nameless)) = [7, 12] := by decide +kernel
  have pairs : bracePairs [] (Token.locate 0 (lex nameless)) = [(12, 16), (7, 21)] := by
    decide +kernel
  have ends := Option.map_eq_some_iff.mp last
  refine ⟨ends, openings, pairs, by decide +kernel, by decide +kernel, by decide +kernel, ?_⟩
  apply parse_append (.inr ends)
  rw [openings, pairs]
  intro place member
  rcases List.mem_cons.mp member with rfl | later
  · exact ⟨21, by simp⟩
  · rw [List.mem_singleton.mp later]
    exact ⟨16, by simp⟩

end CraftDsl
