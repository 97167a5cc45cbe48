import CraftDsl.Parse
import CraftDsl.Proofs.SharedLines.Lag

/-!
Blocks of items with newlines left out. An item ends before a newline where it ends before the first
token of a further item, unless it has just taken a comma; between items newlines are taken one by one.
So blocks of services, domains, actors and exposures add the same without the newlines. Main statements:
`joins_blockLines`, `joins_bracedItems`.
-/
namespace CraftDsl

namespace Production

section

variable {later : List Token} {more : Prop} {idle : Bool} {c d : Cursor}
  {question body after item rest : Production}

theorem joins_takes {among : KindSet} (other : among.has TokenKind.newline = false) :
    (take among).Joins later more idle := fun _ _ lag clear _ _ _ => joins_take other lag clear

theorem single_other {kind : TokenKind} (other : kind ≠ .newline) :
    (KindSet.single kind).has TokenKind.newline = false := by
  rw [KindSet.has_single, beq_eq_false_iff_ne]
  exact fun same => other (Kind.token.inj same).symm

theorem joins_takeKind {kind : TokenKind} (other : kind ≠ .newline) :
    (takeKind kind).Joins later more idle := joins_takes (single_other other)

theorem joins_takeKeyword (word : Keyword) : (takeKeyword word).Joins later more idle :=
  joins_takeKind TokenKind.noConfusion

theorem joins_demand (among : KindSet) : (demand among).Joins later more idle :=
  joins_still (fun _ => ⟨rfl, rfl⟩) (.inr fun _ _ => rfl)

theorem joins_takeWord : takeWord.Joins later more idle :=
  joins_after (joins_demand _) fun _ _ lag clear _ _ _ => joins_take (by decide) lag clear

theorem joins_node (inner : body.Joins later more idle) (kind : NodeKind) :
    (node kind body).Joins later more idle := joins_after joins_settle (joins_within inner kind)

theorem joins_onlyIf (asking : question.Joins later True false) (inner : body.Joins later more idle) :
    (onlyIf question body).Joins later more idle := joins_branch asking inner (joins_answer false)

theorem joins_expect {kind : TokenKind} (other : kind ≠ .newline) (what : String) :
    (expect kind what).Joins later more idle :=
  joins_ask rfl (single_other other) (joins_takeKind other) (joins_missing _ _) (.inl rfl)

theorem joins_expectWord (what : String) : (expectWord what).Joins later more idle :=
  joins_ask rfl (by decide) joins_takeWord (joins_missing _ _) (.inl rfl)

theorem joins_expectNameNode (kind : NodeKind) (what : String) :
    (expectNameNode kind what).Joins later more idle :=
  joins_ask rfl (by decide) (joins_node joins_takeWord kind) (joins_missing _ _) (.inl rfl)

theorem eat_yes {kind : TokenKind} (next : c.kindAhead 0 = kind) :
    (eat kind).run c = ((atKind kind).run c).andThen fun _ c => (takeKind kind).run c :=
  run_yes ((KindSet.has_token _ _).mpr next)

theorem eat_no {kind : TokenKind} (next : c.kindAhead 0 ≠ kind) :
    (eat kind).run c = ((atKind kind).run c).andThen fun _ c => .quiet false c :=
  run_no fun asked => next ((KindSet.has_token _ _).mp asked)

/-- A comma that comes next is taken in both places, and the same comes after it. -/
theorem comma_matches (lag : Lag later (solids c.ahead) (solids d.ahead))
    (next : c.kindAhead 0 = .comma) (next' : d.kindAhead 0 = .comma)
    (clear : ((eat .comma).run c).faults = []) :
    (lagging later).Matches false ((eat .comma).run c) ((eat .comma).run d) ∧
      ((eat .comma).run d).cursor.kindAhead 0 = ((eat .comma).run c).cursor.kindAhead 0 := by
  have looked := asks_matches (atKind .comma) rfl lag (by rw [next, next'])
  have other : ((atKind .comma).run c).cursor.kindAhead 0 ≠ .newline := by
    intro newline
    cases next.symm.trans newline
  rw [eat_yes next] at clear ⊢
  rw [eat_yes next']
  have clear_take : (((atKind .comma).run c).cursor.take (.single TokenKind.comma) none).faults = [] :=
    (Outcome.andThen_clear clear).2
  obtain ⟨taken, same⟩ := lag_take other looked.cursor clear_take
  exact ⟨looked.andThen taken, same next⟩

/-- Commas and what comes after each. The newlines that are left out do not come right after a comma,
and no comma comes right after them. -/
theorem joins_commas
    (onward : ∀ ⦃c d : Cursor⦄, Lag later (solids c.ahead) (solids d.ahead) →
      d.kindAhead 0 = c.kindAhead 0 → (body.run c).faults = [] → (body.run d).faults = [] →
        (body.run c).Clean → (lagging later).Matches false (body.run c) (body.run d))
    (apart : more → firstKind later ≠ .comma) :
    (loop (onlyIf (eat .comma) body)).Joins later more idle := by
  intro c d lag clear clear' clean last
  refine rounds_onward (P := lagging later) (fun c => Stands later (solids c.ahead) → more) ?_ c.ahead
    d.ahead lag clear clear' clean last
  intro c d limit limit' lag clear clear' clean last
  left
  have one := rounds_clear clear
  have one' := rounds_clear clear'
  by_cases comma : c.kindAhead 0 = .comma
  · have same : d.kindAhead 0 = .comma := by
      rcases lag_next lag with same | ⟨-, newline, -⟩
      · rw [same, comma]
      · rw [comma] at newline
        cases newline
    have eaten (c : Cursor) (next : c.kindAhead 0 = .comma) : (onlyIf (eat .comma) body).run c =
        ((eat .comma).run c).andThen fun _ c => body.run c :=
      run_yes (by rw [eat_yes next]; exact Cursor.take_answer _ _ _)
    rw [eaten c comma] at one ⊢
    rw [eaten d same] at one' ⊢
    obtain ⟨taken, further⟩ := comma_matches lag comma same (Outcome.andThen_clear one).1
    have clean_one := rounds_known (P := lagging later) clean
    rw [eaten c comma] at clean_one
    exact taken.andThen (onward taken.cursor further (Outcome.andThen_clear one).2
      (Outcome.andThen_clear one').2 clean_one.andThen.2)
  · have ended (c : Cursor) (next : c.kindAhead 0 ≠ .comma) : (onlyIf (eat .comma) body).run c =
        ((atKind .comma).run c).andThen fun _ c => .quiet false c := by
      rw [onlyIf, run_no (by rw [eat_no next]; exact Bool.false_ne_true), eat_no next]
      exact Outcome.andThen_assoc _ _ _
    have final : (rounds (onlyIf (eat .comma) body).run limit c).cursor.ahead = c.ahead := by
      rw [rounds_eq clear, ended c comma]
      rfl
    have other : d.kindAhead 0 ≠ .comma := by
      rcases lag_next lag with same | ⟨stands, -, further⟩
      · rwa [same]
      · rw [further]
        exact apart (last (final ▸ stands))
    have looked := asks_matches (atKind .comma) rfl lag (by
      rw [Bool.eq_iff_iff, KindSet.has_token, KindSet.has_token]
      exact iff_of_false other comma)
    rw [ended c comma, ended d other]
    exact looked.andThen (Pace.quiet looked.cursor false)

/-- An answer to a question for the next token, where that is the same in both places. -/
theorem onlyIf_matches {among : KindSet} (asks : question.asks? = some among)
    (inner : body.Joins later True false) (lag : Lag later (solids c.ahead) (solids d.ahead))
    (same : d.kindAhead 0 = c.kindAhead 0) (clear : ((onlyIf question body).run c).faults = [])
    (clear' : ((onlyIf question body).run d).faults = [])
    (clean : ((onlyIf question body).run c).Clean) :
    (lagging later).Matches false ((onlyIf question body).run c) ((onlyIf question body).run d) :=
  joins_choose (asks_matches _ asks lag (by rw [same])) inner (joins_answer false) clear clear' clean
    fun _ => trivial

theorem joins_identifierList (what : String) (apart : more → firstKind later ≠ .comma) :
    (identifierList what).Joins later more idle := by
  refine joins_ask rfl (by decide) (joins_node ?_ _) (joins_missing _ _) (.inl rfl)
  refine joins_after joins_takeWord (joins_commas ?_ apart)
  exact fun c d lag same clear clear' clean =>
    onlyIf_matches rfl joins_takeWord lag same clear clear' clean

theorem joins_property {value : Production} (kind : NodeKind) (word : Keyword)
    (inner : value.Joins later more idle) : (property kind word value).Joins later more idle := by
  refine joins_after (joins_demand _) (joins_node ?_ kind)
  exact joins_after (joins_takeKeyword word) (joins_onlyIf (joins_expect (by decide) _) inner)

theorem joins_deploymentRule : deploymentRule.Joins later more idle := by
  refine joins_ask rfl (by decide) (joins_node ?_ _) (joins_missing _ _) (.inl rfl)
  exact joins_after (joins_takeKind (by decide))
    (joins_onlyIf (joins_expect (by decide) _) (joins_expectWord _))

theorem joins_deploymentRules : deploymentRules.Joins later more idle := by
  have rules : (loop (onlyIf (eat .comma) furtherRule)).Joins later False true :=
    joins_commas (fun c d lag same clear clear' clean =>
      onlyIf_matches rfl (joins_after joins_deploymentRule (joins_answer true)) lag same clear clear'
        clean) False.elim
  refine joins_node (joins_after (joins_takeKind (by decide)) (joins_after joins_deploymentRule ?_)) _
  exact joins_barred rules (joins_expect (by decide) _) rfl

theorem joins_deploymentSpec (apart : more → firstKind later ≠ .parenOpen) :
    deploymentSpec.Joins later more idle := by
  refine joins_within (joins_after ?_ ?_) _
  · refine joins_ask rfl (by decide) (joins_node (joins_takes (by decide)) _) (joins_missing _ _) ?_
    exact .inl rfl
  · refine joins_ask rfl (by decide) (joins_after joins_deploymentRules (joins_answer true))
      (joins_answer true) (.inr ⟨rfl, fun known => ?_⟩)
    rw [KindSet.has_single, beq_eq_false_iff_ne]
    exact fun same => apart known (Kind.token.inj same)

variable {what : String} {itemFirst : KindSet}

/-- Where an item may end: at the end of a line, or before a further item. -/
def itemEnd (itemFirst : KindSet) : KindSet := itemFirst ∪ .lineEnd

theorem finishItem_ended (what : String) (ends : (itemEnd itemFirst).has (c.kindAhead 0) = true) :
    ((finishItem what itemFirst).run c).answer = true ∧
      ((finishItem what itemFirst).run c).pieces = [] ∧
        ((finishItem what itemFirst).run c).cursor.ahead = c.ahead := by
  rw [finishItem, run, itemRest]
  set looked := ((look 0 itemFirst).run c).cursor with looked_eq
  by_cases line : ((look 0 .lineEnd).run looked).answer = true
  · rw [Outcome.andThen, ← looked_eq, run_yes line]
    exact ⟨rfl, rfl, rfl⟩
  · have first : itemFirst.has (c.kindAhead 0) = true := by
      have other : KindSet.lineEnd.has (c.kindAhead 0) = false := Bool.eq_false_iff.mpr line
      simpa [itemEnd, other] using ends
    have chosen : ((onAny itemFirst).run ((look 0 .lineEnd).run looked).cursor).answer = true := first
    rw [Outcome.andThen, ← looked_eq, run_no line, Outcome.andThen, run_yes chosen]
    exact ⟨rfl, rfl, rfl⟩

theorem finishItem_clean (clean : ((finishItem what itemFirst).run c).Clean) :
    (itemEnd itemFirst).has (c.kindAhead 0) = true := by
  by_contra other
  simp only [itemEnd, KindSet.has_union, Bool.or_eq_true, not_or] at other
  obtain ⟨no_item, no_end⟩ := other
  have going : c.kindAhead 0 ≠ .endOfInput := fun last => no_end (by rw [last]; decide)
  rw [finishItem, run, itemRest] at clean
  have further := clean.andThen.2
  set looked := ((look 0 itemFirst).run c).cursor
  have on_line : ¬ ((look 0 .lineEnd).run looked).answer = true := no_end
  rw [run_no on_line] at further
  have last := further.andThen.2
  have at_item : ¬ ((onAny itemFirst).run ((look 0 .lineEnd).run looked).cursor).answer = true :=
    no_item
  rw [run_no at_item] at last
  have skipped := last.andThen.2
  refine absurd skipped (Cursor.skip_unclean _ ?_)
  exact going

theorem joins_finishItem (ready : more → (itemEnd itemFirst).has (firstKind later) = true) :
    (finishItem what itemFirst).Joins later more idle := by
  intro c d lag _ _ clean last
  have ends := finishItem_clean clean
  obtain ⟨answer, still⟩ := finishItem_ended what ends
  have ends' : (itemEnd itemFirst).has (d.kindAhead 0) = true := by
    rcases lag_next lag with same | ⟨stands, -, further⟩
    · rwa [same]
    · rw [further]
      exact ready (last (still.2.symm ▸ stands))
  obtain ⟨answer', still'⟩ := finishItem_ended what ends'
  exact lagging_still lag still still' (.inr (answer'.trans answer.symm))

theorem lineOr_other (next : c.kindAhead 0 ≠ .newline) :
    (lineOr rest).run c = ((atKind .newline).run c).andThen fun _ c => rest.run c :=
  run_no fun asked => next ((KindSet.has_token _ _).mp asked)

theorem lineOr_newline (rest : Production) {token : Token} {tokens : List Token}
    (due : c.due = token :: tokens) (newline : token.kind = .newline) :
    ((lineOr rest).run c).answer = true ∧ corePieces ((lineOr rest).run c).pieces = [] ∧
      ((lineOr rest).run c).cursor.ahead = tokens := by
  have asks : (atKind .newline).asks? = some (.single TokenKind.newline) := rfl
  exact newline_taken asks (by decide) due newline

/-- Newlines in rounds of their own. Where one comes next in the first place only, the second passes it
by. -/
theorem joins_lines
    (onward : ∀ ⦃c d : Cursor⦄ ⦃limit : List Token⦄, Lag later (solids c.ahead) (solids d.ahead) →
      d.kindAhead 0 = c.kindAhead 0 → c.kindAhead 0 ≠ .newline →
        (rounds (lineOr rest).run limit c).faults = [] → (rounds (lineOr rest).run limit c).Clean →
          ((lineOr rest).run d).faults = [] →
            (lagging later).Matches false ((lineOr rest).run c) ((lineOr rest).run d)) :
    (loop (lineOr rest)).Joins later more idle := by
  intro c d lag clear clear' clean _
  refine rounds_onward (P := lagging later) (fun _ => True) ?_ c.ahead d.ahead lag clear clear' clean
    trivial
  intro c d limit limit' lag clear clear' clean _
  by_cases next : c.kindAhead 0 = .newline
  · obtain ⟨line, tokens, due, -, here, -⟩ :=
      c.due_of_kindAhead (by rw [next]; exact TokenKind.noConfusion)
    have newline := here.symm.trans next
    obtain ⟨again, core, ahead⟩ := lineOr_newline rest due newline
    have first := Cursor.solids_of_due due
    rcases lag.cases with ⟨token, left, left', split, split', near, -⟩ | ⟨none, -⟩ | ⟨stands, passed⟩
    · obtain ⟨rfl, rfl⟩ := List.cons.inj (first.symm.trans split)
      obtain ⟨tokens', due', rfl⟩ := Cursor.due_of_solids split'
      obtain ⟨again', core', ahead'⟩ := lineOr_newline rest due' newline
      refine .inl ⟨.inr (again'.trans again.symm), by rw [core, core'], ?_⟩
      show Lag later (solids _) (solids _)
      rw [ahead, ahead']
      exact near
    · rw [first] at none
      cases none
    · rw [first] at stands
      refine .inr ⟨again, limit', d, ?_, clear', core ▸ .refl _⟩
      show Lag later (solids _) (solids _)
      rw [ahead, passed]
      exact stands.step.2.elim (fun same => .inl same.symm) Stands.lag
  · have same : d.kindAhead 0 = c.kindAhead 0 :=
      (lag_next lag).resolve_right fun stands => next stands.2.1
    exact .inl (onward lag same next clear clean (rounds_clear clear'))

theorem joins_newlines : newlines.Joins later more idle := by
  show (loop (lineOr (answer false))).Joins later more idle
  refine joins_lines fun c d limit lag same next clear clean clear' => ?_
  have looked := asks_matches (atKind .newline) rfl lag (by rw [same])
  rw [lineOr_other next, lineOr_other (same ▸ next)]
  exact looked.andThen (Pace.quiet looked.cursor false)

theorem rounds_clean {round : Cursor → Outcome} {limit : List Token}
    (clear : (rounds round limit c).faults = []) (clean : (rounds round limit c).Clean)
    (again : (round c).answer = true) : (rounds round limit.tail (round c).cursor).Clean := by
  rw [rounds_more clear again] at clean
  exact clean.andThen.2

/-- Where lines go on at the newlines, the later tokens are among those that the rest stands for. -/
theorem lines_ready {among : KindSet} (newline : among.has TokenKind.newline = true)
    (known : ∀ ⦃c : Cursor⦄, (rest.run c).Clean → among.has (c.kindAhead 0) = true)
    {limit lines : List Token} (newlines : ∀ line ∈ lines, line.kind = .newline)
    (ahead : solids c.ahead = lines ++ later) (clear : (rounds (lineOr rest).run limit c).faults = [])
    (clean : (rounds (lineOr rest).run limit c).Clean) : among.has (firstKind later) = true := by
  induction lines generalizing c limit with
  | nil =>
    have here : c.kindAhead 0 = firstKind later := by
      rw [c.kindAhead_solids, ahead]
      rfl
    rw [← here]
    by_cases next : c.kindAhead 0 = .newline
    · rw [next]
      exact newline
    · have round := rounds_known (P := lagging later) clean
      rw [lineOr_other next] at round
      exact known (c := ((atKind .newline).run c).cursor) round.andThen.2
  | cons line lines ih =>
    obtain ⟨first, others⟩ := List.forall_mem_cons.mp newlines
    obtain ⟨tokens, due, left⟩ := Cursor.due_of_solids ahead
    obtain ⟨again, -, after⟩ := lineOr_newline rest due first
    refine ih others ?_ (rounds_again clear again).1 (rounds_clean clear clean again)
    rw [after, left]
    rfl

theorem joins_skip (complaint : Complaint) : (skip complaint).Joins later more idle := by
  intro c d lag _ _ clean _
  have last : c.kindAhead 0 = .endOfInput := by
    by_contra going
    exact Cursor.skip_unclean complaint going clean
  have last' : d.kindAhead 0 = .endOfInput := by
    rcases lag_next lag with same | ⟨-, newline, -⟩
    · rw [same, last]
    · rw [last] at newline
      cases newline
  exact lagging_still lag (c.skip_over complaint last) (d.skip_over complaint last')
    (.inr ((d.skip_answer complaint).trans (c.skip_answer complaint).symm))

theorem joins_blockItem (inner : item.Joins later more true)
    (other : itemFirst.has TokenKind.newline = false) :
    (blockItem what itemFirst item).Joins later more idle := by
  have bars : (branch (onAny itemFirst) (seq item (answer true))
      (skip (.plain ("unexpected token in " ++ what)))).balks = true := by
    simp [balks, onAny, asks?, other]
  refine joins_ask rfl (by decide) (joins_answer false) ?_ (.inl bars)
  exact joins_ask rfl other (joins_before inner (joins_answer true) rfl) (joins_skip _) (.inl rfl)

theorem blockItem_cases (clean : ((blockItem what itemFirst item).run c).Clean) :
    (KindSet.ofList [TokenKind.braceClose, TokenKind.endOfInput]).has (c.kindAhead 0) = true ∧
        ((blockItem what itemFirst item).run c).cursor.ahead = c.ahead ∨
      itemFirst.has (c.kindAhead 0) = true ∧ ((blockItem what itemFirst item).run c).answer = true := by
  set ends := onAny (.ofList [TokenKind.braceClose, TokenKind.endOfInput]) with ends_eq
  by_cases closing : (ends.run c).answer = true
  · refine .inl ⟨closing, ?_⟩
    rw [blockItem, ← ends_eq, run_yes closing]
    rfl
  · right
    rw [blockItem, ← ends_eq, run_no closing] at clean ⊢
    by_cases first : ((onAny itemFirst).run (ends.run c).cursor).answer = true
    · refine ⟨first, ?_⟩
      show ((branch (onAny itemFirst) _ _).run (ends.run c).cursor).answer = true
      rw [run_yes first]
      rfl
    · have further := clean.andThen.2
      rw [run_no first] at further
      refine absurd further.andThen.2 (Cursor.skip_unclean _ fun last => closing ?_)
      have at_end : c.kindAhead 0 = .endOfInput := last
      show (KindSet.ofList [TokenKind.braceClose, TokenKind.endOfInput]).has (c.kindAhead 0) = true
      rw [at_end]
      decide

theorem blockItem_ready (clean : ((blockItem what itemFirst item).run c).Clean) :
    (itemEnd itemFirst).has (c.kindAhead 0) = true := by
  rcases blockItem_cases clean with ⟨closing, -⟩ | ⟨first, -⟩
  · have line : KindSet.lineEnd.has (c.kindAhead 0) = true := by
      rw [KindSet.has_ofList, List.contains_iff_mem] at closing
      rw [KindSet.lineEnd, KindSet.has_ofList, List.contains_iff_mem]
      exact List.mem_cons_of_mem _ closing
    rw [itemEnd, KindSet.has_union, line, Bool.or_true]
  · rw [itemEnd, KindSet.has_union, first, Bool.true_or]

theorem joins_blockLines
    (inner : item.Joins later ((itemEnd itemFirst).has (firstKind later) = true) true)
    (other : itemFirst.has TokenKind.newline = false) :
    (blockLines what itemFirst item).Joins later more idle := by
  rw [blockLines]
  refine joins_lines ?_
  intro c d limit lag same next clear clean clear'
  have looked := asks_matches (atKind .newline) rfl lag (by rw [same])
  have one := rounds_clear clear
  have clean_one := rounds_known (P := lagging later) clean
  -- At the newlines the block goes on in further rounds.
  have ready
      (stands : Stands later (solids ((lineOr (blockItem what itemFirst item)).run c).cursor.ahead)) :
      (itemEnd itemFirst).has (firstKind later) = true := by
    have again : ((lineOr (blockItem what itemFirst item)).run c).answer = true := by
      rw [lineOr_other next] at clean_one stands ⊢
      refine (blockItem_cases clean_one.andThen.2).elim (fun closing => ?_) And.right
      have still : solids c.ahead = _ := congrArg solids closing.2.symm
      rw [c.kindAhead_solids, still] at next
      exact absurd stands.next next
    obtain ⟨lines, -, newlines, split⟩ := stands
    refine lines_ready ?_ (fun c clean => blockItem_ready clean) newlines split
      (rounds_again clear again).1 (rounds_clean clear clean again)
    rw [itemEnd, KindSet.has_union, Bool.or_eq_true]
    exact .inr (by decide)
  rw [lineOr_other next] at one clean_one ready ⊢
  rw [lineOr_other (same ▸ next)] at clear' ⊢
  exact looked.andThen (joins_blockItem inner other looked.cursor (Outcome.andThen_clear one).2
    (Outcome.andThen_clear clear').2 clean_one.andThen.2 ready)

theorem joins_block (inner : body.Joins later True true) : (block what body).Joins later more idle := by
  refine .of_mirrors (mirrors_block (joins_takes (by decide)).mirrors inner.mirrors ?_)
  intro _ b' c d _ lag clear _ clean
  obtain ⟨closing, taken⟩ := Cursor.closeBlock_clean clean
  have closing' : d.kindAhead 0 = .braceClose := by
    rcases lag_next lag with same | ⟨-, newline, -⟩
    · rw [same, closing]
    · rw [closing] at newline
      cases newline
  have taken' : d.closeBlock what b'.spanAhead = d.take (.single TokenKind.braceClose) none :=
    if_pos closing'
  rw [taken] at clear ⊢
  rw [taken']
  exact joins_take (by decide) lag clear

theorem joins_bracedItems
    (inner : item.Joins later ((itemEnd itemFirst).has (firstKind later) = true) true)
    (other : itemFirst.has TokenKind.newline = false) (last : after.Joins later more idle) :
    (bracedItems what itemFirst item after).Joins later more idle := by
  refine joins_after (joins_still (fun _ => ⟨rfl, rfl⟩) (.inr fun _ _ => rfl)) ?_
  refine joins_ask rfl (by decide) ?_ (joins_missing _ _) (.inl rfl)
  exact joins_after (joins_block (joins_blockLines inner other)) last

theorem servicePropertyFirst_end {kind : TokenKind}
    (ends : (itemEnd .servicePropertyFirst).has kind = true) : kind ≠ .comma ∧ kind ≠ .parenOpen := by
  constructor
  · rintro rfl
    exact absurd ends (by decide)
  · rintro rfl
    exact absurd ends (by decide)

theorem joins_serviceProperty : serviceProperty.Joins later
    ((itemEnd .servicePropertyFirst).has (firstKind later) = true) true := by
  refine joins_before ?_ (joins_finishItem id) rfl
  have list (what : String) : (identifierList what).Joins later
      ((itemEnd .servicePropertyFirst).has (firstKind later) = true) true :=
    joins_identifierList what fun ends => (servicePropertyFirst_end ends).1
  refine joins_ask rfl (by decide) (joins_property _ _ (list _)) ?_ (.inl rfl)
  refine joins_ask rfl (by decide) (joins_property _ _ (joins_expectWord _)) ?_ (.inl rfl)
  refine joins_ask rfl (by decide) (joins_property _ _ (list _)) ?_ (.inl rfl)
  refine joins_ask rfl (by decide) (joins_property _ _ ?_) joins_impossible (.inl rfl)
  exact joins_deploymentSpec fun ends => (servicePropertyFirst_end ends).2

theorem joins_serviceBody (last : after.Joins later more idle) :
    (serviceBody what after).Joins later more idle :=
  joins_bracedItems joins_serviceProperty (by decide) last

theorem joins_serviceDefinition : serviceDefinition.Joins later more idle := by
  refine joins_node (joins_after ?_ (joins_serviceBody (joins_answer true))) _
  exact joins_ask rfl (by decide) (joins_takeKind (by decide)) joins_takeWord (.inl rfl)

theorem joins_servicesBlock : servicesBlock.Joins later more idle :=
  joins_node (joins_after (joins_takeKeyword _)
    (joins_bracedItems joins_serviceDefinition (by decide) joins_newlines)) _

theorem joins_serviceBlock : serviceBlock.Joins later more idle :=
  joins_node (joins_after (joins_takeKeyword _)
    (joins_after (joins_expectWord _) (joins_serviceBody joins_newlines))) _

theorem joins_subdomains (last : after.Joins later more idle) :
    (subdomains what after).Joins later more idle :=
  joins_bracedItems (joins_node joins_takeWord _) (by decide) last

theorem joins_domainBlock : domainBlock.Joins later more idle :=
  joins_node (joins_after (joins_takeKeyword _)
    (joins_after (joins_expectWord _) (joins_subdomains joins_newlines))) _

theorem joins_domainDefinition : domainDefinition.Joins later more idle :=
  joins_node (joins_after joins_takeWord (joins_subdomains (joins_answer true))) _

theorem joins_domainsBlock : domainsBlock.Joins later more idle :=
  joins_node (joins_after (joins_takeKeyword _)
    (joins_bracedItems joins_domainDefinition (by decide) joins_newlines)) _

theorem joins_actorDefinition :
    actorDefinition.Joins later ((itemEnd .actorTypes).has (firstKind later) = true) true := by
  refine joins_before (joins_node ?_ _) (joins_finishItem id) rfl
  refine joins_after ?_ (joins_expectNameNode _ _)
  refine joins_ask rfl (by decide) (joins_node (joins_takes (by decide)) _) (joins_missing _ _) ?_
  exact .inl rfl

theorem joins_actorsBlock : actorsBlock.Joins later more idle :=
  joins_node (joins_after (joins_takeKeyword _)
    (joins_bracedItems joins_actorDefinition (by decide) joins_newlines)) _

theorem joins_exposureProperty : exposureProperty.Joins later
    ((itemEnd .exposurePropertyFirst).has (firstKind later) = true) true := by
  refine joins_before ?_ (joins_finishItem id) rfl
  have list (what : String) : (identifierList what).Joins later
      ((itemEnd .exposurePropertyFirst).has (firstKind later) = true) true :=
    joins_identifierList what fun ends comma => absurd ends (by rw [comma]; decide)
  refine joins_ask rfl (by decide) (joins_property _ _ (list _)) ?_ (.inl rfl)
  refine joins_ask rfl (by decide) (joins_property _ _ (list _)) ?_ (.inl rfl)
  exact joins_ask rfl (by decide) (joins_property _ _ (list _)) joins_impossible (.inl rfl)

theorem joins_exposureBlock : exposureBlock.Joins later more idle :=
  joins_node (joins_after (joins_takeKeyword _) (joins_after (joins_expectWord _)
    (joins_bracedItems joins_exposureProperty (by decide) joins_newlines))) _

end

end Production

end CraftDsl
