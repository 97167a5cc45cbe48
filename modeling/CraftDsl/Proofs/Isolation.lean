import CraftDsl.Ast.Item
import CraftDsl.Proofs.Concatenation
import CraftDsl.Proofs.LongestMatch
import CraftDsl.Proofs.Tails

/-!
Items on their own. An item without errors is parsed from its own text as it is in the source, whatever
surrounds it there. Main statement: `item_alone`.
-/
namespace CraftDsl

theorem Outcome.mem_andThen {o : Outcome} {next : Bool → Cursor → Outcome} {piece : Piece}
    (member : piece ∈ (o.andThen next).pieces) :
    piece ∈ o.pieces ∨ piece ∈ (next o.answer o.cursor).pieces := List.mem_append.mp member

namespace Production

variable {c d : Cursor}

def launches : Production → Bool
  | seq settle (within _ _) => true
  | branch (glance 0 _) yes no => yes.launches && no.launches
  | impossible => true
  | _ => false

theorem launches_run (x : Production) (opens : x.launches = true) (clear : (x.run c).faults = []) :
    x.run c = (c.settle.andThen fun _ c => x.run c) ∧
      ∃ kind children, (x.run c).pieces = leaves c.pending ++ [.tree (.node kind children)] := by
  fun_induction launches x with
  | case1 kind body =>
    have whole : (seq settle (within kind body)).run c =
        c.settle.andThen fun _ c => (within kind body).run c := rfl
    refine ⟨?_, kind, closePieces (body.run c.settle.cursor).pieces, ?_⟩
    · rw [whole]
      apply Outcome.andThen_congr rfl
      show _ = c.settle.cursor.settle.andThen fun _ c => (within kind body).run c
      rw [c.settle_settled]
      rfl
    · rw [whole, Outcome.andThen, c.settle_eq]
      rfl
  | case2 among yes no yes_ih no_ih =>
    obtain ⟨yes_opens, no_opens⟩ := Bool.and_eq_true_iff.mp opens
    have settled : c.settle.cursor.kindAhead 0 = c.kindAhead 0 := by
      rw [c.settle_eq]
      exact c.kindAhead_due 0
    by_cases answer : among.has (c.kindAhead 0) = true
    · have here : (branch (glance 0 among) yes no).run c = yes.run c :=
        run_yes (show ((glance 0 among).run c).answer = true from answer)
      have there : (branch (glance 0 among) yes no).run c.settle.cursor = yes.run c.settle.cursor :=
        run_yes (show among.has (c.settle.cursor.kindAhead 0) = true by rwa [settled])
      rw [here] at clear ⊢
      obtain ⟨after, node⟩ := yes_ih yes_opens clear
      refine ⟨after.trans (Outcome.andThen_congr rfl there.symm), node⟩
    · have here : (branch (glance 0 among) yes no).run c = no.run c :=
        run_no (show ¬ ((glance 0 among).run c).answer = true from answer)
      have there : (branch (glance 0 among) yes no).run c.settle.cursor = no.run c.settle.cursor :=
        run_no (show ¬ among.has (c.settle.cursor.kindAhead 0) = true by rwa [settled])
      rw [here] at clear ⊢
      obtain ⟨after, node⟩ := no_ih no_opens clear
      refine ⟨after.trans (Outcome.andThen_congr rfl there.symm), node⟩
  | case3 => cases clear
  | case4 => cases opens

theorem item_launches : (item.heed false true).launches = true := by decide +kernel

theorem choose_run {choices : List (Keyword × Production)}
    (clear : ((choose choices).run c).faults = []) :
    ∃ choice ∈ choices, ∀ d : Cursor, d.kindAhead 0 = c.kindAhead 0 →
      (choose choices).run d = choice.2.run d := by
  have answers (word : Keyword) {d : Cursor} (same : d.kindAhead 0 = c.kindAhead 0) :
      ((onKeyword word).run d).answer = ((onKeyword word).run c).answer :=
    congrArg (fun kind => (KindSet.single (TokenKind.keyword word)).has (.token kind)) same
  induction choices with
  | nil => cases clear
  | cons choice others ih =>
    by_cases asked : ((onKeyword choice.1).run c).answer = true
    · exact ⟨choice, List.mem_cons_self, fun d same => run_yes ((answers _ same).trans asked)⟩
    · have here : (choose (choice :: others)).run c = (choose others).run c := run_no asked
      rw [here] at clear
      obtain ⟨chosen, among, runs⟩ := ih clear
      refine ⟨chosen, List.mem_cons_of_mem _ among, fun d same => (run_no ?_).trans (runs d same)⟩
      rwa [answers _ same]

theorem lapOf_item (x : Production) (first : KindSet.itemFirst.has (c.kindAhead 0) = true) :
    (lapOf (itemOr x)).run c = ((atKind .endOfInput).run c).andThen fun _ c =>
      (x.run c).andThen fun _ c => .quiet true c := by
  have going : ¬ ((atKind .endOfInput).run c).answer = true := by
    intro at_end
    rw [(KindSet.has_token _ _).mp at_end] at first
    cases first
  have same_line : ¬ ((onKind .newline).run ((atKind .endOfInput).run c).cursor).answer = true := by
    intro newline
    have next : c.kindAhead 0 = .newline := (KindSet.has_token _ _).mp newline
    rw [next] at first
    cases first
  rw [lapOf, run_no going]
  apply Outcome.andThen_congr rfl
  have chosen : ((onAny .itemFirst).run ((atKind .endOfInput).run c).cursor).answer = true := first
  rw [run_no same_line]
  exact run_yes chosen

theorem skip_pieces {complaint : Complaint} {t : Tree}
    (member : .tree t ∈ (c.skip complaint).pieces) :
    (∃ token, t = .leaf token) ∨ ∃ children, t = .node .error children := by
  have skipped := (Outcome.mem_andThen member).resolve_left List.not_mem_nil
  split at skipped
  · cases skipped
  · have reported := (Outcome.mem_andThen skipped).resolve_left List.not_mem_nil
    rcases Outcome.mem_andThen reported with report | discarded
    · rw [Cursor.report_pieces] at report
      cases report
    · rw [Cursor.discard_eq] at discarded
      rcases List.mem_append.mp discarded with blank | error
      · obtain ⟨token, -, same⟩ := List.mem_map.mp blank
        exact .inl ⟨token, (Piece.tree.inj same).symm⟩
      · exact .inr ⟨_, Piece.tree.inj (List.mem_singleton.mp error)⟩

theorem lapOf_other (x : Production) {t : Tree}
    (first : ¬ KindSet.itemFirst.has (c.kindAhead 0) = true)
    (member : .tree t ∈ ((lapOf (itemOr x)).run c).pieces) : Item.ofTree? t = none := by
  by_cases at_end : c.kindAhead 0 = .endOfInput
  · rw [lapOf_over (itemOr x) at_end] at member
    cases member
  by_cases newline : c.kindAhead 0 = .newline
  · obtain ⟨token, tokens, due, -, kind, -⟩ := c.due_of_kindAhead at_end
    rw [lapOf_newline (itemOr x) due (kind.symm.trans newline)] at member
    obtain ⟨leaf, -, same⟩ := List.mem_map.mp member
    rw [← Piece.tree.inj same]
    rfl
  have going : ¬ ((atKind .endOfInput).run c).answer = true := fun asked =>
    at_end ((KindSet.has_token _ _).mp asked)
  have same_line : ¬ ((onKind .newline).run ((atKind .endOfInput).run c).cursor).answer = true :=
    fun asked => newline ((KindSet.has_token _ _).mp asked)
  have other : ¬ ((onAny .itemFirst).run ((atKind .endOfInput).run c).cursor).answer = true := first
  rw [lapOf, run_no going] at member
  have further := (Outcome.mem_andThen member).resolve_left List.not_mem_nil
  rw [run_no same_line] at further
  have unexpected : .tree t ∈ ((itemOr x).run ((atKind .endOfInput).run c).cursor).pieces :=
    (Outcome.mem_andThen further).resolve_left List.not_mem_nil
  rw [itemOr, run_no other] at unexpected
  have skipped := (Outcome.mem_andThen unexpected).resolve_left List.not_mem_nil
  rcases skip_pieces ((Outcome.mem_andThen skipped).resolve_left List.not_mem_nil) with
    ⟨token, rfl⟩ | ⟨children, rfl⟩
  · rfl
  · rfl

/-- An item among the pieces of a source was made by some lap. -/
theorem lapsOf_item {x : Production} {limit : List Token} {t : Tree} {i : Item}
    (clear : (rounds (lapOf (itemOr x)).run limit c).faults = [])
    (member : .tree t ∈ (rounds (lapOf (itemOr x)).run limit c).pieces)
    (found : Item.ofTree? t = some i) :
    ∃ before d, c.ahead = before ++ d.ahead ∧ KindSet.itemFirst.has (d.kindAhead 0) = true ∧
      (x.run d).faults = [] ∧ .tree t ∈ (x.run d).pieces := by
  have here {c : Cursor} (clear : ((lapOf (itemOr x)).run c).faults = [])
      (member : .tree t ∈ ((lapOf (itemOr x)).run c).pieces) :
      ∃ before d, c.ahead = before ++ d.ahead ∧ KindSet.itemFirst.has (d.kindAhead 0) = true ∧
        (x.run d).faults = [] ∧ .tree t ∈ (x.run d).pieces := by
    by_cases first : KindSet.itemFirst.has (c.kindAhead 0) = true
    · rw [lapOf_item x first] at clear member
      have inner := (Outcome.andThen_clear (Outcome.andThen_clear clear).2).1
      have later := (Outcome.mem_andThen member).resolve_left List.not_mem_nil
      exact ⟨[], ((atKind .endOfInput).run c).cursor, rfl, first, inner,
        (Outcome.mem_andThen later).resolve_right List.not_mem_nil⟩
    · cases (lapOf_other x first member).symm.trans found
  refine rounds_induction (fun _ => True) (motive := fun c o => .tree t ∈ o.pieces →
      ∃ before d, c.ahead = before ++ d.ahead ∧ KindSet.itemFirst.has (d.kindAhead 0) = true ∧
        (x.run d).faults = [] ∧ .tree t ∈ (x.run d).pieces)
    (fun _ _ _ => trivial) ?_ ?_ limit trivial clear member
  · exact fun _ _ none => absurd none List.not_mem_nil
  · intro c rest _ one _ later among
    rcases Outcome.mem_andThen among with now | further
    · exact here one now
    · obtain ⟨before, d, ahead, first, inner, built⟩ := later further
      obtain ⟨taken, spends⟩ := (lapOf (itemOr x)).run_spent c
      refine ⟨taken ++ before, d, ?_, first, inner, built⟩
      rw [spends.ahead, ahead, List.append_assoc]

/-- An item is all that is added but for blanks and comments before it, and it carries the tokens that
are taken then. -/
theorem item_built {t : Tree} {i : Item} (clear : ((item.heed false true).run c).faults = [])
    (member : .tree t ∈ ((item.heed false true).run c).pieces) (found : Item.ofTree? t = some i) :
    ((item.heed false true).run c.settle.cursor).faults = [] ∧
      ((item.heed false true).run c.settle.cursor).pieces = [.tree t] ∧
      ∃ taken, c.due = taken ++ ((item.heed false true).run c.settle.cursor).cursor.ahead ∧
        List.Forall₂ Carried taken t.tokens := by
  obtain ⟨same, kind, children, node⟩ := launches_run _ item_launches clear
  obtain rfl : t = .node kind children := by
    rw [node] at member
    rcases List.mem_append.mp member with blank | built
    · obtain ⟨token, -, leaf⟩ := List.mem_map.mp blank
      rw [← Piece.tree.inj leaf] at found
      cases found
    · exact Piece.tree.inj (List.mem_singleton.mp built)
  rw [same] at clear node
  have inner := (Outcome.andThen_clear clear).2
  have pieces : ((item.heed false true).run c.settle.cursor).pieces =
      [.tree (.node kind children)] := by
    rw [Outcome.andThen, c.settle_eq] at node
    rw [c.settle_eq]
    exact List.append_cancel_left node
  obtain ⟨taken, spends⟩ := (item.heed false true).run_spent c.settle.cursor
  have carried := spends.leaves inner
  rw [pieces] at carried
  have settled : c.settle.cursor.ahead = c.due := by rw [c.settle_eq]
  refine ⟨inner, pieces, taken, ?_, ?_⟩
  · rw [← settled, spends.ahead]
  · simpa [tokensOf, Piece.tokens] using carried

/-- Where an item is all that is ahead, the laps come to the item. -/
theorem laps_single {limit : List Token} (clear : (rounds lap.run limit c).faults = [])
    (first : KindSet.itemFirst.has (c.kindAhead 0) = true)
    (ended : (item.run ((atKind .endOfInput).run c).cursor).cursor.ahead = []) :
    (rounds lap.run limit c).pieces = (item.run ((atKind .endOfInput).run c).cursor).pieces ∧
      (rounds lap.run limit c).reports = (item.run ((atKind .endOfInput).run c).cursor).reports ∧
      (rounds lap.run limit c).cursor.ahead = [] := by
  have one : lap.run c = ((atKind .endOfInput).run c).andThen fun _ c =>
      (item.run c).andThen fun _ c => .quiet true c := lapOf_item item first
  have again : (lap.run c).answer = true := by rw [one]; rfl
  have cursor : (lap.run c).cursor = (item.run ((atKind .endOfInput).run c).cursor).cursor := by
    rw [one]
    rfl
  have pieces : (lap.run c).pieces = (item.run ((atKind .endOfInput).run c).cursor).pieces := by
    rw [one]
    exact List.append_nil _
  have reports : (lap.run c).reports = (item.run ((atKind .endOfInput).run c).cursor).reports := by
    rw [one]
    exact List.append_nil _
  obtain ⟨no_pieces, no_reports, ended_there⟩ :=
    lapsOf_over (itemOr item) limit.tail (c := (lap.run c).cursor) (by rw [cursor, ended])
  rw [rounds_more clear again]
  refine ⟨?_, ?_, ended_there⟩
  · have none_left : (rounds lap.run limit.tail (lap.run c).cursor).pieces = [] := no_pieces
    rw [Outcome.andThen, none_left, List.append_nil, pieces]
  · have none_left : (rounds lap.run limit.tail (lap.run c).cursor).reports = [] := no_reports
    rw [Outcome.andThen, none_left, List.append_nil, reports]

theorem laps_clear (source : List Char) :
    (rounds lap.run (lex source) (.start (lex source))).faults = [] := by
  have whole : ((rounds lap.run (lex source) (.start (lex source))).andThen
      fun _ c => c.settle).faults = [] := parsed_clear source
  exact (Outcome.andThen_clear whole).1

/-- A source that is all an item consists of the item, and what is reported is what the item reports. -/
theorem parse_single {source : List Char}
    (first : KindSet.itemFirst.has ((Cursor.start (lex source)).kindAhead 0) = true) {t : Tree}
    (pieces : (item.run ((atKind .endOfInput).run (.start (lex source))).cursor).pieces = [.tree t])
    (ended : (item.run ((atKind .endOfInput).run (.start (lex source))).cursor).cursor.ahead = []) :
    (parse source).tree = .node .sourceFile [t] ∧ (parsed (lex source)).reports =
      (item.run ((atKind .endOfInput).run (.start (lex source))).cursor).reports := by
  obtain ⟨trees, root, spelled⟩ := parse_spelled source
  have whole : parsed (lex source) = ((rounds lap.run (lex source) (.start (lex source))).andThen
      fun _ c => c.settle).wrapped .sourceFile := rfl
  obtain ⟨all, reported, nothing_left⟩ := laps_single (laps_clear source) first ended
  have settled : (rounds lap.run (lex source) (.start (lex source))).cursor.settle.pieces = [] := by
    rw [Cursor.settle_eq, Cursor.pending, nothing_left]
    rfl
  have inner : closePieces ((rounds lap.run (lex source) (.start (lex source))).pieces ++
      (rounds lap.run (lex source) (.start (lex source))).cursor.settle.pieces) = trees := by
    rw [whole] at root
    exact (Tree.node.inj (Piece.tree.inj (List.cons.inj root).1)).2
  rw [settled, all, pieces] at inner
  constructor
  · rw [spelled, ← inner]
    rfl
  · rw [whole, ← reported]
    exact List.append_nil _

/-- A child of the root that is an item was added by the production of items. -/
theorem parse_item {source : List Char} {t : Tree} {i : Item}
    (child : t ∈ (parse source).tree.children) (found : Item.ofTree? t = some i) :
    ∃ before d, lex source = before ++ d.ahead ∧
      KindSet.itemFirst.has (d.kindAhead 0) = true ∧
      ((item.heed false true).run d).faults = [] ∧
      .tree t ∈ ((item.heed false true).run d).pieces := by
  obtain ⟨trees, root, spelled⟩ := parse_spelled source
  obtain ⟨clear, same⟩ := parsed_heeded source
  set o := rounds (lapOf (itemOr (item.heed false true))).run (lex source) (.start (lex source))
    with o_eq
  have whole : (sourceFile.heed false true).run (.start (lex source)) =
      (o.andThen fun _ c => c.settle).wrapped .sourceFile := rfl
  have passed : (o.andThen fun _ c => c.settle).faults = [] := clear
  rw [← same, whole] at root
  have inner := (Tree.node.inj (Piece.tree.inj (List.cons.inj root).1)).2
  have rounds_closed : openings o.pieces = 0 :=
    rounds_sealed (run_sealed _ (show (lap.heed false false).isSealed = true by decide +kernel)) _ _
  have closed : openings (o.andThen fun _ c => c.settle).pieces = 0 := by
    rw [Outcome.andThen, o.cursor.settle_eq, openings_append, rounds_closed, openings_leaves]
  rw [spelled, Tree.children, ← inner] at child
  have member : .tree t ∈ (o.andThen fun _ c => c.settle).pieces := by
    rw [eq_trees_of_openings _ closed]
    exact List.mem_map_of_mem child
  rcases Outcome.mem_andThen member with lap | blank
  · exact lapsOf_item (Outcome.andThen_clear passed).1 lap found
  · rw [o.cursor.settle_eq] at blank
    obtain ⟨token, -, leaf⟩ := List.mem_map.mp blank
    rw [← Piece.tree.inj leaf] at found
    cases found

end Production

theorem Tree.clean_of_sound {t : Tree} (sound : t.hasError = false) :
    NodeKind.error ∉ t.nodeKinds := by
  intro member
  obtain ⟨m, below, error⟩ := Node.mem_nodeKinds (n := .root t) member
  have found : t.hasError = true :=
    (Node.hasError_iff (.root t)).mpr ⟨m, below, by rw [error]; rfl⟩
  exact Bool.noConfusion (sound.symm.trans found)

theorem Tree.hasError_single {t : Tree} (sound : t.hasError = false) :
    (Tree.node .sourceFile [t]).hasError = false := by
  rw [← Bool.not_eq_true]
  intro found
  obtain ⟨m, below, error⟩ := (Node.hasError_iff (.root (.node .sourceFile [t]))).mp found
  rw [Node.everything_eq] at below
  rcases List.mem_cons.mp below with rfl | deeper
  · cases error
  · obtain ⟨child, inside, within⟩ := List.mem_flatMap.mp deeper
    obtain ⟨kind, before, after, focus, -, -⟩ := Node.mem_allChildren inside
    obtain rfl : t = child.focus := by
      have split := (Tree.node.inj focus).2
      have member : child.focus ∈ [t] := split ▸ by simp
      exact (List.mem_singleton.mp member).symm
    exact Bool.noConfusion (sound.symm.trans ((Node.hasError_iff child).mpr ⟨m, within, error⟩))

section

variable {c d : Cursor} {taken rest : List Token} (ahead : c.ahead = taken ++ rest)
  (cut_off : d.ahead = taken) (clear : ((Production.item.heed false true).run c).faults = [])
  (clean : ((Production.item.heed false true).run c).Clean)
  (after : ((Production.item.heed false true).run c).cursor.ahead = rest)

include ahead cut_off clear clean after

/-- The tokens of an item begin as it does where more comes after them. -/
theorem item_begins : d.kindAhead 0 = c.kindAhead 0 := by
  obtain ⟨taken', same, stock⟩ := Production.heeded_takes _ Production.item_trails clear clean
  obtain rfl : taken = taken' := by
    refine List.append_cancel_right (show _ ++ rest = _ ++ rest from ?_)
    rw [← ahead, same, after]
  rw [Cursor.kindAhead, Cursor.kindAhead, cut_off, ahead]
  exact (kindIn_append rest (solidCount_pos.mpr stock.ongoing)).symm

/-- The tokens of an item are parsed as it is where more comes after them. -/
theorem item_cut (solid : ∀ token ∈ c.ahead, token.kind ≠ .endOfInput)
    (clear' : (Production.item.run d).faults = []) :
    (Production.item.run d).pieces = ((Production.item.heed false true).run c).pieces ∧
      (Production.item.run d).cursor.ahead = [] := by
  have cut := Production.trails_cut _ Production.item_trails (cut_off ▸ ahead) solid clear clear'
    clean after
  exact ⟨cut.pieces, List.self_eq_append_left.mp (after ▸ cut.ahead)⟩

end

/-- An item without errors is found unchanged when its text is parsed on its own, whatever errors there
are in the rest of the source. -/
theorem item_alone (source : List Char) {t : Tree} (child : t ∈ (parse source).tree.children)
    (found : (Item.ofTree? t).isSome = true) (sound : t.hasError = false) :
    (parse t.text).diagnostics = [] ∧ (parse t.text).tree = .node .sourceFile [t] := by
  obtain ⟨i, found⟩ := Option.isSome_iff_exists.mp found
  obtain ⟨before, d, ahead, first, clear, member⟩ := Production.parse_item child found
  obtain ⟨built, pieces, taken, due, carried⟩ := Production.item_built clear member found
  set c := d.settle.cursor with c_eq
  have settled : c.ahead = d.due := by rw [c_eq, d.settle_eq]
  have same_first : c.kindAhead 0 = d.kindAhead 0 := by
    rw [Cursor.kindAhead, settled, d.kindAhead_due]
  have split : lex source = (before ++ d.pending) ++
      (taken ++ ((Production.item.heed false true).run c).cursor.ahead) := by
    rw [ahead, d.ahead_eq, due, List.append_assoc]
  have solid (token : Token) (inside : token ∈ c.ahead) : token.kind ≠ .endOfInput := by
    apply lex_solid source
    rw [split, ← due, ← settled]
    exact List.mem_append_right _ inside
  have tokens : lex t.text = taken := by
    rw [Tree.text, carried_text carried]
    exact lex_front (lex_rest split)
  have clean : ((Production.item.heed false true).run c).Clean := by
    rw [Outcome.Clean, pieces]
    simpa [kindsOf, Piece.kinds] using Tree.clean_of_sound sound
  -- From here on the item is parsed a second time, from its tokens alone.
  have begins : KindSet.itemFirst.has ((Cursor.start (lex t.text)).kindAhead 0) = true := by
    rw [item_begins (settled.trans due) tokens built clean rfl, same_first]
    exact first
  have lap := Production.rounds_clear (Production.laps_clear t.text)
  rw [Production.lap, Production.lapOf_item _ begins] at lap
  obtain ⟨same, ended⟩ := item_cut (settled.trans due)
    (d := ((Production.atKind .endOfInput).run (.start (lex t.text))).cursor) tokens built clean rfl
    solid (Outcome.andThen_clear (Outcome.andThen_clear lap).2).1
  obtain ⟨tree, -⟩ := Production.parse_single begins (same.trans pieces) ended
  refine ⟨?_, tree⟩
  by_contra reported
  have errors := (hasErrors_iff t.text).mpr reported
  rw [Parse.hasErrors, tree, Tree.hasError_single sound] at errors
  cases errors

/-- An actor after a block without a name and a stray character. -/
theorem announced_alone :
    (parse (nameless ++ announced)).diagnostics ≠ [] ∧
      ∃ t ∈ (parse (nameless ++ announced)).tree.children, (Item.ofTree? t).isSome = true ∧
        t.hasError = false ∧ t.text = "actor user Ann\n".toList ∧ (parse t.text).diagnostics = [] ∧
        (parse t.text).tree = .node .sourceFile [t] := by
  have errors : (parse (nameless ++ announced)).diagnostics.length = 4 := by decide +kernel
  have actor : ((parse (nameless ++ announced)).tree.children.find? fun t =>
      (Item.ofTree? t).isSome && !t.hasError).map Tree.text = some "actor user Ann\n".toList := by
    decide +kernel
  obtain ⟨t, chosen, text⟩ := Option.map_eq_some_iff.mp actor
  have child := List.mem_of_find?_eq_some chosen
  have both := List.find?_some (p := fun t => (Item.ofTree? t).isSome && !t.hasError) chosen
  simp only [Bool.and_eq_true, Bool.not_eq_true'] at both
  obtain ⟨found, sound⟩ := both
  refine ⟨fun none_reported => ?_, t, child, found, sound, text, item_alone _ child found sound⟩
  rw [none_reported] at errors
  cases errors

end CraftDsl
