import CraftDsl.Proofs.Isolation
import CraftDsl.Proofs.SharedLines.Blocks
import CraftDsl.Proofs.SharedLines.Fork

/-!
Sources lap by lap, of which the second leaves out newlines in a block of the first. Up to the block the
laps do not see the newlines, the block adds the same without them, and then the same tokens are left.
Main statement: `laps_join`.
-/
namespace CraftDsl

def NodeKind.isListing : NodeKind → Bool
  | .servicesBlock | .serviceBlock | .domainBlock | .domainsBlock | .actorsBlock
  | .exposureBlock => true
  | _ => false

theorem solids_drop_le (n : Nat) (tokens : List Token) :
    (solids (tokens.drop n)).length ≤ (solids tokens).length :=
  ((List.drop_sublist n tokens).filter _).length_le

namespace Production

variable {lines later : List Token} {c d : Cursor} {kind : NodeKind} {children : List Tree}

theorem node_pieces {other : NodeKind} {body : Production}
    (member : .tree (.node kind children) ∈ ((node other body).run c).pieces) : kind = other := by
  rw [node, run, run, Outcome.andThen, c.settle_eq] at member
  rcases List.mem_append.mp member with blank | whole
  · obtain ⟨token, -, leaf⟩ := List.mem_map.mp blank
    cases leaf
  · exact (Tree.node.inj (Piece.tree.inj (List.mem_singleton.mp whole))).1

theorem itemChoices_join (later : List Token) : ∀ choice ∈ itemChoices scenarios,
    (∃ other body, choice.2 = node other body ∧ other.isListing = false) ∨
      choice.2.Joins later True true := by
  simp only [itemChoices, List.forall_mem_cons]
  refine ⟨.inl ⟨_, _, rfl, rfl⟩, .inr joins_servicesBlock, .inr joins_serviceBlock,
    .inr joins_domainBlock, .inr joins_domainsBlock, .inr joins_actorsBlock, .inl ⟨_, _, rfl, rfl⟩,
    .inr joins_exposureBlock, .inl ⟨_, _, rfl, rfl⟩, List.forall_mem_nil _⟩

/-- The block is read in the same way without the newlines. -/
theorem item_joins (listing : kind.isListing = true)
    (member : .tree (.node kind children) ∈ (item.run c).pieces)
    (lag : Lag later (solids c.ahead) (solids d.ahead)) (same : d.kindAhead 0 = c.kindAhead 0)
    (clear : (item.run c).faults = []) (clear' : (item.run d).faults = [])
    (clean : (item.run c).Clean) : (lagging later).Matches true (item.run c) (item.run d) := by
  obtain ⟨choice, among, runs⟩ :=
    choose_run (show ((choose (itemChoices scenarios)).run c).faults = [] from clear)
  change ∀ d : Cursor, _ → item.run d = choice.2.run d at runs
  rw [runs c rfl] at member clear clean ⊢
  rw [runs d same] at clear' ⊢
  rcases itemChoices_join later choice among with ⟨other, body, node, plain⟩ | joins
  · rw [node] at member
    rw [node_pieces member, plain] at listing
    cases listing
  · exact joins lag clear clear' clean fun _ => trivial

theorem lap_listing (listing : kind.isListing = true)
    (member : .tree (.node kind children) ∈ (lap.run c).pieces) :
    KindSet.itemFirst.has (c.kindAhead 0) = true := by
  by_contra other
  have found : (Item.ofTree? (.node kind children)).isSome = true := by
    cases kind <;> first | rfl | cases listing
  rw [lapOf_other item other member] at found
  cases found

theorem lap_joins (listing : kind.isListing = true)
    (member : .tree (.node kind children) ∈ (lap.run c).pieces)
    (lag : Lag later (solids c.ahead) (solids d.ahead)) (clear : (lap.run c).faults = [])
    (clear' : (lap.run d).faults = []) (clean : (lap.run c).Clean) :
    (lap.run c).answer = true ∧ (lagging later).Matches false (lap.run c) (lap.run d) := by
  have first := lap_listing listing member
  have same : d.kindAhead 0 = c.kindAhead 0 := by
    refine (lag_next lag).resolve_right fun stands => ?_
    rw [stands.2.1] at first
    cases first
  have first' : KindSet.itemFirst.has (d.kindAhead 0) = true := by rw [same, first]
  rw [lap, lapOf_item item first] at member clear clean ⊢
  rw [lap, lapOf_item item first'] at clear'
  rw [lapOf_item item first']
  have looked := asks_matches (atKind .endOfInput) rfl lag (by rw [same])
  have inside : .tree (.node kind children) ∈
      (item.run ((atKind .endOfInput).run c).cursor).pieces :=
    (Outcome.mem_andThen ((Outcome.mem_andThen member).resolve_left List.not_mem_nil)).resolve_right
      List.not_mem_nil
  have whole := item_joins listing inside looked.cursor same
    (Outcome.andThen_clear (Outcome.andThen_clear clear).2).1
    (Outcome.andThen_clear (Outcome.andThen_clear clear').2).1 clean.andThen.2.andThen.1
  exact ⟨rfl, looked.andThen (whole.andThen (Pace.quiet whole.cursor true))⟩

/-- A lap takes as many tokens as its pieces hold. -/
theorem lap_ahead (clear : ((lap.guard false).run c).faults = []) (pieces : List Piece) :
    c.ahead.drop (tokensOf (((lap.guard false).run c).pieces ++ pieces)).length =
      ((lap.guard false).run c).cursor.ahead.drop (tokensOf pieces).length := by
  obtain ⟨taken, spends⟩ := (lap.guard false).run_spent c
  rw [tokensOf_append, List.length_append, ← (spends.leaves clear).length_eq, ← List.drop_drop,
    spends.ahead, List.drop_left]

/-- Before the block a lap does not see the newlines. -/
theorem lap_distant {before : List Token} (ahead : solids c.ahead = before ++ (lines ++ later))
    (ahead' : solids d.ahead = before ++ later) (clear : ((lap.guard false).run c).faults = [])
    (clear' : ((lap.guard false).run d).faults = []) (clean : ((lap.guard false).run c).Clean)
    (further : (lines ++ later).length < (solids ((lap.guard false).run c).cursor.ahead).length) :
    ((lap.guard false).run d).answer = ((lap.guard false).run c).answer ∧
      corePieces ((lap.guard false).run d).pieces = corePieces ((lap.guard false).run c).pieces ∧
      ∃ left, left <:+ before ∧
        solids ((lap.guard false).run c).cursor.ahead = left ++ (lines ++ later) ∧
        solids ((lap.guard false).run d).cursor.ahead = left ++ later := by
  obtain ⟨taken, spends⟩ := (lap.guard false).run_spent c
  have split := congrArg solids spends.ahead
  rw [solids_append, ahead] at split
  obtain ⟨left, rest⟩ := List.suffix_of_suffix_length_le (List.suffix_append before _)
    (split ▸ List.suffix_append _ _) further.le
  rw [← rest, ← List.append_assoc (solids taken)] at split
  have suffix : left <:+ before := ⟨_, (List.append_cancel_right split).symm⟩
  have distant : Distant (lines ++ later) later false ((lap.guard false).run c).cursor := by
    refine ⟨left, rest.symm, .inr ?_⟩
    obtain ⟨token, left, rfl⟩ : ∃ token tokens, left = token :: tokens := by
      apply List.exists_cons_of_ne_nil
      rintro rfl
      rw [← rest, List.nil_append] at further
      exact further.false
    have member : token ∈ solids ((lap.guard false).run c).cursor.ahead := by
      rw [← rest]
      exact List.mem_cons_self
    exact ⟨token, List.mem_cons_self, by simpa using (List.mem_filter.mp member).2⟩
  have whole := distant_run lap false ⟨before, ahead, ahead'⟩ clear clear' clean distant
  obtain ⟨left', here, there⟩ := whole.cursor
  obtain rfl : left = left' := List.append_cancel_right (rest.trans here)
  exact ⟨whole.answer.resolve_left Bool.false_ne_true, whole.core, left, suffix, here, there⟩

theorem laps_even (limit limit' : List Token) (same : solids d.ahead = solids c.ahead)
    (clear : (laps limit c).faults = []) (clear' : (laps limit' d).faults = [])
    (clean : (laps limit c).Clean) :
    corePieces (laps limit' d).pieces = corePieces (laps limit c).pieces := by
  have near : (forked [] []).near c d := ⟨solids c.ahead, (List.append_nil _).symm, by
    rw [same, List.append_nil]⟩
  have whole : (forked [] []).Matches true (laps limit c) (laps limit' d) := by
    refine rounds_mirrors ?_ limit limit' near clear clear' clean
    intro c d limit near clear clear' clean
    exact .inl (distant_run lap false near clear (rounds_clear clear') clean
      ⟨_, (List.append_nil _).symm, .inl rfl⟩)
  exact whole.core

/-- A block is added by the first lap or by a later one. -/
theorem laps_split {limit : List Token} {t : Tree} {pre post : List Piece}
    (clear : (laps limit c).faults = []) (split : (laps limit c).pieces = pre ++ .tree t :: post) :
    (∃ more, ((lap.guard false).run c).pieces = pre ++ .tree t :: more) ∨
      ∃ token rest pre', limit = token :: rest ∧ ((lap.guard false).run c).answer = true ∧
        pre = ((lap.guard false).run c).pieces ++ pre' ∧
        (laps rest ((lap.guard false).run c).cursor).pieces = pre' ++ .tree t :: post := by
  by_cases again : ((lap.guard false).run c).answer = true
  · obtain ⟨token, rest, rfl⟩ := laps_limit clear again
    rw [laps_step clear again] at split
    rcases List.append_eq_append_iff.mp split with ⟨pre', later, now⟩ | ⟨more, now, later⟩
    · exact .inr ⟨token, rest, pre', rfl, again, later, now⟩
    · cases more with
      | nil =>
        refine .inr ⟨token, rest, [], rfl, again, ?_, later.symm⟩
        rw [List.append_nil, now, List.append_nil]
      | cons first more =>
        obtain ⟨rfl, -⟩ := List.cons.inj later
        exact .inl ⟨more, now⟩
  · rw [laps, rounds_eq clear, Outcome.andThen, if_neg again] at split
    exact .inl ⟨post, (List.append_nil _).symm.trans split⟩

section

variable {before : List Token} {pre : List Piece} (some : lines ≠ [])
  (newline : ∀ line ∈ lines, line.kind = .newline) (listing : kind.isListing = true)

include some newline listing

/-- Where the block comes next, it is read without the newlines, and the same tokens are left. -/
theorem laps_block {more : List Piece} {limit limit' : List Token}
    (ahead : solids c.ahead = before ++ (lines ++ later)) (ahead' : solids d.ahead = before ++ later)
    (inline : ∀ last ∈ before.getLast?, last.kind ≠ .comma)
    (clear : (laps limit c).faults = []) (clear' : (laps limit' d).faults = [])
    (clean : (laps limit c).Clean)
    (block : ((lap.guard false).run c).pieces = pre ++ .tree (.node kind children) :: more)
    (passes : (solids (c.ahead.drop (tokensOf (pre ++ [.tree (.node kind children)])).length)).length ≤
      later.length) :
    corePieces (laps limit' d).pieces = corePieces (laps limit c).pieces := by
  have one := rounds_clear clear
  have one' := rounds_clear clear'
  have lag : Lag later (solids c.ahead) (solids d.ahead) :=
    .inr ⟨before, lines, ahead, ahead', some, newline, inline⟩
  have clean_one := rounds_known (P := lagging later) clean
  have member : .tree (.node kind children) ∈ ((lap.guard false).run c).pieces := by
    rw [block]
    simp
  have plain := guard_run lap false one
  have plain' := guard_run lap false one'
  obtain ⟨again, step⟩ : ((lap.guard false).run c).answer = true ∧
      (lagging later).Matches false ((lap.guard false).run c) ((lap.guard false).run d) := by
    rw [← plain] at member clean_one one ⊢
    rw [← plain'] at one' ⊢
    exact lap_joins listing member lag one one' clean_one
  have again' := (step.answer.resolve_left Bool.false_ne_true).trans again
  -- The newlines are behind, so the same tokens are left.
  have same : solids ((lap.guard false).run d).cursor.ahead =
      solids ((lap.guard false).run c).cursor.ahead := by
    have left := lap_ahead one []
    have whole : ((lap.guard false).run c).pieces ++ [] =
        (pre ++ [.tree (.node kind children)]) ++ more := by
      rw [List.append_nil, block, List.append_assoc]
      rfl
    rw [whole, tokensOf_append, List.length_append, ← List.drop_drop, tokensOf_nil, List.length_nil,
      List.drop_zero] at left
    have shorter := solids_drop_le (tokensOf more).length
      (c.ahead.drop (tokensOf (pre ++ [.tree (.node kind children)])).length)
    rw [left] at shorter
    refine step.cursor.resolve_right ?_
    rintro ⟨before, lines, here, -, some, -⟩
    have enough := congrArg List.length here
    have positive := List.length_pos_iff.mpr some
    rw [List.length_append, List.length_append] at enough
    omega
  have further := rounds_clean clear clean again
  have first := laps_step clear again
  have second := laps_step clear' again'
  rw [first] at clear ⊢
  rw [second] at clear' ⊢
  rw [Outcome.andThen, Outcome.andThen, corePieces_append, corePieces_append, step.core,
    laps_even limit.tail limit'.tail same (Outcome.andThen_clear clear).2
      (Outcome.andThen_clear clear').2 further]

/-- The laps up to a block in which newlines are left out, the block, and the laps after it. -/
theorem laps_join {post : List Piece} (limit limit' : List Token)
    (ahead : solids c.ahead = before ++ (lines ++ later)) (ahead' : solids d.ahead = before ++ later)
    (inline : ∀ last ∈ before.getLast?, last.kind ≠ .comma)
    (clear : (laps limit c).faults = []) (clear' : (laps limit' d).faults = [])
    (clean : (laps limit c).Clean)
    (split : (laps limit c).pieces = pre ++ .tree (.node kind children) :: post)
    (begins : (lines ++ later).length < (solids (c.ahead.drop (tokensOf pre).length)).length)
    (passes : (solids (c.ahead.drop (tokensOf (pre ++ [.tree (.node kind children)])).length)).length ≤
      later.length) :
    corePieces (laps limit' d).pieces = corePieces (laps limit c).pieces := by
  induction limit generalizing limit' c d pre before with
  | nil =>
    rcases laps_split clear split with ⟨more, block⟩ | ⟨_, _, _, none, -⟩
    · exact laps_block some newline listing ahead ahead' inline clear clear' clean block passes
    · cases none
  | cons token limit ih =>
    rcases laps_split clear split with ⟨more, block⟩ | ⟨_, _, pre', same, again, rfl, rest⟩
    · exact laps_block some newline listing ahead ahead' inline clear clear' clean block passes
    · obtain ⟨rfl, rfl⟩ := List.cons.inj same
      have one := rounds_clear clear
      rw [List.append_assoc, lap_ahead one] at passes
      rw [lap_ahead one] at begins
      obtain ⟨answer, core, left, suffix, here, there⟩ := lap_distant ahead ahead' one
        (rounds_clear clear') (rounds_known (P := lagging later) clean)
        (begins.trans_le (solids_drop_le _ _))
      have further := rounds_clean clear clean again
      have first := laps_step clear again
      have second := laps_step clear' (answer.trans again)
      rw [first] at clear ⊢
      rw [second] at clear' ⊢
      have last : ∀ last ∈ left.getLast?, last.kind ≠ .comma := by
        obtain ⟨taken, rfl⟩ := suffix
        intro last found
        refine inline last ?_
        rw [List.getLast?_append, Option.mem_def.mp found]
        rfl
      rw [Outcome.andThen, Outcome.andThen, corePieces_append, corePieces_append, core]
      exact congrArg _ (ih limit'.tail here there last (Outcome.andThen_clear clear).2
        (Outcome.andThen_clear clear').2 further rest begins passes)

end

theorem parsed_laps (source : List Char) :
    parsed (lex source) = ((laps (lex source) (.start (lex source))).andThen fun _ c =>
      c.settle).wrapped .sourceFile := (parsed_guarded source).2.symm

theorem parse_children (source : List Char) :
    (parse source).tree.children.map Piece.tree = (laps (lex source) (.start (lex source))).pieces ++
      leaves (laps (lex source) (.start (lex source))).cursor.pending := by
  obtain ⟨trees, root, spelled⟩ := parse_spelled source
  rw [parsed_laps, Outcome.wrapped, Outcome.andThen, Cursor.settle_eq] at root
  have children := (Tree.node.inj (Piece.tree.inj (List.cons.inj root).1)).2
  have closed : openings ((laps (lex source) (.start (lex source))).pieces ++
      leaves (laps (lex source) (.start (lex source))).cursor.pending) = 0 := by
    rw [openings_append, laps_sealed, openings_leaves]
  rw [eq_trees_of_openings _ closed, spelled, Tree.children, ← children]

theorem laps_child {source : List Char} {pre post : List Tree}
    (split : (parse source).tree.children = pre ++ .node kind children :: post) :
    ∃ more, (laps (lex source) (.start (lex source))).pieces =
      pre.map .tree ++ .tree (.node kind children) :: more := by
  have pieces := parse_children source
  rw [split, List.map_append, List.map_cons] at pieces
  have blank : .tree (.node kind children) ∉
      leaves (laps (lex source) (.start (lex source))).cursor.pending := by
    intro member
    obtain ⟨token, -, same⟩ := List.mem_map.mp member
    cases same
  rcases List.append_eq_append_iff.mp pieces with ⟨more, now, later⟩ | ⟨more, -, later⟩
  · cases more with
    | nil =>
      rw [List.nil_append] at later
      exact absurd (later ▸ List.mem_cons_self) blank
    | cons first more =>
      obtain ⟨rfl, -⟩ := List.cons.inj later
      exact ⟨more, now⟩
  · exact absurd (later ▸ List.mem_append_right more List.mem_cons_self) blank

theorem core_laps {source source' : List Char}
    (same : corePieces (laps (lex source') (.start (lex source'))).pieces =
      corePieces (laps (lex source) (.start (lex source))).pieces) :
    corePieces (parsed (lex source')).pieces = corePieces (parsed (lex source)).pieces := by
  have whole (source : List Char) : corePieces (parsed (lex source)).pieces =
      (NodeKind.sourceFile.gather (Tree.coreAll (closePieces
        (corePieces (laps (lex source) (.start (lex source))).pieces)))).map .tree := by
    rw [parsed_laps, Outcome.wrapped, Outcome.andThen, Cursor.settle_eq, corePieces_node,
      corePieces_append, corePieces_pending, List.append_nil]
  rw [whole, whole, same]

end Production

end CraftDsl
