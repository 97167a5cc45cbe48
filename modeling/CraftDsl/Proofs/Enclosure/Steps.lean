import CraftDsl.Proofs.Enclosure

/-!
What the steps of a cursor have of braces. Only a block adds any to the open node: its opening brace,
and at its end the partner of that or an empty error node. Main statement: `kept_block`.
-/
namespace CraftDsl

variable {pairs : List (Nat × Nat)} {left opened : List Nat} {c d : Cursor} {o : Outcome}

theorem pending_plain (c : Cursor) : ∀ token ∈ c.pending, token.kind.isBrace = false :=
  fun token member => (trivia_plain (c.pending_trivia token member)).1

theorem pending_concat_plain (c : Cursor) {last : Token} (plain : last.kind.isBrace = false) :
    ∀ token ∈ c.pending ++ [last], token.kind.isBrace = false := by
  intro token member
  rcases List.mem_append.mp member with blank | only
  · exact pending_plain c token blank
  · rw [List.mem_singleton.mp only]
    exact plain

theorem kept_leaves {blocks : Nat} {tokens : List Token} (level : Level pairs left opened o.cursor)
    (added : o.pieces = leaves tokens) (plain : ∀ token ∈ tokens, token.kind.isBrace = false) :
    Kept pairs left opened blocks c o := by
  apply kept_bare level
  · rw [added, treesOf_leaves]
    exact enclosedAll_leaves _ _
  · rw [added, treesOf_leaves]
    exact bare_leaves _ plain

theorem kept_settle (level : Level pairs left opened c) : Kept pairs left opened 0 c c.settle := by
  apply kept_leaves (level.move c.settle_moves (pending_plain c))
  · rw [c.settle_eq]
  · exact pending_plain c

/-- Blanks and a node without braces. -/
theorem kept_node {d : Cursor} {kind : NodeKind} {children : List Tree}
    (level : Level pairs left opened d) (inside : Enclosed pairs left
      (c.offset + widthOf c.pending) (.node kind children)) {answer : Bool}
    {reports : List Diagnostic} {faults : List Fault} :
    Kept pairs left opened 0 c
      ⟨answer, leaves c.pending ++ [.tree (.node kind children)], reports, faults, d⟩ := by
  have width : Tree.widthAll (c.pending.map Tree.leaf) = widthOf c.pending := by
    rw [← treesOf_leaves, treesOf_width, tokensOf_leaves]
  apply kept_bare level
  · simp only [treesOf_append, treesOf_leaves, enclosedAll_append, width]
    exact ⟨enclosedAll_leaves _ _, inside, trivial⟩
  · simp only [treesOf_append, treesOf_leaves, placed_append]
    exact bare_append.mpr ⟨bare_leaves _ (pending_plain c), bare_node _ _ _⟩

theorem kept_gap (level : Level pairs left opened c) : Kept pairs left opened 0 c c.gap := by
  have after := level.move c.settle_moves (pending_plain c)
  rw [c.settle_eq] at after
  rw [c.gap_eq]
  exact kept_node after (enclosed_error _)

theorem kept_report (level : Level pairs left opened c) (diagnostic : Span → Diagnostic) :
    Kept pairs left opened 0 c (c.report diagnostic) := by
  simp only [Cursor.report]
  split
  · exact kept_silent level rfl
  · exact kept_silent level rfl

theorem kept_flag (level : Level pairs left opened c) (diagnostic : Span → Diagnostic) :
    Kept pairs left opened 0 c ((c.report diagnostic).andThen fun _ c => c.gap) := by
  have reported := kept_report level diagnostic
  exact reported.onward (c.report_spent diagnostic) (c.report_clear diagnostic)
    (kept_gap reported.level)

theorem kept_look (level : Level pairs left opened c) (n : Nat) (among : KindSet) :
    Kept pairs left opened 0 c (c.look n among) := kept_silent level rfl

theorem kept_missing (level : Level pairs left opened c) (kind : DiagnosticKind)
    (message : String) (clear : (c.missing kind message).faults = []) :
    Kept pairs left opened 0 c (c.missing kind message) := by
  have looked := kept_look level 0 .empty
  exact looked.onward (c.look_spent 0 .empty) (Outcome.andThen_clear clear).1
    (kept_flag looked.level _)

theorem kept_take (level : Level pairs left opened c) (among : KindSet) (retag : Option TokenKind)
    (plain : ∀ kind : TokenKind, among.has kind = true → kind.isBrace = false ∧
      (retag.getD kind).isBrace = false)
    (clear : (c.take among retag).faults = []) :
    Kept pairs left opened 0 c (c.take among retag) := by
  obtain ⟨token, tokens, due⟩ := Cursor.due_of_take clear
  obtain ⟨own, retagged⟩ := plain token.kind (Cursor.has_of_take due clear)
  have moved : Level pairs left opened (c.take among retag).cursor :=
    level.move (c.take_moves among retag due) (pending_concat_plain c own)
  have leaves_plain : ∀ leaf ∈ c.pending ++ [⟨retag.getD token.kind, token.text⟩],
      leaf.kind.isBrace = false := pending_concat_plain c retagged
  apply kept_leaves moved _ leaves_plain
  rw [c.take_eq among retag due, leaves, leaves, List.map_append]
  rfl

theorem kept_discard (level : Level pairs left opened c) (more : c.kindAhead 0 ≠ .endOfInput)
    (ground : c.kindAhead 0 ≠ .braceClose ∨ opened = []) :
    Kept pairs left opened 0 c c.discard := by
  obtain ⟨token, tokens, due, -, kind, -⟩ := c.due_of_kindAhead more
  rw [kind] at ground
  have after : Level pairs left opened c.discard.cursor := by
    rcases (level.bracing due).discard due ground with ⟨bracing, -⟩ | ⟨at_end, below, -⟩
    · exact .inl bracing
    · exact .inr ⟨at_end, below⟩
  have inside : Enclosed pairs left (c.offset + widthOf c.pending)
      (.node .error ((c.due.take (stretch 0 true 0 c.due)).map .leaf)) :=
    ⟨fun ordinary => absurd rfl ordinary, enclosedAll_leaves _ _⟩
  rw [c.discard_eq] at after ⊢
  exact kept_node after inside

theorem kept_skip (level : Level pairs left opened c)
    (ground : c.kindAhead 0 ≠ .braceClose ∨ opened = []) (complaint : Complaint)
    (clear : (c.skip complaint).faults = []) :
    Kept pairs left opened 0 c (c.skip complaint) := by
  obtain ⟨looked, rest⟩ := Outcome.andThen_clear clear
  have first := kept_look level 0 (.single TokenKind.endOfInput)
  apply first.onward (c.look_spent 0 _) looked
  split
  · exact kept_silent first.level rfl
  · rename_i more
    rw [if_neg more] at rest
    have next : c.kindAhead 0 ≠ .endOfInput := fun at_end =>
      more ((KindSet.has_token _ _).mpr at_end)
    have traced := kept_look first.level 0 .empty
    apply traced.onward (Cursor.look_spent _ 0 .empty) (Outcome.andThen_clear rest).1
    apply (kept_report traced.level _).onward (Cursor.report_spent _ _) (Cursor.report_clear _ _)
    apply kept_discard
    · exact (kept_report traced.level _).level
    · rw [Cursor.kindAhead, Cursor.report_ahead]
      exact next
    · rw [Cursor.kindAhead, Cursor.report_ahead]
      exact ground

theorem leavesOf_last {kind : TokenKind} (brace : kind.isBrace = true) (start : Nat)
    {blanks : List Token} (plain : ∀ blank ∈ blanks, blank.kind.isBrace = false) (token : Token) :
    leavesOf kind (placed start ((blanks ++ [token]).map .leaf)) =
      if token.kind = kind then [start + widthOf blanks] else [] := by
  have width : Tree.widthAll (blanks.map Tree.leaf) = widthOf blanks := by
    rw [← treesOf_leaves, treesOf_width, tokensOf_leaves]
  rw [List.map_append, placed_append, leavesOf_append, (bare_leaves start plain).leaves brace,
    List.nil_append, width]
  by_cases same : token.kind = kind
  · simp [leavesOf, placed, Tree.kind, same]
  · simp [leavesOf, placed, Tree.kind, same]

/-- The brace taken next, with the braces that are open after it. -/
theorem Bracing.taken (among : KindSet) {token : Token} {tokens : List Token}
    (due : c.due = token :: tokens) (bracing : Bracing pairs left opened c.offset c.ahead) :
    Bracing pairs left (openAfter opened c.spanAhead.start token.kind)
        (c.take among none).cursor.offset (c.take among none).cursor.ahead ∧
      ∀ pair ∈ closedBy opened c.spanAhead.start token.kind, pair ∈ pairs := by
  rw [c.ahead_eq, due] at bracing
  have here := bracing.plain (pending_plain c)
  constructor
  · have next := here.next
    rw [c.take_eq among none due, widthOf_append, ← Nat.add_assoc]
    exact next
  · intro pair member
    exact here.pairs pair (List.mem_append_left _ member)

theorem unclosed_eq (c : Cursor) (what : String) (brace : Span) :
    (c.unclosed what brace).pieces = leaves c.pending ++ [.tree (.node .error [])] ∧
      (c.unclosed what brace).cursor.ahead = c.due := by
  simp only [Cursor.unclosed, Cursor.report, Outcome.andThen]
  split <;> simp [Cursor.gap_eq, Outcome.check, Outcome.quiet, Cursor.pending, Cursor.due]

/-- The end of a block has the partner of its opening brace, or an error node in its place. -/
structure Ended (pairs : List (Nat × Nat)) (left : List Nat) (first : Nat) (c : Cursor)
    (o : Outcome) : Prop where
  enclosed : EnclosedAll pairs left c.offset (treesOf o.pieces)
  opening : leavesOf .braceOpen (placed c.offset (treesOf o.pieces)) = []
  closing : (∃ second, leavesOf .braceClose (placed c.offset (treesOf o.pieces)) = [second] ∧
      (first, second) ∈ pairs) ∨
    leavesOf .braceClose (placed c.offset (treesOf o.pieces)) = [] ∧ first ∈ left ∧
      ∃ place, (place, .node .error []) ∈ placed c.offset (treesOf o.pieces)

theorem closed_ended {first : Nat} (level : Level pairs left (first :: opened) c)
    (next : c.kindAhead 0 = .braceClose) :
    Level pairs left opened (c.take (.single TokenKind.braceClose) none).cursor ∧
      Ended pairs left first c (c.take (.single TokenKind.braceClose) none) := by
  obtain ⟨token, tokens, due, -, kind, -⟩ := c.due_of_kindAhead (by rw [next]; simp)
  have brace : token.kind = .braceClose := kind.symm.trans next
  obtain ⟨after, closes⟩ := (level.bracing due).taken (.single TokenKind.braceClose) due
  rw [brace] at after closes
  have pieces : (c.take (.single TokenKind.braceClose) none).pieces =
      leaves (c.pending ++ [token]) := by
    rw [c.take_eq _ none due, leaves, leaves, List.map_append]
    rfl
  refine ⟨.inl after, ?_, ?_, .inl ⟨c.offset + widthOf c.pending, ?_, closes _ ?_⟩⟩
  · rw [pieces, treesOf_leaves]
    exact enclosedAll_leaves _ _
  · rw [pieces, treesOf_leaves, leavesOf_last rfl _ (pending_plain c), brace]
    rfl
  · rw [pieces, treesOf_leaves, leavesOf_last rfl _ (pending_plain c), if_pos brace]
  · exact List.mem_singleton.mpr rfl

theorem unclosed_ended {first : Nat} (level : Level pairs left (first :: opened) c)
    (at_end : c.Over) (what : String) (brace : Span) :
    Level pairs left opened (c.unclosed what brace).cursor ∧
      Ended pairs left first c (c.unclosed what brace) := by
  obtain ⟨pieces, ahead⟩ := unclosed_eq c what brace
  have below : first :: opened <:+ left := by
    rcases level with bracing | ⟨-, below⟩
    · have same := bracing.left_eq fun token member => (trivia_plain (at_end token member)).1
      exact same ▸ List.suffix_refl left
    · exact below
  have empty : Kept pairs left (first :: opened) 0 c
      ⟨false, leaves c.pending ++ [.tree (.node .error [])], [], [], c⟩ :=
    kept_node level (enclosed_error _)
  refine ⟨.inr ⟨?_, (List.suffix_cons first opened).trans below⟩, ?_, ?_, .inr ⟨?_, ?_, ?_⟩⟩
  · intro token member
    rw [ahead] at member
    exact at_end token (c.due_subset member)
  · rw [pieces]
    exact empty.enclosed
  · rw [pieces]
    exact (empty.bare rfl).leaves rfl
  · rw [pieces]
    exact (empty.bare rfl).leaves rfl
  · exact below.subset List.mem_cons_self
  · refine ⟨c.offset + Tree.widthAll (c.pending.map .leaf), ?_⟩
    rw [pieces, treesOf_append, treesOf_leaves, placed_append]
    exact List.mem_append_right _ List.mem_cons_self

theorem closeBlock_ended {first : Nat} (level : Level pairs left (first :: opened) c)
    (solid : ∀ token ∈ c.ahead, token.kind ≠ .endOfInput) {what : String} {brace : Span}
    (clear : (c.closeBlock what brace).faults = []) :
    Level pairs left opened (c.closeBlock what brace).cursor ∧
      Ended pairs left first c (c.closeBlock what brace) := by
  unfold Cursor.closeBlock at clear ⊢
  split
  · exact closed_ended level ‹_›
  · rename_i other
    rw [if_neg other] at clear
    have at_end : c.kindAhead 0 = .endOfInput := by
      simpa [Outcome.check] using (Outcome.andThen_clear clear).1
    apply unclosed_ended level
    intro token member
    rw [c.ahead_eq, c.due_of_over solid at_end, List.append_nil] at member
    exact c.pending_trivia token member

theorem opening_leaves {token : Token} {tokens : List Token} (due : c.due = token :: tokens)
    (among : KindSet) : treesOf (c.take among none).pieces = (c.pending ++ [token]).map .leaf := by
  rw [c.take_eq among none due, treesOf_append, treesOf_leaves, List.map_append]
  rfl

/-- A block has its opening brace, a body without braces of its own, and its end. -/
theorem kept_block {body : Cursor → Outcome} (spent : ∀ c, Spent c (body c))
    (inner : ∀ {opened : List Nat} {c : Cursor}, Level pairs left opened c →
      (∀ token ∈ c.ahead, token.kind ≠ .endOfInput) → (body c).faults = [] →
        Kept pairs left opened 0 c (body c))
    (level : Level pairs left opened c) (solid : ∀ token ∈ c.ahead, token.kind ≠ .endOfInput)
    (what : String) (clear : (c.block what body).faults = []) :
    Kept pairs left opened 1 c (c.block what body) := by
  obtain ⟨begun, filled, finished⟩ := Cursor.block_clear clear
  obtain ⟨token, tokens, due⟩ := Cursor.due_of_take begun
  have brace : token.kind = .braceOpen := (KindSet.has_token _ _).mp (Cursor.has_of_take due begun)
  obtain ⟨within, -⟩ := (level.bracing due).taken (.single TokenKind.braceOpen) due
  rw [brace] at within
  have begun_spent := c.take_own_spent (.single TokenKind.braceOpen)
  have begun_trees := opening_leaves due (.single TokenKind.braceOpen)
  have block_eq : c.block what body = (c.take (.single TokenKind.braceOpen) none).andThen
      fun _ inner => (body inner).andThen fun _ after => after.closeBlock what c.spanAhead := rfl
  rw [block_eq]
  generalize c.take (.single TokenKind.braceOpen) none = begin at *
  have body_solid := fun t member => solid t (begun_spent.subset member)
  have filling := inner (.inl within) body_solid filled
  have end_solid := fun t member => body_solid t ((spent _).subset member)
  obtain ⟨after, ended⟩ := closeBlock_ended filling.level end_solid finished
  have opening : EnclosedAll pairs left c.offset (treesOf begin.pieces) := by
    rw [begun_trees]
    exact enclosedAll_leaves _ _
  refine ⟨after, enclosed_andThen begun_spent begun opening
    (enclosed_andThen (spent _) filled filling.enclosed ended.enclosed), ?_, nofun⟩
  have braces (kind : TokenKind) (brace_kind : kind.isBrace = true) :
      leavesOf kind (placed c.offset (treesOf begin.pieces)) =
        if kind = .braceOpen then [c.spanAhead.start] else [] := by
    rw [begun_trees, leavesOf_last brace_kind _ (pending_plain c), brace]
    simp only [eq_comm, Cursor.spanAhead]
  have none_inside (kind : TokenKind) (brace_kind : kind.isBrace = true) :=
    (filling.bare rfl).leaves brace_kind
  have opens := braces .braceOpen rfl
  have closes := braces .braceClose rfl
  rw [placed_andThen begun_spent begun, placed_andThen (spent _) filled]
  rcases ended.closing with ⟨second, closing, pair⟩ | ⟨closing, unclosed, place, error⟩
  · refine .closed c.spanAhead.start second ?_ ?_ pair
    · simp only [leavesOf_append, opens, none_inside .braceOpen rfl, ended.opening]
      rfl
    · simp only [leavesOf_append, closes, none_inside .braceClose rfl, closing]
      rfl
  · refine .lone c.spanAhead.start ?_ ?_ unclosed ⟨place, ?_⟩
    · simp only [leavesOf_append, opens, none_inside .braceOpen rfl, ended.opening]
      rfl
    · simp only [leavesOf_append, closes, none_inside .braceClose rfl, closing]
      rfl
    · exact List.mem_append_right _ (List.mem_append_right _ error)

end CraftDsl
