import CraftDsl.Proofs.Braces
import CraftDsl.Proofs.Foreseen
import CraftDsl.Proofs.Tidiness

/-!
Braces in trees: which of them the children of a node are, and what the pieces of an outcome have of
them. An outcome that adds no brace to the open node may stand before or after one that does.
-/
namespace CraftDsl

/-- The trees in their places, the first at `start`. -/
def placed (start : Nat) : List Tree → List (Nat × Tree)
  | [] => []
  | t :: ts => (start, t) :: placed (start + t.width) ts

theorem placed_append (start : Nat) (first second : List Tree) :
    placed start (first ++ second) =
      placed start first ++ placed (start + Tree.widthAll first) second := by
  induction first generalizing start with
  | nil => rfl
  | cons t ts ih => rw [List.cons_append, placed, ih, placed, Tree.widthAll, Nat.add_assoc]; rfl

def leavesOf (kind : TokenKind) (located : List (Nat × Tree)) : List Nat :=
  (located.filter fun placed => placed.2.kind = .token kind).map Prod.fst

theorem leavesOf_append (kind : TokenKind) (first second : List (Nat × Tree)) :
    leavesOf kind (first ++ second) = leavesOf kind first ++ leavesOf kind second := by
  rw [leavesOf, List.filter_append, List.map_append, leavesOf, leavesOf]

def Bare (located : List (Nat × Tree)) : Prop :=
  ∀ child ∈ located, ∀ kind, child.2.kind = .token kind → kind.isBrace = false

theorem bare_append {first second : List (Nat × Tree)} :
    Bare (first ++ second) ↔ Bare first ∧ Bare second := List.forall_mem_append

theorem Bare.leaves {located : List (Nat × Tree)} (bare : Bare located) {kind : TokenKind}
    (brace : kind.isBrace = true) : leavesOf kind located = [] := by
  rw [leavesOf, List.map_eq_nil_iff, List.filter_eq_nil_iff]
  intro child member found
  have plain := bare child member kind (of_decide_eq_true found)
  exact Bool.noConfusion (plain.symm.trans brace)

theorem bare_leaves (start : Nat) {tokens : List Token}
    (plain : ∀ token ∈ tokens, token.kind.isBrace = false) :
    Bare (placed start (tokens.map .leaf)) := by
  induction tokens generalizing start with
  | nil => exact fun _ member => nomatch member
  | cons token tokens ih =>
    intro child member kind same
    rcases List.mem_cons.mp member with rfl | later
    · cases same
      exact plain token List.mem_cons_self
    · exact ih _ (fun t inside => plain t (List.mem_cons_of_mem _ inside)) child later kind same

theorem bare_node (start : Nat) (kind : NodeKind) (children : List Tree) :
    Bare [(start, .node kind children)] := by
  intro child member token same
  rw [List.mem_singleton.mp member] at same
  cases same

/-- The braces among the children of a node: none, a pair, or an opening one that is still open at the
end of input, with an error node in place of the closing one. -/
inductive Paired (pairs : List (Nat × Nat)) (left : List Nat) (located : List (Nat × Tree)) : Prop
  | bare (none : Bare located)
  | closed (first second : Nat) (opening : leavesOf .braceOpen located = [first])
      (closing : leavesOf .braceClose located = [second]) (pair : (first, second) ∈ pairs)
  | lone (first : Nat) (opening : leavesOf .braceOpen located = [first])
      (closing : leavesOf .braceClose located = []) (unclosed : first ∈ left)
      (error : ∃ place, (place, .node .error []) ∈ located)

section

variable {pairs : List (Nat × Nat)} {left : List Nat} {first second : List (Nat × Tree)}

theorem Paired.before (paired : Paired pairs left first) (bare : Bare second) :
    Paired pairs left (first ++ second) := by
  cases paired with
  | bare none => exact .bare (bare_append.mpr ⟨none, bare⟩)
  | closed p q opening closing pair =>
    refine .closed p q ?_ ?_ pair
    · rw [leavesOf_append, opening, bare.leaves rfl, List.append_nil]
    · rw [leavesOf_append, closing, bare.leaves rfl, List.append_nil]
  | lone p opening closing unclosed error =>
    refine .lone p ?_ ?_ unclosed ?_
    · rw [leavesOf_append, opening, bare.leaves rfl, List.append_nil]
    · rw [leavesOf_append, closing, bare.leaves rfl, List.append_nil]
    · exact error.imp fun _ => List.mem_append_left _

theorem Paired.after (paired : Paired pairs left second) (bare : Bare first) :
    Paired pairs left (first ++ second) := by
  cases paired with
  | bare none => exact .bare (bare_append.mpr ⟨bare, none⟩)
  | closed p q opening closing pair =>
    refine .closed p q ?_ ?_ pair
    · rw [leavesOf_append, opening, bare.leaves rfl, List.nil_append]
    · rw [leavesOf_append, closing, bare.leaves rfl, List.nil_append]
  | lone p opening closing unclosed error =>
    refine .lone p ?_ ?_ unclosed ?_
    · rw [leavesOf_append, opening, bare.leaves rfl, List.nil_append]
    · rw [leavesOf_append, closing, bare.leaves rfl, List.nil_append]
    · exact error.imp fun _ => List.mem_append_right _

end

section

variable (pairs : List (Nat × Nat)) (left : List Nat)

mutual

/-- The braces of every node of the tree that is not an error node are paired. -/
def Enclosed (start : Nat) : Tree → Prop
  | .leaf _ => True
  | .node kind children =>
    (kind ≠ .error → Paired pairs left (placed start children)) ∧ EnclosedAll start children

def EnclosedAll (start : Nat) : List Tree → Prop
  | [] => True
  | t :: ts => Enclosed start t ∧ EnclosedAll (start + t.width) ts

end

end

section

variable {pairs : List (Nat × Nat)} {left : List Nat}

theorem enclosedAll_append {start : Nat} {first second : List Tree} :
    EnclosedAll pairs left start (first ++ second) ↔ EnclosedAll pairs left start first ∧
      EnclosedAll pairs left (start + Tree.widthAll first) second := by
  induction first generalizing start with
  | nil => simp [EnclosedAll, Tree.widthAll]
  | cons t ts ih =>
    rw [List.cons_append, EnclosedAll, ih, EnclosedAll, Tree.widthAll, Nat.add_assoc, and_assoc]

theorem enclosedAll_leaves (start : Nat) (tokens : List Token) :
    EnclosedAll pairs left start (tokens.map .leaf) := by
  induction tokens generalizing start with
  | nil => trivial
  | cons token tokens ih => exact ⟨trivial, ih _⟩

end

theorem enclosed_error {pairs : List (Nat × Nat)} {left : List Nat} (start : Nat) :
    Enclosed pairs left start (.node .error []) :=
  ⟨fun ordinary => absurd rfl ordinary, trivial⟩

def treesOf : List Piece → List Tree
  | [] => []
  | .tree t :: pieces => t :: treesOf pieces
  | .opening _ :: pieces => treesOf pieces

@[simp] theorem treesOf_append (first second : List Piece) :
    treesOf (first ++ second) = treesOf first ++ treesOf second := by
  induction first with
  | nil => rfl
  | cons piece pieces ih =>
    cases piece with
    | tree t => exact congrArg (List.cons t) ih
    | opening kind => exact ih

@[simp] theorem treesOf_trees (trees : List Tree) : treesOf (trees.map .tree) = trees := by
  induction trees with
  | nil => rfl
  | cons t ts ih => exact congrArg (List.cons t) ih

@[simp] theorem treesOf_leaves (tokens : List Token) :
    treesOf (leaves tokens) = tokens.map .leaf := by
  induction tokens with
  | nil => rfl
  | cons token tokens ih => exact congrArg (List.cons _) ih

theorem treesOf_width (pieces : List Piece) :
    Tree.widthAll (treesOf pieces) = widthOf (tokensOf pieces) := by
  have tokens : (treesOf pieces).flatMap Tree.tokens = tokensOf pieces := by
    induction pieces with
    | nil => rfl
    | cons piece pieces ih =>
      cases piece with
      | tree t => exact congrArg (t.tokens ++ ·) ih
      | opening kind => exact ih
  rw [Tree.widthAll_eq, tokens]

theorem closePieces_sealed {pieces : List Piece} (closed : openings pieces = 0) :
    closePieces pieces = treesOf pieces := by
  conv_rhs => rw [eq_trees_of_openings pieces closed]
  rw [treesOf_trees]

theorem closePieces_bare {pairs : List (Nat × Nat)} {left : List Nat} {start : Nat}
    {pieces : List Piece} (enclosed : EnclosedAll pairs left start (treesOf pieces))
    (bare : Bare (placed start (treesOf pieces))) :
    EnclosedAll pairs left start (closePieces pieces) ∧ Bare (placed start (closePieces pieces)) := by
  induction pieces generalizing start with
  | nil => exact ⟨trivial, bare⟩
  | cons piece pieces ih =>
    cases piece with
    | tree t =>
      have split : Bare ([(start, t)] ++ placed (start + t.width) (treesOf pieces)) := bare
      obtain ⟨first, rest⟩ := bare_append.mp split
      obtain ⟨inside, below⟩ := ih enclosed.2 rest
      exact ⟨⟨enclosed.1, inside⟩, bare_append.mpr ⟨first, below⟩⟩
    | opening kind =>
      obtain ⟨inside, below⟩ := ih enclosed bare
      exact ⟨⟨⟨fun _ => .bare below, inside⟩, trivial⟩, bare_node start kind _⟩

def Level (pairs : List (Nat × Nat)) (left opened : List Nat) (c : Cursor) : Prop :=
  Bracing pairs left opened c.offset c.ahead ∨ c.Over ∧ opened <:+ left

/-- What the pieces of an outcome have of braces, `blocks` of them at most. -/
structure Kept (pairs : List (Nat × Nat)) (left opened : List Nat) (blocks : Nat) (c : Cursor)
    (o : Outcome) : Prop where
  level : Level pairs left opened o.cursor
  enclosed : EnclosedAll pairs left c.offset (treesOf o.pieces)
  paired : Paired pairs left (placed c.offset (treesOf o.pieces))
  bare : blocks = 0 → Bare (placed c.offset (treesOf o.pieces))

section

variable {pairs : List (Nat × Nat)} {left opened : List Nat} {c d : Cursor} {o : Outcome}

theorem Level.move {taken : List Token} (level : Level pairs left opened c)
    (moves : c.Moves taken d) (plain : ∀ token ∈ taken, token.kind.isBrace = false) :
    Level pairs left opened d := by
  rcases level with bracing | ⟨at_end, below⟩
  · left
    rw [moves.ahead] at bracing
    rw [moves.offset]
    exact bracing.plain plain
  · exact .inr ⟨fun token member => at_end token (moves.subset member), below⟩

theorem Level.bracing (level : Level pairs left opened c) {token : Token} {tokens : List Token}
    (due : c.due = token :: tokens) : Bracing pairs left opened c.offset c.ahead := by
  rcases level with bracing | ⟨at_end, -⟩
  · exact bracing
  · have member : token ∈ c.due := due ▸ List.mem_cons_self
    have trivia := at_end token (c.due_subset member)
    exact Bool.noConfusion ((c.due_cons due).1.symm.trans trivia)

theorem kept_bare {blocks : Nat} (level : Level pairs left opened o.cursor)
    (enclosed : EnclosedAll pairs left c.offset (treesOf o.pieces))
    (bare : Bare (placed c.offset (treesOf o.pieces))) : Kept pairs left opened blocks c o :=
  ⟨level, enclosed, .bare bare, fun _ => bare⟩

theorem kept_silent {blocks : Nat} (level : Level pairs left opened o.cursor)
    (silent : o.pieces = []) : Kept pairs left opened blocks c o := by
  apply kept_bare level
  · rw [silent]
    trivial
  · rw [silent]
    exact fun _ member => nomatch member

theorem treesOf_andThen (o : Outcome) (next : Bool → Cursor → Outcome) :
    treesOf (o.andThen next).pieces =
      treesOf o.pieces ++ treesOf (next o.answer o.cursor).pieces := treesOf_append _ _

theorem Spent.place (spent : Spent c o) (clear : o.faults = []) :
    o.cursor.offset = c.offset + Tree.widthAll (treesOf o.pieces) := by
  rw [treesOf_width]
  exact spent.offset clear

theorem placed_andThen (spent : Spent c o) (clear : o.faults = [])
    (next : Bool → Cursor → Outcome) : placed c.offset (treesOf (o.andThen next).pieces) =
      placed c.offset (treesOf o.pieces) ++
        placed o.cursor.offset (treesOf (next o.answer o.cursor).pieces) := by
  rw [treesOf_andThen, placed_append, spent.place clear]

theorem enclosed_andThen {next : Bool → Cursor → Outcome} (spent : Spent c o)
    (clear : o.faults = []) (first : EnclosedAll pairs left c.offset (treesOf o.pieces))
    (second : EnclosedAll pairs left o.cursor.offset
      (treesOf (next o.answer o.cursor).pieces)) :
    EnclosedAll pairs left c.offset (treesOf (o.andThen next).pieces) := by
  rw [treesOf_andThen]
  rw [spent.place clear] at second
  exact enclosedAll_append.mpr ⟨first, second⟩

theorem Kept.andThen {next : Bool → Cursor → Outcome} {blocks blocks' : Nat}
    (first : Kept pairs left opened blocks c o) (spent : Spent c o) (clear : o.faults = [])
    (second : Kept pairs left opened blocks' o.cursor (next o.answer o.cursor))
    (few : blocks + blocks' ≤ 1) : Kept pairs left opened (blocks + blocks') c (o.andThen next) := by
  have split := placed_andThen spent clear next
  refine ⟨second.level, enclosed_andThen spent clear first.enclosed second.enclosed, ?_, ?_⟩
  · rw [split]
    rcases Nat.eq_zero_or_pos blocks with none | some
    · exact second.paired.after (first.bare none)
    · exact first.paired.before (second.bare (by omega))
  · intro none
    rw [split]
    exact bare_append.mpr ⟨first.bare (by omega), second.bare (by omega)⟩

theorem Kept.onward {next : Bool → Cursor → Outcome} {blocks : Nat}
    (first : Kept pairs left opened 0 c o) (spent : Spent c o) (clear : o.faults = [])
    (second : Kept pairs left opened blocks o.cursor (next o.answer o.cursor))
    (few : blocks ≤ 1 := by omega) : Kept pairs left opened blocks c (o.andThen next) := by
  have both := first.andThen spent clear second (by omega)
  rwa [Nat.zero_add] at both

theorem Kept.wrapped {kind : NodeKind} {blocks : Nat} (kept : Kept pairs left opened blocks c o)
    (closed : blocks = 0 ∨ openings o.pieces = 0) : Kept pairs left opened 0 c (o.wrapped kind) := by
  have inside : EnclosedAll pairs left c.offset (closePieces o.pieces) ∧
      Paired pairs left (placed c.offset (closePieces o.pieces)) := by
    rcases closed with none | closed
    · obtain ⟨enclosed, bare⟩ := closePieces_bare kept.enclosed (kept.bare none)
      exact ⟨enclosed, .bare bare⟩
    · rw [closePieces_sealed closed]
      exact ⟨kept.enclosed, kept.paired⟩
  exact kept_bare kept.level ⟨⟨fun _ => inside.2, inside.1⟩, trivial⟩ (bare_node _ _ _)

theorem Kept.closed (kept : Kept pairs left opened 0 c o) : Kept pairs left opened 0 c o.closed := by
  obtain ⟨enclosed, bare⟩ := closePieces_bare kept.enclosed (kept.bare rfl)
  refine kept_bare (o := o.closed) kept.level ?_ ?_
  · rw [Outcome.closed, treesOf_trees]
    exact enclosed
  · rw [Outcome.closed, treesOf_trees]
    exact bare

end

end CraftDsl
