import CraftDsl.Proofs.Rounds
import Mathlib.Data.List.Forall2

/-!
What trees hold: their leaves and the kinds of their nodes. What a production adds has the tokens it
takes as its leaves, one by one and in order; only a keyword may be an identifier there. Main
statement: `run_spent`.
-/
namespace CraftDsl

namespace Tree

mutual

theorem tokensBefore_eq (rest : List Token) : (t : Tree) →
    tokensBefore rest t = tokensBefore [] t ++ rest
  | leaf _ => rfl
  | node _ children => tokensBeforeAll_eq rest children

theorem tokensBeforeAll_eq (rest : List Token) : (ts : List Tree) →
    tokensBeforeAll rest ts = tokensBeforeAll [] ts ++ rest
  | [] => rfl
  | t :: ts => by
    rw [tokensBeforeAll, tokensBefore_eq, tokensBeforeAll_eq rest ts, tokensBeforeAll,
      tokensBefore_eq (tokensBeforeAll [] ts), List.append_assoc]

end

theorem tokensBeforeAll_flatMap (ts : List Tree) : tokensBeforeAll [] ts = ts.flatMap tokens := by
  induction ts with
  | nil => rfl
  | cons t ts ih =>
    rw [tokensBeforeAll, tokensBefore_eq, ih]
    rfl

@[simp] theorem tokens_leaf (token : Token) : (leaf token).tokens = [token] := rfl

@[simp] theorem tokens_node (kind : NodeKind) (children : List Tree) :
    (node kind children).tokens = children.flatMap tokens :=
  tokensBeforeAll_flatMap children

mutual

theorem width_eq : (t : Tree) → t.width = widthOf t.tokens
  | leaf _ => rfl
  | node kind children => by
    rw [tokens_node]
    exact widthAll_eq children

theorem widthAll_eq : (ts : List Tree) → widthAll ts = widthOf (ts.flatMap tokens)
  | [] => rfl
  | t :: ts => by
    rw [widthAll, List.flatMap_cons, widthOf_append, width_eq t, widthAll_eq ts]

end

mutual

def nodeKinds : Tree → List NodeKind
  | leaf _ => []
  | node kind children => kind :: nodeKindsAll children

def nodeKindsAll : List Tree → List NodeKind
  | [] => []
  | t :: ts => t.nodeKinds ++ nodeKindsAll ts

end

@[simp] theorem nodeKindsAll_append (first second : List Tree) :
    nodeKindsAll (first ++ second) = nodeKindsAll first ++ nodeKindsAll second := by
  induction first with
  | nil => rfl
  | cons t ts ih => simp [nodeKindsAll, ih, List.append_assoc]

end Tree

def Piece.tokens : Piece → List Token
  | tree t => t.tokens
  | opening _ => []

def tokensOf (pieces : List Piece) : List Token := pieces.flatMap Piece.tokens

@[simp] theorem tokensOf_nil : tokensOf [] = [] := rfl

@[simp] theorem tokensOf_append (first second : List Piece) :
    tokensOf (first ++ second) = tokensOf first ++ tokensOf second :=
  List.flatMap_append

@[simp] theorem tokensOf_trees (trees : List Tree) :
    tokensOf (trees.map Piece.tree) = trees.flatMap Tree.tokens :=
  List.flatMap_map Piece.tree Piece.tokens trees

@[simp] theorem tokensOf_leaves (tokens : List Token) : tokensOf (leaves tokens) = tokens := by
  induction tokens with
  | nil => rfl
  | cons token tokens ih => exact congrArg (List.cons token) ih

@[simp] theorem closePieces_tokens (pieces : List Piece) :
    (closePieces pieces).flatMap Tree.tokens = tokensOf pieces := by
  induction pieces with
  | nil => rfl
  | cons piece pieces ih =>
    cases piece with
    | tree t => exact congrArg (t.tokens ++ ·) ih
    | opening kind =>
      have one : closePieces (.opening kind :: pieces) = [.node kind (closePieces pieces)] := rfl
      rw [one, List.flatMap_singleton, Tree.tokens_node, ih]
      rfl

def Piece.kinds : Piece → List NodeKind
  | tree t => t.nodeKinds
  | opening kind => [kind]

def kindsOf (pieces : List Piece) : List NodeKind := pieces.flatMap Piece.kinds

@[simp] theorem kindsOf_append (first second : List Piece) :
    kindsOf (first ++ second) = kindsOf first ++ kindsOf second :=
  List.flatMap_append

@[simp] theorem kindsOf_trees (trees : List Tree) :
    kindsOf (trees.map Piece.tree) = Tree.nodeKindsAll trees := by
  induction trees with
  | nil => rfl
  | cons t ts ih => exact congrArg (t.nodeKinds ++ ·) ih

@[simp] theorem closePieces_kinds (pieces : List Piece) :
    Tree.nodeKindsAll (closePieces pieces) = kindsOf pieces := by
  induction pieces with
  | nil => rfl
  | cons piece pieces ih =>
    cases piece with
    | tree t => exact congrArg (t.nodeKinds ++ ·) ih
    | opening kind =>
      have one : closePieces (.opening kind :: pieces) = [.node kind (closePieces pieces)] := rfl
      rw [one, Tree.nodeKindsAll, Tree.nodeKinds, ih]
      exact List.append_nil _

/-- A leaf is the token it comes from, or an identifier that comes from a keyword. -/
structure Carried (token leaf : Token) : Prop where
  text : leaf.text = token.text
  kind : leaf.kind = token.kind ∨ token.kind.isKeyword = true ∧ leaf.kind = .identifier

theorem carried_refl (token : Token) : Carried token token := ⟨rfl, .inl rfl⟩

theorem carried_all (tokens : List Token) : List.Forall₂ Carried tokens tokens :=
  List.forall₂_same.mpr fun token _ => carried_refl token

theorem carried_text {tokens leaves : List Token} (carried : List.Forall₂ Carried tokens leaves) :
    leaves.flatMap Token.text = tokens.flatMap Token.text := by
  induction carried with
  | nil => rfl
  | cons one rest ih => rw [List.flatMap_cons, List.flatMap_cons, one.text, ih]

theorem carried_width {tokens leaves : List Token} (carried : List.Forall₂ Carried tokens leaves) :
    widthOf leaves = widthOf tokens := by
  induction carried with
  | nil => rfl
  | cons one rest ih => rw [widthOf_cons, widthOf_cons, ih, Token.width, one.text, Token.width]

theorem Carried.trivia {token leaf : Token} (carried : Carried token leaf) :
    leaf.isTrivia = token.isTrivia := by
  rcases carried.kind with same | ⟨keyword, identifier⟩
  · rw [Token.isTrivia, same, Token.isTrivia]
  · rw [Token.isTrivia, identifier, Token.isTrivia]
    cases kind : token.kind with
    | keyword word => rfl
    | _ => simp [kind, TokenKind.isKeyword] at keyword

theorem TokenKind.isKeyword_of_isError {kind : TokenKind} (error : kind.isError = true) :
    kind.isKeyword = false := by
  cases kind with
  | keyword word => cases error
  | _ => rfl

/-- A lexical error token is a leaf as it is. -/
theorem Carried.eq_of_isError {token leaf : Token} (carried : Carried token leaf)
    (error : token.kind.isError = true) : leaf = token := by
  have kind : leaf.kind = token.kind := by
    rcases carried.kind with same | ⟨keyword, -⟩
    · exact same
    · rw [TokenKind.isKeyword_of_isError error] at keyword
      cases keyword
  exact congrArg₂ Token.mk kind carried.text

/-- The next leaf is of the kind of the next token, unless that is a keyword. -/
theorem carried_next {tokens leaves : List Token} (carried : List.Forall₂ Carried tokens leaves)
    (plain : (kindIn 0 tokens).isKeyword = false) : kindIn 0 leaves = kindIn 0 tokens := by
  induction carried with
  | nil => rfl
  | cons one rest ih =>
    unfold kindIn at plain ⊢
    rw [one.trivia]
    split
    · rename_i trivia
      rw [if_pos trivia] at plain
      exact ih plain
    · rename_i solid
      rw [if_neg solid] at plain
      rcases one.kind with same | ⟨keyword, -⟩
      · exact same
      · exact Bool.noConfusion (keyword.symm.trans plain)

/-- Of the tokens ahead, an outcome takes the first ones and has them as leaves. -/
structure Spends (c : Cursor) (taken : List Token) (o : Outcome) : Prop where
  ahead : c.ahead = taken ++ o.cursor.ahead
  offset : o.cursor.offset = c.offset + widthOf taken
  leaves : o.faults = [] → List.Forall₂ Carried taken (tokensOf o.pieces)

theorem Spends.andThen {c : Cursor} {o : Outcome} {first second : List Token}
    {next : Bool → Cursor → Outcome} (spends : Spends c first o)
    (later : Spends o.cursor second (next o.answer o.cursor)) :
    Spends c (first ++ second) (o.andThen next) := by
  constructor
  · rw [spends.ahead, later.ahead, List.append_assoc]
    rfl
  · have moved : (o.andThen next).cursor.offset = o.cursor.offset + widthOf second := later.offset
    rw [moved, spends.offset, widthOf_append, Nat.add_assoc]
  · intro clear
    rcases List.append_eq_nil_iff.mp clear with ⟨first_clear, second_clear⟩
    have together := List.rel_append (spends.leaves first_clear) (later.leaves second_clear)
    simpa [Outcome.andThen] using together

theorem Spends.wrapped {c : Cursor} {taken : List Token} {o : Outcome} (spends : Spends c taken o)
    (kind : NodeKind) : Spends c taken (o.wrapped kind) := by
  refine ⟨spends.ahead, spends.offset, fun clear => ?_⟩
  have inside : tokensOf (o.wrapped kind).pieces = tokensOf o.pieces := by
    simp [Outcome.wrapped, tokensOf, Piece.tokens]
  rw [inside]
  exact spends.leaves clear

theorem Spends.closed {c : Cursor} {taken : List Token} {o : Outcome} (spends : Spends c taken o) :
    Spends c taken o.closed := by
  refine ⟨spends.ahead, spends.offset, fun clear => ?_⟩
  have inside : tokensOf o.closed.pieces = tokensOf o.pieces := by
    rw [Outcome.closed, tokensOf_trees, closePieces_tokens]
  rw [inside]
  exact spends.leaves clear

def Spent (c : Cursor) (o : Outcome) : Prop := ∃ taken, Spends c taken o

theorem Spent.offset {c : Cursor} {o : Outcome} (spent : Spent c o) (clear : o.faults = []) :
    o.cursor.offset = c.offset + widthOf (tokensOf o.pieces) := by
  rcases spent with ⟨taken, spends⟩
  rw [spends.offset, carried_width (spends.leaves clear)]

theorem Spent.subset {c : Cursor} {o : Outcome} (spent : Spent c o) {token : Token}
    (member : token ∈ o.cursor.ahead) : token ∈ c.ahead := by
  rcases spent with ⟨taken, spends⟩
  rw [spends.ahead]
  exact List.mem_append_right _ member

theorem Spent.andThen {c : Cursor} {o : Outcome} {next : Bool → Cursor → Outcome}
    (first : Spent c o) (second : Spent o.cursor (next o.answer o.cursor)) :
    Spent c (o.andThen next) := by
  rcases first with ⟨taken, spends⟩
  rcases second with ⟨more, later⟩
  exact ⟨taken ++ more, spends.andThen later⟩

theorem Spent.wrapped {c : Cursor} {o : Outcome} (spent : Spent c o) (kind : NodeKind) :
    Spent c (o.wrapped kind) := by
  rcases spent with ⟨taken, spends⟩
  exact ⟨taken, spends.wrapped kind⟩

theorem Spent.closed {c : Cursor} {o : Outcome} (spent : Spent c o) : Spent c o.closed := by
  rcases spent with ⟨taken, spends⟩
  exact ⟨taken, spends.closed⟩

namespace Cursor

variable (c : Cursor)

theorem quiet_spent (answer : Bool) : Spent c (.quiet answer c) :=
  ⟨[], rfl, rfl, fun _ => .nil⟩

theorem check_spent (holds : Bool) (fault : Fault) (answer : Bool) :
    Spent c (.check holds fault answer c) :=
  ⟨[], rfl, rfl, fun _ => .nil⟩

theorem look_spent (n : Nat) (among : KindSet) : Spent c (c.look n among) :=
  ⟨[], rfl, rfl, fun _ => .nil⟩

theorem shift_spent (count : Nat) : Spent c (c.shift count) := by
  refine ⟨c.ahead.take count, (List.take_append_drop count c.ahead).symm, rfl, fun _ => ?_⟩
  rw [shift, tokensOf_leaves]
  exact carried_all _

theorem settle_spent : Spent c c.settle := c.shift_spent _

theorem take_spent (among : KindSet) (retag : Option TokenKind)
    (allowed : ∀ token : Token, among.has token.kind = true →
      Carried token ⟨retag.getD token.kind, token.text⟩) :
    Spent c (c.take among retag) := by
  apply c.settle_spent.andThen
  cases next : c.settle.cursor.ahead with
  | nil => exact c.settle.cursor.check_spent _ _ _
  | cons token tokens =>
    refine ⟨[token], ?_, ?_, ?_⟩
    · simp [Outcome.check, Outcome.quiet, advance, next]
    · simp [Outcome.check, Outcome.quiet, advance, next]
    · intro clear
      have member : among.has token.kind = true := by
        simpa [Outcome.check] using clear
      exact .cons (allowed token member) .nil

theorem take_own_spent (among : KindSet) : Spent c (c.take among none) :=
  c.take_spent among none fun token _ => carried_refl token

theorem take_name_spent : Spent c (c.take .words (some .identifier)) := by
  refine c.take_spent .words (some .identifier) fun token member => ⟨rfl, ?_⟩
  rw [KindSet.has_words] at member
  cases kind : token.kind with
  | keyword word => exact .inr ⟨rfl, rfl⟩
  | identifier => exact .inl rfl
  | _ => simp [kind, Kind.isWord, TokenKind.isWord] at member

theorem report_spent (diagnostic : Span → Diagnostic) : Spent c (c.report diagnostic) := by
  simp only [report]
  split <;> exact ⟨[], rfl, rfl, fun _ => .nil⟩

theorem gap_spent : Spent c c.gap :=
  c.settle_spent.andThen ((quiet_spent _ false).wrapped .error)

theorem missing_spent (kind : DiagnosticKind) (message : String) :
    Spent c (c.missing kind message) :=
  (c.look_spent 0 .empty).andThen ((report_spent _ _).andThen (gap_spent _))

theorem discard_spent : Spent c c.discard := by
  refine c.settle_spent.andThen (Spent.wrapped ?_ .error)
  refine (look_spent _ 0 .empty).andThen ((shift_spent _ _).andThen ?_)
  exact ⟨[], rfl, rfl, fun _ => .nil⟩

theorem skip_spent (complaint : Complaint) : Spent c (c.skip complaint) := by
  apply (c.look_spent 0 _).andThen
  split
  · exact quiet_spent _ true
  · exact (look_spent _ 0 .empty).andThen ((report_spent _ _).andThen (discard_spent _))

theorem unclosed_spent (what : String) (brace : Span) : Spent c (c.unclosed what brace) :=
  (c.check_spent _ _ _).andThen ((report_spent _ _).andThen (gap_spent _))

theorem closeBlock_spent (what : String) (brace : Span) : Spent c (c.closeBlock what brace) := by
  unfold closeBlock
  split
  · exact c.take_own_spent _
  · exact c.unclosed_spent what brace

theorem block_spent (what : String) {body : Cursor → Outcome} (inner : ∀ c, Spent c (body c)) :
    Spent c (c.block what body) :=
  (c.take_own_spent _).andThen ((inner _).andThen (closeBlock_spent _ _ _))

end Cursor

namespace Production

theorem rounds_spent {round : Cursor → Outcome} (inner : ∀ c, Spent c (round c))
    (limit : List Token) (c : Cursor) : Spent c (rounds round limit c) := by
  induction limit generalizing c with
  | nil => exact (inner c).andThen (Cursor.check_spent _ _ _ _)
  | cons token limit ih =>
    apply (inner c).andThen
    split
    · exact ih _
    · exact Cursor.quiet_spent _ _

theorem run_spent (x : Production) (c : Cursor) : Spent c (x.run c) := by
  induction x using wrapped_induction generalizing c with
  | answer value => exact c.quiet_spent value
  | look n among => exact c.look_spent n among
  | glance n among => exact c.quiet_spent _
  | demand among => exact (c.look_spent 0 among).andThen (Cursor.check_spent _ _ _ _)
  | impossible => exact c.check_spent _ _ _
  | take among => exact c.take_own_spent among
  | name => exact c.take_name_spent
  | pass => exact c.quiet_spent true
  | settle => exact c.settle_spent
  | within kind body ih => exact (ih c).wrapped kind
  | into kind => exact ⟨[], rfl, rfl, fun _ => .nil⟩
  | count opened => exact c.quiet_spent true
  | scope body ih => exact (ih c).closed
  | wrap yes no first question rest ih => exact (ih c).wrapped _
  | seq first second first_ih second_ih => exact (first_ih c).andThen (second_ih _)
  | branch question yes no question_ih yes_ih no_ih =>
    apply (question_ih c).andThen
    split
    · exact yes_ih _
    · exact no_ih _
  | loop body ih => exact rounds_spent ih _ c
  | missing kind message => exact c.missing_spent kind message
  | skip complaint => exact c.skip_spent complaint
  | block what body ih => exact c.block_spent what ih

end Production

end CraftDsl
