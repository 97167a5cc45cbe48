import CraftDsl.Proofs.Places

/-!
Two runs of a production. Where the tokens ahead of two cursors are alike, blanks and comments left
out, a production adds trees that are alike and makes reports that are alike, and it leaves cursors
that are alike. What being alike comes to is a parameter. Main statement: `run_parallel`.
-/
namespace CraftDsl

namespace Tree

variable (keep : Token → Option Token)

mutual

/-- What is kept of the leaves, in nodes of the same kinds. -/
def sift : Tree → List Tree
  | leaf token => (keep token).toList.map leaf
  | node kind children => [node kind (siftAll children)]

def siftAll : List Tree → List Tree
  | [] => []
  | t :: ts => t.sift ++ siftAll ts

end

theorem siftAll_leaves (tokens : List Token) :
    siftAll keep (tokens.map leaf) = (tokens.filterMap keep).map leaf := by
  induction tokens with
  | nil => rfl
  | cons token tokens ih =>
    rw [List.map_cons, siftAll, ih, sift, List.filterMap_cons]
    cases keep token <;> rfl

end Tree

def siftPieces (keep : Token → Option Token) : List Piece → List Piece
  | [] => []
  | .tree t :: pieces => (t.sift keep).map .tree ++ siftPieces keep pieces
  | .opening kind :: pieces => .opening kind :: siftPieces keep pieces

section

variable (keep : Token → Option Token)

theorem siftPieces_append (first second : List Piece) :
    siftPieces keep (first ++ second) = siftPieces keep first ++ siftPieces keep second := by
  induction first with
  | nil => rfl
  | cons piece pieces ih =>
    cases piece with
    | tree t => rw [List.cons_append, siftPieces, ih, siftPieces, List.append_assoc]
    | opening kind => rw [List.cons_append, siftPieces, ih, siftPieces, List.cons_append]

theorem siftPieces_trees (trees : List Tree) :
    siftPieces keep (trees.map .tree) = (Tree.siftAll keep trees).map .tree := by
  induction trees with
  | nil => rfl
  | cons t ts ih => rw [List.map_cons, siftPieces, ih, Tree.siftAll, List.map_append]

theorem siftPieces_leaves (tokens : List Token) :
    siftPieces keep (leaves tokens) = leaves (tokens.filterMap keep) := by
  have trees (tokens : List Token) : leaves tokens = (tokens.map Tree.leaf).map .tree :=
    (List.map_map ..).symm
  rw [trees, siftPieces_trees, Tree.siftAll_leaves, ← trees]

theorem leaves_injective : Function.Injective leaves :=
  List.map_injective_iff.mpr fun _ _ same => Tree.leaf.inj (Piece.tree.inj same)

theorem closePieces_append (trees : List Tree) (pieces : List Piece) :
    closePieces (trees.map .tree ++ pieces) = trees ++ closePieces pieces := by
  induction trees with
  | nil => rfl
  | cons t ts ih => exact congrArg (List.cons t) ih

theorem siftAll_closePieces (pieces : List Piece) :
    Tree.siftAll keep (closePieces pieces) = closePieces (siftPieces keep pieces) := by
  induction pieces with
  | nil => rfl
  | cons piece pieces ih =>
    cases piece with
    | tree t =>
      have first : closePieces (.tree t :: pieces) = t :: closePieces pieces := rfl
      rw [first, Tree.siftAll, ih, siftPieces, closePieces_append]
    | opening kind =>
      have one (pieces : List Piece) :
          closePieces (.opening kind :: pieces) = [.node kind (closePieces pieces)] := rfl
      rw [one, siftPieces, one, Tree.siftAll, Tree.sift, ih]
      rfl

end

namespace Token

def solid (start : Nat) (tokens : List Token) : List (Span × Token) :=
  (locate start tokens).filter fun located => !located.2.isTrivia

theorem solid_append (start : Nat) (first second : List Token) :
    solid start (first ++ second) = solid start first ++ solid (start + widthOf first) second := by
  rw [solid, locate_append, List.filter_append, solid, solid]

theorem solid_cons (start : Nat) {token : Token} (tokens : List Token)
    (solid_token : token.isTrivia = false) :
    solid start (token :: tokens) =
      (⟨start, start + token.width⟩, token) :: solid (start + token.width) tokens := by
  rw [solid, locate, List.filter_cons_of_pos (by simp [solid_token]), solid]

theorem solid_tokens (start : Nat) (tokens : List Token) :
    (solid start tokens).map Prod.snd = tokens.filter fun token => !token.isTrivia := by
  have inner : (fun located : Span × Token => !located.2.isTrivia) =
      (fun token : Token => !token.isTrivia) ∘ Prod.snd := rfl
  rw [solid, inner, ← List.filter_map, locate_tokens]

theorem solid_trivia (start : Nat) {tokens : List Token}
    (trivia : ∀ token ∈ tokens, token.isTrivia = true) : solid start tokens = [] := by
  apply List.map_eq_nil_iff.mp
  rw [solid_tokens, List.filter_eq_nil_iff]
  intro token member
  simp [trivia token member]

theorem mem_solid {start : Nat} {tokens : List Token} {located : Span × Token}
    (member : located ∈ solid start tokens) :
    located.2 ∈ tokens ∧ start ≤ located.1.start ∧
      located.1.stop = located.1.start + located.2.width ∧
      located.1.stop ≤ start + widthOf tokens :=
  mem_locate (List.mem_of_mem_filter member)

theorem kindIn_solid (start n : Nat) (tokens : List Token) :
    kindIn n tokens = ((solid start tokens).map fun located => located.2.kind)[n]?.getD
      .endOfInput := by
  induction tokens generalizing start n with
  | nil => rfl
  | cons token tokens ih =>
    by_cases trivia : token.isTrivia = true
    · rw [solid, locate, List.filter_cons_of_neg (by simp [trivia])]
      unfold kindIn
      rw [if_pos trivia]
      exact ih (start + token.width) n
    · rw [solid_cons start tokens (Bool.eq_false_iff.mpr trivia)]
      unfold kindIn
      rw [if_neg trivia]
      cases n with
      | zero => rfl
      | succ n => exact ih (start + token.width) n

end Token

/-- How many of the tokens that are not trivia belong to a skipped stretch, told from their kinds. -/
def stretchKinds (depth : Nat) (first : Bool) : List TokenKind → Nat
  | [] => 0
  | kind :: kinds =>
    if stopsAt depth first kind then 0
    else stretchKinds (depthAfter depth kind) false kinds + 1

theorem solid_stretch (depth : Nat) (first : Bool) (start : Nat) (tokens : List Token) :
    Token.solid start (tokens.take (stretch depth first 0 tokens)) =
      (Token.solid start tokens).take (stretchKinds depth first
        ((Token.solid start tokens).map fun located => located.2.kind)) := by
  induction depth, first, tokens using stretch_induction generalizing start with
  | ended depth first blanks trivia =>
    rw [stretch_trivia depth first trivia, List.take_zero, Token.solid_trivia start trivia]
    rfl
  | halts depth first blanks token tokens trivia solid stops =>
    rw [stretch_halts depth first tokens trivia solid stops, Token.solid_append,
      Token.solid_trivia start trivia, List.nil_append, Token.solid_cons _ _ solid, List.map_cons,
      stretchKinds, if_pos stops]
    rfl
  | goes_on depth first blanks token tokens trivia solid passes ih =>
    rw [stretch_goes_on depth first tokens trivia solid passes, Token.solid_append start blanks,
      Token.solid_trivia start trivia, List.nil_append, Token.solid_cons _ _ solid, List.map_cons,
      stretchKinds, if_neg passes, List.take_length_add_append, Token.solid_append,
      Token.solid_trivia start trivia, List.nil_append, List.take_succ_cons,
      Token.solid_cons _ _ solid, List.take_succ_cons]
    exact congrArg (List.cons _) (ih (start + widthOf blanks + token.width))

namespace Cursor

def solid (c : Cursor) : List (Span × Token) := Token.solid c.offset c.ahead

def finish (c : Cursor) : Nat := c.offset + widthOf c.ahead

theorem solid_due (c : Cursor) : c.solid = Token.solid (c.offset + widthOf c.pending) c.due := by
  conv_lhs => rw [solid, c.ahead_eq]
  rw [Token.solid_append, Token.solid_trivia _ c.pending_trivia, List.nil_append]

theorem solid_nil {c : Cursor} (none_left : c.solid = []) :
    c.due = [] ∧ c.spanAhead = ⟨c.finish, c.finish⟩ := by
  cases due : c.due with
  | nil =>
    refine ⟨rfl, ?_⟩
    have finish : c.finish = c.offset + widthOf c.pending := by
      rw [Cursor.finish, c.ahead_eq, due, List.append_nil]
    rw [spanAhead, due, finish]
    rfl
  | cons token tokens =>
    rw [solid_due, due, Token.solid_cons _ _ (c.due_cons due).1] at none_left
    cases none_left

theorem solid_cons {c : Cursor} {located : Span × Token} {rest : List (Span × Token)}
    (first : c.solid = located :: rest) :
    ∃ tokens, c.due = located.2 :: tokens ∧ c.spanAhead = located.1 ∧
      Token.solid located.1.stop tokens = rest := by
  cases due : c.due with
  | nil =>
    rw [solid_due, due] at first
    cases first
  | cons token tokens =>
    rw [solid_due, due, Token.solid_cons _ _ (c.due_cons due).1] at first
    cases first
    refine ⟨tokens, rfl, ?_, rfl⟩
    rw [spanAhead, due]
    rfl

theorem kindAhead_solid (c : Cursor) (n : Nat) :
    c.kindAhead n = (c.solid.map fun located => located.2.kind)[n]?.getD .endOfInput :=
  Token.kindIn_solid c.offset n c.ahead

/-- The cursor leaves the tokens behind and makes no report. -/
structure Moves (c : Cursor) (taken : List Token) (d : Cursor) : Prop where
  ahead : c.ahead = taken ++ d.ahead
  offset : d.offset = c.offset + widthOf taken
  reported : d.reported = c.reported

namespace Moves

variable {c d : Cursor} {taken : List Token}

theorem solid (moves : c.Moves taken d) : c.solid = Token.solid c.offset taken ++ d.solid := by
  rw [Cursor.solid, moves.ahead, Token.solid_append, Cursor.solid, moves.offset]

theorem finish (moves : c.Moves taken d) : d.finish = c.finish := by
  rw [Cursor.finish, moves.offset, Cursor.finish, moves.ahead, widthOf_append, Nat.add_assoc]

theorem subset (moves : c.Moves taken d) {token : Token} (member : token ∈ d.ahead) :
    token ∈ c.ahead := by
  rw [moves.ahead]
  exact List.mem_append_right _ member

theorem spanAhead_blank (moves : c.Moves taken d) (blank : Token.solid c.offset taken = []) :
    d.spanAhead = c.spanAhead := by
  have same : c.solid = d.solid := by rw [moves.solid, blank, List.nil_append]
  cases left : d.solid with
  | nil => rw [(solid_nil left).2, (solid_nil (same.trans left)).2, moves.finish]
  | cons located rest =>
    obtain ⟨-, -, span, -⟩ := solid_cons left
    obtain ⟨-, -, before, -⟩ := solid_cons (same.trans left)
    rw [span, before]

theorem spanAhead_solid (moves : c.Moves taken d) {located : Span × Token}
    {rest : List (Span × Token)} (first : Token.solid c.offset taken = located :: rest)
    (wide : ∀ token ∈ c.ahead, 0 < token.width) :
    c.spanAhead.start < d.spanAhead.start := by
  have member : located ∈ Token.solid c.offset taken := first ▸ List.mem_cons_self
  obtain ⟨inside, -, stop, before⟩ := Token.mem_solid member
  have positive : 0 < located.2.width := by
    apply wide
    rw [moves.ahead]
    exact List.mem_append_left _ inside
  have place : c.spanAhead = located.1 := by
    have all : c.solid = located :: (rest ++ d.solid) := by
      rw [moves.solid, first, List.cons_append]
    obtain ⟨-, -, span, -⟩ := solid_cons all
    exact span
  have further : d.offset ≤ d.spanAhead.start := Nat.le_add_right _ _
  have moved := moves.offset
  rw [place]
  omega

end Moves

theorem due_of_take {c : Cursor} {among : KindSet} {retag : Option TokenKind}
    (clear : (c.take among retag).faults = []) : ∃ token tokens, c.due = token :: tokens := by
  cases due : c.due with
  | nil => simp [take, settle_eq, due, Outcome.andThen, Outcome.check] at clear
  | cons token tokens => exact ⟨token, tokens, rfl⟩

theorem has_of_take {c : Cursor} {among : KindSet} {retag : Option TokenKind} {token : Token}
    {tokens : List Token} (due : c.due = token :: tokens)
    (clear : (c.take among retag).faults = []) : among.has token.kind = true := by
  rw [c.take_eq among retag due] at clear
  simpa using clear

theorem solid_of_due {c : Cursor} {token : Token} {tokens : List Token}
    (due : c.due = token :: tokens) : ∃ located rest, c.solid = located :: rest ∧
      located.2 = token := by
  rw [solid_due, due, Token.solid_cons _ _ (c.due_cons due).1]
  exact ⟨_, _, rfl, rfl⟩

theorem solid_pending {c : Cursor} {token : Token} {tokens : List Token}
    (due : c.due = token :: tokens) : Token.solid c.offset (c.pending ++ [token]) =
      [(c.spanAhead, token)] := by
  rw [Token.solid_append, Token.solid_trivia _ c.pending_trivia,
    Token.solid_cons _ _ (c.due_cons due).1, spanAhead, due]
  rfl

theorem take_moves (c : Cursor) (among : KindSet) (retag : Option TokenKind) {token : Token}
    {tokens : List Token} (due : c.due = token :: tokens) :
    c.Moves (c.pending ++ [token]) (c.take among retag).cursor := by
  rw [c.take_eq among retag due]
  refine ⟨?_, rfl, rfl⟩
  rw [List.append_assoc, List.singleton_append, ← due]
  exact c.ahead_eq

theorem settle_moves (c : Cursor) : c.Moves c.pending c.settle.cursor := by
  rw [settle_eq]
  exact ⟨c.ahead_eq, rfl, rfl⟩

theorem discard_moves (c : Cursor) :
    c.Moves (c.pending ++ c.due.take (stretch 0 true 0 c.due)) c.discard.cursor := by
  rw [discard_eq]
  refine ⟨?_, ?_, rfl⟩
  · rw [List.append_assoc, List.take_append_drop]
    exact c.ahead_eq
  · rw [widthOf_append, Nat.add_assoc]

theorem solid_discarded (c : Cursor) :
    Token.solid c.offset (c.pending ++ c.due.take (stretch 0 true 0 c.due)) =
      c.solid.take (stretchKinds 0 true (c.solid.map fun located => located.2.kind)) := by
  rw [Token.solid_append, Token.solid_trivia _ c.pending_trivia, List.nil_append, c.solid_due]
  exact solid_stretch 0 true _ c.due

def Fresh (c : Cursor) : Prop := ∀ place ∈ c.reported, place < c.spanAhead.start

def Stale (c : Cursor) : Prop := c.reported = some c.spanAhead.start

theorem Moves.fresh {c d : Cursor} {taken : List Token} (moves : c.Moves taken d)
    (fresh : c.Fresh) (wide : ∀ token ∈ c.ahead, 0 < token.width) : d.Fresh := by
  intro place latest
  have earlier := fresh place (moves.reported ▸ latest)
  cases passed : Token.solid c.offset taken with
  | nil =>
    rw [moves.spanAhead_blank passed]
    exact earlier
  | cons located rest => exact earlier.trans (moves.spanAhead_solid passed wide)

end Cursor

theorem Spent.finish {c : Cursor} {o : Outcome} (spent : Spent c o) : o.cursor.finish = c.finish := by
  obtain ⟨taken, spends⟩ := spent
  rw [Cursor.finish, spends.offset, Cursor.finish, spends.ahead, widthOf_append, Nat.add_assoc]

/-- In which respect two sources are alike: which tokens stand for each other, which places do, and
what is kept of a leaf. -/
structure Likeness where
  token : Span × Token → Span × Token → Prop
  place : Nat → Nat → Prop
  keep : Token → Option Token
  blank : ∀ token : Token, token.isTrivia = true → keep token = none
  kind : ∀ {a b}, token a b → a.2.kind = b.2.kind
  leaf : ∀ {a b}, token a b → ∀ kind, keep ⟨kind, a.2.text⟩ = keep ⟨kind, b.2.text⟩
  start : ∀ {a b}, token a b → place a.1.start b.1.start
  stop : ∀ {a b}, token a b → place a.1.stop b.1.stop

namespace Likeness

variable (L : Likeness)

def Spans (s t : Span) : Prop := L.place s.start t.start ∧ L.place s.stop t.stop

def Wordings (d e : Diagnostic) : Prop :=
  d.message = e.message ∨
    ∃ lead a b, L.token a b ∧ a.1 = d.span ∧ b.1 = e.span ∧
      d.message = (Complaint.quoting lead).message a.2.text ∧
      e.message = (Complaint.quoting lead).message b.2.text

structure Reports (d e : Diagnostic) : Prop where
  kind : d.kind = e.kind
  span : L.Spans d.span e.span
  message : L.Wordings d e
  notes : List.Forall₂ (fun n m => n.message = m.message ∧ L.Spans n.span m.span) d.notes e.notes

/-- The same tokens come next, and a report here is made in both or in neither. -/
structure Alike (c d : Cursor) : Prop where
  solid : List.Forall₂ L.token c.solid d.solid
  finish : L.place c.finish d.finish
  reported : c.Stale ∧ d.Stale ∨ c.Fresh ∧ d.Fresh
  wide : (∀ token ∈ c.ahead, 0 < token.width) ∧ ∀ token ∈ d.ahead, 0 < token.width

structure Parallel (o p : Outcome) : Prop where
  answer : o.answer = p.answer
  pieces : siftPieces L.keep o.pieces = siftPieces L.keep p.pieces
  reports : List.Forall₂ L.Reports o.reports p.reports
  cursor : L.Alike o.cursor p.cursor

variable {L} {c d : Cursor} {o p : Outcome}

theorem keep_eq {a b : Span × Token} (alike : L.token a b) : L.keep a.2 = L.keep b.2 := by
  have same := L.leaf alike a.2.kind
  rw [L.kind alike] at same
  rw [← same, ← L.kind alike]

theorem filterMap_solid (L : Likeness) (start : Nat) (tokens : List Token) :
    tokens.filterMap L.keep = (Token.solid start tokens).filterMap fun located =>
      L.keep located.2 := by
  induction tokens generalizing start with
  | nil => rfl
  | cons token tokens ih =>
    by_cases trivia : token.isTrivia = true
    · rw [Token.solid, Token.locate, List.filter_cons_of_neg (by simp [trivia]),
        List.filterMap_cons, L.blank token trivia]
      exact ih _
    · rw [Token.solid_cons _ _ (Bool.eq_false_iff.mpr trivia), List.filterMap_cons,
        List.filterMap_cons, ih (start + token.width)]

theorem kept_eq {left right : List (Span × Token)} (alike : List.Forall₂ L.token left right) :
    left.filterMap (fun located => L.keep located.2) =
      right.filterMap fun located => L.keep located.2 := by
  induction alike with
  | nil => rfl
  | cons one rest ih => rw [List.filterMap_cons, List.filterMap_cons, keep_eq one, ih]

theorem kindList_eq {left right : List (Span × Token)} (alike : List.Forall₂ L.token left right) :
    left.map (fun located => located.2.kind) = right.map fun located => located.2.kind := by
  induction alike with
  | nil => rfl
  | cons one rest ih => rw [List.map_cons, List.map_cons, L.kind one, ih]

theorem leaves_eq {start start' : Nat} {tokens tokens' : List Token}
    (alike : List.Forall₂ L.token (Token.solid start tokens) (Token.solid start' tokens')) :
    siftPieces L.keep (leaves tokens) = siftPieces L.keep (leaves tokens') := by
  rw [siftPieces_leaves, siftPieces_leaves, L.filterMap_solid start, L.filterMap_solid start',
    kept_eq alike]

theorem filterMap_blank (L : Likeness) {tokens : List Token}
    (trivia : ∀ token ∈ tokens, token.isTrivia = true) : tokens.filterMap L.keep = [] := by
  rw [L.filterMap_solid 0, Token.solid_trivia 0 trivia]
  rfl

theorem leaves_blank (L : Likeness) {tokens : List Token}
    (trivia : ∀ token ∈ tokens, token.isTrivia = true) :
    siftPieces L.keep (leaves tokens) = [] := by
  rw [siftPieces_leaves, L.filterMap_blank trivia]
  rfl

theorem Parallel.andThen {next next' : Bool → Cursor → Outcome} (first : L.Parallel o p)
    (second : L.Parallel (next o.answer o.cursor) (next' p.answer p.cursor)) :
    L.Parallel (o.andThen next) (p.andThen next') := by
  refine ⟨second.answer, ?_, List.rel_append first.reports second.reports, second.cursor⟩
  show siftPieces L.keep (_ ++ _) = siftPieces L.keep (_ ++ _)
  rw [siftPieces_append, siftPieces_append, first.pieces, second.pieces]

/-- Both runs take the same branch. -/
theorem Parallel.decide {yes yes' no no' : Cursor → Outcome} (question : L.Parallel o p)
    (affirmed : o.answer = true → L.Parallel (yes o.cursor) (yes' p.cursor))
    (denied : ¬ o.answer = true → L.Parallel (no o.cursor) (no' p.cursor)) :
    L.Parallel (o.andThen fun answer c => if answer then yes c else no c)
      (p.andThen fun answer c => if answer then yes' c else no' c) := by
  apply question.andThen
  rw [← question.answer]
  by_cases answer : o.answer = true
  · rw [if_pos answer, if_pos answer]
    exact affirmed answer
  · rw [if_neg answer, if_neg answer]
    exact denied answer

theorem Parallel.closePieces (parallel : L.Parallel o p) :
    Tree.siftAll L.keep (closePieces o.pieces) = Tree.siftAll L.keep (closePieces p.pieces) := by
  rw [siftAll_closePieces, siftAll_closePieces, parallel.pieces]

theorem Parallel.wrapped (parallel : L.Parallel o p) (kind : NodeKind) :
    L.Parallel (o.wrapped kind) (p.wrapped kind) := by
  refine ⟨parallel.answer, ?_, parallel.reports, parallel.cursor⟩
  simp only [Outcome.wrapped, siftPieces, Tree.sift, parallel.closePieces]

theorem Parallel.closed (parallel : L.Parallel o p) : L.Parallel o.closed p.closed := by
  refine ⟨parallel.answer, ?_, parallel.reports, parallel.cursor⟩
  rw [Outcome.closed, Outcome.closed, siftPieces_trees, siftPieces_trees, parallel.closePieces]

namespace Alike

variable (alike : L.Alike c d)

include alike

theorem quiet (answer : Bool) : L.Parallel (.quiet answer c) (.quiet answer d) :=
  ⟨rfl, rfl, .nil, alike⟩

theorem check (holds : Bool) (fault : Fault) (answer : Bool) :
    L.Parallel (.check holds fault answer c) (.check holds fault answer d) :=
  ⟨rfl, rfl, .nil, alike⟩

theorem kindAhead (n : Nat) : c.kindAhead n = d.kindAhead n := by
  rw [c.kindAhead_solid, d.kindAhead_solid, kindList_eq alike.solid]

theorem spans : L.Spans c.spanAhead d.spanAhead := by
  have solid := alike.solid
  cases left : c.solid with
  | nil =>
    rw [left, List.forall₂_nil_left_iff] at solid
    rw [(Cursor.solid_nil left).2, (Cursor.solid_nil solid).2]
    exact ⟨alike.finish, alike.finish⟩
  | cons a rest =>
    rw [left, List.forall₂_cons_left_iff] at solid
    obtain ⟨b, rest', one, -, right⟩ := solid
    obtain ⟨-, -, here, -⟩ := Cursor.solid_cons left
    obtain ⟨-, -, there, -⟩ := Cursor.solid_cons right
    rw [here, there]
    exact ⟨L.start one, L.stop one⟩

/-- Cursors stay alike when as many tokens are left behind, and the tokens left behind are alike. -/
theorem move {c' d' : Cursor} {taken taken' : List Token} (moves : c.Moves taken c')
    (moves' : d.Moves taken' d') (count : (Token.solid c.offset taken).length =
      (Token.solid d.offset taken').length) :
    List.Forall₂ L.token (Token.solid c.offset taken) (Token.solid d.offset taken') ∧
      L.Alike c' d' := by
  have solid := alike.solid
  rw [moves.solid, moves'.solid] at solid
  have behind := List.forall₂_take (Token.solid c.offset taken).length solid
  have ahead := List.forall₂_drop (Token.solid c.offset taken).length solid
  rw [List.take_left, count, List.take_left] at behind
  rw [List.drop_left, count, List.drop_left] at ahead
  refine ⟨behind, ahead, ?_, ?_, ?_, ?_⟩
  · rw [moves.finish, moves'.finish]
    exact alike.finish
  · rcases alike.reported with ⟨stale, stale'⟩ | ⟨fresh, fresh'⟩
    · cases passed : Token.solid c.offset taken with
      | nil =>
        rw [passed, List.forall₂_nil_left_iff] at behind
        left
        constructor
        · rw [Cursor.Stale, moves.reported, moves.spanAhead_blank passed]
          exact stale
        · rw [Cursor.Stale, moves'.reported, moves'.spanAhead_blank behind]
          exact stale'
      | cons located rest =>
        rw [passed, List.forall₂_cons_left_iff] at behind
        obtain ⟨_, _, -, -, passed'⟩ := behind
        right
        constructor
        · intro place latest
          rw [moves.reported, stale] at latest
          cases latest
          exact moves.spanAhead_solid passed alike.wide.1
        · intro place latest
          rw [moves'.reported, stale'] at latest
          cases latest
          exact moves'.spanAhead_solid passed' alike.wide.2
    · exact .inr ⟨moves.fresh fresh alike.wide.1, moves'.fresh fresh' alike.wide.2⟩
  · exact fun token member => alike.wide.1 token (moves.subset member)
  · exact fun token member => alike.wide.2 token (moves'.subset member)

theorem look (n : Nat) (among : KindSet) : L.Parallel (c.look n among) (d.look n among) := by
  refine ⟨?_, rfl, .nil, alike.solid, alike.finish, alike.reported, alike.wide⟩
  show among.has (c.kindAhead n) = among.has (d.kindAhead n)
  rw [alike.kindAhead n]

theorem settle : L.Parallel c.settle d.settle := by
  have blank := Token.solid_trivia c.offset c.pending_trivia
  have blank' := Token.solid_trivia d.offset d.pending_trivia
  have count : (Token.solid c.offset c.pending).length =
      (Token.solid d.offset d.pending).length := by rw [blank, blank']
  obtain ⟨behind, ahead⟩ := alike.move c.settle_moves d.settle_moves count
  refine ⟨?_, ?_, ?_, ahead⟩
  · rw [c.settle_eq, d.settle_eq]
  · rw [c.settle_eq, d.settle_eq]
    exact leaves_eq behind
  · rw [c.settle_eq, d.settle_eq]
    exact .nil

theorem gap : L.Parallel c.gap d.gap := by
  have settled := alike.settle
  exact Parallel.andThen settled ((settled.cursor.quiet false).wrapped .error)

theorem report {f g : Span → Diagnostic} (same : L.Reports (f c.spanAhead) (g d.spanAhead)) :
    L.Parallel (c.report f) (d.report g) := by
  rcases alike.reported with ⟨stale, stale'⟩ | ⟨fresh, fresh'⟩
  · simp only [Cursor.Stale] at stale stale'
    rw [Cursor.report, if_pos stale, Cursor.report, if_pos stale']
    exact alike.quiet true
  · have unreported : c.reported ≠ some c.spanAhead.start := fun latest =>
      Nat.lt_irrefl _ (fresh _ latest)
    have unreported' : d.reported ≠ some d.spanAhead.start := fun latest =>
      Nat.lt_irrefl _ (fresh' _ latest)
    rw [Cursor.report, if_neg unreported, Cursor.report, if_neg unreported']
    exact ⟨rfl, rfl, .cons same .nil, alike.solid, alike.finish, .inl ⟨rfl, rfl⟩, alike.wide⟩

theorem missing (kind : DiagnosticKind) (message : String) :
    L.Parallel (c.missing kind message) (d.missing kind message) := by
  have looked := alike.look 0 .empty
  have reported := looked.cursor.report
    (f := fun place => ⟨kind, place, message, []⟩) (g := fun place => ⟨kind, place, message, []⟩)
    ⟨rfl, looked.cursor.spans, .inl rfl, .nil⟩
  exact looked.andThen (reported.andThen reported.cursor.gap)

theorem take (among : KindSet) (retag : Option TokenKind)
    (clear : (c.take among retag).faults = []) :
    L.Parallel (c.take among retag) (d.take among retag) := by
  obtain ⟨token, tokens, due⟩ := Cursor.due_of_take clear
  obtain ⟨a, rest, left, rfl⟩ := Cursor.solid_of_due due
  have solid := alike.solid
  rw [left, List.forall₂_cons_left_iff] at solid
  obtain ⟨b, rest', one, -, right⟩ := solid
  obtain ⟨tokens', due', -, -⟩ := Cursor.solid_cons right
  have moves := c.take_moves among retag due
  have moves' := d.take_moves among retag due'
  have count : (Token.solid c.offset (c.pending ++ [a.2])).length =
      (Token.solid d.offset (d.pending ++ [b.2])).length := by
    rw [Cursor.solid_pending due, Cursor.solid_pending due']
    rfl
  obtain ⟨-, ahead⟩ := alike.move moves moves' count
  refine ⟨?_, ?_, ?_, ahead⟩
  · rw [Cursor.take_answer, Cursor.take_answer]
  · rw [c.take_eq among retag due, d.take_eq among retag due']
    simp only [siftPieces_append, leaves_blank L c.pending_trivia,
      leaves_blank L d.pending_trivia, siftPieces, Tree.sift, L.kind one, L.leaf one]
  · rw [c.take_eq among retag due, d.take_eq among retag due']
    exact .nil

theorem discard : L.Parallel c.discard d.discard := by
  have kinds : c.solid.map (fun located => located.2.kind) =
      d.solid.map fun located => located.2.kind := kindList_eq alike.solid
  have count : (Token.solid c.offset (c.pending ++ c.due.take (stretch 0 true 0 c.due))).length =
      (Token.solid d.offset (d.pending ++ d.due.take (stretch 0 true 0 d.due))).length := by
    rw [c.solid_discarded, d.solid_discarded, List.length_take, List.length_take, kinds,
      alike.solid.length_eq]
  obtain ⟨behind, ahead⟩ := alike.move c.discard_moves d.discard_moves count
  refine ⟨?_, ?_, ?_, ahead⟩
  · rw [c.discard_eq, d.discard_eq]
  · have leaves := leaves_eq behind
    rw [siftPieces_leaves, siftPieces_leaves, List.filterMap_append, List.filterMap_append,
      L.filterMap_blank c.pending_trivia, L.filterMap_blank d.pending_trivia] at leaves
    have same := leaves_injective leaves
    rw [c.discard_eq, d.discard_eq]
    simp only [siftPieces_append, leaves_blank L c.pending_trivia,
      leaves_blank L d.pending_trivia, siftPieces, Tree.sift, Tree.siftAll_leaves]
    simp only [List.nil_append] at same
    rw [same]
  · rw [c.discard_eq, d.discard_eq]
    exact .nil

/-- What a complaint says differs at most in the text of the next token. -/
theorem complains (complaint : Complaint) (kind : DiagnosticKind) :
    L.Reports ⟨kind, c.spanAhead, complaint.message ((c.due.take 1).flatMap Token.text), []⟩
      ⟨kind, d.spanAhead, complaint.message ((d.due.take 1).flatMap Token.text), []⟩ := by
  refine ⟨rfl, alike.spans, ?_, .nil⟩
  have solid := alike.solid
  cases complaint with
  | plain message => exact .inl rfl
  | quoting lead =>
    cases left : c.solid with
    | nil =>
      rw [left, List.forall₂_nil_left_iff] at solid
      left
      simp only [(Cursor.solid_nil left).1, (Cursor.solid_nil solid).1]
    | cons a rest =>
      rw [left, List.forall₂_cons_left_iff] at solid
      obtain ⟨b, rest', one, -, right⟩ := solid
      obtain ⟨tokens, due, here, -⟩ := Cursor.solid_cons left
      obtain ⟨tokens', due', there, -⟩ := Cursor.solid_cons right
      refine .inr ⟨lead, a, b, one, here.symm, there.symm, ?_, ?_⟩
      · simp [due]
      · simp [due']

theorem skip (complaint : Complaint) : L.Parallel (c.skip complaint) (d.skip complaint) := by
  have looked := alike.look 0 (.single TokenKind.endOfInput)
  apply looked.decide
  · intro _
    exact looked.cursor.quiet true
  · intro _
    have traced := looked.cursor.look 0 .empty
    have reported := traced.cursor.report
      (f := fun place => ⟨.unexpectedToken, place, complaint.message
        ((c.look 0 (.single TokenKind.endOfInput)).cursor.due.take 1 |>.flatMap Token.text), []⟩)
      (g := fun place => ⟨.unexpectedToken, place, complaint.message
        ((d.look 0 (.single TokenKind.endOfInput)).cursor.due.take 1 |>.flatMap Token.text), []⟩)
      (looked.cursor.complains complaint .unexpectedToken)
    exact traced.andThen (reported.andThen reported.cursor.discard)

theorem unclosed (what : String) {brace brace' : Span} (same : L.Spans brace brace') :
    L.Parallel (c.unclosed what brace) (d.unclosed what brace') := by
  have checked : L.Parallel (.check (c.kindAhead 0 = .endOfInput) .misplaced true c)
      (.check (d.kindAhead 0 = .endOfInput) .misplaced true d) := by
    exact ⟨rfl, rfl, .nil, alike⟩
  have reported := alike.report
    (f := fun place => ⟨.unclosedBlock, ⟨brace.start, place.stop⟩, "unclosed " ++ what,
      [⟨brace, "block opened here"⟩]⟩)
    (g := fun place => ⟨.unclosedBlock, ⟨brace'.start, place.stop⟩, "unclosed " ++ what,
      [⟨brace', "block opened here"⟩]⟩)
    ⟨rfl, ⟨same.1, alike.spans.2⟩, .inl rfl, .cons ⟨rfl, same⟩ .nil⟩
  exact checked.andThen (reported.andThen reported.cursor.gap)

theorem closeBlock (what : String) {brace brace' : Span} (same : L.Spans brace brace')
    (clear : (c.closeBlock what brace).faults = []) :
    L.Parallel (c.closeBlock what brace) (d.closeBlock what brace') := by
  unfold Cursor.closeBlock at clear ⊢
  rw [← alike.kindAhead 0]
  split
  · rename_i closing
    rw [if_pos closing] at clear
    exact alike.take _ _ clear
  · exact alike.unclosed what same

theorem block (what : String) {body : Cursor → Outcome}
    (inner : ∀ ⦃c d : Cursor⦄, L.Alike c d → (body c).faults = [] → (body d).faults = [] →
      L.Parallel (body c) (body d))
    (clear : (c.block what body).faults = []) (clear' : (d.block what body).faults = []) :
    L.Parallel (c.block what body) (d.block what body) := by
  obtain ⟨opened, filled, closed⟩ := Cursor.block_clear clear
  obtain ⟨-, filled', -⟩ := Cursor.block_clear clear'
  have opening := alike.take _ none opened
  have middle := inner opening.cursor filled filled'
  exact opening.andThen (middle.andThen (middle.cursor.closeBlock what alike.spans closed))

end Alike

end Likeness

namespace Production

variable {L : Likeness}

/-- Rounds of two loops go alike, however many each of them may have. -/
theorem rounds_parallel {round : Cursor → Outcome}
    (inner : ∀ ⦃c d : Cursor⦄, L.Alike c d → (round c).faults = [] → (round d).faults = [] →
      L.Parallel (round c) (round d))
    (limit limit' : List Token) {c d : Cursor} (alike : L.Alike c d)
    (clear : (rounds round limit c).faults = []) (clear' : (rounds round limit' d).faults = []) :
    L.Parallel (rounds round limit c) (rounds round limit' d) := by
  induction limit generalizing limit' c d with
  | nil =>
    have last := rounds_stalled clear
    have first := inner alike (rounds_clear clear) (rounds_clear clear')
    rw [rounds_eq clear']
    apply first.andThen
    rw [← first.answer, last]
    exact ⟨rfl, rfl, .nil, first.cursor⟩
  | cons token limit ih =>
    have next := rounds_eq clear'
    rw [next] at clear' ⊢
    obtain ⟨one, rest⟩ := Outcome.andThen_clear clear
    obtain ⟨one', rest'⟩ := Outcome.andThen_clear clear'
    have first := inner alike one one'
    apply first.decide
    · intro again
      rw [if_pos again] at rest
      rw [← first.answer, if_pos again] at rest'
      exact ih _ first.cursor rest rest'
    · intro _
      exact first.cursor.quiet true

def Steady (L : Likeness) (x : Production) : Prop :=
  ∀ ⦃c d : Cursor⦄, L.Alike c d → (x.run c).faults = [] → (x.run d).faults = [] →
    L.Parallel (x.run c) (x.run d)

theorem steady_seq {first second : Production} (one : first.Steady L) (two : second.Steady L) :
    (seq first second).Steady L := by
  intro c d alike clear clear'
  obtain ⟨started, rest⟩ := Outcome.andThen_clear clear
  obtain ⟨started', rest'⟩ := Outcome.andThen_clear clear'
  have start := one alike started started'
  exact start.andThen (two start.cursor rest rest')

theorem steady_branch {question yes no : Production} (asking : question.Steady L)
    (affirming : yes.Steady L) (denying : no.Steady L) : (branch question yes no).Steady L := by
  intro c d alike clear clear'
  obtain ⟨asked, rest⟩ := Outcome.andThen_clear clear
  obtain ⟨asked', rest'⟩ := Outcome.andThen_clear clear'
  have question := asking alike asked asked'
  rw [← question.answer] at rest'
  apply question.decide
  · intro answer
    rw [if_pos answer] at rest rest'
    exact affirming question.cursor rest rest'
  · intro answer
    rw [if_neg answer] at rest rest'
    exact denying question.cursor rest rest'

theorem steady_answer (value : Bool) : (answer value).Steady L :=
  fun _ _ alike _ _ => alike.quiet value

theorem steady_wrap {first question rest : Production}
    (inner : (wrapped first question rest).Steady L) (yes no : NodeKind) :
    (wrap yes no first question rest).Steady L := by
  intro c d alike clear clear'
  have whole := inner alike clear clear'
  rw [run_wrap, run_wrap, ← whole.answer]
  exact whole.wrapped _

/-- Two runs of a production from cursors that are alike go alike, if both pass their checks. -/
theorem run_parallel (x : Production) : x.Steady L := by
  induction x using wrapped_induction with
  | answer value => exact steady_answer value
  | look n among => exact fun c d alike _ _ => alike.look n among
  | glance n among =>
    intro c d alike _ _
    rw [run, run, alike.kindAhead n]
    exact alike.quiet _
  | demand among =>
    intro c d alike _ _
    have looked := alike.look 0 among
    exact looked.andThen ⟨rfl, rfl, .nil, looked.cursor⟩
  | impossible => exact fun c d alike _ _ => alike.check _ _ _
  | take among => exact fun c d alike clear _ => alike.take among none clear
  | name => exact fun c d alike clear _ => alike.take .words (some .identifier) clear
  | pass => exact fun c d alike _ _ => alike.quiet true
  | settle => exact fun c d alike _ _ => alike.settle
  | within kind body ih => exact fun c d alike clear clear' => (ih alike clear clear').wrapped kind
  | into kind => exact fun c d alike _ _ => ⟨rfl, rfl, .nil, alike⟩
  | count opened => exact fun c d alike _ _ => alike.quiet true
  | scope body ih => exact fun c d alike clear clear' => (ih alike clear clear').closed
  | wrap yes no first question rest ih => exact steady_wrap ih yes no
  | seq first second first_ih second_ih => exact steady_seq first_ih second_ih
  | branch question yes no question_ih yes_ih no_ih =>
    exact steady_branch question_ih yes_ih no_ih
  | loop body ih =>
    exact fun c d alike clear clear' => rounds_parallel ih c.ahead d.ahead alike clear clear'
  | missing kind message => exact fun c d alike _ _ => alike.missing kind message
  | skip complaint => exact fun c d alike _ _ => alike.skip complaint
  | block what body ih => exact fun c d alike clear clear' => alike.block what ih clear clear'

end Production

end CraftDsl
