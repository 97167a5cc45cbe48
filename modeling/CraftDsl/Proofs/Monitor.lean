import CraftDsl.Proofs.Contents

/-!
Monitors. A monitor watches the children of every node from left to right, blanks and comments left
out, and says what may come after the node. Trees that are built piece by piece, with nodes that stay
open for a while, are watched as they grow.
-/
namespace CraftDsl

namespace KindSet

def anything : KindSet := ofList (TokenKind.all.map Kind.token)

def within (s t : KindSet) : Bool := s ∩ t == s

theorem has_anything (kind : TokenKind) : anything.has kind = true := by
  rw [anything, has_ofList, List.contains_iff_mem]
  exact List.mem_map_of_mem (List.mem_of_getElem? kind.all_index)

theorem has_of_within {s t : KindSet} (within : s.within t = true) {kind : Kind}
    (member : s.has kind = true) : t.has kind = true := by
  have same : s ∩ t = s := eq_of_beq within
  have both : (s ∩ t).has kind = true := by rw [same, member]
  exact (Bool.and_eq_true_iff.mp ((has_inter s t kind).symm.trans both)).2

theorem within_self (s : KindSet) : s.within s = true :=
  beq_iff_eq.mpr (congrArg KindSet.mk (Nat.and_self s.bits))

theorem within_union_left (s t : KindSet) : s.within (s ∪ t) = true := by
  have bits : s.bits &&& (s.bits ||| t.bits) = s.bits := by
    apply Nat.eq_of_testBit_eq
    intro place
    rw [Nat.testBit_and, Nat.testBit_or]
    cases s.bits.testBit place <;> rfl
  exact beq_iff_eq.mpr (congrArg KindSet.mk bits)

theorem within_union_right (s t : KindSet) : t.within (s ∪ t) = true := by
  have swapped : s ∪ t = t ∪ s := congrArg KindSet.mk (Nat.or_comm s.bits t.bits)
  rw [swapped]
  exact within_union_left t s

def pick (bits : Nat) : List TokenKind → List TokenKind
  | [] => []
  | kind :: kinds =>
    if bits = 0 then []
    else if bits % 2 = 1 then kind :: pick (bits / 2) kinds
    else pick (bits / 2) kinds

theorem mem_pick {bits place : Nat} {kinds : List TokenKind} {kind : TokenKind}
    (set : bits.testBit place = true) (found : kinds[place]? = some kind) :
    kind ∈ pick bits kinds := by
  induction kinds generalizing bits place with
  | nil => simp at found
  | cons first kinds ih =>
    have some_bit : bits ≠ 0 := by
      rintro rfl
      simp at set
    rw [pick, if_neg some_bit]
    cases place with
    | zero =>
      have odd : bits % 2 = 1 := by simpa [Nat.testBit_zero] using set
      have same : first = kind := by simpa using found
      rw [if_pos odd, same]
      exact List.mem_cons_self
    | succ place =>
      have later := ih (by rwa [← Nat.testBit_succ]) (by simpa using found)
      split
      · exact List.mem_cons_of_mem _ later
      · exact later

def tokens (s : KindSet) : List TokenKind := pick s.bits TokenKind.all

theorem mem_tokens {s : KindSet} {kind : TokenKind} (member : s.has kind = true) :
    kind ∈ s.tokens :=
  mem_pick member kind.all_index

end KindSet

/-- A state for each open node, and what may come next where a node ends in a state. A strict monitor
does not go on after an error node. -/
structure Monitor where
  start : NodeKind → Nat
  step : Nat → Kind → Option Nat
  ends : NodeKind → Nat → KindSet
  strict : Bool

/-- A place in a tree under construction: the innermost of the nodes opened for a scope with the state
of the node around all of them, and the state of the node that the next piece goes to. -/
structure Site where
  spine : Option (NodeKind × Nat)
  here : Nat
  deriving DecidableEq

def Site.around (site : Site) : Nat :=
  match site.spine with
  | none => site.here
  | some (_, outer) => outer

namespace Monitor

variable (M : Monitor)

def walk : Nat → List Tree → Option Nat
  | s, [] => some s
  | s, t :: ts => if t.kind.isTrivia then walk s ts else (M.step s t.kind).bind fun s => walk s ts

mutual

/-- Every node of a tree that begins at the tokens ahead passes: its children do from the state that
its kind starts in, and where it ends the next token may come. An error node may hold anything. -/
def Accepts (ahead : List Token) : Tree → Prop
  | .leaf _ => True
  | .node kind children =>
    (kind ≠ .error → ∃ s, M.walk (M.start kind) children = some s ∧
      (M.ends kind s).has (kindIn 0 (ahead.drop (children.flatMap Tree.tokens).length)) = true) ∧
    AcceptsAll ahead children

def AcceptsAll (ahead : List Token) : List Tree → Prop
  | [] => True
  | t :: ts => Accepts ahead t ∧ AcceptsAll (ahead.drop t.tokens.length) ts

end

def Passes : List Token → List Piece → Prop
  | _, [] => True
  | ahead, .tree t :: pieces => M.Accepts ahead t ∧ Passes (ahead.drop t.tokens.length) pieces
  | ahead, .opening _ :: pieces => Passes ahead pieces

theorem passes_append (ahead : List Token) (first second : List Piece) :
    M.Passes ahead (first ++ second) ↔
      M.Passes ahead first ∧ M.Passes (ahead.drop (tokensOf first).length) second := by
  induction first generalizing ahead with
  | nil => simp [Passes]
  | cons piece pieces ih =>
    cases piece with
    | tree t =>
      have length : (tokensOf (.tree t :: pieces)).length =
          t.tokens.length + (tokensOf pieces).length := List.length_append
      simp only [List.cons_append, Passes, ih, length, List.drop_drop, and_assoc]
    | opening kind => exact ih ahead

theorem passes_leaves (ahead tokens : List Token) : M.Passes ahead (leaves tokens) := by
  induction tokens generalizing ahead with
  | nil => trivial
  | cons token tokens ih => exact ⟨trivial, ih _⟩

theorem accepts_leaves (ahead tokens : List Token) : M.AcceptsAll ahead (tokens.map .leaf) := by
  induction tokens generalizing ahead with
  | nil => trivial
  | cons token tokens ih => exact ⟨trivial, ih _⟩

theorem acceptsAll_append (ahead : List Token) (first second : List Tree) :
    M.AcceptsAll ahead (first ++ second) ↔ M.AcceptsAll ahead first ∧
      M.AcceptsAll (ahead.drop (first.flatMap Tree.tokens).length) second := by
  induction first generalizing ahead with
  | nil => simp [AcceptsAll]
  | cons t ts ih =>
    simp only [List.cons_append, AcceptsAll, ih, List.flatMap_cons, List.length_append,
      List.drop_drop, and_assoc]

theorem accepts_error {ahead : List Token} {children : List Tree}
    (inside : M.AcceptsAll ahead children) : M.Accepts ahead (.node .error children) := by
  constructor
  · intro other
    exact absurd rfl other
  · exact inside

theorem passes_child (ahead tokens : List Token) {t : Tree}
    (accepted : M.Accepts (ahead.drop tokens.length) t) :
    M.Passes ahead (leaves tokens ++ [.tree t]) := by
  apply (M.passes_append _ _ _).mpr
  rw [tokensOf_leaves]
  exact ⟨M.passes_leaves ahead tokens, accepted, trivial⟩

theorem passes_trees (ahead : List Token) (trees : List Tree) :
    M.Passes ahead (trees.map Piece.tree) ↔ M.AcceptsAll ahead trees := by
  induction trees generalizing ahead with
  | nil => rfl
  | cons t ts ih =>
    rw [List.map_cons, Passes, AcceptsAll, ih]

def see (site : Site) (kind : Kind) : Option Site :=
  if kind.isTrivia then some site
  else (M.step site.here kind).map fun here => { site with here }

/-- A node opens. One that is open already ends where the new one does, so any token may come after
it. -/
def enter (site : Site) (kind : NodeKind) : Option Site :=
  (M.step site.here kind).bind fun after =>
    match site.spine with
    | none => some ⟨some (kind, after), M.start kind⟩
    | some (inner, outer) =>
      if KindSet.anything.within (M.ends inner after) then some ⟨some (kind, outer), M.start kind⟩
      else none

def grow : Site → List Piece → Option Site
  | site, [] => some site
  | site, .tree t :: pieces => (M.see site t.kind).bind fun site => grow site pieces
  | site, .opening kind :: pieces => (M.enter site kind).bind fun site => grow site pieces

theorem grow_append (site : Site) (first second : List Piece) :
    M.grow site (first ++ second) = (M.grow site first).bind fun after => M.grow after second := by
  induction first generalizing site with
  | nil => rfl
  | cons piece pieces ih =>
    cases piece with
    | tree t =>
      simp only [List.cons_append, grow, Option.bind_assoc, ih]
    | opening kind =>
      simp only [List.cons_append, grow, Option.bind_assoc, ih]

theorem grow_trivia (site : Site) (tokens : List Token)
    (trivia : ∀ token ∈ tokens, token.isTrivia = true) : M.grow site (leaves tokens) = some site := by
  induction tokens with
  | nil => rfl
  | cons token tokens ih =>
    have first : (Kind.token token.kind).isTrivia = true := trivia token List.mem_cons_self
    have rest := ih fun later member => trivia later (List.mem_cons_of_mem _ member)
    show (M.see site (.token token.kind)).bind (fun site => M.grow site (leaves tokens)) = some site
    rw [see, if_pos first]
    exact rest

theorem grow_child {site after : Site} {tokens : List Token} {t : Tree}
    (trivia : ∀ token ∈ tokens, token.isTrivia = true) (seen : M.see site t.kind = some after) :
    M.grow site (leaves tokens ++ [.tree t]) = some after := by
  rw [M.grow_append, M.grow_trivia site tokens trivia, Option.bind_some, grow, seen]
  rfl

theorem walk_cons (spine : Option (NodeKind × Nat)) (here : Nat) (t : Tree)
    (ts : List Tree) :
    M.walk here (t :: ts) =
      (M.see ⟨spine, here⟩ t.kind).bind fun site => M.walk site.here ts := by
  by_cases trivia : t.kind.isTrivia = true
  · simp only [walk, see, if_pos trivia, Option.bind_some]
  · simp only [walk, see, if_neg trivia, Option.bind_map, Function.comp_def]

variable {M}

theorem see_spine {site after : Site} {kind : Kind} (seen : M.see site kind = some after) :
    after = ⟨site.spine, after.here⟩ := by
  unfold see at seen
  split at seen
  · cases seen
    rfl
  · rcases Option.map_eq_some_iff.mp seen with ⟨here, -, rfl⟩
    rfl

theorem grow_trees (spine : Option (NodeKind × Nat)) {here after : Nat} (trees : List Tree)
    (walked : M.walk here trees = some after) :
    M.grow ⟨spine, here⟩ (trees.map Piece.tree) = some ⟨spine, after⟩ := by
  induction trees generalizing here with
  | nil =>
    cases walked
    rfl
  | cons t ts ih =>
    rw [M.walk_cons spine] at walked
    rcases Option.bind_eq_some_iff.mp walked with ⟨site, seen, walked⟩
    rw [List.map_cons, grow, seen, see_spine seen]
    exact ih walked

/-- The innermost open node may end before the token. -/
def Closes (site : Site) (next : TokenKind) : Prop :=
  ∀ opened ∈ site.spine, (M.ends opened.1 site.here).has next = true

/-- A node that closes passes if what it holds does. -/
theorem accepts_closed {pieces : List Piece} {ahead : List Token} {kind : NodeKind} {s : Nat}
    (accepted : M.AcceptsAll ahead (closePieces pieces))
    (walked : M.walk (M.start kind) (closePieces pieces) = some s)
    (ended : (M.ends kind s).has (kindIn 0 (ahead.drop (tokensOf pieces).length)) = true) :
    M.Accepts ahead (.node kind (closePieces pieces)) := by
  refine ⟨fun _ => ⟨s, walked, ?_⟩, accepted⟩
  rw [closePieces_tokens]
  exact ended

/-- Once the nodes that opened are closed, they pass, and so does what the first of them holds. -/
theorem grow_spine (pieces : List Piece) {ahead : List Token} {kind : NodeKind}
    {outer here : Nat} {after : Site}
    (grown : M.grow ⟨some (kind, outer), here⟩ pieces = some after)
    (passes : M.Passes ahead pieces)
    (closes : M.Closes after (kindIn 0 (ahead.drop (tokensOf pieces).length))) :
    after.around = outer ∧ M.AcceptsAll ahead (closePieces pieces) ∧
      ∃ s, M.walk here (closePieces pieces) = some s ∧
        (M.ends kind s).has (kindIn 0 (ahead.drop (tokensOf pieces).length)) = true := by
  induction pieces generalizing ahead kind outer here with
  | nil =>
    cases grown
    exact ⟨rfl, trivial, here, rfl, closes (kind, outer) rfl⟩
  | cons piece pieces ih =>
    cases piece with
    | tree t =>
      rcases Option.bind_eq_some_iff.mp grown with ⟨site, seen, grown⟩
      have length : (tokensOf (.tree t :: pieces)).length =
          t.tokens.length + (tokensOf pieces).length := List.length_append
      rw [length, ← List.drop_drop] at closes ⊢
      rw [see_spine seen] at grown
      rcases ih grown passes.2 closes with ⟨outside, accepted, s, walked, ended⟩
      refine ⟨outside, ⟨passes.1, accepted⟩, s, ?_, ended⟩
      show M.walk here (t :: closePieces pieces) = some s
      rw [M.walk_cons (some (kind, outer)), seen]
      exact walked
    | opening inner =>
      rcases Option.bind_eq_some_iff.mp grown with ⟨site, entered, grown⟩
      rcases Option.bind_eq_some_iff.mp entered with ⟨state, stepped, found⟩
      -- The node that opens here adopts everything after it.
      simp only [Option.ite_none_right_eq_some] at found
      rcases found with ⟨anywhere, found⟩
      cases found
      rcases ih grown passes closes with ⟨outside, accepted, s, walked, ended⟩
      refine ⟨outside, ⟨accepts_closed accepted walked ended, trivial⟩, state, ?_, ?_⟩
      · show M.walk here [.node inner (closePieces pieces)] = some state
        rw [M.walk_cons none, see]
        simp only [Tree.kind, Kind.isTrivia, stepped]
        rfl
      · exact KindSet.has_of_within anywhere (KindSet.has_anything _)

/-- Once the nodes that opened are closed, everything passes, with the state around them at the end. -/
theorem grow_closed (pieces : List Piece) {ahead : List Token} {here : Nat} {after : Site}
    (grown : M.grow ⟨none, here⟩ pieces = some after) (passes : M.Passes ahead pieces)
    (closes : M.Closes after (kindIn 0 (ahead.drop (tokensOf pieces).length))) :
    M.AcceptsAll ahead (closePieces pieces) ∧
      M.walk here (closePieces pieces) = some after.around := by
  induction pieces generalizing ahead here with
  | nil =>
    cases grown
    exact ⟨trivial, rfl⟩
  | cons piece pieces ih =>
    cases piece with
    | tree t =>
      rcases Option.bind_eq_some_iff.mp grown with ⟨site, seen, grown⟩
      have length : (tokensOf (.tree t :: pieces)).length =
          t.tokens.length + (tokensOf pieces).length := List.length_append
      rw [length, ← List.drop_drop] at closes
      rw [see_spine seen] at grown
      rcases ih grown passes.2 closes with ⟨accepted, walked⟩
      refine ⟨⟨passes.1, accepted⟩, ?_⟩
      show M.walk here (t :: closePieces pieces) = some after.around
      rw [M.walk_cons none, seen]
      exact walked
    | opening kind =>
      rcases Option.bind_eq_some_iff.mp grown with ⟨site, entered, grown⟩
      rcases Option.bind_eq_some_iff.mp entered with ⟨state, stepped, found⟩
      cases found
      rcases grow_spine pieces grown passes closes with ⟨outside, accepted, s, walked, ended⟩
      refine ⟨⟨accepts_closed accepted walked ended, trivial⟩, ?_⟩
      show M.walk here [.node kind (closePieces pieces)] = some after.around
      rw [M.walk_cons none, see, outside]
      simp only [Tree.kind, Kind.isTrivia, stepped]
      rfl

end Monitor

end CraftDsl
