import CraftDsl.Proofs.Pieces

/-!
Plans. A plan gives some kinds of nodes their places: which of them may come next among the children of
a node. In a tree that keeps to a plan, a node with a place is a child of one, or of a node that starts
out as one of the plan does. Words that nodes begin with are told in the same way. Main statements:
`parse_planned`, `landmarks_node`, `parse_headed`.
-/
namespace CraftDsl

open CraftDsl.Tree

/-- Whatever is below a tree that passes does so too. -/
theorem Monitor.accepts_below {M : Monitor} {ahead : List Token} {t : Tree}
    (accepted : M.Accepts ahead t) : ∀ s ∈ t.subtrees, ∃ ahead, M.Accepts ahead s := by
  refine subtrees_induction ?_ t ⟨ahead, accepted⟩
  rintro kind children ⟨ahead, -, inside⟩ c member
  obtain ⟨before, after, rfl⟩ := List.append_of_mem member
  exact ⟨_, ((M.acceptsAll_append _ _ _).mp inside).2.1⟩

/-- A monitor that the production of a source passes the check for has seen every node of the tree
through. -/
theorem parse_walks {M : Monitor} {site : Site}
    (checked : (Production.sourceFile.foresee M false (.unknown site)).isSome = true)
    {source : List Char} (fair : M.Fair false (parsed (lex source))) {kind : NodeKind}
    {children : List Tree} (below : node kind children ∈ (parse source).tree.subtrees)
    (other : kind ≠ .error) : ∃ s, M.walk (M.start kind) children = some s := by
  obtain ⟨ahead, passes, -⟩ := Monitor.accepts_below (parse_accepts checked source fair) _ below
  obtain ⟨s, walked, -⟩ := passes other
  exact ⟨s, walked⟩

/-- Which kinds have a place, and the states of a node, told from its children: in which it starts,
which kinds with a place may come next and what state they lead to, and in which it may not end. Kinds
without a place may come anywhere, and hold none that has one. -/
structure Plan where
  places : NodeKind → Bool
  start : NodeKind → Nat
  onward : Nat → List (NodeKind × Nat)
  unfinished : List Nat
  bare : ∀ kind, places kind = false → onward (start kind) = [] ∧ start kind ∉ unfinished
  error : places .error = false

namespace Plan

variable (P : Plan)

def has : Kind → Bool
  | .node kind => P.places kind
  | .token _ => false

def monitor : Monitor where
  start := P.start
  step s kind :=
    match kind with
    | .node k =>
      if P.places k then ((P.onward s).find? fun move => move.1 = k).map Prod.snd else some s
    | .token _ => some s
  ends _ s := if P.unfinished.contains s then .empty else .anything
  strict := false

def parts (children : List Tree) : List Tree := children.filter fun c => P.has c.kind

/-- The children lead from one state to another, move by move. -/
inductive Leads : Nat → List Tree → Nat → Prop
  | nil (s : Nat) : Leads s [] s
  | cons {s middle after : Nat} {kind : NodeKind} {t : Tree} {ts : List Tree}
      (move : (kind, middle) ∈ P.onward s) (same : t.kind = .node kind)
      (rest : Leads middle ts after) : Leads s (t :: ts) after

def Kept (t : Tree) : Prop :=
  ∀ kind children, node kind children ∈ t.subtrees →
    ∃ after, P.Leads (P.start kind) (P.parts children) after ∧ after ∉ P.unfinished

variable {P}

theorem leads_of_walk {s after : Nat} {children : List Tree}
    (walked : P.monitor.walk s children = some after) : P.Leads s (P.parts children) after := by
  induction children generalizing s with
  | nil =>
    cases walked
    exact .nil _
  | cons t ts ih =>
    rw [Monitor.walk] at walked
    rw [parts, List.filter_cons]
    cases t with
    | leaf token =>
      have rest : P.monitor.walk s ts = some after := by
        revert walked
        split <;> exact id
      exact ih rest
    | node kind inner =>
      have solid : ¬ (node kind inner).kind.isTrivia = true := Bool.false_ne_true
      rw [if_neg solid] at walked
      obtain ⟨middle, stepped, rest⟩ := Option.bind_eq_some_iff.mp walked
      simp only [monitor, Tree.kind] at stepped
      by_cases placed : P.places kind = true
      · have there : P.has (node kind inner).kind = true := placed
        rw [if_pos placed] at stepped
        rw [if_pos there]
        obtain ⟨⟨next, onto⟩, found, rfl⟩ := Option.map_eq_some_iff.mp stepped
        have same := List.find?_some found
        obtain rfl : next = kind := of_decide_eq_true same
        exact .cons (List.mem_of_find?_eq_some found) rfl (ih rest)
      · have absent : ¬ P.has (node kind inner).kind = true := placed
        rw [if_neg placed] at stepped
        rw [if_neg absent]
        cases stepped
        exact ih rest

/-- A tree that passes the monitor, with error nodes that hold tokens only, keeps to the plan. -/
theorem kept_of_accepts {ahead : List Token} {t : Tree} (accepted : P.monitor.Accepts ahead t)
    (flat : t.Flat) : P.Kept t := by
  intro kind children below
  by_cases error : kind = .error
  · subst error
    obtain ⟨tokens, rfl⟩ := flat children below
    have nothing : P.parts (tokens.map leaf) = [] := by
      refine List.filter_eq_nil_iff.mpr fun c member => ?_
      obtain ⟨token, -, rfl⟩ := List.mem_map.mp member
      exact Bool.false_ne_true
    rw [nothing]
    exact ⟨_, .nil _, (P.bare .error P.error).2⟩
  · obtain ⟨ahead, accepted⟩ := Monitor.accepts_below accepted _ below
    obtain ⟨after, walked, ended⟩ := accepted.1 error
    refine ⟨after, leads_of_walk walked, fun unfinished => ?_⟩
    have nowhere : P.monitor.ends kind after = .empty :=
      if_pos (List.contains_iff_mem.mpr unfinished)
    rw [nowhere] at ended
    simp at ended

theorem parse_planned {outside : Nat}
    (checked : (Production.sourceFile.foresee P.monitor false (.unknown ⟨none, outside⟩)).isSome = true)
    (source : List Char) : P.Kept (parse source).tree :=
  kept_of_accepts (parse_accepts checked source Bool.noConfusion) (parse_flat source)

theorem Kept.below {s t : Tree} (kept : P.Kept t) (below : s ∈ t.subtrees) : P.Kept s :=
  fun kind children inside => kept kind children (subtrees_subset below inside)

theorem Kept.child {kind : NodeKind} {children : List Tree} (kept : P.Kept (node kind children))
    {c : Tree} (member : c ∈ children) : P.Kept c :=
  kept.below (mem_subtrees_child member)

theorem Kept.leads {kind : NodeKind} {children : List Tree} (kept : P.Kept (node kind children)) :
    ∃ after, P.Leads (P.start kind) (P.parts children) after ∧ after ∉ P.unfinished :=
  kept kind children (mem_subtrees_self _)

theorem mem_parts {children : List Tree} {c : Tree} (part : c ∈ P.parts children) : c ∈ children :=
  (List.mem_filter.mp part).1

theorem Kept.parts_bare {kind : NodeKind} {children : List Tree} (kept : P.Kept (node kind children))
    (absent : P.places kind = false) : P.parts children = [] := by
  obtain ⟨after, leads, -⟩ := kept.leads
  generalize P.parts children = parts at leads ⊢
  cases leads with
  | nil => rfl
  | cons move =>
    rw [(P.bare kind absent).1] at move
    cases move

section

variable {ts : List Tree} {s after : Nat}

theorem leads_none (nowhere : P.onward s = []) (leads : P.Leads s ts after) : ts = [] := by
  cases leads with
  | nil => rfl
  | cons move =>
    rw [nowhere] at move
    cases move

/-- Where nodes may come that nothing comes after, one at most does. -/
theorem leads_last (last : ∀ move ∈ P.onward s, P.onward move.2 = []) (leads : P.Leads s ts after) :
    ts = [] ∨ ∃ move ∈ P.onward s, ∃ inner, ts = [node move.1 inner] := by
  cases leads with
  | nil => exact .inl rfl
  | cons move same rest =>
    obtain ⟨inner, rfl⟩ := node_of_kind same
    exact .inr ⟨_, move, inner, by rw [leads_none (last _ move) rest]⟩

end

theorem parts_smaller {kind : NodeKind} {inner children : List Tree}
    (part : node kind inner ∈ P.parts children) : sizeOf inner < sizeOf children := by
  have smaller := List.sizeOf_lt_of_mem (mem_parts part)
  rw [node.sizeOf_spec] at smaller
  omega

variable (P)

def landmarks (t : Tree) : List Tree := t.subtrees.filter fun s => P.has s.kind

variable {P}

mutual

theorem landmarks_absent : (t : Tree) → P.Kept t → P.has t.kind = false → P.landmarks t = []
  | leaf _, _, _ => rfl
  | node kind children, kept, absent => by
    have nothing := kept.parts_bare absent
    rw [landmarks, subtrees_node, List.filter_cons, if_neg (Bool.eq_false_iff.mp absent),
      List.filter_flatMap]
    refine (landmarks_parts children fun c member => kept.child member).trans ?_
    rw [nothing]
    rfl

theorem landmarks_parts : (ts : List Tree) → (∀ t ∈ ts, P.Kept t) →
    ts.flatMap P.landmarks = (P.parts ts).flatMap P.landmarks
  | [], _ => rfl
  | t :: ts, kept => by
    obtain ⟨first, rest⟩ := List.forall_mem_cons.mp kept
    rw [List.flatMap_cons, landmarks_parts ts rest, parts, parts, List.filter_cons]
    split
    · rfl
    · rename_i absent
      rw [landmarks_absent t first (Bool.eq_false_iff.mpr absent), List.nil_append]

end

theorem Kept.landmarks_node {kind : NodeKind} {children : List Tree}
    (kept : P.Kept (node kind children)) (placed : P.places kind = true) :
    P.landmarks (node kind children) =
      node kind children :: (P.parts children).flatMap P.landmarks := by
  have here : P.has (node kind children).kind = true := placed
  rw [landmarks, subtrees_node, List.filter_cons, if_pos here, List.filter_flatMap,
    ← landmarks_parts children fun c member => kept.child member]
  rfl

/-- Below a tree with a place, trees of kinds that have one are found among its parts. -/
theorem Kept.listed_node {kind : NodeKind} {children : List Tree} {passes : Kind → Bool}
    (kept : P.Kept (node kind children)) (placed : P.places kind = true)
    (among : ∀ k, passes k = true → P.has k = true) :
    (node kind children).listed passes =
      (if passes (.node kind) then [node kind children] else []) ++
        (P.parts children).flatMap (Tree.listed passes) := by
  have marked (t : Tree) : t.listed passes = (P.landmarks t).filter fun s => passes s.kind := by
    simp only [Tree.listed, landmarks, List.filter_filter]
    refine List.filter_congr fun s _ => ?_
    by_cases passed : passes s.kind = true
    · simp [passed, among _ passed]
    · simp [passed]
  have below : (P.parts children).flatMap (Tree.listed passes) =
      ((P.parts children).flatMap P.landmarks).filter fun s => passes s.kind := by
    rw [List.filter_flatMap]
    exact List.flatMap_congr fun t _ => marked t
  have here : (node kind children).kind = .node kind := rfl
  rw [marked, kept.landmarks_node placed, List.filter_cons, below, here]
  by_cases passed : passes (.node kind) = true <;> simp [passed]

theorem child?_parts {kind : NodeKind} {children : List Tree} {passes : Kind → Bool}
    (placed : ∀ k, passes k = true → P.has k = true) :
    (node kind children).child? passes = (P.parts children).find? fun c => passes c.kind := by
  rw [parts, List.find?_filter]
  refine congrArg (fun p => children.find? p) (funext fun c => ?_)
  by_cases passed : passes c.kind = true
  · simp [passed, placed _ passed]
  · simp [passed]

theorem part?_parts {kind other : NodeKind} {children : List Tree} (placed : P.places other = true) :
    (node kind children).part? other = (P.parts children).find? fun c => c.kind = .node other := by
  refine child?_parts fun k same => ?_
  rw [of_decide_eq_true same]
  exact placed

end Plan

open CraftDsl.Tree

/-- What a node begins with, blanks and comments aside. -/
def Tree.heading? (t : Tree) : Option Kind := (t.child? fun kind => !kind.isTrivia).map Tree.kind

def Keyword.awaited (word : Keyword) : Nat := (Kind.token (.keyword word)).index + 1

def headed (word? : NodeKind → Option Keyword) : Monitor where
  start kind := ((word? kind).map Keyword.awaited).getD 0
  step s kind := if s = 0 ∨ s = kind.index + 1 then some 0 else none
  ends _ s := if s = 0 then .anything else .empty
  strict := false

theorem headed_walk {word? : NodeKind → Option Keyword} {word : Keyword} {children : List Tree}
    (walked : (headed word?).walk word.awaited children = some 0) :
    (children.find? fun c => !c.kind.isTrivia).map Tree.kind = some (.token (.keyword word)) := by
  induction children with
  | nil => cases walked
  | cons c children ih =>
    rw [Monitor.walk] at walked
    by_cases trivia : c.kind.isTrivia = true
    · rw [if_pos trivia] at walked
      simpa [trivia] using ih walked
    · rw [if_neg trivia] at walked
      obtain ⟨next, stepped, -⟩ := Option.bind_eq_some_iff.mp walked
      have index : c.kind.index = (Kind.token (.keyword word)).index := by
        simp only [headed, Keyword.awaited, Option.ite_none_right_eq_some] at stepped
        omega
      simpa [trivia] using Kind.index_inj.mp index

/-- If the production of a source passes the check, every node of a kind with a word begins with it. -/
theorem parse_headed {word? : NodeKind → Option Keyword}
    (checked : (Production.sourceFile.foresee (headed word?) false (.unknown ⟨none, 0⟩)).isSome = true)
    {source : List Char} {kind : NodeKind} {children : List Tree} {word : Keyword}
    (below : node kind children ∈ (parse source).tree.subtrees) (announced : word? kind = some word)
    (other : kind ≠ .error) : (node kind children).heading? = some (.token (.keyword word)) := by
  have accepted := parse_accepts checked source Bool.noConfusion
  obtain ⟨ahead, passes, -⟩ := Monitor.accepts_below accepted _ below
  obtain ⟨s, walked, ended⟩ := passes other
  have finished : s = 0 := by
    by_contra waiting
    simp [headed, waiting] at ended
  have start : (headed word?).start kind = word.awaited := by simp [headed, announced]
  rw [finished, start] at walked
  exact headed_walk walked

end CraftDsl
