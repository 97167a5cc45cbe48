import CraftDsl.Proofs.Foresight

/-!
When foresight comes true: the outcome fails no check, the nodes it finishes pass the monitor, and one
of the exits is reached. A strict monitor is told nothing of outcomes with an error node.
-/
namespace CraftDsl

def Cursor.Over (c : Cursor) : Prop := ∀ token ∈ c.ahead, token.isTrivia = true

namespace Outlook

/-- The outlook is right at the cursor; `bound` counts the tokens ahead at the beginning of a round. -/
structure Holds (s : Outlook) (bound : Nat) (c : Cursor) : Prop where
  first : s.first.has (c.kindAhead 0) = true
  second : s.second.has (c.kindAhead 1) = true
  looks : c.looks ≤ s.looks
  length : c.ahead.length ≤ bound
  moved : s.moved = true → c.ahead.length < bound
  solid : ∀ token ∈ c.ahead, token.kind ≠ .endOfInput

variable {s : Outlook} {bound : Nat} {c : Cursor}

theorem holds_le {t : Outlook} (below : s.le t = true) (holds : s.Holds bound c) :
    t.Holds bound c ∧ t.site = s.site := by
  simp only [le, Bool.and_eq_true, decide_eq_true_eq, Bool.or_eq_true, Bool.not_eq_true'] at below
  rcases below with ⟨⟨⟨⟨site, first⟩, second⟩, looks⟩, moved⟩
  constructor
  · constructor
    · exact KindSet.has_of_within first holds.first
    · exact KindSet.has_of_within second holds.second
    · exact holds.looks.trans looks
    · exact holds.length
    · intro known
      rcases moved with was | never
      · exact holds.moved was
      · simp [known] at never
    · exact holds.solid
  · exact site.symm

namespace Holds

theorem same {d : Cursor} (holds : s.Holds bound c) (ahead : d.ahead = c.ahead)
    (looks : d.looks = c.looks) : s.Holds bound d := by
  constructor
  · simpa only [Cursor.kindAhead, ahead] using holds.first
  · simpa only [Cursor.kindAhead, ahead] using holds.second
  · exact looks ▸ holds.looks
  · exact ahead ▸ holds.length
  · exact ahead ▸ holds.moved
  · exact ahead ▸ holds.solid

theorem rebound {least : Nat} (holds : s.Holds least c) (le : least ≤ bound) : s.Holds bound c := by
  constructor
  · exact holds.first
  · exact holds.second
  · exact holds.looks
  · exact holds.length.trans le
  · intro known
    exact (holds.moved known).trans_le le
  · exact holds.solid

theorem fresh (holds : s.Holds bound c) : Holds { s with moved := false } c.ahead.length c := by
  constructor
  · exact holds.first
  · exact holds.second
  · exact holds.looks
  · exact Nat.le_refl _
  · intro known
    exact Bool.noConfusion known
  · exact holds.solid

theorem carry {t : Outlook} {d : Cursor} (after : t.Holds c.ahead.length d) (holds : s.Holds bound c)
    (shrinks : d.ahead.length ≤ c.ahead.length) :
    Holds { t with moved := t.moved || s.moved } bound d := by
  constructor
  · exact after.first
  · exact after.second
  · exact after.looks
  · exact after.length.trans holds.length
  · intro known
    rcases Bool.or_eq_true_iff.mp known with now | before
    · exact (after.moved now).trans_le holds.length
    · exact shrinks.trans_lt (holds.moved before)
  · exact after.solid

theorem at_site (holds : s.Holds bound c) (site : Site) : Holds { s with site } bound c :=
  ⟨holds.first, holds.second, holds.looks, holds.length, holds.moved, holds.solid⟩

theorem due (holds : s.Holds bound c) (offset : Nat) :
    s.Holds bound { c with ahead := c.due, offset } := by
  constructor
  · exact (congrArg (fun kind : TokenKind => s.first.has kind) (c.kindAhead_due 0)).trans holds.first
  · exact (congrArg (fun kind : TokenKind => s.second.has kind) (c.kindAhead_due 1)).trans
      holds.second
  · exact holds.looks
  · exact c.due_length.trans holds.length
  · intro known
    exact c.due_length.trans_lt (holds.moved known)
  · intro token member
    exact holds.solid token (c.due_subset member)

theorem peek {t : Outlook} (holds : s.Holds bound c) (peeked : s.peek = some t) :
    c.looks < lookLimit ∧ t.Holds bound { c with looks := c.looks + 1 } ∧ t.site = s.site := by
  rw [Outlook.peek, Option.ite_none_right_eq_some] at peeked
  rcases peeked with ⟨allowed, found⟩
  cases found
  refine ⟨holds.looks.trans_lt allowed, ?_, rfl⟩
  exact ⟨holds.first, holds.second, Nat.succ_le_succ holds.looks, holds.length, holds.moved,
    holds.solid⟩

theorem withFirst (holds : s.Holds bound c) {first : KindSet}
    (member : first.has (c.kindAhead 0) = true) :
    { s with first } ∈ s.withFirst first ∧ Holds { s with first } bound c := by
  have inhabited : first ≠ .empty := by
    rintro rfl
    simp at member
  rw [Outlook.withFirst, if_neg inhabited]
  constructor
  · exact List.mem_singleton_self _
  · exact ⟨member, holds.second, holds.looks, holds.length, holds.moved, holds.solid⟩

theorem withSecond (holds : s.Holds bound c) {second : KindSet}
    (member : second.has (c.kindAhead 1) = true) :
    { s with second } ∈ s.withSecond second ∧ Holds { s with second } bound c := by
  have inhabited : second ≠ .empty := by
    rintro rfl
    simp at member
  rw [Outlook.withSecond, if_neg inhabited]
  constructor
  · exact List.mem_singleton_self _
  · exact ⟨holds.first, member, holds.looks, holds.length, holds.moved, holds.solid⟩

theorem ifFirst (holds : s.Holds bound c) {among : KindSet}
    {step : Outlook → Option (List Outlook)} {after : List Outlook}
    (member : among.has (c.kindAhead 0) = true) (stepped : s.ifFirst among step = some after) :
    step { s with first := s.first ∩ among } = some after ∧
      Holds { s with first := s.first ∩ among } bound c := by
  have both := KindSet.has_both holds.first member
  have inhabited : s.first ∩ among ≠ .empty := by
    intro nothing
    rw [nothing] at both
    simp at both
  rw [Outlook.ifFirst, if_neg inhabited] at stepped
  exact ⟨stepped, (holds.withFirst both).2⟩

theorem sight (holds : s.Holds bound c) (among : KindSet) (n : Nat) :
    (s.sight among n).Covers (fun t => t.Holds bound c ∧ t.site = s.site)
      (among.has (c.kindAhead n)) := by
  match n with
  | 0 =>
    cases found : among.has (c.kindAhead 0) with
    | true =>
      rcases holds.withFirst (KindSet.has_both holds.first found) with ⟨member, narrow⟩
      exact ⟨_, member, narrow, rfl⟩
    | false =>
      rcases holds.withFirst (KindSet.has_left holds.first found) with ⟨member, narrow⟩
      exact ⟨_, member, narrow, rfl⟩
  | 1 =>
    cases found : among.has (c.kindAhead 1) with
    | true =>
      rcases holds.withSecond (KindSet.has_both holds.second found) with ⟨member, narrow⟩
      exact ⟨_, member, narrow, rfl⟩
    | false =>
      rcases holds.withSecond (KindSet.has_left holds.second found) with ⟨member, narrow⟩
      exact ⟨_, member, narrow, rfl⟩
  | n + 2 => exact Exits.covers_both _ ⟨holds, rfl⟩

end Holds

end Outlook

namespace Monitor

variable (M : Monitor)

def Reaches (s : Outlook) (bound : Nat) (o : Outcome) (t : Outlook) : Prop :=
  t.Holds bound o.cursor ∧ M.grow s.site o.pieces = some t.site

theorem reaches_upward (s : Outlook) (bound : Nat) (o : Outcome) :
    Exits.Upward (M.Reaches s bound o) := by
  intro t u below reached
  rcases Outlook.holds_le below reached.1 with ⟨holds, site⟩
  exact ⟨holds, site ▸ reached.2⟩

/-- No check fails, the finished trees pass, and one of the exits is reached. -/
structure Foreseen (s : Outlook) (bound : Nat) (e : Exits Outlook) (c : Cursor) (o : Outcome) :
    Prop where
  clear : o.faults = []
  passes : M.Passes c.ahead o.pieces
  exits : e.Covers (M.Reaches s bound o) o.answer

variable {M} {s t : Outlook} {bound : Nat} {e f g : Exits Outlook} {c : Cursor} {o : Outcome}
  {next : Bool → Cursor → Outcome}

theorem Foreseen.widen (foreseen : M.Foreseen s bound e c o)
    (wider : ∀ holds answer, Exits.Upward holds → e.Covers holds answer → f.Covers holds answer) :
    M.Foreseen s bound f c o :=
  ⟨foreseen.clear, foreseen.passes, wider _ _ (M.reaches_upward s bound o) foreseen.exits⟩

/-- The exit of a step that has only one. -/
theorem Foreseen.reaches (foreseen : M.Foreseen s bound e c o)
    (single : ∀ u ∈ e.yes ++ e.no, u = t) : M.Reaches s bound o t := by
  rcases foreseen.exits with ⟨u, member, reached⟩
  rw [← single u (Exits.mem_append_of_after member)]
  exact reached

theorem Foreseen.any (foreseen : M.Foreseen s bound e c o) :
    ∃ t ∈ e.all, M.Reaches s bound o t :=
  (M.reaches_upward s bound o).all foreseen.exits

theorem rest_ahead (spent : Spent c o) (clear : o.faults = []) :
    c.ahead.drop (tokensOf o.pieces).length = o.cursor.ahead := by
  rcases spent with ⟨taken, spends⟩
  rw [spends.ahead, ← (spends.leaves clear).length_eq, List.drop_left]

theorem Foreseen.step (first : M.Foreseen s bound e c o) (spent : Spent c o)
    (exit : M.Reaches s bound o t)
    (second : M.Foreseen t bound f o.cursor (next o.answer o.cursor)) :
    M.Foreseen s bound f c (o.andThen next) := by
  constructor
  · show o.faults ++ (next o.answer o.cursor).faults = []
    rw [first.clear, second.clear, List.append_nil]
  · apply (M.passes_append c.ahead o.pieces _).mpr
    rw [rest_ahead spent first.clear]
    exact ⟨first.passes, second.passes⟩
  · rcases second.exits with ⟨u, member, holds, grown⟩
    refine ⟨u, member, holds, ?_⟩
    show M.grow s.site (o.pieces ++ (next o.answer o.cursor).pieces) = some u.site
    rw [M.grow_append, exit.2]
    exact grown

/-- A second step, from whichever exit of the first one is reached. -/
theorem Foreseen.andThen {step : Outlook → Option (Exits Outlook)} {states : List Outlook}
    (first : M.Foreseen s bound e c o) (spent : Spent c o)
    (onward : ∃ t ∈ states, M.Reaches s bound o t) (collected : Exits.collect step states = some f)
    (second : ∀ t g, step t = some g → t.Holds bound o.cursor →
      M.Foreseen t bound g o.cursor (next o.answer o.cursor)) :
    M.Foreseen s bound f c (o.andThen next) := by
  rcases onward with ⟨t, member, exit⟩
  rcases Exits.collect_covers collected member with ⟨g, stepped, wider⟩
  exact (first.step spent exit (second t g stepped exit.1)).widen wider

/-- A second step that depends on the answer of the first. -/
theorem Foreseen.decide {yes no : Cursor → Outcome}
    {yes_step no_step : Outlook → Option (Exits Outlook)}
    (first : M.Foreseen s bound e c o) (spent : Spent c o)
    (affirmed : Exits.collect yes_step e.yes = some f)
    (denied : Exits.collect no_step e.no = some g)
    (yes_next : o.answer = true → ∀ t h, yes_step t = some h → t.Holds bound o.cursor →
      M.Foreseen t bound h o.cursor (yes o.cursor))
    (no_next : o.answer = false → ∀ t h, no_step t = some h → t.Holds bound o.cursor →
      M.Foreseen t bound h o.cursor (no o.cursor)) :
    M.Foreseen s bound (f.union g) c
      (o.andThen fun answer c => if answer then yes c else no c) := by
  have exits := first.exits
  cases answer : o.answer with
  | true =>
    rw [answer] at exits
    refine (first.andThen spent exits affirmed ?_).widen ?_
    · simpa only [answer, if_true] using yes_next answer
    · intro held given upward covers
      exact upward.union (.inl covers)
  | false =>
    rw [answer] at exits
    refine (first.andThen spent exits denied ?_).widen ?_
    · simpa only [answer, Bool.false_eq_true, if_false] using no_next answer
    · intro held given upward covers
      exact upward.union (.inr covers)

/-- Whether a monitor is told of the outcome: if it is strict there is no error node, and in a block
the input does not end. -/
def Fair (M : Monitor) (inside : Bool) (o : Outcome) : Prop :=
  M.strict = true → NodeKind.error ∉ kindsOf o.pieces ∧ (inside = true → ¬ o.cursor.Over)

namespace Fair

variable {inside : Bool}

theorem first (fair : M.Fair inside (o.andThen next))
    (spent : Spent o.cursor (next o.answer o.cursor)) : M.Fair inside o := by
  intro strict
  rcases fair strict with ⟨clean, open_end⟩
  constructor
  · intro member
    apply clean
    show _ ∈ kindsOf (o.pieces ++ (next o.answer o.cursor).pieces)
    rw [kindsOf_append]
    exact List.mem_append_left _ member
  · intro block at_end
    apply open_end block
    intro token member
    exact at_end token (spent.subset member)

theorem second (fair : M.Fair inside (o.andThen next)) :
    M.Fair inside (next o.answer o.cursor) := by
  intro strict
  rcases fair strict with ⟨clean, open_end⟩
  constructor
  · intro member
    apply clean
    show _ ∈ kindsOf (o.pieces ++ (next o.answer o.cursor).pieces)
    rw [kindsOf_append]
    exact List.mem_append_right _ member
  · exact open_end

theorem wrapped {kind : NodeKind} (fair : M.Fair inside (o.wrapped kind)) : M.Fair inside o := by
  intro strict
  rcases fair strict with ⟨clean, open_end⟩
  constructor
  · intro member
    apply clean
    have kinds : kindsOf (o.wrapped kind).pieces = kind :: kindsOf o.pieces := by
      rw [← closePieces_kinds o.pieces]
      exact List.append_nil _
    rw [kinds]
    exact List.mem_cons_of_mem _ member
  · exact open_end

theorem closed (fair : M.Fair inside o.closed) : M.Fair inside o := by
  intro strict
  rcases fair strict with ⟨clean, open_end⟩
  constructor
  · intro member
    apply clean
    rw [Outcome.closed, kindsOf_trees, closePieces_kinds]
    exact member
  · exact open_end

end Fair

theorem error_among (tokens : List Token) (children : List Tree) :
    NodeKind.error ∈ kindsOf (leaves tokens ++ [.tree (.node .error children)]) := by
  rw [kindsOf_append]
  exact List.mem_append_right _ List.mem_cons_self

/-- A block without an error node ends at its closing brace, so its body does not end the input. -/
theorem Fair.block {inside : Bool} {what : String} {brace : Span}
    (fair : M.Fair inside (o.andThen fun _ c => c.closeBlock what brace)) : M.Fair true o := by
  intro strict
  have start := fair.first (o.cursor.closeBlock_spent what brace)
  constructor
  · exact (start strict).1
  · intro _ at_end
    have ended : o.cursor.kindAhead 0 ≠ .braceClose := by
      rw [Cursor.kindAhead, kindIn_trivia 0 at_end]
      decide
    have clean := (fair.second strict).1
    rw [Cursor.closeBlock, if_neg ended] at clean
    apply clean
    simp only [Cursor.unclosed, Outcome.andThen, kindsOf_append, Cursor.gap_eq]
    apply List.mem_append_right
    apply List.mem_append_right
    rw [← kindsOf_append]
    exact error_among _ _

end Monitor

end CraftDsl
