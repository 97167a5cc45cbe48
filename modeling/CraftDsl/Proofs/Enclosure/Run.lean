import CraftDsl.Proofs.Enclosure.Steps
import CraftDsl.Proofs.Guard

/-!
Blocks close at their own brace. A node with an opening brace has the closing brace that the opening
one is matched with among all tokens, or, where there is none, an empty error node in its place; junk
in between and blocks without an end do not change that. Main statement: `braces_enclosed`.
-/
namespace CraftDsl

namespace Production

/-- How many blocks the production may add to the open node; two stand for too many, or for a brace
that is no part of a block. A block that is one of several nodes left open would not close with its
own node. -/
def blocks : Production → Nat
  | take among => if among.has TokenKind.braceOpen || among.has TokenKind.braceClose then 2 else 0
  | within _ body => if body.blocks = 0 || (body.blocks = 1 && body.isSealed) then 0 else 2
  | scope body | loop body => 2 * body.blocks
  | wrap _ _ first question rest =>
    2 * (first.blocks + question.blocks + rest.blocks)
  | seq first second => first.blocks + second.blocks
  | branch question yes no => question.blocks + max yes.blocks no.blocks
  | block _ body => if body.blocks = 0 then 1 else 2
  | _ => 0

theorem plain_of_has {among : KindSet} {kind : TokenKind} (member : among.has kind = true)
    (opens : among.has TokenKind.braceOpen = false) (closes : among.has TokenKind.braceClose = false) :
    kind.isBrace = false := by
  cases kind with
  | braceOpen => exact Bool.noConfusion (member.symm.trans opens)
  | braceClose => exact Bool.noConfusion (member.symm.trans closes)
  | _ => rfl

theorem plain_word {kind : TokenKind} (word : KindSet.words.has kind = true) : kind.isBrace = false :=
  plain_of_has word (by decide) (by decide)

def Pairing (pairs : List (Nat × Nat)) (left : List Nat) (x : Production) : Prop :=
  ∀ (inside : Bool) ⦃opened : List Nat⦄ ⦃c : Cursor⦄, inside = true ∨ opened = [] →
    Level pairs left opened c → (∀ token ∈ c.ahead, token.kind ≠ .endOfInput) → x.blocks ≤ 1 →
      ((x.guard inside).run c).faults = [] →
        Kept pairs left opened x.blocks c ((x.guard inside).run c)

variable {pairs : List (Nat × Nat)} {left : List Nat}

theorem kept_mono {opened : List Nat} {blocks blocks' : Nat} {c : Cursor} {o : Outcome}
    (kept : Kept pairs left opened blocks c o) (more : blocks ≤ blocks') :
    Kept pairs left opened blocks' c o :=
  ⟨kept.level, kept.enclosed, kept.paired, fun none => kept.bare (by omega)⟩

theorem pairing_seq {first second : Production} (one : first.Pairing pairs left)
    (two : second.Pairing pairs left) : (seq first second).Pairing pairs left := by
  intro inside opened c ground level solid few clear
  obtain ⟨started, rest⟩ := Outcome.andThen_clear clear
  change first.blocks + second.blocks ≤ 1 at few
  have start := one inside ground level solid (by omega) started
  have spent := (first.guard inside).run_spent c
  exact start.andThen spent started
    (two inside ground start.level (fun t member => solid t (spent.subset member)) (by omega) rest)
    few

theorem pairing_branch {question yes no : Production} (asking : question.Pairing pairs left)
    (affirming : yes.Pairing pairs left) (denying : no.Pairing pairs left) :
    (branch question yes no).Pairing pairs left := by
  intro inside opened c ground level solid few clear
  have whole : (branch question yes no).guard inside =
      branch (question.guard inside) (yes.guard inside) (no.guard inside) := rfl
  rw [whole] at clear ⊢
  obtain ⟨asked, later⟩ := branch_cases clear
  change question.blocks + max yes.blocks no.blocks ≤ 1 at few
  have start := asking inside ground level solid (by omega) asked
  have spent := (question.guard inside).run_spent c
  have onward := fun t member => solid t (spent.subset member)
  rcases later with ⟨rest, whole⟩ | ⟨rest, whole⟩
  · rw [whole]
    have last := affirming inside ground start.level onward (by omega) rest
    exact start.andThen spent asked (kept_mono last (by omega)) few
  · rw [whole]
    have last := denying inside ground start.level onward (by omega) rest
    exact start.andThen spent asked (kept_mono last (by omega)) few

theorem pairing_answer (value : Bool) : (answer value).Pairing pairs left :=
  fun _ _ _ _ level _ _ _ => kept_silent level rfl

theorem pairing_sight {inside : Bool} {opened : List Nat} {c : Cursor} {x : Production}
    {n before blocks : Nat}
    (plain : Kept pairs left opened blocks c (x.run c))
    (clear : ((sight inside n before x).run c).faults = []) :
    Kept pairs left opened blocks c ((sight inside n before x).run c) := by
  rw [(sight_run clear).1]
  exact plain

theorem pairing_rounds {round : Cursor → Outcome} {opened : List Nat}
    (spent : ∀ c, Spent c (round c))
    (inner : ∀ ⦃c : Cursor⦄, Level pairs left opened c →
      (∀ token ∈ c.ahead, token.kind ≠ .endOfInput) → (round c).faults = [] →
        Kept pairs left opened 0 c (round c)) (limit : List Token) {c : Cursor}
    (level : Level pairs left opened c) (solid : ∀ token ∈ c.ahead, token.kind ≠ .endOfInput)
    (clear : (rounds round limit c).faults = []) :
    Kept pairs left opened 0 c (rounds round limit c) := by
  refine rounds_induction
    (fun c => Level pairs left opened c ∧ ∀ token ∈ c.ahead, token.kind ≠ .endOfInput)
    (motive := Kept pairs left opened 0) ?_ ?_ ?_ limit ⟨level, solid⟩ clear
  · intro c ⟨level, solid⟩ one
    exact ⟨(inner level solid one).level, fun t member => solid t ((spent c).subset member)⟩
  · exact fun c ⟨level, _⟩ => kept_silent level rfl
  · exact fun c _ ⟨level, solid⟩ one _ later => (inner level solid one).onward (spent c) one later

theorem pairing_take (among : KindSet) : (take among).Pairing pairs left := by
  intro inside opened c _ level _ few clear
  have bare : (among.has TokenKind.braceOpen || among.has TokenKind.braceClose) = false := by
    by_contra some
    have two : (take among).blocks = 2 := if_pos ((Bool.not_eq_false _).mp some)
    omega
  obtain ⟨opens, closes⟩ := Bool.or_eq_false_iff.mp bare
  have kept := kept_take level among none (fun _ member =>
    ⟨plain_of_has member opens closes, plain_of_has member opens closes⟩) clear
  exact kept_mono kept (Nat.zero_le _)

theorem pairing_name : name.Pairing pairs left :=
  fun _ _ _ _ level _ _ clear =>
    kept_take level .words (some .identifier) (fun _ word => ⟨plain_word word, rfl⟩) clear

theorem pairing_within (kind : NodeKind) {body : Production} (inner : body.Pairing pairs left) :
    (within kind body).Pairing pairs left := by
  intro inside opened c ground level solid few clear
  have single : (body.blocks = 0 || (body.blocks = 1 && body.isSealed)) = true := by
    by_contra more
    have two : (within kind body).blocks = 2 := if_neg more
    omega
  have closed : body.blocks = 0 ∨ body.blocks = 1 ∧ body.isSealed = true := by
    simpa using single
  have none : (within kind body).blocks = 0 := if_pos single
  rw [none]
  apply (inner inside ground level solid (by omega) clear).wrapped
  rcases closed with none | ⟨-, closed⟩
  · exact .inl none
  · exact .inr (run_sealed _ ((guard_isSealed body inside).trans closed) c)

theorem pairing_scope {body : Production} (inner : body.Pairing pairs left) :
    (scope body).Pairing pairs left := by
  intro inside opened c ground level solid few clear
  change 2 * body.blocks ≤ 1 at few
  have none : body.blocks = 0 := by omega
  have kept := inner inside ground level solid (by omega) clear
  rw [none] at kept
  exact kept_mono kept.closed (Nat.zero_le _)

theorem pairing_wrap (affirmed denied : NodeKind) {first question rest : Production}
    (inner : (wrapped first question rest).Pairing pairs left) :
    (wrap affirmed denied first question rest).Pairing pairs left := by
  intro inside opened c ground level solid few clear
  change 2 * (first.blocks + question.blocks + rest.blocks) ≤ 1 at few
  have none : (wrapped first question rest).blocks = 0 := by
    show first.blocks + (question.blocks + max (rest.blocks + 0) 0) = 0
    omega
  have kept := inner inside ground level solid (none ▸ Nat.zero_le 1) clear
  show Kept _ _ _ _ _ ((wrap affirmed denied (first.guard inside) (question.guard inside)
    (rest.guard inside)).run c)
  rw [run_wrap]
  exact kept_mono (kept.wrapped (.inl none)) (Nat.zero_le _)

theorem pairing_loop {body : Production} (inner : body.Pairing pairs left) :
    (loop body).Pairing pairs left := by
  intro inside opened c ground level solid few clear
  change 2 * body.blocks ≤ 1 at few
  have none : body.blocks = 0 := by omega
  refine kept_mono ?_ (Nat.zero_le _)
  apply pairing_rounds (body.guard inside).run_spent _ c.ahead level solid clear
  intro d before further passed
  have one := inner inside ground before further (by omega) passed
  rwa [none] at one

theorem pairing_skip (complaint : Complaint) : (skip complaint).Pairing pairs left := by
  intro inside opened c ground level _ _ clear
  obtain ⟨here, same⟩ := away_run clear
  have whole : ((skip complaint).guard inside).run c = c.skip complaint := same
  rw [whole] at clear ⊢
  apply kept_skip level _ complaint clear
  -- Within a block its end is left for it, and outside of blocks no brace is open.
  rcases ground with rfl | outside
  · exact .inl here
  · exact .inr outside

theorem pairing_block (what : String) {body : Production} (inner : body.Pairing pairs left) :
    (block what body).Pairing pairs left := by
  intro inside opened c _ level solid few clear
  have none : body.blocks = 0 := by
    by_contra some
    have two : (block what body).blocks = 2 := if_neg some
    omega
  have one : (block what body).blocks = 1 := if_pos none
  rw [one]
  apply kept_block (body.guard true).run_spent _ level solid what clear
  intro opened c level solid filled
  have kept := inner true (.inl rfl) level solid (by omega) filled
  rwa [none] at kept

theorem run_paired (x : Production) : x.Pairing pairs left := by
  induction x using wrapped_induction with
  | answer value => exact pairing_answer value
  | look n among =>
    intro inside opened c _ level _ _ clear
    exact pairing_sight (kept_look level n among) clear
  | glance n among =>
    intro inside opened c _ level _ _ clear
    exact pairing_sight (kept_silent level rfl) clear
  | demand among => exact fun _ _ _ _ level _ _ _ => kept_silent level rfl
  | impossible => exact fun _ _ _ _ level _ _ _ => kept_silent level rfl
  | take among => exact pairing_take among
  | name => exact pairing_name
  | pass => exact fun _ _ _ _ level _ _ _ => kept_silent level rfl
  | settle => exact fun _ _ _ _ level _ _ _ => kept_settle level
  | within kind body ih => exact pairing_within kind ih
  | into kind =>
    intro inside opened c _ level _ _ _
    exact kept_bare level trivial fun _ member => nomatch member
  | count opened => exact fun _ _ _ _ level _ _ _ => kept_silent level rfl
  | scope body ih => exact pairing_scope ih
  | wrap yes no first question rest ih => exact pairing_wrap yes no ih
  | seq first second first_ih second_ih => exact pairing_seq first_ih second_ih
  | branch question yes no question_ih yes_ih no_ih =>
    exact pairing_branch question_ih yes_ih no_ih
  | loop body ih => exact pairing_loop ih
  | missing kind message =>
    exact fun _ _ _ _ level _ _ clear => kept_missing level kind message clear
  | skip complaint => exact pairing_skip complaint
  | block what body ih => exact pairing_block what ih

theorem sourceFile_blocks : sourceFile.blocks = 0 := by
  decide +kernel

end Production

theorem parse_enclosed (source : List Char) :
    Enclosed (bracePairs [] (Token.locate 0 (lex source)))
      (openBraces [] (Token.locate 0 (lex source))) 0 (parse source).tree := by
  obtain ⟨trees, root, spelled⟩ := parse_spelled source
  obtain ⟨clear, same⟩ := parsed_guarded source
  have level : Level (bracePairs [] (Token.locate 0 (lex source)))
      (openBraces [] (Token.locate 0 (lex source))) [] (.start (lex source)) :=
    .inl ⟨fun _ member => member, rfl⟩
  have few : Production.sourceFile.blocks ≤ 1 := Production.sourceFile_blocks ▸ Nat.zero_le 1
  have kept := Production.run_paired .sourceFile false (.inr rfl) level (lex_solid source) few clear
  have enclosed := kept.enclosed
  rw [same, root] at enclosed
  rw [spelled]
  exact enclosed.1

namespace Node

/-- Where the node has leaves of the kind among its children. -/
def own (n : Node) (kind : TokenKind) : List Nat :=
  (n.allChildren.filter fun m => m.kind = .token kind).map start

theorem place_placed (parent : Nat → Ancestor) (above : List Ancestor) (index start : Nat)
    (ts : List Tree) :
    (place parent above index start ts).map (fun m => (m.start, m.focus)) = placed start ts := by
  induction ts generalizing index start with
  | nil => rfl
  | cons t ts ih => exact congrArg (List.cons (start, t)) (ih _ _)

theorem allChildren_placed {n : Node} {kind : NodeKind} {children : List Tree}
    (focus : n.focus = .node kind children) :
    n.allChildren.map (fun m => (m.start, m.focus)) = placed n.start children := by
  obtain ⟨tree, start, above⟩ := n
  cases focus
  exact place_placed _ above 0 start children

theorem own_placed {n : Node} {kind : NodeKind} {children : List Tree}
    (focus : n.focus = .node kind children) (brace : TokenKind) :
    n.own brace = leavesOf brace (placed n.start children) := by
  rw [← allChildren_placed focus, leavesOf, List.filter_map, List.map_map]
  rfl

/-- The braces of a node: one opening brace at most, with its partner and no other closing brace, or
with an empty error node if it has no partner. -/
structure Encloses (n : Node) (pairs : List (Nat × Nat)) : Prop where
  single : (n.own .braceOpen).length ≤ 1
  paired : ∀ first ∈ n.own .braceOpen, ∀ second, (first, second) ∈ pairs →
    n.own .braceClose = [second]
  lone : ∀ first ∈ n.own .braceOpen, (∀ second, (first, second) ∉ pairs) →
    n.own .braceClose = [] ∧ ∃ m ∈ n.allChildren, m.kind = .node .error ∧ m.focus.width = 0
  closing : n.own .braceOpen = [] → n.own .braceClose = []

theorem encloses_of_paired {tokens : List Token} (wide : ∀ token ∈ tokens, 0 < token.width) {n : Node}
    {kind : NodeKind} {children : List Tree} (focus : n.focus = .node kind children)
    (paired : Paired (bracePairs [] (Token.locate 0 tokens)) (openBraces [] (Token.locate 0 tokens))
      (placed n.start children)) : n.Encloses (bracePairs [] (Token.locate 0 tokens)) := by
  have opens := own_placed focus .braceOpen
  have closes := own_placed focus .braceClose
  cases paired with
  | bare none =>
    rw [none.leaves rfl] at opens closes
    constructor
    · simp [opens]
    · simp [opens]
    · simp [opens]
    · exact fun _ => closes
  | closed first second opening closing pair =>
    rw [opening] at opens
    rw [closing] at closes
    refine ⟨by simp [opens], ?_, ?_, by simp [opens]⟩
    · intro brace member partner pair'
      rw [opens] at member
      rw [List.mem_singleton.mp member] at pair'
      rw [closes, bracePairs_unique wide pair pair']
    · intro brace member partnerless
      rw [opens] at member
      rw [List.mem_singleton.mp member] at partnerless
      exact absurd pair (partnerless second)
  | lone first opening closing unclosed error =>
    rw [opening] at opens
    rw [closing] at closes
    refine ⟨by simp [opens], ?_, ?_, by simp [opens]⟩
    · intro brace member partner pair
      rw [opens] at member
      rw [List.mem_singleton.mp member] at pair
      exact absurd pair (openBraces_lone wide unclosed)
    · intro brace member partnerless
      obtain ⟨place, inside⟩ := error
      rw [← allChildren_placed focus] at inside
      obtain ⟨m, child, same⟩ := List.mem_map.mp inside
      obtain ⟨-, empty⟩ := Prod.mk.inj same
      refine ⟨closes, m, child, ?_, ?_⟩
      · rw [Node.kind, empty]
        rfl
      · rw [empty]
        rfl

end Node

/-- Every node that is no error node closes at the partner of its own opening brace, whatever stands
in between, and no node has a closing brace only. -/
theorem braces_enclosed (source : List Char) {n : Node} (below : n ∈ (parse source).root.everything)
    (ordinary : n.kind ≠ .node .error) :
    n.Encloses (bracePairs [] (Token.locate 0 (lex source))) := by
  have enclosed := Node.everything_induction
    (motive := fun m => Enclosed (bracePairs [] (Token.locate 0 (lex source)))
      (openBraces [] (Token.locate 0 (lex source))) m.start m.focus)
    (parse source).root (parse_enclosed source)
    (by
      intro m _ inside child member
      obtain ⟨kind, before, after, focus, offset, -⟩ := Node.mem_allChildren member
      rw [focus] at inside
      rw [offset]
      exact (enclosedAll_append.mp inside.2).2.1)
    n below
  cases focus : n.focus with
  | leaf token =>
    have childless : n.allChildren = [] := by
      rw [Node.allChildren, focus]
    constructor <;> simp [Node.own, childless]
  | node kind children =>
    rw [focus] at enclosed
    apply Node.encloses_of_paired (lex_wide source) focus
    apply enclosed.1
    rintro rfl
    apply ordinary
    rw [Node.kind, focus]
    rfl

/-- A closing brace too many, and a block that junk with a brace of its own stands in. -/
def strayBraces : List Char := "\x7d\ndomain A \x7b\n : \x7b \n \x7d\n b\n".toList

theorem strayBraces_enclosed :
    ∃ n ∈ (parse strayBraces).root.everything, n.kind = .node .domainBlock ∧
      bracePairs [] (Token.locate 0 (lex strayBraces)) = [(16, 20)] ∧
      n.own .braceOpen = [11] ∧ n.own .braceClose = [] ∧
      n.Encloses (bracePairs [] (Token.locate 0 (lex strayBraces))) := by
  have found : (parse strayBraces).root.everything[4]?.map
      (fun n => (n.kind, n.own .braceOpen, n.own .braceClose)) =
        some (.node .domainBlock, [11], []) := by
    decide +kernel
  obtain ⟨n, place, same⟩ := Option.map_eq_some_iff.mp found
  obtain ⟨kind, opening, closing⟩ := Prod.mk.inj same |>.imp_right Prod.mk.inj
  have below := List.mem_of_getElem? place
  refine ⟨n, below, kind, by decide +kernel, opening, closing, ?_⟩
  exact braces_enclosed strayBraces below (by rw [kind]; decide)

end CraftDsl
