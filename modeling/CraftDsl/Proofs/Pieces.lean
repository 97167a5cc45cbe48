import CraftDsl.Proofs.Agreement
import CraftDsl.Proofs.Subtrees

/-!
What holds of all that productions add, whatever they do it for. Some kinds of nodes are opened by
sequences of their own only, and what these add is told apart. As an instance, error nodes hold nothing
but tokens. Main statements: `run_pieces`, `parse_everywhere`, `parse_flat`.
-/
namespace CraftDsl

def Production.opensOnly (special : Production → Production → Bool) (free : NodeKind → Bool) :
    Production → Bool
  | within kind body => free kind && body.opensOnly special free
  | into kind => free kind
  | scope body | loop body | block _ body => body.opensOnly special free
  | wrap yes no first question rest =>
    free yes && free no && first.opensOnly special free && question.opensOnly special free &&
      rest.opensOnly special free
  | seq first second =>
    special first second || (first.opensOnly special free && second.opensOnly special free)
  | branch question yes no =>
    question.opensOnly special free && yes.opensOnly special free && no.opensOnly special free
  | _ => true

/-- A property of pieces that goes over to all that is built of them with nodes of free kinds. -/
structure Piecewise (free : NodeKind → Bool) (P : List Piece → Prop) : Prop where
  leaves : ∀ tokens, P (leaves tokens)
  error : ∀ tokens : List Token, P [.tree (.node .error (tokens.map .leaf))]
  opening : ∀ {kind : NodeKind}, free kind = true → P [.opening kind]
  append : ∀ {first second : List Piece}, P first → P second → P (first ++ second)
  node : ∀ {kind : NodeKind} {pieces : List Piece}, free kind = true → P pieces →
    P [.tree (.node kind (closePieces pieces))]
  closed : ∀ {pieces : List Piece}, P pieces → P ((closePieces pieces).map .tree)

section

variable {free : NodeKind → Bool} {P : List Piece → Prop} (piecewise : Piecewise free P) (c : Cursor)

include piecewise

theorem Piecewise.nil : P [] := piecewise.leaves []

theorem Piecewise.andThen {o : Outcome} {next : Bool → Cursor → Outcome} (first : P o.pieces)
    (second : P (next o.answer o.cursor).pieces) : P (o.andThen next).pieces :=
  piecewise.append first second

theorem take_pieces (among : KindSet) (retag : Option TokenKind) :
    P (c.take among retag).pieces := by
  have settled : P c.settle.pieces := piecewise.leaves _
  refine piecewise.andThen settled ?_
  split
  · exact piecewise.nil
  · exact piecewise.leaves [_]

theorem report_pieces (diagnostic : Span → Diagnostic) : P (c.report diagnostic).pieces := by
  simp only [Cursor.report]
  split <;> exact piecewise.nil

theorem gap_pieces : P c.gap.pieces := by
  rw [Cursor.gap_eq]
  exact piecewise.append (piecewise.leaves _) (piecewise.error [])

theorem missing_pieces (kind : DiagnosticKind) (message : String) :
    P (c.missing kind message).pieces :=
  piecewise.andThen piecewise.nil
    (piecewise.andThen (report_pieces piecewise _ _) (gap_pieces piecewise _))

theorem skip_pieces (complaint : Complaint) : P (c.skip complaint).pieces := by
  refine piecewise.andThen piecewise.nil ?_
  split
  · exact piecewise.nil
  · refine piecewise.andThen piecewise.nil (piecewise.andThen (report_pieces piecewise _ _) ?_)
    rw [Cursor.discard_eq]
    exact piecewise.append (piecewise.leaves _) (piecewise.error _)

theorem closeBlock_pieces (what : String) (brace : Span) : P (c.closeBlock what brace).pieces := by
  unfold Cursor.closeBlock
  split
  · exact take_pieces piecewise c _ _
  · exact piecewise.andThen piecewise.nil
      (piecewise.andThen (report_pieces piecewise _ _) (gap_pieces piecewise _))

theorem rounds_pieces {round : Cursor → Outcome}
    (inner : ∀ c, (round c).faults = [] → P (round c).pieces) (limit : List Token)
    (clear : (Production.rounds round limit c).faults = []) :
    P (Production.rounds round limit c).pieces := by
  apply Production.rounds_induction (motive := fun _ o => P o.pieces) (fun _ => True) _ _ _ limit
    trivial clear
  · exact fun _ _ _ => trivial
  · exact fun _ _ => piecewise.nil
  · exact fun c rest _ one _ later => piecewise.andThen (inner c one) later

/-- A property that goes over to all that is built of pieces, and holds of what special sequences add,
holds of what a production adds where it fails no check. -/
theorem run_pieces {special : Production → Production → Bool}
    (apart : ∀ {first second : Production} (c : Cursor), special first second = true →
      ((Production.seq first second).run c).faults = [] →
      P ((Production.seq first second).run c).pieces)
    (x : Production) (opens : x.opensOnly special free = true) (clear : (x.run c).faults = []) :
    P (x.run c).pieces := by
  induction x using Production.wrapped_induction generalizing c with
  | answer | look | glance | impossible | pass | count => exact piecewise.nil
  | demand among => exact piecewise.andThen piecewise.nil piecewise.nil
  | take among => exact take_pieces piecewise c among none
  | name => exact take_pieces piecewise c .words (some .identifier)
  | settle => exact piecewise.leaves _
  | within kind body ih =>
    obtain ⟨plain, inside⟩ := Bool.and_eq_true_iff.mp opens
    exact piecewise.node plain (ih c inside clear)
  | into kind => exact piecewise.opening opens
  | scope body ih => exact piecewise.closed (ih c opens clear)
  | wrap yes no first question rest ih =>
    simp only [Production.opensOnly, Bool.and_eq_true] at opens
    have inside : (Production.wrapped first question rest).opensOnly special free = true := by
      simp only [Production.wrapped, Production.opensOnly, opens, Bool.and_true, Bool.or_true]
    exact piecewise.node (by split <;> simp only [opens]) (ih c inside clear)
  | seq first second first_ih second_ih =>
    rcases Bool.or_eq_true_iff.mp opens with own | parts
    · exact apart c own clear
    · obtain ⟨first_opens, second_opens⟩ := Bool.and_eq_true_iff.mp parts
      obtain ⟨first_clear, second_clear⟩ := Outcome.andThen_clear clear
      exact piecewise.andThen (first_ih _ first_opens first_clear)
        (second_ih _ second_opens second_clear)
  | branch question yes no question_ih yes_ih no_ih =>
    simp only [Production.opensOnly, Bool.and_eq_true] at opens
    obtain ⟨asked, ⟨rest, whole⟩ | ⟨rest, whole⟩⟩ := Production.branch_cases clear
    all_goals
      rw [whole]
      apply piecewise.andThen (question_ih _ opens.1.1 asked)
    · exact yes_ih _ opens.1.2 rest
    · exact no_ih _ opens.2 rest
  | loop body ih => exact rounds_pieces piecewise c (fun c => ih c opens) _ clear
  | missing kind message => exact missing_pieces piecewise c kind message
  | skip complaint => exact skip_pieces piecewise c complaint
  | block what body ih =>
    obtain ⟨-, inside, -⟩ := Cursor.block_clear clear
    exact piecewise.andThen (take_pieces piecewise c _ none)
      (piecewise.andThen (ih _ opens inside) (closeBlock_pieces piecewise _ what _))

end

/-- All nodes of a tree are as `Q` says of their children. -/
def Tree.Everywhere (Q : NodeKind → List Tree → Prop) (t : Tree) : Prop :=
  ∀ kind children, node kind children ∈ t.subtrees → Q kind children

section

variable {Q : NodeKind → List Tree → Prop}

theorem Tree.everywhere_leaf (token : Token) : (leaf token).Everywhere Q := by
  intro kind children below
  cases List.mem_singleton.mp below

theorem Tree.everywhere_node {kind : NodeKind} {children : List Tree} (here : Q kind children)
    (inside : ∀ c ∈ children, c.Everywhere Q) : (node kind children).Everywhere Q := by
  intro other held below
  rw [subtrees_node] at below
  rcases List.mem_cons.mp below with same | under
  · obtain ⟨rfl, rfl⟩ := node.inj same
    exact here
  · obtain ⟨c, member, under⟩ := List.mem_flatMap.mp under
    exact inside c member other held under

theorem Tree.everywhere_leaves {kind : NodeKind} {tokens : List Token}
    (here : Q kind (tokens.map leaf)) : (node kind (tokens.map leaf)).Everywhere Q := by
  refine everywhere_node here fun c member => ?_
  obtain ⟨token, -, rfl⟩ := List.mem_map.mp member
  exact everywhere_leaf token

variable (Q) (free : NodeKind → Bool)

/-- Finished trees are as `Q` says, and open nodes of free kinds. -/
def EverywherePieces (pieces : List Piece) : Prop :=
  (∀ t, Piece.tree t ∈ pieces → t.Everywhere Q) ∧ ∀ kind, Piece.opening kind ∈ pieces → free kind = true

variable {Q} {free} (unbound : ∀ kind children, free kind = true → Q kind children)

include unbound in
theorem closePieces_everywhere {pieces : List Piece} (holds : EverywherePieces Q free pieces) :
    ∀ t ∈ closePieces pieces, t.Everywhere Q := by
  induction pieces with
  | nil => exact List.forall_mem_nil _
  | cons piece pieces ih =>
    have rest : ∀ t ∈ closePieces pieces, t.Everywhere Q :=
      ih ⟨fun t member => holds.1 t (List.mem_cons_of_mem _ member),
        fun kind member => holds.2 kind (List.mem_cons_of_mem _ member)⟩
    cases piece with
    | tree t => exact List.forall_mem_cons.mpr ⟨holds.1 t List.mem_cons_self, rest⟩
    | opening kind =>
      have plain := holds.2 kind List.mem_cons_self
      exact List.forall_mem_singleton.mpr (Tree.everywhere_node (unbound _ _ plain) rest)

theorem everywhere_trees {trees : List Tree} (holds : ∀ t ∈ trees, t.Everywhere Q) :
    EverywherePieces Q free (trees.map .tree) := by
  constructor
  · intro t member
    obtain ⟨u, inside, same⟩ := List.mem_map.mp member
    exact Piece.tree.inj same ▸ holds u inside
  · intro kind member
    obtain ⟨u, -, same⟩ := List.mem_map.mp member
    cases same

theorem everywhere_tokens (tokens : List Token) : EverywherePieces Q free (leaves tokens) := by
  have trees : leaves tokens = (tokens.map Tree.leaf).map .tree := (List.map_map ..).symm
  rw [trees]
  refine everywhere_trees fun t member => ?_
  obtain ⟨token, -, rfl⟩ := List.mem_map.mp member
  exact Tree.everywhere_leaf token

theorem everywhere_append {first second : List Piece} (one : EverywherePieces Q free first)
    (two : EverywherePieces Q free second) : EverywherePieces Q free (first ++ second) := by
  constructor
  · intro t member
    exact (List.mem_append.mp member).elim (one.1 t) (two.1 t)
  · intro kind member
    exact (List.mem_append.mp member).elim (one.2 kind) (two.2 kind)

include unbound in
theorem everywhere_piecewise (error : ∀ tokens : List Token, Q .error (tokens.map .leaf)) :
    Piecewise free (EverywherePieces Q free) where
  leaves := everywhere_tokens
  error tokens :=
    everywhere_trees (List.forall_mem_singleton.mpr (Tree.everywhere_leaves (error tokens)))
  opening plain := by
    constructor
    · intro t member
      cases List.mem_singleton.mp member
    · intro kind member
      cases List.mem_singleton.mp member
      exact plain
  append := everywhere_append
  node plain inside :=
    everywhere_trees (List.forall_mem_singleton.mpr
      (Tree.everywhere_node (unbound _ _ plain) (closePieces_everywhere unbound inside)))
  closed inside := everywhere_trees (closePieces_everywhere unbound inside)

include unbound in
/-- All nodes of a source are as `Q` says, if those are that special sequences open. -/
theorem parse_everywhere {special : Production → Production → Bool}
    (error : ∀ tokens : List Token, Q .error (tokens.map .leaf))
    (apart : ∀ {first second : Production} (c : Cursor), special first second = true →
      ((Production.seq first second).run c).faults = [] →
      EverywherePieces Q free ((Production.seq first second).run c).pieces)
    (opens : Production.sourceFile.opensOnly special free = true) (source : List Char) :
    (parse source).tree.Everywhere Q := by
  obtain ⟨trees, root, spelled⟩ := parse_spelled source
  have holds := run_pieces (everywhere_piecewise unbound error) (.start (lex source)) apart
    .sourceFile opens (parsed_clear source)
  have pieces : (Production.sourceFile.run (.start (lex source))).pieces =
      [.tree (.node .sourceFile trees)] := root
  rw [pieces] at holds
  rw [spelled]
  exact holds.1 _ List.mem_cons_self

end

def Tree.Flat (t : Tree) : Prop :=
  ∀ children, node .error children ∈ t.subtrees → ∃ tokens : List Token, children = tokens.map leaf

theorem sourceFile_opens :
    Production.sourceFile.opensOnly (fun _ _ => false) (fun kind => kind ≠ .error) = true := by
  decide +kernel

/-- The error nodes of a source hold tokens only. -/
theorem parse_flat (source : List Char) : (parse source).tree.Flat := by
  have flat : (parse source).tree.Everywhere fun kind children =>
      kind = .error → ∃ tokens : List Token, children = tokens.map .leaf := by
    refine parse_everywhere ?_ ?_ ?_ sourceFile_opens source
    · intro kind children ordinary error
      exact absurd error (of_decide_eq_true ordinary)
    · exact fun tokens _ => ⟨tokens, rfl⟩
    · exact fun _ special => Bool.noConfusion special
  exact fun children below => flat .error children below rfl

end CraftDsl
