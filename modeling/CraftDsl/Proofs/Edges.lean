import CraftDsl.Proofs.Concatenation
import CraftDsl.Proofs.Conformity
import CraftDsl.Proofs.Fields.Lookup

/-!
The edges of nodes. Blanks and comments are put into the open node before the next one opens there, as
long as the next token has been looked at by then, so that no node begins with them or ends with them.
One kind of nodes opens early, right after a token. Main statements: `run_cropped`, `parse_cropped`.
-/
namespace CraftDsl

def NodeKind.opensEarly (kind : NodeKind) : Bool := kind = .deploymentSpec

def StartsSolid (tokens : List Token) : Prop := ∀ token ∈ tokens.head?, token.isTrivia = false

def EndsSolid (trees : List Tree) : Prop := ∀ t ∈ trees.getLast?, t.kind.isTrivia = false

/-- No node has a blank or comment as its last child, and but for those that open early none has one
as its first leaf. -/
def Tree.Cropped (t : Tree) : Prop :=
  t.Everywhere fun kind children =>
    (kind.opensEarly = false → StartsSolid (children.flatMap tokens)) ∧ EndsSolid children

theorem StartsSolid.left {first second : List Token} (solid : StartsSolid (first ++ second)) :
    StartsSolid first := by
  cases first with
  | nil => simp [StartsSolid]
  | cons token tokens => simpa [StartsSolid] using solid

/-- Leaves start as the tokens do that they carry. -/
theorem StartsSolid.carried {tokens leaves : List Token} (carried : List.Forall₂ Carried tokens leaves)
    {rest : List Token} (solid : StartsSolid (tokens ++ rest)) : StartsSolid (leaves ++ rest) := by
  cases carried with
  | nil => exact solid
  | cons one others => simpa [StartsSolid, one.trivia] using solid

theorem Cursor.due_startsSolid (c : Cursor) : StartsSolid c.due := by
  intro token first
  obtain ⟨tokens, due⟩ := List.head?_eq_some_iff.mp first
  exact (c.due_cons due).1

theorem Cursor.ahead_startsSolid {c : Cursor} (settled : c.pending = []) : StartsSolid c.ahead := by
  rw [c.ahead_eq, settled]
  exact c.due_startsSolid

/-- The last token of a skipped stretch is no blank: blanks belong to it only before a further token. -/
theorem stretch_last (depth : Nat) (first : Bool) (tokens : List Token) :
    ∀ token ∈ (tokens.take (stretch depth first 0 tokens)).getLast?, token.isTrivia = false := by
  induction depth, first, tokens using stretch_induction with
  | ended depth first blanks trivia => simp [stretch_trivia depth first trivia]
  | halts depth first blanks token tokens trivia solid stops =>
    simp [stretch_halts depth first tokens trivia solid stops]
  | goes_on depth first blanks token tokens trivia solid passes ih =>
    rw [stretch_goes_on depth first tokens trivia solid passes, List.take_length_add_append,
      List.take_succ_cons, List.append_cons, List.getLast?_append, List.getLast?_concat]
    intro last found
    rcases Option.or_eq_some_iff.mp found with later | ⟨-, same⟩
    · exact ih last later
    · cases same
      exact solid

/-- Finished trees are cropped, and where a node opens no blank or comment comes next among what
follows in it and the tokens that are left. -/
def CroppedPieces (rest : List Token) : List Piece → Prop
  | [] => True
  | .tree t :: pieces => t.Cropped ∧ CroppedPieces rest pieces
  | .opening _ :: pieces => StartsSolid (tokensOf pieces ++ rest) ∧ CroppedPieces rest pieces

def LastSolid (pieces : List Piece) : Prop :=
  ∀ t, Piece.tree t ∈ pieces.getLast? → t.kind.isTrivia = false

section

variable {rest : List Token} {first second pieces : List Piece}

theorem croppedPieces_append : CroppedPieces rest (first ++ second) ↔
    CroppedPieces (tokensOf second ++ rest) first ∧ CroppedPieces rest second := by
  induction first with
  | nil => simp [CroppedPieces]
  | cons piece first ih =>
    cases piece with
    | tree t => simp [CroppedPieces, ih, and_assoc]
    | opening kind => simp [CroppedPieces, ih, and_assoc]

theorem croppedPieces_trees (trees : List Tree) :
    CroppedPieces rest (trees.map .tree) ↔ ∀ t ∈ trees, t.Cropped := by
  induction trees with
  | nil => simp [CroppedPieces]
  | cons t trees ih => simp [CroppedPieces, ih]

theorem croppedPieces_leaves (tokens : List Token) : CroppedPieces rest (leaves tokens) := by
  induction tokens with
  | nil => trivial
  | cons token tokens ih => exact ⟨Tree.everywhere_leaf token, ih⟩

theorem CroppedPieces.carried {taken later : List Token} (carried : List.Forall₂ Carried taken later)
    (cropped : CroppedPieces (taken ++ rest) pieces) : CroppedPieces (later ++ rest) pieces := by
  induction pieces with
  | nil => trivial
  | cons piece pieces ih =>
    cases piece with
    | tree t => exact ⟨cropped.1, ih cropped.2⟩
    | opening kind =>
      refine ⟨?_, ih cropped.2⟩
      have opened := cropped.1
      rw [← List.append_assoc] at opened ⊢
      exact opened.carried (List.rel_append (carried_all _) carried)

theorem LastSolid.tail {piece : Piece} (solid : LastSolid (piece :: pieces)) : LastSolid pieces := by
  intro t last
  apply solid t
  rw [List.getLast?_cons, Option.mem_def.mp last]
  rfl

theorem lastSolid_append (one : LastSolid first) (two : LastSolid second) :
    LastSolid (first ++ second) := by
  intro t last
  rw [List.getLast?_append] at last
  rcases Option.or_eq_some_iff.mp last with later | ⟨-, earlier⟩
  · exact two t later
  · exact one t earlier

theorem lastSolid_of_ne_nil (some : second ≠ []) (two : LastSolid second) :
    LastSolid (first ++ second) := by
  intro t last
  rw [List.getLast?_append_of_ne_nil _ some] at last
  exact two t last

theorem lastSolid_trees {trees : List Tree} (solid : EndsSolid trees) :
    LastSolid (trees.map .tree) := by
  intro t last
  rw [List.getLast?_map] at last
  obtain ⟨u, found, same⟩ := Option.map_eq_some_iff.mp last
  exact Piece.tree.inj same ▸ solid u found

theorem LastSolid.closed (solid : LastSolid pieces) : EndsSolid (closePieces pieces) := by
  induction pieces with
  | nil => simp [EndsSolid, closePieces]
  | cons piece pieces ih =>
    have later := ih solid.tail
    cases piece with
    | tree t =>
      intro last found
      rw [show closePieces (.tree t :: pieces) = t :: closePieces pieces from rfl] at found
      cases closed : closePieces pieces with
      | nil =>
        cases pieces with
        | nil =>
          rw [closed] at found
          cases found
          exact solid t rfl
        | cons piece pieces => cases piece <;> cases closed
      | cons u us =>
        rw [closed, List.getLast?_cons_cons, ← closed] at found
        exact later last found
    | opening kind =>
      intro last found
      cases found
      rfl

theorem CroppedPieces.closed (cropped : CroppedPieces rest pieces) (solid : LastSolid pieces) :
    ∀ t ∈ closePieces pieces, t.Cropped := by
  induction pieces with
  | nil => exact List.forall_mem_nil _
  | cons piece pieces ih =>
    cases piece with
    | tree t => exact List.forall_mem_cons.mpr ⟨cropped.1, ih cropped.2 solid.tail⟩
    | opening kind =>
      have later := ih cropped.2 solid.tail
      have edges : StartsSolid ((closePieces pieces).flatMap Tree.tokens) := by
        rw [closePieces_tokens]
        exact cropped.1.left
      exact List.forall_mem_singleton.mpr
        (Tree.everywhere_node ⟨fun _ => edges, solid.tail.closed⟩ later)

end

/-- What is added is cropped, and no blank comes last. -/
structure Outcome.Cropped (o : Outcome) : Prop where
  inside : CroppedPieces o.cursor.ahead o.pieces
  last : LastSolid o.pieces

section

variable {c : Cursor} {o : Outcome}

theorem cropped_nothing (nothing : o.pieces = []) : o.Cropped := by
  constructor
  · rw [nothing]
    trivial
  · rw [nothing]
    exact nofun

theorem Outcome.Cropped.andThen {next : Bool → Cursor → Outcome} (first : o.Cropped)
    (second : (next o.answer o.cursor).Cropped) (spent : Spent o.cursor (next o.answer o.cursor))
    (clear : (next o.answer o.cursor).faults = []) : (o.andThen next).Cropped := by
  obtain ⟨taken, spends⟩ := spent
  have before := first.inside
  rw [spends.ahead] at before
  exact ⟨croppedPieces_append.mpr ⟨before.carried (spends.leaves clear), second.inside⟩,
    lastSolid_append first.last second.last⟩

theorem Outcome.Cropped.after {next : Bool → Cursor → Outcome} (nothing : o.pieces = [])
    (second : (next o.answer o.cursor).Cropped) : (o.andThen next).Cropped := by
  have same : (o.andThen next).pieces = (next o.answer o.cursor).pieces :=
    congrArg (· ++ (next o.answer o.cursor).pieces) nothing
  exact ⟨same ▸ second.inside, same ▸ second.last⟩

theorem Outcome.Cropped.wrapped (inner : o.Cropped) {kind : NodeKind}
    (starts : kind.opensEarly = false → StartsSolid (tokensOf o.pieces)) :
    (o.wrapped kind).Cropped := by
  constructor
  · refine ⟨Tree.everywhere_node ⟨?_, inner.last.closed⟩ (inner.inside.closed inner.last), trivial⟩
    rwa [closePieces_tokens]
  · intro t last
    cases last
    rfl

theorem Outcome.Cropped.closed (inner : o.Cropped) : o.closed.Cropped :=
  ⟨(croppedPieces_trees _).mpr (inner.inside.closed inner.last), lastSolid_trees inner.last.closed⟩

/-- Blanks and comments that go into the tree do not come last if something is added after them. -/
theorem Outcome.Cropped.settled {next : Bool → Cursor → Outcome}
    (after : (next c.settle.answer c.settle.cursor).Cropped)
    (some : (next c.settle.answer c.settle.cursor).pieces ≠ []) : (c.settle.andThen next).Cropped := by
  have blanks : c.settle.pieces = leaves c.pending := by rw [c.settle_eq]
  constructor
  · show CroppedPieces _ (c.settle.pieces ++ _)
    rw [blanks]
    exact croppedPieces_append.mpr ⟨croppedPieces_leaves _, after.inside⟩
  · exact lastSolid_of_ne_nil some after.last

theorem settle_pending (c : Cursor) : c.settle.cursor.pending = [] := by
  have settled := c.settle.cursor.settle_eq
  rw [c.settle_settled] at settled
  exact (List.map_eq_nil_iff.mp (congrArg Outcome.pieces settled).symm)

variable (c)

theorem take_cropped (among : KindSet) (retag : Option TokenKind)
    (solid : ∀ kind ∈ retag, kind.isTrivia = false) (clear : (c.take among retag).faults = []) :
    (c.take among retag).Cropped := by
  cases due : c.due with
  | nil => simp [Cursor.take, c.settle_eq, due, Outcome.andThen, Outcome.check] at clear
  | cons token tokens =>
    have kept : (retag.getD token.kind).isTrivia = false := by
      cases retag with
      | none => exact (c.due_cons due).1
      | some kind => exact solid kind rfl
    rw [c.take_eq among retag due]
    constructor
    · exact croppedPieces_append.mpr ⟨croppedPieces_leaves _, Tree.everywhere_leaf _, trivial⟩
    · refine lastSolid_of_ne_nil (List.cons_ne_nil _ _) ?_
      intro t last
      cases last
      exact kept

theorem gap_cropped : c.gap.Cropped := by
  refine Outcome.Cropped.settled ?_ (List.cons_ne_nil _ _)
  exact (cropped_nothing rfl).wrapped fun _ => nofun

theorem missing_cropped (kind : DiagnosticKind) (message : String) :
    (c.missing kind message).Cropped :=
  .after rfl (.after (Cursor.report_pieces _ _) (gap_cropped _))

theorem discard_cropped : c.discard.Cropped := by
  refine Outcome.Cropped.settled ?_ (List.cons_ne_nil _ _)
  set d := c.settle.cursor
  have added : ((d.trace.andThen fun _ c => (c.shift (stretch 0 true 0 c.ahead)).andThen fun _ c =>
      .quiet true { c with looks := 1 }).pieces) = leaves (d.ahead.take (stretch 0 true 0 d.ahead)) :=
    List.append_nil _
  refine Outcome.Cropped.wrapped ⟨?_, ?_⟩ fun _ => ?_
  · rw [added]
    exact croppedPieces_leaves _
  · rw [added, leaves]
    intro t last
    rw [List.getLast?_map] at last
    obtain ⟨token, found, same⟩ := Option.map_eq_some_iff.mp last
    cases same
    exact stretch_last 0 true d.ahead token found
  · rw [added, tokensOf_leaves]
    have solid := Cursor.ahead_startsSolid (settle_pending c)
    rw [← List.take_append_drop (stretch 0 true 0 d.ahead) c.settle.cursor.ahead] at solid
    exact solid.left

theorem skip_cropped (complaint : Complaint) : (c.skip complaint).Cropped := by
  refine .after rfl ?_
  split
  · exact cropped_nothing rfl
  · exact .after rfl (.after (Cursor.report_pieces _ _) (discard_cropped _))

theorem closeBlock_cropped (what : String) (brace : Span)
    (clear : (c.closeBlock what brace).faults = []) : (c.closeBlock what brace).Cropped := by
  unfold Cursor.closeBlock at clear ⊢
  split
  · rename_i brace
    rw [if_pos brace] at clear
    exact take_cropped c _ none nofun clear
  · exact .after rfl (.after (Cursor.report_pieces _ _) (gap_cropped _))

theorem rounds_cropped {round : Cursor → Outcome}
    (inner : ∀ c, (round c).faults = [] → (round c).Cropped) (spent : ∀ c, Spent c (round c))
    (limit : List Token) (clear : (Production.rounds round limit c).faults = []) :
    (Production.rounds round limit c).Cropped := by
  have whole := Production.rounds_induction (motive := fun c o => o.Cropped ∧ Spent c o) (fun _ => True)
    (fun _ _ _ => trivial) (fun c _ => ⟨cropped_nothing rfl, c.quiet_spent true⟩) ?_ limit trivial clear
  · exact whole.1
  · intro c rest _ one clear later
    exact ⟨(inner c one).andThen later.1 later.2 clear, (spent c).andThen later.2⟩

end

namespace Production

def isSettle : Production → Bool
  | settle => true
  | _ => false

/-- Whether all nodes open right after the blanks and comments ahead are put into the tree, those that
open early apart. `settled` says that there are none ahead, and that something is to be added. -/
def crops : Production → Bool → Bool
  | within kind body, settled => (settled || kind.opensEarly) && body.crops false
  | into _, settled => settled
  | wrap _ _ first question rest, settled =>
    settled && first.crops false && question.crops false && rest.crops false
  | settle, _ => false
  | seq first second, settled =>
    !settled && if first.isSettle then second.crops true else first.crops false && second.crops false
  | scope body, settled | loop body, settled | block _ body, settled => !settled && body.crops false
  | branch question yes no, settled =>
    !settled && question.crops false && yes.crops false && no.crops false
  | _, settled => !settled

theorem crops_adds {x : Production} (opens : x.crops true = true) (c : Cursor) :
    (x.run c).pieces ≠ [] := by
  cases x with
  | within | into | wrap => exact List.cons_ne_nil _ _
  | _ => simp [crops] at opens

theorem crops_seq {first second : Production} (first_opens : first.crops false = true)
    (second_opens : second.crops false = true) : (seq first second).crops false = true := by
  rw [crops]
  split
  · rename_i settles
    cases first with
    | settle => cases first_opens
    | _ => cases settles
  · rw [first_opens, second_opens]
    rfl

theorem run_startsSolid (x : Production) {c : Cursor} (settled : c.pending = [])
    (clear : (x.run c).faults = []) : StartsSolid (tokensOf (x.run c).pieces) := by
  obtain ⟨taken, spends⟩ := x.run_spent c
  have solid := Cursor.ahead_startsSolid settled
  rw [spends.ahead] at solid
  exact (solid.carried (spends.leaves clear)).left

/-- What a production adds is cropped if its nodes open in the right places. -/
theorem run_cropped (x : Production) {settled : Bool} (opens : x.crops settled = true) (c : Cursor)
    (ready : settled = true → c.pending = []) (clear : (x.run c).faults = []) :
    (x.run c).Cropped := by
  induction x using wrapped_induction generalizing settled c with
  | answer | look | glance | impossible | pass | count => exact cropped_nothing rfl
  | demand among => exact .after rfl (cropped_nothing rfl)
  | take among => exact take_cropped c among none nofun clear
  | name =>
    refine take_cropped c .words _ ?_ clear
    rintro _ ⟨⟩
    rfl
  | settle => cases opens
  | within kind body ih =>
    obtain ⟨placed, inside⟩ := Bool.and_eq_true_iff.mp opens
    refine (ih inside c nofun clear).wrapped fun late => ?_
    exact run_startsSolid body (ready (by simpa [late] using placed)) clear
  | into kind =>
    constructor
    · exact ⟨Cursor.ahead_startsSolid (ready opens), trivial⟩
    · intro t last
      cases last
  | scope body ih => exact (ih (Bool.and_eq_true_iff.mp opens).2 c nofun clear).closed
  | wrap yes no first question rest ih =>
    simp only [crops, Bool.and_eq_true] at opens
    obtain ⟨⟨⟨placed, first_opens⟩, question_opens⟩, rest_opens⟩ := opens
    have asked : (branch question (seq rest (answer true)) (answer false)).crops false = true := by
      rw [crops, question_opens, crops_seq rest_opens rfl]
      rfl
    have inside : (wrapped first question rest).crops false = true := crops_seq first_opens asked
    exact (ih inside c nofun clear).wrapped fun _ => run_startsSolid _ (ready placed) clear
  | seq first second first_ih second_ih =>
    obtain ⟨-, parts⟩ := Bool.and_eq_true_iff.mp opens
    obtain ⟨first_clear, second_clear⟩ := Outcome.andThen_clear clear
    split at parts
    · rename_i settles
      cases first with
      | settle =>
        exact .settled (second_ih parts _ (fun _ => settle_pending c) second_clear) (crops_adds parts _)
      | _ => cases settles
    · obtain ⟨first_opens, second_opens⟩ := Bool.and_eq_true_iff.mp parts
      exact (first_ih first_opens c nofun first_clear).andThen
        (second_ih second_opens _ nofun second_clear) (second.run_spent _) second_clear
  | branch question yes no question_ih yes_ih no_ih =>
    simp only [crops, Bool.and_eq_true] at opens
    obtain ⟨asked, ⟨rest, whole⟩ | ⟨rest, whole⟩⟩ := branch_cases clear
    all_goals
      rw [whole]
      have start := question_ih opens.1.1.2 c nofun asked
    · exact start.andThen (yes_ih opens.1.2 _ nofun rest) (yes.run_spent _) rest
    · exact start.andThen (no_ih opens.2 _ nofun rest) (no.run_spent _) rest
  | loop body ih =>
    have inside := (Bool.and_eq_true_iff.mp opens).2
    exact rounds_cropped c (fun c clear => ih inside c nofun clear) body.run_spent _ clear
  | missing kind message => exact missing_cropped c kind message
  | skip complaint => exact skip_cropped c complaint
  | block what body ih =>
    obtain ⟨brace_clear, rest⟩ := Outcome.andThen_clear clear
    obtain ⟨body_clear, close_clear⟩ := Outcome.andThen_clear rest
    have inside := ih (Bool.and_eq_true_iff.mp opens).2 _ nofun body_clear
    show ((c.take (.single TokenKind.braceOpen) none).andThen fun _ inner =>
      (body.run inner).andThen fun _ after => after.closeBlock what c.spanAhead).Cropped
    refine (take_cropped c _ none nofun brace_clear).andThen ?_ ?_ rest
    · exact inside.andThen (closeBlock_cropped _ what _ close_clear)
        (Cursor.closeBlock_spent _ what _) close_clear
    · exact (body.run_spent _).andThen (Cursor.closeBlock_spent _ what _)

end Production

theorem lap_crops : Production.lap.crops false = true := by decide +kernel

theorem parse_cropped (source : List Char) : ∀ t ∈ (parse source).tree.children, t.Cropped := by
  obtain ⟨trees, root, spelled⟩ := parse_spelled source
  set items := Production.rounds Production.lap.run (lex source) (.start (lex source)) with items_eq
  have whole : parsed (lex source) = (items.andThen fun _ c => c.settle).wrapped .sourceFile := rfl
  have clear : items.faults = [] := by
    have all : (items.andThen fun _ c => c.settle).faults = [] := parsed_clear source
    exact (Outcome.andThen_clear all).1
  have cropped : items.Cropped := rounds_cropped _
    (fun c clear => Production.run_cropped .lap lap_crops c nofun clear) Production.lap.run_spent _ clear
  have closed : openings items.pieces = 0 :=
    Production.rounds_sealed (Production.run_sealed _ Production.lap_sealed) _ _
  have held : trees = closePieces items.pieces ++ items.cursor.pending.map Tree.leaf := by
    rw [whole] at root
    have children := (Tree.node.inj (Piece.tree.inj (List.cons.inj root).1)).2
    have pieces : (items.andThen fun _ c => c.settle).pieces =
        (closePieces items.pieces ++ items.cursor.pending.map Tree.leaf).map .tree := by
      rw [List.map_append, ← eq_trees_of_openings _ closed, List.map_map, Outcome.andThen,
        Cursor.settle_eq]
      rfl
    rw [← children, pieces, closePieces_trees]
  rw [spelled, Tree.children, held]
  intro t member
  rcases List.mem_append.mp member with item | blank
  · exact cropped.inside.closed cropped.last t item
  · obtain ⟨token, -, rfl⟩ := List.mem_map.mp blank
    exact Tree.everywhere_leaf token

end CraftDsl
