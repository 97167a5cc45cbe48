import CraftDsl.Proofs.Braces
import CraftDsl.Proofs.Guard
import CraftDsl.Proofs.Losslessness
import CraftDsl.Proofs.Subtrees

/-!
What stays on its line. Nodes that fill a line or a part of one hold no newline, and an error node holds
one only between braces, with the end of a line or of a block after the node. Main statements:
`run_confined`, `nodes_confined`.
-/
namespace CraftDsl

/-- Nodes that fill a line or a part of one. -/
def NodeKind.isInline : NodeKind → Bool
  | .componentFlow | .componentWithModifiers | .componentName | .componentModifiers | .modifierList
  | .modifier | .modifierKey | .simpleComponent | .domainsProperty | .languageProperty
  | .dataStoresProperty | .deploymentProperty | .deploymentSpec | .deploymentType | .deploymentRules
  | .deploymentRule | .subdomain | .actorDefinition | .actorType | .actorName | .toProperty
  | .throughProperty | .ofProperty | .externalTrigger | .triggerActor | .triggerVerb | .eventTrigger
  | .domainListener | .cronTrigger | .syncAction | .asyncAction | .internalAction | .returnAction
  | .actionSubject | .actionTarget | .actionVerb | .connectorWord | .phrase | .identifierList
  | .boolean => true
  | _ => false

/-- Every newline comes where braces are open, `depth` of them before the first token. -/
def LinesEnclosed : Nat → List Token → Prop
  | _, [] => True
  | depth, token :: tokens =>
    (token.kind = .newline → depth ≠ 0) ∧ LinesEnclosed (depthAfter depth token.kind) tokens

/-- What a node holds and what comes after it, as it has to be for a node of the kind. -/
structure Confined (kind : NodeKind) (inside rest : List Token) : Prop where
  line : kind.isInline = true → ∀ token ∈ inside, token.kind ≠ .newline
  enclosed : kind = .error → LinesEnclosed 0 inside
  ends : kind = .error → inside ≠ [] → KindSet.lineEnd.has (kindIn 0 rest) = true

namespace Tree

mutual

def Confined (ahead : List Token) : Tree → Prop
  | leaf _ => True
  | node kind children =>
    CraftDsl.Confined kind (children.flatMap tokens) (ahead.drop (children.flatMap tokens).length) ∧
      ConfinedAll ahead children

def ConfinedAll (ahead : List Token) : List Tree → Prop
  | [] => True
  | t :: ts => Confined ahead t ∧ ConfinedAll (ahead.drop t.tokens.length) ts

end

end Tree

def ConfinedPieces : List Token → List Piece → Prop
  | _, [] => True
  | ahead, .tree t :: pieces => t.Confined ahead ∧ ConfinedPieces (ahead.drop t.tokens.length) pieces
  | ahead, .opening kind :: pieces =>
    (kind ≠ .error ∧ kind.isInline = false) ∧ ConfinedPieces ahead pieces

section

variable {ahead : List Token} {kind : NodeKind}

theorem confinedPieces_append {first second : List Piece} :
    ConfinedPieces ahead (first ++ second) ↔ ConfinedPieces ahead first ∧
      ConfinedPieces (ahead.drop (tokensOf first).length) second := by
  induction first generalizing ahead with
  | nil => simp [ConfinedPieces]
  | cons piece first ih =>
    cases piece with
    | tree t =>
      have length : (tokensOf (.tree t :: first)).length = t.tokens.length + (tokensOf first).length :=
        List.length_append
      simp only [List.cons_append, ConfinedPieces, ih, length, List.drop_drop, and_assoc]
    | opening kind =>
      have same : tokensOf (.opening kind :: first) = tokensOf first := rfl
      simp only [List.cons_append, ConfinedPieces, ih, same, and_assoc]

theorem confinedPieces_leaves (tokens : List Token) : ConfinedPieces ahead (leaves tokens) := by
  induction tokens generalizing ahead with
  | nil => trivial
  | cons token tokens ih => exact ⟨trivial, ih⟩

theorem confinedPieces_trees (trees : List Tree) :
    ConfinedPieces ahead (trees.map .tree) ↔ Tree.ConfinedAll ahead trees := by
  induction trees generalizing ahead with
  | nil => rfl
  | cons t trees ih => rw [List.map_cons, ConfinedPieces, Tree.ConfinedAll, ih]

theorem ConfinedPieces.closed {pieces : List Piece} (confined : ConfinedPieces ahead pieces) :
    Tree.ConfinedAll ahead (closePieces pieces) := by
  induction pieces generalizing ahead with
  | nil => trivial
  | cons piece pieces ih =>
    cases piece with
    | tree t => exact ⟨confined.1, ih confined.2⟩
    | opening kind =>
      obtain ⟨⟨ordinary, open_line⟩, later⟩ := confined
      refine ⟨⟨⟨fun line => ?_, ?_, ?_⟩, ih later⟩, trivial⟩
      · exact Bool.noConfusion (open_line.symm.trans line)
      · exact fun error => absurd error ordinary
      · exact fun error => absurd error ordinary

theorem linesEnclosed_blanks (depth : Nat) {blanks tokens : List Token}
    (trivia : ∀ blank ∈ blanks, blank.isTrivia = true) :
    LinesEnclosed depth (blanks ++ tokens) ↔ LinesEnclosed depth tokens := by
  induction blanks with
  | nil => rfl
  | cons blank blanks ih =>
    obtain ⟨first, later⟩ := List.forall_mem_cons.mp trivia
    have stays : depthAfter depth blank.kind = depth := by
      have plain := (trivia_plain first).1
      cases kind : blank.kind <;> simp_all [depthAfter, TokenKind.isBrace]
    rw [List.cons_append, LinesEnclosed, stays, ih later]
    exact and_iff_right fun line => absurd line (trivia_plain first).2

theorem stretch_enclosed (depth : Nat) (first : Bool) (tokens : List Token)
    (start : first = true → kindIn 0 tokens ≠ .newline) :
    LinesEnclosed depth (tokens.take (stretch depth first 0 tokens)) := by
  induction depth, first, tokens using stretch_induction with
  | ended depth first blanks trivia =>
    rw [stretch_trivia depth first trivia]
    trivial
  | halts depth first blanks token tokens trivia solid stops =>
    rw [stretch_halts depth first tokens trivia solid stops]
    trivial
  | goes_on depth first blanks token tokens trivia solid passes ih =>
    rw [stretch_goes_on depth first tokens trivia solid passes, List.take_length_add_append,
      List.take_succ_cons]
    refine (linesEnclosed_blanks depth trivia).mpr ⟨fun line => ?_, ih nofun⟩
    rintro rfl
    have next : kindIn 0 (blanks ++ token :: tokens) = .newline := by
      rw [kindIn_append_trivia 0 _ _ trivia, kindIn, if_neg (Bool.eq_false_iff.mp solid), line]
    cases first with
    | true => exact start rfl next
    | false => simp [stopsAt, line] at passes

end

/-- What is added is confined, and where a node that fills a line is open, no newline is added. -/
structure Outcome.Confined (inline : Bool) (c : Cursor) (o : Outcome) : Prop where
  pieces : ConfinedPieces c.ahead o.pieces
  line : inline = true → ∀ token ∈ tokensOf o.pieces, token.kind ≠ .newline

section

variable {inline : Bool} {c : Cursor} {o : Outcome}

theorem confined_nothing (nothing : o.pieces = []) : o.Confined inline c := by
  constructor
  · rw [nothing]
    trivial
  · rw [nothing]
    exact fun _ => nofun

theorem Outcome.Confined.andThen {next : Bool → Cursor → Outcome} (first : o.Confined inline c)
    (spent : Spent c o) (clear : o.faults = [])
    (second : (next o.answer o.cursor).Confined inline o.cursor) :
    (o.andThen next).Confined inline c := by
  constructor
  · refine confinedPieces_append.mpr ⟨first.pieces, ?_⟩
    rw [Monitor.rest_ahead spent clear]
    exact second.pieces
  · intro inside token member
    rcases List.mem_append.mp (tokensOf_append _ _ ▸ member) with here | later
    · exact first.line inside token here
    · exact second.line inside token later

theorem Outcome.Confined.after {next : Bool → Cursor → Outcome} (nothing : o.pieces = [])
    (stays : o.cursor.ahead = c.ahead) (second : (next o.answer o.cursor).Confined inline o.cursor) :
    (o.andThen next).Confined inline c := by
  have same : (o.andThen next).pieces = (next o.answer o.cursor).pieces :=
    congrArg (· ++ (next o.answer o.cursor).pieces) nothing
  exact ⟨same ▸ stays ▸ second.pieces, same ▸ second.line⟩

theorem Outcome.Confined.closed (inner : o.Confined inline c) : o.closed.Confined inline c := by
  constructor
  · exact (confinedPieces_trees _).mpr inner.pieces.closed
  · rw [Outcome.closed, tokensOf_trees, closePieces_tokens]
    exact inner.line

theorem Outcome.Confined.wrapped {kind : NodeKind} {within : Bool} (inner : o.Confined within c)
    (ordinary : kind ≠ .error) (lines : inline = true ∨ kind.isInline = true → within = true) :
    (o.wrapped kind).Confined inline c := by
  have held : tokensOf (o.wrapped kind).pieces = tokensOf o.pieces := by
    simp [Outcome.wrapped, tokensOf, Piece.tokens]
  constructor
  · refine ⟨⟨⟨fun line => ?_, fun error => absurd error ordinary, fun error => absurd error ordinary⟩,
      inner.pieces.closed⟩, trivial⟩
    rw [closePieces_tokens]
    exact inner.line (lines (.inr line))
  · rw [held]
    exact fun inside => inner.line (lines (.inl inside))

variable (c)

theorem drop_pending : c.ahead.drop c.pending.length = c.due := by
  conv_lhs => rw [c.ahead_eq, List.drop_left]

theorem pending_inline : ∀ token ∈ c.pending, token.kind ≠ .newline :=
  fun token member => (trivia_plain (c.pending_trivia token member)).2

theorem take_confined (among : KindSet) (retag : Option TokenKind)
    (line : inline = true → ∀ kind : TokenKind, among.has kind = true → retag.getD kind ≠ .newline)
    (clear : (c.take among retag).faults = []) : (c.take among retag).Confined inline c := by
  cases due : c.due with
  | nil => simp [Cursor.take, c.settle_eq, due, Outcome.andThen, Outcome.check] at clear
  | cons token tokens =>
    rw [c.take_eq among retag due] at clear ⊢
    constructor
    · exact confinedPieces_append.mpr ⟨confinedPieces_leaves _, trivial, trivial⟩
    · intro inside leaf member
      rw [tokensOf_append, tokensOf_leaves] at member
      rcases List.mem_append.mp member with blank | taken
      · exact pending_inline c leaf blank
      · obtain rfl := List.mem_singleton.mp taken
        exact line inside token.kind (by simpa using clear)

theorem gap_confined : c.gap.Confined inline c := by
  rw [c.gap_eq]
  constructor
  · have empty : Confined .error [] c.due :=
      ⟨nofun, fun _ => trivial, fun _ some => absurd rfl some⟩
    refine confinedPieces_append.mpr ⟨confinedPieces_leaves _, ⟨?_, trivial⟩, trivial⟩
    rw [tokensOf_leaves, drop_pending]
    exact empty
  · intro _ token member
    rw [tokensOf_append, tokensOf_leaves] at member
    rcases List.mem_append.mp member with blank | error
    · exact pending_inline c token blank
    · exact absurd error List.not_mem_nil

theorem report_confined {next : Bool → Cursor → Outcome} (diagnostic : Span → Diagnostic)
    (later : ∀ d : Cursor, d.ahead = c.ahead →
      (next (c.report diagnostic).answer d).Confined inline d) :
    ((c.report diagnostic).andThen next).Confined inline c :=
  .after (c.report_pieces _) (c.report_ahead _) (later _ (c.report_ahead _))

theorem missing_confined (kind : DiagnosticKind) (message : String) :
    (c.missing kind message).Confined inline c :=
  .after rfl rfl (report_confined _ _ fun d _ => gap_confined d)

theorem confinedAll_leaves {ahead : List Token} (tokens : List Token) :
    Tree.ConfinedAll ahead (tokens.map .leaf) := by
  have pieces : (tokens.map Tree.leaf).map Piece.tree = leaves tokens := List.map_map
  exact (confinedPieces_trees _).mp (pieces ▸ confinedPieces_leaves tokens)

theorem discard_confined (more : c.kindAhead 0 ≠ .endOfInput) (line : c.kindAhead 0 ≠ .newline) :
    c.discard.Confined false c := by
  have stops := (c.stretch_due more).2
  have enclosed := stretch_enclosed 0 true c.due fun _ => c.kindAhead_due 0 ▸ line
  rw [c.discard_eq]
  set skipped := c.due.take (stretch 0 true 0 c.due) with skipped_eq
  have held : (skipped.map Tree.leaf).flatMap Tree.tokens = skipped := by
    simp [List.flatMap_map]
  have rest : c.due.drop skipped.length = c.due.drop (stretch 0 true 0 c.due) := by
    rw [skipped_eq, List.length_take]
    rcases Nat.le_total (stretch 0 true 0 c.due) c.due.length with fits | beyond
    · rw [Nat.min_eq_left fits]
    · rw [Nat.min_eq_right beyond, List.drop_length, List.drop_of_length_le beyond]
  constructor
  · refine confinedPieces_append.mpr ⟨confinedPieces_leaves _, ⟨?_, confinedAll_leaves _⟩, trivial⟩
    rw [tokensOf_leaves, drop_pending, held, rest]
    exact ⟨nofun, fun _ => enclosed, fun _ _ => stops⟩
  · exact nofun

theorem skip_confined (complaint : Complaint) (line : c.kindAhead 0 ≠ .newline) :
    (c.skip complaint).Confined false c := by
  refine .after rfl rfl ?_
  split
  · exact confined_nothing rfl
  · rename_i more
    have goes_on : c.kindAhead 0 ≠ .endOfInput := fun last => more ((KindSet.has_token _ _).mpr last)
    refine .after rfl rfl (report_confined _ _ fun d same => ?_)
    have next : d.kindAhead 0 = c.kindAhead 0 := congrArg (kindIn 0) same
    exact discard_confined d (next ▸ goes_on) (next ▸ line)

theorem closeBlock_confined (what : String) (brace : Span)
    (clear : (c.closeBlock what brace).faults = []) :
    (c.closeBlock what brace).Confined inline c := by
  unfold Cursor.closeBlock at clear ⊢
  split
  · rename_i brace
    rw [if_pos brace] at clear
    refine take_confined c _ none (fun _ kind closing => ?_) clear
    rw [(KindSet.has_token _ _).mp closing]
    exact nofun
  · exact .after rfl rfl (report_confined _ _ fun d _ => gap_confined d)

theorem rounds_confined {round : Cursor → Outcome}
    (inner : ∀ c, (round c).faults = [] → (round c).Confined inline c) (spent : ∀ c, Spent c (round c))
    (limit : List Token) (clear : (Production.rounds round limit c).faults = []) :
    (Production.rounds round limit c).Confined inline c := by
  apply Production.rounds_induction (motive := fun c o => o.Confined inline c) (fun _ => True) _ _ _
    limit trivial clear
  · exact fun _ _ _ => trivial
  · exact fun _ _ => confined_nothing rfl
  · exact fun c rest _ one _ later => (inner c one).andThen (spent c) one later

end

namespace Production

def lined : Production → Production
  | skip complaint => away 0 .newline (skip complaint)
  | within kind body => within kind body.lined
  | scope body => scope body.lined
  | wrap yes no first question rest => wrap yes no first.lined question.lined rest.lined
  | seq first second => seq first.lined second.lined
  | branch question yes no => branch question.lined yes.lined no.lined
  | loop body => loop body.lined
  | block what body => block what body.lined
  | x => x

theorem lined_run (x : Production) : x.Checked x.lined := by
  induction x with
  | skip complaint => exact fun _ clear => (away_run clear).2.symm
  | within kind body ih => exact checked_within ih kind
  | scope body ih => exact checked_scope ih
  | wrap yes no first question rest first_ih question_ih rest_ih =>
    exact checked_wrap first_ih question_ih rest_ih yes no
  | seq first second first_ih second_ih => exact checked_seq first_ih second_ih
  | branch question yes no question_ih yes_ih no_ih => exact checked_branch question_ih yes_ih no_ih
  | loop body ih => exact checked_loop ih
  | block what body ih => exact checked_block ih what
  | _ => exact checked_refl _

theorem sourceFile_lined :
    (sourceFile.lined.foresee .careful false (.unknown ⟨none, 0⟩)).isSome = true := by
  decide +kernel

/-- Whether newlines are taken in the right places only: inside of an `inline` node there are none, and
nothing is skipped there. -/
def confines : Production → (inline : Bool) → Bool
  | take among, inline => !(inline && among.has TokenKind.newline)
  | skip _, inline => !inline
  | within kind body, inline => kind ≠ .error && body.confines (inline || kind.isInline)
  | into kind, _ => kind ≠ .error && !kind.isInline
  | wrap yes no first question rest, inline =>
    yes ≠ .error && no ≠ .error &&
      (let inner := inline || yes.isInline || no.isInline
       first.confines inner && question.confines inner && rest.confines inner)
  | seq first second, inline => first.confines inline && second.confines inline
  | branch question yes no, inline =>
    question.confines inline && yes.confines inline && no.confines inline
  | scope body, inline | loop body, inline | block _ body, inline => body.confines inline
  | _, _ => true

/-- What a production adds is confined if it takes newlines in the right places only. -/
theorem run_confined (x : Production) {inline : Bool} (check : x.confines inline = true) (c : Cursor)
    (clear : (x.lined.run c).faults = []) : (x.lined.run c).Confined inline c := by
  induction x using wrapped_induction generalizing inline c with
  | answer | look | glance | impossible | pass | count => exact confined_nothing rfl
  | demand among => exact .after rfl rfl (confined_nothing rfl)
  | take among =>
    refine take_confined c among none (fun inside kind member newline => ?_) clear
    cases newline
    simp [confines, inside, member] at check
  | name => exact take_confined c .words _ (fun _ _ _ => nofun) clear
  | settle =>
    show c.settle.Confined inline c
    rw [c.settle_eq]
    refine ⟨confinedPieces_leaves _, fun _ => ?_⟩
    rw [tokensOf_leaves]
    exact pending_inline c
  | within kind body ih =>
    simp only [confines, Bool.and_eq_true, decide_eq_true_eq] at check
    exact (ih check.2 c clear).wrapped check.1 (by simp)
  | into kind =>
    simp only [confines, Bool.and_eq_true, decide_eq_true_eq, Bool.not_eq_true'] at check
    exact ⟨⟨check, trivial⟩, fun _ => nofun⟩
  | scope body ih => exact (ih check c clear).closed
  | wrap yes no first question rest ih =>
    simp only [confines, Bool.and_eq_true, decide_eq_true_eq] at check
    obtain ⟨⟨yes_ordinary, no_ordinary⟩, ⟨first_check, question_check⟩, rest_check⟩ := check
    have whole : (wrapped first question rest).confines (inline || yes.isInline || no.isInline) =
        true := by
      simp only [wrapped, confines, first_check, question_check, rest_check, Bool.and_true]
    have inner := ih whole c clear
    simp only [Bool.or_assoc] at inner
    show (((wrapped first question rest).lined.run c).wrapped _).Confined inline c
    split
    · exact inner.wrapped yes_ordinary (by simp +contextual [or_imp])
    · exact inner.wrapped no_ordinary (by simp +contextual [or_imp])
  | seq first second first_ih second_ih =>
    obtain ⟨one, two⟩ := Bool.and_eq_true_iff.mp check
    obtain ⟨first_clear, second_clear⟩ := Outcome.andThen_clear clear
    exact (first_ih one c first_clear).andThen (first.lined.run_spent c) first_clear
      (second_ih two _ second_clear)
  | branch question yes no question_ih yes_ih no_ih =>
    simp only [confines, Bool.and_eq_true] at check
    obtain ⟨asked, ⟨rest, whole⟩ | ⟨rest, whole⟩⟩ := branch_cases (show
      ((branch question.lined yes.lined no.lined).run c).faults = [] from clear)
    all_goals
      rw [lined, whole]
      apply (question_ih check.1.1 c asked).andThen (question.lined.run_spent c) asked
    · exact yes_ih check.1.2 _ rest
    · exact no_ih check.2 _ rest
  | loop body ih =>
    exact rounds_confined c (fun c clear => ih check c clear) body.lined.run_spent _ clear
  | missing kind message => exact missing_confined c kind message
  | skip complaint =>
    obtain ⟨line, same⟩ := away_run clear
    have outside : inline = false := by simpa [confines] using check
    rw [outside, lined, same]
    exact skip_confined c complaint line
  | block what body ih =>
    obtain ⟨brace_clear, body_clear, close_clear⟩ := Cursor.block_clear clear
    show ((c.take (.single TokenKind.braceOpen) none).andThen fun _ inner =>
      (body.lined.run inner).andThen fun _ after => after.closeBlock what c.spanAhead).Confined inline c
    refine (take_confined c _ none (fun _ kind opening => ?_) brace_clear).andThen
      (c.take_own_spent _) brace_clear ?_
    · rw [(KindSet.has_token _ _).mp opening]
      exact nofun
    · exact (ih check _ body_clear).andThen (body.lined.run_spent _) body_clear
        (closeBlock_confined _ what _ close_clear)

theorem sourceFile_confines : sourceFile.confines false = true := by decide +kernel

end Production

namespace Tree

theorem confinedAll_append {ahead : List Token} {first second : List Tree} :
    ConfinedAll ahead (first ++ second) ↔ ConfinedAll ahead first ∧
      ConfinedAll (ahead.drop (first.flatMap tokens).length) second := by
  simp only [← confinedPieces_trees, List.map_append, confinedPieces_append, tokensOf_trees]

end Tree

theorem parse_confined (source : List Char) : (parse source).tree.Confined (lex source) := by
  obtain ⟨clear, same⟩ := parsed_checked (Production.lined_run _) Production.sourceFile_lined source
  have confined := (Production.run_confined _ Production.sourceFile_confines _ clear).pieces
  obtain ⟨trees, root, spelled⟩ := parse_spelled source
  rw [same, root] at confined
  rw [spelled]
  exact confined.1

theorem openAfter_length (opened : List Nat) (place : Nat) (kind : TokenKind) :
    (openAfter opened place kind).length = depthAfter opened.length kind := by
  cases kind <;> simp [openAfter, depthAfter]

/-- Some brace is open wherever a newline comes. -/
theorem LinesEnclosed.opens {tokens : List Token} {opened : List Nat} {start : Nat}
    (enclosed : LinesEnclosed opened.length tokens) {before after : List (Span × Token)}
    {newline : Span × Token} (split : Token.locate start tokens = before ++ newline :: after)
    (line : newline.2.kind = .newline) : openBraces opened before ≠ [] := by
  induction tokens generalizing opened start before with
  | nil => simp [Token.locate] at split
  | cons token tokens ih =>
    cases before with
    | nil =>
      obtain ⟨rfl, -⟩ := List.cons.inj split
      exact List.length_pos_iff.mp (Nat.pos_of_ne_zero (enclosed.1 line))
    | cons located before =>
      obtain ⟨rfl, rest⟩ := List.cons.inj split
      show openBraces (openAfter opened start token.kind) before ≠ []
      refine ih ?_ rest
      rw [openAfter_length]
      exact enclosed.2

theorem lineEnd_cases {kind : TokenKind} (ends : KindSet.lineEnd.has kind = true) :
    kind.isKeyword = false ∧ (kind = .newline ∨ kind = .braceClose ∨ kind = .endOfInput) := by
  have among : kind = .newline ∨ kind = .braceClose ∨ kind = .endOfInput := by
    simpa [KindSet.lineEnd] using ends
  rcases among with rfl | rfl | rfl <;> simp [TokenKind.isKeyword]

/-- No node that fills a line or a part of one holds a newline. In an error node some brace that was
opened in the node is open wherever a newline comes, and if the node holds anything, a line, a block or
the input ends after it. -/
theorem nodes_confined (source : List Char) {n : Node} (below : n ∈ (parse source).root.everything)
    {kind : NodeKind} (node : n.kind = .node kind) :
    (kind.isInline = true → ∀ leaf ∈ n.leaves, leaf.2.kind ≠ .newline) ∧
      (kind = .error → n.leaves ≠ [] →
        (∀ before newline after, n.leaves = before ++ newline :: after →
          newline.2.kind = .newline → openBraces [] before ≠ []) ∧
        (kindIn 0 n.following = .newline ∨ kindIn 0 n.following = .braceClose ∨
          kindIn 0 n.following = .endOfInput)) := by
  have root_carried : List.Forall₂ Carried (lex source)
      ((parse source).root.focus.tokens ++ (parse source).root.following) := by
    have carried := parse_carried source
    rwa [← List.append_nil (parse source).tree.tokens] at carried
  obtain ⟨ahead, confined, carried⟩ := Node.carried_everywhere (P := Tree.Confined)
    (fun inside => (Tree.confinedAll_append.mp inside.2).2.1) (parse_confined source) root_carried n
    below
  obtain ⟨children, held⟩ := Tree.node_of_kind node
  rw [held] at confined carried
  obtain ⟨line, enclosed, ends⟩ := confined.1
  rw [Node.leaves_eq, held, Tree.tokens_node]
  refine ⟨fun inline leaf member => ?_, fun error some => ⟨?_, ?_⟩⟩
  · rw [← Token.locate_tokens n.start (children.flatMap Tree.tokens)] at line
    exact line inline leaf.2 (List.mem_map_of_mem member)
  · intro before newline after split is_line
    have opened : LinesEnclosed ([] : List Nat).length (children.flatMap Tree.tokens) := enclosed error
    exact opened.opens split is_line
  · have inhabited : children.flatMap Tree.tokens ≠ [] := by
      rintro nothing
      exact some (by rw [nothing]; rfl)
    obtain ⟨plain, next⟩ := lineEnd_cases (ends error inhabited)
    have after := List.forall₂_drop (children.flatMap Tree.tokens).length carried
    rw [Tree.tokens_node, List.drop_left] at after
    rwa [carried_next after plain]

/-- A line that begins no actor, with braces in it around the end of a line. -/
def bracedJunk : List Char := "actors \x7b\n junk \x7b\n x \x7d y\n user A\n\x7d\n".toList

/-- It is skipped up to the end of the line that its braces close on. -/
theorem bracedJunk_confined :
    ∃ n ∈ (parse bracedJunk).root.everything, n.kind = .node .error ∧
      n.text = "junk \x7b\n x \x7d y".toList ∧ n.leaves ≠ [] ∧
      (∀ before newline after, n.leaves = before ++ newline :: after →
        newline.2.kind = .newline → openBraces [] before ≠ []) ∧
      (kindIn 0 n.following = .newline ∨ kindIn 0 n.following = .braceClose ∨
        kindIn 0 n.following = .endOfInput) := by
  have found : (parse bracedJunk).root.everything[7]?.map
      (fun n => (n.kind, n.text, n.leaves.isEmpty)) =
        some (.node .error, "junk \x7b\n x \x7d y".toList, false) := by
    decide +kernel
  obtain ⟨n, place, same⟩ := Option.map_eq_some_iff.mp found
  simp only [Prod.mk.injEq] at same
  obtain ⟨error, text, leaves⟩ := same
  have below := List.mem_of_getElem? place
  have some : n.leaves ≠ [] := fun nothing => by simp [nothing] at leaves
  exact ⟨n, below, error, text, some, (nodes_confined bracedJunk below error).2 rfl some⟩

end CraftDsl
