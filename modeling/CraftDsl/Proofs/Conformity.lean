import CraftDsl.Language.Rules
import CraftDsl.Proofs.Derivations
import CraftDsl.Proofs.Losslessness

/-!
Trees of sources without errors follow the grammar of the language: the children of every node are
derived by the rule of its name. Main statement: `children_derived`.
-/
namespace CraftDsl

open CraftDsl.Language (grammar)

namespace NodeKind

/-- What the rule of the name makes of the children. -/
def shape (kind : NodeKind) : Pattern :=
  match grammar.rule? kind.name with
  | some body => body.asPattern (Rule.expanded grammar)
  | none => Rule.never

def states (kind : NodeKind) : List (List Pattern) := kind.shape.states

def table (kind : NodeKind) : List Pattern.Row := Pattern.table kind.states

theorem small_index (kind : NodeKind) : kind.ctorIdx < 64 := by
  cases kind <;> decide

theorem all_at (kind : NodeKind) : all[kind.ctorIdx]? = some kind := by
  cases kind <;> rfl

end NodeKind

/-- Reads the children of every node along the rule of its name. A state is a set of states of the
rule together with the kind of the node, and nothing is read outside of all nodes. The last newline of
a clause may be missing before a closing brace. -/
def Monitor.grammatical : Monitor where
  start kind := 64 * Pattern.place kind.states [kind.shape] + kind.ctorIdx
  step s kind :=
    match NodeKind.all[s % 64]? with
    | some parent =>
      let set := Pattern.advance kind (s / 64) parent.table
      if set = 0 then none else some (64 * set + s % 64)
    | none => some s
  ends kind s :=
    if Pattern.accepting (s / 64) kind.table then .anything
    else if kind = .whenClause &&
        Pattern.accepting (Pattern.advance TokenKind.newline (s / 64) kind.table) kind.table then
      .single TokenKind.braceClose
    else .empty
  strict := true

theorem sourceFile_grammatical :
    (Production.sourceFile.foresee .grammatical false (.unknown ⟨none, 63⟩)).isSome = true := by
  decide +kernel

def wordOf (trees : List Tree) : List Kind := (trees.map Tree.kind).filter fun kind => !kind.isTrivia

theorem wordOf_cons (t : Tree) (ts : List Tree) :
    wordOf (t :: ts) = if t.kind.isTrivia then wordOf ts else t.kind :: wordOf ts := by
  rw [wordOf, List.map_cons, List.filter_cons]
  cases t.kind.isTrivia <;> rfl

theorem grammatical_step {parent : NodeKind} {set after : Nat} {kind : Kind}
    (stepped : Monitor.grammatical.step (64 * set + parent.ctorIdx) kind = some after) :
    after = 64 * Pattern.advance kind set parent.table + parent.ctorIdx := by
  have index : (64 * set + parent.ctorIdx) % 64 = parent.ctorIdx := by
    rw [Nat.mul_add_mod, Nat.mod_eq_of_lt parent.small_index]
  have states : (64 * set + parent.ctorIdx) / 64 = set := by
    have small := parent.small_index
    omega
  simp only [Monitor.grammatical, index, states, parent.all_at] at stepped
  split at stepped
  · cases stepped
  · exact (Option.some.inj stepped).symm

/-- From the states that the children lead to, a word is read after them. -/
theorem grammatical_walk {parent : NodeKind} {children : List Tree} {set after : Nat}
    (walked : Monitor.grammatical.walk (64 * set + parent.ctorIdx) children = some after) :
    ∃ reached, after = 64 * reached + parent.ctorIdx ∧
      ∀ word, Pattern.Reads parent.states reached word →
        Pattern.Reads parent.states set (wordOf children ++ word) := by
  induction children generalizing set with
  | nil => exact ⟨set, (Option.some.inj walked).symm, fun word reads => reads⟩
  | cons t ts ih =>
    rw [Monitor.walk] at walked
    rw [wordOf_cons]
    split at walked
    · rename_i trivia
      rw [if_pos trivia]
      exact ih walked
    · rename_i solid
      rw [if_neg solid]
      rcases Option.bind_eq_some_iff.mp walked with ⟨next, stepped, rest⟩
      rw [grammatical_step stepped] at rest
      rcases ih rest with ⟨reached, same, onward⟩
      exact ⟨reached, same, fun word reads => Pattern.advance_sound (onward word reads)⟩

theorem shape_rule {kind : NodeKind} {word : List Kind} (matched : kind.shape.Matches word) :
    ∃ body, grammar.rule? kind.name = some body ∧
      body.Derives grammar (word.map Kind.letter) := by
  unfold NodeKind.shape at matched
  split at matched
  · rename_i body found
    exact ⟨body, found, Rule.derives_of_matches Rule.derives_expanded body word matched⟩
  · exact absurd matched Rule.matches_never

/-- What a node that passes has for children. -/
theorem derived_of_walk {kind : NodeKind} {children : List Tree} {s : Nat} {next : TokenKind}
    (walked : Monitor.grammatical.walk (Monitor.grammatical.start kind) children = some s)
    (ended : (Monitor.grammatical.ends kind s).has next = true) :
    ∃ body, grammar.rule? kind.name = some body ∧
      (body.Derives grammar ((wordOf children).map Kind.letter) ∨
        kind = .whenClause ∧ next = .braceClose ∧
          body.Derives grammar ((wordOf children).map Kind.letter ++ ["_newline"])) := by
  rcases grammatical_walk walked with ⟨reached, rfl, reads⟩
  have states : (64 * reached + kind.ctorIdx) / 64 = reached := by
    have small := kind.small_index
    omega
  have shaped (word : List Kind) (rest : Pattern.Reads kind.states reached word) :
      kind.shape.Matches (wordOf children ++ word) := by
    rcases Pattern.reads_place (reads word rest) with ⟨u, v, split, matched, nothing⟩
    cases nothing
    rw [split, List.append_nil]
    exact matched
  simp only [Monitor.grammatical, states] at ended
  split at ended
  · rename_i complete
    have matched := shaped [] (Pattern.accepting_sound complete)
    rw [List.append_nil] at matched
    rcases shape_rule matched with ⟨body, found, derived⟩
    exact ⟨body, found, .inl derived⟩
  · split at ended
    · rename_i cut
      rcases Bool.and_eq_true_iff.mp cut with ⟨clause, complete⟩
      have matched := shaped [.token .newline]
        (Pattern.advance_sound (Pattern.accepting_sound complete))
      rcases shape_rule matched with ⟨body, found, derived⟩
      rw [List.map_append] at derived
      refine ⟨body, found, .inr ⟨of_decide_eq_true clause, ?_, derived⟩⟩
      simpa using ended
    · simp at ended

/-- The children of a node as rules name them, blanks and comments left out. -/
def Node.letters (n : Node) : List String :=
  ((n.allChildren.map Node.kind).filter fun kind => !kind.isTrivia).map Kind.letter

theorem Node.letters_node {n : Node} {kind : NodeKind} {children : List Tree}
    (focus : n.focus = .node kind children) : n.letters = (wordOf children).map Kind.letter := by
  rcases n with ⟨t, start, above⟩
  cases focus
  rw [letters, allChildren, place_kinds]
  rfl

theorem parse_ordinary {source : List Char} (sound : (parse source).hasErrors = false) :
    NodeKind.error ∉ (parse source).tree.nodeKinds := by
  intro inner
  rcases Node.mem_nodeKinds (n := (parse source).root) inner with ⟨m, below, error⟩
  have found : (parse source).hasErrors = true := by
    apply (Node.hasError_iff (parse source).root).mpr
    exact ⟨m, below, by rw [error]; rfl⟩
  exact Bool.noConfusion (sound.symm.trans found)

theorem parse_fair {M : Monitor} (source : List Char) (sound : (parse source).hasErrors = false) :
    M.Fair false (parsed (lex source)) := by
  intro _
  refine ⟨fun member => ?_, fun inside => Bool.noConfusion inside⟩
  rcases parse_spelled source with ⟨trees, root, spelled⟩
  have kinds : kindsOf (parsed (lex source)).pieces = (Tree.node .sourceFile trees).nodeKinds := by
    rw [root]
    exact List.append_nil _
  apply parse_ordinary sound
  rw [kinds] at member
  rw [spelled]
  exact member

theorem parse_accepted (source : List Char) (sound : (parse source).hasErrors = false) :
    Monitor.grammatical.Accepts (lex source) (parse source).tree :=
  parse_accepts sourceFile_grammatical source (parse_fair source sound)

/-- Whatever passes in a tree passes with the tokens that come after it in the source. -/
theorem accepted_everywhere {M : Monitor} {ahead : List Token} {root : Node}
    (accepted : M.Accepts ahead root.focus)
    (carried : List.Forall₂ Carried ahead (root.focus.tokens ++ root.following)) :
    ∀ n ∈ root.everything, ∃ ahead, M.Accepts ahead n.focus ∧
      List.Forall₂ Carried ahead (n.focus.tokens ++ n.following) :=
  Node.carried_everywhere (P := M.Accepts)
    (fun inside => ((M.acceptsAll_append _ _ _).mp inside.2).2.1) accepted carried

/-- In the tree of a source without errors, the rule of its name derives the children of every node;
only the last newline of a clause may be missing, if a closing brace comes next. -/
theorem children_derived (source : List Char) (sound : (parse source).hasErrors = false) {n : Node}
    (below : n ∈ (parse source).root.descendants) {kind : NodeKind} (node : n.kind = .node kind) :
    ∃ body, grammar.rule? kind.name = some body ∧
      (body.Derives grammar n.letters ∨
        kind = .whenClause ∧ kindIn 0 n.following = .braceClose ∧
          body.Derives grammar (n.letters ++ ["_newline"])) := by
  have root_carried : List.Forall₂ Carried (lex source)
      ((parse source).root.focus.tokens ++ (parse source).root.following) := by
    have carried := parse_carried source
    rw [← List.append_nil (parse source).tree.tokens] at carried
    exact carried
  have root_accepted : Monitor.grammatical.Accepts (lex source) (parse source).root.focus :=
    parse_accepted source sound
  have inside : n ∈ (parse source).root.everything := (List.mem_filter.mp below).1
  rcases accepted_everywhere root_accepted root_carried n inside with ⟨ahead, accepted, carried⟩
  have ordinary : kind ≠ .error := by
    rintro rfl
    have found : (parse source).hasErrors = true := by
      apply (Node.hasError_iff (parse source).root).mpr
      exact ⟨n, inside, by rw [node]; rfl⟩
    exact Bool.noConfusion (sound.symm.trans found)
  cases focus : n.focus with
  | leaf token =>
    rw [Node.kind, focus] at node
    cases node
  | node other children =>
    rw [Node.kind, focus] at node
    cases node
    rw [focus] at accepted carried
    rcases accepted.1 ordinary with ⟨s, walked, ended⟩
    rcases derived_of_walk walked ended with ⟨body, found, derived⟩
    rw [Node.letters_node focus]
    refine ⟨body, found, ?_⟩
    rcases derived with whole | ⟨clause, brace, cut⟩
    · exact .inl whole
    · refine .inr ⟨clause, ?_, cut⟩
      have rest := List.forall₂_drop (children.flatMap Tree.tokens).length carried
      rw [Tree.tokens_node, List.drop_left] at rest
      rw [carried_next rest (by rw [brace]; rfl), brace]

/-- A clause with no newline before the closing brace. -/
def clauseBeforeBrace : List Char :=
  "use_case \"u\" \x7b\n when \"e\"\n a asks b c \x7d".toList

theorem clauseBeforeBrace_derived :
    ∃ n ∈ (parse clauseBeforeBrace).root.descendants, n.kind = .node .whenClause ∧
      n.letters = ["when", "event_trigger", "_newline", "sync_action"] ∧
      ∃ body, grammar.rule? NodeKind.whenClause.name = some body ∧
        (body.Derives grammar n.letters ∨
          NodeKind.whenClause = .whenClause ∧ kindIn 0 n.following = .braceClose ∧
            body.Derives grammar (n.letters ++ ["_newline"])) := by
  have found : (parse clauseBeforeBrace).root.descendants[6]?.map (fun n => (n.kind, n.letters)) =
      some (.node .whenClause, ["when", "event_trigger", "_newline", "sync_action"]) := by
    decide +kernel
  rcases Option.map_eq_some_iff.mp found with ⟨n, place, same⟩
  rcases Prod.mk.inj same with ⟨clause, letters⟩
  have below := List.mem_of_getElem? place
  refine ⟨n, below, clause, letters, ?_⟩
  exact children_derived clauseBeforeBrace (by decide +kernel) below clause

end CraftDsl
