import CraftDsl.Proofs.Losslessness
import CraftDsl.Proofs.Reports

/-!
Diagnostics and trees agree: a source has diagnostics exactly if its tree has an error, and they point
to the error nodes. Main statement: `diagnostics_agree`.
-/
namespace CraftDsl

theorem sourceFile_ordinary : Production.sourceFile.isOrdinary = true := by
  decide +kernel

namespace Node

def errors (n : Node) : List Nat :=
  n.everything.filterMap fun m => if m.kind = .node .error then some m.start else none

theorem errors_eq (n : Node) :
    n.errors = (if n.kind = .node .error then [n.start] else []) ++ n.allChildren.flatMap errors := by
  rw [errors, everything_eq, List.filterMap_cons, List.filterMap_flatMap]
  split
  · rename_i other
    split at other
    · cases other
    · rename_i ordinary
      rw [if_neg ordinary]
      rfl
  · rename_i found
    rw [Option.ite_none_right_eq_some] at found
    rw [if_pos found.1, ← Option.some.inj found.2]
    rfl

mutual

theorem errors_tree (start : Nat) (above : List Ancestor) : (t : Tree) →
    errors ⟨t, start, above⟩ = t.errorStarts start
  | .leaf _ => rfl
  | .node kind children => by
    have below := errors_place (fun index => ⟨kind, children, start, index⟩) above 0 start children
    have same : Node.kind ⟨.node kind children, start, above⟩ = .node .error ↔ kind = .error :=
      ⟨fun same => Kind.node.inj same, fun same => congrArg Kind.node same⟩
    rw [errors_eq, Tree.errorStarts, ← below, if_congr same rfl rfl]
    rfl

theorem errors_place (parent : Nat → Ancestor) (above : List Ancestor) (index start : Nat) :
    (ts : List Tree) →
    (place parent above index start ts).flatMap errors = Tree.errorStartsAll start ts
  | [] => rfl
  | t :: ts => by
    rw [place, List.flatMap_cons, errors_tree start _ t, errors_place parent above _ _ ts]
    rfl

end

theorem mem_errorStarts {n : Node} {place : Nat} :
    place ∈ n.focus.errorStarts n.start ↔
      ∃ m ∈ n.everything, m.kind = .node .error ∧ m.start = place := by
  rw [← errors_tree n.start n.above n.focus]
  constructor
  · intro member
    rcases List.mem_filterMap.mp member with ⟨m, below, found⟩
    rw [Option.ite_none_right_eq_some] at found
    exact ⟨m, below, found.1, Option.some.inj found.2⟩
  · rintro ⟨m, below, error, same⟩
    exact List.mem_filterMap.mpr ⟨m, below, by rw [if_pos error, same]⟩

end Node

theorem careful_see {site after : Site} {kind : Kind}
    (seen : Monitor.careful.see site kind = some after) :
    (kind.isToken && kind.isError) = false := by
  by_cases trivia : kind.isTrivia = true
  · cases kind with
    | token kind => cases kind <;> first | rfl | cases trivia
    | node kind => rfl
  · rw [Monitor.see, if_neg trivia] at seen
    rcases Option.map_eq_some_iff.mp seen with ⟨here, stepped, -⟩
    by_contra error
    rw [Bool.not_eq_false] at error
    simp only [Monitor.careful, if_pos error] at stepped
    cases stepped

theorem careful_walk {s t : Nat} {children : List Tree}
    (walked : Monitor.careful.walk s children = some t) {child : Tree} (member : child ∈ children) :
    (child.kind.isToken && child.kind.isError) = false := by
  induction children generalizing s with
  | nil => simp at member
  | cons first rest ih =>
    rw [Monitor.careful.walk_cons none, Option.bind_eq_some_iff] at walked
    rcases walked with ⟨site, seen, walked⟩
    rcases List.mem_cons.mp member with rfl | later
    · exact careful_see seen
    · exact ih walked later

def Node.Framed (root n : Node) : Prop :=
  n.kind.isToken = true → n.kind.isError = true →
    ∃ parent ∈ root.everything, parent.kind = .node .error ∧ n ∈ parent.allChildren

theorem framed_of_accepts {ahead : List Token} {root : Node} (inner : root.kind.isToken = false)
    (accepts : Monitor.careful.Accepts ahead root.focus) : ∀ n ∈ root.everything, root.Framed n := by
  intro n below
  -- Every node below passes on its own, and that says where its children may stand.
  have both : (∃ ahead, Monitor.careful.Accepts ahead n.focus) ∧ root.Framed n := by
    apply Node.everything_induction (motive := fun n =>
      (∃ ahead, Monitor.careful.Accepts ahead n.focus) ∧ root.Framed n) root ?_ ?_ n below
    · refine ⟨⟨ahead, accepts⟩, fun token => ?_⟩
      exact Bool.noConfusion (token.symm.trans inner)
    · rintro parent inside ⟨⟨ahead, accepts⟩, -⟩ child member
      rcases Node.mem_allChildren member with ⟨kind, before, after, focus, -, -⟩
      rw [focus] at accepts
      rcases accepts with ⟨sound, accepted⟩
      refine ⟨⟨_, ((Monitor.careful.acceptsAll_append _ _ _).mp accepted).2.1⟩, ?_⟩
      intro token error
      refine ⟨parent, inside, ?_, member⟩
      by_contra ordinary
      have other : kind ≠ .error := by
        intro same
        apply ordinary
        rw [Node.kind, focus, same]
        rfl
      rcases sound other with ⟨s, walked, -⟩
      have among : child.focus ∈ before ++ child.focus :: after := by simp
      have clean := careful_walk walked among
      have lexical : (child.kind.isToken && child.kind.isError) = true := by
        rw [token, error]
        rfl
      exact Bool.noConfusion (lexical.symm.trans clean)
  exact both.2

theorem ofToken_lexical {span : Span} {token : Token} {d : Diagnostic}
    (reported : Diagnostic.ofToken? span token = some d) :
    d.kind.isLexical = true ∧ token.kind.isError = true := by
  unfold Diagnostic.ofToken? at reported
  split at reported
  all_goals cases reported
  all_goals
    rename_i kind
    rw [kind]
    exact ⟨rfl, rfl⟩

theorem lexical_lexical {tokens : List Token} {d : Diagnostic}
    (member : d ∈ Diagnostic.lexical tokens) :
    d.kind.isLexical = true ∧ ∃ token ∈ tokens, token.kind.isError = true := by
  rcases List.mem_filterMap.mp member with ⟨⟨span, token⟩, located, reported⟩
  have among : token ∈ tokens := by
    rw [← Token.locate_tokens 0 tokens]
    exact List.mem_map_of_mem located
  exact ⟨(ofToken_lexical reported).1, token, among, (ofToken_lexical reported).2⟩

/-- A lexical error token stays one as a leaf. -/
theorem carried_error {tokens leaves : List Token} (carried : List.Forall₂ Carried tokens leaves)
    {token : Token} (member : token ∈ tokens) (error : token.kind.isError = true) :
    ∃ leaf ∈ leaves, leaf.kind.isError = true := by
  induction carried with
  | nil => simp at member
  | cons one rest ih =>
    rcases List.mem_cons.mp member with rfl | later
    · refine ⟨_, List.mem_cons_self, ?_⟩
      rw [one.eq_of_isError error]
      exact error
    · rcases ih later with ⟨leaf, inside, same⟩
      exact ⟨leaf, List.mem_cons_of_mem _ inside, same⟩

namespace Parse

/-- The diagnostics about tokens that are errors in themselves. -/
def lexical (p : Parse) : List Diagnostic := p.diagnostics.filter fun d => d.kind.isLexical

/-- The diagnostics about tokens in the wrong place. -/
def structural (p : Parse) : List Diagnostic := p.diagnostics.filter fun d => !d.kind.isLexical

end Parse

theorem parse_diagnostics (source : List Char) :
    (parse source).diagnostics =
      Diagnostic.lexical (lex source) ++ (parsed (lex source)).reports := by
  rcases parse_spelled source with ⟨trees, -, spelled⟩
  rw [spelled]

/-- The reports of a parse agree with the error nodes of its tree. -/
theorem parsed_agrees (source : List Char) :
    (∀ d ∈ (parsed (lex source)).reports, d.kind.isLexical = false ∧
        d.anchor ∈ (parse source).tree.errorStarts 0) ∧
      ∀ place ∈ (parse source).tree.errorStarts 0,
        ∃ d ∈ (parsed (lex source)).reports, d.anchor = place := by
  rcases parse_spelled source with ⟨trees, root, spelled⟩
  have agrees : Agrees (.start (lex source)) (parsed (lex source)) :=
    Production.run_agrees _ sourceFile_ordinary (lex_solid source) (parsed_clear source)
  have errors : errorsOf 0 (parsed (lex source)).pieces = (parse source).tree.errorStarts 0 := by
    rw [root, spelled]
    exact List.append_nil _
  rw [← errors]
  refine ⟨fun d member => ⟨agrees.structural d member, agrees.backed d member⟩, ?_⟩
  intro place member
  rcases agrees.known place member with reported | before
  · exact reported
  · cases before

theorem parse_lexical (source : List Char) :
    (parse source).lexical = Diagnostic.lexical (lex source) := by
  have all : (Diagnostic.lexical (lex source)).filter (fun d => d.kind.isLexical) =
      Diagnostic.lexical (lex source) := by
    rw [List.filter_eq_self]
    exact fun d member => (lexical_lexical member).1
  have none : (parsed (lex source)).reports.filter (fun d => d.kind.isLexical) = [] := by
    rw [List.filter_eq_nil_iff]
    exact fun d member => Bool.eq_false_iff.mp ((parsed_agrees source).1 d member).1
  rw [Parse.lexical, parse_diagnostics, List.filter_append, all, none, List.append_nil]

theorem parse_structural (source : List Char) :
    (parse source).structural = (parsed (lex source)).reports := by
  have none : (Diagnostic.lexical (lex source)).filter (fun d => !d.kind.isLexical) = [] := by
    rw [List.filter_eq_nil_iff]
    intro d member
    simp [(lexical_lexical member).1]
  have all : (parsed (lex source)).reports.filter (fun d => !d.kind.isLexical) =
      (parsed (lex source)).reports := by
    rw [List.filter_eq_self]
    intro d member
    simp [((parsed_agrees source).1 d member).1]
  rw [Parse.structural, parse_diagnostics, List.filter_append, all, none, List.nil_append]

theorem parse_framed (source : List Char) :
    ∀ n ∈ (parse source).root.everything, (parse source).root.Framed n := by
  rcases parse_spelled source with ⟨trees, root, spelled⟩
  rcases parsed_foreseen source with ⟨e, foreseen, -⟩
  have passes := foreseen.passes
  rw [root] at passes
  rw [spelled]
  exact framed_of_accepts rfl passes.1

theorem Node.mem_descendants {n m : Node} :
    m ∈ n.descendants ↔ m ∈ n.everything ∧ m.isHidden = false := by
  have unfolded : n.descendants = n.everything.filter fun d => !d.isHidden := rfl
  rw [unfolded, List.mem_filter, Bool.not_eq_true']

theorem structural_backed (source : List Char) {d : Diagnostic}
    (member : d ∈ (parse source).diagnostics) (structural : d.kind.isLexical = false) :
    ∃ n ∈ (parse source).root.descendants, n.kind = .node .error ∧ n.start = d.anchor := by
  rw [parse_diagnostics] at member
  rcases List.mem_append.mp member with lexical | report
  · have both := (lexical_lexical lexical).1
    rw [structural] at both
    cases both
  · have place := ((parsed_agrees source).1 d report).2
    rcases Node.mem_errorStarts (n := (parse source).root).mp place with ⟨n, below, error, start⟩
    refine ⟨n, Node.mem_descendants.mpr ⟨below, ?_⟩, error, start⟩
    rw [Node.isHidden, error]
    rfl

theorem error_reported (source : List Char) {n : Node} (below : n ∈ (parse source).root.everything)
    (error : n.kind = .node .error) :
    ∃ d ∈ (parse source).diagnostics, d.kind.isLexical = false ∧ d.anchor = n.start := by
  have place : n.start ∈ (parse source).tree.errorStarts 0 :=
    Node.mem_errorStarts (n := (parse source).root).mpr ⟨n, below, error, rfl⟩
  rcases (parsed_agrees source).2 _ place with ⟨d, report, anchored⟩
  refine ⟨d, ?_, ((parsed_agrees source).1 d report).1, anchored⟩
  rw [parse_diagnostics]
  exact List.mem_append_right _ report

theorem hasErrors_iff (source : List Char) :
    (parse source).hasErrors = true ↔ (parse source).diagnostics ≠ [] := by
  have errors : (parse source).hasErrors = true ↔
      ∃ n ∈ (parse source).root.everything, n.kind.isError = true :=
    Node.hasError_iff (parse source).root
  rw [errors]
  constructor
  · rintro ⟨n, below, error⟩
    -- A lexical error token is in an error node, which is reported.
    have node : ∃ m ∈ (parse source).root.everything, m.kind = .node .error := by
      cases kind : n.kind with
      | token lexical =>
        rw [kind] at error
        rcases parse_framed source n below (by rw [kind]; rfl) (by rw [kind]; exact error) with
          ⟨parent, inside, marked, -⟩
        exact ⟨parent, inside, marked⟩
      | node other =>
        rw [kind] at error
        exact ⟨n, below, kind.trans (congrArg _ (of_decide_eq_true error))⟩
    rcases node with ⟨m, inside, marked⟩
    rcases error_reported source inside marked with ⟨d, member, -⟩
    exact List.ne_nil_of_mem member
  · intro some_diagnostic
    rcases List.exists_mem_of_ne_nil _ some_diagnostic with ⟨d, member⟩
    cases lexical : d.kind.isLexical with
    | false =>
      rcases structural_backed source member lexical with ⟨n, below, error, -⟩
      refine ⟨n, (Node.mem_descendants.mp below).1, ?_⟩
      rw [error]
      rfl
    | true =>
      rw [parse_diagnostics] at member
      rcases List.mem_append.mp member with found | report
      · rcases (lexical_lexical found).2 with ⟨token, among, error⟩
        rcases carried_error (parse_carried source) among error with ⟨leaf, inside, error⟩
        rcases Node.mem_leaves (n := (parse source).root) inside with ⟨n, below, focus⟩
        refine ⟨n, below, ?_⟩
        rw [Node.kind, focus]
        exact error
      · have structural := ((parsed_agrees source).1 d report).1
        rw [lexical] at structural
        cases structural

/-- Structural diagnostics and error nodes point to each other, lexical error tokens are in error
nodes, and so a source has diagnostics exactly if its tree has an error. -/
theorem diagnostics_agree (source : List Char) :
    (∀ d ∈ (parse source).diagnostics, d.kind.isLexical = false →
        ∃ n ∈ (parse source).root.descendants, n.kind = .node .error ∧ n.start = d.anchor) ∧
      (∀ n ∈ (parse source).root.descendants, n.kind = .node .error →
        ∃ d ∈ (parse source).diagnostics, d.kind.isLexical = false ∧ d.anchor = n.start) ∧
      (∀ n ∈ (parse source).root.descendants, n.kind.isToken = true → n.kind.isError = true →
        ∃ parent ∈ (parse source).root.descendants,
          parent.kind = .node .error ∧ n ∈ parent.children) ∧
      ((parse source).hasErrors = true ↔ (parse source).diagnostics ≠ []) := by
  refine ⟨fun d member => structural_backed source member, ?_, ?_, hasErrors_iff source⟩
  · intro n below
    exact error_reported source (Node.mem_descendants.mp below).1
  · intro n below token error
    rcases Node.mem_descendants.mp below with ⟨below, shown⟩
    rcases parse_framed source n below token error with ⟨parent, inside, marked, child⟩
    refine ⟨parent, Node.mem_descendants.mpr ⟨inside, ?_⟩, marked, ?_⟩
    · rw [Node.isHidden, marked]
      rfl
    · rw [Node.children, List.mem_filter, shown]
      exact ⟨child, rfl⟩

end CraftDsl
