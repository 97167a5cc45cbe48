import CraftDsl.Proofs.Blanks
import CraftDsl.Proofs.SharedLines.Laps
import CraftDsl.Proofs.Spans

/-!
Items on one line. In blocks of services, domains, actors and exposures the newlines between two items
may be replaced by a blank, unless a comma comes right before them: a list that ends with one goes on
with the next word, whatever line that is on. Main statement: `items_share_line`.
-/
namespace CraftDsl

/-- Nodes with items in braces that may share a line. -/
def NodeKind.hasItems (kind : NodeKind) : Bool :=
  kind.isListing || kind = .serviceDefinition || kind = .domainDefinition

/-- Where nodes with items stand. States: 0, nowhere below; 1, a source; 2, services; 3, domains;
4, outside of all nodes. -/
def listings : Plan where
  places kind := kind.hasItems || kind = .sourceFile
  start
    | .sourceFile => 1
    | .servicesBlock => 2
    | .domainsBlock => 3
    | _ => 0
  onward
    | 1 => [(.servicesBlock, 1), (.serviceBlock, 1), (.domainBlock, 1), (.domainsBlock, 1),
        (.actorsBlock, 1), (.exposureBlock, 1)]
    | 2 => [(.serviceDefinition, 2)]
    | 3 => [(.domainDefinition, 3)]
    | 4 => [(.sourceFile, 4)]
    | _ => []
  unfinished := []
  bare kind := by cases kind <;> decide
  error := by decide

theorem sourceFile_listings :
    (Production.sourceFile.foresee listings.monitor false (.unknown ⟨none, 4⟩)).isSome = true := by
  decide +kernel

theorem leads_listings {ts : List Tree} {after : Nat} (leads : listings.Leads 1 ts after) :
    ∀ t ∈ ts, ∃ kind, t.kind = .node kind ∧ kind.isListing = true := by
  generalize state : 1 = s at leads
  induction leads with
  | nil => exact List.forall_mem_nil _
  | @cons s middle after kind t ts move same rest ih =>
    subst state
    have first : kind.isListing = true ∧ 1 = middle := by
      simp only [listings, List.mem_cons, Prod.mk.injEq, List.not_mem_nil, or_false] at move
      rcases move with ⟨rfl, rfl⟩ | ⟨rfl, rfl⟩ | ⟨rfl, rfl⟩ | ⟨rfl, rfl⟩ | ⟨rfl, rfl⟩ | ⟨rfl, rfl⟩ <;>
        exact ⟨rfl, rfl⟩
    exact List.forall_mem_cons.mpr ⟨⟨kind, same, first.1⟩, ih first.2⟩

namespace Node

theorem span_within {n m : Node} (below : m ∈ n.everything) :
    n.span.start ≤ m.span.start ∧ m.span.stop ≤ n.span.stop := by
  refine everything_induction (motive := fun m =>
    n.span.start ≤ m.span.start ∧ m.span.stop ≤ n.span.stop) n ⟨Nat.le_refl _, Nat.le_refl _⟩ ?_ m below
  rintro m - ⟨first, last⟩ child member
  obtain ⟨kind, before, after, focus, start, -⟩ := mem_allChildren member
  have width : m.focus.width = Tree.widthAll before + (child.focus.width + Tree.widthAll after) := by
    rw [focus, Tree.width_eq, Tree.tokens_node, List.flatMap_append, List.flatMap_cons, widthOf_append,
      widthOf_append, ← Tree.widthAll_eq, ← Tree.widthAll_eq, ← Tree.width_eq]
  simp only [span] at first last ⊢
  omega

theorem everything_subset {n m : Node} (below : m ∈ n.everything) : m.everything ⊆ n.everything := by
  refine everything_induction (motive := fun m => m.everything ⊆ n.everything) n
    (List.Subset.refl _) ?_ m below
  intro m _ inside child member k lower
  apply inside
  rw [everything_eq]
  exact List.mem_cons_of_mem _ (List.mem_flatMap.mpr ⟨child, member, lower⟩)

theorem child_below {n child : Node} (member : child ∈ n.allChildren) : child ∈ n.everything := by
  rw [everything_eq]
  refine List.mem_cons_of_mem _ (List.mem_flatMap.mpr ⟨child, member, ?_⟩)
  rw [everything_eq]
  exact List.mem_cons_self

end Node

theorem listing_around {source : List Char} {n : Node} (below : n ∈ (parse source).root.everything)
    {kind : NodeKind} (node : n.kind = .node kind) (items : kind.hasItems = true) :
    ∃ child ∈ (parse source).root.allChildren, n ∈ child.everything ∧
      ∃ outer, child.kind = .node outer ∧ outer.isListing = true := by
  obtain ⟨trees, -, spelled⟩ := parse_spelled source
  have tree : (parse source).tree = .node .sourceFile trees := by rw [spelled]
  obtain ⟨child, among, inside⟩ : ∃ child ∈ (parse source).root.allChildren, n ∈ child.everything := by
    rw [Node.everything_eq] at below
    rcases List.mem_cons.mp below with rfl | lower
    · have root : (parse source).root.kind = .node .sourceFile := congrArg Tree.kind tree
      cases Kind.node.inj (root.symm.trans node)
      cases items
    · exact List.mem_flatMap.mp lower
  have member : child.focus ∈ trees := by
    have mapped := List.mem_map_of_mem (f := Node.focus) among
    rwa [Node.allChildren_focus, show (parse source).root.focus = _ from tree] at mapped
  have kept := Plan.parse_planned sourceFile_listings source
  rw [tree] at kept
  have placed : listings.has child.focus.kind = true := by
    by_contra absent
    have nothing := Plan.landmarks_absent child.focus (kept.child member) (Bool.eq_false_iff.mpr absent)
    have here : n.focus ∈ listings.landmarks child.focus := by
      refine List.mem_filter.mpr ⟨Node.focus_subtrees n inside, ?_⟩
      rw [show n.focus.kind = .node kind from node]
      exact Bool.or_eq_true_iff.mpr (.inl items)
    rw [nothing] at here
    cases here
  obtain ⟨after, leads, -⟩ := kept.leads
  exact ⟨child, among, inside,
    leads_listings leads child.focus (List.mem_filter.mpr ⟨member, placed⟩)⟩

section

variable {tokens front rest first second : List Token} (split : tokens = front ++ rest)
  (carried : List.Forall₂ Carried tokens (first ++ second))

include carried

theorem carried_before : widthOf (tokens.take first.length) = widthOf first := by
  have taken := carried_width (List.forall₂_take first.length carried)
  rwa [List.take_left, eq_comm] at taken

include split

/-- Where the leaves from a place on begin with one that is no blank, so do the tokens. -/
theorem solids_begin {leaf : Token} {leaves : List Token} (begins : second = leaf :: leaves)
    (solid : leaf.isTrivia = false) (short : widthOf first < widthOf front) :
    (solids rest).length < (solids (tokens.drop first.length)).length := by
  have inside : first.length < front.length := by
    by_contra long
    have whole : tokens.take first.length = front ++ rest.take (first.length - front.length) := by
      rw [split, List.take_append, List.take_of_length_le (Nat.le_of_not_lt long)]
    rw [← carried_before carried, whole, widthOf_append] at short
    omega
  have left := List.forall₂_drop first.length carried
  rw [split, List.drop_left, begins, List.drop_append_of_le_length inside.le] at left
  rw [split, List.drop_append_of_le_length inside.le]
  obtain ⟨token, more, whole⟩ : ∃ token more, front.drop first.length = token :: more := by
    apply List.exists_cons_of_ne_nil
    simpa using inside
  rw [whole, List.cons_append] at left ⊢
  obtain ⟨one, -⟩ := List.forall₂_cons.mp left
  rw [one.trivia] at solid
  rw [solids_cons _ solid, solids_append, List.length_cons, List.length_append]
  omega

theorem solids_past (wide : ∀ token ∈ tokens, 0 < token.width)
    (long : widthOf front ≤ widthOf first) :
    (solids (tokens.drop first.length)).length ≤ (solids rest).length := by
  have past : front.length ≤ first.length := by
    by_contra short
    have inside : tokens.take first.length = front.take first.length := by
      rw [split, List.take_append_of_le_length (Nat.le_of_not_le short)]
    have whole := congrArg widthOf (List.take_append_drop first.length front)
    obtain ⟨token, left, more⟩ : ∃ token left, front.drop first.length = token :: left := by
      apply List.exists_cons_of_ne_nil
      simpa using short
    have positive : 0 < token.width := by
      apply wide
      rw [split]
      exact List.mem_append_left _ (List.drop_subset _ front (more ▸ List.mem_cons_self))
    rw [widthOf_append, ← inside, more, widthOf_cons, carried_before carried] at whole
    omega
  obtain ⟨more, length⟩ := Nat.exists_eq_add_of_le past
  rw [split, length, List.drop_length_add_append]
  exact solids_drop_le more rest

end

theorem carried_wide {tokens leaves : List Token} (carried : List.Forall₂ Carried tokens leaves)
    (wide : ∀ token ∈ tokens, 0 < token.width) : ∀ leaf ∈ leaves, 0 < leaf.width := by
  induction carried with
  | nil => exact List.forall_mem_nil _
  | cons one rest ih =>
    obtain ⟨first, others⟩ := List.forall_mem_cons.mp wide
    refine List.forall_mem_cons.mpr ⟨?_, ih others⟩
    rwa [Token.width, one.text]

theorem tokens_wide {source : List Char} {n : Node} (below : n ∈ (parse source).root.everything) :
    ∀ token ∈ n.focus.tokens, 0 < token.width := by
  refine Node.everything_induction (motive := fun n => ∀ token ∈ n.focus.tokens, 0 < token.width)
    (parse source).root ?_ ?_ n below
  · exact carried_wide (parse_carried source) (lex_wide source)
  · intro m _ wide child member token inside
    obtain ⟨kind, before, after, focus, -, -⟩ := Node.mem_allChildren member
    apply wide
    rw [focus, Tree.tokens_node, List.flatMap_append, List.flatMap_cons]
    simp [inside]

theorem node_wide {source : List Char} (sound : (parse source).hasErrors = false) {child n : Node}
    (among : child ∈ (parse source).root.allChildren) (below : n ∈ child.everything)
    (solid : n.kind.isTrivia = false) : n.span.start < n.span.stop := by
  have member : child.focus ∈ (parse source).tree.children := by
    have mapped := List.mem_map_of_mem (f := Node.focus) among
    rwa [Node.allChildren_focus] at mapped
  have under : n.focus.subtrees ⊆ child.focus.subtrees :=
    Tree.subtrees_subset (Node.focus_subtrees n below)
  have cropped : n.focus.Cropped := fun other held lower =>
    parse_cropped source _ member other held (under lower)
  have filled : n.focus.Filled := fun other held lower =>
    parse_filled sound _ member other held (under lower)
  obtain ⟨last, found, -⟩ := n.focus.last_solid cropped filled solid
  have inside := List.mem_of_getLast? (Option.mem_def.mp found)
  have positive := tokens_wide (Node.everything_subset (Node.child_below among) below) last inside
  obtain ⟨before, after, tokens⟩ := List.mem_iff_append.mp inside
  rw [Node.span, Tree.width_eq, tokens, widthOf_append, widthOf_cons]
  show n.start < n.start + _
  omega

/-- Where a tree at the top of the source begins and ends. -/
theorem top_placed {source : List Char} {child : Node}
    (among : child ∈ (parse source).root.allChildren) :
    ∃ top pre post, (parse source).tree = .node top (pre ++ child.focus :: post) ∧
      child.span.start = widthOf (pre.flatMap Tree.tokens) ∧
      child.span.stop = widthOf (pre.flatMap Tree.tokens ++ child.focus.tokens) := by
  obtain ⟨top, pre, post, root, start, -⟩ := Node.mem_allChildren among
  have begins : child.span.start = widthOf (pre.flatMap Tree.tokens) := by
    rw [Node.span, start, Tree.widthAll_eq]
    exact Nat.zero_add _
  refine ⟨top, pre, post, root, begins, ?_⟩
  rw [widthOf_append, ← begins, ← Tree.width_eq]
  rfl

theorem listing_solid {source : List Char} {outer : NodeKind} {children : List Tree} {leaf : Token}
    {leaves : List Token} (member : .node outer children ∈ (parse source).tree.children)
    (listing : outer.isListing = true)
    (begins : (Tree.node outer children).tokens = leaf :: leaves) : leaf.isTrivia = false := by
  have late : outer.opensEarly = false := by
    cases outer <;> first | rfl | cases listing
  have edges := (parse_cropped source _ member outer children (Tree.mem_subtrees_self _)).1 late
  rw [← Tree.tokens_node outer, begins] at edges
  exact edges leaf rfl

/-- Two items of a node are found in a block at the top of the source that begins before the first
item ends, and ends after the second begins. -/
theorem listing_placed {source : List Char} (sound : (parse source).hasErrors = false)
    {block item next : Node} (below : block ∈ (parse source).root.everything) {kind : NodeKind}
    (node : block.kind = .node kind) (items : kind.hasItems = true) (first : item ∈ block.allChildren)
    (solid : item.kind.isTrivia = false) (second : next ∈ block.allChildren)
    {front run rest : List Token} (tokens : lex source = front ++ (run ++ rest))
    (after : item.span.stop ≤ widthOf front) (before : widthOf (front ++ run) ≤ next.span.start) :
    ∃ pre outer children post, (parse source).tree.children = pre ++ .node outer children :: post ∧
      outer.isListing = true ∧
      (solids (run ++ rest)).length <
        (solids ((lex source).drop (pre.flatMap Tree.tokens).length)).length ∧
      (solids ((lex source).drop
        ((pre ++ [.node outer children]).flatMap Tree.tokens).length)).length ≤
          (solids rest).length := by
  obtain ⟨child, among, inside, outer, same, listing⟩ := listing_around below node items
  obtain ⟨children, focus⟩ := Tree.node_of_kind same
  obtain ⟨top, pre, post, tree, begins, ends⟩ := top_placed among
  have carried := parse_carried source
  rw [tree, Tree.tokens_node, List.flatMap_append, List.flatMap_cons] at carried
  have around := Node.span_within inside
  have holds_first := Node.span_within (Node.child_below first)
  have holds_second := Node.span_within (Node.child_below second)
  have item_wide := node_wide sound among (Node.everything_subset inside (Node.child_below first)) solid
  have forwards : next.span.start ≤ next.span.stop := Nat.le_add_right _ _
  refine ⟨pre, outer, children, post, by rw [tree, Tree.children, focus], listing, ?_, ?_⟩
  · obtain ⟨leaf, leaves, whole⟩ : ∃ leaf leaves, child.focus.tokens = leaf :: leaves := by
      apply List.exists_cons_of_ne_nil
      intro none
      rw [none, List.append_nil] at ends
      omega
    have member : .node outer children ∈ (parse source).tree.children := by
      rw [tree, Tree.children, focus]
      exact List.mem_append_right _ List.mem_cons_self
    have solid := listing_solid member listing (focus ▸ whole)
    have first_leaf : child.focus.tokens ++ post.flatMap Tree.tokens =
        leaf :: (leaves ++ post.flatMap Tree.tokens) := by rw [whole, List.cons_append]
    refine solids_begin tokens carried first_leaf solid ?_
    omega
  · rw [← List.append_assoc] at tokens carried
    rw [← focus, List.flatMap_append, List.flatMap_singleton]
    refine solids_past tokens carried (lex_wide source) ?_
    omega

theorem solids_tokenize (source : List Char) : solids (tokenize source) = solids (lex source) := by
  rw [solids, tokenize_eq, List.filter_filter, solids]
  refine List.filter_congr fun token _ => ?_
  by_cases blank : token.kind = .whitespace
  · simp [Token.isTrivia, TokenKind.isTrivia, blank]
  · simp [blank]

theorem lex_sound {source : List Char} (sound : (parse source).hasErrors = false) :
    ∀ token ∈ lex source, token.kind.isError = false := by
  intro token member
  by_contra error
  obtain ⟨leaf, among, lexical⟩ := carried_error (parse_carried source) member (by simpa using error)
  obtain ⟨m, below, focus⟩ := Node.mem_leaves (n := (parse source).root) among
  have found : (parse source).root.focus.hasError = true := by
    refine (Node.hasError_iff _).mpr ⟨m, below, ?_⟩
    rw [Node.kind, focus]
    exact lexical
  exact Bool.noConfusion (sound.symm.trans found)

section

variable {source : List Char} {front run rest : List Token} (sound : (parse source).hasErrors = false)
  (plain : ∀ token ∈ lex source, token.kind ≠ .lineComment)
  (tokens : lex source = front ++ (run ++ rest))

include sound plain tokens

theorem solids_spaced :
    solids (lex (front.flatMap Token.text ++ ' ' :: rest.flatMap Token.text)) =
      solids front ++ solids rest := by
  have closed : ∀ last ∈ (lex (front.flatMap Token.text)).getLast?, last.kind.isClosed = true := by
    rw [lex_front tokens]
    intro last found
    have member : last ∈ lex source := by
      rw [tokens]
      exact List.mem_append_left _ (List.mem_of_getLast? found)
    have ordinary := plain last member
    have whole := lex_sound sound last member
    cases kind : last.kind <;> simp_all [TokenKind.isClosed, TokenKind.isError]
  have blank : ∀ c ∈ [' '], isBlank c = true := List.forall_mem_singleton.mpr rfl
  have apart := tokenize_apart closed blank (List.cons_ne_nil _ _) (rest.flatMap Token.text)
  rw [List.append_assoc, List.singleton_append] at apart
  have split : lex source = (front ++ run) ++ rest := by rw [tokens, List.append_assoc]
  rw [← solids_tokenize, apart, solids_append, solids_tokenize, solids_tokenize, lex_front tokens,
    lex_rest split]

/-- Two items of a node with newlines between them, and no comma right before these: a blank in their
place leaves the core of the source as it is. -/
theorem core_spaced {block item next : Node} (below : block ∈ (parse source).root.everything)
    {kind : NodeKind} (node : block.kind = .node kind) (items : kind.hasItems = true)
    (first : item ∈ block.allChildren) (solid : item.kind.isTrivia = false)
    (second : next ∈ block.allChildren) (after : item.span.stop ≤ widthOf front)
    (before : widthOf (front ++ run) ≤ next.span.start)
    (blank : ∀ token ∈ run, token.kind = .newline ∨ token.isTrivia = true)
    (newline : ∃ token ∈ run, token.kind = .newline)
    (inline : ∀ last ∈ (solids front).getLast?, last.kind ≠ .comma) :
    corePieces (parsed (lex (front.flatMap Token.text ++ ' ' :: rest.flatMap Token.text))).pieces =
      corePieces (parsed (lex source)).pieces := by
  obtain ⟨pre, outer, children, post, split, listing, begins, passes⟩ :=
    listing_placed sound below node items first solid second tokens after before
  have lines : solids run ≠ [] ∧ ∀ line ∈ solids run, line.kind = .newline := by
    obtain ⟨line, member, kind⟩ := newline
    constructor
    · refine List.ne_nil_of_mem (List.mem_filter.mpr ⟨member, ?_⟩)
      rw [newline_solid kind]
      rfl
    · intro line member
      obtain ⟨among, solid⟩ := List.mem_filter.mp member
      exact (blank line among).resolve_right (by simpa using solid)
  obtain ⟨more, whole⟩ := Production.laps_child split
  have clean : (parsed (lex source)).Clean := (sound_iff source).mp sound
  rw [Production.parsed_laps] at clean
  have past : tokensOf (pre.map .tree ++ [.tree (.node outer children)]) =
      (pre ++ [Tree.node outer children]).flatMap Tree.tokens := by
    rw [← tokensOf_trees, List.map_append]
    rfl
  have ahead : solids (lex source) = solids front ++ (solids run ++ solids rest) := by
    rw [tokens, solids_append, solids_append]
  refine Production.core_laps (Production.laps_join lines.1 lines.2 listing _ _ ahead
    (solids_spaced sound plain tokens) inline (Production.parse_laps _).1 (Production.parse_laps _).1
    clean.wrapped.andThen.1 whole ?_ ?_)
  · rw [tokensOf_trees, ← solids_append]
    exact begins
  · rw [past]
    exact passes

end

def Node.items (n : Node) : List Node := n.allChildren.filter fun child => !child.kind.isToken

/-- Two items of a block in a source without errors and line comments, with newlines between them and no
comma right before these. With a blank in place of the newlines there are still no errors, and all items
are the same. -/
theorem items_share_line {source : List Char} (sound : (parse source).hasErrors = false)
    (plain : ∀ token ∈ lex source, token.kind ≠ .lineComment) {block item next : Node}
    (below : block ∈ (parse source).root.everything) {kind : NodeKind} (node : block.kind = .node kind)
    (items : kind.hasItems = true) (consecutive : [item, next] <:+: block.items)
    {front run rest : List Token} (tokens : lex source = front ++ (run ++ rest))
    (after : item.span.stop ≤ widthOf front) (before : widthOf (front ++ run) ≤ next.span.start)
    (blank : ∀ token ∈ run, token.kind = .newline ∨ token.isTrivia = true)
    (newline : ∃ token ∈ run, token.kind = .newline)
    (inline : ∀ last ∈ (solids front).getLast?, last.kind ≠ .comma) :
    (parse (front.flatMap Token.text ++ ' ' :: rest.flatMap Token.text)).hasErrors = false ∧
      (parse (front.flatMap Token.text ++ ' ' :: rest.flatMap Token.text)).items =
        (parse source).items := by
  have member {n : Node} (among : n ∈ [item, next]) :
      n ∈ block.allChildren ∧ n.kind.isToken = false := by
    simpa using List.mem_filter.mp (consecutive.subset among)
  obtain ⟨first, ordinary⟩ := member (n := item) (by simp)
  have solid : item.kind.isTrivia = false := by
    cases kind : item.kind with
    | token other =>
      rw [kind] at ordinary
      cases ordinary
    | node other => rfl
  have core := core_spaced sound plain tokens below node items first solid (member (by simp)).1 after
    before blank newline inline
  obtain ⟨trees, still⟩ := core_children core ((sound_iff source).mp sound)
  have sound' := (sound_iff _).mpr still
  refine ⟨sound', ?_⟩
  rw [items_core (Tree.clean_of_sound sound'), items_core (Tree.clean_of_sound sound), trees]

/-- A node and its two items, told by their places. -/
theorem two_items {source : List Char} {place : Nat} {kind : NodeKind} {first second : Span}
    (found : (parse source).root.everything[place]?.map (fun n => (n.kind, n.items.map Node.span)) =
      some (.node kind, [first, second])) :
    ∃ block ∈ (parse source).root.everything, ∃ item next, block.kind = .node kind ∧
      [item, next] <:+: block.items ∧ item.span = first ∧ next.span = second := by
  obtain ⟨block, place, same⟩ := Option.map_eq_some_iff.mp found
  obtain ⟨kind, spans⟩ := Prod.mk.inj same
  obtain ⟨item, left, items, one, rest⟩ := List.map_eq_cons_iff.mp spans
  obtain ⟨next, none, split, two, last⟩ := List.map_eq_cons_iff.mp rest
  rw [List.map_eq_nil_iff.mp last] at split
  refine ⟨block, List.mem_of_getElem? place, item, next, kind, ?_, one, two⟩
  rw [items, split]

/-- Two properties with a blank line between them. -/
def exposedApart : List Char := "exposure P \x7b to: A\n\n of: B \x7d".toList

theorem exposedApart_joined :
    (parse "exposure P \x7b to: A  of: B \x7d".toList).hasErrors = false ∧
      (parse "exposure P \x7b to: A  of: B \x7d".toList).items = (parse exposedApart).items := by
  have sound : (parse exposedApart).hasErrors = false := by decide +kernel
  obtain ⟨block, below, item, next, kind, items, first, second⟩ :=
    two_items (show (parse exposedApart).root.everything[1]?.map
      (fun n => (n.kind, n.items.map Node.span)) =
        some (.node .exposureBlock, [⟨13, 18⟩, ⟨21, 26⟩]) by decide +kernel)
  have tokens : lex exposedApart = (lex exposedApart).take 10 ++
      (((lex exposedApart).drop 10).take 2 ++ (lex exposedApart).drop 12) := by decide +kernel
  have whole := items_share_line sound (by decide +kernel) below kind rfl items tokens
    (by rw [first]; decide +kernel) (by rw [second]; decide +kernel) (by decide +kernel)
    (by decide +kernel) (by decide +kernel)
  have text : ((lex exposedApart).take 10).flatMap Token.text ++
      ' ' :: ((lex exposedApart).drop 12).flatMap Token.text =
        "exposure P \x7b to: A  of: B \x7d".toList := by decide +kernel
  rwa [text] at whole

def exposedComma : List Char := "exposure P \x7b to: A,\n of: B \x7d".toList

/-- On the same line the list goes on with the keyword of the next property. -/
theorem exposedComma_swallows :
    (parse exposedComma).hasErrors = false ∧
      (∀ token ∈ lex exposedComma, token.kind ≠ .lineComment) ∧
      (∃ block ∈ (parse exposedComma).root.everything, ∃ item next,
        block.kind = .node .exposureBlock ∧ [item, next] <:+: block.items ∧
          item.span.stop ≤ widthOf ((lex exposedComma).take 11) ∧
          widthOf ((lex exposedComma).take 12) ≤ next.span.start) ∧
      (lex exposedComma)[11]?.map Token.kind = some .newline ∧
      (parse (((lex exposedComma).take 11).flatMap Token.text ++
        ' ' :: ((lex exposedComma).drop 12).flatMap Token.text)).hasErrors = true := by
  refine ⟨by decide +kernel, by decide +kernel, ?_, by decide +kernel, by decide +kernel⟩
  obtain ⟨block, below, item, next, kind, items, first, second⟩ :=
    two_items (show (parse exposedComma).root.everything[1]?.map
      (fun n => (n.kind, n.items.map Node.span)) =
        some (.node .exposureBlock, [⟨13, 19⟩, ⟨21, 26⟩]) by decide +kernel)
  refine ⟨block, below, item, next, kind, items, ?_, ?_⟩
  · rw [first]
    decide +kernel
  · rw [second]
    decide +kernel

end CraftDsl
