import CraftDsl.Proofs.BlankLines.Doubling
import CraftDsl.Proofs.BlankLines.Scenes
import CraftDsl.Proofs.Spellings

/-!
One more newline after a newline. A source without errors stays so, and has the same items, though lines
of a use case leave the clause they were in. Main statement: `items_insert_newline`.
-/
namespace CraftDsl

open CraftDsl.Tree

/-- Watches over phrases, which hold no newline, and over use cases, whose name comes before all nodes.
States: 0, anything may come; 1, in a phrase; 2, in a use case up to its name. -/
def wording : Monitor where
  start
    | .phrase => 1
    | .useCaseBlock => 2
    | _ => 0
  step s kind :=
    match s, kind with
    | 1, .token token => if token = .newline then none else some 1
    | 1, .node inner => if inner = .connectorWord ∨ inner = .error then some 1 else none
    | 2, .token token => if token = .string then some 0 else some 2
    | 2, .node inner => if inner = .error then some 0 else none
    | _, _ => some 0
  ends _ _ := .anything
  strict := false

theorem sourceFile_wording :
    (Production.sourceFile.foresee wording false (.unknown ⟨none, 0⟩)).isSome = true := by
  decide +kernel

theorem phrase_walk {children : List Tree} {s : Nat} (walked : wording.walk 1 children = some s) :
    ∀ c ∈ children, (∃ token : Token, c = leaf token ∧ token.kind ≠ .newline) ∨
      c.kind = .node .connectorWord ∨ c.kind = .node .error := by
  induction children with
  | nil => exact List.forall_mem_nil _
  | cons c children ih =>
    rw [Monitor.walk] at walked
    cases c with
    | leaf token =>
      by_cases newline : token.kind = .newline
      · have solid : ¬ (leaf token).kind.isTrivia = true := by
          rw [Tree.kind, newline]
          decide
        rw [if_neg solid] at walked
        simp [wording, Tree.kind, newline] at walked
      · have later : wording.walk 1 children = some s := by
          split at walked
          · exact walked
          · simpa [wording, Tree.kind, newline] using walked
        exact List.forall_mem_cons.mpr ⟨.inl ⟨token, rfl, newline⟩, ih later⟩
    | node kind inner =>
      have solid : ¬ (node kind inner).kind.isTrivia = true := Bool.false_ne_true
      rw [if_neg solid] at walked
      by_cases passed : kind = .connectorWord ∨ kind = .error
      · have later : wording.walk 1 children = some s := by
          simpa [wording, Tree.kind, passed] using walked
        refine List.forall_mem_cons.mpr ⟨.inr ?_, ih later⟩
        exact passed.imp (congrArg Kind.node) (congrArg Kind.node)
      · simp [wording, Tree.kind, passed] at walked

/-- A use case has its name before all nodes in it, so the name is found in the core too. -/
theorem name_walk {children : List Tree} {s : Nat} (walked : wording.walk 2 children = some s)
    (clean : ∀ c ∈ children, c.kind ≠ .node .error) :
    (coreAll children).find? (fun c => c.kind = .token .string) =
      children.find? fun c => c.kind = .token .string := by
  induction children with
  | nil => rfl
  | cons c children ih =>
    obtain ⟨whole, rest⟩ := List.forall_mem_cons.mp clean
    rw [Monitor.walk] at walked
    cases c with
    | leaf token =>
      have left : (leaf token).core = if (leaf token).kind.isFirm = true then [leaf token] else [] :=
        sift_bare (leaf token)
      rw [coreAll, left, List.find?_append, List.find?_cons]
      by_cases name : (leaf token).kind = .token .string
      · have firm : (leaf token).kind.isFirm = true := by
          rw [name]
          rfl
        rw [if_pos firm, List.find?_singleton, decide_eq_true name]
        rfl
      · have later : wording.walk 2 children = some s := by
          have other : ¬ token.kind = .string := fun same => name (congrArg Kind.token same)
          split at walked
          · exact walked
          · simpa [wording, Tree.kind, other] using walked
        have none : (if (leaf token).kind.isFirm = true then [leaf token] else []).find?
            (fun c => decide (c.kind = .token .string)) = none := by
          split
          · rw [List.find?_singleton, decide_eq_false name]
            rfl
          · rfl
        rw [none, Option.none_or, ih later rest, decide_eq_false name]
    | node kind inner =>
      -- Before the name there is no node but an error node.
      have other : ¬ kind = .error := fun error => whole (congrArg Kind.node error)
      simp [wording, Tree.kind, Kind.isTrivia, other] at walked

theorem clean_below {t : Tree} (clean : NodeKind.error ∉ t.nodeKinds) :
    ∀ s ∈ t.subtrees, s.kind ≠ .node .error := by
  have below := subtrees_induction (motive := fun s => NodeKind.error ∉ s.nodeKinds) (by
    intro kind children clean c member error
    refine clean (List.mem_cons_of_mem _ ?_)
    exact mem_nodeKindsAll.mpr ⟨c, member, error⟩) t clean
  intro s inside error
  obtain ⟨children, rfl⟩ := node_of_kind error
  exact below _ inside List.mem_cons_self

section

variable {source : List Char} (clean : NodeKind.error ∉ (parse source).tree.nodeKinds)

include clean

theorem tree_orderly : (parse source).tree.Orderly := by
  have sheathed := parse_sheathed source
  refine ⟨sheathed, fun p below same token member => ?_⟩
  obtain ⟨children, rfl⟩ := node_of_kind same
  obtain ⟨s, walked⟩ := parse_walks sourceFile_wording Bool.noConfusion below NodeKind.noConfusion
  rw [tokens_node] at member
  obtain ⟨c, child, inside⟩ := List.mem_flatMap.mp member
  have c_below := subtrees_subset below (mem_subtrees_child child)
  rcases phrase_walk walked c child with ⟨other, rfl, inline⟩ | connector | error
  · rw [List.mem_singleton.mp inside]
    exact inline
  · obtain ⟨inner, rfl⟩ := node_of_kind connector
    obtain ⟨word, rfl, among⟩ := sheathed _ _ c_below _ rfl
    have holds : NodeKind.connectorWord.content? = some .connectors := rfl
    have firm := content_firm holds among
    rw [List.mem_singleton.mp inside]
    intro newline
    rw [newline] at firm
    cases firm
  · exact absurd error (clean_below clean c c_below)

theorem block_name {children : List Tree}
    (below : node .useCaseBlock children ∈ (parse source).tree.subtrees) :
    (node .useCaseBlock (coreAll children)).word? .string =
      (node .useCaseBlock children).word? .string := by
  obtain ⟨s, walked⟩ := parse_walks sourceFile_wording Bool.noConfusion below NodeKind.noConfusion
  have whole : ∀ c ∈ children, c.kind ≠ .node .error := fun c child =>
    clean_below clean c (subtrees_subset below (mem_subtrees_child child))
  have same := name_walk walked whole
  simpa [word?, wordOf?, child?, Tree.children] using congrArg (Option.map text) same

end

/-- The item that a tree of the core stands for. -/
def Item.ofCore? (t : Tree) : Option Item :=
  if t.kind = .node .useCaseBlock then
    some (.useCase ⟨t.word? .string,
      (UseCase.scenes (t.children.filter fun s => UseCase.isBeat s.kind)).2⟩)
  else Item.ofTree? t

section

variable {t : Tree} (orderly : t.Orderly)

include orderly

/-- An item without clauses is in the core as it is, newlines, blanks and comments left out. -/
theorem ofCore?_plain (plain : t.Plain) (other : t.kind ≠ .node .useCaseBlock) :
    t.core.filterMap Item.ofCore? = (Item.ofTree? t).toList := by
  rw [core_plain t plain, sift_bare]
  cases firm : t.kind.isFirm with
  | true =>
    have bare_other : ¬ t.bare.kind = .node .useCaseBlock := by rwa [bare_kind]
    rw [if_pos rfl, List.filterMap_cons, Item.ofCore?, if_neg bare_other, item_bare orderly other]
    cases Item.ofTree? t <;> rfl
  | false =>
    cases t with
    | leaf token => rfl
    | node kind children => cases firm

theorem ofCore?_useCase {children : List Tree} (block : t = node .useCaseBlock children)
    (kept : UseCase.plan.Kept t)
    (name : (node .useCaseBlock (coreAll children)).word? .string = t.word? .string) :
    t.core.filterMap Item.ofCore? = (Item.ofTree? t).toList := by
  subst block
  have scenes := UseCase.scenes_core kept orderly
  have single : (node .useCaseBlock children).core = [node .useCaseBlock (coreAll children)] := rfl
  have here : (node .useCaseBlock (coreAll children)).kind = .node .useCaseBlock := rfl
  have inside : (node .useCaseBlock (coreAll children)).children = coreAll children := rfl
  rw [single, List.filterMap_cons, Item.ofCore?, if_pos here, name, inside, scenes]
  rfl

end

theorem leads_useCases {ts : List Tree} {after : Nat} (leads : UseCase.plan.Leads 1 ts after) :
    ∀ t ∈ ts, t.kind = .node .useCaseBlock := by
  generalize state : 1 = s at leads
  induction leads with
  | nil => exact List.forall_mem_nil _
  | cons move same rest ih =>
    subst state
    cases List.mem_singleton.mp move
    exact List.forall_mem_cons.mpr ⟨same, ih rfl⟩

theorem items_core {source : List Char} (clean : NodeKind.error ∉ (parse source).tree.nodeKinds) :
    (parse source).items = (coreAll (parse source).tree.children).filterMap Item.ofCore? := by
  have kept := Plan.parse_planned UseCase.sourceFile_plan source
  have orderly := tree_orderly clean
  have named {children : List Tree} : node .useCaseBlock children ∈ (parse source).tree.subtrees →
      (node .useCaseBlock (coreAll children)).word? .string =
        (node .useCaseBlock children).word? .string := block_name clean
  obtain ⟨trees, -, spelled⟩ := parse_spelled source
  rw [Parse.items]
  rw [spelled] at kept orderly named ⊢
  obtain ⟨after, leads, -⟩ := kept.leads
  have each : ∀ t ∈ trees, t.core.filterMap Item.ofCore? = (Item.ofTree? t).toList := by
    intro t member
    have t_kept := kept.child member
    have t_orderly := orderly.child member
    by_cases placed : UseCase.plan.has t.kind = true
    · have block := leads_useCases leads t (List.mem_filter.mpr ⟨member, placed⟩)
      obtain ⟨children, rfl⟩ := node_of_kind block
      exact ofCore?_useCase t_orderly rfl t_kept (named (mem_subtrees_child member))
    · refine ofCore?_plain t_orderly (UseCase.plain_absent t_kept (Bool.eq_false_iff.mpr placed)) ?_
      intro block
      rw [block] at placed
      exact placed rfl
  show trees.filterMap Item.ofTree? = (coreAll trees).filterMap Item.ofCore?
  rw [coreAll_flatMap, List.filterMap_flatMap, List.flatMap_congr each,
    List.filterMap_eq_flatMap_toList]

/-- Lets no newline come after a newline in a clause. States: 0, outside of clauses; 1, in a clause; 2,
in a clause after a newline. -/
def compact : Monitor where
  start kind := if kind = .whenClause then 1 else 0
  step s kind :=
    if s = 0 then some 0
    else if kind ≠ .token .newline then some 1
    else if s = 1 then some 2
    else none
  ends _ _ := .anything
  strict := false

theorem sourceFile_compact :
    (Production.sourceFile.foresee compact false (.unknown ⟨none, 0⟩)).isSome = true := by
  decide +kernel

def Tree.visibleKinds (ts : List Tree) : List Kind :=
  (ts.map Tree.kind).filter fun k => !k.isTrivia

/-- A newline comes right after another one, blanks and comments aside. -/
def Tree.Gaps (t : Tree) : Prop :=
  [Kind.token .newline, .token .newline] <:+: visibleKinds t.children

instance (t : Tree) : Decidable t.Gaps := inferInstanceAs (Decidable (_ <:+: _))

theorem compact_walk {s after : Nat} {children : List Tree} (inside : s ≠ 0)
    (walked : compact.walk s children = some after) :
    ¬ [Kind.token .newline, .token .newline] <:+: visibleKinds children ∧
      (s ≠ 1 → (visibleKinds children).head? ≠ some (.token .newline)) := by
  induction children generalizing s with
  | nil => exact ⟨by decide, fun _ => by decide⟩
  | cons c children ih =>
    rw [Monitor.walk] at walked
    rw [visibleKinds, List.map_cons]
    split at walked
    · rename_i trivia
      rw [List.filter_cons_of_neg (by simpa using trivia)]
      exact ih inside walked
    · rename_i solid
      obtain ⟨next, stepped, rest⟩ := Option.bind_eq_some_iff.mp walked
      rw [List.filter_cons_of_pos (by simpa using solid), List.infix_cons_iff, List.cons_prefix_cons]
      by_cases newline : c.kind = .token .newline
      · have first : s = 1 := by
          by_contra other
          simp [compact, inside, newline, other] at stepped
        have second : next = 2 := by simpa [compact, first, newline] using stepped.symm
        obtain ⟨apart, next_other⟩ := ih (by omega) rest
        refine ⟨?_, fun other => absurd first other⟩
        rintro (⟨-, again⟩ | later)
        · exact next_other (by omega) (List.singleton_prefix_iff_head?_eq_some.mp again)
        · exact apart later
      · have second : next = 1 := by simpa [compact, inside, newline] using stepped.symm
        obtain ⟨apart, -⟩ := ih (by omega) rest
        refine ⟨?_, fun _ same => newline (Option.some.inj same)⟩
        rintro (⟨same, -⟩ | later)
        · exact newline same.symm
        · exact apart later

theorem clause_compact (source : List Char) {clause : Tree}
    (below : clause ∈ (parse source).tree.subtrees) (same : clause.kind = .node .whenClause) :
    ¬ clause.Gaps := by
  obtain ⟨children, rfl⟩ := node_of_kind same
  obtain ⟨s, walked⟩ := parse_walks sourceFile_compact Bool.noConfusion below NodeKind.noConfusion
  exact (compact_walk Nat.one_ne_zero walked).1

/-- The source with a text put in after as many tokens. -/
def insertAfter (count : Nat) (text source : List Char) : List Char :=
  let place := (((lex source).take count).flatMap Token.text).length
  source.take place ++ text ++ source.drop place

theorem insertAfter_eq (count : Nat) (text source : List Char) :
    insertAfter count text source =
      ((lex source).take count).flatMap Token.text ++ text ++
        ((lex source).drop count).flatMap Token.text := by
  have whole : source = ((lex source).take count).flatMap Token.text ++
      ((lex source).drop count).flatMap Token.text := by
    rw [← List.flatMap_append, List.take_append_drop, lex_text]
  have first := congrArg (List.take (((lex source).take count).flatMap Token.text).length) whole
  have rest := congrArg (List.drop (((lex source).take count).flatMap Token.text).length) whole
  rw [List.take_left] at first
  rw [List.drop_left] at rest
  rw [insertAfter, first, rest]

/-- One more newline after a newline of a source without errors. There are still no errors, and all
items are the same: their names and properties, sections and components, scenarios with triggers and
actions. The trees are not, as no clause goes on after a blank line. -/
theorem items_insert_newline {source extra : List Char} {place : Nat} {newline : Token}
    (sound : (parse source).hasErrors = false) (found : (lex source)[place]? = some newline)
    (line : newline.kind = .newline) (spelled : TokenKind.newline.Spelled extra) :
    (parse (insertAfter (place + 1) extra source)).hasErrors = false ∧
      (parse (insertAfter (place + 1) extra source)).items = (parse source).items ∧
      ∀ clause ∈ (parse (insertAfter (place + 1) extra source)).tree.subtrees,
        clause.kind = .node .whenClause → ¬ clause.Gaps := by
  have clean := Tree.clean_of_sound sound
  have front : (lex source).take (place + 1) = (lex source).take place ++ [newline] := by
    rw [List.take_add_one, found]
    rfl
  have tokens : lex source = (lex source).take place ++ newline :: (lex source).drop (place + 1) := by
    have split := (List.take_append_drop (place + 1) (lex source)).symm
    rwa [front, List.append_assoc, List.singleton_append] at split
  have doubled := lex_doubled tokens line (TokenKind.spelled_newline.mp spelled)
  rw [← front, ← insertAfter_eq] at doubled
  obtain ⟨core, still⟩ := core_doubled tokens doubled line rfl ((sound_iff source).mp sound)
  have sound' := (sound_iff _).mpr still
  refine ⟨sound', ?_, fun clause below same => clause_compact _ below same⟩
  rw [items_core (Tree.clean_of_sound sound'), items_core clean, core]

def twoActions : List Char :=
  "use_case \"u\" \x7b\n when \"e\"\n a asks b to pay\n b checks it\n\x7d".toList

/-- A newline between them moves the second action out of the clause, and no more than that. -/
theorem twoActions_parted :
    (parse (insertAfter 22 ['\n'] twoActions)).hasErrors = false ∧
      (parse (insertAfter 22 ['\n'] twoActions)).items = (parse twoActions).items ∧
      NodeKind.scenarioContinuation ∉ (parse twoActions).tree.nodeKinds ∧
      NodeKind.scenarioContinuation ∈ (parse (insertAfter 22 ['\n'] twoActions)).tree.nodeKinds := by
  have sound : (parse twoActions).hasErrors = false := by decide +kernel
  have found : (lex twoActions)[21]? = some ⟨.newline, ['\n']⟩ := by decide +kernel
  obtain ⟨still, same, -⟩ :=
    items_insert_newline sound found rfl (TokenKind.spelled_newline.mpr (.inl rfl))
  exact ⟨still, same, by decide +kernel, by decide +kernel⟩

end CraftDsl
