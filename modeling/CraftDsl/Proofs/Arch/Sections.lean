import CraftDsl.Proofs.Arch.Printing
import CraftDsl.Proofs.Reading.Words

/-!
A printed architecture is read as one tree, in which each line hangs off the line before it, and each
section off the last line of the section before it.
-/
namespace CraftDsl

open TokenKind (identifier)

def ModifierValue.tree : ModifierValue → Tree
  | identifier word => identifierLeaf word
  | number digits => .leaf ⟨.number, digits⟩
  | boolean value => .node .boolean [.leaf (part (booleanWord value))]

def Modifier.tree (m : Modifier) : Tree :=
  .node .modifier <| m.key.toList.map (named .modifierKey) ++
    (m.value.map fun value => [.leaf (sign ':'), .leaf blank, value.tree]).getD []

def bracketTrees : List Modifier → List Tree
  | [] => []
  | m :: ms =>
    [.node .componentModifiers
      [.leaf (sign '['),
        .node .modifierList
          (m.tree :: ms.flatMap fun m => [.leaf (sign ','), .leaf blank, m.tree]),
        .leaf (sign ']')]]

def Component.tree (c : Component) : Tree :=
  .node .componentWithModifiers (c.name.toList.map (named .componentName) ++ bracketTrees c.modifiers)

def tailTrees (components : List Component) : List Tree :=
  components.flatMap fun c => [.leaf blank, .leaf (sign '>'), .leaf blank, c.tree]

def ComponentLine.node : ComponentLine → NodeKind
  | simple _ => .simpleComponent
  | flow _ => .componentFlow

def ComponentLine.tree (l : ComponentLine) : Tree :=
  .node l.node <| match l.components with
    | [] => []
    | c :: cs => c.tree :: tailTrees cs

def ComponentLine.list (after : List Tree) (l : ComponentLine) : Tree :=
  .node .archComponentList [l.tree, .node .archContinuation (.leaf lineBreak :: after)]

def listTrees (lines : List ComponentLine) (after : List Tree) : List Tree :=
  lines.foldr (fun l after => [l.list after]) after

def SectionKind.node : SectionKind → NodeKind
  | presentation => .presentationSection
  | gateway => .gatewaySection

/-- A section, with what comes after it in the continuation of its last line. -/
def Section.tree (after : List Tree) (s : Section) : Tree :=
  .node s.kind.node <|
    [.leaf (part s.kind.word), .leaf (sign ':'), .leaf lineBreak] ++ listTrees s.lines after

def sectionTrees (sections : List Section) : List Tree :=
  sections.foldr (fun s after => [s.tree after]) []

def Arch.tree (a : Arch) : Tree :=
  .node .archBlock <| [.leaf (part Keyword.arch.word)] ++
    (a.name.map fun name => [.leaf blank, identifierLeaf name]).getD [] ++
    [.leaf blank, .leaf (part ['\x7b']), .leaf lineBreak] ++ sectionTrees a.sections ++ [.leaf closing]

section

variable {w : Word}

theorem booleans_part (spelled : identifier.Spelled w) :
    KindSet.booleans.has (part w).kind = decide (w ∈ [true, false].map booleanWord) :=
  keywords_part spelled [.trueValue, .falseValue]

theorem sections_part (spelled : identifier.Spelled w) :
    KindSet.archSectionFirst.has (part w).kind =
      decide (w ∈ [SectionKind.presentation, .gateway].map SectionKind.word) :=
  keywords_part spelled [.presentation, .gateway]

end

/-- A line begins with a word, and unless it begins like a section that is not one of theirs. -/
theorem ComponentLine.begins {l : ComponentLine} (legible : l.Legible) :
    ∃ n more, l.tokens = part n :: more ∧ identifier.Spelled n ∧
      (¬ l.Heads → n ∉ [SectionKind.presentation, .gateway].map SectionKind.word) := by
  obtain ⟨⟨name, modifiers⟩, cs, components, ⟨⟨n, rfl, spelled⟩, -⟩, -⟩ := l.first legible
  have tokens : l.tokens = part n :: (bracketTokens modifiers ++ (tailTokens cs ++ [lineBreak])) := by
    rw [ComponentLine.tokens, components]
    rfl
  refine ⟨n, _, tokens, spelled, fun plain among => plain ?_⟩
  obtain ⟨kind, member, same⟩ := List.mem_map.mp among
  refine ⟨⟨some n, modifiers⟩, by rw [components]; rfl, ?_⟩
  exact List.mem_map.mpr ⟨kind, member, congrArg some same⟩

theorem ComponentLine.shorter (l : ComponentLine) (more : List Token) :
    more.length < (l.tokens ++ more).length := by
  have line : 0 < l.tokens.length := by
    unfold ComponentLine.tokens
    split <;> simp only [List.length_append, List.length_cons] <;> omega
  rw [List.length_append]
  omega

namespace Production

section

variable {v : ModifierValue} (rest : List Token)

theorem word_no_number {w : Word} (spelled : identifier.Spelled w) :
    (atKind .number).Builds (blank :: part w :: rest) false [] (blank :: part w :: rest) := by
  refine at_other ?_
  rw [kindIn_blank, kindIn_part]
  exact part_other spelled rfl

theorem modifierValue_builds (legible : v.Legible) :
    modifierValue.Builds (blank :: v.token :: rest) true [.leaf blank, v.tree] rest := by
  have first {w : Word} : kindIn 0 (blank :: part w :: rest) = (part w).kind := by simp
  cases v with
  | identifier word =>
    obtain ⟨spelled, plain⟩ := legible
    have no_boolean := booleans_part spelled
    have seen := words_part spelled
    rw [decide_eq_false plain, ← first] at no_boolean
    rw [← first] at seen
    exact (word_no_number rest spelled).no <| (Builds.glance _ no_boolean).no <|
      (Builds.glance _ seen).yes (takeWord_builds [blank] blank_trivia word rest)
  | number digits =>
    let token : Token := ⟨.number, digits⟩
    have solid : token.isTrivia = false := rfl
    exact (at_token [blank] blank_trivia solid rest).yes (.take [blank] blank_trivia solid _ rest)
  | boolean value =>
    have spelled := booleanWord_spelled value
    have among : booleanWord value ∈ [true, false].map booleanWord := by cases value <;> simp
    have seen := booleans_part spelled
    rw [decide_eq_true among, ← first] at seen
    have taken := Builds.take [] (List.forall_mem_nil _) (part_isTrivia (booleanWord value)) .booleans
      rest
    exact (word_no_number rest spelled).no <| (Builds.glance _ seen).yes <|
      .node [blank] blank_trivia (part_isTrivia (booleanWord value)) .boolean taken

end

theorem modifier_builds (gap : List Token) (trivia : ∀ token ∈ gap, token.isTrivia = true)
    {m : Modifier} (legible : m.Legible) {rest : List Token} (next : kindIn 0 rest ≠ .colon) :
    modifier.Builds (gap ++ (m.tokens ++ rest)) true (gap.map Tree.leaf ++ [m.tree]) rest := by
  obtain ⟨key, value⟩ := m
  obtain ⟨⟨k, rfl, spelled⟩, valued⟩ := legible
  have none := List.forall_mem_nil fun token : Token => token.isTrivia = true
  cases value with
  | none =>
    have named := name_builds [] none .modifierKey "a modifier name" spelled rest
    have ended : (optionally (eat .colon) modifierValue).Builds rest true [] rest :=
      (eat_stops next).no (.answer true rest)
    exact .node gap trivia (part_isTrivia k) .modifier (named.seq ended)
  | some v =>
    let more := sign ':' :: blank :: v.token :: rest
    have named := name_builds [] none .modifierKey "a modifier name" spelled more
    have colon := eat_token [] none (show (sign ':').isTrivia = false from rfl)
      (blank :: v.token :: rest)
    have value := (modifierValue_builds rest (valued v rfl)).seq (.answer true rest)
    exact .node gap trivia (part_isTrivia k) .modifier (named.seq (colon.yes value))

theorem modifier_rounds {ms : List Modifier} (legible : ∀ m ∈ ms, m.Legible) (rest : List Token) :
    Rounds modifierRound ((ms.flatMap fun m => sign ',' :: blank :: m.tokens) ++ sign ']' :: rest)
      ((ms.flatMap fun m => [.leaf (sign ','), .leaf blank, m.tree]).map Piece.tree)
      (sign ']' :: rest) := by
  induction ms with
  | nil => exact .last (p := []) ((eat_stops TokenKind.noConfusion).no (.answer false _))
  | cons m ms ih =>
    obtain ⟨here, later⟩ := List.forall_mem_cons.mp legible
    let more := (ms.flatMap fun m => sign ',' :: blank :: m.tokens) ++ sign ']' :: rest
    have tokens : ((m :: ms).flatMap fun m => sign ',' :: blank :: m.tokens) ++ sign ']' :: rest =
        sign ',' :: blank :: (m.tokens ++ more) := by simp [more]
    have comma := eat_token [] (List.forall_mem_nil _) (show (sign ',').isTrivia = false from rfl)
      (blank :: (m.tokens ++ more))
    have word : atWord.Builds (blank :: (m.tokens ++ more)) true [] (blank :: (m.tokens ++ more)) := by
      obtain ⟨key, value⟩ := m
      obtain ⟨⟨k, rfl, spelled⟩, -⟩ := here
      exact at_word [blank] blank_trivia spelled _
    have next : kindIn 0 more ≠ .colon := by cases ms <;> exact TokenKind.noConfusion
    have read := modifier_builds [blank] blank_trivia here next
    have round : modifierRound.Builds (sign ',' :: blank :: (m.tokens ++ more)) true
        [.leaf (sign ','), .leaf blank, m.tree] more :=
      comma.yes (word.yes (read.seq (.answer true more)))
    rw [tokens]
    exact .more round (by simp; omega) (ih later)

theorem componentModifiers_builds {m : Modifier} {ms : List Modifier}
    (legible : ∀ n ∈ m :: ms, n.Legible) (rest : List Token) :
    componentModifiers.Builds (bracketTokens (m :: ms) ++ rest) true (bracketTrees (m :: ms)) rest := by
  obtain ⟨here, later⟩ := List.forall_mem_cons.mp legible
  have none := List.forall_mem_nil fun token : Token => token.isTrivia = true
  let more := (ms.flatMap fun m => sign ',' :: blank :: m.tokens) ++ sign ']' :: rest
  obtain ⟨k, tail, begins, spelled⟩ : ∃ k tail, m.tokens ++ more = part k :: tail ∧
      identifier.Spelled k := by
    obtain ⟨key, value⟩ := m
    obtain ⟨⟨k, rfl, spelled⟩, -⟩ := here
    exact ⟨k, _, rfl, spelled⟩
  have tokens : bracketTokens (m :: ms) ++ rest = sign '[' :: (m.tokens ++ more) := by
    simp [bracketTokens, more]
  have opened := Builds.take [] none (show (sign '[').isTrivia = false from rfl)
    (.single TokenKind.bracketOpen) (m.tokens ++ more)
  have next : kindIn 0 more ≠ .colon := by cases ms <;> exact TokenKind.noConfusion
  have read := modifier_builds [] none here next
  have inner := read.seq (Reads.loop (modifier_rounds later rest))
  have word : atWord.Builds (m.tokens ++ more) true [] (m.tokens ++ more) := by
    rw [begins]
    exact at_word [] none spelled tail
  have list : (node .modifierList (seq modifier (loop modifierRound))).Builds (m.tokens ++ more) true
      [.node .modifierList (m.tree :: ms.flatMap fun m => [.leaf (sign ','), .leaf blank, m.tree])]
      (sign ']' :: rest) := by
    rw [List.nil_append, begins] at inner
    rw [begins]
    exact .node [] none (part_isTrivia k) .modifierList inner
  have closed : (expect .bracketClose "`]` to close modifiers").Builds (sign ']' :: rest) true
      [.leaf (sign ']')] rest := expect_token [] none rfl rest
  rw [tokens]
  exact .node [] none rfl .componentModifiers (opened.seq ((word.yes list).seq closed))

theorem component_builds (gap : List Token) (trivia : ∀ token ∈ gap, token.isTrivia = true)
    {c : Component} (legible : c.Legible) {rest : List Token} (next : kindIn 0 rest ≠ .bracketOpen) :
    componentWithModifiers.Builds (gap ++ (c.tokens ++ rest)) true (gap.map Tree.leaf ++ [c.tree])
      rest := by
  obtain ⟨name, modifiers⟩ := c
  obtain ⟨⟨n, rfl, spelled⟩, legible⟩ := legible
  have named := name_builds [] (List.forall_mem_nil _) .componentName "a component name" spelled
    (bracketTokens modifiers ++ rest)
  have modified : (optionally (atKind .bracketOpen) componentModifiers).Builds
      (bracketTokens modifiers ++ rest) true (bracketTrees modifiers) rest := by
    cases modifiers with
    | nil =>
      exact (at_other next).no (.answer true rest)
    | cons m ms =>
      have asked : (atKind .bracketOpen).Builds (bracketTokens (m :: ms) ++ rest) true []
          (bracketTokens (m :: ms) ++ rest) := .look _ ((KindSet.has_token _ _).mpr rfl)
      have brackets := (componentModifiers_builds legible rest).seq (.answer true rest)
      rw [List.append_nil] at brackets
      exact asked.yes brackets
  exact .node gap trivia (part_isTrivia n) .componentWithModifiers (named.seq modified)

theorem flow_rounds {cs : List Component} (legible : ∀ c ∈ cs, c.Legible) (rest : List Token) :
    Rounds flowRound (tailTokens cs ++ lineBreak :: rest) ((tailTrees cs).map Piece.tree)
      (lineBreak :: rest) := by
  induction cs with
  | nil => exact .last (p := []) ((eat_stops TokenKind.noConfusion).no (.answer false _))
  | cons c cs ih =>
    obtain ⟨here, later⟩ := List.forall_mem_cons.mp legible
    let more := tailTokens cs ++ lineBreak :: rest
    have tokens : tailTokens (c :: cs) ++ lineBreak :: rest =
        blank :: sign '>' :: blank :: (c.tokens ++ more) := by simp [tailTokens, more]
    have arrow := eat_token [blank] blank_trivia (show (sign '>').isTrivia = false from rfl)
      (blank :: (c.tokens ++ more))
    have word : atWord.Builds (blank :: (c.tokens ++ more)) true [] (blank :: (c.tokens ++ more)) := by
      obtain ⟨name, modifiers⟩ := c
      obtain ⟨⟨n, rfl, spelled⟩, -⟩ := here
      exact at_word [blank] blank_trivia spelled _
    have next : kindIn 0 more ≠ .bracketOpen := by cases cs <;> exact TokenKind.noConfusion
    have read := component_builds [blank] blank_trivia here next
    have round : flowRound.Builds (blank :: sign '>' :: blank :: (c.tokens ++ more)) true
        [.leaf blank, .leaf (sign '>'), .leaf blank, c.tree] more :=
      arrow.yes (word.yes (read.seq (.answer true more)))
    rw [tokens]
    exact .more round (by simp; omega) (ih later)

/-- One component is read as such, and several as a flow. -/
theorem archComponent_builds {l : ComponentLine} (legible : l.Legible) (rest : List Token) :
    ∃ flows, archComponent.Builds (l.tokens ++ rest) flows [l.tree] (lineBreak :: rest) := by
  obtain ⟨n, tail, begins, spelled, -⟩ := l.begins legible
  obtain ⟨c, cs, components, here, later⟩ := l.first legible
  let more := tailTokens cs ++ lineBreak :: rest
  have tokens : l.tokens ++ rest = c.tokens ++ more := by
    simp [ComponentLine.tokens, components, more]
  have tree : l.tree = .node l.node (c.tree :: tailTrees cs) := by
    rw [ComponentLine.tree, components]
  have word : atWord.Builds (l.tokens ++ rest) true [] (l.tokens ++ rest) := by
    rw [begins]
    exact at_word [] (List.forall_mem_nil _) spelled (tail ++ rest)
  have settled : settle.Builds (l.tokens ++ rest) true [] (l.tokens ++ rest) := by
    rw [begins]
    exact .settle [] (List.forall_mem_nil _) (part_isTrivia n) (tail ++ rest)
  have next : kindIn 0 more ≠ .bracketOpen := by cases cs <;> exact TokenKind.noConfusion
  have read := component_builds [] (List.forall_mem_nil _) here next
  rw [List.nil_append, ← tokens] at read
  rw [tree]
  cases l with
  | simple components' =>
    obtain ⟨single, -⟩ := legible
    obtain rfl : components' = c :: cs := components
    obtain rfl : cs = [] := List.eq_nil_of_length_eq_zero (Nat.succ.inj single)
    have asked : (atKind .greater).Builds more false [] more := at_other TokenKind.noConfusion
    exact ⟨false, word.yes (settled.seq (.wrap_no .componentFlow .simpleComponent read asked))⟩
  | flow components' =>
    obtain ⟨several, -⟩ := legible
    obtain rfl : components' = c :: cs := components
    have asked : (atKind .greater).Builds more true [] more := by
      refine .look _ ((KindSet.has_token _ _).mpr ?_)
      cases cs with
      | nil => exact absurd several (by simp)
      | cons d ds => rfl
    have flow : flowTail.Builds more true (tailTrees cs) (lineBreak :: rest) :=
      Reads.loop (flow_rounds later rest)
    exact ⟨true, word.yes (settled.seq (.wrap_yes .componentFlow .simpleComponent read asked flow))⟩

def linePieces (l : ComponentLine) : List Piece :=
  [.opening .archComponentList, .tree l.tree, .opening .archContinuation, .tree (.leaf lineBreak)]

def sectionPieces (s : Section) : List Piece :=
  [.opening s.kind.node, .tree (.leaf (part s.kind.word)), .tree (.leaf (sign ':')),
    .tree (.leaf lineBreak)] ++ s.lines.flatMap linePieces

theorem lines_close (lines : List ComponentLine) (following : List Piece) :
    closePieces (lines.flatMap linePieces ++ following) = listTrees lines (closePieces following) := by
  induction lines with
  | nil => rfl
  | cons l lines ih =>
    rw [List.flatMap_cons, List.append_assoc, listTrees, List.foldr_cons, ← listTrees, ← ih]
    rfl

theorem sections_close (sections : List Section) :
    closePieces (sections.flatMap sectionPieces) = sectionTrees sections := by
  induction sections with
  | nil => rfl
  | cons s sections ih =>
    rw [List.flatMap_cons, sectionTrees, List.foldr_cons, ← sectionTrees, ← ih, Section.tree,
      ← lines_close]
    rfl

def Follows (after : List Token) (pieces : List Piece) : Prop :=
  ∀ l : ComponentLine, l.Legible → Rounds lineRound (l.tokens ++ after)
    ([.tree l.tree, .opening .archContinuation, .tree (.leaf lineBreak)] ++ pieces) [closing]

/-- A line and its end, up to the question what comes after it. -/
theorem lineRound_reads {l : ComponentLine} (legible : l.Legible) {after rest : List Token}
    {again : Bool} {pieces : List Piece} (next : kindIn 0 after ≠ .newline)
    (opens : archOnward.Reads after again pieces rest) :
    lineRound.Reads (l.tokens ++ after) again
      ([.tree l.tree, .opening .archContinuation, .tree (.leaf lineBreak)] ++ pieces) rest := by
  obtain ⟨flows, read⟩ := archComponent_builds legible after
  have ended : (atKind .newline).Builds (lineBreak :: after) true [] (lineBreak :: after) :=
    .look _ ((KindSet.has_token _ _).mpr rfl)
  have opened := Reads.start (show lineBreak.isTrivia = false from rfl) .archContinuation after
  have continued := opened.seq <| (Reads.count 1 _).seq (Reads.seq (newlines_one after next) opens)
  exact Reads.seq (p := [.tree l.tree]) read (Reads.yes (p := []) ended continued)

theorem follows_end : Follows [closing] [] := by
  intro l legible
  have no_section : (look 0 .archSectionFirst).Builds [closing] false [] [closing] :=
    .look _ (by decide)
  have no_line : (onAny .words).Builds [closing] false [] [closing] := .glance _ (by decide)
  exact .last (lineRound_reads legible TokenKind.noConfusion
    (Reads.no no_section (Reads.no no_line (Builds.answer false _))))

/-- A line that does not begin like a section is read as a line. -/
theorem follows_line {l : ComponentLine} (legible : l.Legible) (plain : ¬ l.Heads)
    {after : List Token} {pieces : List Piece} (follows : Follows after pieces) :
    Follows (l.tokens ++ after) (linePieces l ++ pieces) := by
  intro before legible_before
  obtain ⟨n, tail, begins, spelled, other⟩ := l.begins legible
  have first : kindIn 0 (l.tokens ++ after) = (part n).kind := by rw [begins]; exact kindIn_part n _
  have no_section := sections_part spelled
  rw [decide_eq_false (other plain), ← first] at no_section
  have word := words_part spelled
  rw [← first] at word
  have opened : (start .archComponentList).Reads (l.tokens ++ after) true
      [.opening .archComponentList] (l.tokens ++ after) := by
    rw [begins]
    exact .start (part_isTrivia n) .archComponentList _
  have next : kindIn 0 (l.tokens ++ after) ≠ .newline := by
    rw [first]
    exact part_other spelled rfl
  have round := lineRound_reads legible_before next
    (Reads.no (Builds.look .archSectionFirst no_section)
      (Reads.yes (Builds.glance .words word) (opened.seq (Reads.count 1 _))))
  have whole := Rounds.more round (before.shorter _) (follows l legible)
  simpa [linePieces] using whole

theorem follows_lines {lines : List ComponentLine} (legible : ∀ l ∈ lines, l.Legible)
    (plain : ∀ l ∈ lines, ¬ l.Heads) {after : List Token} {pieces : List Piece}
    (follows : Follows after pieces) :
    Follows (lines.flatMap ComponentLine.tokens ++ after) (lines.flatMap linePieces ++ pieces) := by
  induction lines with
  | nil => exact follows
  | cons l lines ih =>
    obtain ⟨legible_here, legible_later⟩ := List.forall_mem_cons.mp legible
    obtain ⟨plain_here, plain_later⟩ := List.forall_mem_cons.mp plain
    rw [List.flatMap_cons, List.flatMap_cons, List.append_assoc, List.append_assoc]
    exact follows_line legible_here plain_here (ih legible_later plain_later)

/-- The head of a section and the opening of its first line. -/
theorem archSectionHead_reads (kind : SectionKind) {l : ComponentLine} (legible : l.Legible)
    (after : List Token) :
    archSectionHead.Reads (part kind.word :: sign ':' :: lineBreak :: (l.tokens ++ after)) true
      [.opening kind.node, .tree (.leaf (part kind.word)), .tree (.leaf (sign ':')),
        .tree (.leaf lineBreak), .opening .archComponentList] (l.tokens ++ after) := by
  have none := List.forall_mem_nil fun token : Token => token.isTrivia = true
  let line := l.tokens ++ after
  let tokens := part kind.word :: sign ':' :: lineBreak :: line
  have opened : startSection.Reads tokens true [.opening kind.node] tokens := by
    have started := Reads.start (part_isTrivia kind.word) kind.node (sign ':' :: lineBreak :: line)
    have seen (k : Keyword) : (KindSet.single (TokenKind.keyword k)).has (kindIn 0 tokens) =
        decide (kind.word = k.word) := by
      rw [kindIn_part]
      exact keyword_part kind.spelled k
    cases kind with
    | presentation => exact Reads.yes (Builds.look _ (seen .presentation)) started
    | gateway =>
      exact Reads.no (Builds.look _ (seen .presentation)) <|
        Reads.yes (Builds.glance _ (seen .gateway)) started
  have taken := Builds.take [] none (part_isTrivia kind.word) .archSectionFirst
    (sign ':' :: lineBreak :: line)
  have colon : (expect .colon "`:` after section name").Builds (sign ':' :: lineBreak :: line) true
      [.leaf (sign ':')] (lineBreak :: line) := expect_token [] none rfl _
  obtain ⟨n, tail, begins, spelled, -⟩ := l.begins legible
  have next : kindIn 0 line ≠ .newline := by
    rw [show line = part n :: (tail ++ after) from congrArg (· ++ after) begins, kindIn_part]
    exact part_other spelled rfl
  have listed : (start .archComponentList).Reads line true [.opening .archComponentList] line := by
    rw [show line = part n :: (tail ++ after) from congrArg (· ++ after) begins]
    exact .start (part_isTrivia n) .archComponentList _
  exact opened.seq <| Reads.seq taken <| Reads.seq colon <| Reads.seq (newlines_one line next) <|
    listed.seq (Reads.count 2 line)

theorem section_begins (kind : SectionKind) (after : List Token) :
    (look 0 .archSectionFirst).Builds (part kind.word :: after) true [] (part kind.word :: after) := by
  refine .look _ ?_
  rw [kindIn_part, sections_part kind.spelled]
  cases kind <;> rfl

theorem follows_section {s : Section} (legible : s.Legible) {after : List Token} {pieces : List Piece}
    (follows : Follows after pieces) : Follows (s.tokens ++ after) (sectionPieces s ++ pieces) := by
  intro before legible_before
  obtain ⟨kind, lines⟩ := s
  obtain ⟨some_line, legible, plain⟩ := legible
  obtain ⟨l, lines, rfl⟩ := List.exists_cons_of_ne_nil some_line
  obtain ⟨legible_first, legible_later⟩ := List.forall_mem_cons.mp legible
  let more := lines.flatMap ComponentLine.tokens ++ after
  have tokens : Section.tokens ⟨kind, l :: lines⟩ ++ after =
      part kind.word :: sign ':' :: lineBreak :: (l.tokens ++ more) := by simp [Section.tokens, more]
  have next : kindIn 0 (part kind.word :: sign ':' :: lineBreak :: (l.tokens ++ more)) ≠ .newline := by
    rw [kindIn_part]
    exact part_other kind.spelled rfl
  have lines := follows_lines legible_later plain follows
  rw [tokens]
  have round := lineRound_reads legible_before next
    (Reads.yes (section_begins kind _) (archSectionHead_reads kind legible_first more))
  have fewer : (l.tokens ++ more).length <
      (before.tokens ++ part kind.word :: sign ':' :: lineBreak :: (l.tokens ++ more)).length := by
    have shorter := before.shorter (part kind.word :: sign ':' :: lineBreak :: (l.tokens ++ more))
    rw [List.length_cons, List.length_cons, List.length_cons] at shorter
    omega
  have whole := Rounds.more round fewer (lines l legible_first)
  simpa [sectionPieces, linePieces] using whole

theorem follows_sections {sections : List Section} (legible : ∀ s ∈ sections, s.Legible) :
    Follows (sections.flatMap Section.tokens ++ [closing]) (sections.flatMap sectionPieces) := by
  induction sections with
  | nil => exact follows_end
  | cons s sections ih =>
    obtain ⟨here, later⟩ := List.forall_mem_cons.mp legible
    rw [List.flatMap_cons, List.flatMap_cons, List.append_assoc]
    exact follows_section here (ih later)

theorem archSections_builds {sections : List Section} (some_section : sections ≠ [])
    (legible : ∀ s ∈ sections, s.Legible) :
    archSections.Builds (sections.flatMap Section.tokens ++ [closing]) true (sectionTrees sections)
      [closing] := by
  obtain ⟨⟨kind, lines⟩, sections, rfl⟩ := List.exists_cons_of_ne_nil some_section
  obtain ⟨⟨some_line, legible, plain⟩, later⟩ := List.forall_mem_cons.mp legible
  obtain ⟨l, lines, rfl⟩ := List.exists_cons_of_ne_nil some_line
  obtain ⟨legible_first, legible_later⟩ := List.forall_mem_cons.mp legible
  let more := lines.flatMap ComponentLine.tokens ++ (sections.flatMap Section.tokens ++ [closing])
  have tokens : (Section.mk kind (l :: lines) :: sections).flatMap Section.tokens ++ [closing] =
      part kind.word :: sign ':' :: lineBreak :: (l.tokens ++ more) := by simp [Section.tokens, more]
  have rounds := follows_lines legible_later plain (follows_sections later) l legible_first
  have whole := Reads.scope ((archSectionHead_reads kind legible_first more).seq (.loop rounds))
  have pieces : (Section.mk kind (l :: lines) :: sections).flatMap sectionPieces = _ :=
    List.flatMap_cons
  rw [tokens, ← sections_close, pieces]
  simpa [archSections, lineRound, sectionPieces, linePieces] using whole

theorem archBlock_builds {a : Arch} (legible : a.Legible) :
    archBlock.Builds a.tokens true [a.tree] [] := by
  obtain ⟨name, sections⟩ := a
  obtain ⟨spelled, some_section, legible⟩ := legible
  let inside := sections.flatMap Section.tokens ++ [closing]
  let braces := blank :: part ['\x7b'] :: lineBreak :: inside
  have first : ∃ kind more, inside = part (SectionKind.word kind) :: more := by
    obtain ⟨⟨kind, lines⟩, sections, rfl⟩ := List.exists_cons_of_ne_nil some_section
    exact ⟨kind, _, rfl⟩
  obtain ⟨kind, more, begins⟩ := first
  have next : kindIn 0 inside ≠ .newline := by
    rw [begins, kindIn_part]
    exact part_other kind.spelled rfl
  have seen : (look 0 .archSectionFirst).Builds inside true [] inside := by
    rw [begins]
    exact section_begins kind more
  have nested : archBody.Builds inside true (sectionTrees sections) [closing] :=
    seen.yes (archSections_builds some_section legible)
  have body := (newlines_one inside next).seq (nested.seq (blockLines_ends "arch block"))
  have block := Builds.block [blank] blank_trivia (part_isTrivia ['\x7b']) "arch block" body rfl
  have brace : (atKind .braceOpen).Builds braces true [] braces :=
    .look _ ((KindSet.has_token _ _).mpr rfl)
  have last := newlines_none [] TokenKind.noConfusion
  have braced : (braced "arch block" _ newlines).Builds braces true _ [] :=
    (Builds.pass _).seq (brace.yes (block.seq last))
  have named : (optionally atWord takeWord).Builds
      ((name.map fun name => [blank, part name]).getD [] ++ braces) true
      ((name.map fun name => [.leaf blank, identifierLeaf name]).getD []) braces := by
    cases name with
    | none =>
      have no_word : KindSet.words.has (kindIn 0 braces) = false := KindSet.has_words TokenKind.braceOpen
      exact (Builds.look _ no_word).no (.answer true braces)
    | some n =>
      exact (at_word [blank] blank_trivia (spelled n rfl) braces).yes
        ((takeWord_builds [blank] blank_trivia n braces).seq (.answer true braces))
  have keyword : (takeKeyword .arch).Builds _ true _ _ := Builds.take [] (List.forall_mem_nil _)
    (part_isTrivia Keyword.arch.word) _ ((name.map fun name => [blank, part name]).getD [] ++ braces)
  have whole := Builds.node [] (List.forall_mem_nil _) (part_isTrivia Keyword.arch.word) .archBlock
    (keyword.seq (named.seq braced))
  simpa [archBlock, steps, Arch.tokens, Arch.tree, braces, inside] using whole

theorem arch_builds {a : Arch} (legible : a.Legible) : item.Builds a.tokens true [a.tree] [] := by
  have seen : (onKeyword .arch).Builds a.tokens true [] a.tokens :=
    .glance _ ((KindSet.has_token _ _).mpr rfl)
  exact seen.yes (archBlock_builds legible)

end Production

end CraftDsl
