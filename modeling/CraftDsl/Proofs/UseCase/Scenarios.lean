import CraftDsl.Proofs.UseCase.Sentences

/-!
A printed use case is read as one tree, in which each scenario hangs off the one before it.
-/
namespace CraftDsl

open TokenKind (identifier string)

def Scenario.clause (s : Scenario) : Tree :=
  .node .whenClause <| .leaf (part Keyword.when.word) :: apart (s.trigger.toList.map Trigger.tree) ++
    .leaf lineBreak :: s.actions.flatMap fun a => [a.tree, .leaf lineBreak]

def spine : Scenario → List Scenario → Tree
  | s, [] => .node .scenario [s.clause]
  | s, next :: rest => .node .scenario [s.clause, .node .scenarioContinuation [spine next rest]]

def UseCase.tree (u : UseCase) : Tree :=
  .node .useCaseBlock <| .leaf (part Keyword.useCase.word) ::
    apart (u.name.toList.map stringLeaf ++ [.leaf (part ['\x7b'])]) ++ .leaf lineBreak ::
    (match u.scenarios with
      | [] => []
      | s :: rest => [spine s rest]) ++ [.leaf closing]

namespace Production

theorem line_shorter (words : List Word) (more : List Token) :
    more.length < (lineTokens words ++ more).length := by
  have line : 0 < (lineTokens words).length := by cases words <;> simp [lineTokens]
  rw [List.length_append]
  omega

theorem scenario_shorter (s : Scenario) (more : List Token) :
    more.length < (s.lines.flatMap lineTokens ++ more).length := by
  have line := line_shorter (Keyword.when.word :: (s.trigger.map Trigger.words).getD [])
    ((s.actions.map Action.words).flatMap lineTokens ++ more)
  rw [Scenario.lines, List.flatMap_cons, List.append_assoc]
  rw [List.length_append] at line
  omega

section

variable {a : Action} (more : List Token)

theorem clauseRound_builds (legible : a.Legible) :
    clauseRound.Builds (lineTokens a.words ++ more) true [a.tree, .leaf lineBreak] more := by
  obtain ⟨s, ws, words, subject, other⟩ := a.begins legible
  have first : kindIn 0 (lineTokens a.words ++ more) = (part s).kind := by
    rw [words, lineTokens_append, kindIn_part]
  have word := words_part subject
  have no_when := not_keyword_part (.inl subject) other
  rw [← first] at word no_when
  exact (Builds.look _ word).yes <| (Builds.look _ no_when).no <|
    ((action_builds more legible).seq (finishLine_builds more _)).seq (eat_builds more)

end

/-- What comes after a scenario: another one, or the end of the block. -/
def AfterScenario (rest : List Token) : Prop :=
  kindIn 0 rest = .keyword .when ∨ kindIn 0 rest = .braceClose

theorem clauseRound_stops {rest : List Token} (after : AfterScenario rest) :
    clauseRound.Builds rest false [] rest := by
  rcases after with scenario | ended
  · have word : KindSet.words.has (kindIn 0 rest) = true := by
      rw [scenario]
      rfl
    exact (Builds.look _ word).yes
      ((Builds.look _ ((KindSet.has_token _ _).mpr scenario)).yes (.answer false _))
  · have no_word : KindSet.words.has (kindIn 0 rest) = false := by
      rw [ended]
      rfl
    exact (Builds.look _ no_word).no (.answer false _)

theorem clause_rounds {actions : List Action} (legible : ∀ a ∈ actions, a.Legible)
    {rest : List Token} (after : AfterScenario rest) :
    Rounds clauseRound ((actions.map Action.words).flatMap lineTokens ++ rest)
      ((actions.flatMap fun a => [a.tree, .leaf lineBreak]).map Piece.tree) rest := by
  induction actions with
  | nil => exact .last (clauseRound_stops after)
  | cons a actions ih =>
    obtain ⟨here, later⟩ := List.forall_mem_cons.mp legible
    rw [List.map_cons, List.flatMap_cons, List.append_assoc]
    exact .more (clauseRound_builds _ here) (line_shorter _ _) (ih later)

theorem whenClause_builds {s : Scenario} (legible : s.Legible) (rest : List Token)
    (after : AfterScenario rest) :
    whenClause.Builds (s.lines.flatMap lineTokens ++ rest) true [s.clause] rest := by
  obtain ⟨trigger, actions⟩ := s
  obtain ⟨⟨t, rfl, spoken⟩, legible⟩ := legible
  let more := (actions.map Action.words).flatMap lineTokens ++ rest
  have line : (Scenario.lines ⟨some t, actions⟩).flatMap lineTokens ++ rest =
      part Keyword.when.word :: (spaced t.words ++ lineBreak :: more) :=
    (List.append_assoc _ _ _).trans (lineTokens_append _ _ more)
  have opens : (takeKeyword .when).Builds (part Keyword.when.word :: _) true
      [.leaf (part Keyword.when.word)] (spaced t.words ++ lineBreak :: more) :=
    .take [] (List.forall_mem_nil _) (part_isTrivia Keyword.when.word) _ _
  have lines : clauseRest.Builds (lineBreak :: more) true
      (.leaf lineBreak :: actions.flatMap fun a => [a.tree, .leaf lineBreak]) rest :=
    (eat_builds more).yes (Reads.loop (clause_rounds legible after))
  have head : clauseHead.Builds _ true _ (lineBreak :: more) :=
    opens.seq ((trigger_builds more spoken).seq (finishLine_builds more "trigger"))
  have inner := head.seq lines
  rw [line]
  exact (Builds.demand _ _).seq <|
    .node [] (List.forall_mem_nil _) (part_isTrivia Keyword.when.word) .whenClause inner

def spinePieces : Scenario → List Scenario → List Piece
  | s, [] => [.tree s.clause]
  | s, next :: rest =>
    .tree s.clause :: .opening .scenarioContinuation :: .opening .scenario :: spinePieces next rest

theorem spine_closes (s : Scenario) (rest : List Scenario) :
    closePieces (.opening .scenario :: spinePieces s rest) = [spine s rest] := by
  induction rest generalizing s with
  | nil => rfl
  | cons next rest ih =>
    have inner : closePieces (spinePieces s (next :: rest)) =
        [s.clause, .node .scenarioContinuation
          (closePieces (.opening .scenario :: spinePieces next rest))] := rfl
    have whole : closePieces (.opening .scenario :: spinePieces s (next :: rest)) =
        [.node .scenario (closePieces (spinePieces s (next :: rest)))] := rfl
    rw [whole, inner, ih]
    rfl

def scenarioTokens (scenarios : List Scenario) : List Token :=
  (scenarios.flatMap Scenario.lines).flatMap lineTokens ++ [closing]

section

variable (s : Scenario) (rest : List Scenario)

theorem scenarioTokens_cons :
    scenarioTokens (s :: rest) = s.lines.flatMap lineTokens ++ scenarioTokens rest := by
  rw [scenarioTokens, List.flatMap_cons, List.flatMap_append, List.append_assoc]
  rfl

theorem scenarioTokens_kind : kindIn 0 (scenarioTokens (s :: rest)) = .keyword .when := rfl

theorem atWhen_builds :
    (atKeyword .when).Builds (scenarioTokens (s :: rest)) true [] (scenarioTokens (s :: rest)) :=
  .look _ ((KindSet.has_token _ _).mpr (scenarioTokens_kind s rest))

theorem start_reads (kind : NodeKind) :
    (start kind).Reads (scenarioTokens (s :: rest)) true [.opening kind] (scenarioTokens (s :: rest)) := by
  obtain ⟨more, begins⟩ : ∃ more, scenarioTokens (s :: rest) = part Keyword.when.word :: more :=
    ⟨_, rfl⟩
  rw [begins]
  exact .start (part_isTrivia Keyword.when.word) kind more

theorem continuation_opens :
    Rounds scenarioContinuation (scenarioTokens (s :: rest))
      [.opening .scenarioContinuation, .opening .scenario] (scenarioTokens (s :: rest)) := by
  have opened := (start_reads s rest .scenarioContinuation).seq <|
    (start_reads s rest .scenario).seq <| (Reads.count 2 _).seq (Builds.answer false _)
  exact .last (Reads.yes (atWhen_builds s rest) opened)

end

theorem continuation_ends : Rounds scenarioContinuation [closing] [] [closing] := by
  have other {kind : TokenKind} (other : kindIn 0 [closing] ≠ kind) :
      (atKind kind).Builds [closing] false [] [closing] := .look _ (KindSet.has_other other)
  have ended : scenarioContinuation.Builds [closing] false [] [closing] :=
    (other TokenKind.noConfusion).no ((other TokenKind.noConfusion).no (.answer false _))
  exact .last ended

theorem spine_rounds (s : Scenario) (rest : List Scenario) (legible : ∀ t ∈ s :: rest, t.Legible) :
    Rounds spineRound (scenarioTokens (s :: rest)) (spinePieces s rest) [closing] := by
  induction rest generalizing s with
  | nil =>
    have clause := whenClause_builds (legible s List.mem_cons_self) [closing] (.inr rfl)
    have ended : (onKeyword .when).Builds [closing] false [] [closing] :=
      .glance _ (KindSet.has_other TokenKind.noConfusion)
    rw [scenarioTokens_cons]
    exact .last (Reads.seq clause (Reads.seq (Reads.loop continuation_ends) ended))
  | cons next rest ih =>
    obtain ⟨here, later⟩ := List.forall_mem_cons.mp legible
    have seen := scenarioTokens_kind next rest
    have clause := whenClause_builds here _ (.inl seen)
    have again : (onKeyword .when).Builds _ true [] (scenarioTokens (next :: rest)) :=
      .glance _ ((KindSet.has_token _ _).mpr seen)
    have round := Reads.seq clause (Reads.seq (Reads.loop (continuation_opens next rest)) again)
    rw [scenarioTokens_cons]
    exact .more round (scenario_shorter s _) (ih next later)

theorem scenarios_builds {s : Scenario} {rest : List Scenario}
    (legible : ∀ t ∈ s :: rest, t.Legible) :
    scenarios.Builds (scenarioTokens (s :: rest)) true [spine s rest] [closing] := by
  have inner := (start_reads s rest .scenario).seq <|
    (Reads.count 1 _).seq (Reads.loop (spine_rounds s rest legible))
  have whole := Reads.scope inner
  rwa [List.nil_append, List.singleton_append, spine_closes] at whole

theorem useCaseBlock_builds {u : UseCase} (legible : u.Legible) :
    useCaseBlock.Builds (u.lines.flatMap lineTokens ++ [closing]) true [u.tree] [] := by
  obtain ⟨name, scenarios⟩ := u
  obtain ⟨⟨n, rfl, name⟩, some_scenario, legible⟩ := legible
  cases scenarios with
  | nil => exact absurd rfl some_scenario
  | cons s rest =>
    let tokens := scenarioTokens (s :: rest)
    have line : (UseCase.lines ⟨some n, s :: rest⟩).flatMap lineTokens ++ [closing] =
        part Keyword.useCase.word :: blank :: part n :: blank :: part ['\x7b'] :: lineBreak :: tokens :=
      rfl
    have keyword : (takeKeyword .useCase).Builds _ true _
        (blank :: part n :: blank :: part ['\x7b'] :: lineBreak :: tokens) :=
      Builds.take [] (List.forall_mem_nil _) (part_isTrivia Keyword.useCase.word) _ _
    have named := string_builds [blank] blank_trivia name
      (missing .expectedName "expected a use case name as a string")
      (blank :: part ['\x7b'] :: lineBreak :: tokens)
    have nested : (scenariosIn Production.scenarios).Builds tokens true [spine s rest] [closing] :=
      (atWhen_builds s rest).yes (scenarios_builds legible)
    have body := (newlines_one tokens TokenKind.noConfusion).seq (nested.seq (blockLines_ends "use case"))
    have block := Builds.block [blank] blank_trivia (part_isTrivia ['\x7b']) "use case" body rfl
    have last := newlines_none [] TokenKind.noConfusion
    have brace : (atKind .braceOpen).Builds (blank :: part ['\x7b'] :: lineBreak :: tokens) true []
        (blank :: part ['\x7b'] :: lineBreak :: tokens) := .look _ ((KindSet.has_token _ _).mpr rfl)
    have braces : (braced "use case" _ newlines).Builds _ true _ [] :=
      (Builds.pass _).seq (brace.yes (block.seq last))
    rw [line]
    exact Builds.node [] (List.forall_mem_nil _) (part_isTrivia Keyword.useCase.word) .useCaseBlock
      (keyword.seq (named.seq braces))

theorem item_builds {u : UseCase} (legible : u.Legible) :
    item.Builds (u.lines.flatMap lineTokens ++ [closing]) true [u.tree] [] := by
  let tokens := u.lines.flatMap lineTokens ++ [closing]
  have seen (k : Keyword) : (onKeyword k).Builds tokens (decide (Keyword.useCase.word = k.word)) []
      tokens := by
    refine .glance _ ?_
    have first : kindIn 0 tokens = (part Keyword.useCase.word).kind := rfl
    rw [first, keyword_part Keyword.useCase.spelled]
  exact (seen .arch).no <| (seen .services).no <| (seen .service).no <| (seen .domain).no <|
    (seen .domains).no <| (seen .actors).no <| (seen .actor).no <| (seen .exposure).no <|
    (seen .useCase).yes (useCaseBlock_builds legible)

end Production

end CraftDsl
