import CraftDsl.Proofs.Declarations.Printing
import CraftDsl.Proofs.Reading.Words
import CraftDsl.Proofs.Rereading

/-!
Printed declarations are read as one tree each. Every line of a block is one tree with its end after it.
-/
namespace CraftDsl

open TokenKind (identifier)

def Title.tree : Title → Tree
  | word name => identifierLeaf name.word
  | quoted text _ => stringLeaf text

def NameList.tree (l : NameList) : Tree :=
  .node .identifierList <| identifierLeaf l.first.word ::
    ((l.others.flatMap fun name => [.leaf (sign ','), .leaf blank, identifierLeaf name.word]) ++
      if l.trailing then [.leaf (sign ',')] else [])

def Rollout.tree (r : Rollout) : Tree :=
  .node .deploymentRule
    [.leaf ⟨.percentage, r.share⟩, .leaf blank, .leaf arrow, .leaf blank, identifierLeaf r.target.word]

def rulesTrees : List Rollout → List Tree
  | [] => []
  | r :: rs =>
    [.leaf blank, .node .deploymentRules <| .leaf (sign '(') :: r.tree ::
      ((rs.flatMap fun r => [.leaf (sign ','), .leaf blank, r.tree]) ++ [.leaf (sign ')')])]

def ServiceLine.node : ServiceLine → NodeKind
  | domains _ => .domainsProperty
  | language _ => .languageProperty
  | dataStores _ => .dataStoresProperty
  | deployment _ _ => .deploymentProperty

def ServiceLine.valueTrees : ServiceLine → List Tree
  | domains names | dataStores names => [.leaf blank, names.tree]
  | language name => [.leaf blank, identifierLeaf name.word]
  | deployment strategy rules =>
    [.node .deploymentSpec <| [.leaf blank,
      .node .deploymentType [.leaf (part strategy.keyword.word)]] ++ rulesTrees rules]

def propertyTree (kind : NodeKind) (k : Keyword) (value : List Tree) : Tree :=
  .node kind ([.leaf (part k.word), .leaf (sign ':')] ++ value)

def ServiceLine.tree (l : ServiceLine) : Tree := propertyTree l.node l.keyword l.valueTrees

def relationNode : ExposureRelation → NodeKind
  | .to => .toProperty
  | .through => .throughProperty
  | .of => .ofProperty

def ExposureLine.tree (l : ExposureLine) : Tree :=
  propertyTree (relationNode l.relation) (relationKeyword l.relation) [.leaf blank, l.names.tree]

def bodyTrees (lines : List Tree) : List Tree :=
  [.leaf blank, .leaf (part ['\x7b']), .leaf lineBreak] ++
    (lines.flatMap fun line => [line, .leaf lineBreak]) ++ [.leaf closing]

def ServiceEntry.tree (e : ServiceEntry) : Tree :=
  .node .serviceDefinition (e.title.tree :: bodyTrees (e.properties.map ServiceLine.tree))

def subdomainTree (n : Name) : Tree := named .subdomain n.word

def DomainEntry.trees (e : DomainEntry) : List Tree :=
  identifierLeaf e.name.word :: bodyTrees (e.subdomains.map subdomainTree)

def ActorEntry.trees (e : ActorEntry) : List Tree :=
  [.node .actorType [.leaf (part e.role.keyword.word)], .leaf blank, named .actorName e.name.word]

def Declaration.tree : Declaration → Tree
  | services definitions =>
    .node .servicesBlock <| .leaf (part Keyword.services.word) ::
      (bodyTrees (definitions.map ServiceEntry.tree) ++ [.leaf lineBreak])
  | service name properties =>
    .node .serviceBlock <| [.leaf (part Keyword.service.word), .leaf blank, identifierLeaf name.word] ++
      (bodyTrees (properties.map ServiceLine.tree) ++ [.leaf lineBreak])
  | domain definition =>
    .node .domainBlock <| [.leaf (part Keyword.domain.word), .leaf blank] ++
      (definition.trees ++ [.leaf lineBreak])
  | domains definitions =>
    .node .domainsBlock <| .leaf (part Keyword.domains.word) ::
      (bodyTrees (definitions.map fun e => .node .domainDefinition e.trees) ++ [.leaf lineBreak])
  | actors definitions =>
    .node .actorsBlock <| .leaf (part Keyword.actors.word) ::
      (bodyTrees (definitions.map fun e => .node .actorDefinition e.trees) ++ [.leaf lineBreak])
  | actor definition =>
    .node .actorBlock <| [.leaf (part Keyword.actor.word), .leaf blank] ++
      (definition.trees ++ [.leaf lineBreak])
  | exposure name properties =>
    .node .exposureBlock <|
      [.leaf (part Keyword.exposure.word), .leaf blank, identifierLeaf name.word] ++
        (bodyTrees (properties.map ExposureLine.tree) ++ [.leaf lineBreak])

namespace Production

section

variable {α : Type} {next : Production} {tokens : α → List Token} {tree : α → Tree} {xs : List α}

/-- A list goes on for as long as commas come, and it may end in different ways. -/
theorem comma_rounds {ends rest : List Token} {trees : List Tree}
    (each : ∀ x ∈ xs, ∀ more, next.Builds (blank :: (tokens x ++ more)) true [.leaf blank, tree x] more)
    (last : (onlyIf (eat .comma) next).Builds ends false trees rest) :
    Rounds (onlyIf (eat .comma) next) ((xs.flatMap fun x => sign ',' :: blank :: tokens x) ++ ends)
      (((xs.flatMap fun x => [.leaf (sign ','), .leaf blank, tree x]) ++ trees).map Piece.tree) rest := by
  induction xs with
  | nil => exact .last last
  | cons x xs ih =>
    obtain ⟨here, later⟩ := List.forall_mem_cons.mp each
    let more := (xs.flatMap fun x => sign ',' :: blank :: tokens x) ++ ends
    have split : ((x :: xs).flatMap fun x => sign ',' :: blank :: tokens x) ++ ends =
        sign ',' :: blank :: (tokens x ++ more) := by simp [more]
    have comma := eat_token [] (List.forall_mem_nil _) (show (sign ',').isTrivia = false from rfl)
      (blank :: (tokens x ++ more))
    have round : (onlyIf (eat .comma) next).Builds (sign ',' :: blank :: (tokens x ++ more)) true
        [.leaf (sign ','), .leaf blank, tree x] more := comma.yes (here more)
    rw [split]
    exact .more round (by simp; omega) (ih later)

end

theorem identifierList_builds (what : String) (l : NameList) (more : List Token) :
    (identifierList what).Builds (blank :: (l.tokens ++ lineBreak :: more)) true
      [.leaf blank, l.tree] (lineBreak :: more) := by
  obtain ⟨first, others, trailing⟩ := l
  let next := onlyIf atWord takeWord
  let ends := (if trailing then [sign ','] else []) ++ lineBreak :: more
  have each : ∀ name ∈ others, ∀ more, next.Builds (blank :: ([part name.word] ++ more)) true
      [.leaf blank, identifierLeaf name.word] more := fun name _ more =>
    (at_word [blank] blank_trivia name.spelled more).yes
      (takeWord_builds [blank] blank_trivia name.word more)
  have last : (onlyIf (eat .comma) next).Builds ends false
      (if trailing then [.leaf (sign ',')] else []) (lineBreak :: more) := by
    cases trailing with
    | false => exact (eat_stops TokenKind.noConfusion).no (.answer false _)
    | true =>
      have comma := eat_token [] (List.forall_mem_nil _) (show (sign ',').isTrivia = false from rfl)
        (lineBreak :: more)
      have no_word : atWord.Builds (lineBreak :: more) false [] (lineBreak :: more) :=
        .look _ (KindSet.has_words TokenKind.newline)
      exact comma.yes (no_word.no (.answer false _))
  have inner := (takeWord_builds [] (List.forall_mem_nil _) first.word _).seq
    (Reads.loop (comma_rounds each last))
  have seen := at_word [blank] blank_trivia first.spelled
    ((others.flatMap fun name => [sign ',', blank, part name.word]) ++ ends)
  have whole : (identifierList what).Builds _ true _ _ :=
    seen.yes (.node [blank] blank_trivia (part_isTrivia first.word) .identifierList inner)
  simpa [NameList.tokens, NameList.tree, ends] using whole

section

variable {value : Production} {tokens rest : List Token} {v : Bool} {trees : List Tree}

theorem property_builds (kind : NodeKind) (k : Keyword) (read : value.Builds tokens v trees rest) :
    (property kind k value).Builds (part k.word :: sign ':' :: tokens) v [propertyTree kind k trees]
      rest := by
  have none := List.forall_mem_nil fun token : Token => token.isTrivia = true
  have keyword := Builds.take [] none (part_isTrivia k.word) (.single (TokenKind.keyword k))
    (sign ':' :: tokens)
  have colon : (expect .colon "`:` after property name").Builds (sign ':' :: tokens) true
      [.leaf (sign ':')] tokens := expect_token [] none rfl tokens
  exact (Builds.demand _ _).seq
    (.node [] none (part_isTrivia k.word) kind (keyword.seq (colon.yes read)))

end

theorem part_keyword (k : Keyword) : (part k.word).kind = .keyword k := by
  rw [part_word k.spelled]
  exact wordKind_keyword.mpr rfl

section

variable (gap : List Token) (trivia : ∀ token ∈ gap, token.isTrivia = true) (more : List Token)

include trivia

theorem expectWord_builds (what : String) (n : Name) :
    (expectWord what).Builds (gap ++ part n.word :: more) true
      (gap.map Tree.leaf ++ [identifierLeaf n.word]) more :=
  (at_word gap trivia n.spelled more).yes (takeWord_builds gap trivia n.word more)

theorem at_rule (r : Rollout) :
    (atKind .percentage).Builds (gap ++ (r.tokens ++ more)) true [] (gap ++ (r.tokens ++ more)) :=
  at_token gap trivia (show (⟨.percentage, r.share⟩ : Token).isTrivia = false from rfl) _

theorem rule_builds (r : Rollout) :
    deploymentRule.Builds (gap ++ (r.tokens ++ more)) true (gap.map Tree.leaf ++ [r.tree]) more := by
  have none := List.forall_mem_nil fun token : Token => token.isTrivia = true
  let share : Token := ⟨.percentage, r.share⟩
  have solid : share.isTrivia = false := rfl
  let target := blank :: part r.target.word :: more
  have taken := Builds.take [] none solid (.single TokenKind.percentage) (blank :: arrow :: target)
  have arrow : (expect .arrow "`->` after percentage").Builds (blank :: arrow :: target) true
      [.leaf blank, .leaf arrow] target := expect_token [blank] blank_trivia rfl target
  have named := expectWord_builds [blank] blank_trivia more "a deployment target" r.target
  exact (at_rule gap trivia more r).yes
    (.node gap trivia solid .deploymentRule (taken.seq (arrow.yes named)))

end

theorem rules_builds (r : Rollout) (rs : List Rollout) (more : List Token) :
    deploymentRules.Builds (rulesTokens (r :: rs) ++ more) true (rulesTrees (r :: rs)) more := by
  have none := List.forall_mem_nil fun token : Token => token.isTrivia = true
  let further := (rs.flatMap fun r => sign ',' :: blank :: r.tokens) ++ sign ')' :: more
  have opened := Builds.take [] none (show (sign '(').isTrivia = false from rfl)
    (.single TokenKind.parenOpen) (r.tokens ++ further)
  have each : ∀ r ∈ rs, ∀ more, furtherRule.Builds (blank :: (r.tokens ++ more)) true
      [.leaf blank, r.tree] more := fun r _ more =>
    (at_rule [blank] blank_trivia more r).yes
      ((rule_builds [blank] blank_trivia more r).seq (.answer true more))
  have last : (onlyIf (eat .comma) furtherRule).Builds (sign ')' :: more) false [] (sign ')' :: more) :=
    (eat_stops TokenKind.noConfusion).no (.answer false _)
  have closed : (expect .parenClose "`)` to close deployment rules").Builds (sign ')' :: more) true
      [.leaf (sign ')')] more := expect_token [] none rfl more
  have inner := opened.seq <| (rule_builds [] none further r).seq <|
    Builds.seq (Reads.loop (comma_rounds each last)) closed
  have whole : deploymentRules.Builds _ true _ _ :=
    Builds.node [blank] blank_trivia (show (sign '(').isTrivia = false from rfl) .deploymentRules inner
  simpa [rulesTokens, rulesTrees, further] using whole

theorem deploymentSpec_builds (strategy : Strategy) (rules : List Rollout) (more : List Token) :
    deploymentSpec.Builds
      (blank :: part strategy.keyword.word :: (rulesTokens rules ++ lineBreak :: more)) true
      (ServiceLine.deployment strategy rules).valueTrees (lineBreak :: more) := by
  have solid := part_isTrivia strategy.keyword.word
  let after := rulesTokens rules ++ lineBreak :: more
  have seen : KindSet.deploymentTypes.has
      (kindIn 0 ([blank] ++ part strategy.keyword.word :: after)) = true := by
    rw [gap_kind [blank] blank_trivia, part_keyword]
    cases strategy <;> decide
  have taken := Builds.take [] (List.forall_mem_nil _) solid .deploymentTypes after
  have typed : deploymentType.Builds _ true _ after :=
    (Builds.look _ seen).yes (.node [blank] blank_trivia solid .deploymentType taken)
  have ruled : (optionally (atKind .parenOpen) deploymentRules).Builds after true (rulesTrees rules)
      (lineBreak :: more) := by
    cases rules with
    | nil => exact (at_other TokenKind.noConfusion).no (.answer true _)
    | cons r rs =>
      have asked : (atKind .parenOpen).Builds after true [] after :=
        .look _ ((KindSet.has_token _ _).mpr rfl)
      have read := (rules_builds r rs (lineBreak :: more)).seq (.answer true _)
      rw [List.append_nil] at read
      exact asked.yes read
  exact (typed.seq ruled).within .deploymentSpec

/-- A line begins like an item of its block and is read as one tree up to its end. -/
structure ReadsLine (itemFirst : KindSet) (item : Production) (tokens : List Token) (tree : Tree) :
    Prop where
  begins : ∀ more, itemFirst.has (kindIn 0 (tokens ++ more)) = true
  read : ∀ more, ∃ answer, item.Builds (tokens ++ lineBreak :: more) answer [tree] (lineBreak :: more)

theorem ReadsLine.finished {what : String} {itemFirst : KindSet} {item : Production}
    {tokens : List Token} {tree : Tree} (line : ReadsLine itemFirst item tokens tree) :
    ReadsLine itemFirst (seq item (finishItem what itemFirst)) tokens tree := by
  refine ⟨line.begins, fun more => ?_⟩
  obtain ⟨answer, read⟩ := line.read more
  have ended : KindSet.lineEnd.has (kindIn 0 (lineBreak :: more)) = true := by
    rw [kindIn_lineBreak]
    decide
  have finish : (finishItem what itemFirst).Builds (lineBreak :: more) true [] (lineBreak :: more) :=
    (Builds.look itemFirst rfl).seq ((Builds.look _ ended).yes (.answer true _))
  exact ⟨true, read.seq finish⟩

section

variable (j k : Keyword) (rest : List Token)

theorem asks_keyword :
    (KindSet.single (TokenKind.keyword j)).has (kindIn 0 (part k.word :: rest)) = decide (j = k) := by
  rw [kindIn_part, part_keyword, Bool.eq_iff_iff, decide_eq_true_iff, KindSet.has_token,
    TokenKind.keyword.injEq]
  exact eq_comm

theorem atKeyword_builds :
    (atKeyword j).Builds (part k.word :: rest) (decide (j = k)) [] (part k.word :: rest) :=
  .look _ (asks_keyword j k rest)

theorem onKeyword_builds :
    (onKeyword j).Builds (part k.word :: rest) (decide (j = k)) [] (part k.word :: rest) :=
  .glance _ (asks_keyword j k rest)

end

/-- A line that begins with a keyword. -/
theorem ReadsLine.of_keyword {list : List Keyword} {item : Production} {k : Keyword}
    {tokens : List Token} {tree : Tree} (among : k ∈ list)
    (read : ∀ more, item.Builds (part k.word :: (tokens ++ lineBreak :: more)) true [tree]
      (lineBreak :: more)) :
    ReadsLine (.ofKeywords list) item (part k.word :: tokens) tree := by
  refine ⟨fun more => ?_, fun more => ⟨true, read more⟩⟩
  rw [List.cons_append, kindIn_part, keywords_part k.spelled, decide_eq_true_iff]
  exact List.mem_map_of_mem among

theorem serviceLine_reads (l : ServiceLine) :
    ReadsLine .servicePropertyFirst serviceProperty l.tokens l.tree := by
  have among : l.keyword ∈ [Keyword.domains, .language, .dataStores, .deployment] := by
    cases l <;> simp [ServiceLine.keyword]
  refine .finished (.of_keyword among fun more => ?_)
  cases l with
  | domains names =>
    have read := property_builds .domainsProperty .domains
      (identifierList_builds "a domain name" names more)
    exact (atKeyword_builds .domains .domains _).yes read
  | language name =>
    have read := property_builds .languageProperty .language
      (expectWord_builds [blank] blank_trivia (lineBreak :: more) "a language name" name)
    exact (atKeyword_builds .domains .language _).no <|
      (onKeyword_builds .language .language _).yes read
  | dataStores names =>
    have read := property_builds .dataStoresProperty .dataStores
      (identifierList_builds "a data store name" names more)
    exact (atKeyword_builds .domains .dataStores _).no <|
      (onKeyword_builds .language .dataStores _).no <|
      (onKeyword_builds .dataStores .dataStores _).yes read
  | deployment strategy rules =>
    have read := property_builds .deploymentProperty .deployment
      (deploymentSpec_builds strategy rules more)
    exact (atKeyword_builds .domains .deployment _).no <|
      (onKeyword_builds .language .deployment _).no <|
      (onKeyword_builds .dataStores .deployment _).no <|
      (onKeyword_builds .deployment .deployment _).yes read

theorem exposureLine_reads (l : ExposureLine) :
    ReadsLine .exposurePropertyFirst exposureProperty l.tokens l.tree := by
  obtain ⟨relation, names⟩ := l
  have among : relationKeyword relation ∈ [Keyword.wordTo, .through, .wordOf] := by
    cases relation <;> decide
  refine .finished (.of_keyword among fun more => ?_)
  cases relation with
  | «to» =>
    have read := property_builds .toProperty .wordTo (identifierList_builds "an actor name" names more)
    exact (atKeyword_builds .wordTo .wordTo _).yes read
  | through =>
    have read := property_builds .throughProperty .through
      (identifierList_builds "a gateway name" names more)
    exact (atKeyword_builds .wordTo .through _).no <|
      (onKeyword_builds .through .through _).yes read
  | of =>
    have read := property_builds .ofProperty .wordOf (identifierList_builds "a domain name" names more)
    exact (atKeyword_builds .wordTo .wordOf _).no <|
      (onKeyword_builds .through .wordOf _).no <|
      (onKeyword_builds .wordOf .wordOf _).yes read

theorem actorTypeAndName_builds (gap : List Token) (trivia : ∀ token ∈ gap, token.isTrivia = true)
    (e : ActorEntry) (more : List Token) :
    actorTypeAndName.Builds (gap ++ (e.tokens ++ more)) true (gap.map Tree.leaf ++ e.trees) more := by
  have solid := part_isTrivia e.role.keyword.word
  let after := blank :: part e.name.word :: more
  have seen : KindSet.actorTypes.has (kindIn 0 (gap ++ part e.role.keyword.word :: after)) = true := by
    rw [gap_kind gap trivia, part_keyword]
    cases e.role <;> rfl
  have taken := Builds.take [] (List.forall_mem_nil _) solid .actorTypes after
  have typed : actorType.Builds _ true _ after :=
    (Builds.look _ seen).yes (.node gap trivia solid .actorType taken)
  have named := name_builds [blank] blank_trivia .actorName "an actor name" e.name.spelled more
  have both := typed.seq named
  rw [List.nil_append, List.append_assoc] at both
  exact both

theorem actorEntry_reads (e : ActorEntry) :
    ReadsLine .actorTypes actorDefinition e.tokens (.node .actorDefinition e.trees) := by
  have none := List.forall_mem_nil fun token : Token => token.isTrivia = true
  have among : e.role.keyword ∈ [Keyword.user, .system, .service] := by cases e.role <;> decide
  refine .finished (.of_keyword among fun more => ?_)
  exact .node [] none (part_isTrivia e.role.keyword.word) .actorDefinition
    (actorTypeAndName_builds [] none e (lineBreak :: more))

theorem subdomain_reads (n : Name) :
    ReadsLine .words (node .subdomain takeWord) [part n.word] (subdomainTree n) := by
  have none := List.forall_mem_nil fun token : Token => token.isTrivia = true
  refine ⟨fun more => ?_, fun more => ⟨true, ?_⟩⟩
  · rw [List.singleton_append, kindIn_part]
    exact words_part n.spelled
  · exact .node [] none (part_isTrivia n.word) .subdomain (takeWord_builds [] none n.word _)

def ApartFromEnds (itemFirst : KindSet) : Prop :=
  ∀ kind ∈ [TokenKind.newline, .braceClose, .endOfInput], itemFirst.has kind = false

instance (itemFirst : KindSet) : Decidable (ApartFromEnds itemFirst) :=
  inferInstanceAs (Decidable (∀ kind ∈ _, _))

section

variable {what : String} {itemFirst : KindSet} {item : Production}

theorem blockRound_newline (more : List Token) :
    (lineOr (blockItem what itemFirst item)).Builds (lineBreak :: more) true [.leaf lineBreak] more := by
  have none := List.forall_mem_nil fun token : Token => token.isTrivia = true
  have solid : lineBreak.isTrivia = false := rfl
  exact (at_token [] none solid more).yes (.take [] none solid (.single TokenKind.newline) more)

theorem blockRound_item (apart : ApartFromEnds itemFirst) {tokens : List Token} {tree : Tree}
    (line : ReadsLine itemFirst item tokens tree) (more : List Token) :
    (lineOr (blockItem what itemFirst item)).Builds (tokens ++ lineBreak :: more) true [tree]
      (lineBreak :: more) := by
  have begins := line.begins (lineBreak :: more)
  obtain ⟨answer, read⟩ := line.read more
  have other {kind : TokenKind} (ends : kind ∈ [TokenKind.newline, .braceClose, .endOfInput]) :
      kindIn 0 (tokens ++ lineBreak :: more) ≠ kind := by
    intro same
    rw [same, apart kind ends] at begins
    cases begins
  have goes_on : (onAny (.ofList [TokenKind.braceClose, TokenKind.endOfInput])).Builds
      (tokens ++ lineBreak :: more) false [] (tokens ++ lineBreak :: more) := by
    refine .glance _ ?_
    rw [KindSet.has_ofList]
    have brace : kindIn 0 (tokens ++ lineBreak :: more) ≠ .braceClose := other (by simp)
    have input : kindIn 0 (tokens ++ lineBreak :: more) ≠ .endOfInput := other (by simp)
    simp [brace, input]
  have read := read.seq (.answer true _)
  rw [List.append_nil] at read
  exact (at_other (other (by simp))).no (goes_on.no ((Builds.glance itemFirst begins).yes read))

variable {α : Type} {tokens : α → List Token} {tree : α → Tree} {xs : List α}

/-- Two rounds for each line, one for its item and one for its end. -/
theorem block_rounds (apart : ApartFromEnds itemFirst)
    (lines : ∀ x ∈ xs, ReadsLine itemFirst item (tokens x) (tree x)) (more : List Token) :
    Rounds (lineOr (blockItem what itemFirst item))
      ((xs.flatMap fun x => tokens x ++ [lineBreak]) ++ closing :: more)
      ((xs.flatMap fun x => [tree x, .leaf lineBreak]).map Piece.tree) (closing :: more) := by
  induction xs with
  | nil => exact .last (p := []) (blockRound_stops what itemFirst item more)
  | cons x xs ih =>
    obtain ⟨here, later⟩ := List.forall_mem_cons.mp lines
    let rest := (xs.flatMap fun x => tokens x ++ [lineBreak]) ++ closing :: more
    have split : ((x :: xs).flatMap fun x => tokens x ++ [lineBreak]) ++ closing :: more =
        tokens x ++ lineBreak :: rest := by simp [rest]
    have some_token : tokens x ≠ [] := by
      intro none
      have begins := here.begins [lineBreak]
      rw [none, List.nil_append, kindIn_lineBreak, apart .newline (by simp)] at begins
      cases begins
    have fewer := List.length_pos_of_ne_nil some_token
    rw [split]
    refine .more (blockRound_item apart here rest) (by simp; omega) ?_
    exact .more (blockRound_newline rest) (Nat.lt_succ_self _) (ih later)

theorem bracedItems_builds (what : String) (xs : List α) (apart : ApartFromEnds itemFirst)
    (lines : ∀ x ∈ xs, ReadsLine itemFirst item (tokens x) (tree x)) {after : Production} {v : Bool}
    {more rest : List Token} {trees : List Tree} (finish : after.Builds more v trees rest) :
    (bracedItems what itemFirst item after).Builds (bodyTokens (xs.map tokens) ++ more) v
      (bodyTrees (xs.map tree) ++ trees) rest := by
  let inside := lineBreak :: ((xs.flatMap fun x => tokens x ++ [lineBreak]) ++ closing :: more)
  have body : (blockLines what itemFirst item).Builds inside true
      (.leaf lineBreak :: xs.flatMap fun x => [tree x, .leaf lineBreak]) (closing :: more) :=
    Reads.loop (.more (blockRound_newline _) (Nat.lt_succ_self _) (block_rounds apart lines more))
  have block := Builds.block [blank] blank_trivia (part_isTrivia ['\x7b']) what body rfl
  have brace : (atKind .braceOpen).Builds (blank :: part ['\x7b'] :: inside) true []
      (blank :: part ['\x7b'] :: inside) := .look _ ((KindSet.has_token _ _).mpr rfl)
  have whole : (bracedItems what itemFirst item after).Builds _ v _ rest :=
    (Builds.pass _).seq (brace.yes (block.seq finish))
  simpa [bodyTokens, bodyTrees, inside, List.flatMap_map] using whole

end

theorem title_builds (t : Title) (rest : List Token) :
    serviceName.Builds (part t.text :: rest) true [t.tree] rest := by
  have none := List.forall_mem_nil fun token : Token => token.isTrivia = true
  cases t with
  | word name =>
    have no_string :
        (atKind .string).Builds (part name.word :: rest) false [] (part name.word :: rest) := by
      refine at_other ?_
      rw [kindIn_part]
      exact part_other name.spelled rfl
    exact no_string.no (takeWord_builds [] none name.word rest)
  | quoted text spelled => exact string_builds [] none spelled takeWord rest

section

variable {after : Production} {more rest : List Token} {v : Bool} {trees : List Tree}

theorem serviceBody_builds (what : String) (properties : List ServiceLine)
    (finish : after.Builds more v trees rest) :
    (serviceBody what after).Builds (bodyTokens (properties.map ServiceLine.tokens) ++ more) v
      (bodyTrees (properties.map ServiceLine.tree) ++ trees) rest :=
  bracedItems_builds what properties (by decide) (fun l _ => serviceLine_reads l) finish

theorem subdomains_builds (what : String) (names : List Name)
    (finish : after.Builds more v trees rest) :
    (subdomains what after).Builds (bodyTokens (names.map fun name => [part name.word]) ++ more) v
      (bodyTrees (names.map subdomainTree) ++ trees) rest :=
  bracedItems_builds what names (by decide) (fun name _ => subdomain_reads name) finish

end

theorem serviceEntry_reads (e : ServiceEntry) :
    ReadsLine (.words ∪ .single TokenKind.string) serviceDefinition e.tokens e.tree := by
  refine ⟨fun more => ?_, fun more => ⟨true, ?_⟩⟩
  · rw [ServiceEntry.tokens, List.cons_append, kindIn_part, KindSet.has_union]
    cases e.title with
    | word name => rw [Title.text, words_part name.spelled, Bool.true_or]
    | quoted text spelled =>
      rw [Title.text, part_string spelled, KindSet.has_single, BEq.rfl, Bool.or_true]
  · have body := serviceBody_builds "service definition" e.properties
      (.answer true (lineBreak :: more))
    have whole := Builds.node [] (List.forall_mem_nil _) (part_isTrivia e.title.text)
      .serviceDefinition ((title_builds e.title _).seq body)
    rw [List.append_nil] at whole
    exact whole

theorem domainEntry_reads (e : DomainEntry) :
    ReadsLine .words domainDefinition e.tokens (.node .domainDefinition e.trees) := by
  refine ⟨fun more => ?_, fun more => ⟨true, ?_⟩⟩
  · rw [DomainEntry.tokens, List.cons_append, kindIn_part]
    exact words_part e.name.spelled
  · have none := List.forall_mem_nil fun token : Token => token.isTrivia = true
    have body := subdomains_builds "domain definition" e.subdomains
      (.answer true (lineBreak :: more))
    have whole := Builds.node [] none (part_isTrivia e.name.word) .domainDefinition
      ((takeWord_builds [] none e.name.word _).seq body)
    rw [List.append_nil] at whole
    exact whole

section

variable {k : Keyword} {v : Bool} {trees : List Tree} {tokens rest : List Token}

theorem choose_builds {choices : List (Keyword × Production)} {x : Production}
    (found : choices.lookup k = some x) (built : x.Builds (part k.word :: tokens) v trees rest) :
    (choose choices).Builds (part k.word :: tokens) v trees rest := by
  induction choices with
  | nil => cases found
  | cons choice others ih =>
    obtain ⟨j, y⟩ := choice
    have asked := onKeyword_builds j k tokens
    by_cases same : k = j
    · obtain rfl := same
      rw [List.lookup_cons_self] at found
      obtain rfl := Option.some.inj found
      rw [decide_eq_true rfl] at asked
      exact asked.yes built
    · rw [List.lookup_cons, beq_false_of_ne same] at found
      rw [decide_eq_false (Ne.symm same)] at asked
      exact asked.no (ih found)

theorem keyed_builds {kind : NodeKind} {body : Production}
    (found : (itemChoices scenarios).lookup k = some (node kind (seq (takeKeyword k) body)))
    (read : body.Builds tokens v trees rest) :
    item.Builds (part k.word :: tokens) v [.node kind (.leaf (part k.word) :: trees)] rest := by
  have none := List.forall_mem_nil fun token : Token => token.isTrivia = true
  have solid := part_isTrivia k.word
  have keyword := Builds.take [] none solid (.single (TokenKind.keyword k)) tokens
  exact choose_builds found (.node [] none solid kind (keyword.seq read))

end

/-- A declaration is read as one item, whatever comes after it on the next line. -/
theorem declaration_builds (d : Declaration) {more : List Token} (next : kindIn 0 more ≠ .newline) :
    item.Builds (d.tokens ++ more) true [d.tree] more := by
  have trailer := newlines_one more next
  have word_builds (what : String) (n : Name) (rest : List Token) :=
    expectWord_builds [blank] blank_trivia rest what n
  cases d with
  | services definitions =>
    have body := bracedItems_builds "services block" definitions (by decide)
      (fun e _ => serviceEntry_reads e) trailer
    have whole := keyed_builds (k := .services) rfl body
    simpa [Declaration.tokens, Declaration.tree] using whole
  | service name properties =>
    have body := serviceBody_builds "service block" properties trailer
    have whole := keyed_builds (k := .service) rfl ((word_builds "a service name" name _).seq body)
    simpa [Declaration.tokens, Declaration.tree] using whole
  | domain definition =>
    have body := subdomains_builds "domain block" definition.subdomains trailer
    have named := word_builds "a domain name" definition.name
    have whole := keyed_builds (k := .domain) rfl ((named _).seq body)
    simpa [Declaration.tokens, Declaration.tree, DomainEntry.tokens, DomainEntry.trees] using whole
  | domains definitions =>
    have body := bracedItems_builds "domains block" definitions (by decide)
      (fun e _ => domainEntry_reads e) trailer
    have whole := keyed_builds (k := .domains) rfl body
    simpa [Declaration.tokens, Declaration.tree] using whole
  | actors definitions =>
    have body := bracedItems_builds "actors block" definitions (by decide)
      (fun e _ => actorEntry_reads e) trailer
    have whole := keyed_builds (k := .actors) rfl body
    simpa [Declaration.tokens, Declaration.tree] using whole
  | actor definition =>
    have named := actorTypeAndName_builds [blank] blank_trivia definition (lineBreak :: more)
    have body := named.seq ((finishLine_builds more "actor declaration").seq trailer)
    have whole := keyed_builds (k := .actor) rfl body
    simpa [Declaration.tokens, Declaration.tree] using whole
  | exposure name properties =>
    have body := bracedItems_builds "exposure block" properties (by decide)
      (fun l _ => exposureLine_reads l) trailer
    have whole := keyed_builds (k := .exposure) rfl ((word_builds "an exposure name" name _).seq body)
    simpa [Declaration.tokens, Declaration.tree] using whole

end Production

end CraftDsl
