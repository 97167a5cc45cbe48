import CraftDsl.Proofs.Reading.Words
import CraftDsl.Proofs.UseCase.Printing

/-!
The lines of a printed use case are read as the triggers and actions that they were printed from, each as
one tree.
-/
namespace CraftDsl

open TokenKind (identifier string)

def apart (trees : List Tree) : List Tree := trees.flatMap fun t => [.leaf blank, t]

def connectorTree (w : Word) : Tree := .node .connectorWord [.leaf (part w)]

def wordTree (w : Word) : Tree :=
  if (part w).kind = .string then stringLeaf w
  else if (part w).kind.isConnector then connectorTree w
  else identifierLeaf w

def Phrase.tree (p : Phrase) : Tree :=
  .node .phrase <|
    match p.words with
    | [] => []
    | first :: rest => wordTree first :: apart (rest.map wordTree)

def complementTrees (connector : Option Word) (phrase : Option Phrase) : List Tree :=
  apart (connector.toList.map connectorTree ++ phrase.toList.map Phrase.tree)

def Trigger.tree : Trigger → Tree
  | .external actor verb connector phrase =>
    .node .externalTrigger <| actor.toList.map (named .triggerActor) ++
      apart (verb.toList.map (named .triggerVerb)) ++ complementTrees connector phrase
  | .event name => .node .eventTrigger (name.toList.map stringLeaf)
  | .listener domain name =>
    .node .domainListener <| domain.toList.map identifierLeaf ++
      apart (.leaf (part Keyword.listens.word) :: name.toList.map stringLeaf)
  | .cron schedule =>
    .node .cronTrigger (.leaf (part Keyword.cron.word) :: apart (schedule.toList.map Phrase.tree))

def targetTrees (target : Option Word) : List Tree :=
  (target.map fun t => [.leaf (part Keyword.wordTo.word), named .actionTarget t]).getD []

def Action.tree : Action → Tree
  | .sync subject target connector phrase =>
    .node .syncAction <| subject.toList.map (named .actionSubject) ++
      apart (.leaf (part Keyword.asks.word) :: target.toList.map (named .actionTarget)) ++
      complementTrees connector phrase
  | .async subject event _ =>
    .node .asyncAction <| subject.toList.map (named .actionSubject) ++
      apart (.leaf (part Keyword.notifies.word) :: event.toList.map stringLeaf)
  | .internal subject verb connector phrase =>
    .node .internalAction <| subject.toList.map (named .actionSubject) ++
      apart (verb.toList.map (named .actionVerb)) ++ complementTrees connector phrase
  | .returns subject target connector phrase =>
    .node .returnAction <| subject.toList.map (named .actionSubject) ++
      apart (.leaf (part Keyword.returns.word) :: targetTrees target) ++
      complementTrees connector phrase

theorem KindSet.has_connectors (kind : TokenKind) : connectors.has kind = kind.isConnector := by
  cases kind with
  | keyword k => cases k <;> rfl
  | _ => rfl

section

variable {w : Word}

theorem phraseFirst_part (speakable : Speakable w) : KindSet.phraseFirst.has (part w).kind = true := by
  rw [KindSet.phraseFirst, KindSet.has_union]
  rcases speakable with word | string
  · rw [words_part word]
    rfl
  · rw [part_string string]
    exact Bool.or_eq_true_iff.mpr (.inr ((KindSet.has_token _ _).mpr rfl))

theorem connectors_part (spelled : identifier.Spelled w) :
    KindSet.connectors.has (part w).kind = decide (w ∈ connectorWords) := by
  rw [KindSet.has_connectors, part_word spelled, Bool.eq_iff_iff, decide_eq_true_iff,
    mem_connectorWords]
  constructor
  · intro connector
    cases kind : wordKind w with
    | keyword k =>
      rw [kind] at connector
      exact ⟨k, connector, (wordKind_keyword.mp kind).symm⟩
    | _ =>
      rw [kind] at connector
      cases connector
  · intro ⟨k, connector, same⟩
    rw [wordKind_keyword.mpr same.symm]
    exact connector

theorem connector_of_part (speakable : Speakable w)
    (connector : KindSet.connectors.has (part w).kind = true) : w ∈ connectorWords := by
  rcases speakable with word | string
  · rw [connectors_part word] at connector
    exact of_decide_eq_true connector
  · rw [part_string string, KindSet.has_connectors] at connector
    cases connector

theorem plainWords_part (spelled : identifier.Spelled w) (plain : w ∉ connectorWords) :
    KindSet.plainWords.has (part w).kind = true := by
  apply KindSet.has_left (words_part spelled)
  rw [connectors_part spelled, decide_eq_false plain]

theorem plain_of_part (speakable : Speakable w) (plain : KindSet.plainWords.has (part w).kind = true) :
    identifier.Spelled w ∧ w ∉ connectorWords := by
  rw [KindSet.plainWords, KindSet.has_without] at plain
  rcases speakable with word | string
  · rw [words_part word, connectors_part word] at plain
    exact ⟨word, by simpa using plain⟩
  · rw [part_string string, KindSet.has_words] at plain
    cases plain

theorem not_keyword_part (speakable : Speakable w) {k : Keyword} (other : w ≠ k.word) :
    (KindSet.single (TokenKind.keyword k)).has (part w).kind = false := by
  rcases speakable with word | string
  · rw [keyword_part word, decide_eq_false other]
  · rw [part_string string]
    exact KindSet.has_other TokenKind.noConfusion

end

section

variable (n : Nat) (w : Word) (rest : List Token)

@[simp] theorem spaced_nil : spaced [] = [] := rfl

theorem spaced_append (words others : List Word) :
    spaced (words ++ others) = spaced words ++ spaced others := List.flatMap_append

@[simp] theorem spaced_cons (words : List Word) :
    spaced (w :: words) = blank :: part w :: spaced words := rfl

end

namespace Production

theorem connectorWord_builds (gap : List Token) (trivia : ∀ token ∈ gap, token.isTrivia = true)
    (w : Word) (rest : List Token) :
    connectorWord.Builds (gap ++ part w :: rest) true (gap.map Tree.leaf ++ [connectorTree w]) rest :=
  .node gap trivia (part_isTrivia w) .connectorWord
    (.take [] (List.forall_mem_nil _) (part_isTrivia w) .connectors rest)

theorem phraseRound_builds (gap : List Token) (trivia : ∀ token ∈ gap, token.isTrivia = true)
    {w : Word} (speakable : Speakable w) (rest : List Token) :
    phraseRound.Builds (gap ++ part w :: rest) true (gap.map Tree.leaf ++ [wordTree w]) rest := by
  have kind : kindIn 0 (gap ++ part w :: rest) = (part w).kind := gap_kind gap trivia rest
  have begins := phraseFirst_part speakable
  rw [← kind] at begins
  refine (Builds.look .phraseFirst begins).yes ?_
  rcases speakable with word | string
  · have no_string : (part w).kind ≠ .string := part_other word rfl
    have other := KindSet.has_other no_string
    have connector := KindSet.has_connectors (part w).kind
    rw [← kind] at other
    refine (Builds.look _ other).no ?_
    by_cases joins : (part w).kind.isConnector = true
    · rw [joins, ← kind] at connector
      rw [wordTree, if_neg no_string, if_pos joins]
      exact (Builds.glance _ connector).yes (connectorWord_builds gap trivia w rest)
    · rw [Bool.eq_false_iff.mpr joins, ← kind] at connector
      rw [wordTree, if_neg no_string, if_neg joins]
      exact (Builds.glance _ connector).no (takeWord_builds gap trivia w rest)
  · have taken := Builds.take gap trivia (part_isTrivia w) (.single TokenKind.string) rest
    have seen := (KindSet.has_token TokenKind.string _).mpr (kind.trans (by rw [part_string string]))
    rw [List.map_append] at taken
    have leaf : wordTree w = .leaf (part w) := by
      rw [wordTree, part_string string, if_pos rfl]
      rfl
    rw [leaf]
    exact (Builds.look _ seen).yes taken

theorem phraseFirst_lineBreak (more : List Token) :
    KindSet.phraseFirst.has (kindIn 0 (lineBreak :: more)) = false := by
  rw [kindIn_lineBreak]
  decide

theorem phraseRound_stops (more : List Token) :
    phraseRound.Builds (lineBreak :: more) false [] (lineBreak :: more) :=
  (Builds.look _ (phraseFirst_lineBreak more)).no (.answer false _)

theorem phrase_rounds {words : List Word} (speakable : ∀ w ∈ words, Speakable w) (more : List Token) :
    Rounds phraseRound (spaced words ++ lineBreak :: more)
      ((apart (words.map wordTree)).map Piece.tree) (lineBreak :: more) := by
  induction words with
  | nil => exact .last (phraseRound_stops more)
  | cons w words ih =>
    obtain ⟨here, later⟩ := List.forall_mem_cons.mp speakable
    have round := phraseRound_builds [blank] blank_trivia here (spaced words ++ lineBreak :: more)
    have fewer : (spaced words ++ lineBreak :: more).length <
        (spaced (w :: words) ++ lineBreak :: more).length := by
      rw [spaced_cons, List.cons_append, List.cons_append, List.length_cons, List.length_cons]
      omega
    exact .more round fewer (ih later)

theorem phrase_builds {p : Phrase} (legible : p.Legible) (more : List Token) :
    phrase.Builds (spaced p.words ++ lineBreak :: more) true (apart [p.tree]) (lineBreak :: more) := by
  obtain ⟨words⟩ := p
  obtain ⟨some_word, speakable⟩ := legible
  cases words with
  | nil => exact absurd rfl some_word
  | cons w words =>
    obtain ⟨here, later⟩ := List.forall_mem_cons.mp speakable
    have first := phraseRound_builds [] (List.forall_mem_nil _) here
      (spaced words ++ lineBreak :: more)
    have along : Rounds phraseRound (part w :: (spaced words ++ lineBreak :: more))
        ((wordTree w :: apart (words.map wordTree)).map Piece.tree) (lineBreak :: more) :=
      .more first (by simp) (phrase_rounds later more)
    exact Builds.node [blank] blank_trivia (part_isTrivia w) .phrase (Reads.loop along)

theorem phrase_begins {p : Phrase} (legible : p.Legible) :
    ∃ w ws, p.words = w :: ws ∧ Speakable w := by
  obtain ⟨words⟩ := p
  obtain ⟨some_word, speakable⟩ := legible
  cases words with
  | nil => exact absurd rfl some_word
  | cons w ws => exact ⟨w, ws, rfl, speakable w List.mem_cons_self⟩

theorem phrase_seen {p : Phrase} (legible : p.Legible) (more : List Token) :
    KindSet.phraseFirst.has (kindIn 0 (spaced p.words ++ more)) = true := by
  obtain ⟨w, ws, words, speakable⟩ := phrase_begins legible
  rw [words, spaced_cons, List.cons_append, kindIn_blank, List.cons_append, kindIn_part]
  exact phraseFirst_part speakable

/-- A phrase that does not begin in a certain way unless it is one word, and does, is one word. -/
theorem single_word {w : Word} {ws : List Word} {P : Word → Prop}
    (either : (w :: ws).length = 1 ∨ ∀ first ∈ (w :: ws).head?, P first) (other : ¬ P w) : ws = [] := by
  rcases either with single | free
  · exact List.eq_nil_of_length_eq_zero (Nat.succ.inj single)
  · exact absurd (free w rfl) other

theorem joins_not {p : Phrase} (legible : p.Legible)
    (alone : p.words.length = 1 ∨ ∀ first ∈ p.words.head?, first ∉ connectorWords)
    (more : List Token) :
    joins.Builds (spaced p.words ++ lineBreak :: more) false [] (spaced p.words ++ lineBreak :: more) := by
  obtain ⟨w, ws, words, speakable⟩ := phrase_begins legible
  rw [words] at alone ⊢
  have first : kindIn 0 (spaced (w :: ws) ++ lineBreak :: more) = (part w).kind := by simp
  by_cases connector : KindSet.connectors.has (part w).kind = true
  · have short : ws = [] := single_word alone (not_not_intro (connector_of_part speakable connector))
    have ended : KindSet.phraseFirst.has
        (kindIn 1 (spaced (w :: ws) ++ lineBreak :: more)) = false := by
      rw [short, spaced_cons, List.cons_append, kindIn_blank, List.cons_append, kindIn_part_succ]
      exact phraseFirst_lineBreak more
    rw [← first] at connector
    exact (Builds.look _ connector).yes (.look _ ended)
  · rw [← first] at connector
    exact (Builds.look _ (Bool.eq_false_iff.mpr connector)).no (.answer false _)

theorem complement_builds {connector : Option Word} {p : Phrase} {absent : Production}
    (fits : Complement connector (some p)) (more : List Token) :
    (connectorAndPhrase absent).Builds
      (spaced (complementWords connector (some p)) ++ lineBreak :: more) true
      (complementTrees connector (some p)) (lineBreak :: more) := by
  obtain ⟨legible, joined, alone⟩ := fits
  have legible := legible p rfl
  have phrased : (branch (look 0 .phraseFirst) phrase absent).Builds
      (spaced p.words ++ lineBreak :: more) true (apart [p.tree]) (lineBreak :: more) :=
    (Builds.look _ (phrase_seen legible _)).yes (phrase_builds legible more)
  cases connector with
  | none => exact ((joins_not legible (alone rfl p rfl) more).no (.answer true _)).seq phrased
  | some c =>
    obtain ⟨connector, -⟩ := joined c rfl
    obtain ⟨k, joining, rfl⟩ := mem_connectorWords.mp connector
    have first := connectors_part k.spelled
    rw [decide_eq_true connector] at first
    have asked : joins.Builds (blank :: part k.word :: (spaced p.words ++ lineBreak :: more)) true []
        (blank :: part k.word :: (spaced p.words ++ lineBreak :: more)) := by
      refine (Builds.look _ ?_).yes (.look _ ?_)
      · rwa [kindIn_blank, kindIn_part]
      · rw [kindIn_blank, kindIn_part_succ]
        exact phrase_seen legible _
    have taken := connectorWord_builds [blank] blank_trivia k.word (spaced p.words ++ lineBreak :: more)
    exact (asked.yes (taken.seq (.answer true _))).seq phrased

theorem optionalPhrase_builds {connector : Option Word} {phrase : Option Phrase}
    (fits : Complement connector phrase) (more : List Token) :
    optionalPhrase.Builds (spaced (complementWords connector phrase) ++ lineBreak :: more) true
      (complementTrees connector phrase) (lineBreak :: more) := by
  cases phrase with
  | some p => exact complement_builds fits more
  | none =>
    cases connector with
    | some c => exact Bool.noConfusion (fits.joins c rfl).2
    | none =>
      have no_connector : KindSet.connectors.has (kindIn 0 (lineBreak :: more)) = false := by
        rw [kindIn_lineBreak, KindSet.has_connectors]
        rfl
      have asked : joins.Builds (lineBreak :: more) false [] (lineBreak :: more) :=
        (Builds.look _ no_connector).no (.answer false _)
      exact (asked.no (.answer true _)).seq <|
        (Builds.look _ (phraseFirst_lineBreak more)).no (.answer true _)

theorem requiredPhrase_builds {connector : Option Word} {phrase : Option Phrase}
    (given : phrase.isSome = true) (fits : Complement connector phrase) (more : List Token) :
    requiredPhrase.Builds (spaced (complementWords connector phrase) ++ lineBreak :: more) true
      (complementTrees connector phrase) (lineBreak :: more) := by
  obtain ⟨p, rfl⟩ := Option.isSome_iff_exists.mp given
  exact complement_builds fits more

/-- Whether the first token ahead is a word and the second one is among the others. -/
theorem wordThen_builds {w : Word} {gap rest : List Token} {among : KindSet} {answer : Bool}
    (trivia : ∀ token ∈ gap, token.isTrivia = true) (word : identifier.Spelled w)
    (seen : among.has (kindIn 0 rest) = answer) :
    (onlyIf (onAny .words) (glance 1 among)).Builds (gap ++ part w :: rest) answer []
      (gap ++ part w :: rest) := by
  refine (Builds.glance _ ?_).yes (.glance _ ?_)
  · rw [gap_kind gap trivia]
    exact words_part word
  · rwa [kindIn_append_trivia _ _ _ trivia, kindIn_part_succ]

section

variable {a v d s : Word} {connector : Option Word} {phrase : Option Phrase} (more : List Token)

theorem externalTrigger_builds (actor : identifier.Spelled a) (verb : identifier.Spelled v)
    (fits : Complement connector phrase) :
    externalTrigger.Builds
      (blank :: part a :: blank :: part v ::
        (spaced (complementWords connector phrase) ++ lineBreak :: more)) true
      (apart [(Trigger.external (some a) (some v) connector phrase).tree]) (lineBreak :: more) := by
  have first := name_builds [] (List.forall_mem_nil _) .triggerActor "an actor" actor
    (blank :: part v :: (spaced (complementWords connector phrase) ++ lineBreak :: more))
  have second := name_builds [blank] blank_trivia .triggerVerb "a verb" verb
    (spaced (complementWords connector phrase) ++ lineBreak :: more)
  exact Builds.node [blank] blank_trivia (part_isTrivia a) .externalTrigger
    (first.seq (second.seq (optionalPhrase_builds fits more)))

theorem domainListener_builds (event : string.Spelled s) :
    domainListener.Builds
      (blank :: part d :: blank :: part Keyword.listens.word :: blank :: part s :: lineBreak :: more)
      true (apart [(Trigger.listener (some d) (some s)).tree]) (lineBreak :: more) := by
  have domain := takeWord_builds [] (List.forall_mem_nil _) d
    (blank :: part Keyword.listens.word :: blank :: part s :: lineBreak :: more)
  have listens : (takeKeyword .listens).Builds _ true _ (blank :: part s :: lineBreak :: more) :=
    Builds.take [blank] blank_trivia (part_isTrivia Keyword.listens.word) _ _
  have heard : expectEvent.Builds (blank :: part s :: lineBreak :: more) true _ _ :=
    string_builds [blank] blank_trivia event _ _
  exact Builds.node [blank] blank_trivia (part_isTrivia d) .domainListener
    (domain.seq (listens.seq heard))

theorem cronTrigger_builds (legible : ∀ p ∈ phrase, p.Legible) :
    cronTrigger.Builds
      (blank :: part Keyword.cron.word ::
        (spaced ((phrase.map Phrase.words).getD []) ++ lineBreak :: more)) true
      (apart [(Trigger.cron phrase).tree]) (lineBreak :: more) := by
  have cron : (takeKeyword .cron).Builds (part Keyword.cron.word :: _) true _
      (spaced ((phrase.map Phrase.words).getD []) ++ lineBreak :: more) :=
    Builds.take [] (List.forall_mem_nil _) (part_isTrivia Keyword.cron.word) _ _
  refine Builds.node [blank] blank_trivia (part_isTrivia Keyword.cron.word) .cronTrigger
    (cron.seq (t := apart (phrase.toList.map Phrase.tree)) ?_)
  cases phrase with
  | none => exact (Builds.look _ (phraseFirst_lineBreak more)).no (.answer true _)
  | some p =>
    have legible := legible p rfl
    exact (Builds.look _ (phrase_seen legible _)).yes
      ((phrase_builds legible more).seq (.answer true _))

theorem eventTrigger_builds (event : string.Spelled s) :
    eventTrigger.Builds (blank :: part s :: lineBreak :: more) true
      (apart [(Trigger.event (some s)).tree]) (lineBreak :: more) := by
  have taken : (takeKind .string).Builds (part s :: lineBreak :: more) true [.leaf (part s)]
      (lineBreak :: more) :=
    Builds.take [] (List.forall_mem_nil _) (part_isTrivia s) _ _
  rw [part_string event] at taken ⊢
  exact Builds.node [blank] blank_trivia rfl .eventTrigger taken

theorem trigger_builds {t : Trigger} (legible : t.Legible) :
    trigger.Builds (spaced t.words ++ lineBreak :: more) true (apart [t.tree]) (lineBreak :: more) := by
  -- The two looks add nothing; the questions that follow are about the same two tokens.
  refine (Builds.look _ rfl).seq ((Builds.look _ rfl).seq ?_)
  cases t with
  | external actor verb connector phrase =>
    obtain ⟨⟨a, rfl, actor, not_cron⟩, ⟨v, rfl, verb, not_listens⟩, fits⟩ := legible
    let rest := spaced (complementWords connector phrase) ++ lineBreak :: more
    show Builds _ (blank :: part a :: blank :: part v :: rest) _ _ _
    have listens := keyword_part verb .listens
    rw [decide_eq_false not_listens, ← kindIn_part v rest, ← kindIn_blank] at listens
    have cron := keyword_part actor .cron
    rw [decide_eq_false not_cron, ← kindIn_part a (blank :: part v :: rest), ← kindIn_blank] at cron
    have verbs := words_part verb
    rw [← kindIn_part v rest, ← kindIn_blank] at verbs
    exact (wordThen_builds blank_trivia actor listens).no <| (Builds.glance _ cron).no <|
      (wordThen_builds blank_trivia actor verbs).yes (externalTrigger_builds more actor verb fits)
  | event name =>
    obtain ⟨s, rfl, event⟩ := legible
    have string : kindIn 0 (blank :: part s :: lineBreak :: more) = .string := by
      rw [kindIn_blank, kindIn_part, part_string event]
    have other {among : KindSet} (apart : among.has TokenKind.string = false) :
        (onAny among).Builds (blank :: part s :: lineBreak :: more) false []
          (blank :: part s :: lineBreak :: more) :=
      .glance _ (by rw [string]; exact apart)
    have word : (onAny .words).Builds _ false [] (blank :: part s :: lineBreak :: more) :=
      other (KindSet.has_words _)
    exact (word.no (.answer false _)).no <|
      (other (KindSet.has_other TokenKind.noConfusion)).no <| (word.no (.answer false _)).no <|
      (Builds.glance _ ((KindSet.has_token _ _).mpr string)).yes (eventTrigger_builds more event)
  | listener domain name =>
    obtain ⟨⟨d, rfl, domain⟩, s, rfl, event⟩ := legible
    let rest := blank :: part s :: lineBreak :: more
    have listens : (KindSet.single (TokenKind.keyword .listens)).has
        (kindIn 0 (blank :: part Keyword.listens.word :: rest)) = true := by
      rw [kindIn_blank, kindIn_part, keyword_part Keyword.listens.spelled]
      exact decide_eq_true rfl
    exact (wordThen_builds blank_trivia domain listens).yes (domainListener_builds more event)
  | cron schedule =>
    let rest := spaced ((schedule.map Phrase.words).getD []) ++ lineBreak :: more
    show Builds _ (blank :: part Keyword.cron.word :: rest) _ _ _
    have cron : (KindSet.single (TokenKind.keyword .cron)).has
        (kindIn 0 (blank :: part Keyword.cron.word :: rest)) = true := by
      rw [kindIn_blank, kindIn_part, keyword_part Keyword.cron.spelled]
      exact decide_eq_true rfl
    have listens : (KindSet.single (TokenKind.keyword .listens)).has (kindIn 0 rest) = false := by
      cases schedule with
      | none => exact KindSet.has_other TokenKind.noConfusion
      | some p =>
        obtain ⟨spoken, other⟩ := legible p rfl
        obtain ⟨w, ws, words, speakable⟩ := phrase_begins spoken
        rw [words] at other
        have first : kindIn 0 rest = (part w).kind := by simp [rest, words]
        rw [first]
        exact not_keyword_part speakable fun same => other (congrArg some same)
    exact (wordThen_builds blank_trivia Keyword.cron.spelled listens).no <|
      (Builds.glance _ cron).yes (cronTrigger_builds more fun p given => (legible p given).1)

end

section

variable {s t e v : Word} {target connector : Option Word} {phrase : Option Phrase}
  (more : List Token)

theorem subject_builds (subject : identifier.Spelled s) (rest : List Token) :
    actionSubject.Builds (part s :: rest) true [named .actionSubject s] rest :=
  name_builds [] (List.forall_mem_nil _) .actionSubject "an action subject" subject rest

theorem syncAction_builds (subject : identifier.Spelled s) (asked : identifier.Spelled t)
    (given : phrase.isSome = true) (fits : Complement connector phrase) :
    syncAction.Builds
      (part s :: blank :: part Keyword.asks.word :: blank :: part t ::
        (spaced (complementWords connector phrase) ++ lineBreak :: more)) true
      [(Action.sync (some s) (some t) connector phrase).tree] (lineBreak :: more) := by
  have name := name_builds [blank] blank_trivia .actionTarget "the service being asked" asked
    (spaced (complementWords connector phrase) ++ lineBreak :: more)
  exact Builds.node [] (List.forall_mem_nil _) (part_isTrivia s) .syncAction <|
    (subject_builds subject _).seq <| (keyword_builds .asks _).seq <|
    name.seq (requiredPhrase_builds given fits more)

theorem asyncAction_builds (subject : identifier.Spelled s) (event : string.Spelled e) :
    asyncAction.Builds
      (part s :: blank :: part Keyword.notifies.word :: blank :: part e :: lineBreak :: more) true
      [(Action.async (some s) (some e) phrase).tree] (lineBreak :: more) :=
  .node [] (List.forall_mem_nil _) (part_isTrivia s) .asyncAction <|
    (subject_builds subject _).seq <| (keyword_builds .notifies _).seq <|
    string_builds [blank] blank_trivia event _ _

theorem internalAction_builds (subject : identifier.Spelled s) (verb : identifier.Spelled v)
    (given : phrase.isSome = true) (fits : Complement connector phrase) :
    internalAction.Builds
      (part s :: blank :: part v ::
        (spaced (complementWords connector phrase) ++ lineBreak :: more)) true
      [(Action.internal (some s) (some v) connector phrase).tree] (lineBreak :: more) := by
  have name := name_builds [blank] blank_trivia .actionVerb "a verb" verb
    (spaced (complementWords connector phrase) ++ lineBreak :: more)
  exact Builds.node [] (List.forall_mem_nil _) (part_isTrivia s) .internalAction <|
    (subject_builds subject _).seq <| name.seq (requiredPhrase_builds given fits more)

theorem aims_not {ahead : List Token}
    (other : kindIn 0 ahead = .keyword .wordTo → KindSet.plainWords.has (kindIn 1 ahead) = true →
      KindSet.phraseFirst.has (kindIn 2 ahead) = false) : aims.Builds ahead false [] ahead := by
  by_cases first : (KindSet.single (TokenKind.keyword .wordTo)).has (kindIn 0 ahead) = true
  · by_cases second : KindSet.plainWords.has (kindIn 1 ahead) = true
    · exact (Builds.look _ first).yes <| (Builds.glance _ second).yes <|
        .look _ (other ((KindSet.has_token _ _).mp first) second)
    · exact (Builds.look _ first).yes <|
        (Builds.glance _ (Bool.eq_false_iff.mpr second)).no (.answer false _)
  · exact (Builds.look _ (Bool.eq_false_iff.mpr first)).no (.answer false _)

theorem complement_seen {p : Phrase} (fits : Complement connector (some p)) (rest : List Token) :
    KindSet.phraseFirst.has (kindIn 0 (spaced (complementWords connector (some p)) ++ rest)) = true := by
  cases connector with
  | none => exact phrase_seen (fits.spoken p rfl) rest
  | some c =>
    obtain ⟨k, -, rfl⟩ := mem_connectorWords.mp (fits.joins c rfl).1
    show KindSet.phraseFirst.has (kindIn 0 (blank :: part k.word :: (spaced p.words ++ rest))) = true
    rw [kindIn_blank, kindIn_part]
    exact phraseFirst_part (.inl k.spelled)

theorem target_absent {p : Phrase} (fits : Target none connector (some p))
    (joined : Complement connector (some p)) :
    aims.Builds (spaced (complementWords connector (some p)) ++ lineBreak :: more) false []
      (spaced (complementWords connector (some p)) ++ lineBreak :: more) := by
  obtain ⟨w, ws, words, speakable⟩ := phrase_begins (joined.spoken p rfl)
  apply aims_not
  intro first second
  cases connector with
  | none =>
    -- A phrase that begins with `to` is that one word, and no word comes after it.
    have alone := joined.alone rfl p rfl
    rw [complementWords, Option.map_some, Option.getD_some, Option.toList_none, List.nil_append,
      words] at first second
    simp only [spaced_cons, List.cons_append, kindIn_blank, kindIn_part] at first
    have connector : w ∈ connectorWords := by
      apply connector_of_part speakable
      rw [first]
      rfl
    rw [words] at alone
    rw [single_word alone (not_not_intro connector)] at second
    simp at second
    cases second
  | some c =>
    -- After a connector `to` a word that could be a target is all of the phrase.
    obtain ⟨k, -, rfl⟩ := mem_connectorWords.mp (joined.joins c rfl).1
    have ahead : spaced (complementWords (some k.word) (some p)) ++ lineBreak :: more =
        blank :: part k.word :: blank :: part w :: (spaced ws ++ lineBreak :: more) := by
      simp [complementWords, words]
    rw [ahead] at first second ⊢
    simp only [kindIn_blank, kindIn_part, kindIn_part_succ] at first second ⊢
    have aim : k.word = Keyword.wordTo.word := by
      rw [part_word k.spelled] at first
      exact wordKind_keyword.mp first
    obtain ⟨word, plain⟩ := plain_of_part speakable second
    have either := fits.absent rfl (congrArg some aim) p rfl
    rw [words] at either
    rw [single_word either fun joins => plain (joins word)]
    exact phraseFirst_lineBreak more

theorem returnTarget_builds {p : Phrase} (fits : Target target connector (some p))
    (joined : Complement connector (some p)) :
    returnTarget.Builds
      (spaced (targetWords target) ++
        (spaced (complementWords connector (some p)) ++ lineBreak :: more)) true
      (apart (targetTrees target))
      (spaced (complementWords connector (some p)) ++ lineBreak :: more) := by
  refine (Builds.look _ rfl).seq ?_
  cases target with
  | none => exact (target_absent more fits joined).no (.answer true _)
  | some t =>
    obtain ⟨word, plain⟩ := fits.plain t rfl
    let rest := spaced (complementWords connector (some p)) ++ lineBreak :: more
    have first : kindIn 0 (blank :: part Keyword.wordTo.word :: blank :: part t :: rest) =
        .keyword .wordTo := by
      rw [kindIn_blank, kindIn_part]
      rfl
    have second : KindSet.plainWords.has
        (kindIn 1 (blank :: part Keyword.wordTo.word :: blank :: part t :: rest)) = true := by
      rw [kindIn_blank, kindIn_part_succ, kindIn_blank, kindIn_part]
      exact plainWords_part word plain
    have third : KindSet.phraseFirst.has
        (kindIn 2 (blank :: part Keyword.wordTo.word :: blank :: part t :: rest)) = true := by
      rw [kindIn_blank, kindIn_part_succ, kindIn_blank, kindIn_part_succ]
      exact complement_seen joined _
    have asked : aims.Builds (blank :: part Keyword.wordTo.word :: blank :: part t :: rest) true []
        (blank :: part Keyword.wordTo.word :: blank :: part t :: rest) :=
      (Builds.look _ ((KindSet.has_token _ _).mpr first)).yes <|
        (Builds.glance _ second).yes (.look _ third)
    have name := name_builds [blank] blank_trivia .actionTarget "a return target" word rest
    exact asked.yes (((keyword_builds .wordTo _).seq name).seq (.answer true _))

theorem returnAction_builds {p : Phrase} (subject : identifier.Spelled s)
    (fits : Target target connector (some p)) (joined : Complement connector (some p)) :
    returnAction.Builds
      (part s :: blank :: part Keyword.returns.word :: (spaced (targetWords target) ++
        (spaced (complementWords connector (some p)) ++ lineBreak :: more))) true
      [(Action.returns (some s) target connector (some p)).tree] (lineBreak :: more) := by
  have built := Builds.node [] (List.forall_mem_nil _) (part_isTrivia s) .returnAction <|
    (subject_builds subject _).seq <| (keyword_builds .returns _).seq <|
    (returnTarget_builds more fits joined).seq (requiredPhrase_builds rfl joined more)
  have trees : (Action.returns (some s) target connector (some p)).tree = _ :=
    congrArg (Tree.node .returnAction) (List.append_assoc [named .actionSubject s] _ _)
  rw [trees]
  exact built

theorem action_builds {a : Action} (legible : a.Legible) :
    action.Builds (lineTokens a.words ++ more) true [a.tree] (lineBreak :: more) := by
  have second {w : Word} {rest : List Token} {s : Word} {k : Keyword} {answer : Bool}
      (kind : (KindSet.single (TokenKind.keyword k)).has (part w).kind = answer) :
      (KindSet.single (TokenKind.keyword k)).has
        (kindIn 1 (part s :: blank :: part w :: rest)) = answer := by
    rwa [kindIn_part_succ, kindIn_blank, kindIn_part]
  cases a with
  | sync subject target connector phrase =>
    obtain ⟨⟨s, rfl, subject, -⟩, ⟨t, rfl, asked⟩, given, fits⟩ := legible
    have line : lineTokens (Action.sync (some s) (some t) connector phrase).words ++ more =
        part s :: blank :: part Keyword.asks.word :: blank :: part t ::
          (spaced (complementWords connector phrase) ++ lineBreak :: more) :=
      lineTokens_append _ _ more
    rw [line]
    have asks (k : Keyword) := keyword_part Keyword.asks.spelled k
    exact (Builds.look _ (second (asks .notifies))).no <|
      (Builds.glance _ (second (asks .returns))).no <|
      (Builds.glance _ (second (asks .asks))).yes (syncAction_builds more subject asked given fits)
  | async subject event phrase =>
    obtain ⟨⟨s, rfl, subject, -⟩, ⟨e, rfl, event⟩, rfl⟩ := legible
    have line : lineTokens (Action.async (some s) (some e) none).words ++ more =
        part s :: blank :: part Keyword.notifies.word :: blank :: part e :: lineBreak :: more := rfl
    rw [line]
    have notifies := keyword_part Keyword.notifies.spelled .notifies
    exact (Builds.look _ (second notifies)).yes (asyncAction_builds more subject event)
  | internal subject verb connector phrase =>
    obtain ⟨⟨s, rfl, subject, -⟩, ⟨v, rfl, verb, other⟩, given, fits⟩ := legible
    have line : lineTokens (Action.internal (some s) (some v) connector phrase).words ++ more =
        part s :: blank :: part v ::
          (spaced (complementWords connector phrase) ++ lineBreak :: more) :=
      lineTokens_append _ _ more
    rw [line]
    have no_keyword {k : Keyword}
        (among : k.word ∈ [Keyword.asks.word, Keyword.notifies.word, Keyword.returns.word]) :
        (KindSet.single (TokenKind.keyword k)).has (part v).kind = false :=
      not_keyword_part (.inl verb) fun same => other (same ▸ among)
    exact (Builds.look _ (second (no_keyword (by simp)))).no <|
      (Builds.glance _ (second (no_keyword (by simp)))).no <|
      (Builds.glance _ (second (no_keyword (by simp)))).no
        (internalAction_builds more subject verb given fits)
  | returns subject target connector phrase =>
    obtain ⟨⟨s, rfl, subject, -⟩, fits, given, joined⟩ := legible
    obtain ⟨p, rfl⟩ := Option.isSome_iff_exists.mp given
    have line : lineTokens (Action.returns (some s) target connector (some p)).words ++ more =
        part s :: blank :: part Keyword.returns.word :: (spaced (targetWords target) ++
          (spaced (complementWords connector (some p)) ++ lineBreak :: more)) := by
      rw [← List.append_assoc, ← spaced_append]
      exact lineTokens_append _ _ more
    rw [line]
    have returns (k : Keyword) := keyword_part Keyword.returns.spelled k
    exact (Builds.look _ (second (returns .notifies))).no <|
      (Builds.glance _ (second (returns .returns))).yes
        (returnAction_builds more subject fits joined)

end

end Production

end CraftDsl
