import CraftDsl.Ast.Item
import CraftDsl.Proofs.Printed

/-!
Declarations as text: services, domains, actors and exposures, with one property, definition, subdomain
or actor to a line. A declaration is an item as it can be written. Its words are spelled as such, and a
list of names is never empty and says whether a comma comes after its last name, which is not told by
the item.
-/
namespace CraftDsl

open TokenKind (identifier string)

/-- A word in the place of a name, be it a keyword or not. -/
structure Name where
  word : Word
  spelled : identifier.Spelled word

inductive Title
  | word (name : Name)
  | quoted (text : Word) (spelled : string.Spelled text)

structure NameList where
  first : Name
  others : List Name
  /-- Whether a comma comes after the last name. -/
  trailing : Bool

inductive Strategy
  | canary | blueGreen | rolling

structure Rollout where
  share : Word
  spelled : TokenKind.percentage.Spelled share
  target : Name

inductive ServiceLine
  | domains (names : NameList)
  | language (name : Name)
  | dataStores (names : NameList)
  | deployment (strategy : Strategy) (rules : List Rollout)

structure ServiceEntry where
  title : Title
  properties : List ServiceLine

structure DomainEntry where
  name : Name
  subdomains : List Name

inductive ActorRole
  | user | system | service

structure ActorEntry where
  role : ActorRole
  name : Name

structure ExposureLine where
  relation : ExposureRelation
  names : NameList

inductive Declaration
  | services (definitions : List ServiceEntry)
  | service (name : Name) (properties : List ServiceLine)
  | domain (definition : DomainEntry)
  | domains (definitions : List DomainEntry)
  | actors (definitions : List ActorEntry)
  | actor (definition : ActorEntry)
  | exposure (name : Name) (properties : List ExposureLine)

def Title.text : Title → Word
  | word name => name.word
  | quoted text _ => text

def NameList.words (l : NameList) : List Word := (l.first :: l.others).map Name.word

def Strategy.keyword : Strategy → Keyword
  | canary => .canary
  | blueGreen => .blueGreen
  | rolling => .rolling

def ActorRole.keyword : ActorRole → Keyword
  | user => .user
  | system => .system
  | service => .service

def Rollout.rule (r : Rollout) : DeploymentRule := ⟨some r.share, some r.target.word⟩

def ServiceLine.property : ServiceLine → ServiceProperty
  | domains names => .domains names.words
  | language name => .language (some name.word)
  | dataStores names => .dataStores names.words
  | deployment strategy rules =>
    .deployment (some ⟨some strategy.keyword.word, rules.map Rollout.rule⟩)

def ServiceEntry.service (e : ServiceEntry) : Service :=
  ⟨some e.title.text, e.properties.map ServiceLine.property⟩

def DomainEntry.domain (e : DomainEntry) : Domain := ⟨some e.name.word, e.subdomains.map Name.word⟩

def ActorEntry.actor (e : ActorEntry) : Actor := ⟨some e.role.keyword.word, some e.name.word⟩

def ExposureLine.property (l : ExposureLine) : ExposureProperty := ⟨l.relation, l.names.words⟩

def Declaration.item : Declaration → Item
  | services definitions => .services (definitions.map ServiceEntry.service)
  | service name properties => .service ⟨some name.word, properties.map ServiceLine.property⟩
  | domain definition => .domain definition.domain
  | domains definitions => .domains (definitions.map DomainEntry.domain)
  | actors definitions => .actors (definitions.map ActorEntry.actor)
  | actor definition => .actor definition.actor
  | exposure name properties => .exposure ⟨some name.word, properties.map ExposureLine.property⟩

def NameList.text (l : NameList) : List Char :=
  [',', ' '].intercalate l.words ++ if l.trailing then [','] else []

def Rollout.text (r : Rollout) : List Char := r.share ++ [' ', '-', '>', ' '] ++ r.target.word

def rulesText (rules : List Rollout) : List Char :=
  if rules = [] then [] else [' ', '('] ++ [',', ' '].intercalate (rules.map Rollout.text) ++ [')']

def ServiceLine.keyword : ServiceLine → Keyword
  | domains _ => .domains
  | language _ => .language
  | dataStores _ => .dataStores
  | deployment _ _ => .deployment

def ServiceLine.value : ServiceLine → List Char
  | domains names | dataStores names => names.text
  | language name => name.word
  | deployment strategy rules => strategy.keyword.word ++ rulesText rules

def ServiceLine.text (l : ServiceLine) : List Char := l.keyword.word ++ [':', ' '] ++ l.value

def relationKeyword : ExposureRelation → Keyword
  | .to => .wordTo
  | .through => .through
  | .of => .wordOf

def ExposureLine.text (l : ExposureLine) : List Char :=
  (relationKeyword l.relation).word ++ [':', ' '] ++ l.names.text

def bodyText (lines : List (List Char)) : List Char :=
  [' ', '\x7b', '\n'] ++ (lines.flatMap fun line => line ++ ['\n']) ++ ['\x7d']

def ServiceEntry.text (e : ServiceEntry) : List Char :=
  e.title.text ++ bodyText (e.properties.map ServiceLine.text)

def DomainEntry.text (e : DomainEntry) : List Char :=
  e.name.word ++ bodyText (e.subdomains.map Name.word)

def ActorEntry.text (e : ActorEntry) : List Char := e.role.keyword.word ++ [' '] ++ e.name.word

def Declaration.text : Declaration → List Char
  | services definitions =>
    Keyword.services.word ++ bodyText (definitions.map ServiceEntry.text) ++ ['\n']
  | service name properties =>
    Keyword.service.word ++ [' '] ++ name.word ++ bodyText (properties.map ServiceLine.text) ++ ['\n']
  | domain definition => Keyword.domain.word ++ [' '] ++ definition.text ++ ['\n']
  | domains definitions =>
    Keyword.domains.word ++ bodyText (definitions.map DomainEntry.text) ++ ['\n']
  | actors definitions => Keyword.actors.word ++ bodyText (definitions.map ActorEntry.text) ++ ['\n']
  | actor definition => Keyword.actor.word ++ [' '] ++ definition.text ++ ['\n']
  | exposure name properties =>
    Keyword.exposure.word ++ [' '] ++ name.word ++ bodyText (properties.map ExposureLine.text) ++
      ['\n']

def declarationsText (ds : List Declaration) : List Char := ds.flatMap Declaration.text

def storefront : List Declaration :=
  let order : Name := ⟨"order".toList, by decide⟩
  let domain : Name := ⟨"domain".toList, by decide⟩
  let canary : Name := ⟨"canary".toList, by decide⟩
  let cart : Title := .quoted "\"Cart 2\"".toList (by decide)
  [.services [⟨cart, [.domains ⟨order, [domain], true⟩,
      .deployment .canary [⟨"10%".toList, by decide, canary⟩, ⟨"90%".toList, by decide, order⟩]]⟩],
    .domain ⟨domain, [order]⟩,
    .actor ⟨.service, canary⟩]

example : declarationsText storefront =
    ("services \x7b\n\"Cart 2\" \x7b\ndomains: order, domain,\n" ++
      "deployment: canary (10% -> canary, 90% -> order)\n\x7d\n\x7d\n" ++
      "domain domain \x7b\norder\n\x7d\nactor service canary\n").toList := by decide +kernel

def NameList.tokens (l : NameList) : List Token :=
  part l.first.word :: ((l.others.flatMap fun name => [sign ',', blank, part name.word]) ++
    if l.trailing then [sign ','] else [])

def Rollout.tokens (r : Rollout) : List Token :=
  [⟨.percentage, r.share⟩, blank, arrow, blank, part r.target.word]

def rulesTokens : List Rollout → List Token
  | [] => []
  | r :: rs =>
    blank :: sign '(' :: (r.tokens ++ ((rs.flatMap fun r => sign ',' :: blank :: r.tokens) ++
      [sign ')']))

def ServiceLine.valueTokens : ServiceLine → List Token
  | domains names | dataStores names => names.tokens
  | language name => [part name.word]
  | deployment strategy rules => part strategy.keyword.word :: rulesTokens rules

def ServiceLine.tokens (l : ServiceLine) : List Token :=
  part l.keyword.word :: sign ':' :: blank :: l.valueTokens

def ExposureLine.tokens (l : ExposureLine) : List Token :=
  part (relationKeyword l.relation).word :: sign ':' :: blank :: l.names.tokens

def bodyTokens (lines : List (List Token)) : List Token :=
  blank :: part ['\x7b'] :: lineBreak :: ((lines.flatMap fun line => line ++ [lineBreak]) ++ [closing])

def ServiceEntry.tokens (e : ServiceEntry) : List Token :=
  part e.title.text :: bodyTokens (e.properties.map ServiceLine.tokens)

def DomainEntry.tokens (e : DomainEntry) : List Token :=
  part e.name.word :: bodyTokens (e.subdomains.map fun name => [part name.word])

def ActorEntry.tokens (e : ActorEntry) : List Token :=
  [part e.role.keyword.word, blank, part e.name.word]

def Declaration.tokens : Declaration → List Token
  | services definitions =>
    part Keyword.services.word :: (bodyTokens (definitions.map ServiceEntry.tokens) ++ [lineBreak])
  | service name properties =>
    part Keyword.service.word :: blank :: part name.word ::
      (bodyTokens (properties.map ServiceLine.tokens) ++ [lineBreak])
  | domain definition =>
    part Keyword.domain.word :: blank :: (definition.tokens ++ [lineBreak])
  | domains definitions =>
    part Keyword.domains.word :: (bodyTokens (definitions.map DomainEntry.tokens) ++ [lineBreak])
  | actors definitions =>
    part Keyword.actors.word :: (bodyTokens (definitions.map ActorEntry.tokens) ++ [lineBreak])
  | actor definition => part Keyword.actor.word :: blank :: (definition.tokens ++ [lineBreak])
  | exposure name properties =>
    part Keyword.exposure.word :: blank :: part name.word ::
      (bodyTokens (properties.map ExposureLine.tokens) ++ [lineBreak])

theorem Name.lexes (n : Name) : Lexes n.word [part n.word] partsWords := .word n.spelled

theorem word_front {w : Word} (spelled : identifier.Spelled w) (more : List Char) :
    ∃ c cs, w ++ more = c :: cs ∧ (!isBlank c) = true := by
  obtain ⟨c, cs, rfl, solid⟩ := word_begins spelled
  exact ⟨c, cs ++ more, rfl, by rw [solid]; rfl⟩

theorem Name.begins (n : Name) : ∃ c cs, n.word = c :: cs ∧ (!isBlank c) = true := by
  have front := word_front n.spelled []
  rwa [List.append_nil] at front

theorem Title.lexes (t : Title) : Lexes t.text [part t.text] partsWords := by
  cases t with
  | word name => exact name.lexes
  | quoted text spelled =>
    exact ⟨List.forall_mem_singleton.mpr (part_sound text), fun rest _ => lex_string spelled rest⟩

section

variable {α : Type} {f : α → List Char} {g : α → List Token} (xs : List α)

theorem Lexes.commas (each : ∀ x ∈ xs, Lexes (f x) (g x) partsWords)
    (begins : ∀ x ∈ xs, ∃ c cs, f x = c :: cs ∧ (!isBlank c) = true) :
    Lexes (xs.flatMap fun x => [',', ' '] ++ f x)
      (xs.flatMap fun x => CraftDsl.sign ',' :: blank :: g x) partsWords := by
  refine .flatMap (fun x member => ?_) fun x _ => ⟨_, _, rfl, rfl⟩
  exact (Lexes.sign (c := ',') rfl).before (Lexes.space.append (each x member) (begins x member))

theorem Lexes.body (each : ∀ x ∈ xs, Lexes (f x) (g x) partsWords) :
    Lexes (bodyText (xs.map f)) (bodyTokens (xs.map g)) fun _ => true := by
  have lines : Lexes (xs.flatMap fun x => f x ++ ['\n']) (xs.flatMap fun x => g x ++ [lineBreak])
      fun _ => true :=
    .lines fun x member => (each x member).append .newline ⟨_, _, rfl, rfl⟩
  have inner := Lexes.newline.before (lines.before (Lexes.sign (c := '\x7d') rfl))
  have braces := Lexes.space.append ((Lexes.sign (c := '\x7b') rfl).before inner) ⟨_, _, rfl, rfl⟩
  rw [bodyText, bodyTokens, List.flatMap_map, List.flatMap_map]
  exact braces

end

theorem NameList.text_eq (l : NameList) : l.text =
    l.first.word ++ ((l.others.flatMap fun name => [',', ' '] ++ name.word) ++
      if l.trailing then [','] else []) := by
  rw [NameList.text, NameList.words, List.map_cons, intercalate_cons, List.flatMap_map,
    List.append_assoc]

theorem NameList.begins (l : NameList) : ∃ c cs, l.text = c :: cs ∧ (!isBlank c) = true := by
  rw [l.text_eq]
  exact word_front l.first.spelled _

theorem NameList.lexes (l : NameList) : Lexes l.text l.tokens partsWords := by
  rw [l.text_eq]
  obtain ⟨first, others, trailing⟩ := l
  have further := Lexes.commas others (fun name _ => name.lexes) fun name _ => name.begins
  cases trailing with
  | true =>
    have comma := (Lexes.sign (c := ',') rfl).mono (q := partsWords) fun _ _ => rfl
    have ended := further.append comma ⟨_, _, rfl, rfl⟩
    exact first.lexes.append ended (by cases others <;> exact ⟨_, _, rfl, rfl⟩)
  | false =>
    cases others with
    | nil =>
      show Lexes (first.word ++ []) [part first.word] partsWords
      rw [List.append_nil]
      exact first.lexes
    | cons next others =>
      have ended := first.lexes.append further ⟨_, _, rfl, rfl⟩
      simpa [NameList.tokens] using ended

theorem Rollout.lexes (r : Rollout) : Lexes r.text r.tokens partsWords := by
  have target := Lexes.space.append r.target.lexes r.target.begins
  have arrow := Lexes.space.append (Lexes.arrow.before target) ⟨_, _, rfl, rfl⟩
  rw [Rollout.text, List.append_assoc]
  exact (Lexes.percentage r.spelled).before arrow

theorem Rollout.begins (r : Rollout) : ∃ c cs, r.text = c :: cs ∧ (!isBlank c) = true := by
  obtain ⟨digits, number, share⟩ := TokenKind.spelled_percentage.mp r.spelled
  obtain ⟨wide, digits⟩ := TokenKind.spelled_number.mp number
  obtain ⟨c, cs, rfl⟩ := List.exists_cons_of_ne_nil wide
  refine ⟨c, _, by rw [Rollout.text, share]; rfl, ?_⟩
  rw [(digit_plain (digits c List.mem_cons_self)).2.1]
  rfl

theorem rules_lexes (r : Rollout) (rs : List Rollout) :
    Lexes (rulesText (r :: rs)) (rulesTokens (r :: rs)) fun _ => true := by
  have further := Lexes.commas rs (fun r _ => r.lexes) fun r _ => r.begins
  have closed := further.append (Lexes.sign (c := ')') rfl) ⟨_, _, rfl, rfl⟩
  have inner := r.lexes.append closed (by cases rs <;> exact ⟨_, _, rfl, rfl⟩)
  have whole := Lexes.space.append ((Lexes.sign (c := '(') rfl).before inner) ⟨_, _, rfl, rfl⟩
  have text : rulesText (r :: rs) =
      [' '] ++ (['('] ++ (r.text ++ ((rs.flatMap fun r => [',', ' '] ++ r.text) ++ [')']))) := by
    rw [rulesText, if_neg (List.cons_ne_nil r rs), List.map_cons, intercalate_cons, List.flatMap_map]
    simp
  rw [text]
  exact whole

theorem ServiceLine.value_lexes (l : ServiceLine) : Lexes l.value l.valueTokens partsWords := by
  cases l with
  | domains names | dataStores names => exact names.lexes
  | language name => exact name.lexes
  | deployment strategy rules =>
    have word := Lexes.word strategy.keyword.spelled
    cases rules with
    | nil =>
      show Lexes (strategy.keyword.word ++ []) [part strategy.keyword.word] partsWords
      rw [List.append_nil]
      exact word
    | cons r rs => exact word.append ((rules_lexes r rs).mono fun _ _ => rfl) ⟨_, _, rfl, rfl⟩

theorem ServiceLine.value_begins (l : ServiceLine) :
    ∃ c cs, l.value = c :: cs ∧ (!isBlank c) = true := by
  cases l with
  | domains names | dataStores names => exact names.begins
  | language name => exact name.begins
  | deployment strategy rules => exact word_front strategy.keyword.spelled _

/-- A keyword, a colon and a value. -/
theorem property_lexes (k : Keyword) {value : List Char} {tokens : List Token}
    (lexes : Lexes value tokens partsWords)
    (begins : ∃ c cs, value = c :: cs ∧ (!isBlank c) = true) :
    Lexes (k.word ++ [':', ' '] ++ value) (part k.word :: sign ':' :: blank :: tokens)
      partsWords := by
  have colon := (Lexes.sign (c := ':') rfl).before (Lexes.space.append lexes begins)
  rw [List.append_assoc]
  exact (Lexes.word k.spelled).append colon ⟨_, _, rfl, rfl⟩

theorem ServiceLine.lexes (l : ServiceLine) : Lexes l.text l.tokens partsWords :=
  property_lexes l.keyword l.value_lexes l.value_begins

theorem ExposureLine.lexes (l : ExposureLine) : Lexes l.text l.tokens partsWords :=
  property_lexes (relationKeyword l.relation) l.names.lexes l.names.begins

theorem ServiceEntry.lexes (e : ServiceEntry) : Lexes e.text e.tokens fun _ => true :=
  e.title.lexes.append (.body _ fun l _ => l.lexes) ⟨_, _, rfl, rfl⟩

theorem DomainEntry.lexes (e : DomainEntry) : Lexes e.text e.tokens fun _ => true :=
  e.name.lexes.append (.body _ fun name _ => name.lexes) ⟨_, _, rfl, rfl⟩

theorem ActorEntry.lexes (e : ActorEntry) : Lexes e.text e.tokens partsWords := by
  rw [ActorEntry.text, List.append_assoc]
  exact (Lexes.word e.role.keyword.spelled).append (Lexes.space.append e.name.lexes e.name.begins)
    ⟨_, _, rfl, rfl⟩

theorem ActorEntry.begins (e : ActorEntry) : ∃ c cs, e.text = c :: cs ∧ (!isBlank c) = true := by
  rw [ActorEntry.text, List.append_assoc]
  exact word_front e.role.keyword.spelled _

section

variable (k : Keyword) {s : List Char} {a : List Token}

theorem heading_lexes (rest : Lexes s a partsWords) (spaced : ∃ cs, s = ' ' :: cs) :
    Lexes (k.word ++ s ++ ['\n']) (part k.word :: (a ++ [lineBreak])) fun _ => true := by
  obtain ⟨cs, begins⟩ := spaced
  have ended := rest.append Lexes.newline ⟨_, _, rfl, rfl⟩
  rw [List.append_assoc]
  exact (Lexes.word k.spelled).append ended ⟨' ', cs ++ ['\n'], by rw [begins]; rfl, rfl⟩

theorem heading_spaced (rest : Lexes s a partsWords)
    (begins : ∃ c cs, s = c :: cs ∧ (!isBlank c) = true) :
    Lexes (k.word ++ [' '] ++ s ++ ['\n']) (part k.word :: blank :: (a ++ [lineBreak]))
      fun _ => true := by
  have spaced := heading_lexes k (Lexes.space.append rest begins) ⟨_, rfl⟩
  rwa [← List.append_assoc] at spaced

theorem heading_named (n : Name) {lines : List (List Char)} {tokens : List (List Token)}
    (body : Lexes (bodyText lines) (bodyTokens tokens) fun _ => true) :
    Lexes (k.word ++ [' '] ++ n.word ++ bodyText lines ++ ['\n'])
      (part k.word :: blank :: part n.word :: (bodyTokens tokens ++ [lineBreak])) fun _ => true := by
  have named := n.lexes.append body ⟨_, _, rfl, rfl⟩
  have spaced := heading_spaced k (named.mono fun _ _ => rfl) (word_front n.spelled _)
  rwa [← List.append_assoc] at spaced

end

theorem Declaration.lexes (d : Declaration) : Lexes d.text d.tokens fun _ => true := by
  cases d with
  | services definitions =>
    have body := Lexes.body definitions fun e _ => e.lexes.mono fun _ _ => rfl
    exact heading_lexes .services (body.mono fun _ _ => rfl) ⟨_, rfl⟩
  | service name properties => exact heading_named .service name (.body _ fun l _ => l.lexes)
  | domain definition =>
    exact heading_spaced .domain (definition.lexes.mono fun _ _ => rfl)
      (word_front definition.name.spelled _)
  | domains definitions =>
    have body := Lexes.body definitions fun e _ => e.lexes.mono fun _ _ => rfl
    exact heading_lexes .domains (body.mono fun _ _ => rfl) ⟨_, rfl⟩
  | actors definitions =>
    have body := Lexes.body definitions fun e _ => e.lexes
    exact heading_lexes .actors (body.mono fun _ _ => rfl) ⟨_, rfl⟩
  | actor definition => exact heading_spaced .actor definition.lexes definition.begins
  | exposure name properties => exact heading_named .exposure name (.body _ fun l _ => l.lexes)

theorem declarations_lexes (ds : List Declaration) :
    Lexes (declarationsText ds) (ds.flatMap Declaration.tokens) fun _ => true :=
  .lines fun d _ => d.lexes

end CraftDsl
