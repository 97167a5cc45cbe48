import CraftDsl.Ast.Item
import CraftDsl.Proofs.Printed

/-!
Use cases as text: a line for each trigger and each action, with one space between two words. A use case
is legible if each of its words is one and nothing in a line is taken for something else when the line is
read again; keywords may stand wherever that rules them in. The tokens of such a text are its words,
spaces and line breaks.
-/
namespace CraftDsl

def connectorWords : List Word := (Keyword.all.filter Keyword.isConnector).map Keyword.word

def complementWords (connector : Option Word) (phrase : Option Phrase) : List Word :=
  connector.toList ++ (phrase.map Phrase.words).getD []

def Trigger.words : Trigger → List Word
  | .external actor verb connector phrase =>
    actor.toList ++ verb.toList ++ complementWords connector phrase
  | .event name => name.toList
  | .listener domain name => domain.toList ++ Keyword.listens.word :: name.toList
  | .cron schedule => Keyword.cron.word :: (schedule.map Phrase.words).getD []

def targetWords (target : Option Word) : List Word :=
  (target.map fun t => [Keyword.wordTo.word, t]).getD []

def Action.words : Action → List Word
  | .sync subject target connector phrase =>
    subject.toList ++ Keyword.asks.word :: (target.toList ++ complementWords connector phrase)
  | .async subject event _ => subject.toList ++ Keyword.notifies.word :: event.toList
  | .internal subject verb connector phrase =>
    subject.toList ++ verb.toList ++ complementWords connector phrase
  | .returns subject target connector phrase =>
    subject.toList ++ Keyword.returns.word :: (targetWords target ++ complementWords connector phrase)

def Scenario.lines (s : Scenario) : List (List Word) :=
  (Keyword.when.word :: (s.trigger.map Trigger.words).getD []) :: s.actions.map Action.words

def UseCase.lines (u : UseCase) : List (List Word) :=
  (Keyword.useCase.word :: u.name.toList ++ [['\x7b']]) :: u.scenarios.flatMap Scenario.lines

def lineText (words : List Word) : List Char := [' '].intercalate words ++ ['\n']

def UseCase.text (u : UseCase) : List Char := u.lines.flatMap lineText ++ ['\x7d']

open TokenKind (identifier string)

def Speakable (w : Word) : Prop := identifier.Spelled w ∨ string.Spelled w

instance (w : Word) : Decidable (Speakable w) := inferInstanceAs (Decidable (_ ∨ _))

def Phrase.Legible (p : Phrase) : Prop := p.words ≠ [] ∧ ∀ w ∈ p.words, Speakable w

instance (p : Phrase) : Decidable p.Legible := inferInstanceAs (Decidable (_ ∧ _))

/-- A connector is a connector word, and a phrase follows it. A phrase that follows none does not begin
with one and go on. -/
structure Complement (connector : Option Word) (phrase : Option Phrase) : Prop where
  spoken : ∀ p ∈ phrase, p.Legible
  joins : ∀ c ∈ connector, c ∈ connectorWords ∧ phrase.isSome = true
  alone : connector = none → ∀ p ∈ phrase,
    p.words.length = 1 ∨ ∀ first ∈ p.words.head?, first ∉ connectorWords

instance (connector : Option Word) (phrase : Option Phrase) : Decidable (Complement connector phrase) :=
  decidable_of_iff (_ ∧ _ ∧ _)
    ⟨fun ⟨spoken, joins, alone⟩ => ⟨spoken, joins, alone⟩,
      fun ⟨spoken, joins, alone⟩ => ⟨spoken, joins, alone⟩⟩

def Trigger.Legible : Trigger → Prop
  | .external actor verb connector phrase =>
    (∃ a ∈ actor, identifier.Spelled a ∧ a ≠ Keyword.cron.word) ∧
      (∃ v ∈ verb, identifier.Spelled v ∧ v ≠ Keyword.listens.word) ∧ Complement connector phrase
  | .event name => ∃ n ∈ name, string.Spelled n
  | .listener domain name =>
    (∃ d ∈ domain, identifier.Spelled d) ∧ ∃ n ∈ name, string.Spelled n
  | .cron schedule => ∀ p ∈ schedule, p.Legible ∧ p.words.head? ≠ some Keyword.listens.word

instance : (t : Trigger) → Decidable t.Legible
  | .external .. => inferInstanceAs (Decidable (_ ∧ _ ∧ _))
  | .event .. => inferInstanceAs (Decidable (∃ n ∈ _, _))
  | .listener .. => inferInstanceAs (Decidable (_ ∧ _))
  | .cron .. => inferInstanceAs (Decidable (∀ p ∈ _, _))

/-- The subject of an action, which would begin another scenario if it were `when`. -/
def Subject (subject : Option Word) : Prop :=
  ∃ s ∈ subject, identifier.Spelled s ∧ s ≠ Keyword.when.word

instance (subject : Option Word) : Decidable (Subject subject) :=
  inferInstanceAs (Decidable (∃ s ∈ _, _))

/-- The target of a return is no connector word. Where there is none, nothing looks like one: after a
connector `to` the phrase does not begin with such a word and go on. -/
structure Target (target connector : Option Word) (phrase : Option Phrase) : Prop where
  plain : ∀ t ∈ target, identifier.Spelled t ∧ t ∉ connectorWords
  absent : target = none → connector = some Keyword.wordTo.word → ∀ p ∈ phrase,
    p.words.length = 1 ∨ ∀ first ∈ p.words.head?, identifier.Spelled first → first ∈ connectorWords

instance (target connector : Option Word) (phrase : Option Phrase) :
    Decidable (Target target connector phrase) :=
  decidable_of_iff (_ ∧ _)
    ⟨fun ⟨plain, absent⟩ => ⟨plain, absent⟩, fun ⟨plain, absent⟩ => ⟨plain, absent⟩⟩

def Action.Legible : Action → Prop
  | .sync subject target connector phrase =>
    Subject subject ∧ (∃ t ∈ target, identifier.Spelled t) ∧ phrase.isSome = true ∧
      Complement connector phrase
  | .async subject event phrase => Subject subject ∧ (∃ e ∈ event, string.Spelled e) ∧ phrase = none
  | .internal subject verb connector phrase =>
    Subject subject ∧
      (∃ v ∈ verb, identifier.Spelled v ∧
        v ∉ [Keyword.asks.word, Keyword.notifies.word, Keyword.returns.word]) ∧
      phrase.isSome = true ∧ Complement connector phrase
  | .returns subject target connector phrase =>
    Subject subject ∧ Target target connector phrase ∧ phrase.isSome = true ∧
      Complement connector phrase

instance : (a : Action) → Decidable a.Legible
  | .sync .. => inferInstanceAs (Decidable (_ ∧ _ ∧ _ ∧ _))
  | .async .. => inferInstanceAs (Decidable (_ ∧ _ ∧ _))
  | .internal .. => inferInstanceAs (Decidable (_ ∧ _ ∧ _ ∧ _))
  | .returns .. => inferInstanceAs (Decidable (_ ∧ _ ∧ _ ∧ _))

def Scenario.Legible (s : Scenario) : Prop :=
  (∃ t ∈ s.trigger, t.Legible) ∧ ∀ a ∈ s.actions, a.Legible

instance (s : Scenario) : Decidable s.Legible := inferInstanceAs (Decidable (_ ∧ _))

def UseCase.Legible (u : UseCase) : Prop :=
  (∃ n ∈ u.name, string.Spelled n) ∧ u.scenarios ≠ [] ∧ ∀ s ∈ u.scenarios, s.Legible

instance (u : UseCase) : Decidable u.Legible := inferInstanceAs (Decidable (_ ∧ _ ∧ _))

theorem mem_connectorWords {w : Word} :
    w ∈ connectorWords ↔ ∃ k : Keyword, k.isConnector = true ∧ k.word = w := by
  have every (k : Keyword) : k ∈ Keyword.all := by cases k <;> decide
  simp [connectorWords, every]

theorem Action.begins {a : Action} (legible : a.Legible) :
    ∃ s ws, a.words = s :: ws ∧ identifier.Spelled s ∧ s ≠ Keyword.when.word := by
  cases a with
  | sync subject =>
    obtain ⟨⟨s, rfl, subject⟩, -⟩ := legible
    exact ⟨s, _, rfl, subject⟩
  | async subject =>
    obtain ⟨⟨s, rfl, subject⟩, -⟩ := legible
    exact ⟨s, _, rfl, subject⟩
  | internal subject =>
    obtain ⟨⟨s, rfl, subject⟩, -⟩ := legible
    exact ⟨s, _, rfl, subject⟩
  | returns subject =>
    obtain ⟨⟨s, rfl, subject⟩, -⟩ := legible
    exact ⟨s, _, rfl, subject⟩

theorem Complement.speakable {connector : Option Word} {phrase : Option Phrase}
    (fits : Complement connector phrase) : ∀ w ∈ complementWords connector phrase, Speakable w := by
  refine List.forall_mem_append.mpr ⟨fun c given => ?_, ?_⟩
  · obtain ⟨k, -, rfl⟩ := mem_connectorWords.mp (fits.joins c (Option.mem_toList.mp given)).1
    exact .inl k.spelled
  · cases phrase with
    | none => exact List.forall_mem_nil _
    | some p => exact (fits.spoken p rfl).2

theorem Trigger.speakable {t : Trigger} (legible : t.Legible) : ∀ w ∈ t.words, Speakable w := by
  cases t with
  | external actor verb connector phrase =>
    obtain ⟨⟨a, rfl, actor, -⟩, ⟨v, rfl, verb, -⟩, fits⟩ := legible
    exact List.forall_mem_cons.mpr ⟨.inl actor, List.forall_mem_cons.mpr ⟨.inl verb, fits.speakable⟩⟩
  | event name =>
    obtain ⟨s, rfl, event⟩ := legible
    exact List.forall_mem_singleton.mpr (.inr event)
  | listener domain name =>
    obtain ⟨⟨d, rfl, domain⟩, s, rfl, event⟩ := legible
    exact List.forall_mem_cons.mpr ⟨.inl domain, List.forall_mem_cons.mpr
      ⟨.inl Keyword.listens.spelled, List.forall_mem_singleton.mpr (.inr event)⟩⟩
  | cron schedule =>
    refine List.forall_mem_cons.mpr ⟨.inl Keyword.cron.spelled, ?_⟩
    cases schedule with
    | none => exact List.forall_mem_nil _
    | some p => exact (legible p rfl).1.2

theorem Target.speakable {target connector : Option Word} {phrase : Option Phrase}
    (fits : Target target connector phrase) : ∀ w ∈ targetWords target, Speakable w := by
  cases target with
  | none => exact List.forall_mem_nil _
  | some t =>
    exact List.forall_mem_cons.mpr ⟨.inl Keyword.wordTo.spelled,
      List.forall_mem_singleton.mpr (.inl (fits.plain t rfl).1)⟩

theorem Action.speakable {a : Action} (legible : a.Legible) : ∀ w ∈ a.words, Speakable w := by
  cases a with
  | sync subject target connector phrase =>
    obtain ⟨⟨s, rfl, subject, -⟩, ⟨t, rfl, asked⟩, -, fits⟩ := legible
    exact List.forall_mem_cons.mpr ⟨.inl subject, List.forall_mem_cons.mpr
      ⟨.inl Keyword.asks.spelled, List.forall_mem_cons.mpr ⟨.inl asked, fits.speakable⟩⟩⟩
  | async subject event phrase =>
    obtain ⟨⟨s, rfl, subject, -⟩, ⟨e, rfl, event⟩, -⟩ := legible
    exact List.forall_mem_cons.mpr ⟨.inl subject, List.forall_mem_cons.mpr
      ⟨.inl Keyword.notifies.spelled, List.forall_mem_singleton.mpr (.inr event)⟩⟩
  | internal subject verb connector phrase =>
    obtain ⟨⟨s, rfl, subject, -⟩, ⟨v, rfl, verb, -⟩, -, fits⟩ := legible
    exact List.forall_mem_cons.mpr ⟨.inl subject,
      List.forall_mem_cons.mpr ⟨.inl verb, fits.speakable⟩⟩
  | returns subject target connector phrase =>
    obtain ⟨⟨s, rfl, subject, -⟩, aimed, -, fits⟩ := legible
    exact List.forall_mem_cons.mpr ⟨.inl subject, List.forall_mem_cons.mpr
      ⟨.inl Keyword.returns.spelled, List.forall_mem_append.mpr ⟨aimed.speakable, fits.speakable⟩⟩⟩

theorem Scenario.speakable {s : Scenario} (legible : s.Legible) :
    ∀ line ∈ s.lines, line ≠ [] ∧ ∀ w ∈ line, Speakable w := by
  obtain ⟨trigger, actions⟩ := s
  obtain ⟨⟨t, rfl, spoken⟩, legible⟩ := legible
  refine List.forall_mem_cons.mpr ⟨⟨List.cons_ne_nil _ _, ?_⟩, ?_⟩
  · exact List.forall_mem_cons.mpr ⟨.inl Keyword.when.spelled, t.speakable spoken⟩
  · intro line member
    obtain ⟨a, among, rfl⟩ := List.mem_map.mp member
    obtain ⟨s, ws, words, -⟩ := a.begins (legible a among)
    exact ⟨by rw [words]; exact List.cons_ne_nil _ _, a.speakable (legible a among)⟩

def spaced (words : List Word) : List Token := words.flatMap fun w => [blank, part w]

def lineTokens : List Word → List Token
  | [] => [lineBreak]
  | first :: rest => part first :: spaced rest ++ [lineBreak]

theorem lineTokens_append (w : Word) (ws : List Word) (more : List Token) :
    lineTokens (w :: ws) ++ more = part w :: (spaced ws ++ lineBreak :: more) :=
  List.append_assoc (part w :: spaced ws) _ _

def Printable (w : Word) : Prop := Speakable w ∨ w = ['\x7b']

section

variable {w : Word}

theorem lex_part {d : Char} (printable : Printable w) (stop : d = ' ' ∨ d = '\n')
    (rest : List Char) : lex (w ++ d :: rest) = part w :: lex (d :: rest) := by
  rcases printable with (word | string) | rfl
  · refine lex_word word ?_
    rintro _ ⟨⟩
    rcases stop with rfl | rfl <;> rfl
  · exact lex_string string _
  · exact lex_cons _ _

theorem Printable.begins (printable : Printable w) : ∃ c cs, w = c :: cs ∧ isBlank c = false := by
  rcases printable with (word | string) | rfl
  · exact word_begins word
  · obtain ⟨body, -, rfl⟩ := TokenKind.spelled_string.mp string
    exact ⟨_, _, rfl, rfl⟩
  · exact ⟨_, _, rfl, rfl⟩

theorem lex_line {words : List Word} (some_word : words ≠ [])
    (printable : ∀ w ∈ words, Printable w) (rest : List Char) :
    lex (lineText words ++ rest) = lineTokens words ++ lex rest := by
  have broken : lex ('\n' :: rest) = lineBreak :: lex rest := lex_lineBreak rest
  induction words with
  | nil => exact absurd rfl some_word
  | cons w words ih =>
    obtain ⟨here, later⟩ := List.forall_mem_cons.mp printable
    cases words with
    | nil =>
      have line : lineText [w] ++ rest = w ++ '\n' :: rest := by simp [lineText]
      rw [line, lex_part here (.inr rfl), broken]
      rfl
    | cons next words =>
      obtain ⟨c, cs, begins, solid⟩ := (later next List.mem_cons_self).begins
      have line : lineText (w :: next :: words) ++ rest =
          w ++ ' ' :: (lineText (next :: words) ++ rest) := by
        simp [lineText, List.intercalate_cons_cons]
      have further : ∃ ds, lineText (next :: words) ++ rest = c :: ds := by
        cases words <;> simp [lineText, List.intercalate_cons_cons, begins]
      obtain ⟨ds, further⟩ := further
      have apart : ∀ d ∈ (lineText (next :: words) ++ rest).head?, isBlank d = false := by
        rw [further]
        rintro _ ⟨⟩
        exact solid
      rw [line, lex_part here (.inl rfl), lex_space apart, ih (List.cons_ne_nil _ _) later]
      rfl

theorem lex_lines {lines : List (List Word)} (full : ∀ line ∈ lines, line ≠ [])
    (printable : ∀ line ∈ lines, ∀ w ∈ line, Printable w) (rest : List Char) :
    lex (lines.flatMap lineText ++ rest) = lines.flatMap lineTokens ++ lex rest := by
  induction lines with
  | nil => rfl
  | cons line lines ih =>
    obtain ⟨here, later⟩ := List.forall_mem_cons.mp printable
    obtain ⟨words, others⟩ := List.forall_mem_cons.mp full
    rw [List.flatMap_cons, List.flatMap_cons, List.append_assoc, lex_line words here,
      ih others later, List.append_assoc]

end

theorem UseCase.lex_text {u : UseCase} (legible : u.Legible) :
    lex u.text = u.lines.flatMap lineTokens ++ [closing] := by
  have lines : ∀ line ∈ u.lines, line ≠ [] ∧ ∀ w ∈ line, Printable w := by
    obtain ⟨name, scenarios⟩ := u
    obtain ⟨⟨n, rfl, name⟩, -, legible⟩ := legible
    refine List.forall_mem_cons.mpr ⟨⟨List.cons_ne_nil _ _, ?_⟩, ?_⟩
    · exact List.forall_mem_cons.mpr ⟨.inl (.inl Keyword.useCase.spelled), List.forall_mem_cons.mpr
        ⟨.inl (.inr name), List.forall_mem_singleton.mpr (.inr rfl)⟩⟩
    · intro line member
      obtain ⟨s, among, inside⟩ := List.mem_flatMap.mp member
      obtain ⟨full, speakable⟩ := s.speakable (legible s among) line inside
      exact ⟨full, fun w inside => .inl (speakable w inside)⟩
  have last : lex ['\x7d'] = closing :: lex [] := lex_cons _ _
  rw [UseCase.text, lex_lines (fun line member => (lines line member).1)
    (fun line member => (lines line member).2), last, lex_nil]

end CraftDsl
