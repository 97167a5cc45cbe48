import CraftDsl.Ast.Arch
import CraftDsl.Proofs.Printed

/-!
Architectures as text: a line for the head of each section and one for each line of components, with
arrowheads between components and modifiers in brackets. An architecture is legible if each of its words
is one, no value of a modifier is taken for another, and only the first line of a section begins like
the head of one.
-/
namespace CraftDsl

open TokenKind (identifier)

def booleanWord (value : Bool) : Word :=
  (if value then Keyword.trueValue else Keyword.falseValue).word

def ModifierValue.text : ModifierValue → List Char
  | identifier word => word
  | number digits => digits
  | boolean value => booleanWord value

def Modifier.text (m : Modifier) : List Char :=
  m.key.getD [] ++ (m.value.map fun value => [':', ' '] ++ value.text).getD []

/-- A name, and its modifiers in brackets if there are any. -/
def Component.text (c : Component) : List Char :=
  c.name.getD [] ++
    if c.modifiers = [] then []
    else '[' :: [',', ' '].intercalate (c.modifiers.map Modifier.text) ++ [']']

def ComponentLine.text (l : ComponentLine) : List Char :=
  [' ', '>', ' '].intercalate (l.components.map Component.text) ++ ['\n']

def SectionKind.word : SectionKind → Word
  | presentation => Keyword.presentation.word
  | gateway => Keyword.gateway.word

def Section.text (s : Section) : List Char :=
  s.kind.word ++ [':', '\n'] ++ s.lines.flatMap ComponentLine.text

def Arch.text (a : Arch) : List Char :=
  Keyword.arch.word ++ (a.name.map fun name => ' ' :: name).getD [] ++ [' ', '\x7b', '\n'] ++
    a.sections.flatMap Section.text ++ ['\x7d']

/-- A word that is neither `true` nor `false`, digits, or one of these two. -/
def ModifierValue.Legible : ModifierValue → Prop
  | identifier word => TokenKind.identifier.Spelled word ∧ word ∉ [true, false].map booleanWord
  | number digits => TokenKind.number.Spelled digits
  | boolean _ => True

instance ModifierValue.decidableLegible : (v : ModifierValue) → Decidable v.Legible
  | .identifier _ => inferInstanceAs (Decidable (_ ∧ _))
  | .number _ => inferInstanceAs (Decidable (TokenKind.number.Spelled _))
  | .boolean _ => inferInstanceAs (Decidable True)

def Modifier.Legible (m : Modifier) : Prop :=
  (∃ key ∈ m.key, identifier.Spelled key) ∧ ∀ value ∈ m.value, value.Legible

instance Modifier.decidableLegible (m : Modifier) : Decidable m.Legible :=
  inferInstanceAs (Decidable (_ ∧ _))

def Component.Legible (c : Component) : Prop :=
  (∃ name ∈ c.name, identifier.Spelled name) ∧ ∀ m ∈ c.modifiers, m.Legible

instance Component.decidableLegible (c : Component) : Decidable c.Legible :=
  inferInstanceAs (Decidable (_ ∧ _))

/-- One component is no flow, and several are one. -/
def ComponentLine.Legible (l : ComponentLine) : Prop :=
  (match l with
    | simple components => components.length = 1
    | flow components => 2 ≤ components.length) ∧ ∀ c ∈ l.components, c.Legible

instance ComponentLine.decidableLegible (l : ComponentLine) : Decidable l.Legible :=
  match l with
  | .simple _ => inferInstanceAs (Decidable (_ ∧ _))
  | .flow _ => inferInstanceAs (Decidable (_ ∧ _))

def ComponentLine.Heads (l : ComponentLine) : Prop :=
  ∃ first ∈ l.components.head?, first.name ∈ [SectionKind.presentation, .gateway].map (some ·.word)

instance ComponentLine.decidableHeads (l : ComponentLine) : Decidable l.Heads :=
  inferInstanceAs (Decidable (∃ first ∈ _, _))

def Section.Legible (s : Section) : Prop :=
  s.lines ≠ [] ∧ (∀ l ∈ s.lines, l.Legible) ∧ ∀ l ∈ s.lines.tail, ¬ l.Heads

instance Section.decidableLegible (s : Section) : Decidable s.Legible :=
  inferInstanceAs (Decidable (_ ∧ _ ∧ _))

def Arch.Legible (a : Arch) : Prop :=
  (∀ name ∈ a.name, identifier.Spelled name) ∧ a.sections ≠ [] ∧ ∀ s ∈ a.sections, s.Legible

instance Arch.decidableLegible (a : Arch) : Decidable a.Legible :=
  inferInstanceAs (Decidable (_ ∧ _ ∧ _))

def ModifierValue.token : ModifierValue → Token
  | identifier word => part word
  | number digits => ⟨.number, digits⟩
  | boolean value => part (booleanWord value)

def Modifier.tokens (m : Modifier) : List Token :=
  m.key.toList.map part ++ (m.value.map fun value => [sign ':', blank, value.token]).getD []

def bracketTokens : List Modifier → List Token
  | [] => []
  | m :: ms =>
    sign '[' :: (m.tokens ++ ((ms.flatMap fun m => sign ',' :: blank :: m.tokens) ++ [sign ']']))

def Component.tokens (c : Component) : List Token := c.name.toList.map part ++ bracketTokens c.modifiers

def tailTokens (components : List Component) : List Token :=
  components.flatMap fun c => blank :: sign '>' :: blank :: c.tokens

def ComponentLine.tokens (l : ComponentLine) : List Token :=
  match l.components with
  | [] => [lineBreak]
  | c :: cs => c.tokens ++ (tailTokens cs ++ [lineBreak])

def Section.tokens (s : Section) : List Token :=
  part s.kind.word :: sign ':' :: lineBreak :: s.lines.flatMap ComponentLine.tokens

def Arch.tokens (a : Arch) : List Token :=
  part Keyword.arch.word :: ((a.name.map fun name => [blank, part name]).getD [] ++
    (blank :: part ['\x7b'] :: lineBreak :: (a.sections.flatMap Section.tokens ++ [closing])))

theorem booleanWord_spelled (value : Bool) : identifier.Spelled (booleanWord value) := by
  cases value with
  | false => exact Keyword.falseValue.spelled
  | true => exact Keyword.trueValue.spelled

theorem SectionKind.spelled (kind : SectionKind) : identifier.Spelled kind.word := by
  cases kind with
  | presentation => exact Keyword.presentation.spelled
  | gateway => exact Keyword.gateway.spelled

theorem ModifierValue.lexes {v : ModifierValue} (legible : v.Legible) :
    Lexes v.text [v.token] partsWords := by
  cases v with
  | identifier word => exact .word legible.1
  | number digits => exact .number legible
  | boolean value => exact .word (booleanWord_spelled value)

theorem ModifierValue.begins {v : ModifierValue} (legible : v.Legible) :
    ∃ c cs, v.text = c :: cs ∧ (!isBlank c) = true := by
  cases v with
  | identifier word =>
    obtain ⟨c, cs, text, solid⟩ := word_begins legible.1
    exact ⟨c, cs, text, by rw [solid]; rfl⟩
  | number digits =>
    obtain ⟨wide, digits⟩ := TokenKind.spelled_number.mp legible
    obtain ⟨c, cs, rfl⟩ := List.exists_cons_of_ne_nil wide
    exact ⟨c, cs, rfl, by rw [(digit_plain (digits c List.mem_cons_self)).2.1]; rfl⟩
  | boolean value => cases value <;> exact ⟨_, _, rfl, rfl⟩

theorem Modifier.lexes {m : Modifier} (legible : m.Legible) : Lexes m.text m.tokens partsWords := by
  obtain ⟨key, value⟩ := m
  obtain ⟨⟨k, rfl, spelled⟩, valued⟩ := legible
  cases value with
  | none =>
    show Lexes (k ++ []) [part k] partsWords
    rw [List.append_nil]
    exact .word spelled
  | some v =>
    have legible := valued v rfl
    have value := (Lexes.sign (c := ':') rfl).before
      (Lexes.space.append (v.lexes legible) (v.begins legible))
    exact (Lexes.word spelled).append value ⟨_, _, rfl, rfl⟩

/-- A key is a word, so no modifier begins with a space. -/
theorem Modifier.begins {m : Modifier} (legible : m.Legible) :
    ∃ c cs, m.text = c :: cs ∧ (!isBlank c) = true := by
  obtain ⟨key, value⟩ := m
  obtain ⟨⟨k, rfl, spelled⟩, -⟩ := legible
  obtain ⟨c, cs, rfl, solid⟩ := word_begins spelled
  exact ⟨c, _, rfl, by rw [solid]; rfl⟩

theorem brackets_lexes {m : Modifier} {ms : List Modifier} (legible : ∀ n ∈ m :: ms, n.Legible) :
    Lexes ('[' :: [',', ' '].intercalate ((m :: ms).map Modifier.text) ++ [']'])
      (bracketTokens (m :: ms)) fun _ => true := by
  obtain ⟨here, later⟩ := List.forall_mem_cons.mp legible
  have further : Lexes (ms.flatMap fun m => ',' :: ' ' :: m.text)
      (ms.flatMap fun m => sign ',' :: blank :: m.tokens) partsWords := by
    refine .flatMap (fun m member => ?_) fun m _ => ⟨_, _, rfl, rfl⟩
    have legible := later m member
    exact (Lexes.sign (c := ',') rfl).before
      (Lexes.space.append (m.lexes legible) (m.begins legible))
  have closed := further.append (Lexes.sign (c := ']') rfl) ⟨_, _, rfl, rfl⟩
  have inner := (m.lexes here).append closed (by cases ms <;> exact ⟨_, _, rfl, rfl⟩)
  have whole := (Lexes.sign (c := '[') rfl).before inner
  have text : '[' :: [',', ' '].intercalate ((m :: ms).map Modifier.text) ++ [']'] =
      ['['] ++ (m.text ++ ((ms.flatMap fun m => ',' :: ' ' :: m.text) ++ [']'])) := by
    rw [List.map_cons, intercalate_cons, List.flatMap_map]
    simp
  rw [text]
  exact whole

theorem Component.lexes {c : Component} (legible : c.Legible) :
    Lexes c.text c.tokens partsWords := by
  obtain ⟨name, modifiers⟩ := c
  obtain ⟨⟨n, rfl, spelled⟩, modified⟩ := legible
  cases modifiers with
  | nil =>
    show Lexes (n ++ []) [part n] partsWords
    rw [List.append_nil]
    exact .word spelled
  | cons m ms =>
    have brackets := (brackets_lexes modified).mono (q := partsWords) fun _ _ => rfl
    exact (Lexes.word spelled).append brackets ⟨_, _, rfl, rfl⟩

theorem Component.begins {c : Component} (legible : c.Legible) :
    ∃ d ds, c.text = d :: ds ∧ (!isBlank d) = true := by
  obtain ⟨name, modifiers⟩ := c
  obtain ⟨⟨n, rfl, spelled⟩, -⟩ := legible
  obtain ⟨d, ds, rfl, solid⟩ := word_begins spelled
  exact ⟨d, _, rfl, by rw [solid]; rfl⟩

/-- A line has a component at least. -/
theorem ComponentLine.first {l : ComponentLine} (legible : l.Legible) :
    ∃ c cs, l.components = c :: cs ∧ c.Legible ∧ ∀ d ∈ cs, d.Legible := by
  cases l with
  | simple components =>
    cases components with
    | nil => cases legible.1
    | cons c cs => exact ⟨c, cs, rfl, List.forall_mem_cons.mp legible.2⟩
  | flow components =>
    cases components with
    | nil => cases legible.1
    | cons c cs => exact ⟨c, cs, rfl, List.forall_mem_cons.mp legible.2⟩

theorem ComponentLine.lexes {l : ComponentLine} (legible : l.Legible) :
    Lexes l.text l.tokens fun _ => true := by
  obtain ⟨c, cs, components, here, later⟩ := l.first legible
  have further : Lexes (cs.flatMap fun c => ' ' :: '>' :: ' ' :: c.text) (tailTokens cs) partsWords := by
    refine .flatMap (fun d member => ?_) fun d _ => ⟨_, _, rfl, rfl⟩
    have legible := later d member
    exact Lexes.space.append ((Lexes.sign (c := '>') rfl).before
      (Lexes.space.append (d.lexes legible) (d.begins legible))) ⟨_, _, rfl, rfl⟩
  have ended := further.append Lexes.newline ⟨_, _, rfl, rfl⟩
  have whole := (c.lexes here).append ended (by cases cs <;> exact ⟨_, _, rfl, rfl⟩)
  have text : l.text = c.text ++ ((cs.flatMap fun c => ' ' :: '>' :: ' ' :: c.text) ++ ['\n']) := by
    rw [ComponentLine.text, components, List.map_cons, intercalate_cons, List.flatMap_map]
    simp
  have tokens : l.tokens = c.tokens ++ (tailTokens cs ++ [lineBreak]) := by
    rw [ComponentLine.tokens, components]
  rw [text, tokens]
  exact whole

theorem Section.lexes {s : Section} (legible : s.Legible) : Lexes s.text s.tokens fun _ => true := by
  have lines := Lexes.lines fun l member => ComponentLine.lexes (legible.2.1 l member)
  have head := (Lexes.word s.kind.spelled).append ((Lexes.sign (c := ':') rfl).before .newline)
    ⟨_, _, rfl, rfl⟩
  exact head.before lines

theorem Arch.lexes {a : Arch} (legible : a.Legible) : Lexes a.text a.tokens fun _ => true := by
  obtain ⟨named, -, legible⟩ := legible
  have sections := Lexes.lines fun s member => Section.lexes (legible s member)
  have opened := Lexes.space.append ((Lexes.sign (c := '\x7b') rfl).before
    (Lexes.newline.before (sections.before (.sign (c := '\x7d') rfl)))) ⟨_, _, rfl, rfl⟩
  have text : a.text = Keyword.arch.word ++ ((a.name.map fun name => ' ' :: name).getD [] ++
      ([' '] ++ (['\x7b'] ++ (['\n'] ++ (a.sections.flatMap Section.text ++ ['\x7d']))))) := by
    simp [Arch.text]
  rw [text]
  cases name : a.name with
  | none =>
    rw [Arch.tokens, name]
    exact (Lexes.word Keyword.arch.spelled).append opened ⟨_, _, rfl, rfl⟩
  | some n =>
    have spelled := named n (Option.mem_def.mpr name)
    obtain ⟨c, cs, begins, solid⟩ := word_begins spelled
    have word := (Lexes.word spelled).append opened ⟨_, _, rfl, rfl⟩
    have spaced := Lexes.space.append word ⟨c, _, by rw [begins]; rfl, by rw [solid]; rfl⟩
    rw [Arch.tokens, name]
    exact (Lexes.word Keyword.arch.spelled).append spaced ⟨_, _, rfl, rfl⟩

end CraftDsl
