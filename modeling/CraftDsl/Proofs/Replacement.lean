import CraftDsl.Command.Run
import CraftDsl.Proofs.Agreement
import CraftDsl.Proofs.LongestMatch
import CraftDsl.Proofs.Losslessness
import CraftDsl.Proofs.Text.Decoding

/-!
Invalid bytes in a source. The replacement character begins no token, so it is an error wherever a
token may begin; strings and comments take it along like any other character. Main statement:
`invalid_bytes_reported`.
-/
namespace CraftDsl

/-- Strings and comments, ended or not: the tokens that take any character along. -/
def TokenKind.isVerbatim : TokenKind → Bool
  | string | unterminatedString | lineComment | blockComment | unterminatedComment => true
  | _ => false

theorem scan_replacementChar (cs : List Char) : scan replacementChar cs = (.garbage, 0) := by
  cases cs <;> rfl

theorem replacementChar_outside {p : Char → Bool} (refused : p replacementChar = false)
    (cs : List Char) : replacementChar ∉ cs.takeWhile p := by
  intro member
  rw [List.mem_takeWhile_imp member] at refused
  cases refused

theorem scan_inside {c : Char} {cs : List Char} (inside : replacementChar ∈ cs.take (scan c cs).2) :
    (scan c cs).1.isVerbatim = true := by
  revert inside
  unfold scan
  split
  · simp
  split_ifs with word blank line digit percent quote
  · intro inside
    rw [take_run] at inside
    exact absurd inside (replacementChar_outside (by decide) cs)
  · intro inside
    rw [take_run] at inside
    exact absurd inside (replacementChar_outside (by decide) cs)
  · simp
  · intro inside
    rw [take_percentage percent, List.mem_append, List.mem_singleton] at inside
    exact inside.elim (fun digit => absurd digit (replacementChar_outside (by decide) cs))
      (fun same => absurd same (by decide))
  · intro inside
    rw [take_run] at inside
    exact absurd inside (replacementChar_outside (by decide) cs)
  · intro _
    split <;> rfl
  · split
    · intro inside
      simp [replacementChar] at inside
    · intro inside
      simp [replacementChar] at inside
    · intro _
      rfl
    · intro _
      split <;> rfl
    · simp

theorem lex_replacementChar (source : List Char) :
    ∀ token ∈ lex source, replacementChar ∈ token.text →
      token.kind.isVerbatim = true ∨ token = ⟨.garbage, [replacementChar]⟩ := by
  apply lex_induction (motive := fun _ tokens => ∀ token ∈ tokens, replacementChar ∈ token.text →
    token.kind.isVerbatim = true ∨ token = ⟨.garbage, [replacementChar]⟩)
  · simp
  · intro c cs rest token member inside
    rcases List.mem_cons.mp member with rfl | later
    · rcases List.mem_cons.mp inside with rfl | behind
      · rw [scan_replacementChar]
        exact .inr rfl
      · exact .inl (scan_inside behind)
    · exact rest token later inside

/-- A lexical error token is a leaf of the tree as it is. -/
theorem leaf_of_located {lexed leaves : List (Span × Token)}
    (carried : List.Forall₂ (fun token leaf => leaf.1 = token.1 ∧ Carried token.2 leaf.2) lexed leaves)
    {located : Span × Token} (member : located ∈ lexed) (error : located.2.kind.isError = true) :
    located ∈ leaves := by
  induction carried with
  | nil => cases member
  | @cons token leaf tokens leaves one rest ih =>
    rcases List.mem_cons.mp member with rfl | later
    · have same : leaf = located := Prod.ext one.1 (one.2.eq_of_isError error)
      exact same ▸ List.mem_cons_self
    · exact List.mem_cons_of_mem _ (ih later)

/-- A replacement character is an error of its own: a leaf of the tree and a diagnostic that names
it. -/
structure Reported (source : List Char) (place : Span) : Prop where
  leaf : (place, ⟨.garbage, [replacementChar]⟩) ∈ (parse source).root.leaves
  diagnostic : ⟨.invalidCharacter, place, "invalid character `\uFFFD`", []⟩ ∈
    (parse source).diagnostics

theorem ofToken?_replacementChar (place : Span) :
    Diagnostic.ofToken? place ⟨.garbage, [replacementChar]⟩ =
      some ⟨.invalidCharacter, place, "invalid character `\uFFFD`", []⟩ := by
  have message : "invalid character `" ++ String.ofList (escapeExcerpt [replacementChar]) ++ "`" =
      "invalid character `\uFFFD`" := by decide +kernel
  simp only [Diagnostic.ofToken?, message]

/-- Only a token that begins no other is reported as an invalid character. -/
theorem garbage_of_invalidCharacter {place : Span} {token : Token} {d : Diagnostic}
    (reported : Diagnostic.ofToken? place token = some d) (kind : d.kind = .invalidCharacter) :
    token.kind = .garbage ∧ d.span = place := by
  unfold Diagnostic.ofToken? at reported
  split at reported <;> cases reported
  · cases kind
  · cases kind
  · exact ⟨‹_›, rfl⟩

variable {source : List Char} {place : Span}

theorem Reported.of_located
    (located : (place, ⟨.garbage, [replacementChar]⟩) ∈ Token.locate 0 (lex source)) :
    Reported source place where
  leaf := by
    have carried := carried_locate 0 (parse_carried source)
    rw [Node.leaves_eq]
    exact leaf_of_located carried located rfl
  diagnostic := by
    rw [parse_diagnostics]
    exact List.mem_append_left _ (List.mem_filterMap.mpr ⟨_, located, ofToken?_replacementChar place⟩)

theorem Reported.located (reported : Reported source place) :
    ∃ token, (place, token) ∈ Token.locate 0 (lex source) ∧ token.kind = .garbage := by
  have diagnostic := reported.diagnostic
  rw [parse_diagnostics] at diagnostic
  rcases List.mem_append.mp diagnostic with lexical | report
  · obtain ⟨⟨span, token⟩, located, given⟩ := List.mem_filterMap.mp lexical
    obtain ⟨garbage, rfl⟩ := garbage_of_invalidCharacter given rfl
    exact ⟨token, located, garbage⟩
  · cases ((parsed_agrees source).1 _ report).1

/-- A replacement character is reported unless it is in a string or in a comment. -/
theorem reported_iff {span : Span} {token : Token} {front back : List Char}
    (located : (span, token) ∈ Token.locate 0 (lex source))
    (shape : token.text = front ++ replacementChar :: back) :
    Reported source ⟨span.start + byteLength front, span.start + byteLength front + 3⟩ ↔
      token.kind.isVerbatim = false := by
  obtain ⟨member, -, stop, -⟩ := Token.mem_locate located
  have inside : replacementChar ∈ token.text := by simp [shape]
  constructor
  · intro reported
    obtain ⟨found, there, garbage⟩ := reported.located
    have width : byteLength token.text = byteLength front + (3 + byteLength back) := by
      rw [shape, byteLength_append, byteLength_cons]
      rfl
    have same := Token.locate_unique (span.start + byteLength front) located there
      ⟨Nat.le_add_right _ _, by dsimp only [Token.width] at stop ⊢; omega⟩
      ⟨Nat.le_refl _, by dsimp only; omega⟩
    obtain ⟨-, rfl⟩ := Prod.mk.inj same
    rw [garbage]
    rfl
  · intro plain
    rcases lex_replacementChar source token member inside with verbatim | rfl
    · rw [plain] at verbatim
      cases verbatim
    · have alone : front = [] := by
        cases front with
        | nil => rfl
        | cons c front => simp at shape
      subst alone
      have same : span = ⟨span.start, span.start + 3⟩ := congrArg (Span.mk span.start) stop
      exact .of_located (same ▸ located)

/-- A source of bytes is rejected: its tree has an error, and checking it fails, whether it is read
from a file or piped in. -/
structure Rejected (bytes : List UInt8) : Prop where
  hasErrors : (parseBytes bytes).hasErrors = true
  file : ∀ read piped name, read name = .ok bytes →
    ((Command.check (.path name)).run (Input.load read piped)).exitCode = 1
  piped : ∀ read, ((Command.check .standardInput).run (Input.load read bytes)).exitCode = 1

theorem rejected_of_hasErrors {bytes : List UInt8} (errors : (parseBytes bytes).hasErrors = true) :
    Rejected bytes := by
  have failed (label : String) : (Command.checkSource label (decodeBytes bytes)).exitCode = 1 := by
    have errors : (parse (decodeBytes bytes)).hasErrors = true := errors
    simp [Command.checkSource, errors]
  refine ⟨errors, fun read piped name found => ?_, fun read => failed _⟩
  have loaded : Input.load read piped (.path name) = .ok (decodeBytes bytes) := by
    rw [Input.load, found]
    rfl
  rw [Command.run, Command.withSource, loaded]
  exact failed _

theorem ofToken?_of_isError {token : Token} (error : token.kind.isError = true) (span : Span) :
    ∃ d, Diagnostic.ofToken? span token = some d := by
  unfold Diagnostic.ofToken?
  cases kind : token.kind with
  | unterminatedString | unterminatedComment | garbage => exact ⟨_, rfl⟩
  | _ =>
    rw [kind] at error
    cases error

theorem rejected_of_located {bytes : List UInt8} {located : Span × Token}
    (member : located ∈ Token.locate 0 (lex (decodeBytes bytes)))
    (error : located.2.kind.isError = true) : Rejected bytes := by
  obtain ⟨d, given⟩ := ofToken?_of_isError error located.1
  have lexical : d ∈ Diagnostic.lexical (lex (decodeBytes bytes)) :=
    List.mem_filterMap.mpr ⟨located, member, given⟩
  have diagnostic : d ∈ (parse (decodeBytes bytes)).diagnostics :=
    parse_diagnostics (decodeBytes bytes) ▸ List.mem_append_left _ lexical
  exact rejected_of_hasErrors ((hasErrors_iff _).mpr (List.ne_nil_of_mem diagnostic))

theorem error_of_replacementChar {source : List Char} {token : Token} (member : token ∈ lex source)
    (inside : replacementChar ∈ token.text)
    (exposed : token.kind ∉ [.string, .lineComment, .blockComment]) : token.kind.isError = true := by
  rcases lex_replacementChar source token member inside with verbatim | rfl
  · cases kind : token.kind with
    | string | lineComment | blockComment => simp [kind] at exposed
    | unterminatedString | unterminatedComment => rfl
    | _ =>
      rw [kind] at verbatim
      cases verbatim
  · rfl

/-- Where the next segment is in the text that is read, behind the segments before it. -/
def placeBehind (before : List Utf8.Segment) : Nat := byteLength (before.map Utf8.Segment.read)

/-- What becomes of an invalid part: the replacement character it is read as is in a token, at `place`
of the source. It is an error of its own unless the token is a string or a comment, and the source is
rejected unless that string or comment ends. -/
def Replaced (bytes : List UInt8) (place : Nat) : Prop :=
  ∃ span token front back, (span, token) ∈ Token.locate 0 (lex (decodeBytes bytes)) ∧
    token.text = front ++ replacementChar :: back ∧ span.start + byteLength front = place ∧
    (Reported (decodeBytes bytes) ⟨place, place + 3⟩ ↔ token.kind.isVerbatim = false) ∧
    (token.kind ∉ [.string, .lineComment, .blockComment] → Rejected bytes)

theorem replaced_of_text {bytes : List UInt8} {before after : List Char}
    (text : decodeBytes bytes = before ++ replacementChar :: after) :
    Replaced bytes (byteLength before) := by
  obtain ⟨span, token, front, back, located, shape, place⟩ :=
    Token.locate_char 0 ((lex_text (decodeBytes bytes)).trans text)
  have member := (Token.mem_locate located).1
  have inside : replacementChar ∈ token.text := by simp [shape]
  rw [Nat.zero_add] at place
  refine ⟨span, token, front, back, located, shape, place, ?_, fun exposed => ?_⟩
  · rw [← place]
    exact reported_iff located shape
  · exact rejected_of_located located (error_of_replacementChar member inside exposed)

/-- Bytes that are the form of a text are parsed as the text. Any bytes are cut, in one way, into
characters and maximal invalid parts, and each invalid part is reported and rejects the source unless a
string or a comment takes it along. -/
theorem invalid_bytes_reported (bytes : List UInt8) :
    (∀ text : List Char, bytes = text.flatMap String.utf8EncodeChar →
        parseBytes bytes = parse text) ∧
      ∃ segments, Utf8.Segmented bytes segments ∧
        (∀ others, Utf8.Segmented bytes others → others = segments) ∧
        ((∀ part, .invalid part ∉ segments) ↔
          ∃ text : List Char, bytes = text.flatMap String.utf8EncodeChar) ∧
        parseBytes bytes = parse (segments.map Utf8.Segment.read) ∧
        ∀ before part after, segments = before ++ .invalid part :: after →
          Replaced bytes (placeBehind before) := by
  obtain ⟨segments, segmented⟩ := Utf8.exists_segmented bytes
  refine ⟨?_, segments, segmented, fun others other => other.unique segmented, ?_, ?_, ?_⟩
  · rintro text rfl
    rw [parseBytes, Utf8.decodeBytes_text]
  · refine ⟨segmented.valid, ?_⟩
    rintro ⟨text, rfl⟩ part
    rw [segmented.unique (.of_text text)]
    simp
  · rw [parseBytes, segmented.decode]
  · rintro before part after rfl
    have text : decodeBytes bytes = before.map Utf8.Segment.read ++
        replacementChar :: after.map Utf8.Segment.read := by
      rw [segmented.decode, List.map_append, List.map_cons, Utf8.Segment.read]
    exact replaced_of_text text

/-- A letter, and a byte that no character begins with. -/
def strayByte : List UInt8 := [0x78, 0xff]

theorem maximalInvalid_ff (rest : List UInt8) : Utf8.MaximalInvalid [0xff] rest := by
  have none : ¬ Utf8.BeginsChar [0xff] := Utf8.leadByte_spec 0xff
  exact .of_single none rest

theorem strayByte_rejected :
    Utf8.Segmented strayByte [.char 'x', .invalid [0xff]] ∧
      Reported ['x', replacementChar] ⟨1, 4⟩ ∧ Rejected strayByte := by
  have segmented : Utf8.Segmented strayByte [.char 'x', .invalid [0xff]] :=
    .append_text ['x'] (.invalid (maximalInvalid_ff []) .nil)
  have read : decodeBytes strayByte = ['x', replacementChar] := by decide +kernel
  have tokens : Token.locate 0 (lex ['x', replacementChar]) =
      [(⟨0, 1⟩, ⟨.identifier, ['x']⟩), (⟨1, 4⟩, ⟨.garbage, [replacementChar]⟩)] := by decide +kernel
  obtain ⟨-, segments, -, unique, -, -, replaced⟩ := invalid_bytes_reported strayByte
  obtain rfl := unique _ segmented
  obtain ⟨span, token, front, back, located, shape, -, reported, rejected⟩ :=
    replaced [.char 'x'] [0xff] [] rfl
  have inside : replacementChar ∈ token.text := by simp [shape]
  rw [read, tokens] at located
  rw [read] at reported
  rcases List.mem_cons.mp located with first | second
  · obtain ⟨-, rfl⟩ := Prod.mk.inj first
    exact absurd inside (by decide)
  · obtain ⟨-, rfl⟩ := Prod.mk.inj (List.mem_singleton.mp second)
    exact ⟨segmented, reported.mpr rfl, rejected (by decide)⟩

/-- A comment on a line, and such a byte in it. -/
def hiddenByte : List UInt8 := [0x2f, 0x2f, 0x20, 0xff, 0x0a]

theorem hiddenByte_accepted :
    Utf8.Segmented hiddenByte [.char '/', .char '/', .char ' ', .invalid [0xff], .char '\n'] ∧
      ¬ Reported (decodeBytes hiddenByte) ⟨3, 6⟩ ∧
      (parseBytes hiddenByte).diagnostics = [] ∧ (parseBytes hiddenByte).hasErrors = false ∧
      ((Command.check .standardInput).run (Input.load (fun _ => .ok []) hiddenByte)).exitCode = 0 := by
  have silent : (parseBytes hiddenByte).diagnostics = [] := by decide +kernel
  refine ⟨?_, fun reported => ?_, silent, by decide +kernel, by decide +kernel⟩
  · exact .append_text ['/', '/', ' '] (.invalid (maximalInvalid_ff _) (.of_text ['\n']))
  · have diagnostic := reported.diagnostic
    rw [show (parse (decodeBytes hiddenByte)).diagnostics = [] from silent] at diagnostic
    cases diagnostic

end CraftDsl
