import CraftDsl.Proofs.Parallel

/-!
The same tokens at another place. What a production does with them is the same, newlines, blanks and
comments left out, and its reports are further on by as much as the tokens are. Main statements:
`displaced_reports`, `lexical_append`.
-/
namespace CraftDsl

def Span.shift (n : Nat) (s : Span) : Span := ⟨s.start + n, s.stop + n⟩

def Diagnostic.shift (n : Nat) (d : Diagnostic) : Diagnostic :=
  { d with
    span := d.span.shift n
    notes := d.notes.map fun note => { note with span := note.span.shift n } }

def Token.content (t : Token) : Option Token :=
  if t.isTrivia || t.kind = .newline then none else some t

theorem Token.locate_shift (start n : Nat) (tokens : List Token) :
    locate (start + n) tokens =
      (locate start tokens).map fun located => (located.1.shift n, located.2) := by
  induction tokens generalizing start with
  | nil => rfl
  | cons token tokens ih =>
    have next : start + n + token.width = start + token.width + n := by omega
    rw [locate, locate, next, ih]
    simp only [List.map_cons, Span.shift]

theorem Token.solid_shift (start n : Nat) (tokens : List Token) :
    solid (start + n) tokens =
      (solid start tokens).map fun located => (located.1.shift n, located.2) := by
  rw [solid, locate_shift, List.filter_map]
  rfl

theorem ofToken?_shift (n : Nat) (span : Span) (token : Token) :
    Diagnostic.ofToken? (span.shift n) token =
      (Diagnostic.ofToken? span token).map (Diagnostic.shift n) := by
  unfold Diagnostic.ofToken?
  split <;> rfl

theorem lexical_append (first second : List Token) :
    Diagnostic.lexical (first ++ second) =
      Diagnostic.lexical first ++ (Diagnostic.lexical second).map (.shift (widthOf first)) := by
  simp only [Diagnostic.lexical]
  rw [Token.locate_append, List.filterMap_append, Token.locate_shift, List.filterMap_map,
    List.map_filterMap]
  congr 2
  funext located
  exact ofToken?_shift _ _ _

def displaced (n : Nat) : Likeness where
  token a b := b = (a.1.shift n, a.2)
  place p q := q = p + n
  keep := Token.content
  blank token trivia := by rw [Token.content, trivia]; rfl
  kind alike := by rw [alike]
  leaf alike kind := by rw [alike]
  start alike := by rw [alike]; rfl
  stop alike := by rw [alike]; rfl

theorem displaced_spans {n : Nat} {s t : Span} (spans : (displaced n).Spans s t) :
    t = s.shift n := by
  obtain ⟨start, stop⟩ := t
  obtain ⟨first, last⟩ := spans
  exact congrArg₂ Span.mk first last

theorem displaced_report {n : Nat} {d e : Diagnostic} (reports : (displaced n).Reports d e) :
    e = d.shift n := by
  obtain ⟨kind, span, message, notes⟩ := e
  have same : d.kind = kind := reports.kind
  have place : span = d.span.shift n := displaced_spans reports.span
  have words : message = d.message := by
    rcases reports.message with same | ⟨lead, a, b, alike, -, -, left, right⟩
    · exact same.symm
    · rw [left]
      exact right.trans (by rw [show b.2 = a.2 by rw [alike]])
  have marks : notes = d.notes.map fun note => { note with span := note.span.shift n } := by
    symm
    apply List.forall₂_eq_eq_eq ▸ List.forall₂_map_left_iff.mpr ?_
    apply reports.notes.imp
    rintro ⟨at_first, text⟩ ⟨at_second, text'⟩ ⟨same, spans⟩
    exact congrArg₂ Note.mk (displaced_spans spans).symm same
  rw [Diagnostic.shift, ← words, ← marks, same, place]

theorem displaced_reports {n : Nat} {first second : List Diagnostic}
    (reports : List.Forall₂ (displaced n).Reports first second) :
    second = first.map (.shift n) := by
  symm
  apply List.forall₂_eq_eq_eq ▸ List.forall₂_map_left_iff.mpr ?_
  exact reports.imp fun _ _ report => (displaced_report report).symm

/-- Before tokens of a source, with no report further on than the next one. -/
structure Cursor.Underway (c : Cursor) : Prop where
  solid : ∀ token ∈ c.ahead, token.kind ≠ .endOfInput
  wide : ∀ token ∈ c.ahead, 0 < token.width
  prompt : c.Stale ∨ c.Fresh

section

variable {c d : Cursor} {n : Nat}

theorem displaced_alike (ahead : d.ahead = c.ahead) (offset : d.offset = c.offset + n)
    (reported : c.Stale ∧ d.Stale ∨ c.Fresh ∧ d.Fresh)
    (wide : ∀ token ∈ c.ahead, 0 < token.width) : (displaced n).Alike c d := by
  refine ⟨?_, ?_, reported, wide, ahead ▸ wide⟩
  · rw [Cursor.solid, Cursor.solid, ahead, offset, Token.solid_shift]
    exact List.forall₂_map_right_iff.mpr (List.forall₂_same.mpr fun _ _ => rfl)
  · show d.finish = c.finish + n
    rw [Cursor.finish, Cursor.finish, ahead, offset]
    omega

theorem Cursor.Underway.alike (underway : c.Underway) : (displaced 0).Alike c c :=
  displaced_alike rfl rfl (underway.prompt.imp (fun stale => ⟨stale, stale⟩)
    fun fresh => ⟨fresh, fresh⟩) underway.wide

theorem Cursor.Underway.run (underway : c.Underway) (x : Production)
    (clear : (x.run c).faults = []) : (x.run c).cursor.Underway := by
  have after := (Production.run_parallel x underway.alike clear clear).cursor
  refine ⟨?_, after.wide.1, after.reported.imp And.left And.left⟩
  exact fun token member => underway.solid token ((x.run_spent c).subset member)

end

end CraftDsl
