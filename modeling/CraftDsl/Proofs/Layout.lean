import CraftDsl.Proofs.Parallel
import CraftDsl.Proofs.Reports
import CraftDsl.Proofs.Safety

/-!
The layout of a source and the spelling of its words mean nothing. Sources with tokens of the same
kinds, blanks and comments left out, have trees of the same shape and the same diagnostics, with places
counted in tokens. Main statement: `parse_layout`.
-/
namespace CraftDsl

/-- A leaf without its text, and nothing for blanks and comments. -/
def Token.shape (t : Token) : Option Token := if t.isTrivia then none else some ⟨t.kind, []⟩

def solidKinds (source : List Char) : List TokenKind :=
  ((lex source).filter fun token => !token.isTrivia).map Token.kind

/-- How many tokens that are not trivia begin before the place. -/
def solidBefore (tokens : List Token) (place : Nat) : Nat :=
  (Token.solid 0 tokens).countP fun located => located.1.start < place

/-- The same report about two sources: its place is the same counted in tokens, and its message is the
same up to the text of a token that it quotes. -/
structure SameReport (tokens tokens' : List Token) (d e : Diagnostic) : Prop where
  kind : d.kind = e.kind
  anchor : solidBefore tokens d.anchor = solidBefore tokens' e.anchor
  message : d.message = e.message ∨
    ∃ lead token token', (d.span, token) ∈ Token.locate 0 tokens ∧
      (e.span, token') ∈ Token.locate 0 tokens' ∧
      d.message = (Complaint.quoting lead).message token.text ∧
      e.message = (Complaint.quoting lead).message token'.text

theorem solidBefore_split (before after : List Token)
    (wide : ∀ token ∈ before ++ after, 0 < token.width) :
    solidBefore (before ++ after) (widthOf before) = (Token.solid 0 before).length := by
  have inside : (Token.solid 0 before).countP (fun located => located.1.start < widthOf before) =
      (Token.solid 0 before).length := by
    rw [List.countP_eq_length]
    intro located member
    obtain ⟨among, -, stop, last⟩ := Token.mem_solid member
    have positive := wide located.2 (List.mem_append_left _ among)
    simp only [decide_eq_true_eq]
    omega
  have outside : (Token.solid (0 + widthOf before) after).countP
      (fun located => located.1.start < widthOf before) = 0 := by
    rw [List.countP_eq_zero]
    intro located member
    obtain ⟨-, first, -, -⟩ := Token.mem_solid member
    simp only [decide_eq_true_eq]
    omega
  rw [solidBefore, Token.solid_append, List.countP_append, inside, outside, Nat.add_zero]

/-- The token at an index, with the tokens before and after it. -/
theorem solid_index {start i : Nat} {tokens : List Token} {located : Span × Token}
    (found : (Token.solid start tokens)[i]? = some located) :
    ∃ before after, tokens = before ++ located.2 :: after ∧
      located.1 = ⟨start + widthOf before, start + widthOf before + located.2.width⟩ ∧
      (Token.solid start before).length = i ∧ located.2.isTrivia = false := by
  induction tokens generalizing start i with
  | nil => cases found
  | cons token tokens ih =>
    by_cases trivia : token.isTrivia = true
    · have skipped (tokens : List Token) :
          Token.solid start (token :: tokens) = Token.solid (start + token.width) tokens := by
        rw [Token.solid, Token.locate, List.filter_cons_of_neg (by simp [trivia]), Token.solid]
      rw [skipped] at found
      obtain ⟨before, after, split, place, count, solid⟩ := ih found
      refine ⟨token :: before, after, by rw [split, List.cons_append], ?_, ?_, solid⟩
      · rw [place, widthOf_cons, Nat.add_assoc]
      · rw [skipped, count]
    · have solid : token.isTrivia = false := Bool.eq_false_iff.mpr trivia
      rw [Token.solid_cons _ _ solid] at found
      cases i with
      | zero =>
        cases found
        exact ⟨[], tokens, rfl, rfl, rfl, solid⟩
      | succ i =>
        obtain ⟨before, after, split, place, count, later⟩ := ih found
        refine ⟨token :: before, after, by rw [split, List.cons_append], ?_, ?_, later⟩
        · rw [place, widthOf_cons, Nat.add_assoc]
        · rw [Token.solid_cons _ _ solid, List.length_cons, count]

/-- The token at an index begins after as many tokens. -/
theorem solidBefore_index {i : Nat} {tokens : List Token} {located : Span × Token}
    (wide : ∀ token ∈ tokens, 0 < token.width)
    (found : (Token.solid 0 tokens)[i]? = some located) :
    solidBefore tokens located.1.start = i ∧ solidBefore tokens located.1.stop = i + 1 := by
  obtain ⟨before, after, split, place, count, solid⟩ := solid_index found
  constructor
  · rw [place, split, Nat.zero_add, solidBefore_split before _ (split ▸ wide), count]
  · have next : tokens = (before ++ [located.2]) ++ after := by simpa using split
    have width : widthOf (before ++ [located.2]) = widthOf before + located.2.width := by
      rw [widthOf_append]
      rfl
    rw [place, Nat.zero_add, ← width, next, solidBefore_split _ _ (next ▸ wide),
      Token.solid_append, List.length_append, count, Token.solid_cons _ _ solid]
    rfl

def layout (tokens tokens' : List Token) : Likeness where
  token a b := a ∈ Token.solid 0 tokens ∧ b ∈ Token.solid 0 tokens' ∧ a.2.kind = b.2.kind ∧
    solidBefore tokens a.1.start = solidBefore tokens' b.1.start ∧
    solidBefore tokens a.1.stop = solidBefore tokens' b.1.stop
  place p q := solidBefore tokens p = solidBefore tokens' q
  keep := Token.shape
  blank _ trivia := if_pos trivia
  kind alike := alike.2.2.1
  leaf _ _ := rfl
  start alike := alike.2.2.2.1
  stop alike := alike.2.2.2.2

section

variable {tokens tokens' : List Token} (wide : ∀ token ∈ tokens, 0 < token.width)
  (wide' : ∀ token ∈ tokens', 0 < token.width)
  (same : (Token.solid 0 tokens).map (fun located => located.2.kind) =
    (Token.solid 0 tokens').map fun located => located.2.kind)

include wide wide' same

theorem layout_solid :
    List.Forall₂ (layout tokens tokens').token (Token.solid 0 tokens) (Token.solid 0 tokens') := by
  have length : (Token.solid 0 tokens).length = (Token.solid 0 tokens').length := by
    simpa using congrArg List.length same
  apply List.forall₂_iff_get.mpr
  refine ⟨length, fun i inside inside' => ?_⟩
  have kinds := congrArg (fun kinds : List TokenKind => kinds[i]?) same
  simp only [List.getElem?_map, List.getElem?_eq_getElem inside,
    List.getElem?_eq_getElem inside', Option.map_some, Option.some.injEq] at kinds
  obtain ⟨start, stop⟩ := solidBefore_index wide (List.getElem?_eq_getElem inside)
  obtain ⟨start', stop'⟩ := solidBefore_index wide' (List.getElem?_eq_getElem inside')
  refine ⟨List.getElem_mem inside, List.getElem_mem inside', kinds, ?_, ?_⟩
  · exact start.trans start'.symm
  · exact stop.trans stop'.symm

theorem layout_start : (layout tokens tokens').Alike (.start tokens) (.start tokens') := by
  refine ⟨layout_solid wide wide' same, ?_, ?_, wide, wide'⟩
  · have all := solidBefore_split tokens [] (by simpa using wide)
    have all' := solidBefore_split tokens' [] (by simpa using wide')
    rw [List.append_nil] at all all'
    show solidBefore tokens (0 + widthOf tokens) = solidBefore tokens' (0 + widthOf tokens')
    rw [Nat.zero_add, Nat.zero_add, all, all', ← List.length_map, same, List.length_map]
  · right
    constructor <;> intro place latest <;> cases latest

end

theorem ofToken?_trivia (span : Span) {token : Token} (trivia : token.isTrivia = true) :
    Diagnostic.ofToken? span token = none := by
  rcases token with ⟨kind, text⟩
  cases kind <;> first | rfl | exact Bool.noConfusion trivia

theorem lexical_solid (tokens : List Token) :
    Diagnostic.lexical tokens = (Token.solid 0 tokens).filterMap fun located =>
      Diagnostic.ofToken? located.1 located.2 := by
  rw [Diagnostic.lexical, Token.solid, List.filterMap_filter]
  apply List.filterMap_congr
  intro located _
  by_cases trivia : located.2.isTrivia = true
  · rw [if_neg (by simp [trivia])]
    exact ofToken?_trivia located.1 trivia
  · rw [if_pos (by simp [trivia])]

theorem layout_ofToken? {tokens tokens' : List Token} {a b : Span × Token}
    (alike : (layout tokens tokens').token a b) :
    Option.Rel (layout tokens tokens').Reports (Diagnostic.ofToken? a.1 a.2)
      (Diagnostic.ofToken? b.1 b.2) := by
  have kind := alike.2.2.1
  have spans : (layout tokens tokens').Spans a.1 b.1 := alike.2.2.2
  unfold Diagnostic.ofToken?
  rw [← kind]
  split
  · exact .some ⟨rfl, spans, .inl rfl, .nil⟩
  · exact .some ⟨rfl, spans, .inl rfl, .nil⟩
  · exact .some ⟨rfl, spans, .inr ⟨"invalid character ", a, b, alike, rfl, rfl, rfl, rfl⟩, .nil⟩
  · exact .none

theorem layout_lexical {tokens tokens' : List Token} {left right : List (Span × Token)}
    (alike : List.Forall₂ (layout tokens tokens').token left right) :
    List.Forall₂ (layout tokens tokens').Reports
      (left.filterMap fun located => Diagnostic.ofToken? located.1 located.2)
      (right.filterMap fun located => Diagnostic.ofToken? located.1 located.2) := by
  induction alike with
  | nil => exact .nil
  | cons one rest ih =>
    have first := layout_ofToken? one
    rw [List.filterMap_cons, List.filterMap_cons]
    revert first
    generalize Diagnostic.ofToken? _ _ = d, Diagnostic.ofToken? _ _ = e
    rintro (same | -)
    · exact .cons same ih
    · exact ih

theorem sameReport_of_layout {tokens tokens' : List Token} {d e : Diagnostic}
    (reports : (layout tokens tokens').Reports d e) : SameReport tokens tokens' d e := by
  refine ⟨reports.kind, ?_, ?_⟩
  · simp only [Diagnostic.anchor, reports.kind]
    split
    · exact reports.span.2
    · exact reports.span.1
  · rcases reports.message with same | ⟨lead, a, b, alike, here, there, left, right⟩
    · exact .inl same
    · refine .inr ⟨lead, a.2, b.2, ?_, ?_, left, right⟩
      · rw [← here]
        exact List.mem_of_mem_filter alike.1
      · rw [← there]
        exact List.mem_of_mem_filter alike.2.1

/-- Blanks, comments, the form of line breaks and the spelling of names change neither the shape of
the tree nor the diagnostics. -/
theorem parse_layout (source source' : List Char) (same : solidKinds source = solidKinds source') :
    (parse source).tree.sift Token.shape = (parse source').tree.sift Token.shape ∧
      List.Forall₂ (SameReport (lex source) (lex source')) (parse source).diagnostics
        (parse source').diagnostics := by
  have kinds : (Token.solid 0 (lex source)).map (fun located => located.2.kind) =
      (Token.solid 0 (lex source')).map fun located => located.2.kind := by
    simpa [solidKinds, ← Token.solid_tokens 0, List.map_map, Function.comp_def] using same
  have wide := lex_wide source
  have wide' := lex_wide source'
  have parallel := Production.run_parallel .sourceFile (layout_start wide wide' kinds)
    (parsed_clear source) (parsed_clear source')
  obtain ⟨trees, root, spelled⟩ := parse_spelled source
  obtain ⟨trees', root', spelled'⟩ := parse_spelled source'
  constructor
  · have sifted : Tree.siftAll Token.shape (closePieces (parsed (lex source)).pieces) =
        Tree.siftAll Token.shape (closePieces (parsed (lex source')).pieces) :=
      parallel.closePieces
    simpa [root, root', closePieces, Tree.siftAll, spelled, spelled'] using sifted
  · rw [spelled, spelled']
    apply List.Forall₂.imp (fun _ _ => sameReport_of_layout)
    apply List.rel_append
    · rw [lexical_solid, lexical_solid]
      exact layout_lexical (layout_solid wide wide' kinds)
    · exact parallel.reports

def closeSet : List Char := "actor user Ann\n#\n".toList

/-- The same tokens with other names, another stray character, comments, blanks and another line
break. -/
def spacedOut : List Char := "/* who */ actor\tuser  Bob // clerk\r\n\t@ \n".toList

theorem spacedOut_layout :
    solidKinds closeSet = solidKinds spacedOut ∧
      (parse closeSet).diagnostics.map Diagnostic.message =
        ["invalid character `#`", "expected a top-level item, found `#`"] ∧
      (parse spacedOut).diagnostics.map Diagnostic.message =
        ["invalid character `@`", "expected a top-level item, found `@`"] ∧
      (parse closeSet).tree.sift Token.shape = (parse spacedOut).tree.sift Token.shape ∧
      List.Forall₂ (SameReport (lex closeSet) (lex spacedOut)) (parse closeSet).diagnostics
        (parse spacedOut).diagnostics := by
  have same : solidKinds closeSet = solidKinds spacedOut := by decide +kernel
  refine ⟨same, by decide +kernel, by decide +kernel, ?_⟩
  exact parse_layout closeSet spacedOut same

end CraftDsl
