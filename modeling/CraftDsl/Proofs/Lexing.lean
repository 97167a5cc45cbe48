import CraftDsl.Token.Lexer
import Mathlib.Tactic.Common

/-!
The lexer loses nothing: its tokens, put together, are the source. None of them is empty, and none has
the kind that stands for the end of input.
-/
namespace CraftDsl

theorem wordKind_garbage (text : List Char) : wordKind text ≠ .garbage := by
  unfold wordKind
  split <;> simp

theorem scan_garbage {c : Char} {cs : List Char} (unmatched : (scan c cs).1 = .garbage) :
    (scan c cs).2 = 0 := by
  revert unmatched
  unfold scan
  split
  · exact fun _ => rfl
  · split_ifs
    · exact fun word => absurd word (wordKind_garbage _)
    all_goals try simp
    · split <;> simp
    · split <;> try simp
      split <;> simp

theorem rest_shorter (c : Char) (cs : List Char) :
    (cs.drop (scan c cs).2).length < (c :: cs).length := by
  rw [List.length_drop, List.length_cons]
  omega

namespace Tokens

variable {keepsBlanks : Bool} {offset : Nat} {c : Char} {cs : List Char}

theorem collectOnto_eq (found : List (Span × Token)) (t : Tokens) :
    collectOnto found t = found.reverse ++ t.collect := by
  induction length : t.length using Nat.strongRecOn generalizing found t with
  | _ bound ih =>
    rw [collect, collectOnto, collectOnto]
    split
    · simp
    · rename_i token after next
      have shorter : after.length < bound := length ▸ t.next?_shorter next
      rw [ih _ shorter (token :: found) after rfl, ih _ shorter [token] after rfl,
        List.reverse_cons, List.append_assoc]
      rfl

theorem collect_none {t : Tokens} (next : t.next? = none) : t.collect = [] := by
  rw [collect, collectOnto]
  split <;> simp_all

theorem collect_some {t after : Tokens} {token : Span × Token} (next : t.next? = some (token, after)) :
    t.collect = token :: after.collect := by
  rw [collect, collectOnto]
  split
  · simp_all
  · rename_i found
    obtain ⟨rfl, rfl⟩ := Prod.mk.inj (Option.some.inj (found.symm.trans next))
    exact collectOnto_eq [_] _

/-- Unmatched text is one character, which comes next; other text is a token of its own. -/
theorem next?_cons (kept : keepsBlanks = true ∨ (scan c cs).1 ≠ .whitespace) :
    next? ⟨keepsBlanks, offset, [], c :: cs⟩ =
      let token : Token := ⟨(scan c cs).1, c :: cs.take (scan c cs).2⟩
      some ((⟨offset, offset + token.width⟩, token),
        ⟨keepsBlanks, offset + token.width, [], cs.drop (scan c cs).2⟩) := by
  have single : (scan c cs).1 = .garbage → (scan c cs).2 = 0 := scan_garbage
  rw [next?]
  generalize scan c cs = matched at kept single ⊢
  obtain ⟨kind, taken⟩ := matched
  by_cases unmatched : kind = .garbage
  · obtain rfl : taken = 0 := single unmatched
    simp only [if_pos unmatched]
    rw [unmatched, List.take_zero, List.drop_zero, next?]
    rfl
  · have given : ¬ (kind = .whitespace && !keepsBlanks) = true := by
      rcases kept with rfl | other
      · simp
      · simpa using fun blank => absurd blank other
    simp only [if_neg unmatched, if_neg given]
    rfl

theorem next?_blank (blank : (scan c cs).1 = .whitespace) :
    next? ⟨false, offset, [], c :: cs⟩ =
      next? ⟨false, offset + byteLength (c :: cs.take (scan c cs).2), [],
        cs.drop (scan c cs).2⟩ := by
  rw [next?]
  generalize scan c cs = matched at blank ⊢
  obtain ⟨kind, taken⟩ := matched
  obtain rfl : kind = .whitespace := blank
  rfl

theorem collect_congr {t u : Tokens} (same : t.next? = u.next?) : t.collect = u.collect := by
  cases next : u.next? with
  | none => rw [collect_none next, collect_none (same.trans next)]
  | some found => rw [collect_some next, collect_some (same.trans next)]

theorem collect_texts (offset : Nat) (source : List Char) :
    (Tokens.mk true offset [] source).collect.map Prod.snd = lex source := by
  induction length : source.length using Nat.strongRecOn generalizing offset source with
  | _ bound ih =>
    cases source with
    | nil => rw [lex, locatedTokens, collect_none (by rw [next?]), collect_none (by rw [next?])]
    | cons c cs =>
      have shorter : (cs.drop (scan c cs).2).length < bound := length ▸ rest_shorter c cs
      rw [lex, locatedTokens, collect_some (next?_cons (.inl rfl)),
        collect_some (next?_cons (.inl rfl)), List.map_cons, List.map_cons, ih _ shorter _ _ rfl,
        ih _ shorter _ _ rfl]

end Tokens

@[simp] theorem lex_nil : lex [] = [] := by
  rw [lex, locatedTokens, Tokens.collect_none (by rw [Tokens.next?])]
  rfl

theorem lex_cons (c : Char) (cs : List Char) :
    lex (c :: cs) =
      ⟨(scan c cs).1, c :: cs.take (scan c cs).2⟩ :: lex (cs.drop (scan c cs).2) := by
  rw [lex, locatedTokens, Tokens.collect_some (Tokens.next?_cons (.inl rfl)), List.map_cons,
    Tokens.collect_texts]

/-- What holds of the token at the front of every text and goes over to it from the tokens of the
rest holds of the tokens of a source. -/
theorem lex_induction {motive : List Char → List Token → Prop} (nil : motive [] [])
    (cons : ∀ c cs, motive (cs.drop (scan c cs).2) (lex (cs.drop (scan c cs).2)) →
      motive (c :: cs) (⟨(scan c cs).1, c :: cs.take (scan c cs).2⟩ ::
        lex (cs.drop (scan c cs).2)))
    (source : List Char) : motive source (lex source) := by
  induction length : source.length using Nat.strongRecOn generalizing source with
  | _ bound ih =>
    cases source with
    | nil =>
      rw [lex_nil]
      exact nil
    | cons c cs =>
      have shorter : (cs.drop (scan c cs).2).length < bound := length ▸ rest_shorter c cs
      rw [lex_cons]
      exact cons c cs (ih _ shorter _ rfl)

/-- The cursor gives out the tokens of the text where they are, the blanks only if it keeps them. -/
theorem Tokens.collect_eq (keepsBlanks : Bool) (offset : Nat) (source : List Char) :
    (Tokens.mk keepsBlanks offset [] source).collect =
      (Token.locate offset (lex source)).filter fun located =>
        keepsBlanks || located.2.kind ≠ .whitespace := by
  revert offset
  apply lex_induction (motive := fun source tokens => ∀ offset,
    (Tokens.mk keepsBlanks offset [] source).collect =
      (Token.locate offset tokens).filter fun located => keepsBlanks || located.2.kind ≠ .whitespace)
  · exact fun offset => collect_none (by rw [next?])
  · intro c cs rest offset
    rw [Token.locate, List.filter_cons]
    by_cases kept : keepsBlanks = true ∨ (scan c cs).1 ≠ .whitespace
    · rw [collect_some (next?_cons kept), rest, if_pos (by simpa using kept)]
    · obtain ⟨dropped, blank⟩ := not_or.mp kept
      obtain rfl := Bool.eq_false_iff.mpr dropped
      rw [not_not] at blank
      rw [collect_congr (next?_blank blank), rest, if_neg (by simp [blank])]
      rfl

theorem locatedTokens_eq (keepsBlanks : Bool) (source : List Char) :
    locatedTokens keepsBlanks source = (Token.locate 0 (lex source)).filter fun located =>
      keepsBlanks || located.2.kind ≠ .whitespace := Tokens.collect_eq keepsBlanks 0 source

theorem tokenize_eq (source : List Char) :
    tokenize source = (lex source).filter fun token => token.kind ≠ .whitespace := by
  rw [tokenize, locatedTokens_eq]
  conv_rhs => rw [← Token.locate_tokens 0 (lex source), List.filter_map]
  rfl

theorem lex_text (source : List Char) : (lex source).flatMap Token.text = source := by
  apply lex_induction (motive := fun source tokens => tokens.flatMap Token.text = source)
  · rfl
  · intro c cs rest
    rw [List.flatMap_cons, rest]
    exact congrArg (List.cons c) (List.take_append_drop _ cs)

theorem lex_rest {source : List Char} {before rest : List Token}
    (found : lex source = before ++ rest) : lex (rest.flatMap Token.text) = rest := by
  induction before generalizing source with
  | nil =>
    rw [List.nil_append] at found
    rw [← found, lex_text]
  | cons token before ih =>
    cases source with
    | nil =>
      rw [lex_nil] at found
      cases found
    | cons c cs =>
      rw [lex_cons] at found
      exact ih (List.cons.inj found).2

theorem punctuation_solid {c : Char} {kind : TokenKind} (found : punctuation? c = some kind) :
    kind ≠ .endOfInput := by
  unfold punctuation? at found
  split at found <;> cases found <;> decide

theorem wordKind_solid (text : List Char) : wordKind text ≠ .endOfInput := by
  unfold wordKind
  split <;> simp

theorem scan_solid (c : Char) (cs : List Char) : (scan c cs).1 ≠ .endOfInput := by
  unfold scan
  split
  · exact punctuation_solid ‹_›
  · split_ifs
    · exact wordKind_solid _
    all_goals simp
    · split <;> simp
    · split <;> try simp
      split <;> simp

theorem lex_solid (source : List Char) : ∀ token ∈ lex source, token.kind ≠ .endOfInput := by
  apply lex_induction (motive := fun _ tokens => ∀ token ∈ tokens, token.kind ≠ .endOfInput)
  · simp
  · intro c cs rest token member
    rcases List.mem_cons.mp member with rfl | later
    · exact scan_solid c cs
    · exact rest token later

theorem lex_wide (source : List Char) : ∀ token ∈ lex source, 0 < token.width := by
  apply lex_induction (motive := fun _ tokens => ∀ token ∈ tokens, 0 < token.width)
  · simp
  · intro c cs rest token member
    rcases List.mem_cons.mp member with rfl | later
    · exact Nat.lt_of_lt_of_le c.utf8Size_pos (Nat.le_add_right _ _)
    · exact rest token later

end CraftDsl
