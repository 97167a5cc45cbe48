import CraftDsl.Proofs.Places
import CraftDsl.Proofs.Safety

/-!
Parsing loses nothing. The leaves of a tree are the tokens of its source, one by one and in their
places, so the text of the tree is the source. Main statement: `parse_leaves`.
-/
namespace CraftDsl

theorem carried_locate (start : Nat) {tokens leaves : List Token}
    (carried : List.Forall₂ Carried tokens leaves) :
    List.Forall₂ (fun lexed leaf => leaf.1 = lexed.1 ∧ Carried lexed.2 leaf.2)
      (Token.locate start tokens) (Token.locate start leaves) := by
  induction carried generalizing start with
  | nil => exact .nil
  | cons one rest ih =>
    rename_i token leaf tokens leaves
    have width : leaf.width = token.width := congrArg byteLength one.text
    refine .cons ⟨?_, one⟩ ?_
    · rw [width]
    · rw [width]
      exact ih _

theorem parsed_ahead (source : List Char) : (parsed (lex source)).cursor.ahead = [] := by
  rcases parsed_foreseen source with ⟨e, foreseen, ends⟩
  rcases foreseen.exits with ⟨s, member, holds, -⟩
  have at_end : (parsed (lex source)).cursor.kindAhead 0 = .endOfInput := by
    have first := holds.first
    rw [ends s (Exits.mem_append_of_after member)] at first
    simpa [KindSet.ending] using first
  have due := Cursor.due_of_over _ holds.solid at_end
  -- The last step of a parse settles, so that no blanks are left either.
  have settled : ∃ c : Cursor, (parsed (lex source)).cursor = c.settle.cursor := ⟨_, rfl⟩
  rcases settled with ⟨c, last⟩
  rw [last, c.settle_eq] at due ⊢
  exact c.dropWhile_due.symm.trans due

theorem byteLength_texts (tokens : List Token) :
    byteLength (tokens.flatMap Token.text) = widthOf tokens := by
  induction tokens with
  | nil => rfl
  | cons token tokens ih =>
    rw [List.flatMap_cons, byteLength_append, ih]
    rfl

theorem lex_width (source : List Char) : widthOf (lex source) = byteLength source := by
  rw [← byteLength_texts, lex_text]

theorem parse_carried (source : List Char) :
    List.Forall₂ Carried (lex source) (parse source).tree.tokens := by
  rcases parse_spelled source with ⟨trees, root, spelled⟩
  rcases Production.run_spent Production.sourceFile (.start (lex source)) with ⟨taken, spends⟩
  have all : lex source = taken := by
    have split : lex source = taken ++ (parsed (lex source)).cursor.ahead := spends.ahead
    rw [parsed_ahead, List.append_nil] at split
    exact split
  have leaves : tokensOf (parsed (lex source)).pieces = (parse source).tree.tokens := by
    rw [root, spelled]
    exact List.append_nil _
  rw [← leaves, all]
  exact all ▸ spends.leaves (parsed_clear source)

/-- The leaves of the tree are the tokens of the source, each with its text and in its place, under
one root; only a keyword may be an identifier. So the text of the tree is the source. -/
theorem parse_leaves (source : List Char) :
    (parse source).tree.kind = .node .sourceFile ∧
      List.Forall₂ (fun lexed leaf => leaf.1 = lexed.1 ∧ Carried lexed.2 leaf.2)
        (Token.locate 0 (lex source)) (parse source).root.leaves ∧
      (parse source).tree.text = source := by
  have carried := parse_carried source
  refine ⟨?_, ?_, ?_⟩
  · rcases parse_spelled source with ⟨trees, -, spelled⟩
    rw [spelled]
    rfl
  · rw [Node.leaves_eq]
    exact carried_locate 0 carried
  · rw [Tree.text, carried_text carried, lex_text]

end CraftDsl
