import CraftDsl.Ast.Item
import CraftDsl.Proofs.Isolation
import CraftDsl.Proofs.Reading

/-!
Texts that are printed and read again: the tree of a source is put together from the trees that its
tokens are read as. Main statements: `source_reread` and, for a single item, `item_reread`.
-/
namespace CraftDsl

theorem lexical_none {tokens : List Token} (sound : ∀ token ∈ tokens, token.kind.isError = false) :
    Diagnostic.lexical tokens = [] := by
  rw [List.eq_nil_iff_forall_not_mem]
  intro d member
  obtain ⟨-, token, among, error⟩ := lexical_lexical member
  exact Bool.noConfusion ((sound token among).symm.trans error)

namespace Production

theorem lap_item {tokens rest : List Token} {v : Bool} {trees : List Tree}
    (first : KindSet.itemFirst.has (kindIn 0 tokens) = true)
    (built : item.Builds tokens v trees rest) : lap.Builds tokens true trees rest := by
  have other {kind : TokenKind} (apart : KindSet.itemFirst.has kind = false) :
      (KindSet.single kind).has (kindIn 0 tokens) = false := by
    rw [← Bool.not_eq_true, KindSet.has_token]
    intro same
    rw [same, apart] at first
    cases first
  have going : (atKind .endOfInput).Builds tokens false [] tokens := .look _ (other (by decide))
  have same_line : (onKind .newline).Builds tokens false [] tokens := .glance _ (other (by decide))
  have seen : (onAny .itemFirst).Builds tokens true [] tokens := .glance _ first
  have whole : lap.Builds tokens true (trees ++ []) rest :=
    going.no (same_line.no (seen.yes (built.seq (.answer true rest))))
  rwa [List.append_nil] at whole

theorem lap_ends : lap.Builds [] false [] [] := by
  have ended : (atKind .endOfInput).Builds [] true [] [] := .look _ (by decide)
  exact ended.yes (.answer false [])

end Production

section

variable {text : List Char} {tokens : List Token} (lexed : lex text = tokens)
  (sound : ∀ token ∈ tokens, token.kind.isError = false)

include lexed sound

/-- A text whose tokens are read as trees, lap by lap, is parsed as these trees, and nothing is
reported. -/
theorem source_reread {trees : List Tree}
    (read : Production.Rounds Production.lap tokens (trees.map Piece.tree) []) :
    (parse text).diagnostics = [] ∧ (parse text).tree = .node .sourceFile trees := by
  subst lexed
  have settled : Production.settle.Builds [] true [] [] := by
    intro c ahead
    have none : c.pending = [] := by rw [Cursor.pending, ahead]; rfl
    have run : Production.settle.run c = _ := c.settle_eq
    rw [run, none]
    exact ⟨rfl, rfl, rfl, by rw [Cursor.due, ahead]; rfl⟩
  have inner := Production.Builds.seq (Production.Reads.loop read)
    ((Production.Builds.pass []).seq settled)
  have built : Production.sourceFile.Builds (lex text) true [.node .sourceFile (trees ++ [])] [] :=
    inner.within .sourceFile
  obtain ⟨found, root, spelled⟩ := parse_spelled text
  have adds := built (.start (lex text)) rfl
  constructor
  · have silent : (parsed (lex text)).reports = [] := adds.reports
    rw [parse_diagnostics, silent, lexical_none sound]
    rfl
  · have same := (Piece.tree.inj (List.cons.inj (root.symm.trans adds.pieces)).1)
    rw [List.append_nil] at same
    rw [spelled, same]

/-- A text whose tokens are read as one item is parsed as that item, and nothing is reported. -/
theorem item_reread {answer : Bool} {t : Tree} {item : Item}
    (first : KindSet.itemFirst.has (kindIn 0 tokens) = true)
    (built : Production.item.Builds tokens answer [t] []) (found : Item.ofTree? t = some item) :
    (parse text).diagnostics = [] ∧ (parse text).items = [item] := by
  have some_token : tokens ≠ [] := by
    rintro rfl
    cases first
  have laps : Production.Rounds Production.lap tokens ([t].map Piece.tree) [] :=
    .more (Production.lap_item first built) (List.length_pos_of_ne_nil some_token)
      (.last (p := []) Production.lap_ends)
  obtain ⟨silent, tree⟩ := source_reread lexed sound laps
  refine ⟨silent, ?_⟩
  rw [Parse.items, tree]
  exact List.filterMap_cons_some found

end

end CraftDsl
