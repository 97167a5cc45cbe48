import CraftDsl.Proofs.BlankLines.Following
import CraftDsl.Proofs.BlankLines.Insertion

/-!
Sources with one more newline. Read line by line, two sources that differ in a newline after a newline
have the same core, so their trees have. Main statement: `core_doubled`.
-/
namespace CraftDsl

namespace Production

def lineFile : Production := fileOf (lapOf (itemOr (choose (itemChoices useCaseLines))))

theorem lineFile_steady : lineFile.steady = true := by decide +kernel

theorem lineFile_cautious :
    ((lineFile.cautious false true).foresee .careful false (.unknown ⟨none, 0⟩)).isSome = true := by
  decide +kernel

theorem lines_clear (source : List Char) :
    (lineFile.run (.start (lex source))).faults = [] ∧
      ((lineFile.cautious false true).run (.start (lex source))).faults = [] ∧
      (lineFile.cautious false true).run (.start (lex source)) = lineFile.run (.start (lex source)) := by
  obtain ⟨e, found⟩ := Option.isSome_iff_exists.mp lineFile_cautious
  have foreseen := Monitor.run_foreseen _ found (Outlook.unknown_holds _ source) (careful_fair _)
  have same := cautious_run lineFile false true foreseen.clear
  refine ⟨?_, foreseen.clear, same.symm⟩
  rw [same]
  exact foreseen.clear

theorem core_lines (source : List Char) :
    corePieces (lineFile.run (.start (lex source))).pieces = corePieces (parsed (lex source)).pieces := by
  have underway : (Cursor.start (lex source)).Underway :=
    ⟨lex_solid source, lex_wide source, .inr nofun⟩
  have mirrors : sourceFile.Mirrors level true lineFile := mirrors_sourceFile mirrors_scenarios
  exact (mirrors underway.alike (parsed_clear source) (lines_clear source).1 trivial).core

end Production

/-- Trees with the same core: if one has no error node, the other has none either. -/
theorem core_children {source source' : List Char}
    (core : corePieces (parsed (lex source')).pieces = corePieces (parsed (lex source)).pieces)
    (clean : (parsed (lex source)).Clean) :
    Tree.coreAll (parse source').tree.children = Tree.coreAll (parse source).tree.children ∧
      (parsed (lex source')).Clean := by
  constructor
  · obtain ⟨trees, root, spelled⟩ := parse_spelled source
    obtain ⟨trees', root', spelled'⟩ := parse_spelled source'
    have whole (trees : List Tree) : corePieces [.tree (.node .sourceFile trees)] =
        [.tree (.node .sourceFile (Tree.coreAll trees))] := corePieces_tree _
    rw [root, root', whole, whole] at core
    rw [spelled, spelled']
    exact (Tree.node.inj (Piece.tree.inj (List.cons.inj core).1)).2
  · rw [Outcome.Clean, ← error_corePieces, core, error_corePieces]
    exact clean

section

variable {source source' : List Char} {before after : List Token} {newline extra : Token}
  (tokens : lex source = before ++ newline :: after)
  (doubled : lex source' = before ++ newline :: extra :: after) (line : newline.kind = .newline)
  (also : extra.kind = .newline) (clean : (parsed (lex source)).Clean)

include tokens doubled line also clean

theorem core_parsed :
    corePieces (parsed (lex source')).pieces = corePieces (parsed (lex source)).pieces := by
  obtain ⟨-, clear, same⟩ := Production.lines_clear source
  have near : Apart newline extra after (.start (lex source)) (.start (lex source')) :=
    .of_ahead (newline_solid line) (.inr ⟨before, tokens, doubled⟩)
  have clean_lines : ((Production.lineFile.cautious false true).run (.start (lex source))).Clean := by
    rw [same, Outcome.Clean, ← error_corePieces, Production.core_lines, error_corePieces]
    exact clean
  have doubles : Production.lineFile.Doubles newline extra after :=
    (Production.steady_run line also Production.lineFile).1 Production.lineFile_steady
  have step := (doubles false true near clear (Production.lines_clear source').1 clean_lines).core
  rw [same, Production.core_lines, Production.core_lines] at step
  exact step

theorem core_doubled :
    Tree.coreAll (parse source').tree.children = Tree.coreAll (parse source).tree.children ∧
      (parsed (lex source')).Clean :=
  core_children (core_parsed tokens doubled line also clean) clean

end

/-- Without error nodes a source has no errors: a lexical error stands in an error node. -/
theorem sound_iff (source : List Char) :
    (parse source).hasErrors = false ↔ (parsed (lex source)).Clean := by
  obtain ⟨trees, root, spelled⟩ := parse_spelled source
  have kinds : kindsOf (parsed (lex source)).pieces = (parse source).tree.nodeKinds := by
    rw [root, spelled]
    exact List.append_nil _
  rw [Outcome.Clean, kinds]
  constructor
  · exact Tree.clean_of_sound
  · intro clean
    rw [← Bool.not_eq_true]
    intro errors
    obtain ⟨n, below, error⟩ := (Node.hasError_iff (parse source).root).mp errors
    have marked (m : Node) (inside : m ∈ (parse source).root.everything) :
        m.kind ≠ .node .error := fun kind => clean (Node.nodeKinds_of_mem inside kind)
    cases kind : n.kind with
    | token lexical =>
      rw [kind] at error
      obtain ⟨parent, inside, framed, -⟩ :=
        parse_framed source n below (by rw [kind]; rfl) (by rw [kind]; exact error)
      exact marked parent inside framed
    | node other =>
      rw [kind] at error
      exact marked n below (kind.trans (congrArg _ (of_decide_eq_true error)))

/-- The text with one more newline after the tokens that come first. -/
theorem lex_doubled {source : List Char} {before after : List Token} {newline : Token}
    (tokens : lex source = before ++ newline :: after) (line : newline.kind = .newline)
    {extra : List Char} (spelled : extra = ['\n'] ∨ extra = ['\r', '\n']) :
    lex ((before ++ [newline]).flatMap Token.text ++ extra ++ after.flatMap Token.text) =
      before ++ newline :: ⟨.newline, extra⟩ :: after := by
  have split : lex source = (before ++ [newline]) ++ after := by
    rw [tokens, List.append_assoc, List.singleton_append]
  have front : lex ((before ++ [newline]).flatMap Token.text) = before ++ [newline] := lex_front split
  have rest : lex (after.flatMap Token.text) = after := lex_rest split
  have single : lex extra = [⟨.newline, extra⟩] := by
    rcases spelled with rfl | rfl <;> decide +kernel
  rw [List.append_assoc, lex_append, lex_append, front, single, rest, List.append_assoc]
  · rfl
  · exact .inr ⟨_, by rw [single]; rfl, rfl⟩
  · exact .inr ⟨newline, by rw [front]; simp, line⟩

end CraftDsl
