import CraftDsl.Proofs.Execution
import CraftDsl.Proofs.Foreseen.Run
import CraftDsl.Proofs.Lexing

/-!
Parsing fails none of its own checks, whatever the source: the parser never takes a token that is not
there or not the one it expects, comes to no branch that it rules out, looks ahead no more often than
it may, and builds one tree. Main statement: `parse_faults`.
-/
namespace CraftDsl

def Outlook.unknown (site : Site) : Outlook := ⟨.anything, .anything, 0, false, site⟩

theorem Outlook.unknown_holds (site : Site) (source : List Char) :
    (unknown site).Holds (lex source).length (.start (lex source)) := by
  constructor
  · exact KindSet.has_anything _
  · exact KindSet.has_anything _
  · exact Nat.le_refl 0
  · exact Nat.le_refl _
  · intro moved
    exact Bool.noConfusion moved
  · exact lex_solid source

/-- Lets nothing through that is a lexical error, unless it is in an error node. -/
def Monitor.careful : Monitor where
  start _ := 0
  step _ kind := if kind.isToken && kind.isError then none else some 0
  ends _ _ := .anything
  strict := false

theorem careful_fair (o : Outcome) : Monitor.careful.Fair false o := by
  intro strict
  exact Bool.noConfusion strict

theorem sourceFile_foresee :
    (Production.sourceFile.foresee .careful false (.unknown ⟨none, 0⟩)).any
      (fun e => (e.yes ++ e.no).all fun s => s.first = .ending) = true := by
  decide +kernel

theorem parsed_foreseen (source : List Char) :
    ∃ e, Monitor.careful.Foreseen (.unknown ⟨none, 0⟩) (lex source).length e (.start (lex source))
      (parsed (lex source)) ∧ ∀ s ∈ e.yes ++ e.no, s.first = .ending := by
  rcases (Option.any_eq_true _ _).mp sourceFile_foresee with ⟨e, found, ends⟩
  refine ⟨e, Monitor.run_foreseen _ found (Outlook.unknown_holds _ source) (careful_fair _), ?_⟩
  intro s member
  exact of_decide_eq_true (List.all_eq_true.mp ends s member)

theorem parsed_clear (source : List Char) : (parsed (lex source)).faults = [] := by
  rcases parsed_foreseen source with ⟨e, foreseen, -⟩
  exact foreseen.clear

/-- The parse of a source, told from its tokens alone. -/
theorem parse_spelled (source : List Char) :
    ∃ trees, (parsed (lex source)).pieces = [.tree (.node .sourceFile trees)] ∧
      parse source =
        { source
          tree := .node .sourceFile trees
          diagnostics := Diagnostic.lexical (lex source) ++ (parsed (lex source)).reports
          faults := [] } := by
  rcases parsed_pieces (lex source) with ⟨trees, root⟩
  exact ⟨trees, root, parse_eq source trees root (parsed_clear source)⟩

theorem parse_accepts {M : Monitor} {site : Site}
    (checked : (Production.sourceFile.foresee M false (.unknown site)).isSome = true)
    (source : List Char) (fair : M.Fair false (parsed (lex source))) :
    M.Accepts (lex source) (parse source).tree := by
  obtain ⟨e, found⟩ := Option.isSome_iff_exists.mp checked
  have foreseen := Monitor.run_foreseen _ found (Outlook.unknown_holds _ source) fair
  have passes : M.Passes (lex source) (parsed (lex source)).pieces := foreseen.passes
  obtain ⟨trees, root, spelled⟩ := parse_spelled source
  rw [root] at passes
  rw [spelled]
  exact passes.1

/-- Parsing any source fails none of its checks. -/
theorem parse_faults (source : List Char) : (parse source).faults = [] := by
  rcases parse_spelled source with ⟨trees, -, spelled⟩
  rw [spelled]

end CraftDsl
