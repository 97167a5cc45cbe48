import CraftDsl.Proofs.BlankLines.Pace
import CraftDsl.Proofs.Isolation

/-!
Use cases line by line. A source is parsed a second time by a production that puts the lines of a use
case side by side: newlines, clauses up to their triggers, and actions. Main statement:
`mirrors_sourceFile`.
-/
namespace CraftDsl

def level : Pace where
  near := (displaced 0).Alike
  known _ := True
  parts _ := ⟨trivial, trivial⟩
  inside _ := trivial
  before _ := trivial

namespace Production

def useCaseLine : Production :=
  branch (atKind .newline) (takeKind .newline) <|
  branch (atKeyword .when) (seq (node .whenClause clauseHead) (answer true)) <|
  onlyIf (onAny .words) (seq actionLine (answer true))

def useCaseLines : Production := scope (loop useCaseLine)

end Production

section

variable {c d : Cursor} {idle : Bool} {o p : Outcome}

theorem level_matches (parallel : (displaced 0).Parallel o p) : level.Matches idle o p := by
  refine ⟨.inr parallel.answer.symm, ?_, parallel.cursor⟩
  rw [← corePieces_sift p.pieces, ← corePieces_sift o.pieces]
  exact congrArg corePieces parallel.pieces.symm

/-- Past blanks that are in the tree the place is as before. -/
theorem level_past {e : Cursor} {taken : List Token} (near : level.near c d)
    (moves : d.Moves taken e) (blank : Token.solid d.offset taken = []) : level.near c e := by
  have still : c.Moves [] c := ⟨rfl, rfl, rfl⟩
  exact (Likeness.Alike.move near still moves (by rw [blank]; rfl)).2

theorem level_still {e : Cursor} (near : level.near c d) (moves : d.Moves [] e) : level.near c e :=
  level_past near moves rfl

theorem past_level {b : Cursor} {taken : List Token} (near : level.near c d)
    (moves : c.Moves taken b) (blank : Token.solid c.offset taken = []) : level.near b d := by
  have still : d.Moves [] d := ⟨rfl, rfl, rfl⟩
  exact (Likeness.Alike.move near moves still (by rw [blank]; rfl)).2

end

namespace Production

section

variable {idle : Bool} {flat : Production}

theorem mirrors_level (x : Production) : x.Mirrors level idle x :=
  fun _ _ near clear clear' _ => level_matches (run_parallel x near clear clear')

theorem mirrors_useCaseBlock (inner : scenarios.Mirrors level true flat) :
    (useCaseBlockOf scenarios).Mirrors level idle (useCaseBlockOf flat) := by
  have lines : (steps [newlines, scenariosIn scenarios,
      blockLines "use case" .empty (answer true)]).Mirrors level true _ :=
    mirrors_seq (mirrors_level newlines) <|
      mirrors_seq (mirrors_branch (mirrors_level _) inner (mirrors_level _)) (mirrors_level _)
  have body : (block "use case" _).Mirrors level true (block "use case" _) :=
    mirrors_block (mirrors_level _) lines fun _ _ _ _ before near clear _ _ =>
      level_matches (near.closeBlock _ before.spans clear)
  refine mirrors_seq (mirrors_level _) (mirrors_within ?_ _)
  refine mirrors_seq (mirrors_level _) (mirrors_seq (mirrors_level _) ?_)
  refine mirrors_seq (mirrors_level _) (mirrors_branch (mirrors_level _) ?_ (mirrors_level _))
  exact mirrors_seq body (mirrors_level _)

/-- Where scenarios are read in step, so are sources. -/
theorem mirrors_sourceFile (inner : scenarios.Mirrors level true flat) :
    sourceFile.Mirrors level idle (fileOf (lapOf (itemOr (choose (itemChoices flat))))) := by
  have same (x : Production) {idle : Bool} : x.Mirrors level idle x := mirrors_level x
  have items : item.Mirrors level true (choose (itemChoices flat)) :=
    mirrors_branch (same _) (same _) <| mirrors_branch (same _) (same _) <|
    mirrors_branch (same _) (same _) <| mirrors_branch (same _) (same _) <|
    mirrors_branch (same _) (same _) <| mirrors_branch (same _) (same _) <|
    mirrors_branch (same _) (same _) <| mirrors_branch (same _) (same _) <|
    mirrors_branch (same _) (mirrors_useCaseBlock inner) (same _)
  have laps : lap.Mirrors level false (lapOf (itemOr (choose (itemChoices flat)))) :=
    mirrors_branch (same _) (same _) <| mirrors_branch (same _) (same _) <|
    mirrors_branch (same _) (mirrors_seq items (same _)) (same _)
  exact mirrors_within (mirrors_seq (mirrors_loop laps) (same _)) _

end

section

variable {d : Cursor}

theorem not_at {kind : TokenKind} (other : d.kindAhead 0 ≠ kind) :
    ¬ ((atKind kind).run d).answer = true := fun answer => other ((KindSet.has_token _ _).mp answer)

theorem line_newline (next : d.kindAhead 0 = .newline) :
    useCaseLine.run d =
      ((atKind .newline).run d).andThen fun _ c => (takeKind .newline).run c :=
  run_yes ((KindSet.has_token _ _).mpr next)

theorem line_when (next : d.kindAhead 0 = .keyword .when) :
    useCaseLine.run d = ((atKind .newline).run d).andThen fun _ c =>
      ((atKeyword .when).run c).andThen fun _ c =>
        (seq (node .whenClause clauseHead) (answer true)).run c := by
  rw [useCaseLine, run_no (not_at (by rw [next]; exact TokenKind.noConfusion))]
  exact Outcome.andThen_congr rfl (run_yes ((KindSet.has_token _ _).mpr next))

theorem line_action (word : KindSet.words.has (d.kindAhead 0) = true)
    (other : d.kindAhead 0 ≠ .keyword .when) :
    useCaseLine.run d = ((atKind .newline).run d).andThen fun _ c =>
      ((atKeyword .when).run c).andThen fun _ c =>
        ((onAny .words).run c).andThen fun _ c => (seq actionLine (answer true)).run c := by
  have inline : d.kindAhead 0 ≠ .newline := by
    intro newline
    rw [newline] at word
    exact absurd word (by decide)
  have onward : ¬ ((atKeyword .when).run ((atKind .newline).run d).cursor).answer = true :=
    not_at other
  rw [useCaseLine, run_no (not_at inline)]
  refine Outcome.andThen_congr rfl ((run_no onward).trans ?_)
  exact Outcome.andThen_congr rfl (run_yes word)

/-- Nothing else is read as a line. -/
theorem line_over (inline : d.kindAhead 0 ≠ .newline)
    (other : KindSet.words.has (d.kindAhead 0) = false) :
    (useCaseLine.run d).answer = false ∧ (useCaseLine.run d).pieces = [] ∧
      d.Moves [] (useCaseLine.run d).cursor := by
  have when : d.kindAhead 0 ≠ .keyword .when := by
    intro keyword
    rw [keyword] at other
    exact absurd other (by decide)
  have whole : useCaseLine.run d = ((atKind .newline).run d).andThen fun _ c =>
      ((atKeyword .when).run c).andThen fun _ c =>
        ((onAny .words).run c).andThen fun _ c => (answer false).run c := by
    have onward : ¬ ((atKeyword .when).run ((atKind .newline).run d).cursor).answer = true :=
      not_at when
    rw [useCaseLine, run_no (not_at inline)]
    refine Outcome.andThen_congr rfl ((run_no onward).trans ?_)
    exact Outcome.andThen_congr rfl (run_no (Bool.eq_false_iff.mp other))
  rw [whole]
  exact ⟨rfl, rfl, rfl, rfl, rfl⟩

end

end Production

end CraftDsl
