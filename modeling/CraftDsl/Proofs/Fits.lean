import CraftDsl.Proofs.Steps
import CraftDsl.Proofs.Tidiness

/-!
What is known of a parser between two steps: what it keeps aside, and how many nodes it has counted.
-/
namespace CraftDsl

namespace Parser

structure Fits (p : Parser) (t : Trim) : Prop where
  kept : p.Kept
  poised : t.poised = true → p.Poised
  flushed : t.flushed = true → p.aside = []

/-- Of all nodes opened for a scope, those that are not counted are known. -/
def Keeps (p : Parser) (total : Nat) (t : Trim) : Prop := p.Fits t ∧ p.opened + t.uncounted = total

theorem Fits.weaken {p : Parser} {t u : Trim} (fits : p.Fits t)
    (poised : u.poised = true → t.poised = true) (flushed : u.flushed = true → t.flushed = true) :
    p.Fits u :=
  ⟨fits.kept, fun known => fits.poised (poised known), fun known => fits.flushed (flushed known)⟩

theorem keeps_upward (p : Parser) (total : Nat) : Exits.Upward (p.Keeps total) := by
  intro t u below held
  have le : t.le u = true := below
  simp only [Trim.le, Bool.and_eq_true, Bool.or_eq_true, Bool.not_eq_true', beq_iff_eq] at le
  rcases le with ⟨⟨poised, flushed⟩, same⟩
  constructor
  · constructor
    · exact held.1.kept
    · intro known
      rcases poised with was | never
      · exact held.1.poised was
      · simp [known] at never
    · intro known
      rcases flushed with was | never
      · exact held.1.flushed was
      · simp [known] at never
  · rw [← same]
    exact held.2

/-- The parsers differ in what they have built and reported only. -/
structure Level (p q : Parser) : Prop where
  aside : q.aside = p.aside
  ahead : q.ahead = p.ahead
  opened : q.opened = p.opened

theorem Level.trans {p q r : Parser} (first : p.Level q) (second : q.Level r) : p.Level r :=
  ⟨second.aside.trans first.aside, second.ahead.trans first.ahead, second.opened.trans first.opened⟩

theorem Fits.level {p q : Parser} {t : Trim} (fits : p.Fits t) (level : p.Level q) : q.Fits t := by
  constructor
  · intro token member
    rw [level.aside] at member
    exact fits.kept token member
  · intro known
    show q.ahead.takeWhile Token.isTrivia = []
    rw [level.ahead]
    exact fits.poised known
  · intro known
    rw [level.aside]
    exact fits.flushed known

theorem Fits.pass {p : Parser} {t : Trim} (fits : p.Fits t) : p.pass.Fits t.passed := by
  refine ⟨fits.kept.pass, fun _ => p.poised_pass, ?_⟩
  intro known
  have both := Bool.and_eq_true_iff.mp known
  show p.aside ++ p.ahead.takeWhile Token.isTrivia = []
  rw [fits.flushed both.2, fits.poised both.1, List.append_nil]

theorem level_look (p : Parser) (among : KindSet) : p.pass.Level (p.look 0 among).2 :=
  ⟨rfl, rfl, rfl⟩

theorem level_build (p : Parser) (built : Option Builder) (fault : Fault) :
    p.Level (p.build built fault) := by
  cases built <;> exact ⟨rfl, rfl, rfl⟩

theorem level_finishNode (p : Parser) : p.Level p.finishNode := p.level_build _ _

theorem level_finishNodes (p : Parser) (count : Nat) : p.Level (p.finishNodes count) := by
  induction count generalizing p with
  | zero => exact ⟨rfl, rfl, rfl⟩
  | succ count ih => exact p.level_finishNode.trans (ih p.finishNode)

theorem level_report {p : Parser} (kept : p.Kept) (diagnostic : Span → Diagnostic) :
    p.pass.Level (p.report diagnostic) :=
  ⟨(report_ahead kept diagnostic).1, (report_ahead kept diagnostic).2.1,
    (report_ahead kept diagnostic).2.2⟩

theorem fits_take (p : Parser) (t : Trim) (among : KindSet) (retag : Option TokenKind) :
    (p.take among retag).Fits t.taken :=
  ⟨kept_of_flushed (take_aside p among retag), fun known => Bool.noConfusion known,
    fun _ => take_aside p among retag⟩

@[simp] theorem opened_take (p : Parser) (among : KindSet) (retag : Option TokenKind) :
    (p.take among retag).opened = p.opened := by
  simp only [take]
  split <;> rfl

theorem fits_gap {p : Parser} (poised : p.Poised) (t : Trim) :
    p.gap.Fits { t with poised := true, flushed := true } := by
  have started : (p.startNode .error).Fits { t with poised := true, flushed := true } :=
    ⟨kept_of_flushed rfl, fun _ => poised, fun _ => rfl⟩
  exact started.level (level_finishNode _)

theorem opened_gap (p : Parser) : p.gap.opened = p.opened := (p.startNode .error).level_finishNode.opened

theorem fits_missing {p : Parser} (kept : p.Kept) (t : Trim) (kind : DiagnosticKind)
    (message : String) :
    (p.missing kind message).Fits { t with poised := true, flushed := true } :=
  fits_gap (poised_report (kept.look 0 .empty) _) t

theorem opened_missing {p : Parser} (kept : p.Kept) (kind : DiagnosticKind) (message : String) :
    (p.missing kind message).opened = p.opened :=
  (opened_gap _).trans (level_report (kept.look 0 .empty) _).opened

theorem fits_unclosed {p : Parser} (kept : p.Kept) (t : Trim) (what : String) (brace : Span) :
    (p.unclosed what brace).Fits { t with poised := true, flushed := true } ∧
      (p.unclosed what brace).opened = p.opened := by
  set q := p.check (decide (kindIn 0 p.ahead = .endOfInput)) .misplaced
  have checked : q.Kept := kept
  exact ⟨fits_gap (poised_report checked _) t, (opened_gap _).trans (level_report checked _).opened⟩

theorem discard_poised (depth : Nat) (first : Bool) (tokens : List Token) {p : Parser}
    (kept : p.Kept) :
    (discard depth first tokens p).Kept ∧ (discard depth first tokens p).Poised ∧
      (discard depth first tokens p).opened = p.opened := by
  have looked : p.trace.Kept ∧ p.trace.Poised ∧ p.trace.opened = p.opened :=
    ⟨kept.look 0 .empty, p.poised_look .empty, rfl⟩
  induction tokens generalizing depth first p with
  | nil => exact looked
  | cons token tokens ih =>
    unfold discard
    by_cases blank : token.isTrivia = true
    · rw [if_pos blank]
      exact ih depth first kept looked
    · rw [if_neg blank]
      by_cases stops : stopsAt depth first token.kind = true
      · simp only [if_pos stops]
        exact looked
      · simp only [if_neg stops]
        have taken : (p.trace.take (.single token.kind) none).Kept :=
          kept_of_flushed (take_aside _ _ _)
        have later := ih (depthAfter depth token.kind) false taken
          ⟨taken.look 0 .empty, poised_look _ .empty, rfl⟩
        exact ⟨later.1, later.2.1, later.2.2.trans (opened_take _ _ _)⟩

theorem fits_skip {p : Parser} (kept : p.Kept) (t : Trim) (complaint : Complaint) :
    (p.skip complaint).Fits { t with poised := true, flushed := false } ∧
      (p.skip complaint).opened = p.opened := by
  simp only [skip]
  split
  · exact ⟨⟨kept.look 0 _, fun _ => p.poised_look _, fun known => Bool.noConfusion known⟩, rfl⟩
  · set q := (p.look 0 (.single TokenKind.endOfInput)).2.trace.report fun place =>
      ⟨.unexpectedToken, place, complaint.message
        (((p.look 0 (.single TokenKind.endOfInput)).2.ahead.take 1).flatMap Token.text), []⟩
    have reported : q.opened = p.opened :=
      (level_report ((kept.look 0 _).look 0 .empty) _).opened
    rcases discard_poised 0 true q.ahead (p := q.startNode .error)
      (kept_of_flushed rfl) with ⟨later, poised, opened⟩
    refine ⟨Fits.level ⟨later, fun _ => poised, fun known => Bool.noConfusion known⟩
      (level_finishNode _), ?_⟩
    exact (level_finishNode _).opened.trans (opened.trans reported)

end Parser

end CraftDsl
