import CraftDsl.Proofs.Safety

/-!
Productions with further checks, which parsing does not fail either. Within a block nothing is skipped
from the closing brace on, and a look that goes past the second token ahead begins before that brace;
between blocks nothing is skipped from a newline on, and no look goes past the next token unless its
answer goes unheeded. Main statements: `parsed_guarded`, `parsed_heeded`.
-/
namespace CraftDsl

namespace Production

/-- The production, where the `n`-th token ahead is not of the kind. -/
def away (n : Nat) (kind : TokenKind) (x : Production) : Production :=
  branch (glance n (.single kind)) impossible x

/-- The production, where none of the first `n` tokens ahead is of the kind. -/
def clearOf (kind : TokenKind) : Nat → Production → Production
  | 0, x => x
  | n + 1, x => clearOf kind n (away n kind x)

/-- A look at the `n`-th token ahead. It goes past the next token in a block only, and there none of
the first `before` tokens closes the block. -/
def sight (inside : Bool) (n before : Nat) (x : Production) : Production :=
  if n = 0 then x else if inside then clearOf .braceClose before x else impossible

/-- Where a line ends that a stretch is not to begin at. -/
def halt (inside : Bool) : TokenKind := if inside then .braceClose else .newline

/-- The production with the checks added, `inside` a block or not. -/
def guard (inside : Bool) : Production → Production
  | look n among => sight inside n (n - 1) (look n among)
  | glance n among => sight inside n (n - 1) (glance n among)
  | skip complaint => away 0 (halt inside) (skip complaint)
  | within kind body => within kind (body.guard inside)
  | scope body => scope (body.guard inside)
  | wrap yes no first question rest =>
    wrap yes no (first.guard inside) (question.guard inside) (rest.guard inside)
  | seq first second => seq (first.guard inside) (second.guard inside)
  | branch question yes no =>
    branch (question.guard inside) (yes.guard inside) (no.guard inside)
  | loop body => loop (body.guard inside)
  | block what body => block what (body.guard true)
  | x => x

theorem clearOf_isSealed (kind : TokenKind) {x : Production} (simple : x.isSealed = true) (n : Nat) :
    (clearOf kind n x).isSealed = true := by
  induction n generalizing x with
  | zero => exact simple
  | succ n ih => exact ih simple

theorem sight_isSealed (inside : Bool) {x : Production} (simple : x.isSealed = true) (n before : Nat) :
    (sight inside n before x).isSealed = true := by
  unfold sight
  split_ifs
  · exact simple
  · exact clearOf_isSealed _ simple before
  · rfl

theorem guard_isSealed (x : Production) (inside : Bool) :
    (x.guard inside).isSealed = x.isSealed := by
  induction x generalizing inside with
  | look n among => exact sight_isSealed inside rfl n _
  | glance n among => exact sight_isSealed inside rfl n _
  | wrap yes no first question rest first_ih question_ih rest_ih =>
    simp only [guard, isSealed, first_ih, question_ih, rest_ih]
  | seq first second first_ih second_ih => simp only [guard, isSealed, first_ih, second_ih]
  | branch question yes no question_ih yes_ih no_ih =>
    simp only [guard, isSealed, question_ih, yes_ih, no_ih]
  | within kind body ih => exact ih inside
  | loop body ih => exact ih inside
  | block what body ih => exact ih true
  | _ => rfl

theorem away_run {n : Nat} {kind : TokenKind} {x : Production} {c : Cursor}
    (clear : ((away n kind x).run c).faults = []) :
    c.kindAhead n ≠ kind ∧ (away n kind x).run c = x.run c := by
  have unfolded : (away n kind x).run c =
      if c.kindAhead n = kind then impossible.run c else x.run c := by
    simp only [away, run, Outcome.andThen, Outcome.quiet, KindSet.has_token]
    split <;> rfl
  by_cases here : c.kindAhead n = kind
  · rw [unfolded, if_pos here] at clear
    cases clear
  · rw [unfolded, if_neg here]
    exact ⟨here, rfl⟩

theorem clearOf_run {kind : TokenKind} {n : Nat} {x : Production} {c : Cursor}
    (clear : ((clearOf kind n x).run c).faults = []) :
    (clearOf kind n x).run c = x.run c ∧ ∀ m < n, c.kindAhead m ≠ kind := by
  induction n generalizing x with
  | zero => exact ⟨rfl, nofun⟩
  | succ n ih =>
    obtain ⟨same, before⟩ := ih clear
    obtain ⟨last, unchecked⟩ := away_run (same ▸ clear : ((away n kind x).run c).faults = [])
    refine ⟨same.trans unchecked, fun m less => ?_⟩
    rcases Nat.lt_succ_iff_lt_or_eq.mp less with earlier | rfl
    · exact before m earlier
    · exact last

theorem sight_run {inside : Bool} {n before : Nat} {x : Production} {c : Cursor}
    (clear : ((sight inside n before x).run c).faults = []) :
    (sight inside n before x).run c = x.run c ∧
      (n = 0 ∨ inside = true ∧ ∀ m < before, c.kindAhead m ≠ .braceClose) := by
  unfold sight at clear ⊢
  split_ifs at clear ⊢ with next block
  · exact ⟨rfl, .inl next⟩
  · obtain ⟨same, open_still⟩ := clearOf_run clear
    exact ⟨same, .inr ⟨block, open_still⟩⟩
  · cases clear

theorem rounds_congr {round round' : Cursor → Outcome}
    (inner : ∀ ⦃c : Cursor⦄, (round' c).faults = [] → round c = round' c) (limit : List Token)
    {c : Cursor} (clear : (rounds round' limit c).faults = []) :
    rounds round limit c = rounds round' limit c := by
  induction limit generalizing c with
  | nil =>
    apply Outcome.andThen_congr (inner (Outcome.andThen_clear clear).1)
    rfl
  | cons token limit ih =>
    obtain ⟨one, rest⟩ := Outcome.andThen_clear clear
    apply Outcome.andThen_congr (inner one)
    split
    · rename_i again
      rw [if_pos again] at rest
      exact ih rest
    · rfl

/-- The second is the first with checks added: where it passes them, the first does the same. -/
def Checked (x y : Production) : Prop :=
  ∀ ⦃c : Cursor⦄, (y.run c).faults = [] → x.run c = y.run c

section

variable {first first' second second' question question' yes yes' no no' rest rest' body body' :
  Production}

theorem checked_refl (x : Production) : x.Checked x := fun _ _ => rfl

theorem checked_seq (one : first.Checked first') (two : second.Checked second') :
    (seq first second).Checked (seq first' second') := by
  intro c clear
  obtain ⟨started, rest⟩ := Outcome.andThen_clear clear
  exact Outcome.andThen_congr (one started) (two rest)

theorem checked_branch (asking : question.Checked question') (affirming : yes.Checked yes')
    (denying : no.Checked no') : (branch question yes no).Checked (branch question' yes' no') := by
  intro c clear
  obtain ⟨asked, rest⟩ := Outcome.andThen_clear clear
  apply Outcome.andThen_congr (asking asked)
  split
  · rename_i answer
    rw [if_pos answer] at rest
    exact affirming rest
  · rename_i answer
    rw [if_neg answer] at rest
    exact denying rest

theorem checked_within (inner : body.Checked body') (kind : NodeKind) :
    (within kind body).Checked (within kind body') :=
  fun _ clear => congrArg (Outcome.wrapped · kind) (inner clear)

theorem checked_scope (inner : body.Checked body') : (scope body).Checked (scope body') :=
  fun _ clear => congrArg Outcome.closed (inner clear)

theorem checked_wrap (one : first.Checked first') (asking : question.Checked question')
    (more : rest.Checked rest') (yes no : NodeKind) :
    (wrap yes no first question rest).Checked (wrap yes no first' question' rest') := by
  intro c clear
  have inner : (wrapped first question rest).Checked (wrapped first' question' rest') :=
    checked_seq one (checked_branch asking (checked_seq more (checked_refl _)) (checked_refl _))
  rw [run_wrap, run_wrap, inner clear]

theorem checked_loop (inner : body.Checked body') : (loop body).Checked (loop body') :=
  fun c clear => rounds_congr inner c.ahead clear

theorem checked_block (inner : body.Checked body') (what : String) :
    (block what body).Checked (block what body') := by
  intro c clear
  obtain ⟨-, filled, -⟩ := Cursor.block_clear clear
  simp only [run, Cursor.block]
  exact Outcome.andThen_congr rfl (Outcome.andThen_congr (inner filled) rfl)

end

theorem guard_run (x : Production) (inside : Bool) : x.Checked (x.guard inside) := by
  induction x generalizing inside with
  | look n among => exact fun _ clear => (sight_run clear).1.symm
  | glance n among => exact fun _ clear => (sight_run clear).1.symm
  | skip complaint => exact fun _ clear => (away_run clear).2.symm
  | within kind body ih => exact checked_within (ih inside) kind
  | scope body ih => exact checked_scope (ih inside)
  | wrap yes no first question rest first_ih question_ih rest_ih =>
    exact checked_wrap (first_ih inside) (question_ih inside) (rest_ih inside) yes no
  | seq first second first_ih second_ih => exact checked_seq (first_ih inside) (second_ih inside)
  | branch question yes no question_ih yes_ih no_ih =>
    exact checked_branch (question_ih inside) (yes_ih inside) (no_ih inside)
  | loop body ih => exact checked_loop (ih inside)
  | block what body ih => exact checked_block (ih true) what
  | _ => exact checked_refl _

theorem sourceFile_guarded :
    ((sourceFile.guard false).foresee .careful false (.unknown ⟨none, 0⟩)).isSome = true := by
  decide +kernel

end Production

/-- Checks that are foreseen to be passed change nothing about a parse. -/
theorem parsed_checked {x : Production} (checked : Production.sourceFile.Checked x)
    (passes : (x.foresee .careful false (.unknown ⟨none, 0⟩)).isSome = true)
    (source : List Char) :
    (x.run (.start (lex source))).faults = [] ∧
      x.run (.start (lex source)) = parsed (lex source) := by
  obtain ⟨e, found⟩ := Option.isSome_iff_exists.mp passes
  have foreseen := Monitor.run_foreseen _ found (Outlook.unknown_holds _ source) (careful_fair _)
  exact ⟨foreseen.clear, (checked foreseen.clear).symm⟩

theorem parsed_guarded (source : List Char) :
    ((Production.sourceFile.guard false).run (.start (lex source))).faults = [] ∧
      (Production.sourceFile.guard false).run (.start (lex source)) = parsed (lex source) :=
  parsed_checked (Production.guard_run _ false) Production.sourceFile_guarded source

namespace Production

/-- The production with checks of its heeded looks, `inside` a block or not; its answer is `idle` or
heeded. -/
def checkLooks (check : Bool → Nat → Production → Production) :
    Production → (inside idle : Bool) → Production
  | look n among, inside, idle => if idle then look n among else check inside n (look n among)
  | glance n among, inside, idle => if idle then glance n among else check inside n (glance n among)
  | within kind body, inside, idle => within kind (body.checkLooks check inside idle)
  | scope body, inside, idle => scope (body.checkLooks check inside idle)
  | wrap yes no first question rest, inside, _ =>
    wrap yes no (first.checkLooks check inside true) (question.checkLooks check inside false)
      (rest.checkLooks check inside true)
  | seq first second, inside, idle =>
    seq (first.checkLooks check inside true) (second.checkLooks check inside idle)
  | branch question yes no, inside, idle =>
    branch (question.checkLooks check inside false) (yes.checkLooks check inside idle)
      (no.checkLooks check inside idle)
  | loop body, inside, _ => loop (body.checkLooks check inside false)
  | block what body, _, _ => block what (body.checkLooks check true true)
  | x, _, _ => x

theorem checkLooks_run {check : Bool → Nat → Production → Production}
    (passes : ∀ inside n (x : Production), x.Checked (check inside n x)) (x : Production)
    (inside idle : Bool) :
    x.Checked (x.checkLooks check inside idle) := by
  induction x generalizing inside idle with
  | look n among =>
    cases idle with
    | true => exact checked_refl _
    | false => exact passes inside n _
  | glance n among =>
    cases idle with
    | true => exact checked_refl _
    | false => exact passes inside n _
  | within kind body ih => exact checked_within (ih inside idle) kind
  | scope body ih => exact checked_scope (ih inside idle)
  | wrap yes no first question rest first_ih question_ih rest_ih =>
    exact checked_wrap (first_ih inside true) (question_ih inside false) (rest_ih inside true) yes no
  | seq first second first_ih second_ih =>
    exact checked_seq (first_ih inside true) (second_ih inside idle)
  | branch question yes no question_ih yes_ih no_ih =>
    exact checked_branch (question_ih inside false) (yes_ih inside idle) (no_ih inside idle)
  | loop body ih => exact checked_loop (ih inside false)
  | block what body ih => exact checked_block (ih true true) what
  | _ => exact checked_refl _

abbrev heed (x : Production) (inside idle : Bool) : Production :=
  x.checkLooks (fun inside n => sight inside n n) inside idle

theorem heed_run (x : Production) (inside idle : Bool) : x.Checked (x.heed inside idle) :=
  checkLooks_run (fun _ _ _ _ clear => (sight_run clear).1.symm) x inside idle

theorem sourceFile_heeded :
    ((sourceFile.heed false true).foresee .careful false (.unknown ⟨none, 0⟩)).isSome = true := by
  decide +kernel

end Production

theorem parsed_heeded (source : List Char) :
    ((Production.sourceFile.heed false true).run (.start (lex source))).faults = [] ∧
      (Production.sourceFile.heed false true).run (.start (lex source)) = parsed (lex source) :=
  parsed_checked (Production.heed_run _ false true) Production.sourceFile_heeded source

end CraftDsl
