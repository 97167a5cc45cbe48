import CraftDsl.Proofs.Cut
import CraftDsl.Proofs.Seam

/-!
Productions that take blank lines at their end. The blank lines go as far as they can, so where the
input is cut off after them, nothing else is seen there either. Main statement: `trails_cut`.
-/
namespace CraftDsl

theorem BlankLines.lineEnd {lines : List Token} (blank : BlankLines lines) :
    KindSet.lineEnd.has (kindIn 0 lines) = true := by
  cases blank with
  | nil => rfl
  | @line blanks later newline trivia kind lines =>
    have solid : newline.isTrivia = false := by
      rw [Token.isTrivia, kind]
      rfl
    have next : kindIn 0 (newline :: later) = .newline := by
      rw [kindIn, solid, ← kind]
      rfl
    rw [kindIn_append_trivia 0 _ _ trivia, next]
    decide

namespace Production

variable {c d : Cursor} {rest : List Token}

def rests : Production → Bool
  | loop body => body.isEat
  | seq (branch (look 0 among) (answer true) (skip _)) second => among = .lineEnd && second.rests
  | _ => false

theorem rests_eats (x : Production) (ending : x.rests = true)
    (solid : ∀ token ∈ c.ahead, token.kind ≠ .endOfInput) (clear : (x.run c).faults = [])
    (line : KindSet.lineEnd.has (c.kindAhead 0) = true ∨ (x.run c).Clean) :
    ∃ eaten, Eats c eaten (x.run c) := by
  fun_induction rests x generalizing c with
  | case1 body =>
    rw [eq_of_isEat ending] at clear ⊢
    exact rounds_eat c.ahead clear
  | case2 among complaint second ih =>
    obtain ⟨kinds, later⟩ := Bool.and_eq_true_iff.mp ending
    obtain rfl : among = .lineEnd := of_decide_eq_true kinds
    obtain ⟨looked, going⟩ := Outcome.andThen_clear clear
    have on_line : KindSet.lineEnd.has (c.kindAhead 0) = true := by
      refine line.elim id fun clean => ?_
      by_contra other
      have more : c.kindAhead 0 ≠ .endOfInput := by
        intro at_end
        rw [at_end] at other
        exact other rfl
      have skipped := clean.andThen.1
      rw [run_no (show ¬ ((look 0 .lineEnd).run c).answer = true from other)] at skipped
      exact Cursor.skip_unclean (c := ((look 0 .lineEnd).run c).cursor) complaint more
        skipped.andThen.2
    have first : (branch (look 0 .lineEnd) (answer true) (skip complaint)).run c =
        ⟨true, [], [], (c.look 0 .lineEnd).faults ++ [], { c with looks := c.looks + 1 }⟩ := by
      rw [run_yes (show ((look 0 .lineEnd).run c).answer = true from on_line)]
      rfl
    have whole : (seq (branch (look 0 .lineEnd) (answer true) (skip complaint)) second).run c =
        ((branch (look 0 .lineEnd) (answer true) (skip complaint)).run c).andThen
          fun _ c => second.run c := rfl
    rw [first] at looked going
    obtain ⟨eaten, eats⟩ := ih later (c := { c with looks := c.looks + 1 }) solid going
      (.inl on_line)
    refine ⟨eaten, eats.lines, ?_, ?_, ?_, ?_, ?_⟩
    all_goals rw [whole, first]
    · exact ⟨eats.moves.ahead, eats.moves.offset, eats.moves.reported⟩
    · exact eats.answer
    · exact eats.pieces
    · exact eats.reports
    · exact eats.far
  | case3 => cases ending

theorem rests_cut (x : Production) (ending : x.rests = true) (ahead : c.ahead = d.ahead ++ rest)
    (solid : ∀ token ∈ c.ahead, token.kind ≠ .endOfInput) (clear : (x.run c).faults = [])
    (clear' : (x.run d).faults = []) (clean : (x.run c).Clean)
    (after : (x.run c).cursor.ahead = rest) : Cut rest true (x.run c) (x.run d) := by
  obtain ⟨eaten, eats⟩ := rests_eats x ending solid clear (.inr clean)
  obtain rfl : eaten = d.ahead := by
    refine List.append_cancel_right (show _ ++ rest = _ ++ rest from ?_)
    rw [← ahead, eats.moves.ahead, after]
  have within := fun t member => solid t (ahead ▸ List.mem_append_left rest member)
  obtain ⟨all, eats'⟩ := rests_eats x ending within clear' (.inl eats.lines.lineEnd)
  have joint : d.ahead ++ [] = all ++ (x.run d).cursor.ahead := by
    rw [List.append_nil]
    exact eats'.moves.ahead
  obtain ⟨further, -, same, none_left⟩ := eats.lines.split eats'.lines joint eats'.far
  obtain ⟨none_more, ended⟩ := List.append_eq_nil_iff.mp none_left.symm
  rw [none_more, List.append_nil] at same
  refine ⟨?_, ?_, .inl rfl⟩
  · rw [eats'.pieces, eats.pieces, same]
  · rw [after, ended, List.nil_append]

def trails : Production → Bool
  | within _ body => body.trails
  | seq first second => first.ends && second.rests || second.trails
  | branch _ yes no => yes.trails && no.trails
  | missing _ _ | impossible => true
  | _ => false

theorem takes_of_trails (x : Production) (last : x.trails = true) : x.takes = true := by
  induction x with
  | within kind body ih => exact ih last
  | seq first second first_ih second_ih =>
    rcases Bool.or_eq_true_iff.mp last with both | later
    · have early := takes_of_ends first (Bool.and_eq_true_iff.mp both).1
      exact Bool.or_eq_true_iff.mpr (.inl early)
    · exact Bool.or_eq_true_iff.mpr (.inr (second_ih later))
  | branch question yes no question_ih yes_ih no_ih =>
    obtain ⟨yes_trails, no_trails⟩ := Bool.and_eq_true_iff.mp last
    exact Bool.and_eq_true_iff.mpr ⟨yes_ih yes_trails, no_ih no_trails⟩
  | missing _ _ | impossible => rfl
  | _ => cases last

theorem heeded_takes (x : Production) (last : x.trails = true) {inside idle : Bool}
    (clear : ((x.heed inside idle).run c).faults = []) (clean : ((x.heed inside idle).run c).Clean) :
    Takes c ((x.heed inside idle).run c) := by
  have same := heed_run x inside idle clear
  rw [← same] at clear clean ⊢
  exact x.run_takes (x.takes_of_trails last) clear clean

/-- One production is cut off like the other after it, where a token that the other takes is still to
come. -/
theorem cut_onward {first second : Production} {idle : Bool} (last : second.trails = true)
    (cut : ∀ {c d : Cursor}, c.ahead = d.ahead ++ rest →
      (∀ token ∈ c.ahead, token.kind ≠ .endOfInput) →
      ((second.heed false true).run c).faults = [] → (second.run d).faults = [] →
      ((second.heed false true).run c).Clean → ((second.heed false true).run c).cursor.ahead = rest →
      Cut rest true ((second.heed false true).run c) (second.run d))
    (ahead : c.ahead = d.ahead ++ rest) (solid : ∀ token ∈ c.ahead, token.kind ≠ .endOfInput)
    (started : ((first.heed false idle).run c).faults = []) (started' : (first.run d).faults = [])
    (start : ((first.heed false idle).run c).Clean)
    (going : ((second.heed false true).run ((first.heed false idle).run c).cursor).faults = [])
    (later : ((second.heed false true).run ((first.heed false idle).run c).cursor).Clean)
    (after : ((second.heed false true).run ((first.heed false idle).run c).cursor).cursor.ahead =
      rest) :
    Cut rest idle ((first.heed false idle).run c) (first.run d) ∧
      ((second.run (first.run d).cursor).faults = [] →
        Cut rest true ((second.heed false true).run ((first.heed false idle).run c).cursor)
          (second.run (first.run d).cursor)) := by
  obtain ⟨taken, between, stock⟩ := heeded_takes second last going later
  have split : ((first.heed false idle).run c).cursor.ahead = taken ++ rest :=
    between.trans (congrArg (taken ++ ·) after)
  have onward := fun t member => solid t (((first.heed false idle).run_spent c).subset member)
  have begun := run_cut first false idle ahead solid started started' start split (.inl stock)
  exact ⟨begun, fun going' => cut begun.ahead onward going going' later after⟩

/-- The production does the same where the input ends after the blank lines. -/
theorem trails_cut (x : Production) (last : x.trails = true) (ahead : c.ahead = d.ahead ++ rest)
    (solid : ∀ token ∈ c.ahead, token.kind ≠ .endOfInput)
    (clear : ((x.heed false true).run c).faults = []) (clear' : (x.run d).faults = [])
    (clean : ((x.heed false true).run c).Clean)
    (after : ((x.heed false true).run c).cursor.ahead = rest) :
    Cut rest true ((x.heed false true).run c) (x.run d) := by
  induction x generalizing c d with
  | within kind body ih => exact (ih last ahead solid clear clear' clean.wrapped after).wrapped kind
  | seq first second first_ih second_ih =>
    obtain ⟨started, going⟩ := Outcome.andThen_clear clear
    obtain ⟨started', going'⟩ := Outcome.andThen_clear clear'
    obtain ⟨start, later⟩ := clean.andThen
    rcases Bool.or_eq_true_iff.mp last with both | trailing
    · obtain ⟨ends, ending⟩ := Bool.and_eq_true_iff.mp both
      have same := heed_run second false true going
      have ended : (second.run ((first.heed false true).run c).cursor).cursor.ahead = rest := by
        rw [same]
        exact after
      rw [← same] at going later
      have onward := fun t member => solid t (((first.heed false true).run_spent c).subset member)
      obtain ⟨eaten, eats⟩ := rests_eats second ending onward going (.inr later)
      have between : ((first.heed false true).run c).cursor.ahead = eaten ++ rest := by
        rw [eats.moves.ahead, ended]
      have begun := run_cut first false true ahead solid started started' start between
        (.inr ⟨rfl, ends⟩)
      have rested := rests_cut second ending begun.ahead onward going going' later ended
      exact begun.andThen (same ▸ rested)
    · obtain ⟨begun, onward⟩ :=
        cut_onward trailing (second_ih trailing) ahead solid started started' start going later after
      exact begun.andThen (onward going')
  | branch question yes no question_ih yes_ih no_ih =>
    obtain ⟨yes_trails, no_trails⟩ := Bool.and_eq_true_iff.mp last
    obtain ⟨asked, going⟩ := Outcome.andThen_clear clear
    obtain ⟨asked', going'⟩ := Outcome.andThen_clear clear'
    obtain ⟨start, later⟩ := clean.andThen
    by_cases answer : ((question.heed false false).run c).answer = true
    · simp only [heed, checkLooks, run, Outcome.andThen, if_pos answer] at after
      rw [if_pos answer] at going later
      obtain ⟨begun, onward⟩ :=
        cut_onward yes_trails (yes_ih yes_trails) ahead solid asked asked' start going later after
      have same := begun.answer.resolve_left Bool.false_ne_true
      rw [same, if_pos answer] at going'
      apply begun.andThen
      rw [same, if_pos answer, if_pos answer]
      exact onward going'
    · simp only [heed, checkLooks, run, Outcome.andThen, if_neg answer] at after
      rw [if_neg answer] at going later
      obtain ⟨begun, onward⟩ :=
        cut_onward no_trails (no_ih no_trails) ahead solid asked asked' start going later after
      have same := begun.answer.resolve_left Bool.false_ne_true
      rw [same, if_neg answer] at going'
      apply begun.andThen
      rw [same, if_neg answer, if_neg answer]
      exact onward going'
  | missing kind message => exact absurd clean (Cursor.missing_unclean kind message)
  | impossible => cases clear
  | _ => cases last

theorem item_trails : item.trails = true := by decide +kernel

end Production

end CraftDsl
