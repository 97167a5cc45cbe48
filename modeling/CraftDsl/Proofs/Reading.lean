import CraftDsl.Proofs.Building
import CraftDsl.Proofs.Guard

/-!
What a production does where the tokens ahead are known: the answer it gives, the trees it adds and the
tokens it leaves, without a report. There is one lemma for each way to put productions together, and a
loop is followed round by round.
-/
namespace CraftDsl

structure Outcome.Adds (o : Outcome) (answer : Bool) (pieces : List Piece) (rest : List Token) :
    Prop where
  answer : o.answer = answer
  pieces : o.pieces = pieces
  reports : o.reports = []
  ahead : o.cursor.ahead = rest

namespace Production

def Reads (x : Production) (ahead : List Token) (answer : Bool) (pieces : List Piece)
    (rest : List Token) : Prop :=
  ∀ c : Cursor, c.ahead = ahead → (x.run c).Adds answer pieces rest

def Builds (x : Production) (ahead : List Token) (answer : Bool) (trees : List Tree)
    (rest : List Token) : Prop :=
  x.Reads ahead answer (trees.map Piece.tree) rest

variable {x y question first second : Production} {a b d : List Token} {v w : Bool} {among : KindSet}

section

variable {p q : List Piece}

theorem Reads.seq (now : x.Reads a v p b) (next : y.Reads b w q d) :
    (seq x y).Reads a w (p ++ q) d := by
  intro c ahead
  have here := now c ahead
  have later := next _ here.ahead
  exact ⟨later.answer, congrArg₂ (· ++ ·) here.pieces later.pieces,
    congrArg₂ (· ++ ·) here.reports later.reports, later.ahead⟩

theorem Reads.yes (asked : question.Reads a true p b) (chosen : first.Reads b w q d) :
    (branch question first second).Reads a w (p ++ q) d := by
  intro c ahead
  rw [run_yes (asked c ahead).answer]
  exact asked.seq chosen c ahead

theorem Reads.no (asked : question.Reads a false p b) (chosen : second.Reads b w q d) :
    (branch question first second).Reads a w (p ++ q) d := by
  intro c ahead
  rw [run_no (Bool.eq_false_iff.mp (asked c ahead).answer)]
  exact asked.seq chosen c ahead

/-- What the rounds of a loop add up to. Each one that is answered yes takes tokens. -/
inductive Rounds (x : Production) : List Token → List Piece → List Token → Prop
  | last {a b : List Token} {p : List Piece} (stop : x.Reads a false p b) : Rounds x a p b
  | more {a b d : List Token} {p q : List Piece} (round : x.Reads a true p b)
      (fewer : b.length < a.length) (further : Rounds x b q d) : Rounds x a (p ++ q) d

theorem Reads.loop (along : Rounds x a p b) : (loop x).Reads a true p b := by
  -- A loop may go on for one round more than there are tokens. The tokens grow fewer with each round
  -- that is answered yes, so the limit is never met.
  have enough (limit : List Token) (long : a.length ≤ limit.length) (c : Cursor)
      (ahead : c.ahead = a) : (rounds x.run limit c).Adds true p b := by
    induction along generalizing limit c with
    | last stop =>
      have here := stop c ahead
      have ended : (x.run c).pieces ++ [] = _ := (List.append_nil _).trans here.pieces
      have silent : (x.run c).reports ++ [] = [] := (List.append_nil _).trans here.reports
      cases limit with
      | nil => exact ⟨rfl, ended, silent, here.ahead⟩
      | cons token limit =>
        rw [rounds]
        refine ⟨?_, ?_, ?_, ?_⟩
        all_goals simp only [Outcome.andThen, here.answer, Bool.false_eq_true, if_false]
        · rfl
        · exact ended
        · exact silent
        · exact here.ahead
    | more round fewer further ih =>
      have here := round c ahead
      cases limit with
      | nil =>
        rw [List.length_nil] at long
        omega
      | cons token limit =>
        rw [List.length_cons] at long
        have later := ih limit (by omega) _ here.ahead
        rw [rounds]
        refine ⟨?_, ?_, ?_, ?_⟩
        all_goals simp only [Outcome.andThen, here.answer, if_true]
        · exact later.answer
        · exact congrArg₂ (· ++ ·) here.pieces later.pieces
        · exact congrArg₂ (· ++ ·) here.reports later.reports
        · exact later.ahead
  intro c ahead
  exact enough c.ahead (by rw [ahead]) c ahead

theorem Reads.into (kind : NodeKind) (ahead : List Token) :
    (into kind).Reads ahead true [.opening kind] ahead :=
  fun _ ahead => ⟨rfl, rfl, rfl, ahead⟩

theorem Reads.count (opened : Nat) (ahead : List Token) : (count opened).Reads ahead true [] ahead :=
  fun _ ahead => ⟨rfl, rfl, rfl, ahead⟩

theorem Reads.scope (inner : x.Reads a v p b) : (scope x).Builds a v (closePieces p) b := by
  intro c ahead
  have here := inner c ahead
  exact ⟨here.answer, by rw [← here.pieces]; rfl, here.reports, here.ahead⟩

end

section

variable {s t : List Tree}

theorem Builds.seq (now : x.Builds a v s b) (next : y.Builds b w t d) :
    (seq x y).Builds a w (s ++ t) d := by
  have both := Reads.seq now next
  rwa [← List.map_append] at both

theorem Builds.yes (asked : question.Builds a true s b) (chosen : first.Builds b w t d) :
    (branch question first second).Builds a w (s ++ t) d := by
  have both : (branch question first second).Reads a w _ d := Reads.yes asked chosen
  rwa [← List.map_append] at both

theorem Builds.no (asked : question.Builds a false s b) (chosen : second.Builds b w t d) :
    (branch question first second).Builds a w (s ++ t) d := by
  have both : (branch question first second).Reads a w _ d := Reads.no asked chosen
  rwa [← List.map_append] at both

theorem Builds.within (kind : NodeKind) (inner : x.Builds a v s b) :
    (within kind x).Builds a v [.node kind s] b := by
  intro c ahead
  have here := inner c ahead
  refine ⟨here.answer, ?_, here.reports, here.ahead⟩
  show [Piece.tree (.node kind (closePieces (x.run c).pieces))] = _
  rw [here.pieces, closePieces_trees]
  rfl

theorem Builds.wrap_yes {t' : List Tree} {e : List Token} (yes no : NodeKind)
    (now : first.Builds a v s b) (asked : question.Builds b true t d) (rest : x.Builds d w t' e) :
    (wrap yes no first question x).Builds a true [.node yes (s ++ (t ++ t'))] e := by
  have inner : (wrapped first question x).Builds a true (s ++ (t ++ (t' ++ []))) e :=
    now.seq (asked.yes (rest.seq fun _ ahead => ⟨rfl, rfl, rfl, ahead⟩))
  intro c ahead
  have here := inner c ahead
  have node := (Builds.within yes inner) c ahead
  rw [List.append_nil] at node
  rw [run_wrap, here.answer]
  exact node

theorem Builds.wrap_no (yes no : NodeKind) (now : first.Builds a v s b)
    (asked : question.Builds b false t d) :
    (wrap yes no first question x).Builds a false [.node no (s ++ (t ++ []))] d := by
  have inner : (wrapped first question x).Builds a false (s ++ (t ++ [])) d :=
    now.seq (asked.no fun _ ahead => ⟨rfl, rfl, rfl, ahead⟩)
  intro c ahead
  have here := inner c ahead
  have node := (Builds.within no inner) c ahead
  rw [run_wrap, here.answer]
  exact node

theorem Builds.answer (value : Bool) (ahead : List Token) :
    (answer value).Builds ahead value [] ahead :=
  fun _ ahead => ⟨rfl, rfl, rfl, ahead⟩

theorem Builds.look {n : Nat} (among : KindSet) (seen : among.has (kindIn n a) = v) :
    (look n among).Builds a v [] a := by
  intro c ahead
  exact ⟨by rw [← seen, ← ahead]; rfl, rfl, rfl, ahead⟩

theorem Builds.glance {n : Nat} (among : KindSet) (seen : among.has (kindIn n a) = v) :
    (glance n among).Builds a v [] a := by
  intro c ahead
  exact ⟨by rw [← seen, ← ahead]; rfl, rfl, rfl, ahead⟩

theorem Builds.demand (among : KindSet) (ahead : List Token) :
    (demand among).Builds ahead true [] ahead :=
  fun _ ahead => ⟨rfl, rfl, rfl, ahead⟩

theorem Builds.pass (ahead : List Token) : pass.Builds ahead true [] ahead :=
  fun _ ahead => ⟨rfl, rfl, rfl, ahead⟩

end

section

variable (blanks : List Token) {token : Token} {rest : List Token}
  (trivia : ∀ blank ∈ blanks, blank.isTrivia = true) (solid : token.isTrivia = false)

include trivia solid

theorem Builds.take (among : KindSet) (rest : List Token) :
    (take among).Builds (blanks ++ token :: rest) true ((blanks ++ [token]).map Tree.leaf) rest := by
  intro c ahead
  obtain ⟨pending, due⟩ := Cursor.due_of_ahead trivia solid ahead
  have taken : (Production.take among).run c = _ := c.take_eq among none due
  rw [taken, pending]
  exact ⟨rfl, by simp [leaves], rfl, rfl⟩

theorem Builds.name (rest : List Token) :
    name.Builds (blanks ++ token :: rest) true
      ((blanks ++ [(⟨.identifier, token.text⟩ : Token)]).map Tree.leaf) rest := by
  intro c ahead
  obtain ⟨pending, due⟩ := Cursor.due_of_ahead trivia solid ahead
  have taken : Production.name.run c = _ := c.take_eq .words (some .identifier) due
  rw [taken, pending]
  exact ⟨rfl, by simp [leaves], rfl, rfl⟩

theorem Builds.settle (rest : List Token) :
    settle.Builds (blanks ++ token :: rest) true (blanks.map Tree.leaf) (token :: rest) := by
  intro c ahead
  obtain ⟨pending, due⟩ := Cursor.due_of_ahead trivia solid ahead
  have settled : Production.settle.run c = _ := c.settle_eq
  rw [settled, pending, due]
  exact ⟨rfl, by simp [leaves], rfl, rfl⟩

theorem Builds.node {x : Production} {v : Bool} {trees : List Tree} {b : List Token} (kind : NodeKind)
    (inner : x.Builds (token :: rest) v trees b) :
    (node kind x).Builds (blanks ++ token :: rest) v (blanks.map Tree.leaf ++ [.node kind trees]) b :=
  (Builds.settle blanks trivia solid rest).seq (inner.within kind)

theorem Builds.block {x : Production} {v : Bool} {trees : List Tree} {b : List Token} {close : Token}
    (what : String) (inner : x.Builds b v trees (close :: rest)) (closes : close.kind = .braceClose) :
    (block what x).Builds (blanks ++ token :: b) true
      ((blanks ++ [token]).map Tree.leaf ++ (trees ++ [.leaf close])) rest := by
  intro c ahead
  have opened := Builds.take blanks trivia solid (.single TokenKind.braceOpen) b c ahead
  set o := (Production.take (.single TokenKind.braceOpen)).run c with o_eq
  have body := inner o.cursor opened.ahead
  have solid : close.isTrivia = false := by
    rw [Token.isTrivia, closes]
    rfl
  have closed := Builds.take [] (List.forall_mem_nil _) solid (.single TokenKind.braceClose) rest _
    body.ahead
  have chosen : (x.run o.cursor).cursor.closeBlock what c.spanAhead =
      (Production.take (.single TokenKind.braceClose)).run (x.run o.cursor).cursor := by
    apply if_pos
    rw [Cursor.kindAhead, body.ahead, kindIn, if_neg (Bool.eq_false_iff.mp solid), closes]
  have whole : (Production.block what x).run c = o.andThen fun _ c' =>
      (x.run c').andThen fun _ after => after.closeBlock what c.spanAhead := rfl
  have same : (Production.block what x).run c = o.andThen fun _ c' =>
      (x.run c').andThen fun _ after => (Production.take (.single TokenKind.braceClose)).run after :=
    whole.trans (Outcome.andThen_congr rfl (Outcome.andThen_congr rfl chosen))
  rw [same]
  refine ⟨closed.answer, ?_, ?_, closed.ahead⟩
  · have pieces := congrArg₂ (· ++ ·) opened.pieces (congrArg₂ (· ++ ·) body.pieces closed.pieces)
    rwa [← List.map_append, ← List.map_append] at pieces
  · exact congrArg₂ (· ++ ·) opened.reports (congrArg₂ (· ++ ·) body.reports closed.reports)

end

theorem Reads.start {token : Token} (solid : token.isTrivia = false) (kind : NodeKind)
    (rest : List Token) : (start kind).Reads (token :: rest) true [.opening kind] (token :: rest) :=
  Reads.seq (Builds.settle [] (List.forall_mem_nil _) solid rest) (.into kind _)

end Production

end CraftDsl
