import CraftDsl.Proofs.Printed
import CraftDsl.Proofs.Reading

/-!
How the words, names and lines of printed texts are read: what the productions that all items share add
where such tokens are ahead, and what is found again in the trees.
-/
namespace CraftDsl

open TokenKind (identifier string)

def identifierLeaf (w : Word) : Tree := .leaf ⟨.identifier, w⟩

def stringLeaf (w : Word) : Tree := .leaf ⟨.string, w⟩

def named (kind : NodeKind) (w : Word) : Tree := .node kind [identifierLeaf w]

section

open CraftDsl.Tree

theorem text_leaf (token : Token) : (leaf token).text = token.text := List.append_nil _

theorem identifier?_named (kind : NodeKind) (w : Word) : (named kind w).identifier? = some w :=
  congrArg some (text_leaf _)

theorem identifierIn?_named {t : Tree} {kind : NodeKind} {w : Word}
    (found : t.part? kind = some (named kind w)) : t.identifierIn? kind = some w := by
  rw [Tree.identifierIn?, found]
  exact identifier?_named kind w

theorem word?_leaf {t : Tree} {kind : TokenKind} {w : Word}
    (found : (t.child? fun k => [kind].any fun kind => k = .token kind) = some (leaf ⟨kind, w⟩)) :
    t.word? kind = some w := by
  rw [Tree.word?, Tree.wordOf?, found]
  exact congrArg some (text_leaf _)

end

namespace Production

section

variable (gap : List Token) (trivia : ∀ token ∈ gap, token.isTrivia = true) {w : Word}

include trivia

theorem gap_next {token : Token} (solid : token.isTrivia = false) (rest : List Token) :
    kindIn 0 (gap ++ token :: rest) = token.kind := by
  rw [kindIn_append_trivia _ _ _ trivia, kindIn, if_neg (Bool.eq_false_iff.mp solid)]

theorem gap_kind (rest : List Token) : kindIn 0 (gap ++ part w :: rest) = (part w).kind :=
  gap_next gap trivia (part_isTrivia w) rest

theorem at_token {token : Token} (solid : token.isTrivia = false) (rest : List Token) :
    (atKind token.kind).Builds (gap ++ token :: rest) true [] (gap ++ token :: rest) :=
  .look _ ((KindSet.has_token token.kind _).mpr (gap_next gap trivia solid rest))

theorem at_word (spelled : identifier.Spelled w) (rest : List Token) :
    atWord.Builds (gap ++ part w :: rest) true [] (gap ++ part w :: rest) := by
  refine .look _ ?_
  rw [gap_kind gap trivia rest]
  exact words_part spelled

theorem eat_token {token : Token} (solid : token.isTrivia = false) (rest : List Token) :
    (eat token.kind).Builds (gap ++ token :: rest) true ((gap ++ [token]).map Tree.leaf) rest :=
  (at_token gap trivia solid rest).yes (.take gap trivia solid (.single token.kind) rest)

theorem expect_token {token : Token} (solid : token.isTrivia = false) {what : String}
    (rest : List Token) :
    (expect token.kind what).Builds (gap ++ token :: rest) true ((gap ++ [token]).map Tree.leaf) rest :=
  (at_token gap trivia solid rest).yes (.take gap trivia solid (.single token.kind) rest)

theorem takeWord_builds (w : Word) (rest : List Token) :
    takeWord.Builds (gap ++ part w :: rest) true (gap.map Tree.leaf ++ [identifierLeaf w]) rest := by
  have taken := (Builds.demand .words _).seq (Builds.name gap trivia (part_isTrivia w) rest)
  rwa [List.map_append] at taken

theorem name_builds (kind : NodeKind) (what : String) (spelled : identifier.Spelled w)
    (rest : List Token) :
    (expectNameNode kind what).Builds (gap ++ part w :: rest) true
      (gap.map Tree.leaf ++ [named kind w]) rest := by
  have inner := takeWord_builds [] (List.forall_mem_nil _) w rest
  exact (at_word gap trivia spelled rest).yes (Builds.node gap trivia (part_isTrivia w) kind inner)

theorem string_builds (spelled : string.Spelled w) (otherwise : Production) (rest : List Token) :
    (branch (atKind .string) (takeKind .string) otherwise).Builds (gap ++ part w :: rest) true
      (gap.map Tree.leaf ++ [stringLeaf w]) rest := by
  have seen : (KindSet.single TokenKind.string).has (kindIn 0 (gap ++ part w :: rest)) = true := by
    rw [gap_kind gap trivia rest, part_string spelled]
    exact (KindSet.has_token _ _).mpr rfl
  have taken := Builds.take gap trivia (part_isTrivia w) (.single TokenKind.string) rest
  rw [List.map_append, part_string spelled] at taken
  rw [part_string spelled] at seen ⊢
  exact (Builds.look _ seen).yes taken

end

theorem keyword_builds (k : Keyword) (rest : List Token) :
    (takeKeyword k).Builds (blank :: part k.word :: rest) true [.leaf blank, .leaf (part k.word)] rest :=
  .take [blank] blank_trivia (part_isTrivia k.word) _ _

section

variable (more : List Token)

theorem finishLine_builds (what : String) :
    (finishLine what).Builds (lineBreak :: more) true [] (lineBreak :: more) := by
  have ended : KindSet.lineEnd.has (kindIn 0 (lineBreak :: more)) = true := by
    rw [kindIn_lineBreak]
    decide
  exact (Builds.look _ ended).yes (.answer true _)

theorem eat_builds : (eat .newline).Builds (lineBreak :: more) true [.leaf lineBreak] more :=
  eat_token [] (List.forall_mem_nil _) (show lineBreak.isTrivia = false from rfl) more

end

theorem at_other {kind : TokenKind} {ahead : List Token} (other : kindIn 0 ahead ≠ kind) :
    (atKind kind).Builds ahead false [] ahead := .look _ (KindSet.has_other other)

theorem eat_stops {kind : TokenKind} {ahead : List Token} (other : kindIn 0 ahead ≠ kind) :
    (eat kind).Builds ahead false [] ahead := (at_other other).no (.answer false _)

theorem newlines_none (ahead : List Token) (other : kindIn 0 ahead ≠ .newline) :
    newlines.Builds ahead true [] ahead := Reads.loop (.last (eat_stops other))

theorem newlines_one (ahead : List Token) (other : kindIn 0 ahead ≠ .newline) :
    newlines.Builds (lineBreak :: ahead) true [.leaf lineBreak] ahead :=
  Reads.loop (.more (eat_builds ahead) (Nat.lt_succ_self _) (.last (eat_stops other)))

theorem blockRound_stops (what : String) (itemFirst : KindSet) (item : Production) (more : List Token) :
    (lineOr (blockItem what itemFirst item)).Builds (closing :: more) false [] (closing :: more) := by
  have other : (atKind .newline).Builds (closing :: more) false [] (closing :: more) :=
    at_other TokenKind.noConfusion
  have ended : (onAny (.ofList [TokenKind.braceClose, TokenKind.endOfInput])).Builds (closing :: more)
      true [] (closing :: more) := by
    refine .glance _ ?_
    rw [KindSet.has_ofList]
    rfl
  exact other.no (ended.yes (.answer false _))

theorem blockLines_ends (what : String) :
    (blockLines what .empty (answer true)).Builds [closing] true [] [closing] :=
  Reads.loop (.last (blockRound_stops what .empty (answer true) []))

end Production

end CraftDsl
