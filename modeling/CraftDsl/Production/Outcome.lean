import CraftDsl.Production
import CraftDsl.Tree

/-!
What a production adds to a tree, told from the tokens ahead alone: which pieces it adds, what it
reports, and which tokens it leaves. Blanks and comments count as ahead until they are in the tree.
-/
namespace CraftDsl

def lookLimit : Nat := 256

def kindIn : Nat → List Token → TokenKind
  | _, [] => .endOfInput
  | n, t :: ts =>
    if t.isTrivia then kindIn n ts
    else match n with
      | 0 => t.kind
      | n + 1 => kindIn n ts

def widthOf (tokens : List Token) : Nat := tokens.foldr (fun t width => t.width + width) 0

/-- Where a parse stands: the tokens ahead, the byte offset of the first, the place of the latest
report, and the looks since a token was taken. -/
structure Cursor where
  ahead : List Token
  offset : Nat
  reported : Option Nat
  looks : Nat

/-- What a production adds to the node that is open: a finished tree, or a node that stays open up to
the end of its scope. -/
inductive Piece
  | tree (tree : Tree)
  | opening (kind : NodeKind)

structure Outcome where
  answer : Bool
  pieces : List Piece
  reports : List Diagnostic
  faults : List Fault
  cursor : Cursor

namespace Cursor

def start (tokens : List Token) : Cursor := ⟨tokens, 0, none, 0⟩

def kindAhead (c : Cursor) (n : Nat) : TokenKind := kindIn n c.ahead

def pending (c : Cursor) : List Token := c.ahead.takeWhile Token.isTrivia

def due (c : Cursor) : List Token := c.ahead.dropWhile Token.isTrivia

def advance (c : Cursor) (count : Nat) : Cursor :=
  { c with ahead := c.ahead.drop count, offset := c.offset + widthOf (c.ahead.take count) }

/-- The place of the first token that is not trivia; it is empty at the end of input. -/
def spanAhead (c : Cursor) : Span :=
  let start := c.offset + widthOf c.pending
  ⟨start, start + widthOf (c.due.take 1)⟩

end Cursor

namespace Outcome

def quiet (answer : Bool) (c : Cursor) : Outcome := ⟨answer, [], [], [], c⟩

def check (holds : Bool) (fault : Fault) (answer : Bool) (c : Cursor) : Outcome :=
  { quiet answer c with faults := if holds then [] else [fault] }

def andThen (first : Outcome) (second : Bool → Cursor → Outcome) : Outcome :=
  let next := second first.answer first.cursor
  { next with
    pieces := first.pieces ++ next.pieces
    reports := first.reports ++ next.reports
    faults := first.faults ++ next.faults }

end Outcome

def closePieces (pieces : List Piece) : List Tree :=
  pieces.foldr (fun piece following =>
    match piece with
    | .tree tree => tree :: following
    | .opening kind => [.node kind following]) []

def leaves (tokens : List Token) : List Piece := tokens.map fun token => .tree (.leaf token)

namespace Outcome

def closed (o : Outcome) : Outcome :=
  { o with pieces := (closePieces o.pieces).map Piece.tree }

def wrapped (o : Outcome) (kind : NodeKind) : Outcome :=
  { o with pieces := [.tree (.node kind (closePieces o.pieces))] }

end Outcome

/-- How many braces are open after a token of the kind, of which `depth` were open before. -/
def depthAfter (depth : Nat) : TokenKind → Nat
  | .braceOpen => depth + 1
  | .braceClose => depth - 1
  | _ => depth

/-- Whether a skipped stretch stops before a token of the kind. It takes its `first` token whatever
that is, and what stands in braces opened within it. -/
def stopsAt (depth : Nat) (first : Bool) (kind : TokenKind) : Bool :=
  !first && depth = 0 && (kind = .newline || kind = .braceClose)

/-- How many of the tokens belong to a skipped stretch, after `blanks` that belong to it only if a
further token does. -/
def stretch (depth : Nat) (first : Bool) (blanks : Nat) : List Token → Nat
  | [] => 0
  | token :: tokens =>
    if token.isTrivia then stretch depth first (blanks + 1) tokens
    else if stopsAt depth first token.kind then 0
    else blanks + 1 + stretch (depthAfter depth token.kind) false 0 tokens

namespace Cursor

def look (c : Cursor) (n : Nat) (among : KindSet) : Outcome :=
  .check (c.looks < lookLimit) .stuck (among.has (c.kindAhead n)) { c with looks := c.looks + 1 }

def trace (c : Cursor) : Outcome := c.look 0 .empty

def shift (c : Cursor) (count : Nat) : Outcome :=
  { Outcome.quiet true (c.advance count) with pieces := leaves (c.ahead.take count) }

def settle (c : Cursor) : Outcome := c.shift c.pending.length

def take (c : Cursor) (among : KindSet) (retag : Option TokenKind) : Outcome :=
  c.settle.andThen fun _ c =>
    match c.ahead with
    | [] => .check false .pastEnd true c
    | token :: _ =>
      { Outcome.check (among.has token.kind) .misplaced true { c.advance 1 with looks := 0 } with
        pieces := [.tree (.leaf ⟨retag.getD token.kind, token.text⟩)] }

/-- Reports at the place of the next token, unless the latest report was made there. -/
def report (c : Cursor) (diagnostic : Span → Diagnostic) : Outcome :=
  let place := c.spanAhead
  if c.reported = some place.start then Outcome.quiet true c
  else { Outcome.quiet true { c with reported := some place.start } with reports := [diagnostic place] }

def gap (c : Cursor) : Outcome :=
  c.settle.andThen fun _ c => (Outcome.quiet false c).wrapped .error

def missing (c : Cursor) (kind : DiagnosticKind) (message : String) : Outcome :=
  c.trace.andThen fun _ c =>
    (c.report fun place => ⟨kind, place, message, []⟩).andThen fun _ c => c.gap

/-- An error node around the tokens to skip. Each of them is looked at before it is taken, as is what
comes after them. -/
def discard (c : Cursor) : Outcome :=
  c.settle.andThen fun _ c =>
    (c.trace.andThen fun _ c =>
      (c.shift (stretch 0 true 0 c.ahead)).andThen fun _ c =>
        .quiet true { c with looks := 1 }).wrapped .error

def skip (c : Cursor) (complaint : Complaint) : Outcome :=
  (c.look 0 (.single TokenKind.endOfInput)).andThen fun atEnd c =>
    if atEnd then Outcome.quiet true c
    else
      let message := complaint.message ((c.due.take 1).flatMap Token.text)
      c.trace.andThen fun _ c =>
        (c.report fun place => ⟨.unexpectedToken, place, message, []⟩).andThen fun _ c => c.discard

def unclosed (c : Cursor) (what : String) (brace : Span) : Outcome :=
  (Outcome.check (c.kindAhead 0 = .endOfInput) .misplaced true c).andThen fun _ c =>
    (c.report fun place =>
      ⟨.unclosedBlock, ⟨brace.start, place.stop⟩, "unclosed " ++ what,
        [⟨brace, "block opened here"⟩]⟩).andThen fun _ c => c.gap

def closeBlock (c : Cursor) (what : String) (brace : Span) : Outcome :=
  if c.kindAhead 0 = .braceClose then c.take (.single TokenKind.braceClose) none
  else c.unclosed what brace

def block (c : Cursor) (what : String) (body : Cursor → Outcome) : Outcome :=
  (c.take (.single TokenKind.braceOpen) none).andThen fun _ inner =>
    (body inner).andThen fun _ after => after.closeBlock what c.spanAhead

end Cursor

namespace Production

/-- Rounds of a loop until one answers no: at most one for each token of the first list and one
more. -/
def rounds (round : Cursor → Outcome) : List Token → Cursor → Outcome
  | [], c =>
    (round c).andThen fun again c => .check (!again) .stalled true c
  | _ :: limit, c =>
    (round c).andThen fun again c => if again then rounds round limit c else .quiet true c

def run : Production → Cursor → Outcome
  | answer value, c => .quiet value c
  | look n among, c => c.look n among
  | glance n among, c => .quiet (among.has (c.kindAhead n)) c
  | demand among, c => (c.look 0 among).andThen fun found c => .check found .misplaced true c
  | impossible, c => .check false .impossible false c
  | take among, c => c.take among none
  | name, c => c.take .words (some .identifier)
  | pass, c => .quiet true c
  | settle, c => c.settle
  | within kind body, c => (body.run c).wrapped kind
  | into kind, c => { Outcome.quiet true c with pieces := [.opening kind] }
  | count _, c => .quiet true c
  | scope body, c => (body.run c).closed
  | wrap yes no first question rest, c =>
    let o := (first.run c).andThen fun _ c => (question.run c).andThen fun answer c =>
      if answer then (rest.run c).andThen fun _ c => .quiet true c else .quiet false c
    o.wrapped (if o.answer then yes else no)
  | seq first second, c => (first.run c).andThen fun _ c => second.run c
  | branch question yes no, c =>
    (question.run c).andThen fun answer c => if answer then yes.run c else no.run c
  | loop body, c => rounds body.run c.ahead c
  | missing kind message, c => c.missing kind message
  | skip complaint, c => c.skip complaint
  | block what body, c => c.block what body.run

def wrapped (first question rest : Production) : Production :=
  seq first (branch question (seq rest (answer true)) (answer false))

theorem run_wrap (yes no : NodeKind) (first question rest : Production) (c : Cursor) :
    (wrap yes no first question rest).run c =
      ((wrapped first question rest).run c).wrapped
        (if ((wrapped first question rest).run c).answer then yes else no) := rfl

/-- Induction on productions that reduces a `wrap` to what stands in its node. -/
@[elab_as_elim]
theorem wrapped_induction {motive : Production → Prop}
    (answer : ∀ value, motive (answer value))
    (look : ∀ n among, motive (look n among))
    (glance : ∀ n among, motive (glance n among))
    (demand : ∀ among, motive (demand among))
    (impossible : motive impossible)
    (take : ∀ among, motive (take among))
    (name : motive name)
    (pass : motive pass)
    (settle : motive settle)
    (within : ∀ kind body, motive body → motive (within kind body))
    (into : ∀ kind, motive (into kind))
    (count : ∀ opened, motive (count opened))
    (scope : ∀ body, motive body → motive (scope body))
    (wrap : ∀ yes no first question rest, motive (wrapped first question rest) →
      motive (wrap yes no first question rest))
    (seq : ∀ first second, motive first → motive second → motive (seq first second))
    (branch : ∀ question yes no, motive question → motive yes → motive no →
      motive (branch question yes no))
    (loop : ∀ body, motive body → motive (loop body))
    (missing : ∀ kind message, motive (missing kind message))
    (skip : ∀ complaint, motive (skip complaint))
    (block : ∀ what body, motive body → motive (block what body)) (x : Production) : motive x := by
  induction x with
  | wrap yes no first question rest first_ih question_ih rest_ih =>
    have going_on := seq rest _ rest_ih (answer true)
    exact wrap yes no first question rest
      (seq first _ first_ih (branch question _ _ question_ih going_on (answer false)))
  | _ => solve_by_elim

end Production

end CraftDsl
