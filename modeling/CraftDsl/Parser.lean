import CraftDsl.Production.Outcome
import CraftDsl.Tree

/-!
The parser that runs: productions carried out step by step on the tokens, with the tree under
construction beside them. Every check that would stop a parse leaves a fault.
-/
namespace CraftDsl

/-- A parse under way. The blanks and comments kept aside come before the tokens ahead; the offset
counts the bytes that are in the tree. Reports and faults stand newest first. -/
structure Parser where
  aside : List Token
  ahead : List Token
  offset : Nat
  builder : Builder
  opened : Nat
  looks : Nat
  reported : Option Nat
  reports : List Diagnostic
  faults : List Fault

namespace Parser

def start (tokens : List Token) : Parser := ⟨[], tokens, 0, .empty, 0, 0, none, [], []⟩

def check (p : Parser) (holds : Bool) (fault : Fault) : Parser :=
  { p with faults := if holds then p.faults else fault :: p.faults }

def build (p : Parser) (built : Option Builder) (fault : Fault) : Parser :=
  match built with
  | some builder => { p with builder }
  | none => p.check false fault

def pass (p : Parser) : Parser :=
  { p with
    aside := p.aside ++ p.ahead.takeWhile Token.isTrivia
    ahead := p.ahead.dropWhile Token.isTrivia }

def settle (p : Parser) : Parser :=
  { p with
    aside := []
    offset := p.offset + widthOf p.aside
    builder := p.builder.pushTokens p.aside }

/-- A look at the next token keeps what comes before it aside; a look further ahead does not. -/
def look (p : Parser) (n : Nat) (among : KindSet) : Bool × Parser :=
  let p := if n = 0 then p.pass else p
  let p := p.check (p.looks < lookLimit) .stuck
  (among.has (kindIn n p.ahead), { p with looks := p.looks + 1 })

def trace (p : Parser) : Parser := (p.look 0 .empty).2

def span (p : Parser) : Span × Parser :=
  let p := p.pass
  let start := p.offset + widthOf p.aside
  (⟨start, start + widthOf (p.ahead.take 1)⟩, p)

def take (p : Parser) (among : KindSet) (retag : Option TokenKind) : Parser :=
  let p := p.pass
  match p.ahead with
  | [] => p.settle.check false .pastEnd
  | token :: ahead =>
    let p := ({ p with looks := 0 }.settle).check (among.has token.kind) .misplaced
    { p with
      ahead
      offset := p.offset + token.width
      builder := p.builder.push (.leaf ⟨retag.getD token.kind, token.text⟩) }

def startNode (p : Parser) (kind : NodeKind) : Parser :=
  let p := p.settle
  { p with builder := p.builder.startNode kind }

def finishNode (p : Parser) : Parser := p.build p.builder.finishNode? .unopened

def finishNodes (p : Parser) : Nat → Parser
  | 0 => p
  | count + 1 => p.finishNode.finishNodes count

/-- Reports at the place of the next token, unless the latest report was made there. -/
def report (p : Parser) (diagnostic : Span → Diagnostic) : Parser :=
  let (place, p) := p.span
  if p.reported = some place.start then p
  else { p with reported := some place.start, reports := diagnostic place :: p.reports }

def gap (p : Parser) : Parser := (p.startNode .error).finishNode

def missing (p : Parser) (kind : DiagnosticKind) (message : String) : Parser :=
  (p.trace.report fun place => ⟨kind, place, message, []⟩).gap

/-- Takes tokens until a skipped stretch stops. The list is what is ahead, or what follows blanks and
comments there. -/
def discard (depth : Nat) (first : Bool) : List Token → Parser → Parser
  | [], p => (p.look 0 .empty).2
  | token :: tokens, p =>
    if token.isTrivia then discard depth first tokens p
    else
      let p := (p.look 0 .empty).2
      if stopsAt depth first token.kind then p
      else discard (depthAfter depth token.kind) false tokens (p.take (.single token.kind) none)

def skip (p : Parser) (complaint : Complaint) : Parser :=
  let (atEnd, p) := p.look 0 (.single TokenKind.endOfInput)
  if atEnd then p
  else
    let message := complaint.message ((p.ahead.take 1).flatMap Token.text)
    let p := (p.trace.report fun place => ⟨.unexpectedToken, place, message, []⟩).startNode .error
    (discard 0 true p.ahead p).finishNode

def unclosed (p : Parser) (what : String) (brace : Span) : Parser :=
  let p := p.check (kindIn 0 p.ahead = .endOfInput) .misplaced
  (p.report fun place =>
    ⟨.unclosedBlock, ⟨brace.start, place.stop⟩, "unclosed " ++ what,
      [⟨brace, "block opened here"⟩]⟩).gap

def closeBlock (p : Parser) (what : String) (brace : Span) : Bool × Parser :=
  if kindIn 0 p.ahead = .braceClose then (true, p.take (.single TokenKind.braceClose) none)
  else (false, p.unclosed what brace)

end Parser

namespace Production

/-- Rounds of a loop until one answers no: at most one for each token of the list and one more. -/
def repeated (round : Parser → Bool × Parser) : List Token → Parser → Parser
  | [], p =>
    let (again, p) := round p
    p.check (!again) .stalled
  | _ :: limit, p =>
    let (again, p) := round p
    if again then repeated round limit p else p

def exec : Production → Parser → Bool × Parser
  | answer value, p => (value, p)
  | look n among, p => p.look n among
  | glance n among, p => (among.has (kindIn n p.ahead), p)
  | demand among, p =>
    let (found, p) := p.look 0 among
    (true, p.check found .misplaced)
  | impossible, p => (false, p.check false .impossible)
  | take among, p => (true, p.take among none)
  | name, p => (true, p.take .words (some .identifier))
  | pass, p => (true, p.pass)
  | settle, p => (true, p.settle)
  | within kind body, p =>
    let (reply, p) := body.exec (p.startNode kind)
    (reply, p.finishNode)
  | into kind, p => (true, p.startNode kind)
  | count opened, p => (true, { p with opened := p.opened + opened })
  | scope body, p =>
    let (reply, q) := body.exec { p with opened := 0 }
    (reply, { q.finishNodes q.opened with opened := p.opened })
  | wrap yes no first question rest, p =>
    let p := p.settle
    let checkpoint := p.builder.checkpoint
    let (_, p) := first.exec p
    let (reply, p) := question.exec p
    let kind := if reply then yes else no
    let p := p.build (p.builder.startNodeAt? checkpoint kind) .misjudged
    let p := if reply then (rest.exec p).2 else p
    (reply, p.finishNode)
  | seq first second, p => second.exec (first.exec p).2
  | branch question yes no, p =>
    let (reply, p) := question.exec p
    if reply then yes.exec p else no.exec p
  | loop body, p => (true, repeated body.exec (p.aside ++ p.ahead) p)
  | missing kind message, p => (false, p.missing kind message)
  | skip complaint, p => (true, p.skip complaint)
  | block what body, p =>
    let (brace, p) := p.span
    let (_, p) := body.exec (p.take (.single TokenKind.braceOpen) none)
    p.closeBlock what brace

theorem exec_yes {question yes no : Production} {p : Parser} (answer : (question.exec p).1 = true) :
    (branch question yes no).exec p = yes.exec (question.exec p).2 := if_pos answer

theorem exec_no {question yes no : Production} {p : Parser} (answer : (question.exec p).1 = false) :
    (branch question yes no).exec p = no.exec (question.exec p).2 :=
  if_neg (Bool.eq_false_iff.mp answer)

theorem exec_wrap (yes no : NodeKind) (first question rest : Production) (p : Parser) :
    (wrap yes no first question rest).exec p =
      let reply := question.exec (first.exec p.settle).2
      let opened := reply.2.build
        (reply.2.builder.startNodeAt? p.settle.builder.checkpoint (if reply.1 then yes else no))
        .misjudged
      (reply.1, (if reply.1 then (rest.exec opened).2 else opened).finishNode) := rfl

end Production

end CraftDsl
