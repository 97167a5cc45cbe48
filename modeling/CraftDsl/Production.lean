import CraftDsl.Diagnostic
import CraftDsl.KindSet

/-!
Productions: the parser as data. A production looks at the tokens ahead, takes tokens into the tree
and reports problems; it never fails. A property that every step keeps holds of the whole parser by
one induction.

Blanks and comments are passed over by a look and kept aside. They go into the tree when the next
token, node or error is put there, so they belong to the node that encloses it.
-/
namespace CraftDsl

/-- A check that would stop a parse. Parsing a source fails none. -/
inductive Fault
  /-- A token was to be taken after the last one. -/
  | pastEnd
  /-- The next token is none of those that a production may stand at. -/
  | misplaced
  /-- A branch that no token leads to. -/
  | impossible
  /-- Too many looks without taking a token. -/
  | stuck
  /-- A loop that goes on without taking a token. -/
  | stalled
  /-- A node was to be closed and none was open. -/
  | unopened
  /-- A node was to be opened around trees that an outer or a closed node holds. -/
  | misjudged
  /-- At the end of the parse a node is open, or there is not one root. -/
  | unfinished
  deriving DecidableEq, Repr

/-- What a report says about unexpected tokens, which may quote the first of them. -/
inductive Complaint
  | plain (message : String)
  | quoting (lead : String)

def Complaint.message : Complaint → List Char → String
  | plain message, _ => message
  | quoting lead, text => lead ++ "`" ++ String.ofList (escapeExcerpt text) ++ "`"

inductive Production
  /-- Answers and does nothing else. -/
  | answer (value : Bool)
  /-- Answers whether the `n`-th token ahead is in the set; past the last one it is the end of input. -/
  | look (n : Nat) (among : KindSet)
  /-- Answers the same about a token that has been looked at before, without another look. -/
  | glance (n : Nat) (among : KindSet)
  /-- Looks at the next token, which is in the set. -/
  | demand (among : KindSet)
  /-- A branch that no token leads to. -/
  | impossible
  /-- Takes the next token, which is in the set. -/
  | take (among : KindSet)
  /-- Takes the next token, a word, as an identifier. -/
  | name
  /-- Keeps the blanks and comments ahead aside. -/
  | pass
  /-- Puts what was kept aside into the open node. -/
  | settle
  /-- A node around what its body adds. -/
  | within (kind : NodeKind) (body : Production)
  /-- Opens a node, which closes where its scope ends. -/
  | into (kind : NodeKind)
  /-- Counts nodes that were opened for the scope. -/
  | count (opened : Nat)
  /-- Closes as many nodes as its body counted. -/
  | scope (body : Production)
  /-- A node around `first` and, if `question` is answered yes after it, around `rest`, of the first
  kind then and of the second otherwise. It is opened once the answer is known. -/
  | wrap (yes no : NodeKind) (first question rest : Production)
  | seq (first second : Production)
  | branch (question yes no : Production)
  /-- Repeats its body for as long as it answers yes. -/
  | loop (body : Production)
  /-- Reports that something is absent here and leaves an empty error node. Answers no. -/
  | missing (kind : DiagnosticKind) (message : String)
  /-- Reports the tokens from here to the end of the line or of the enclosing block as unexpected, and
  puts them into an error node. Braces opened among them are passed over with what they enclose. -/
  | skip (complaint : Complaint)
  /-- An opening brace, the body, and the closing brace, whose absence is reported with the place of
  the opening one. -/
  | block (what : String) (body : Production)

namespace Production

def steps : List Production → Production
  | [] => answer true
  | [last] => last
  | first :: rest => seq first (steps rest)

def atKind (kind : TokenKind) : Production := look 0 (.single kind)

def atKeyword (word : Keyword) : Production := atKind (.keyword word)

def atWord : Production := look 0 .words

def onAny (among : KindSet) : Production := glance 0 among

def onKind (kind : TokenKind) : Production := onAny (.single kind)

def onKeyword (word : Keyword) : Production := onKind (.keyword word)

def takeKind (kind : TokenKind) : Production := take (.single kind)

def takeKeyword (word : Keyword) : Production := takeKind (.keyword word)

def takeWord : Production := seq (demand .words) name

def onlyIf (question body : Production) : Production := branch question body (answer false)

def optionally (question body : Production) : Production :=
  branch question (seq body (answer true)) (answer true)

def eat (kind : TokenKind) : Production := onlyIf (atKind kind) (takeKind kind)

def newlines : Production := loop (eat .newline)

def expect (kind : TokenKind) (what : String) : Production :=
  branch (atKind kind) (takeKind kind) (missing .expectedToken ("expected " ++ what))

def expectWord (what : String) : Production :=
  branch atWord takeWord (missing .expectedName ("expected " ++ what))

/-- Opens a node; the blanks and comments kept aside stay before it. -/
def start (kind : NodeKind) : Production := seq settle (into kind)

def node (kind : NodeKind) (body : Production) : Production := seq settle (within kind body)

def expectNameNode (kind : NodeKind) (what : String) : Production :=
  branch atWord (node kind takeWord) (missing .expectedName ("expected " ++ what))

def finishLine (what : String) : Production :=
  branch (look 0 .lineEnd) (answer true) (skip (.plain ("unexpected token after " ++ what)))

/-- What `finishItem` does once the next token has been looked at. -/
def itemRest (what : String) (itemFirst : KindSet) : Production :=
  branch (look 0 .lineEnd) (answer true) <|
  branch (onAny itemFirst) (answer true) <|
  skip (.plain ("unexpected token after " ++ what))

def finishItem (what : String) (itemFirst : KindSet) : Production :=
  seq (look 0 itemFirst) (itemRest what itemFirst)

def lineOr (rest : Production) : Production := branch (atKind .newline) (takeKind .newline) rest

def blockItem (what : String) (itemFirst : KindSet) (item : Production) : Production :=
  branch (onAny (.ofList [TokenKind.braceClose, TokenKind.endOfInput])) (answer false) <|
  branch (onAny itemFirst) (seq item (answer true)) <|
  skip (.plain ("unexpected token in " ++ what))

def blockLines (what : String) (itemFirst : KindSet) (item : Production) : Production :=
  loop (lineOr (blockItem what itemFirst item))

def braced (what : String) (body after : Production) : Production :=
  seq pass <|
    branch (atKind .braceOpen) (seq (block what body) after)
      (missing .expectedToken ("expected `\x7b` to open " ++ what))

/-- A block of items, each of which begins with one of `itemFirst`. -/
def bracedItems (what : String) (itemFirst : KindSet) (item after : Production) : Production :=
  braced what (blockLines what itemFirst item) after

def connectorWord : Production := node .connectorWord (take .connectors)

def phraseRound : Production :=
  onlyIf (look 0 .phraseFirst) <|
    branch (atKind .string) (takeKind .string) <|
    branch (onAny .connectors) connectorWord takeWord

def phrase : Production := node .phrase (loop phraseRound)

def joins : Production := onlyIf (look 0 .connectors) (look 1 .phraseFirst)

def connectorAndPhrase (absent : Production) : Production :=
  seq (optionally joins connectorWord) (branch (look 0 .phraseFirst) phrase absent)

def requiredPhrase : Production :=
  connectorAndPhrase (missing .expectedPhrase "expected a phrase")

def optionalPhrase : Production := connectorAndPhrase (answer true)

def identifierList (what : String) : Production :=
  branch atWord
    (node .identifierList (seq takeWord (loop (onlyIf (eat .comma) (onlyIf atWord takeWord)))))
    (missing .expectedName ("expected " ++ what))

def property (kind : NodeKind) (word : Keyword) (value : Production) : Production :=
  seq (demand (.single (TokenKind.keyword word))) <|
    node kind (seq (takeKeyword word) (onlyIf (expect .colon "`:` after property name") value))

def expectEvent : Production :=
  branch (atKind .string) (takeKind .string)
    (missing .expectedToken "expected the event name as a string")

end Production

end CraftDsl
