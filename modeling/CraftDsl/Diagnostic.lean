import CraftDsl.Text.Escape
import CraftDsl.Kind

/-!
Diagnostics: where a problem is and what it is called. The tree decides whether a source has errors;
diagnostics only locate them.
-/
namespace CraftDsl

/-- Kinds of problems, the ones that explain the others first. -/
inductive DiagnosticKind
  | unterminatedString | unterminatedComment | invalidCharacter
  | unclosedBlock
  | expectedName | expectedSection | expectedComponent | expectedTrigger | expectedPhrase
  | expectedNewline | expectedToken
  | unexpectedToken
  deriving DecidableEq, Repr

namespace DiagnosticKind

def all : List DiagnosticKind :=
  [.unterminatedString, .unterminatedComment, .invalidCharacter, .unclosedBlock, .expectedName,
    .expectedSection, .expectedComponent, .expectedTrigger, .expectedPhrase, .expectedNewline,
    .expectedToken, .unexpectedToken]

def rank : DiagnosticKind → Nat
  | unterminatedString => 0
  | unterminatedComment => 1
  | invalidCharacter => 2
  | unclosedBlock => 3
  | expectedName => 4
  | expectedSection => 5
  | expectedComponent => 6
  | expectedTrigger => 7
  | expectedPhrase => 8
  | expectedNewline => 9
  | expectedToken => 10
  | unexpectedToken => 11

def label : DiagnosticKind → String
  | unterminatedString => "UnterminatedString"
  | unterminatedComment => "UnterminatedComment"
  | invalidCharacter => "InvalidCharacter"
  | unclosedBlock => "UnclosedBlock"
  | expectedName => "ExpectedName"
  | expectedSection => "ExpectedSection"
  | expectedComponent => "ExpectedComponent"
  | expectedTrigger => "ExpectedTrigger"
  | expectedPhrase => "ExpectedPhrase"
  | expectedNewline => "ExpectedNewline"
  | expectedToken => "ExpectedToken"
  | unexpectedToken => "UnexpectedToken"

/-- Problems of a single token, whatever its place. -/
def isLexical : DiagnosticKind → Bool
  | unterminatedString | unterminatedComment | invalidCharacter => true
  | _ => false

def defaultMessage : DiagnosticKind → String
  | unterminatedString => "unterminated string"
  | unterminatedComment => "unterminated block comment"
  | invalidCharacter => "invalid character"
  | unclosedBlock => "unclosed block"
  | expectedName => "expected a name"
  | expectedSection => "expected `presentation:` or `gateway:`"
  | expectedComponent => "expected a component"
  | expectedTrigger => "expected a trigger"
  | expectedPhrase => "expected a phrase"
  | expectedNewline => "expected end of line"
  | expectedToken => "expected token"
  | unexpectedToken => "unexpected token"

end DiagnosticKind

structure Note where
  span : Span
  message : String
  deriving DecidableEq, Repr

structure Diagnostic where
  kind : DiagnosticKind
  span : Span
  message : String
  notes : List Note
  deriving DecidableEq, Repr

namespace Diagnostic

def ofKind (kind : DiagnosticKind) (span : Span) : Diagnostic :=
  ⟨kind, span, kind.defaultMessage, []⟩

def le (a b : Diagnostic) : Bool :=
  a.span.start < b.span.start || (a.span.start = b.span.start && a.kind.rank ≤ b.kind.rank)

/-- By position; reports of one kind at one place stay in the order they came in. -/
def sort (reports : List Diagnostic) : List Diagnostic := reports.mergeSort le

def lexicalCount (reports : List Diagnostic) : Nat :=
  (reports.filter fun report => report.kind.isLexical).length

def ofToken? (span : Span) (token : Token) : Option Diagnostic :=
  match token.kind with
  | .unterminatedString => some (ofKind .unterminatedString span)
  | .unterminatedComment => some (ofKind .unterminatedComment span)
  | .garbage =>
    let excerpt := String.ofList (escapeExcerpt token.text)
    some ⟨.invalidCharacter, span, "invalid character `" ++ excerpt ++ "`", []⟩
  | _ => none

def lexical (tokens : List Token) : List Diagnostic :=
  (Token.locate 0 tokens).filterMap fun (span, token) => ofToken? span token

end Diagnostic

end CraftDsl
