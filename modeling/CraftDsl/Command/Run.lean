import CraftDsl.Command.Arguments
import CraftDsl.Diagnostic
import CraftDsl.Language.Rules
import CraftDsl.Node.Outline
import CraftDsl.Text.Escape
import CraftDsl.Text.Position
import CraftDsl.Token.Lexer
import CraftDsl.Tree.Dump

/-!
What commands read and print and how they exit: files by path, listings of tokens and diagnostics, and
the run of a command.
-/
namespace CraftDsl

inductive ReadError
  | missing
  | isFolder
  | notFolder
  | other (reason : String)
  deriving DecidableEq, Repr

def ReadError.message : ReadError → String
  | missing => "No such file or directory (os error 2)"
  | isFolder => "Is a directory (os error 21)"
  | notFolder => "Not a directory (os error 20)"
  | other reason => reason

/-- Files by the names on the way to them. A folder in between is there if a file below it is. -/
structure Folder where
  files : List (List (List Char) × List UInt8)

namespace Folder

def names (path : String) : List (List Char) := path.toList.splitOnP fun c => c = '/'

def ofFiles (files : List (String × List UInt8)) : Folder :=
  ⟨files.map fun (path, bytes) => (names path, bytes)⟩

def hasFolder (folder : Folder) (place : List (List Char)) : Bool :=
  folder.files.any fun (file, _) => place.isPrefixOf file && place.length < file.length

/-- Follows names from a place, which is `none` outside of the folder. -/
def follow (folder : Folder) : Option (List (List Char)) → List (List Char) →
    Except ReadError (List UInt8)
  | _, [] => .error .isFolder
  | place, [] :: rest => folder.follow place rest
  | place, ['.'] :: rest => folder.follow place rest
  | none, ['.', '.'] :: rest => folder.follow none rest
  | some [], ['.', '.'] :: rest => folder.follow none rest
  | some place, ['.', '.'] :: rest => folder.follow (some place.dropLast) rest
  | none, _ :: _ => .error .missing
  | some place, name :: rest =>
    let next := place ++ [name]
    match folder.files.lookup next with
    | some bytes => if rest.isEmpty then .ok bytes else .error .notFolder
    | none => if folder.hasFolder next then folder.follow (some next) rest else .error .missing

def read (folder : Folder) (path : String) : Except ReadError (List UInt8) :=
  match path.toList with
  | [] => .error .missing
  | '/' :: _ => folder.follow none (names path)
  | _ => folder.follow (some []) (names path)

end Folder

def tokenLine (span : Span) (t : Token) : List Char :=
  decimal span.start ++ "..".toList ++ decimal span.stop ++ ' ' :: t.kind.label.toList ++
    ' ' :: quoteText t.text ++ ['\n']

def tokenListing (all : Bool) (source : List Char) : List Char :=
  (locatedTokens all source).flatMap fun (span, t) => tokenLine span t

namespace Diagnostic

def placeLine (label : String) (source : List Char) (span : Span) (message : String) : List Char :=
  let place := (positionAt? source span.start).getD .first
  label.toList ++ ':' :: decimal place.line ++ ':' :: decimal place.column ++ ": ".toList ++
    message.toList ++ ['\n']

def lines (label : String) (source : List Char) (d : Diagnostic) : List Char :=
  placeLine label source d.span d.message ++
    d.notes.flatMap fun note => placeLine label source note.span ("note: " ++ note.message)

def listing (label : String) (source : List Char) (reports : List Diagnostic) : List Char :=
  (sort reports).flatMap (lines label source)

end Diagnostic

structure CommandResult where
  exitCode : Nat
  stdout : List Char
  stderr : List Char

namespace Input

def load (read : String → Except ReadError (List UInt8)) (piped : List UInt8) :
    Input → Except ReadError (List Char)
  | path name => (read name).map decodeBytes
  | standardInput => .ok (decodeBytes piped)
  | text content => .ok content.toList

def readName : Input → String
  | path name => name
  | standardInput => "stdin"
  | text _ => ""

end Input

def Tree.listing (view : TreeView) (t : Tree) : List Char :=
  if view.raw then t.dump ⟨view.trivia, view.spans⟩ else t.render view.spans

namespace Command

def input? : Command → Option Input
  | tree input _ | check input | tokens input _ => some input
  | _ => none

def printed (text : List Char) : CommandResult := ⟨0, text, []⟩

def printedLine (text : String) : CommandResult := printed (text.toList ++ ['\n'])

def showTree (label : String) (view : TreeView) (source : List Char) : CommandResult :=
  let p := parse source
  ⟨0, p.tree.listing view, Diagnostic.listing label source p.diagnostics⟩

def checkSource (label : String) (source : List Char) : CommandResult :=
  let p := parse source
  if p.hasErrors || !p.diagnostics.isEmpty then
    ⟨1, [], Diagnostic.listing label source p.diagnostics⟩
  else ⟨0, [], []⟩

def withSource (load : Input → Except ReadError (List Char)) (input : Input)
    (answer : List Char → CommandResult) : CommandResult :=
  match load input with
  | .ok source => answer source
  | .error e =>
    ⟨1, [], ("error: failed to read " ++ input.readName ++ ": " ++ e.message ++ "\n").toList⟩

/-- Trees and diagnostics of one source do not hold each other up: a tree is shown also where a source
has errors. -/
def run (load : Input → Except ReadError (List Char)) : Command → CommandResult
  | tree input view => withSource load input (showTree input.label view)
  | check input => withSource load input (checkSource input.label)
  | tokens input all => withSource load input fun source => printed (tokenListing all source)
  | nodeTypes compact =>
    let manifest := Manifest.toJson Language.nodeTypes
    printedLine (if compact then manifest.compactText else manifest.prettyText)
  | grammar => printedLine Language.grammar.toJson.prettyText
  | info => printedLine Language.metadata.toJson.prettyText

def misused : CommandResult :=
  ⟨2, [], ("usage: craft (ast | check | tokens) (FILE | -s TEXT)\n" ++
    "       craft (node-types | grammar | info)\n").toList⟩

end Command

def runArguments (load : Input → Except ReadError (List Char)) (arguments : List String) :
    CommandResult :=
  match Command.ofArguments? arguments with
  | some command => command.run load
  | none => Command.misused

end CraftDsl
