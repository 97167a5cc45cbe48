/-!
Commands, and how they are read from arguments. The first argument names the command; the others give
it a source and flags, in any order. An argument that does not fit makes all of them misused.
-/
namespace CraftDsl

inductive Input
  | path (path : String)
  | standardInput
  | text (text : String)
  deriving DecidableEq, Repr

structure TreeView where
  raw : Bool
  trivia : Bool
  spans : Bool
  deriving DecidableEq, Repr

inductive Command
  /-- Show the tree of a source. -/
  | tree (input : Input) (view : TreeView)
  /-- Report what is wrong with a source. -/
  | check (input : Input)
  /-- List the tokens of a source. -/
  | tokens (input : Input) (all : Bool)
  /-- Print the node types of the language. -/
  | nodeTypes (compact : Bool)
  /-- Print the rules of the language. -/
  | grammar
  /-- Print a summary of the language. -/
  | info
  deriving DecidableEq, Repr

namespace Input

/-- A path of one dash stands for standard input. -/
def ofPath (path : String) : Input := if path = "-" then standardInput else .path path

def label : Input → String
  | path name => name
  | standardInput => "<stdin>"
  | text _ => "<source>"

end Input

/-- One argument by itself. A source may have its text attached. -/
inductive Argument
  | operand (text : String)
  | source (attached : Option String)
  | flag (name : String)
  | endOfOptions
  | unknown
  deriving DecidableEq, Repr

namespace Argument

def ofLong (option : List Char) : Argument :=
  let name := String.ofList (option.takeWhile fun c => c ≠ '=')
  match option.dropWhile fun c => c ≠ '=' with
  | [] => if name = "source" then source none else flag name
  | _ :: attached => if name = "source" then source (some (String.ofList attached)) else unknown

/-- The only short option is the source; an equals sign before its text does not belong to it. -/
def ofShort : List Char → Argument
  | ['s'] => source none
  | 's' :: '=' :: attached => source (some (String.ofList attached))
  | 's' :: attached => source (some (String.ofList attached))
  | _ => unknown

def ofText (text : String) : Argument :=
  match text.toList with
  | ['-', '-'] => endOfOptions
  | '-' :: '-' :: option => ofLong option
  | '-' :: c :: cs => ofShort (c :: cs)
  | _ => operand text

end Argument

structure Settings where
  files : List String
  sources : List String
  flags : List String
  deriving DecidableEq, Repr

namespace Settings

/-- A source without its text attached takes the next argument, which has to be an operand. After the
end of options all arguments are operands. -/
def ofArguments? : List String → Option Settings
  | [] => some ⟨[], [], []⟩
  | argument :: rest =>
    match Argument.ofText argument with
    | .operand file => (ofArguments? rest).map fun s => { s with files := file :: s.files }
    | .source (some text) => (ofArguments? rest).map fun s => { s with sources := text :: s.sources }
    | .source none =>
      match rest with
      | text :: others =>
        if Argument.ofText text = .operand text then
          (ofArguments? others).map fun s => { s with sources := text :: s.sources }
        else none
      | [] => none
    | .flag name => (ofArguments? rest).map fun s => { s with flags := name :: s.flags }
    | .endOfOptions => some ⟨rest, [], []⟩
    | .unknown => none

def has (s : Settings) (flag : String) : Bool := s.flags.contains flag

def flagsWithin (s : Settings) (known : List String) : Bool :=
  s.flags.all known.contains && s.flags.eraseDups = s.flags

def input? (s : Settings) : Option Input :=
  match s.files, s.sources with
  | [file], [] => if file = "" then none else some (.ofPath file)
  | [], [text] => some (.text text)
  | _, _ => none

def hasNoInput (s : Settings) : Bool := s.files.isEmpty && s.sources.isEmpty

end Settings

namespace Command

def ofSettings? (name : String) (s : Settings) : Option Command :=
  match name with
  | "ast" =>
    if s.flagsWithin ["raw", "trivia", "spans"] && (s.has "raw" || !s.has "trivia") then
      s.input?.map fun input => .tree input ⟨s.has "raw", s.has "trivia", s.has "spans"⟩
    else none
  | "check" => if s.flagsWithin [] then s.input?.map .check else none
  | "tokens" =>
    if s.flagsWithin ["all"] then s.input?.map fun input => .tokens input (s.has "all") else none
  | "node-types" =>
    if s.flagsWithin ["compact"] && s.hasNoInput then some (.nodeTypes (s.has "compact")) else none
  | "grammar" => if s.flagsWithin [] && s.hasNoInput then some .grammar else none
  | "info" => if s.flagsWithin [] && s.hasNoInput then some .info else none
  | _ => none

/-- The command that the arguments give; `none` if they are misused. -/
def ofArguments? : List String → Option Command
  | [] => none
  | name :: arguments => (Settings.ofArguments? arguments).bind (ofSettings? name)

end Command

end CraftDsl
