import CraftDsl.Parser
import CraftDsl.Production.Arch
import CraftDsl.Production.Declarations
import CraftDsl.Production.UseCase
import CraftDsl.Token.Lexer

/-!
Parsing a source. Every source has a tree, with error nodes where it is not well formed, and its
leaves are the tokens of the source.
-/
namespace CraftDsl

namespace Production

def choose (choices : List (Keyword × Production)) : Production :=
  choices.foldr (fun choice others => branch (onKeyword choice.1) choice.2 others) impossible

def itemChoices (scenarios : Production) : List (Keyword × Production) :=
  [(.arch, archBlock), (.services, servicesBlock), (.service, serviceBlock), (.domain, domainBlock),
    (.domains, domainsBlock), (.actors, actorsBlock), (.actor, actorBlock), (.exposure, exposureBlock),
    (.useCase, useCaseBlockOf scenarios)]

def item : Production := choose (itemChoices scenarios)

def junk : Production := seq pass (skip (.quoting "expected a top-level item, found "))

/-- An item, which is read by `x`, or something unexpected in its place. -/
def itemOr (x : Production) : Production := branch (onAny .itemFirst) (seq x (answer true)) junk

def lapOf (rest : Production) : Production :=
  branch (atKind .endOfInput) (answer false) <| branch (onKind .newline) (takeKind .newline) rest

def lap : Production := lapOf (itemOr item)

def fileOf (lap : Production) : Production := within .sourceFile (steps [loop lap, pass, settle])

def sourceFile : Production := fileOf lap

end Production

structure Parse where
  source : List Char
  tree : Tree
  diagnostics : List Diagnostic
  faults : List Fault

def parse (source : List Char) : Parse :=
  let tokens := lex source
  let p := (Production.sourceFile.exec (.start tokens)).2.settle
  let root? := p.builder.root?
  { source
    tree := root?.getD (.node .sourceFile p.builder.waiting.toList)
    diagnostics := Diagnostic.lexical tokens ++ p.reports.reverse
    faults := (p.check root?.isSome .unfinished).faults.reverse }

def parseBytes (bytes : List UInt8) : Parse := parse (decodeBytes bytes)

namespace Parse

def hasErrors (p : Parse) : Bool := p.tree.hasError

end Parse

end CraftDsl
