import CraftDsl.Grammar.Rule

/-!
Validity of grammars: there are rules, their names differ, every symbol names a rule, and every
sequence and choice has members.
-/
namespace CraftDsl

inductive GrammarError
  | noRules (grammar : String)
  | duplicateRule (rule : String)
  | undefinedSymbol (rule symbol : String)
  | emptySeq (rule : String)
  | emptyChoice (rule : String)
  deriving DecidableEq, Repr

def GrammarError.message : GrammarError → String
  | noRules grammar => "grammar `" ++ grammar ++ "` has no rules"
  | duplicateRule rule => "rule `" ++ rule ++ "` is defined more than once"
  | undefinedSymbol rule symbol =>
    "rule `" ++ rule ++ "` references undefined symbol `" ++ symbol ++ "`"
  | emptySeq rule => "rule `" ++ rule ++ "` contains an empty seq"
  | emptyChoice rule => "rule `" ++ rule ++ "` contains an empty choice"

def GrammarError.report (e : GrammarError) : String := "invalid grammar: " ++ e.message

namespace Grammar

def firstRepeated (seen : List String) : List String → Option String
  | [] => none
  | name :: names => if seen.contains name then some name else firstRepeated (name :: seen) names

/-- What is wrong with one position of the rule `owner`, the rules inside it aside. -/
def flaw? (defined : List String) (owner : String) : Rule → Option GrammarError
  | .symbol name => if defined.contains name then none else some (.undefinedSymbol owner name)
  | .seq [] => some (.emptySeq owner)
  | .choice [] => some (.emptyChoice owner)
  | _ => none

def ownedPositions (g : Grammar) : List (String × Rule) :=
  (g.rules ++ g.extras.map fun rule => ("extras", rule)).flatMap fun (owner, rule) =>
    rule.positions.map fun position => (owner, position)

def error? (g : Grammar) : Option GrammarError :=
  let names := g.rules.map Prod.fst
  if g.rules.isEmpty then some (.noRules g.name)
  else
    match firstRepeated [] names with
    | some name => some (.duplicateRule name)
    | none => g.ownedPositions.findSome? fun (owner, position) => flaw? names owner position

def validate (g : Grammar) : Except GrammarError Unit :=
  match g.error? with
  | some e => .error e
  | none => .ok ()

end Grammar

end CraftDsl
