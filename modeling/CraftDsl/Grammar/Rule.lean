/-!
Grammar rules and the grammars they make up.
-/
namespace CraftDsl

inductive Associativity
  | none | left | right
  deriving DecidableEq, Repr

/-- Rule bodies. Precedence does not affect the shape of trees. -/
inductive Rule
  | blank
  | string (value : String)
  | pattern (value : String) (flags : Option String)
  | symbol (name : String)
  | seq (members : List Rule)
  | choice (members : List Rule)
  | repeat0 (content : Rule)
  | repeat1 (content : Rule)
  | field (name : String) (content : Rule)
  | prec (side : Associativity) (value : Int32) (content : Rule)
  deriving BEq

namespace Rule

def optional (content : Rule) : Rule := choice [content, blank]

/-- One or more times `rule` with separators between, and one at the end if wanted. -/
def separated (rule : Rule) (separator : String) : Rule :=
  seq [rule, repeat0 (seq [string separator, rule]), optional (string separator)]

def tag : Rule → String
  | blank => "BLANK"
  | string _ => "STRING"
  | pattern _ _ => "PATTERN"
  | symbol _ => "SYMBOL"
  | seq _ => "SEQ"
  | choice _ => "CHOICE"
  | repeat0 _ => "REPEAT"
  | repeat1 _ => "REPEAT1"
  | field _ _ => "FIELD"
  | prec .none _ _ => "PREC"
  | prec .left _ _ => "PREC_LEFT"
  | prec .right _ _ => "PREC_RIGHT"

def isHiddenName (name : String) : Bool := name.toList.head? = some '_'

mutual

def positions : Rule → List Rule
  | seq members => seq members :: positionsAll members
  | choice members => choice members :: positionsAll members
  | repeat0 content => repeat0 content :: content.positions
  | repeat1 content => repeat1 content :: content.positions
  | field name content => field name content :: content.positions
  | prec side value content => prec side value content :: content.positions
  | rule => [rule]

def positionsAll : List Rule → List Rule
  | [] => []
  | rule :: rules => rule.positions ++ positionsAll rules

end

def size (rule : Rule) : Nat := rule.positions.length

def symbol? : Rule → Option String
  | symbol name => some name
  | _ => Option.none

def fieldName? : Rule → Option String
  | field name _ => some name
  | _ => Option.none

def isTerminal (rule : Rule) : Bool := rule.positions.all fun r => r.symbol?.isNone

def bare : Rule → Rule
  | prec _ _ content => content.bare
  | rule => rule

end Rule

/-- Named rules in the order of their definition, of which the first is the entry, and what may stand
between any two tokens. -/
structure Grammar where
  name : String
  rules : List (String × Rule)
  extras : List Rule
  deriving BEq

/-- Adds `x` to a sorted list that has each element once. -/
def insertSorted {α : Type} (lt : α → α → Bool) (x : α) : List α → List α
  | [] => [x]
  | y :: ys =>
    if lt x y then x :: y :: ys
    else if lt y x then y :: insertSorted lt x ys
    else y :: ys

namespace Grammar

def rule? (g : Grammar) (name : String) : Option Rule := g.rules.lookup name

def entry? (g : Grammar) : Option String := g.rules.head?.map Prod.fst

def fieldNames (g : Grammar) : List String :=
  let names := g.rules.flatMap fun (_, rule) => rule.positions.filterMap Rule.fieldName?
  names.foldl (fun sorted name => insertSorted (fun a b => a < b) name sorted) []

def positionCount (g : Grammar) : Nat := g.rules.foldr (fun (_, rule) count => rule.size + count) 0

end Grammar

end CraftDsl
