import CraftDsl.Tree.Selection

/-!
Use cases: scenarios that start with a trigger and go on with actions. In a tree the actions right
after the trigger stand in the clause of the trigger. Each later one, and the next scenario, hangs off
what comes before it.
-/
namespace CraftDsl

inductive Trigger
  | external (actor verb connector : Option Word) (phrase : Option Phrase)
  | event (name : Option Word)
  | listener (domain event : Option Word)
  | cron (schedule : Option Phrase)
  deriving DecidableEq, Repr

inductive Action
  | sync (subject target connector : Option Word) (phrase : Option Phrase)
  | async (subject event : Option Word) (phrase : Option Phrase)
  | internal (subject verb connector : Option Word) (phrase : Option Phrase)
  | returns (subject target connector : Option Word) (phrase : Option Phrase)
  deriving DecidableEq, Repr

structure Scenario where
  trigger : Option Trigger
  actions : List Action
  deriving DecidableEq, Repr

structure UseCase where
  name : Option Word
  scenarios : List Scenario
  deriving DecidableEq, Repr

namespace Trigger

def isNode (kind : Kind) : Bool :=
  [NodeKind.externalTrigger, .eventTrigger, .domainListener, .cronTrigger].any fun k => kind = .node k

def ofTree? (t : Tree) : Option Trigger :=
  match t.kind with
  | .node .externalTrigger =>
    some (.external (t.identifierIn? .triggerActor) (t.identifierIn? .triggerVerb) (connector? t)
      (Phrase.under? t))
  | .node .eventTrigger => some (.event (t.word? .string))
  | .node .domainListener => some (.listener t.identifier? (t.word? .string))
  | .node .cronTrigger => some (.cron (Phrase.under? t))
  | _ => none

end Trigger

namespace Action

def isNode (kind : Kind) : Bool :=
  [NodeKind.syncAction, .asyncAction, .internalAction, .returnAction].any fun k => kind = .node k

def ofTree? (t : Tree) : Option Action :=
  let subject := t.identifierIn? .actionSubject
  let target := t.identifierIn? .actionTarget
  match t.kind with
  | .node .syncAction => some (.sync subject target (connector? t) (Phrase.under? t))
  | .node .asyncAction => some (.async subject (t.word? .string) (Phrase.under? t))
  | .node .internalAction =>
    some (.internal subject (t.identifierIn? .actionVerb) (connector? t) (Phrase.under? t))
  | .node .returnAction => some (.returns subject target (connector? t) (Phrase.under? t))
  | _ => none

end Action

namespace Scenario

def whenClause? (t : Tree) : Option Tree := t.part? .whenClause

def triggerNode? (clause : Tree) : Option Tree := clause.child? Trigger.isNode

def clauseActionNodes (clause : Tree) : List Tree :=
  clause.children.filter fun c => Action.isNode c.kind

def continuation? (t : Tree) : Option Tree := t.part? .scenarioContinuation

def scenarioNode? (continuation : Tree) : Option Tree := continuation.part? .scenario

def actionNode? (continuation : Tree) : Option Tree := continuation.child? Action.isNode

def continuations (t : Tree) : List Tree :=
  match continuation? t with
  | none => []
  | some first => first.chain .scenarioContinuation []

def actionNodes (t : Tree) : List Tree :=
  ((whenClause? t).map clauseActionNodes).getD [] ++ (continuations t).filterMap actionNode?

def ofTree (t : Tree) : Scenario where
  trigger := ((whenClause? t).bind triggerNode?).bind Trigger.ofTree?
  actions := (actionNodes t).filterMap Action.ofTree?

end Scenario

namespace UseCase

def scenarioNodes (t : Tree) : List Tree := t.subtrees.filter fun s => s.kind = .node .scenario

def ofTree (t : Tree) : UseCase := ⟨t.word? .string, (scenarioNodes t).map Scenario.ofTree⟩

end UseCase

end CraftDsl
