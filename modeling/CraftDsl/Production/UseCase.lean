import CraftDsl.Production

/-!
Productions for use cases: scenarios, triggers and actions. A further scenario, and an action after a
blank line, hangs off the scenario before it through a continuation, so these nodes open one inside
the other and close together at the end of the use case.
-/
namespace CraftDsl.Production

def externalTrigger : Production :=
  node .externalTrigger <| steps
    [expectNameNode .triggerActor "an actor",
      expectNameNode .triggerVerb "a verb",
      optionalPhrase]

def domainListener : Production :=
  node .domainListener <| steps [takeWord, takeKeyword .listens, expectEvent]

def cronTrigger : Production :=
  node .cronTrigger (seq (takeKeyword .cron) (optionally (look 0 .phraseFirst) phrase))

def eventTrigger : Production := node .eventTrigger (takeKind .string)

/-- Two tokens, looked at once each, tell the triggers apart; a listener comes before all others. -/
def trigger : Production :=
  steps
    [look 0 .words,
      look 1 .words,
      branch (onlyIf (onAny .words) (glance 1 (.single (TokenKind.keyword .listens)))) domainListener <|
      branch (onKeyword .cron) cronTrigger <|
      branch (onlyIf (onAny .words) (glance 1 .words)) externalTrigger <|
      branch (onKind .string) eventTrigger <|
      missing .expectedTrigger <|
        "expected a trigger: `<actor> <verb> ...`, `<domain> listens \"event\"`, " ++
          "`CRON ...` or \"event\""]

def actionSubject : Production := expectNameNode .actionSubject "an action subject"

def syncAction : Production :=
  node .syncAction <| steps
    [actionSubject,
      takeKeyword .asks,
      expectNameNode .actionTarget "the service being asked",
      requiredPhrase]

def asyncAction : Production :=
  node .asyncAction <| steps [actionSubject, takeKeyword .notifies, expectEvent]

def internalAction : Production :=
  node .internalAction <| steps
    [actionSubject, expectNameNode .actionVerb "a verb", requiredPhrase]

/-- `to` has a target after it only if that is no connector word and the phrase goes on after it.
Otherwise it belongs to the phrase. -/
def aims : Production :=
  onlyIf (atKeyword .wordTo) (onlyIf (glance 1 .plainWords) (look 2 .phraseFirst))

def returnTarget : Production :=
  seq (look 1 .plainWords) <|
    optionally aims (seq (takeKeyword .wordTo) (expectNameNode .actionTarget "a return target"))

def returnAction : Production :=
  node .returnAction <| steps
    [actionSubject, takeKeyword .returns, returnTarget, requiredPhrase]

def action : Production :=
  branch (look 1 (.single (TokenKind.keyword .notifies))) asyncAction <|
  branch (glance 1 (.single (TokenKind.keyword .returns))) returnAction <|
  branch (glance 1 (.single (TokenKind.keyword .asks))) syncAction internalAction

def actionLine : Production := seq action (finishLine "action")

def clauseHead : Production := steps [takeKeyword .when, trigger, finishLine "trigger"]

def clauseRound : Production :=
  onlyIf atWord <|
    branch (atKeyword .when) (answer false) <|
      seq actionLine (eat .newline)

def clauseRest : Production := onlyIf (eat .newline) (loop clauseRound)

def whenClause : Production :=
  seq (demand (.single (TokenKind.keyword .when))) (node .whenClause (seq clauseHead clauseRest))

/-- Opens the continuation that comes next. Answers whether it holds an action, after which another
one may follow. -/
def scenarioContinuation : Production :=
  branch (atKeyword .when)
    (steps [start .scenarioContinuation, start .scenario, count 2, answer false]) <|
  onlyIf (atKind .newline) <| steps
    [start .scenarioContinuation,
      count 1,
      newlines,
      branch (atKeyword .when) (steps [start .scenario, count 1, answer false])
        (onlyIf (onAny .words) (seq actionLine (answer true)))]

def spineRound : Production := steps [whenClause, loop scenarioContinuation, onKeyword .when]

def spineBody : Production := steps [start .scenario, count 1, loop spineRound]

def scenarios : Production := scope spineBody

def useCaseName : Production :=
  branch (atKind .string) (takeKind .string)
    (missing .expectedName "expected a use case name as a string")

def scenariosIn (scenarios : Production) : Production :=
  branch (atKeyword .when) scenarios
    (missing .expectedTrigger "expected a scenario starting with `when`")

def useCaseBlockOf (scenarios : Production) : Production :=
  node .useCaseBlock <| steps
    [takeKeyword .useCase,
      useCaseName,
      braced "use case"
        (steps [newlines, scenariosIn scenarios, blockLines "use case" .empty (answer true)])
        newlines]

def useCaseBlock : Production := useCaseBlockOf scenarios

end CraftDsl.Production
