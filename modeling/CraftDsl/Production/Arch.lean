import CraftDsl.Production

/-!
Productions for architecture blocks: sections, component flows and modifiers. Everything after the
first component of a block hangs off its list through continuations, so the nodes of a block open one
inside the other, line by line, and close together at its end.
-/
namespace CraftDsl.Production

def modifierValue : Production :=
  branch (atKind .number) (takeKind .number) <|
  branch (onAny .booleans) (node .boolean (take .booleans)) <|
  branch (onAny .words) takeWord <|
  missing .expectedToken "expected a modifier value: identifier, number or boolean"

def modifier : Production :=
  node .modifier <|
    seq (expectNameNode .modifierKey "a modifier name") (optionally (eat .colon) modifierValue)

def modifierRound : Production :=
  onlyIf (eat .comma) (onlyIf atWord (seq modifier (answer true)))

def componentModifiers : Production :=
  node .componentModifiers <| steps
    [takeKind .bracketOpen,
      branch atWord (node .modifierList (seq modifier (loop modifierRound)))
        (missing .expectedName "expected a modifier"),
      expect .bracketClose "`]` to close modifiers"]

def componentWithModifiers : Production :=
  node .componentWithModifiers
    (seq (expectNameNode .componentName "a component name")
      (optionally (atKind .bracketOpen) componentModifiers))

def flowRound : Production :=
  onlyIf (eat .greater) <|
    branch atWord (seq componentWithModifiers (answer true))
      (missing .expectedComponent "expected a component after `>`")

def flowTail : Production := loop flowRound

def archComponent : Production :=
  branch atWord
    (seq settle
      (wrap .componentFlow .simpleComponent componentWithModifiers (atKind .greater) flowTail))
    (missing .expectedComponent "expected a component")

def startSection : Production :=
  branch (atKeyword .presentation) (start .presentationSection) <|
  branch (onKeyword .gateway) (start .gatewaySection) impossible

def archSectionHead : Production :=
  steps
    [startSection,
      take .archSectionFirst,
      expect .colon "`:` after section name",
      newlines,
      start .archComponentList,
      count 2]

/-- What the newlines after a component lead on to: a section, a further component, or nothing. -/
def archOnward : Production :=
  branch (look 0 .archSectionFirst) archSectionHead
    (onlyIf (onAny .words) (seq (start .archComponentList) (count 1)))

def archContinuation : Production :=
  steps [start .archContinuation, count 1, newlines, archOnward]

def lineRound : Production := seq archComponent (onlyIf (atKind .newline) archContinuation)

def archSections : Production := scope (seq archSectionHead (loop lineRound))

def archBody : Production :=
  branch (look 0 .archSectionFirst) archSections
    (missing .expectedSection "expected `presentation:` or `gateway:`")

def archBlock : Production :=
  node .archBlock <| steps
    [takeKeyword .arch,
      optionally atWord takeWord,
      braced "arch block" (steps [newlines, archBody, blockLines "arch block" .empty (answer true)])
        newlines]

end CraftDsl.Production
