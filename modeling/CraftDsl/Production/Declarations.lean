import CraftDsl.Production

/-!
Productions for declarations: domains, actors, exposures and services.
-/
namespace CraftDsl

namespace Production

def subdomains (what : String) (after : Production) : Production :=
  bracedItems what .words (node .subdomain takeWord) after

def domainBlock : Production :=
  node .domainBlock <| steps
    [takeKeyword .domain, expectWord "a domain name", subdomains "domain block" newlines]

def domainDefinition : Production :=
  node .domainDefinition (seq takeWord (subdomains "domain definition" (answer true)))

def domainsBlock : Production :=
  node .domainsBlock
    (seq (takeKeyword .domains) (bracedItems "domains block" .words domainDefinition newlines))

def actorType : Production :=
  branch (look 0 .actorTypes) (node .actorType (take .actorTypes))
    (missing .expectedToken "expected an actor type: `user`, `system` or `service`")

def actorTypeAndName : Production := seq actorType (expectNameNode .actorName "an actor name")

def actorBlock : Production :=
  node .actorBlock <| steps
    [takeKeyword .actor, actorTypeAndName, finishLine "actor declaration", newlines]

def actorDefinition : Production :=
  seq (node .actorDefinition actorTypeAndName) (finishItem "actor definition" .actorTypes)

def actorsBlock : Production :=
  node .actorsBlock
    (seq (takeKeyword .actors) (bracedItems "actors block" .actorTypes actorDefinition newlines))

def exposureProperty : Production :=
  seq
    (branch (atKeyword .wordTo) (property .toProperty .wordTo (identifierList "an actor name")) <|
    branch (onKeyword .through)
      (property .throughProperty .through (identifierList "a gateway name")) <|
    branch (onKeyword .wordOf)
      (property .ofProperty .wordOf (identifierList "a domain name")) impossible)
    (finishItem "exposure property" .exposurePropertyFirst)

def exposureBlock : Production :=
  node .exposureBlock <| steps
    [takeKeyword .exposure,
      expectWord "an exposure name",
      bracedItems "exposure block" .exposurePropertyFirst exposureProperty newlines]

def deploymentRule : Production :=
  branch (atKind .percentage)
    (node .deploymentRule
      (seq (takeKind .percentage)
        (onlyIf (expect .arrow "`->` after percentage") (expectWord "a deployment target"))))
    (missing .expectedToken "expected a deployment rule such as `10% -> canary`")

def furtherRule : Production := onlyIf (atKind .percentage) (seq deploymentRule (answer true))

def deploymentRules : Production :=
  node .deploymentRules <| steps
    [takeKind .parenOpen,
      deploymentRule,
      loop (onlyIf (eat .comma) furtherRule),
      expect .parenClose "`)` to close deployment rules"]

def deploymentType : Production :=
  branch (look 0 .deploymentTypes) (node .deploymentType (take .deploymentTypes))
    (missing .expectedToken "expected a deployment strategy: `canary`, `blue_green` or `rolling`")

/-- The node opens right after the colon before it, so blanks after the colon belong to it. -/
def deploymentSpec : Production :=
  within .deploymentSpec (seq deploymentType (optionally (atKind .parenOpen) deploymentRules))

def serviceProperty : Production :=
  seq
    (branch (atKeyword .domains)
      (property .domainsProperty .domains (identifierList "a domain name")) <|
    branch (onKeyword .language)
      (property .languageProperty .language (expectWord "a language name")) <|
    branch (onKeyword .dataStores)
      (property .dataStoresProperty .dataStores (identifierList "a data store name")) <|
    branch (onKeyword .deployment)
      (property .deploymentProperty .deployment deploymentSpec) impossible)
    (finishItem "service property" .servicePropertyFirst)

def serviceBody (what : String) (after : Production) : Production :=
  bracedItems what .servicePropertyFirst serviceProperty after

def serviceName : Production := branch (atKind .string) (takeKind .string) takeWord

def serviceDefinition : Production :=
  node .serviceDefinition (seq serviceName (serviceBody "service definition" (answer true)))

def servicesBlock : Production :=
  node .servicesBlock
    (seq (takeKeyword .services)
      (bracedItems "services block" (.words ∪ .single TokenKind.string) serviceDefinition newlines))

def serviceBlock : Production :=
  node .serviceBlock <| steps
    [takeKeyword .service, expectWord "a service name", serviceBody "service block" newlines]

end Production

end CraftDsl
