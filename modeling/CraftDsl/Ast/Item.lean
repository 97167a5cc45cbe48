import CraftDsl.Ast.Arch
import CraftDsl.Ast.UseCase
import CraftDsl.Parse
import CraftDsl.Tree.Selection

/-!
Top-level items of a source. Where a source is not well formed, what is missing is left out.
-/
namespace CraftDsl

structure DeploymentRule where
  percentage : Option Word
  target : Option Word
  deriving DecidableEq, Repr

structure Deployment where
  strategy : Option Word
  rules : List DeploymentRule
  deriving DecidableEq, Repr

inductive ServiceProperty
  | domains (names : List Word)
  | language (name : Option Word)
  | dataStores (names : List Word)
  | deployment (spec : Option Deployment)
  deriving DecidableEq, Repr

structure Service where
  name : Option Word
  properties : List ServiceProperty
  deriving DecidableEq, Repr

namespace DeploymentRule

def ofTree (t : Tree) : DeploymentRule := ⟨t.word? .percentage, t.identifier?⟩

end DeploymentRule

namespace Deployment

def ofTree (t : Tree) : Deployment where
  strategy := t.firstWordIn? .deploymentType
  rules :=
    ((t.parts .deploymentRules).flatMap fun list => list.parts .deploymentRule).map
      DeploymentRule.ofTree

end Deployment

namespace ServiceProperty

def ofTree? (t : Tree) : Option ServiceProperty :=
  match t.kind with
  | .node .domainsProperty => some (.domains t.identifiers)
  | .node .languageProperty => some (.language t.identifier?)
  | .node .dataStoresProperty => some (.dataStores t.identifiers)
  | .node .deploymentProperty =>
    some (.deployment ((t.part? .deploymentSpec).map Deployment.ofTree))
  | _ => none

end ServiceProperty

namespace Service

def propertiesOf (t : Tree) : List ServiceProperty := t.children.filterMap ServiceProperty.ofTree?

def ofBlock (t : Tree) : Service := ⟨t.identifier?, propertiesOf t⟩

def ofDefinition (t : Tree) : Service := ⟨t.wordOf? [.string, .identifier], propertiesOf t⟩

end Service

structure Domain where
  name : Option Word
  subdomains : List Word
  deriving DecidableEq, Repr

structure Actor where
  type : Option Word
  name : Option Word
  deriving DecidableEq, Repr

inductive ExposureRelation
  | to | through | of
  deriving DecidableEq, Repr

structure ExposureProperty where
  relation : ExposureRelation
  names : List Word
  deriving DecidableEq, Repr

structure Exposure where
  name : Option Word
  properties : List ExposureProperty
  deriving DecidableEq, Repr

inductive Item
  | arch (arch : Arch)
  | services (definitions : List Service)
  | service (service : Service)
  | domain (domain : Domain)
  | domains (definitions : List Domain)
  | actors (definitions : List Actor)
  | actor (actor : Actor)
  | exposure (exposure : Exposure)
  | useCase (useCase : UseCase)
  deriving DecidableEq, Repr

def Domain.ofTree (t : Tree) : Domain := ⟨t.identifier?, (t.parts .subdomain).filterMap Tree.identifier?⟩

def Actor.ofTree (t : Tree) : Actor := ⟨t.firstWordIn? .actorType, t.identifierIn? .actorName⟩

def ExposureProperty.ofTree? (t : Tree) : Option ExposureProperty :=
  match t.kind with
  | .node .toProperty => some ⟨.to, t.identifiers⟩
  | .node .throughProperty => some ⟨.through, t.identifiers⟩
  | .node .ofProperty => some ⟨.of, t.identifiers⟩
  | _ => none

def Exposure.ofTree (t : Tree) : Exposure :=
  ⟨t.identifier?, t.children.filterMap ExposureProperty.ofTree?⟩

namespace Item

def ofTree? (t : Tree) : Option Item :=
  match t.kind with
  | .node .archBlock => some (.arch (.ofTree t))
  | .node .servicesBlock => some (.services ((t.parts .serviceDefinition).map Service.ofDefinition))
  | .node .serviceBlock => some (.service (.ofBlock t))
  | .node .domainBlock => some (.domain (.ofTree t))
  | .node .domainsBlock => some (.domains ((t.parts .domainDefinition).map Domain.ofTree))
  | .node .actorsBlock => some (.actors ((t.parts .actorDefinition).map Actor.ofTree))
  | .node .actorBlock => some (.actor (.ofTree t))
  | .node .exposureBlock => some (.exposure (.ofTree t))
  | .node .useCaseBlock => some (.useCase (.ofTree t))
  | _ => none

end Item

def Parse.items (p : Parse) : List Item := p.tree.children.filterMap Item.ofTree?

end CraftDsl
