import CraftDsl.Text.Position

/-!
Keywords, token kinds and node kinds of the language, and tokens. A kind has a name, the one grammar
rules and tree listings use, and a label, the one token listings and concrete dumps use.
-/
namespace CraftDsl

/-- Literals that look like identifiers. The connector words come last. -/
inductive Keyword
  | arch | presentation | gateway | services | service | domain | domains | language | dataStores
  | deployment | canary | blueGreen | rolling | actor | actors | user | system | exposure | through
  | useCase | when | listens | cron | asks | notifies | returns | trueValue | falseValue | wordA
  | wordAn | wordThe | wordAs | wordTo | wordFrom | wordIn | wordOn | wordAt | wordFor | wordWith
  | wordBy | wordOf
  deriving DecidableEq, Repr

/-- Kinds of leaves. `endOfInput` is only ever seen by lookahead. -/
inductive TokenKind
  | braceOpen | braceClose | bracketOpen | bracketClose | parenOpen | parenClose
  | colon | comma | greater | arrow
  | keyword (word : Keyword)
  | identifier | string | unterminatedString | number | percentage
  | whitespace | newline | lineComment | blockComment | unterminatedComment
  | garbage | endOfInput
  deriving DecidableEq, Repr

/-- Kinds of inner nodes, one for each visible rule that is not a token, and `error`. -/
inductive NodeKind
  | sourceFile | archBlock | archContinuation | presentationSection | gatewaySection
  | archComponentList | componentFlow | componentWithModifiers | componentName | componentModifiers
  | modifierList | modifier | modifierKey | simpleComponent | servicesBlock | serviceBlock
  | serviceDefinition | domainsProperty | languageProperty | dataStoresProperty
  | deploymentProperty | deploymentSpec | deploymentType | deploymentRules | deploymentRule
  | domainBlock | domainsBlock | domainDefinition | subdomain | actorBlock | actorsBlock
  | actorDefinition | actorType | actorName | exposureBlock | toProperty | throughProperty
  | ofProperty | useCaseBlock | scenarioContinuation | scenario | whenClause | externalTrigger
  | triggerActor | triggerVerb | eventTrigger | domainListener | cronTrigger | syncAction
  | asyncAction | internalAction | returnAction | actionSubject | actionTarget | actionVerb
  | connectorWord | phrase | identifierList | boolean | error
  deriving DecidableEq, Repr

inductive Kind
  | token (kind : TokenKind)
  | node (kind : NodeKind)
  deriving DecidableEq, Repr

instance : Coe TokenKind Kind := ⟨.token⟩
instance : Coe NodeKind Kind := ⟨.node⟩

inductive Category
  | identifier | string | number | percentage | boolean | keyword | punctuation
  | comment | newline | whitespace | error
  deriving DecidableEq, Repr

namespace Keyword

def all : List Keyword :=
  [.arch, .presentation, .gateway, .services, .service, .domain, .domains, .language,
    .dataStores, .deployment, .canary, .blueGreen, .rolling, .actor, .actors, .user, .system,
    .exposure, .through, .useCase, .when, .listens, .cron, .asks, .notifies, .returns, .trueValue,
    .falseValue, .wordA, .wordAn, .wordThe, .wordAs, .wordTo, .wordFrom, .wordIn, .wordOn,
    .wordAt, .wordFor, .wordWith, .wordBy, .wordOf]

def spelling : Keyword → String
  | .arch => "arch"
  | .presentation => "presentation"
  | .gateway => "gateway"
  | .services => "services"
  | .service => "service"
  | .domain => "domain"
  | .domains => "domains"
  | .language => "language"
  | .dataStores => "data-stores"
  | .deployment => "deployment"
  | .canary => "canary"
  | .blueGreen => "blue_green"
  | .rolling => "rolling"
  | .actor => "actor"
  | .actors => "actors"
  | .user => "user"
  | .system => "system"
  | .exposure => "exposure"
  | .through => "through"
  | .useCase => "use_case"
  | .when => "when"
  | .listens => "listens"
  | .cron => "CRON"
  | .asks => "asks"
  | .notifies => "notifies"
  | .returns => "returns"
  | .trueValue => "true"
  | .falseValue => "false"
  | .wordA => "a"
  | .wordAn => "an"
  | .wordThe => "the"
  | .wordAs => "as"
  | .wordTo => "to"
  | .wordFrom => "from"
  | .wordIn => "in"
  | .wordOn => "on"
  | .wordAt => "at"
  | .wordFor => "for"
  | .wordWith => "with"
  | .wordBy => "by"
  | .wordOf => "of"

def isConnector : Keyword → Bool
  | .wordA | .wordAn | .wordThe | .wordAs | .wordTo | .wordFrom | .wordIn | .wordOn | .wordAt
  | .wordFor | .wordWith | .wordBy | .wordOf => true
  | _ => false

def ofText? (text : List Char) : Option Keyword :=
  all.find? fun word => word.spelling.toList = text

end Keyword

/-- Joins the parts of a lower case name: `data-stores` and `use_case` become `DataStores` and
`UseCase`, and a name in capitals keeps its first one only. -/
def camelCase (name : String) : String :=
  let capital (part : List Char) : List Char :=
    match part with
    | [] => []
    | first :: rest => first.toUpper :: rest.map Char.toLower
  String.ofList (((name.toList.splitOnP fun c => c = '_' || c = '-').map capital).flatten)

namespace TokenKind

def all : List TokenKind :=
  [.braceOpen, .braceClose, .bracketOpen, .bracketClose, .parenOpen, .parenClose, .colon, .comma,
    .greater, .arrow] ++ Keyword.all.map keyword ++
  [.identifier, .string, .unterminatedString, .number, .percentage, .whitespace, .newline,
    .lineComment, .blockComment, .unterminatedComment, .garbage, .endOfInput]

def name : TokenKind → String
  | braceOpen => "\x7b"
  | braceClose => "\x7d"
  | bracketOpen => "["
  | bracketClose => "]"
  | parenOpen => "("
  | parenClose => ")"
  | colon => ":"
  | comma => ","
  | greater => ">"
  | arrow => "->"
  | keyword word => word.spelling
  | identifier => "identifier"
  | string => "string"
  | number => "number"
  | percentage => "percentage"
  | whitespace => "whitespace"
  | newline => "newline"
  | lineComment | blockComment => "comment"
  | unterminatedString | unterminatedComment | garbage => "ERROR"
  | endOfInput => "end"

def label : TokenKind → String
  | braceOpen => "BraceOpen"
  | braceClose => "BraceClose"
  | bracketOpen => "BracketOpen"
  | bracketClose => "BracketClose"
  | parenOpen => "ParenOpen"
  | parenClose => "ParenClose"
  | colon => "Colon"
  | comma => "Comma"
  | greater => "Gt"
  | arrow => "Arrow"
  | keyword word => "Kw" ++ camelCase word.spelling
  | identifier => "Id"
  | string => "Str"
  | unterminatedString => "UnterminatedStr"
  | number => "Number"
  | percentage => "Percentage"
  | whitespace => "Whitespace"
  | newline => "Newline"
  | lineComment => "LineComment"
  | blockComment => "BlockComment"
  | unterminatedComment => "UnterminatedComment"
  | garbage => "Garbage"
  | endOfInput => "Eof"

/-- Comments and blanks. A newline separates statements and is never trivia. -/
def isTrivia : TokenKind → Bool
  | whitespace | lineComment | blockComment => true
  | _ => false

def isError : TokenKind → Bool
  | unterminatedString | unterminatedComment | garbage => true
  | _ => false

def isKeyword : TokenKind → Bool
  | keyword _ => true
  | _ => false

def isConnector : TokenKind → Bool
  | keyword word => word.isConnector
  | _ => false

/-- Identifiers and keywords: whatever can stand where a name is expected. -/
def isWord : TokenKind → Bool
  | keyword _ | identifier => true
  | _ => false

def isHidden : TokenKind → Bool
  | whitespace | newline | endOfInput => true
  | _ => false

def isNamed : TokenKind → Bool
  | identifier | string | number | percentage | lineComment | blockComment => true
  | kind => kind.isError

def category : TokenKind → Category
  | keyword .trueValue | keyword .falseValue => .boolean
  | keyword _ => .keyword
  | identifier => .identifier
  | string => .string
  | number => .number
  | percentage => .percentage
  | whitespace => .whitespace
  | newline => .newline
  | lineComment | blockComment => .comment
  | unterminatedString | unterminatedComment | garbage | endOfInput => .error
  | _ => .punctuation

end TokenKind

namespace NodeKind

def all : List NodeKind :=
  [.sourceFile, .archBlock, .archContinuation, .presentationSection, .gatewaySection,
    .archComponentList, .componentFlow, .componentWithModifiers, .componentName,
    .componentModifiers, .modifierList, .modifier, .modifierKey, .simpleComponent, .servicesBlock,
    .serviceBlock, .serviceDefinition, .domainsProperty, .languageProperty, .dataStoresProperty,
    .deploymentProperty, .deploymentSpec, .deploymentType, .deploymentRules, .deploymentRule,
    .domainBlock, .domainsBlock, .domainDefinition, .subdomain, .actorBlock, .actorsBlock,
    .actorDefinition, .actorType, .actorName, .exposureBlock, .toProperty, .throughProperty,
    .ofProperty, .useCaseBlock, .scenarioContinuation, .scenario, .whenClause, .externalTrigger,
    .triggerActor, .triggerVerb, .eventTrigger, .domainListener, .cronTrigger, .syncAction,
    .asyncAction, .internalAction, .returnAction, .actionSubject, .actionTarget, .actionVerb,
    .connectorWord, .phrase, .identifierList, .boolean, .error]

def name : NodeKind → String
  | .sourceFile => "source_file"
  | .archBlock => "arch_block"
  | .archContinuation => "arch_continuation"
  | .presentationSection => "presentation_section"
  | .gatewaySection => "gateway_section"
  | .archComponentList => "arch_component_list"
  | .componentFlow => "component_flow"
  | .componentWithModifiers => "component_with_modifiers"
  | .componentName => "component_name"
  | .componentModifiers => "component_modifiers"
  | .modifierList => "modifier_list"
  | .modifier => "modifier"
  | .modifierKey => "modifier_key"
  | .simpleComponent => "simple_component"
  | .servicesBlock => "services_block"
  | .serviceBlock => "service_block"
  | .serviceDefinition => "service_definition"
  | .domainsProperty => "domains_property"
  | .languageProperty => "language_property"
  | .dataStoresProperty => "data_stores_property"
  | .deploymentProperty => "deployment_property"
  | .deploymentSpec => "deployment_spec"
  | .deploymentType => "deployment_type"
  | .deploymentRules => "deployment_rules"
  | .deploymentRule => "deployment_rule"
  | .domainBlock => "domain_block"
  | .domainsBlock => "domains_block"
  | .domainDefinition => "domain_definition"
  | .subdomain => "subdomain"
  | .actorBlock => "actor_block"
  | .actorsBlock => "actors_block"
  | .actorDefinition => "actor_definition"
  | .actorType => "actor_type"
  | .actorName => "actor_name"
  | .exposureBlock => "exposure_block"
  | .toProperty => "to_property"
  | .throughProperty => "through_property"
  | .ofProperty => "of_property"
  | .useCaseBlock => "use_case_block"
  | .scenarioContinuation => "scenario_continuation"
  | .scenario => "scenario"
  | .whenClause => "when_clause"
  | .externalTrigger => "external_trigger"
  | .triggerActor => "trigger_actor"
  | .triggerVerb => "trigger_verb"
  | .eventTrigger => "event_trigger"
  | .domainListener => "domain_listener"
  | .cronTrigger => "cron_trigger"
  | .syncAction => "sync_action"
  | .asyncAction => "async_action"
  | .internalAction => "internal_action"
  | .returnAction => "return_action"
  | .actionSubject => "action_subject"
  | .actionTarget => "action_target"
  | .actionVerb => "action_verb"
  | .connectorWord => "connector_word"
  | .phrase => "phrase"
  | .identifierList => "identifier_list"
  | .boolean => "boolean"
  | .error => "ERROR"

def label (kind : NodeKind) : String := camelCase kind.name

def isError (kind : NodeKind) : Bool := kind = .error

end NodeKind

namespace Kind

def all : List Kind := TokenKind.all.map token ++ NodeKind.all.map node

def name : Kind → String
  | token kind => kind.name
  | node kind => kind.name

def label : Kind → String
  | token kind => kind.label
  | node kind => kind.label

def isToken : Kind → Bool
  | token _ => true
  | node _ => false

def isTrivia : Kind → Bool
  | token kind => kind.isTrivia
  | node _ => false

def isError : Kind → Bool
  | token kind => kind.isError
  | node kind => kind.isError

def isKeyword : Kind → Bool
  | token kind => kind.isKeyword
  | node _ => false

def isConnector : Kind → Bool
  | token kind => kind.isConnector
  | node _ => false

def isWord : Kind → Bool
  | token kind => kind.isWord
  | node _ => false

def isHidden : Kind → Bool
  | token kind => kind.isHidden
  | node _ => false

def isNamed : Kind → Bool
  | token kind => kind.isNamed
  | node _ => true

def category : Kind → Category
  | token kind => kind.category
  | node _ => .error

end Kind

def Category.label : Category → String
  | identifier => "Identifier"
  | string => "String"
  | number => "Number"
  | percentage => "Percentage"
  | boolean => "Boolean"
  | keyword => "Keyword"
  | punctuation => "Punctuation"
  | comment => "Comment"
  | newline => "Newline"
  | whitespace => "Whitespace"
  | error => "Error"

structure Token where
  kind : TokenKind
  text : List Char
  deriving DecidableEq, Repr

structure Span where
  start : Nat
  stop : Nat
  deriving DecidableEq, Repr

namespace Token

def width (t : Token) : Nat := byteLength t.text

def isTrivia (t : Token) : Bool := t.kind.isTrivia

def locate (start : Nat) : List Token → List (Span × Token)
  | [] => []
  | t :: ts => (⟨start, start + t.width⟩, t) :: locate (start + t.width) ts

theorem locate_tokens (start : Nat) (tokens : List Token) :
    (locate start tokens).map Prod.snd = tokens := by
  induction tokens generalizing start with
  | nil => rfl
  | cons token tokens ih => exact congrArg (List.cons token) (ih _)

end Token

end CraftDsl
