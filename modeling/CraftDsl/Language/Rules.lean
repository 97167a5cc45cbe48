import CraftDsl.Grammar.Json
import CraftDsl.Grammar.Rule
import CraftDsl.Kind
import CraftDsl.NodeType.Generate
import CraftDsl.NodeType.Manifest
import CraftDsl.NodeType.Table

/-!
The grammar of the language, and what follows from it: node types, their table, and a summary. Trees of
sources without errors follow the grammar.
-/
namespace CraftDsl

namespace Language

open Rule

def newline : Rule := symbol "_newline"

def newlines : Rule := repeat0 newline

def braced (item : Rule) : Rule :=
  seq [string "\x7b", newlines, repeat0 (seq [item, newlines]), string "\x7d"]

def property (word : String) (value : Rule) : Rule := seq [string word, string ":", value]

def archSection (word : String) : Rule :=
  seq [string word, string ":", newlines, symbol "arch_component_list"]

def connectorWords : Rule :=
  choice ((Keyword.all.filter Keyword.isConnector).map fun word => string word.spelling)

def rules : List (String × Rule) :=
  [("source_file", seq [newlines, repeat0 (symbol "_top_level_item")]),
    ("_top_level_item",
      choice
        [symbol "arch_block",
         symbol "services_block",
         symbol "service_block",
         symbol "domain_block",
         symbol "domains_block",
         symbol "actors_block",
         symbol "actor_block",
         symbol "exposure_block",
         symbol "use_case_block"]),
    ("arch_block",
      seq
        [string "arch",
         optional (field "name" (symbol "identifier")),
         string "\x7b",
         newlines,
         symbol "arch_section",
         string "\x7d",
         newlines]),
    ("arch_section", choice [symbol "presentation_section", symbol "gateway_section"]),
    ("arch_continuation",
      choice
        [seq [repeat1 newline, symbol "arch_section"],
         seq [repeat1 newline, symbol "arch_component_list"],
         repeat1 newline]),
    ("presentation_section", archSection "presentation"),
    ("gateway_section", archSection "gateway"),
    ("arch_component_list",
      prec .left 0 (seq [symbol "arch_component", optional (symbol "arch_continuation")])),
    ("arch_component", choice [symbol "simple_component", symbol "component_flow"]),
    ("component_flow",
      seq
        [symbol "component_with_modifiers",
         repeat1 (seq [string ">", symbol "component_with_modifiers"])]),
    ("component_with_modifiers",
      seq
        [field "name" (symbol "component_name"),
         optional (field "modifiers" (symbol "component_modifiers"))]),
    ("component_name", symbol "identifier"),
    ("component_modifiers", seq [string "[", symbol "modifier_list", string "]"]),
    ("modifier_list", separated (symbol "modifier") ","),
    ("modifier",
      seq
        [field "key" (symbol "modifier_key"),
         optional (seq [string ":", field "value" (symbol "modifier_value")])]),
    ("modifier_key", symbol "identifier"),
    ("modifier_value", choice [symbol "identifier", symbol "number", symbol "boolean"]),
    ("simple_component", symbol "component_with_modifiers"),
    ("services_block", seq [string "services", braced (symbol "service_definition"), newlines]),
    ("service_block",
      seq
        [string "service",
         field "name" (symbol "identifier"),
         braced (symbol "service_property"),
         newlines]),
    ("service_definition",
      seq
        [field "name" (choice [symbol "string", symbol "identifier"]),
         braced (symbol "service_property")]),
    ("service_property",
      choice
        [symbol "domains_property",
         symbol "language_property",
         symbol "data_stores_property",
         symbol "deployment_property"]),
    ("domains_property", property "domains" (symbol "identifier_list")),
    ("language_property", property "language" (symbol "identifier")),
    ("data_stores_property", property "data-stores" (symbol "identifier_list")),
    ("deployment_property", property "deployment" (symbol "deployment_spec")),
    ("deployment_spec",
      seq
        [field "type" (symbol "deployment_type"),
         optional (field "rules" (symbol "deployment_rules"))]),
    ("deployment_type", choice [string "canary", string "blue_green", string "rolling"]),
    ("deployment_rules", seq [string "(", separated (symbol "deployment_rule") ",", string ")"]),
    ("deployment_rule",
      seq
        [field "percentage" (symbol "percentage"),
         string "->",
         field "target" (symbol "identifier")]),
    ("domain_block",
      seq
        [string "domain",
         field "name" (symbol "identifier"),
         braced (symbol "subdomain"),
         newlines]),
    ("domains_block", seq [string "domains", braced (symbol "domain_definition"), newlines]),
    ("domain_definition", seq [field "name" (symbol "identifier"), braced (symbol "subdomain")]),
    ("subdomain", symbol "identifier"),
    ("actor_block",
      seq
        [string "actor",
         field "type" (symbol "actor_type"),
         field "name" (symbol "actor_name"),
         newlines]),
    ("actors_block", seq [string "actors", braced (symbol "actor_definition"), newlines]),
    ("actor_definition",
      seq [field "type" (symbol "actor_type"), field "name" (symbol "actor_name")]),
    ("actor_type", choice [string "user", string "system", string "service"]),
    ("actor_name", symbol "identifier"),
    ("exposure_block",
      seq
        [string "exposure",
         field "name" (symbol "identifier"),
         braced (symbol "exposure_property"),
         newlines]),
    ("exposure_property",
      choice [symbol "to_property", symbol "through_property", symbol "of_property"]),
    ("to_property", property "to" (symbol "identifier_list")),
    ("through_property", property "through" (symbol "identifier_list")),
    ("of_property", property "of" (symbol "identifier_list")),
    ("use_case_block",
      seq
        [string "use_case",
         field "name" (symbol "string"),
         string "\x7b",
         newlines,
         symbol "scenario",
         string "\x7d",
         newlines]),
    ("scenario", seq [symbol "when_clause", optional (symbol "scenario_continuation")]),
    ("scenario_continuation",
      choice
        [seq [newlines, symbol "scenario"],
         seq [repeat1 newline, symbol "action", optional (symbol "scenario_continuation")],
         repeat1 newline]),
    ("when_clause",
      seq
        [string "when",
         choice
           [symbol "external_trigger",
            symbol "event_trigger",
            symbol "domain_listener",
            symbol "cron_trigger"],
         newline,
         repeat0 (seq [symbol "action", newline])]),
    ("external_trigger",
      prec .left 2
        (seq
          [field "actor" (symbol "trigger_actor"),
           field "verb" (symbol "trigger_verb"),
           optional (field "connector" (symbol "connector_word")),
           optional (field "phrase" (symbol "phrase"))])),
    ("trigger_actor", symbol "identifier"),
    ("trigger_verb", symbol "identifier"),
    ("event_trigger", symbol "string"),
    ("domain_listener",
      seq
        [field "domain" (symbol "identifier"),
         string "listens",
         field "event" (symbol "string")]),
    ("cron_trigger", prec .left 0 (seq [string "CRON", optional (symbol "phrase")])),
    ("action",
      choice
        [symbol "sync_action",
         symbol "async_action",
         symbol "internal_action",
         symbol "return_action"]),
    ("sync_action",
      prec .left 2
        (seq
          [field "subject" (symbol "action_subject"),
           string "asks",
           field "target" (symbol "action_target"),
           optional (field "connector" (symbol "connector_word")),
           field "phrase" (symbol "phrase")])),
    ("async_action",
      seq
        [field "subject" (symbol "action_subject"),
         string "notifies",
         field "event" (symbol "string")]),
    ("internal_action",
      prec .left 1
        (seq
          [field "subject" (symbol "action_subject"),
           field "verb" (symbol "action_verb"),
           optional (field "connector" (symbol "connector_word")),
           field "phrase" (symbol "phrase")])),
    ("return_action",
      prec .left 2
        (seq
          [field "subject" (symbol "action_subject"),
           string "returns",
           optional (seq [string "to", field "target" (symbol "action_target")]),
           optional (field "connector" (symbol "connector_word")),
           field "phrase" (symbol "phrase")])),
    ("action_subject", symbol "identifier"),
    ("action_target", symbol "identifier"),
    ("action_verb", symbol "identifier"),
    ("connector_word", connectorWords),
    ("phrase",
      prec .left 1
        (repeat1 (choice [symbol "identifier", symbol "string", symbol "connector_word"]))),
    ("identifier_list", separated (symbol "identifier") ","),
    ("identifier", pattern "[a-zA-Z_][a-zA-Z0-9_\\-]*" none),
    ("string", pattern "\"([^\"\\\\]|\\\\(.|\\n))*\"" none),
    ("number", pattern "\\d+" none),
    ("percentage", pattern "\\d+%" none),
    ("boolean", choice [string "true", string "false"]),
    ("comment",
      choice [pattern "//[^\\r\\n]*" none, pattern "/\\*[^*]*\\*+([^/*][^*]*\\*+)*/" none]),
    ("_newline", pattern "\\r?\\n" none)]

def grammar : Grammar where
  name := "craft"
  rules := rules
  extras := [pattern "[ \\t]" none, symbol "comment"]

def nodeTypes : List NodeType := grammar.nodeTypes

def table : NodeTypeTable := .ofTypes nodeTypes

def version : Nat := 14

structure Metadata where
  name : String
  version : Nat
  fieldCount : Nat
  positionCount : Nat
  fields : List String

def metadata : Metadata :=
  ⟨grammar.name, version, grammar.fieldNames.length, grammar.positionCount, grammar.fieldNames⟩

def Metadata.toJson (m : Metadata) : JsonValue :=
  .object
    [("name", .string m.name), ("version", .integer m.version),
      ("field_count", .integer m.fieldCount), ("state_count", .integer m.positionCount),
      ("fields", .array (m.fields.map .string))]

end Language

end CraftDsl
