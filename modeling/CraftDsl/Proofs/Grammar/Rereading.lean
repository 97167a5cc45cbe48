import CraftDsl.Proofs.Grammar.Nesting

/-!
Grammars that are written and read again. Main statement: `grammar_roundTrip`.
-/
namespace CraftDsl

open JsonValue

namespace Grammar

variable (g : Grammar)

/-- The rules as they are written: one for each name. -/
def written : List (String × Rule) := (OrderedMap.ofList g.rules).entries

instance decidableRoom (rules : List Rule) : Decidable (Room rules) := List.decidableBAll _ rules

theorem room_cons (rule : Rule) (rules : List Rule) :
    Room (rule :: rules) ↔ 2 + rule.toJson.nesting ≤ nestingLimit ∧ Room rules := by
  simp only [Room, List.forall_mem_cons]

theorem room_items (rules : List Rule) :
    nestingItems (rules.map Rule.toJson) + 2 ≤ nestingLimit ↔ Room rules := by
  have each (r : Rule) : r.toJson.nesting ≤ nestingLimit - 2 ↔ 2 + r.toJson.nesting ≤ nestingLimit := by
    simp only [nestingLimit]
    omega
  have all : nestingItems (rules.map Rule.toJson) ≤ nestingLimit - 2 ↔ Room rules := by
    rw [nestingItems_le, List.forall_mem_map, Room]
    exact forall₂_congr fun r _ => each r
  rw [← all]
  simp only [nestingLimit]
  omega

/-- There is room for the rules if the written form nests no deeper than the limit. -/
theorem nesting_le :
    g.toJson.nesting ≤ nestingLimit ↔ Room (g.written.map Prod.snd) ∧ Room g.extras := by
  have form : g.toJson = .object [("name", .string g.name),
      ("rules", .object (g.written.map (Prod.map id Rule.toJson))),
      ("extras", .array (g.extras.map Rule.toJson))] := rfl
  have bodies : nestingItems ((g.written.map Prod.snd).map Rule.toJson) =
      nestingEntries (g.written.map (Prod.map id Rule.toJson)) := by
    rw [nestingEntries_values, List.map_map, List.map_map]
    rfl
  rw [← room_items, ← room_items, bodies, form]
  simp only [nesting, nestingEntries, nestingLimit]
  omega

theorem readRules_documents (entries : List (String × Rule)) (rules : OrderedMap Rule) :
    readRules rules (documentEntries (entries.map fun (name, rule) => (name, rule.toJson))) =
      fitting (Room (entries.map Prod.snd))
        (entries.foldl (fun rules (name, rule) => rules.insert name rule) rules) := by
  induction entries generalizing rules with
  | nil => exact (fitting_yes (List.forall_mem_nil _) rules).symm
  | cons entry entries ih =>
    obtain ⟨name, rule⟩ := entry
    rw [List.map_cons, documentEntries, readRules, Rule.ofDocument_toJson]
    refine (fitting_bind ?_).trans (fitting_congr (room_cons rule (entries.map Prod.snd)).symm _)
    exact ih _

theorem mapM_documents (rules : List Rule) :
    (documents (rules.map Rule.toJson)).mapM Rule.ofDocument = fitting (Room rules) rules := by
  induction rules with
  | nil => exact (fitting_yes (List.forall_mem_nil _) []).symm
  | cons rule rules ih =>
    rw [List.map_cons, documents, List.mapM_cons, Rule.ofDocument_toJson, ih]
    refine (fitting_bind ?_).trans (fitting_congr (room_cons rule rules).symm _)
    exact fitting_map _ _ _

theorem ofDocument_record (name : String) (rules extras : JsonDocument) :
    ofDocument (.object [(some "name", .quoted (some name)), (some "rules", rules),
      (some "extras", extras)] none) =
    (rulesOf rules >>= fun rules => extrasOf extras >>= fun extras =>
      pure ⟨name, rules.entries, extras⟩) := by
  have named : Draft.add ⟨none, none, none⟩ "name" (.quoted (some name)) = .ok ⟨some name, none, none⟩ :=
    rfl
  have ruled : Draft.add ⟨some name, none, none⟩ "rules" rules =
      (rulesOf rules >>= fun rules => pure ⟨some name, some rules, none⟩) := rfl
  have whole (found : OrderedMap Rule) : Draft.add ⟨some name, some found, none⟩ "extras" extras =
      (extrasOf extras >>= fun extras => pure ⟨some name, some found, some extras⟩) := rfl
  simp only [ofDocument, Draft.addAll, named, ruled, bind, Except.bind]
  cases rulesOf rules with
  | error e => rfl
  | ok rules =>
    simp only [pure, Except.pure, whole, bind, Except.bind]
    cases extrasOf extras <;> rfl

theorem rulesOf_documents (entries : List (String × Rule)) :
    rulesOf (.object (documentEntries (entries.map fun (name, rule) => (name, rule.toJson))) none) =
      fitting (Room (entries.map Prod.snd)) (OrderedMap.ofList entries) := by
  have read : rulesOf (.object (documentEntries (entries.map fun (name, rule) =>
      (name, rule.toJson))) none) = (readRules .empty (documentEntries (entries.map fun (name, rule) =>
        (name, rule.toJson))) >>= fun rules => pure rules) := rfl
  rw [read, bind_pure, readRules_documents]
  rfl

theorem extrasOf_documents (rules : List Rule) :
    extrasOf (.array (documents (rules.map Rule.toJson)) none) = fitting (Room rules) rules := by
  have read : extrasOf (.array (documents (rules.map Rule.toJson)) none) =
      ((documents (rules.map Rule.toJson)).mapM Rule.ofDocument >>= fun extras => pure extras) := rfl
  rw [read, bind_pure, mapM_documents]

theorem toJson_plain : g.toJson.Plain := by
  refine .object (List.forall_mem_cons.mpr ⟨.string _, List.forall_mem_cons.mpr ⟨.object ?_,
    List.forall_mem_singleton.mpr (.array ?_)⟩⟩)
  · exact List.forall_mem_map.mpr fun entry _ => entry.2.plain_toJson
  · exact List.forall_mem_map.mpr fun rule _ => rule.plain_toJson

/-- A grammar that is written and read again has its rules as they are written, unless it nests too
deep. -/
theorem read_toJson : read g.toJson.prettyText.toList =
    fitting (g.toJson.nesting ≤ nestingLimit) ⟨g.name, g.written, g.extras⟩ := by
  have document : g.toJson.document = .object [(some "name", .quoted (some g.name)),
      (some "rules",
        .object (documentEntries (g.written.map fun (name, rule) => (name, rule.toJson))) none),
      (some "extras", .array (documents (g.extras.map Rule.toJson)) none)] none := rfl
  have rules : (OrderedMap.ofList g.written).entries = g.written :=
    OrderedMap.entries_ofList (OrderedMap.ofList g.rules).distinct
  rw [read, readJson_pretty _ g.toJson_plain, document, ofDocument_record, rulesOf_documents,
    extrasOf_documents]
  refine (fitting_bind (q := Room g.extras) ?_).trans (fitting_congr g.nesting_le.symm _)
  rw [rules]
  exact fitting_map _ _ _

theorem read_written {text : List Char} (loaded : read text = .ok g) :
    (g.rules.map Prod.fst).Nodup ∧ g.toJson.nesting ≤ nestingLimit := by
  obtain ⟨distinct, rules, extras⟩ := read_roomy loaded
  have written : g.written = g.rules := OrderedMap.entries_ofList distinct
  exact ⟨distinct, g.nesting_le.mpr ⟨written ▸ rules, extras⟩⟩

end Grammar

/-- A grammar that is written and read again is the same if its names are distinct and there are no more
than 127 arrays and objects one inside the other. Where names are repeated, each is at its first place
and has its last body. What nests deeper is refused. So a grammar that was read once is read again. -/
theorem grammar_roundTrip :
    (∀ g : Grammar,
      (Grammar.read g.toJson.prettyText.toList = .ok g ↔
        (g.rules.map Prod.fst).Nodup ∧ g.toJson.nesting ≤ 127) ∧
      (g.toJson.nesting ≤ 127 → ∃ h : Grammar, Grammar.read g.toJson.prettyText.toList = .ok h ∧
        h.name = g.name ∧ h.extras = g.extras ∧
        h.rules.map Prod.fst = (g.rules.map Prod.fst).eraseDups ∧
        ∀ name, h.rule? name = g.rules.reverse.lookup name) ∧
      (127 < g.toJson.nesting → Grammar.read g.toJson.prettyText.toList = .error .malformed)) ∧
    ∀ (text : List Char) (g : Grammar), Grammar.read text = .ok g →
      Grammar.read g.toJson.prettyText.toList = .ok g := by
  have same (g : Grammar) (distinct : (g.rules.map Prod.fst).Nodup) (room : g.toJson.nesting ≤ 127) :
      Grammar.read g.toJson.prettyText.toList = .ok g := by
    have written : g.written = g.rules := OrderedMap.entries_ofList distinct
    rw [g.read_toJson, written]
    exact fitting_yes room _
  refine ⟨fun g => ⟨⟨g.read_written, fun both => same g both.1 both.2⟩, fun room => ?_,
    fun deep => ?_⟩, fun text g loaded => ?_⟩
  · refine ⟨⟨g.name, g.written, g.extras⟩, ?_, rfl, rfl, OrderedMap.keys_ofList g.rules,
      OrderedMap.find?_ofList g.rules⟩
    exact g.read_toJson.trans (fitting_yes room _)
  · exact g.read_toJson.trans (fitting_no (Nat.not_le_of_lt deep))
  · obtain ⟨distinct, room⟩ := g.read_written loaded
    exact same g distinct room

/-- A grammar with a name that is repeated, strings that are escaped, and a number at its limit. -/
def revised : Grammar where
  name := "a \"quoted\" name"
  rules :=
    [("greeting", .blank), ("tab\t", .seq [.string "\n\\", .repeat1 (.symbol "greeting")]),
      ("greeting", .prec .left (-2147483648) (.field "é" (.pattern "[a-z]+" (some "i"))))]
  extras := [.choice [.pattern "\\s" none, .blank]]

def bottomless : Grammar := ⟨"", [], [Nat.repeat Rule.repeat0 125 .blank]⟩

theorem revised_roundTrip : revised.toJson.nesting ≤ 127 ∧
    (∃ h : Grammar, Grammar.read revised.toJson.prettyText.toList = .ok h ∧
      h.rules.map Prod.fst = ["greeting", "tab\t"] ∧ h.rule? "greeting" = revised.rules[2].2 ∧
      Grammar.read h.toJson.prettyText.toList = .ok h) ∧
    127 < bottomless.toJson.nesting ∧
    Grammar.read bottomless.toJson.prettyText.toList = .error .malformed := by
  have room : revised.toJson.nesting ≤ 127 := by decide
  have deep : 127 < bottomless.toJson.nesting := by decide +kernel
  obtain ⟨h, loaded, -, -, names, rules⟩ := (grammar_roundTrip.1 revised).2.1 room
  refine ⟨room, ⟨h, loaded, ?_, ?_, grammar_roundTrip.2 _ h loaded⟩, deep,
    (grammar_roundTrip.1 bottomless).2.2 deep⟩
  · rw [names]
    decide
  · rw [rules]
    rfl

end CraftDsl
