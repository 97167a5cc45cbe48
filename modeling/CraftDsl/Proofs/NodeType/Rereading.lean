import CraftDsl.NodeType.Manifest
import CraftDsl.Proofs.Json.Nesting
import CraftDsl.Proofs.Json.Rereading

/-!
Manifests that are written and read again, indented or compact. Main statement: `manifest_roundTrip`.
-/
namespace CraftDsl

open JsonValue

theorem TypeRef.ofJson_toJson (t : TypeRef) : TypeRef.ofJson t.toJson = .ok t := rfl

theorem TypeRef.mapM_toJson (types : List TypeRef) :
    (types.map TypeRef.toJson).mapM TypeRef.ofJson = .ok types :=
  mapM_reread fun t _ => t.ofJson_toJson

theorem Slot.ofJson_toJson (slot : Slot) : Slot.ofJson slot.toJson = .ok slot := by
  have read : Slot.ofJson slot.toJson = ((slot.types.map TypeRef.toJson).mapM TypeRef.ofJson >>=
      fun types => pure ⟨slot.multiple, slot.required, types⟩) := rfl
  rw [read, TypeRef.mapM_toJson]
  rfl

namespace Shape

/-- The keys of a sum are none of a product, so neither is read as the other. -/
theorem ofEntries_entries (shape : Shape) : Shape.ofEntries shape.entries = .ok shape := by
  cases shape with
  | sum subtypes =>
    have read : sumOf (sum subtypes).entries =
        ((subtypes.map TypeRef.toJson).mapM TypeRef.ofJson >>= fun types => pure (sum types)) := rfl
    rw [ofEntries, read, TypeRef.mapM_toJson]
    rfl
  | product fields children =>
    have no_sum : sumOf (product fields children).entries = .error .wrongShape := rfl
    have read : productOf (product fields children).entries =
        (fieldsOf (.object (fields.entries.map fun entry => (entry.1, entry.2.toJson))) >>=
          fun fields => (children.map Slot.toJson).mapM Slot.ofJson >>=
            fun children => pure (product fields children)) := rfl
    have each : fieldsOf (.object (fields.entries.map fun entry => (entry.1, entry.2.toJson))) =
        .ok fields := by
      have read : fieldsOf (.object (fields.entries.map fun entry => (entry.1, entry.2.toJson))) =
          ((fields.entries.map fun entry => (entry.1, entry.2.toJson)).mapM
            (fun entry => Slot.ofJson entry.2 >>= fun slot => pure (entry.1, slot)) >>=
              fun entries => pure (.ofList entries)) := rfl
      rw [read, mapM_reread fun entry _ => by simp only [Slot.ofJson_toJson]; rfl]
      exact congrArg Except.ok (OrderedMap.ofList_entries fields)
    rw [ofEntries, no_sum, read, each, mapM_reread fun slot _ => slot.ofJson_toJson]
    rfl

theorem entries_unnamed (shape : Shape) :
    ∀ entry ∈ shape.entries, entry.1 ≠ "type" ∧ entry.1 ≠ "named" := by
  cases shape <;> simp [entries]

end Shape

/-- A plain value that nests no deeper than `levels`. -/
structure JsonValue.Within (levels : Nat) (v : JsonValue) : Prop where
  plain : v.Plain
  shallow : v.nesting ≤ levels

section

variable {levels : Nat}

theorem JsonValue.within_bool (value : Bool) : Within levels (bool value) := ⟨.bool value, Nat.zero_le _⟩

theorem JsonValue.within_string (text : String) : Within levels (string text) :=
  ⟨.string text, Nat.zero_le _⟩

theorem JsonValue.within_array {items : List JsonValue} (each : ∀ item ∈ items, item.Within levels) :
    Within (levels + 1) (array items) :=
  ⟨.array fun item member => (each item member).plain,
    Nat.succ_le_succ (nestingItems_le.mpr fun item member => (each item member).shallow)⟩

theorem JsonValue.within_object {entries : List (String × JsonValue)}
    (each : ∀ entry ∈ entries, entry.2.Within levels) : Within (levels + 1) (object entries) :=
  ⟨.object fun entry member => (each entry member).plain,
    Nat.succ_le_succ (nestingEntries_le.mpr fun entry member => (each entry member).shallow)⟩

end

theorem TypeRef.toJson_within (t : TypeRef) : t.toJson.Within 1 :=
  within_object (List.forall_mem_cons.mpr
    ⟨within_string t.kind, List.forall_mem_singleton.mpr (within_bool t.named)⟩)

theorem Slot.toJson_within (slot : Slot) : slot.toJson.Within 3 := by
  have types : (JsonValue.array (slot.types.map TypeRef.toJson)).Within 2 :=
    within_array (List.forall_mem_map.mpr fun t _ => t.toJson_within)
  exact within_object (List.forall_mem_cons.mpr ⟨within_bool slot.multiple,
    List.forall_mem_cons.mpr ⟨within_bool slot.required, List.forall_mem_singleton.mpr types⟩⟩)

theorem Shape.entries_within (shape : Shape) : ∀ entry ∈ shape.entries, entry.2.Within 4 := by
  cases shape with
  | sum subtypes =>
    have types : ∀ item ∈ subtypes.map TypeRef.toJson, item.Within 3 :=
      List.forall_mem_map.mpr fun t _ =>
        ⟨t.toJson_within.plain, Nat.le_trans t.toJson_within.shallow (by decide)⟩
    exact List.forall_mem_singleton.mpr (within_array types)
  | product fields children =>
    have fields : (JsonValue.object
        (fields.entries.map fun entry => (entry.1, entry.2.toJson))).Within 4 :=
      within_object (List.forall_mem_map.mpr fun entry _ => entry.2.toJson_within)
    have children : (JsonValue.array (children.map Slot.toJson)).Within 4 :=
      within_array (List.forall_mem_map.mpr fun slot _ => slot.toJson_within)
    exact List.forall_mem_cons.mpr ⟨fields, List.forall_mem_singleton.mpr children⟩

namespace NodeType

theorem toJson_within (t : NodeType) : t.toJson.Within 5 :=
  within_object (List.forall_mem_cons.mpr ⟨within_string t.kind,
    List.forall_mem_cons.mpr ⟨within_bool t.named, t.shape.entries_within⟩⟩)

/-- What follows the kind of a record and whether it is named is kept as it is written. -/
theorem addAll_documents (r : Record) {entries : List (String × JsonValue)}
    (unnamed : ∀ entry ∈ entries, entry.1 ≠ "type" ∧ entry.1 ≠ "named")
    (within : ∀ entry ∈ entries, entry.2.Within 4) :
    r.addAll (documentEntries entries) = .ok { r with others := r.others ++ entries } := by
  induction entries generalizing r with
  | nil =>
    rw [List.append_nil]
    rfl
  | cons entry entries ih =>
    obtain ⟨key, value⟩ := entry
    obtain ⟨⟨no_kind, no_name⟩, unnamed⟩ := List.forall_mem_cons.mp unnamed
    obtain ⟨here, later⟩ := List.forall_mem_cons.mp within
    have room : 2 + value.nesting ≤ nestingLimit :=
      Nat.le_trans (Nat.add_le_add_left here.shallow 2) (by decide)
    have taken : value.document.value 2 = .ok value :=
      (JsonDocument.value_document here.plain (by decide)).trans (fitting_yes room value)
    have added : r.add key value.document = .ok { r with others := r.others ++ [(key, value)] } := by
      rw [Record.add, if_neg no_kind, if_neg no_name, taken]
      rfl
    rw [documentEntries, Record.addAll, added]
    refine (ih _ unnamed later).trans ?_
    rw [List.append_assoc]
    rfl

theorem ofDocument_toJson (t : NodeType) : NodeType.ofDocument t.toJson.document = .ok t := by
  have added : Record.addAll ⟨none, none, []⟩ (documentEntries
      (("type", .string t.kind) :: ("named", .bool t.named) :: t.shape.entries)) =
        .ok ⟨some t.kind, some t.named, t.shape.entries⟩ :=
    addAll_documents ⟨some t.kind, some t.named, []⟩ t.shape.entries_unnamed t.shape.entries_within
  have document : t.toJson.document = .object (documentEntries
      (("type", .string t.kind) :: ("named", .bool t.named) :: t.shape.entries)) none := rfl
  rw [document, NodeType.ofDocument, added]
  show (Shape.ofEntries t.shape.entries >>= fun shape => pure (NodeType.mk t.kind t.named shape)) = _
  rw [Shape.ofEntries_entries]
  rfl

end NodeType

theorem Manifest.ofDocument_toJson (types : List NodeType) :
    Manifest.ofDocument (Manifest.toJson types).document = .ok types := by
  have read : Manifest.ofDocument (Manifest.toJson types).document =
      ((documents (types.map NodeType.toJson)).mapM NodeType.ofDocument >>= fun types =>
        pure types) := rfl
  rw [read, bind_pure, documents_eq, List.map_map]
  exact mapM_reread fun t _ => t.ofDocument_toJson

/-- Node types that are written to a manifest, indented or compact, and read again are the same, in the
same order, with their fields in the same order. -/
theorem manifest_roundTrip (types : List NodeType) :
    Manifest.read (Manifest.toJson types).prettyText.toList = .ok types ∧
      Manifest.read (Manifest.toJson types).compactText.toList = .ok types := by
  have plain : (Manifest.toJson types).Plain :=
    .array (List.forall_mem_map.mpr fun t _ => t.toJson_within.plain)
  exact ⟨(readJson_pretty _ plain).trans (Manifest.ofDocument_toJson types),
    (readJson_compact _ plain).trans (Manifest.ofDocument_toJson types)⟩

end CraftDsl
