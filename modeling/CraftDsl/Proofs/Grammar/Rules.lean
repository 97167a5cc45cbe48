import CraftDsl.Grammar.Json
import CraftDsl.Proofs.Json.Nesting
import CraftDsl.Proofs.Json.Rereading

/-!
Rules that are written as JSON and read again, alone and in the document of a grammar. Main statements:
`ofJson_toJson` and `ofDocument_toJson`.
-/
namespace CraftDsl

open JsonValue

namespace Rule

def form : Rule → RuleForm
  | blank => .blank
  | string _ => .string
  | pattern _ _ => .pattern
  | symbol _ => .symbol
  | seq _ => .seq
  | choice _ => .choice
  | repeat0 _ => .repeat0
  | repeat1 _ => .repeat1
  | field _ _ => .field
  | prec side _ _ => .prec side

def inner : Rule → List Rule
  | seq members | choice members => members
  | repeat0 content | repeat1 content | field _ content | prec _ _ content => [content]
  | _ => []

def fields : Rule → List (String × JsonValue)
  | blank => []
  | string value => [("value", .string value)]
  | pattern value flags =>
    ("value", .string value) :: flags.toList.map fun flags => ("flags", .string flags)
  | symbol name => [("name", .string name)]
  | seq members | choice members => [("members", .array (members.map toJson))]
  | repeat0 content | repeat1 content => [("content", content.toJson)]
  | field name content => [("name", .string name), ("content", content.toJson)]
  | prec _ value content => [("value", .integer value.toInt), ("content", content.toJson)]

theorem toJsonAll_eq (rules : List Rule) : toJsonAll rules = rules.map toJson := by
  induction rules with
  | nil => rfl
  | cons rule rules ih => rw [toJsonAll, ih, List.map_cons]

theorem toJson_eq (r : Rule) : r.toJson = .object (("type", .string r.form.tag) :: r.fields) := by
  cases r with
  | pattern value flags => cases flags <;> rfl
  | seq members => rw [toJson, toJsonAll_eq]; rfl
  | choice members => rw [toJson, toJsonAll_eq]; rfl
  | _ => rfl

theorem fields_untagged (r : Rule) : ∀ entry ∈ r.fields, entry.1 ≠ "type" := by
  cases r with
  | pattern value flags => cases flags <;> simp [fields]
  | _ => simp [fields]

theorem ofTag_tag (form : RuleForm) : RuleForm.ofTag form.tag = .ok form := by
  cases form with
  | prec side => cases side <;> rfl
  | _ => rfl

theorem int32_toInt (value : Int32) : int32 (.integer value.toInt) = .ok value := by
  have low := value.le_toInt
  have high := value.toInt_lt
  rw [int32, if_pos ⟨by simpa using low, by simpa using high⟩, Int32.ofInt_toInt]

/-- What is written of a rule is read again if the rules inside it are. -/
theorem ofContent_fields {rule : JsonValue → Except JsonError Rule} {r : Rule}
    (each : ∀ s ∈ r.inner, rule s.toJson = .ok s) :
    ofContent rule r.form (.keyed r.fields) = .ok r := by
  have single {content : Rule} (read : rule content.toJson = .ok content) (build : Rule → Rule) :
      (rule content.toJson >>= fun content => pure (build content)) = .ok (build content) := by
    rw [read]
    rfl
  have several {members : List Rule} (read : ∀ s ∈ members, rule s.toJson = .ok s)
      (build : List Rule → Rule) : ((members.map toJson).mapM rule >>= fun members =>
        pure (build members)) = .ok (build members) := by
    rw [mapM_reread read]
    rfl
  cases r with
  | blank => rfl
  | string value => rfl
  | pattern value flags => cases flags <;> rfl
  | symbol name => rfl
  | seq members => exact several each seq
  | choice members => exact several each choice
  | repeat0 content => exact single (each content List.mem_cons_self) repeat0
  | repeat1 content => exact single (each content List.mem_cons_self) repeat1
  | field name content => exact single (each content List.mem_cons_self) (field name)
  | prec side value content =>
    have read : ofContent rule (.prec side) (.keyed (prec side value content).fields) =
        (int32 (.integer value.toInt) >>= fun value => rule content.toJson >>= fun content =>
          pure (prec side value content)) := rfl
    rw [form, read, int32_toInt]
    exact single (each content List.mem_cons_self) (prec side value)

theorem nesting_toJson (r : Rule) : r.toJson.nesting = nestingEntries r.fields + 1 := by
  have tag : (JsonValue.string r.form.tag).nesting = 0 := rfl
  rw [toJson_eq, nesting, nestingEntries, tag, Nat.zero_max]

theorem nesting_inner {r s : Rule} (inside : s ∈ r.inner) : s.toJson.nesting < r.toJson.nesting := by
  have each := nestingEntries_le.mp (Nat.le_refl (nestingEntries r.fields))
  have members {rules : List Rule} (inside : s ∈ rules) :
      s.toJson.nesting ≤ (JsonValue.array (rules.map toJson)).nesting := by
    rw [nesting]
    exact Nat.le_succ_of_le (nestingItems_le.mp (Nat.le_refl _) _ (List.mem_map_of_mem inside))
  rw [r.nesting_toJson]
  refine Nat.lt_succ_of_le ?_
  cases r with
  | seq rules => exact Nat.le_trans (members inside) (each ("members", _) List.mem_cons_self)
  | choice rules => exact Nat.le_trans (members inside) (each ("members", _) List.mem_cons_self)
  | repeat0 content =>
    rw [List.mem_singleton.mp inside]
    exact each ("content", _) List.mem_cons_self
  | repeat1 content =>
    rw [List.mem_singleton.mp inside]
    exact each ("content", _) List.mem_cons_self
  | field name content =>
    rw [List.mem_singleton.mp inside]
    exact each ("content", _) (List.mem_cons_of_mem _ List.mem_cons_self)
  | prec side value content =>
    rw [List.mem_singleton.mp inside]
    exact each ("content", _) (List.mem_cons_of_mem _ List.mem_cons_self)
  | _ => cases inside

theorem filter_untagged {fields : List (String × JsonValue)}
    (untagged : ∀ entry ∈ fields, entry.1 ≠ "type") (form : RuleForm) :
    (("type", JsonValue.string form.tag) :: fields).filter (fun (key, _) => key ≠ "type") = fields := by
  rw [List.filter_cons_of_neg (by simp)]
  exact List.filter_eq_self.mpr fun entry member => decide_eq_true (untagged entry member)

theorem ofJsonWithin_tagged {levels : Nat} {form : RuleForm} {fields : List (String × JsonValue)}
    (untagged : ∀ entry ∈ fields, entry.1 ≠ "type") :
    ofJsonWithin (levels + 1) (.object (("type", .string form.tag) :: fields)) =
      ofContent (ofJsonWithin levels) form (.keyed fields) := by
  have none : fields.filter (fun entry => entry.1 = "type") = [] :=
    List.filter_eq_nil_iff.mpr fun entry member same => untagged entry member (of_decide_eq_true same)
  have tag : memberOf (("type", .string form.tag) :: fields) "type" = .ok (.string form.tag) := by
    rw [memberOf, member, List.filter_cons_of_pos (by rfl), none]
    rfl
  rw [ofJsonWithin, tag, filter_untagged untagged]
  show (RuleForm.ofTag form.tag >>= fun form => ofContent (ofJsonWithin levels) form (.keyed fields)) = _
  rw [ofTag_tag]
  rfl

theorem ofJsonWithin_toJson {levels : Nat} {r : Rule} (enough : r.toJson.nesting ≤ levels) :
    ofJsonWithin levels r.toJson = .ok r := by
  induction levels generalizing r with
  | zero =>
    rw [nesting_toJson] at enough
    cases enough
  | succ levels ih =>
    rw [toJson_eq, ofJsonWithin_tagged r.fields_untagged]
    exact ofContent_fields fun s inside => ih (by
      have deeper := nesting_inner inside
      omega)

theorem ofJson_toJson (r : Rule) : ofJson r.toJson = .ok r := ofJsonWithin_toJson (Nat.le_refl _)

theorem int32_short (value : Int32) : (Nat.toDigits 10 value.toInt.natAbs).length ≤ 200 := by
  have low := value.le_toInt
  have high := value.toInt_lt
  have ten : (Nat.toDigits 10 value.toInt.natAbs).length ≤ 10 :=
    (Nat.length_toDigits_le_iff (by decide) (by decide)).mpr (by omega)
  exact Nat.le_trans ten (by decide)

theorem plain_toJson (r : Rule) : r.toJson.Plain := by
  induction depth : r.toJson.nesting using Nat.strongRecOn generalizing r with
  | _ bound ih =>
    have inside : ∀ s ∈ r.inner, s.toJson.Plain := fun s inside =>
      ih _ (depth ▸ nesting_inner inside) s rfl
    have members {rules : List Rule} (each : ∀ s ∈ rules, s.toJson.Plain) :
        (JsonValue.array (rules.map toJson)).Plain :=
      .array (List.forall_mem_map.mpr each)
    rw [toJson_eq]
    refine .object (List.forall_mem_cons.mpr ⟨.string _, ?_⟩)
    cases r with
    | blank => exact List.forall_mem_nil _
    | pattern value flags => cases flags <;> simp [fields, Plain.string]
    | seq rules => exact List.forall_mem_singleton.mpr (members inside)
    | choice rules => exact List.forall_mem_singleton.mpr (members inside)
    | string value => exact List.forall_mem_singleton.mpr (.string value)
    | symbol name => exact List.forall_mem_singleton.mpr (.string name)
    | repeat0 content => exact List.forall_mem_singleton.mpr (inside _ List.mem_cons_self)
    | repeat1 content => exact List.forall_mem_singleton.mpr (inside _ List.mem_cons_self)
    | field name content =>
      exact List.forall_mem_cons.mpr ⟨.string name,
        List.forall_mem_singleton.mpr (inside _ List.mem_cons_self)⟩
    | prec side value content =>
      exact List.forall_mem_cons.mpr ⟨.integer (int32_short value),
        List.forall_mem_singleton.mpr (inside _ List.mem_cons_self)⟩

theorem readEntries_documents {fields : List (String × JsonValue)}
    (untagged : ∀ entry ∈ fields, entry.1 ≠ "type") (plain : ∀ entry ∈ fields, entry.2.Plain)
    (form : Option RuleForm) (kept : List (String × JsonValue)) :
    readEntries form kept (documentEntries fields) =
      fitting (valueDepth + nestingEntries fields ≤ nestingLimit) (form, kept ++ fields) := by
  induction fields generalizing kept with
  | nil =>
    rw [List.append_nil]
    exact (fitting_yes (by decide) _).symm
  | cons entry fields ih =>
    obtain ⟨key, value⟩ := entry
    obtain ⟨no_tag, untagged⟩ := List.forall_mem_cons.mp untagged
    obtain ⟨here, later⟩ := List.forall_mem_cons.mp plain
    have taken := JsonDocument.value_document here (show valueDepth ≤ nestingLimit by decide)
    have both : valueDepth + value.nesting ≤ nestingLimit ∧
        valueDepth + nestingEntries fields ≤ nestingLimit ↔
          valueDepth + nestingEntries ((key, value) :: fields) ≤ nestingLimit := by
      rw [nestingEntries]
      omega
    rw [documentEntries, readEntries, if_neg no_tag, taken]
    refine (fitting_bind ?_).trans (fitting_congr both _)
    rw [ih untagged later, List.append_assoc]
    rfl

theorem ofDocument_object (entries : List (Option String × JsonDocument)) :
    ofDocument (.object entries none) = (readEntries Option.none [] entries >>= fun read =>
      match read.1 with
      | some form => ofContent ofJson form (.keyed read.2)
      | Option.none => .error .wrongShape) := rfl

/-- A rule that is read from the document of its written form is the same, unless it nests too deep. -/
theorem ofDocument_toJson (r : Rule) :
    ofDocument r.toJson.document = fitting (2 + r.toJson.nesting ≤ nestingLimit) r := by
  have plain : ∀ entry ∈ r.fields, entry.2.Plain := by
    have whole := r.plain_toJson
    rw [toJson_eq] at whole
    cases whole with
    | object each => exact (List.forall_mem_cons.mp each).2
  have read : readEntries Option.none [] (documentEntries (("type", .string r.form.tag) :: r.fields)) =
      fitting (2 + r.toJson.nesting ≤ nestingLimit) (some r.form, r.fields) := by
    have rest := readEntries_documents r.fields_untagged plain (some r.form) []
    have tagged : readEntries Option.none []
        (documentEntries (("type", .string r.form.tag) :: r.fields)) =
        (RuleForm.ofTag r.form.tag >>= fun form =>
          readEntries (some form) [] (documentEntries r.fields)) := rfl
    rw [tagged, ofTag_tag, nesting_toJson]
    refine rest.trans (fitting_congr ?_ _)
    rw [valueDepth]
    omega
  have content : ofContent ofJson r.form (.keyed r.fields) = .ok r :=
    ofContent_fields fun s _ => ofJson_toJson s
  rw [congrArg document r.toJson_eq, document, ofDocument_object, read]
  by_cases room : 2 + r.toJson.nesting ≤ nestingLimit
  · rw [fitting_yes room, fitting_yes room]
    exact content
  · rw [fitting_no room, fitting_no room]
    rfl

end Rule

end CraftDsl
