import CraftDsl.Json.Document
import CraftDsl.Proofs.Json.Lexing

/-!
What is taken from a JSON text nests no deeper than the limit. Main statements: `value_nesting` and
`readJson_flat`.
-/
namespace CraftDsl

namespace JsonValue

theorem nestingItems_le {items : List JsonValue} {n : Nat} :
    nestingItems items ≤ n ↔ ∀ item ∈ items, item.nesting ≤ n := by
  induction items with
  | nil => simp [nestingItems]
  | cons item items ih => rw [nestingItems, Nat.max_le, ih, List.forall_mem_cons]

theorem nestingEntries_values (entries : List (String × JsonValue)) :
    nestingEntries entries = nestingItems (entries.map Prod.snd) := by
  induction entries with
  | nil => rfl
  | cons entry entries ih => rw [nestingEntries, ih, List.map_cons, nestingItems]

theorem nestingEntries_le {entries : List (String × JsonValue)} {n : Nat} :
    nestingEntries entries ≤ n ↔ ∀ entry ∈ entries, entry.2.nesting ≤ n := by
  rw [nestingEntries_values, nestingItems_le, List.forall_mem_map]

end JsonValue

open JsonValue

namespace JsonToken

def Flat : JsonToken → Prop
  | scalar value => ∀ v ∈ value, v.nesting = 0
  | _ => True

theorem scanText_flat (whole : Bool) (read text : List Char) : (scanText whole read text).1.Flat := by
  fun_induction scanText whole read text <;> trivial

theorem scanWord_flat {value : JsonValue} (flat : value.nesting = 0) (letters rest : List Char) :
    (scanWord value letters rest).1.Flat := by
  induction letters generalizing rest with
  | nil => rintro v ⟨⟩; exact flat
  | cons letter letters ih =>
    cases rest with
    | nil => trivial
    | cons c rest =>
      rw [scanWord]
      split
      · exact ih rest
      · trivial

theorem number_flat (parts : NumberParts) : (scalar parts.value).Flat := by
  intro v member
  rw [NumberParts.value] at member
  split at member
  · split at member <;> cases member <;> rfl
  · cases member

theorem scan_flat (c : Char) (rest : List Char) : (scan c rest).1.Flat := by
  unfold scan
  split
  all_goals first
    | trivial
    | exact scanText_flat _ _ _
    | exact scanWord_flat rfl _ _
    | skip
  split
  · split
    · exact number_flat _
    · trivial
  · trivial

theorem lex_flat (text : List Char) : ∀ token ∈ lex text, token.Flat := by
  induction length : text.length using Nat.strongRecOn generalizing text with
  | _ bound ih =>
    cases text with
    | nil => exact List.forall_mem_nil _
    | cons c rest =>
      have shorter := scan_shorter c rest
      rw [List.length_cons] at length
      rw [lex_cons]
      split
      · exact ih rest.length (by omega) rest rfl
      · exact List.forall_mem_cons.mpr ⟨scan_flat c rest, ih _ (by omega) _ rfl⟩

end JsonToken

namespace JsonDocument

inductive Flat : JsonDocument → Prop
  | quoted (value : Option String) : Flat (quoted value)
  | scalar {value : Option JsonValue} (flat : ∀ v ∈ value, v.nesting = 0) : Flat (scalar value)
  | broken (found : JsonBreak) : Flat (broken found)
  | array {items : List JsonDocument} (each : ∀ item ∈ items, item.Flat) (ending : Option JsonBreak) :
    Flat (array items ending)
  | object {entries : List (Option String × JsonDocument)} (each : ∀ entry ∈ entries, entry.2.Flat)
    (ending : Option JsonBreak) : Flat (object entries ending)

/-- Within a limit, what is read of flat tokens is flat, and so are the tokens after it. -/
structure ReadsFlat (limit : Nat) : Prop where
  value : ∀ tokens : List JsonToken, (∀ token ∈ tokens, token.Flat) →
    (readValue limit tokens).1.Flat ∧ ∀ token ∈ (readValue limit tokens).2, token.Flat
  items : ∀ tokens : List JsonToken, (∀ token ∈ tokens, token.Flat) →
    (∀ item ∈ (readItems limit tokens).1, item.Flat) ∧
      ∀ token ∈ (readItems limit tokens).2.2, token.Flat
  entries : ∀ tokens : List JsonToken, (∀ token ∈ tokens, token.Flat) →
    (∀ entry ∈ (readEntries limit tokens).1, entry.2.Flat) ∧
      ∀ token ∈ (readEntries limit tokens).2.2, token.Flat

section

variable {limit : Nat} (within : ReadsFlat limit) (tokens : List JsonToken)
  (flat : ∀ token ∈ tokens, token.Flat)

include within flat

theorem readValue_flat : (readValue (limit + 1) tokens).1.Flat ∧
    ∀ token ∈ (readValue (limit + 1) tokens).2, token.Flat := by
  cases tokens with
  | nil => exact ⟨.broken _, List.forall_mem_nil _⟩
  | cons token rest =>
    obtain ⟨here, later⟩ := List.forall_mem_cons.mp flat
    cases token with
    | text value => exact ⟨.quoted value, later⟩
    | scalar value => exact ⟨.scalar here, later⟩
    | arrayOpen =>
      by_cases closed : ∃ after, rest = .arrayClose :: after
      · obtain ⟨after, rfl⟩ := closed
        exact ⟨.array (List.forall_mem_nil _) none, (List.forall_mem_cons.mp later).2⟩
      · obtain ⟨items, after⟩ := within.items rest later
        rw [readValue]
        · exact ⟨.array items _, after⟩
        · exact fun after same => closed ⟨after, same⟩
    | objectOpen =>
      by_cases closed : ∃ after, rest = .objectClose :: after
      · obtain ⟨after, rfl⟩ := closed
        exact ⟨.object (List.forall_mem_nil _) none, (List.forall_mem_cons.mp later).2⟩
      · obtain ⟨entries, after⟩ := within.entries rest later
        rw [readValue]
        · exact ⟨.object entries _, after⟩
        · exact fun after same => closed ⟨after, same⟩
    | _ => exact ⟨.broken _, List.forall_mem_nil _⟩

theorem readItems_flat : (∀ item ∈ (readItems (limit + 1) tokens).1, item.Flat) ∧
    ∀ token ∈ (readItems (limit + 1) tokens).2.2, token.Flat := by
  obtain ⟨item, after⟩ := within.value tokens flat
  rw [readItems]
  split
  rename_i document rest read
  rw [read] at item after
  have alone : ∀ d ∈ [document], d.Flat := List.forall_mem_singleton.mpr item
  split
  · exact ⟨alone, List.forall_mem_nil _⟩
  · exact ⟨List.forall_mem_cons.mpr ⟨item, List.forall_mem_singleton.mpr (.broken _)⟩,
      List.forall_mem_nil _⟩
  · obtain ⟨items, last⟩ := within.items _ (List.forall_mem_cons.mp after).2
    exact ⟨List.forall_mem_cons.mpr ⟨item, items⟩, last⟩
  · exact ⟨alone, (List.forall_mem_cons.mp after).2⟩
  · exact ⟨alone, List.forall_mem_nil _⟩

theorem readEntries_flat : (∀ entry ∈ (readEntries (limit + 1) tokens).1, entry.2.Flat) ∧
    ∀ token ∈ (readEntries (limit + 1) tokens).2.2, token.Flat := by
  have nothing : ∀ entry ∈ ([] : List (Option String × JsonDocument)), entry.2.Flat :=
    List.forall_mem_nil _
  rcases tokens with _ | ⟨_ | _ | _ | _ | _ | _ | key | _ | _ | _, rest⟩
  case cons.text =>
    have later := (List.forall_mem_cons.mp flat).2
    have broken (found : JsonBreak) :
        ∀ entry ∈ [(key, JsonDocument.broken found)], entry.2.Flat :=
      List.forall_mem_singleton.mpr (.broken found)
    unfold readEntries
    split
    · exact ⟨broken _, List.forall_mem_nil _⟩
    · obtain ⟨value, after⟩ := within.value _ (List.forall_mem_cons.mp later).2
      split
      rename_i document rest read
      rw [read] at value after
      have alone : ∀ entry ∈ [(key, document)], entry.2.Flat := List.forall_mem_singleton.mpr value
      split
      · exact ⟨alone, List.forall_mem_nil _⟩
      · obtain ⟨entries, last⟩ := within.entries _ (List.forall_mem_cons.mp after).2
        exact ⟨List.forall_mem_cons.mpr ⟨value, entries⟩, last⟩
      · exact ⟨alone, (List.forall_mem_cons.mp after).2⟩
      · exact ⟨alone, List.forall_mem_nil _⟩
    · exact ⟨broken _, List.forall_mem_nil _⟩
  all_goals exact ⟨nothing, List.forall_mem_nil _⟩

end

theorem reads_flat (limit : Nat) : ReadsFlat limit := by
  induction limit with
  | zero =>
    have none := List.forall_mem_nil fun token : JsonToken => token.Flat
    refine ⟨fun tokens _ => ?_, fun tokens _ => ⟨List.forall_mem_nil _, none⟩, fun tokens _ => ?_⟩
    · cases tokens <;> exact ⟨.broken _, none⟩
    · cases tokens <;> exact ⟨List.forall_mem_nil _, none⟩
  | succ limit ih => exact ⟨readValue_flat ih, readItems_flat ih, readEntries_flat ih⟩

theorem valueItems_nesting {items : List JsonDocument} {depth : Nat} {values : List JsonValue}
    (within : depth ≤ nestingLimit)
    (each : ∀ item ∈ items, ∀ v, item.value depth = .ok v → depth + v.nesting ≤ nestingLimit)
    (taken : valueItems depth items = .ok values) : depth + nestingItems values ≤ nestingLimit := by
  induction items generalizing values with
  | nil =>
    cases taken
    exact within
  | cons item items ih =>
    obtain ⟨here, later⟩ := List.forall_mem_cons.mp each
    obtain ⟨v, first, taken⟩ := bind_eq_ok.mp taken
    obtain ⟨rest, others, same⟩ := bind_eq_ok.mp taken
    cases same
    have first := here v first
    have others := ih later others
    rw [nestingItems]
    omega

theorem valueEntries_nesting {entries : List (Option String × JsonDocument)} {depth : Nat}
    {values : List (String × JsonValue)} (within : depth ≤ nestingLimit)
    (each : ∀ entry ∈ entries, ∀ v, entry.2.value depth = .ok v → depth + v.nesting ≤ nestingLimit)
    (taken : valueEntries depth entries = .ok values) :
    depth + nestingEntries values ≤ nestingLimit := by
  induction entries generalizing values with
  | nil =>
    cases taken
    exact within
  | cons entry entries ih =>
    obtain ⟨_ | key, document⟩ := entry
    · cases taken
    · obtain ⟨here, later⟩ := List.forall_mem_cons.mp each
      obtain ⟨v, first, taken⟩ := bind_eq_ok.mp taken
      obtain ⟨rest, others, same⟩ := bind_eq_ok.mp taken
      cases same
      have first := here v first
      have others := ih later others
      rw [nestingEntries]
      omega

theorem value_nesting {d : JsonDocument} (flat : d.Flat) {depth : Nat} (within : depth ≤ nestingLimit)
    {v : JsonValue} (taken : d.value depth = .ok v) : depth + v.nesting ≤ nestingLimit := by
  induction flat generalizing depth v with
  | quoted value =>
    cases value <;> cases taken
    exact within
  | @scalar value flat =>
    cases value <;> cases taken
    rw [flat _ rfl]
    exact within
  | broken found => cases taken
  | array _ ending ih =>
    rw [value] at taken
    split at taken
    · rename_i room
      obtain ⟨values, members, taken⟩ := bind_eq_ok.mp taken
      obtain ⟨-, -, same⟩ := bind_eq_ok.mp taken
      cases same
      have members := valueItems_nesting room (fun item member _ => ih item member room) members
      rw [nesting]
      omega
    · cases taken
  | object _ ending ih =>
    rw [value] at taken
    split at taken
    · rename_i room
      obtain ⟨values, members, taken⟩ := bind_eq_ok.mp taken
      obtain ⟨-, -, same⟩ := bind_eq_ok.mp taken
      cases same
      have members := valueEntries_nesting room (fun entry member _ => ih entry member room) members
      rw [nesting]
      omega
    · cases taken

end JsonDocument

theorem readJson_flat {α : Type} {read : JsonDocument → Except JsonError α} {text : List Char} {a : α}
    (taken : readJson read text = .ok a) : ∃ d : JsonDocument, d.Flat ∧ read d = .ok a := by
  obtain ⟨flat, -⟩ := (JsonDocument.reads_flat (2 * (JsonToken.lex text).length + 1)).value _
    (JsonToken.lex_flat text)
  rw [readJson] at taken
  generalize JsonDocument.readValue (2 * (JsonToken.lex text).length + 1) (JsonToken.lex text) = result
    at flat taken
  obtain ⟨document, rest⟩ := result
  obtain ⟨value, found, taken⟩ := bind_eq_ok.mp taken
  split at taken
  · cases taken
    exact ⟨_, flat, found⟩
  · cases taken

end CraftDsl
