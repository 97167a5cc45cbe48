import CraftDsl.Json.Document
import CraftDsl.Proofs.Json.Printed

/-!
JSON values that are written and read again. Main statements: `readJson_pretty` and `value_document`.
-/
namespace CraftDsl

def fitting {α : Type} (room : Prop) [Decidable room] (value : α) : Except JsonError α :=
  if room then .ok value else .error .malformed

section

variable {α β : Type} {p q : Prop} [Decidable p] [Decidable q]

theorem fitting_yes (room : p) (a : α) : fitting p a = .ok a := if_pos room

theorem fitting_no (no_room : ¬ p) {a : α} : fitting p a = .error .malformed := if_neg no_room

theorem fitting_congr (same : p ↔ q) (a : α) : fitting p a = fitting q a := by
  simp only [fitting, same]

theorem fitting_bind {a : α} {b : β} {f : α → Except JsonError β} (next : f a = fitting q b) :
    (fitting p a >>= f) = fitting (p ∧ q) b := by
  by_cases room : p
  · rw [fitting_yes room]
    exact next.trans (fitting_congr (by simp [room]) b)
  · rw [fitting_no room, fitting_no fun both => room both.1]
    rfl

theorem fitting_map (p : Prop) [Decidable p] (a : α) (f : α → β) :
    (fitting p a >>= fun a => pure (f a)) = fitting p (f a) := by
  by_cases room : p
  · rw [fitting_yes room, fitting_yes room]
    rfl
  · rw [fitting_no room, fitting_no room]
    rfl

end

theorem mapM_reread {ε α β : Type} {write : α → β} {read : β → Except ε α} {items : List α}
    (each : ∀ a ∈ items, read (write a) = .ok a) : (items.map write).mapM read = .ok items := by
  induction items with
  | nil => rfl
  | cons a items ih =>
    obtain ⟨here, later⟩ := List.forall_mem_cons.mp each
    rw [List.map_cons, List.mapM_cons, here, ih later]
    rfl

namespace JsonValue

mutual

def document : JsonValue → JsonDocument
  | string text => .quoted (some text)
  | array items => .array (documents items) none
  | object entries => .object (documentEntries entries) none
  | value => .scalar (some value)

def documents : List JsonValue → List JsonDocument
  | [] => []
  | item :: items => item.document :: documents items

def documentEntries : List (String × JsonValue) → List (Option String × JsonDocument)
  | [] => []
  | (key, value) :: entries => (some key, value.document) :: documentEntries entries

end

theorem documents_eq (items : List JsonValue) : documents items = items.map document := by
  induction items with
  | nil => rfl
  | cons item items ih => rw [documents, ih, List.map_cons]

theorem tokens_begin (v : JsonValue) : ∃ token more, v.tokens = token :: more ∧ token ≠ .arrayClose := by
  cases v with
  | array items => cases items <;> exact ⟨_, _, rfl, by rintro ⟨⟩⟩
  | object entries =>
    rcases entries with _ | ⟨⟨key, value⟩, entries⟩ <;> exact ⟨_, _, rfl, by rintro ⟨⟩⟩
  | _ => exact ⟨_, _, rfl, by rintro ⟨⟩⟩

end JsonValue

namespace JsonDocument

open JsonValue

section

variable {limit : Nat} {token : JsonToken} {tokens more rest : List JsonToken}

theorem readValue_array (other : token ≠ .arrayClose) :
    readValue (limit + 1) (.arrayOpen :: token :: more) =
      (.array (readItems limit (token :: more)).1 (readItems limit (token :: more)).2.1,
        (readItems limit (token :: more)).2.2) := by
  cases token
  case arrayClose => exact absurd rfl other
  all_goals rfl

theorem readValue_object (key : Option String) :
    readValue (limit + 1) (.objectOpen :: .text key :: more) =
      (.object (readEntries limit (.text key :: more)).1 (readEntries limit (.text key :: more)).2.1,
        (readEntries limit (.text key :: more)).2.2) := rfl

theorem readItems_last {item : JsonDocument}
    (read : readValue limit tokens = (item, .arrayClose :: rest)) :
    readItems (limit + 1) tokens = ([item], none, rest) := by
  rw [readItems, read]

theorem readItems_more {item : JsonDocument} (other : token ≠ .arrayClose)
    (read : readValue limit tokens = (item, .comma :: token :: more)) :
    readItems (limit + 1) tokens =
      (item :: (readItems limit (token :: more)).1, (readItems limit (token :: more)).2) := by
  rw [readItems, read]
  cases token
  case arrayClose => exact absurd rfl other
  all_goals rfl

theorem readEntries_last {key : Option String} {value : JsonDocument}
    (read : readValue limit tokens = (value, .objectClose :: rest)) :
    readEntries (limit + 1) (.text key :: .colon :: tokens) = ([(key, value)], none, rest) := by
  simp only [readEntries, read]

theorem readEntries_more {key : Option String} {value : JsonDocument}
    (read : readValue limit tokens = (value, .comma :: rest)) :
    readEntries (limit + 1) (.text key :: .colon :: tokens) =
      ((key, value) :: (readEntries limit rest).1, (readEntries limit rest).2) := by
  simp only [readEntries, read]

end

/-- The value is read from its tokens within the limit, whatever comes after them. -/
def Restores (v : JsonValue) : Prop :=
  ∀ limit rest, 2 * v.tokens.length ≤ limit → readValue limit (v.tokens ++ rest) = (v.document, rest)

theorem readItems_tokens {item : JsonValue} {items : List JsonValue}
    (each : ∀ v ∈ item :: items, Restores v) (limit : Nat) (rest : List JsonToken)
    (enough : 2 * (item.tokens ++ itemTokens items).length ≤ limit) :
    readItems limit (item.tokens ++ (itemTokens items ++ rest)) =
      (documents (item :: items), none, rest) := by
  rw [List.length_append] at enough
  induction items generalizing item limit with
  | nil =>
    have here := each item List.mem_cons_self
    rw [itemTokens, List.length_singleton] at enough
    obtain ⟨limit, rfl⟩ := Nat.exists_eq_add_one.mpr (show 0 < limit by omega)
    exact readItems_last (here limit (.arrayClose :: rest) (by omega))
  | cons next items ih =>
    obtain ⟨here, later⟩ := List.forall_mem_cons.mp each
    rw [itemTokens, List.length_cons, List.length_append] at enough
    obtain ⟨limit, rfl⟩ := Nat.exists_eq_add_one.mpr (show 0 < limit by omega)
    have onward := ih later limit (by omega)
    have read := here limit (itemTokens (next :: items) ++ rest) (by omega)
    obtain ⟨token, more, begins, other⟩ := next.tokens_begin
    have tokens : itemTokens (next :: items) ++ rest =
        .comma :: token :: (more ++ (itemTokens items ++ rest)) := by simp [itemTokens, begins]
    rw [tokens] at read ⊢
    rw [begins, List.cons_append] at onward
    rw [readItems_more other read, onward]
    rfl

theorem readEntries_tokens {key : String} {value : JsonValue} {entries : List (String × JsonValue)}
    (each : ∀ entry ∈ (key, value) :: entries, Restores entry.2) (limit : Nat) (rest : List JsonToken)
    (enough : 2 * (value.tokens ++ entryTokens entries).length ≤ limit) :
    readEntries limit (.text (some key) :: .colon :: (value.tokens ++ (entryTokens entries ++ rest))) =
      (documentEntries ((key, value) :: entries), none, rest) := by
  rw [List.length_append] at enough
  induction entries generalizing key value limit with
  | nil =>
    have here : Restores value := each (key, value) List.mem_cons_self
    rw [entryTokens, List.length_singleton] at enough
    obtain ⟨limit, rfl⟩ := Nat.exists_eq_add_one.mpr (show 0 < limit by omega)
    exact readEntries_last (here limit (.objectClose :: rest) (by omega))
  | cons next entries ih =>
    obtain ⟨name, next⟩ := next
    obtain ⟨here, later⟩ := List.forall_mem_cons.mp each
    simp only [entryTokens, List.length_cons, List.length_append] at enough
    obtain ⟨limit, rfl⟩ := Nat.exists_eq_add_one.mpr (show 0 < limit by omega)
    have onward := ih later limit (by omega)
    have read : readValue limit (value.tokens ++ (entryTokens ((name, next) :: entries) ++ rest)) = _ :=
      here limit _ (by
        show 2 * value.tokens.length ≤ limit
        omega)
    have tokens : entryTokens ((name, next) :: entries) ++ rest = .comma :: .text (some name) ::
        .colon :: (next.tokens ++ (entryTokens entries ++ rest)) := by simp [entryTokens]
    rw [tokens] at read ⊢
    rw [readEntries_more read, onward]
    rfl

theorem readValue_tokens {v : JsonValue} (plain : v.Plain) : Restores v := by
  induction plain with
  | @array items _ ih =>
    intro limit rest enough
    cases items with
    | nil =>
      obtain ⟨limit, rfl⟩ := Nat.exists_eq_add_one.mpr (show 0 < limit by
        rw [tokens, List.length_cons] at enough
        omega)
      rfl
    | cons item items =>
      rw [tokens, List.length_cons] at enough
      obtain ⟨limit, rfl⟩ := Nat.exists_eq_add_one.mpr (show 0 < limit by omega)
      have read := readItems_tokens ih limit rest (by omega)
      obtain ⟨token, more, begins, other⟩ := item.tokens_begin
      rw [begins, List.cons_append] at read
      have tokens : (JsonValue.array (item :: items)).tokens ++ rest =
          .arrayOpen :: token :: (more ++ (itemTokens items ++ rest)) := by
        simp [JsonValue.tokens, begins]
      rw [tokens, readValue_array other, read]
      rfl
  | @object entries _ ih =>
    intro limit rest enough
    rcases entries with _ | ⟨⟨key, value⟩, entries⟩
    · obtain ⟨limit, rfl⟩ := Nat.exists_eq_add_one.mpr (show 0 < limit by
        rw [tokens, List.length_cons] at enough
        omega)
      rfl
    · simp only [tokens, List.length_cons] at enough
      obtain ⟨limit, rfl⟩ := Nat.exists_eq_add_one.mpr (show 0 < limit by omega)
      have read := readEntries_tokens ih limit rest (by omega)
      have tokens : (JsonValue.object ((key, value) :: entries)).tokens ++ rest = .objectOpen ::
          .text (some key) :: .colon :: (value.tokens ++ (entryTokens entries ++ rest)) := by
        simp [JsonValue.tokens]
      rw [tokens, readValue_object, read]
      rfl
  | _ =>
    intro limit rest enough
    have two : 2 ≤ limit := enough
    obtain ⟨limit, rfl⟩ := Nat.exists_eq_add_one.mpr (show 0 < limit by omega)
    rfl

theorem valueItems_documents {items : List JsonValue} {depth : Nat} (within : depth ≤ nestingLimit)
    (each : ∀ item ∈ items, item.document.value depth =
      fitting (depth + item.nesting ≤ nestingLimit) item) :
    valueItems depth (documents items) =
      fitting (depth + nestingItems items ≤ nestingLimit) items := by
  induction items with
  | nil => exact (fitting_yes within []).symm
  | cons item items ih =>
    obtain ⟨here, later⟩ := List.forall_mem_cons.mp each
    have both : depth + item.nesting ≤ nestingLimit ∧ depth + nestingItems items ≤ nestingLimit ↔
        depth + nestingItems (item :: items) ≤ nestingLimit := by
      rw [nestingItems]
      omega
    rw [documents, valueItems, here, ih later]
    refine (fitting_bind ?_).trans (fitting_congr both _)
    exact fitting_map _ _ _

theorem valueEntries_documents {entries : List (String × JsonValue)} {depth : Nat}
    (within : depth ≤ nestingLimit)
    (each : ∀ entry ∈ entries, entry.2.document.value depth =
      fitting (depth + entry.2.nesting ≤ nestingLimit) entry.2) :
    valueEntries depth (documentEntries entries) =
      fitting (depth + nestingEntries entries ≤ nestingLimit) entries := by
  induction entries with
  | nil => exact (fitting_yes within []).symm
  | cons entry entries ih =>
    obtain ⟨key, value⟩ := entry
    obtain ⟨here, later⟩ := List.forall_mem_cons.mp each
    have both : depth + value.nesting ≤ nestingLimit ∧ depth + nestingEntries entries ≤ nestingLimit ↔
        depth + nestingEntries ((key, value) :: entries) ≤ nestingLimit := by
      rw [nestingEntries]
      omega
    rw [documentEntries, valueEntries, here, ih later]
    refine (fitting_bind ?_).trans (fitting_congr both _)
    exact fitting_map _ _ _

/-- A value that is taken from its document is the same, unless it nests too deep. -/
theorem value_document {v : JsonValue} (plain : v.Plain) {depth : Nat} (within : depth ≤ nestingLimit) :
    v.document.value depth = fitting (depth + v.nesting ≤ nestingLimit) v := by
  induction plain generalizing depth with
  | @array items _ ih =>
    have deeper : depth + 1 + nestingItems items ≤ nestingLimit ↔
        depth + (JsonValue.array items).nesting ≤ nestingLimit := by
      rw [nesting]
      omega
    rw [document, value]
    by_cases room : depth < nestingLimit
    · rw [if_pos room, valueItems_documents room fun item member => ih item member room]
      exact (fitting_map _ _ _).trans (fitting_congr deeper _)
    · rw [if_neg room, fitting_no (by omega)]
  | @object entries _ ih =>
    have deeper : depth + 1 + nestingEntries entries ≤ nestingLimit ↔
        depth + (JsonValue.object entries).nesting ≤ nestingLimit := by
      rw [nesting]
      omega
    rw [document, value]
    by_cases room : depth < nestingLimit
    · rw [if_pos room, valueEntries_documents room fun entry member => ih entry member room]
      exact (fitting_map _ _ _).trans (fitting_congr deeper _)
    · rw [if_neg room, fitting_no (by omega)]
  | _ => exact (fitting_yes within _).symm

end JsonDocument

section

variable {α : Type} (read : JsonDocument → Except JsonError α) {v : JsonValue} (plain : v.Plain)

include plain

theorem readJson_tokens {text : List Char} (lexed : JsonToken.lex text = v.tokens) :
    readJson read text = read v.document := by
  have whole := JsonDocument.readValue_tokens plain (2 * v.tokens.length + 1) [] (Nat.le_succ _)
  rw [List.append_nil] at whole
  rw [readJson, lexed, whole]
  show (read v.document >>= fun value => pure value) = _
  rw [bind_pure]

theorem readJson_pretty : readJson read v.prettyText.toList = read v.document := by
  have alone := JsonValue.lex_pretty plain 0 JsonToken.ends_nil
  rw [JsonToken.lex_nil, List.append_nil, List.append_nil] at alone
  exact readJson_tokens read plain (by rwa [JsonValue.prettyText, String.toList_ofList])

theorem readJson_compact : readJson read v.compactText.toList = read v.document := by
  have alone := JsonValue.lex_compact plain JsonToken.ends_nil
  rw [JsonToken.lex_nil, List.append_nil, List.append_nil] at alone
  exact readJson_tokens read plain (by rwa [JsonValue.compactText, String.toList_ofList])

end

end CraftDsl
