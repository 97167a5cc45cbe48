import CraftDsl.Proofs.Json.Lexing
import Mathlib.Data.List.TakeWhile

/-!
JSON values as tokens: the written form of a value is read as the tokens of the value.
-/
namespace CraftDsl

namespace JsonToken

section

variable (rest : List Char)

@[simp] theorem lex_arrayOpen : lex ('[' :: rest) = .arrayOpen :: lex rest := lex_cons '[' rest

@[simp] theorem lex_arrayClose : lex (']' :: rest) = .arrayClose :: lex rest := lex_cons ']' rest

@[simp] theorem lex_objectOpen : lex ('\x7b' :: rest) = .objectOpen :: lex rest := lex_cons '\x7b' rest

@[simp] theorem lex_objectClose : lex ('\x7d' :: rest) = .objectClose :: lex rest := lex_cons '\x7d' rest

@[simp] theorem lex_comma : lex (',' :: rest) = .comma :: lex rest := lex_cons ',' rest

@[simp] theorem lex_colon : lex (':' :: rest) = .colon :: lex rest := lex_cons ':' rest

@[simp] theorem lex_space : lex (' ' :: rest) = lex rest := lex_cons ' ' rest

@[simp] theorem lex_newLine (level : Nat) : lex (JsonValue.newLine level ++ rest) = lex rest := by
  have spaces (n : Nat) : lex (List.replicate n ' ' ++ rest) = lex rest := by
    induction n with
    | zero => rfl
    | succ n ih => rw [List.replicate_succ, List.cons_append, lex_space, ih]
  rw [JsonValue.newLine, List.cons_append, lex_cons]
  exact spaces (2 * level)

end

section

variable (whole : Bool) (read more : List Char)

theorem scanText_plain {c : Char} (no_quote : c ≠ '"') (no_escape : c ≠ '\\') (high : 0x20 ≤ c.toNat) :
    scanText whole read (c :: more) = scanText whole (c :: read) more := by
  rw [scanText]
  · rw [if_neg (by omega)]
  all_goals grind

theorem scanText_simple {c escaped : Char} (simple : simpleEscape? c = some escaped) :
    scanText whole read ('\\' :: c :: more) = scanText whole (escaped :: read) more := by
  rw [scanText]
  · rw [simple]
  · rintro rfl
    cases simple

theorem scanText_control {c : Char} (control : c.toNat < 0x20) :
    scanText whole read (['\\', 'u', '0', '0', Nat.digitChar (c.toNat / 16),
      Nat.digitChar (c.toNat % 16)] ++ more) = scanText whole (c :: read) more := by
  have unit : hexUnit ('0' :: '0' :: Nat.digitChar (c.toNat / 16) :: Nat.digitChar (c.toNat % 16) ::
      more) = .ok c.toNat := by
    have each : ∀ n : Fin 32, hexUnit ['0', '0', Nat.digitChar (n / 16), Nat.digitChar (n % 16)] =
        .ok n.val := by decide
    exact each ⟨c.toNat, control⟩
  have low : isTrailSurrogate c.toNat = false ∧ isLeadSurrogate c.toNat = false := by
    constructor <;> simp [isTrailSurrogate, isLeadSurrogate] <;> omega
  simp only [List.cons_append, List.nil_append]
  rw [scanText, unit]
  simp [low.1, low.2, Char.ofNat_toNat]

theorem scanText_escaped (c : Char) :
    scanText whole read (JsonValue.escapeChar c ++ more) = scanText whole (c :: read) more := by
  unfold JsonValue.escapeChar
  split_ifs with quote escape newline carriage tab back form control
  · rw [quote]
    exact scanText_simple whole read more rfl
  · rw [escape]
    exact scanText_simple whole read more rfl
  · rw [newline]
    exact scanText_simple whole read more rfl
  · rw [carriage]
    exact scanText_simple whole read more rfl
  · rw [tab]
    exact scanText_simple whole read more rfl
  · rw [back]
    exact scanText_simple whole read more rfl
  · rw [form]
    exact scanText_simple whole read more rfl
  · exact scanText_control whole read more control
  · exact scanText_plain whole read more quote escape (Nat.le_of_not_lt control)

theorem scanText_quoted (text : List Char) :
    scanText true read (text.flatMap JsonValue.escapeChar ++ '"' :: more) =
      (.text (some (String.ofList (read.reverse ++ text))), more) := by
  induction text generalizing read with
  | nil =>
    rw [List.flatMap_nil, List.nil_append, List.append_nil, scanText]
    rfl
  | cons c text ih =>
    rw [List.flatMap_cons, List.append_assoc, scanText_escaped, ih, List.reverse_cons, List.append_assoc]
    rfl

@[simp] theorem lex_quote (text : String) (rest : List Char) :
    lex (JsonValue.quote text ++ rest) = .text (some text) :: lex rest := by
  have scanned := scanText_quoted [] rest text.toList
  have found : scan '"' (text.toList.flatMap JsonValue.escapeChar ++ '"' :: rest) = _ := scanned
  rw [JsonValue.quote, List.cons_append, List.cons_append, List.append_assoc, List.singleton_append,
    lex_cons, found, List.reverse_nil, List.nil_append, String.ofList_toList]
  rfl

end

def endsNumber (c : Char) : Bool := !c.isDigit && c ≠ '.' && c ≠ 'e' && c ≠ 'E'

def Ends (rest : List Char) : Prop := ∀ c ∈ rest.head?, endsNumber c = true

theorem ends_nil : Ends [] := by rintro c ⟨⟩

section

variable {n : Nat}

theorem digitsValue_toDigits (n : Nat) : digitsValue (Nat.toDigits 10 n) = n := by
  have value := Nat.ofDigitChars_ten_toDigits (n := n)
  rw [Nat.ofDigitChars_eq_foldl] at value
  simpa only [digitsValue, Nat.mul_comm] using value

theorem toDigits_digits : ∀ c ∈ Nat.toDigits 10 n, c.isDigit = true := fun _ member =>
  Nat.isDigit_of_mem_toDigits (by decide) (by decide) member

theorem toDigits_head (positive : 0 < n) : (Nat.toDigits 10 n).head? ≠ some '0' := by
  induction n using Nat.strongRecOn with
  | _ n ih =>
    rcases Nat.lt_or_ge n 10 with digit | wide
    · have each : ∀ d : Fin 10, 0 < d.val → [Nat.digitChar d].head? ≠ some '0' := by decide
      rw [Nat.toDigits_of_lt_base digit]
      exact each ⟨n, digit⟩ positive
    · rw [Nat.toDigits_of_base_le (by decide) wide]
      have front := ih (n / 10) (by omega) (by omega)
      obtain ⟨c, cs, digits⟩ := List.exists_cons_of_ne_nil (Nat.toDigits_ne_nil (n := n / 10) (b := 10))
      rw [digits] at front ⊢
      exact front

theorem scanUnsigned_digits (negative : Bool) (n : Nat) {rest : List Char} (ends : Ends rest) :
    scanUnsigned negative (Nat.toDigits 10 n ++ rest) =
      .ok (⟨negative, Nat.toDigits 10 n, none, none⟩, rest) := by
  have stop : rest.takeWhile Char.isDigit = [] ∧ scanFraction rest = .ok (none, rest) ∧
      scanExponent rest = .ok (none, rest) := by
    cases rest with
    | nil => exact ⟨rfl, rfl, rfl⟩
    | cons c rest =>
      have parts := ends c rfl
      simp only [endsNumber, Bool.and_eq_true, Bool.not_eq_true', decide_eq_true_eq] at parts
      obtain ⟨⟨⟨no_digit, no_point⟩, no_e⟩, no_E⟩ := parts
      refine ⟨List.takeWhile_cons_of_neg (Bool.eq_false_iff.mp no_digit), ?_, ?_⟩
      · unfold scanFraction
        split
        · rename_i same
          exact absurd (List.cons.inj same).1 no_point
        · rfl
      · simp [scanExponent, no_e, no_E]
  have run : (Nat.toDigits 10 n ++ rest).takeWhile Char.isDigit = Nat.toDigits 10 n := by
    rw [List.takeWhile_append_of_pos toDigits_digits, stop.1, List.append_nil]
  have whole : scanWhole (Nat.toDigits 10 n ++ rest) = .ok (Nat.toDigits 10 n, rest) := by
    have some_digit : ¬ (Nat.toDigits 10 n).isEmpty = true := by simp
    have no_zero :
        ¬ ((Nat.toDigits 10 n).head? = some '0' && (Nat.toDigits 10 n).length ≠ 1) = true := by
      rcases Nat.eq_zero_or_pos n with rfl | positive
      · decide
      · simp [toDigits_head positive]
    simp only [scanWhole, run, if_neg some_digit, if_neg no_zero, List.drop_left']
  rw [scanUnsigned, whole]
  show (scanFraction rest >>= fun fraction => scanExponent fraction.2 >>= fun exponent =>
    pure (NumberParts.mk negative (Nat.toDigits 10 n) fraction.1 exponent.1, exponent.2)) = _
  rw [stop.2.1]
  show (scanExponent rest >>= fun exponent =>
    pure (NumberParts.mk negative (Nat.toDigits 10 n) none exponent.1, exponent.2)) = _
  rw [stop.2.2]
  rfl

theorem value_digits (negative : Bool) (short : (Nat.toDigits 10 n).length ≤ 200)
    (signed : negative = true → 0 < n) :
    NumberParts.value ⟨negative, Nat.toDigits 10 n, none, none⟩ =
      some (.integer (if negative then -n else n)) := by
  have range : NumberParts.inRange ⟨negative, Nat.toDigits 10 n, none, none⟩ = true := by
    have less := (List.dropWhile_suffix (l := Nat.toDigits 10 n) (· = '0')).length_le
    simp only [NumberParts.inRange, Option.getD_none, List.append_nil, List.length_nil]
    rw [if_pos]
    rw [Bool.or_eq_true, decide_eq_true_iff]
    right
    omega
  have integer : NumberParts.integer? ⟨negative, Nat.toDigits 10 n, none, none⟩ =
      some (if negative then -(n : Int) else n) := by
    simp only [NumberParts.integer?, digitsValue_toDigits, Option.isSome_none, Bool.false_or]
    rw [if_neg]
    rw [Bool.and_eq_true, decide_eq_true_iff]
    rintro ⟨minus, zero⟩
    have positive := signed minus
    omega
  rw [NumberParts.value, if_pos range, integer]

theorem scan_number {c : Char} (starts : c = '-' ∨ c.isDigit = true) {rest after : List Char}
    {parts : NumberParts} (scanned : scanNumber (c :: rest) = .ok (parts, after)) :
    scan c rest = (.scalar parts.value, after) := by
  have number : (c = '-' || c.isDigit) = true := by simpa using starts
  unfold scan
  split
  case h_11 => rw [if_pos number, scanned]
  all_goals cases number

end

theorem lex_integer {n : Int} (short : (Nat.toDigits 10 n.natAbs).length ≤ 200) {rest : List Char}
    (ends : Ends rest) :
    lex (JsonValue.integerText n ++ rest) = .scalar (some (.integer n)) :: lex rest := by
  cases n with
  | ofNat n =>
    obtain ⟨c, cs, digits⟩ := List.exists_cons_of_ne_nil (Nat.toDigits_ne_nil (n := n) (b := 10))
    have digit : c.isDigit = true := toDigits_digits (n := n) c (digits ▸ List.mem_cons_self)
    have unsigned : c ≠ '-' := by
      rintro rfl
      cases digit
    have solid : isSpace c = false := by
      rw [← Bool.not_eq_true]
      intro space
      simp only [isSpace, Bool.or_eq_true, decide_eq_true_eq] at space
      rcases space with ((rfl | rfl) | rfl) | rfl <;> cases digit
    have scanned := scanUnsigned_digits false n ends
    rw [digits, List.cons_append, ← scanNumber_unsigned unsigned] at scanned
    have value := value_digits (n := n) false short Bool.noConfusion
    rw [digits] at value
    have found := scan_number (.inr digit) scanned
    rw [value] at found
    rw [JsonValue.integerText, digits, List.cons_append, lex_cons, found, solid]
    rfl
  | negSucc n =>
    have scanned := scanUnsigned_digits true (n + 1) ends
    rw [← scanNumber_negative] at scanned
    have found := scan_number (.inl rfl) scanned
    rw [value_digits (n := n + 1) true short fun _ => Nat.succ_pos n] at found
    rw [JsonValue.integerText, List.cons_append, lex_cons, found]
    rfl

end JsonToken

namespace JsonValue

/-- Its numbers are integers of no more than two hundred digits. -/
inductive Plain : JsonValue → Prop
  | null : Plain null
  | bool (value : Bool) : Plain (bool value)
  | integer {n : Int} (short : (Nat.toDigits 10 n.natAbs).length ≤ 200) : Plain (integer n)
  | string (text : String) : Plain (string text)
  | array {items : List JsonValue} (each : ∀ item ∈ items, item.Plain) : Plain (array items)
  | object {entries : List (String × JsonValue)} (each : ∀ entry ∈ entries, entry.2.Plain) :
    Plain (object entries)

mutual

def tokens : JsonValue → List JsonToken
  | string text => [.text (some text)]
  | array [] => [.arrayOpen, .arrayClose]
  | array (item :: items) => .arrayOpen :: (item.tokens ++ itemTokens items)
  | object [] => [.objectOpen, .objectClose]
  | object ((key, value) :: entries) =>
    .objectOpen :: .text (some key) :: .colon :: (value.tokens ++ entryTokens entries)
  | value => [.scalar (some value)]

def itemTokens : List JsonValue → List JsonToken
  | [] => [.arrayClose]
  | item :: items => .comma :: (item.tokens ++ itemTokens items)

def entryTokens : List (String × JsonValue) → List JsonToken
  | [] => [.objectClose]
  | (key, value) :: entries =>
    .comma :: .text (some key) :: .colon :: (value.tokens ++ entryTokens entries)

end

open JsonToken (lex Ends)

section

variable {level : Nat}

theorem lex_prettyItems {items : List JsonValue}
    (each : ∀ item ∈ items, ∀ {rest}, Ends rest →
      lex (item.pretty (level + 1) ++ rest) = item.tokens ++ lex rest) (rest : List Char) :
    Ends (prettyItems level items ++ rest) ∧
      lex (prettyItems level items ++ rest) = itemTokens items ++ lex rest := by
  induction items with
  | nil =>
    refine ⟨by rintro c ⟨⟩; rfl, ?_⟩
    simp [prettyItems, itemTokens]
  | cons item items ih =>
    obtain ⟨here, later⟩ := List.forall_mem_cons.mp each
    obtain ⟨ends, lexed⟩ := ih later
    refine ⟨by rintro c ⟨⟩; rfl, ?_⟩
    simp [prettyItems, itemTokens, here ends, lexed]

theorem lex_prettyEntries {entries : List (String × JsonValue)}
    (each : ∀ entry ∈ entries, ∀ {rest}, Ends rest →
      lex (entry.2.pretty (level + 1) ++ rest) = entry.2.tokens ++ lex rest) (rest : List Char) :
    Ends (prettyEntries level entries ++ rest) ∧
      lex (prettyEntries level entries ++ rest) = entryTokens entries ++ lex rest := by
  induction entries with
  | nil =>
    refine ⟨by rintro c ⟨⟩; rfl, ?_⟩
    simp [prettyEntries, entryTokens]
  | cons entry entries ih =>
    obtain ⟨here, later⟩ := List.forall_mem_cons.mp each
    obtain ⟨ends, lexed⟩ := ih later
    refine ⟨by rintro c ⟨⟩; rfl, ?_⟩
    simp [prettyEntries, entryTokens, here ends, lexed]

/-- The indented form is read as the tokens of the value, at any level. -/
theorem lex_pretty {v : JsonValue} (plain : v.Plain) (level : Nat) {rest : List Char}
    (ends : Ends rest) : lex (v.pretty level ++ rest) = v.tokens ++ lex rest := by
  induction plain generalizing level rest with
  | null => exact JsonToken.lex_cons 'n' _
  | bool value =>
    cases value with
    | false => exact JsonToken.lex_cons 'f' _
    | true => exact JsonToken.lex_cons 't' _
  | integer short =>
    rw [pretty, JsonToken.lex_integer short ends]
    rfl
  | string text =>
    rw [pretty, JsonToken.lex_quote]
    rfl
  | @array items _ ih =>
    cases items with
    | nil => simp [pretty, tokens]
    | cons item items =>
      obtain ⟨here, later⟩ := List.forall_mem_cons.mp ih
      obtain ⟨ends, lexed⟩ := lex_prettyItems (fun item member => later item member (level + 1)) rest
      simp [pretty, tokens, here _ ends, lexed]
  | @object entries _ ih =>
    cases entries with
    | nil => simp [pretty, tokens]
    | cons entry entries =>
      obtain ⟨here, later⟩ := List.forall_mem_cons.mp ih
      obtain ⟨ends, lexed⟩ := lex_prettyEntries (fun entry member => later entry member (level + 1)) rest
      simp [pretty, tokens, here _ ends, lexed]

end

theorem lex_compactItems {items : List JsonValue}
    (each : ∀ item ∈ items, ∀ {rest}, Ends rest →
      lex (item.compact ++ rest) = item.tokens ++ lex rest) (rest : List Char) :
    Ends (compactItems items ++ rest) ∧
      lex (compactItems items ++ rest) = itemTokens items ++ lex rest := by
  induction items with
  | nil =>
    refine ⟨by rintro c ⟨⟩; rfl, ?_⟩
    simp [compactItems, itemTokens]
  | cons item items ih =>
    obtain ⟨here, later⟩ := List.forall_mem_cons.mp each
    obtain ⟨ends, lexed⟩ := ih later
    refine ⟨by rintro c ⟨⟩; rfl, ?_⟩
    simp [compactItems, itemTokens, here ends, lexed]

theorem lex_compactEntries {entries : List (String × JsonValue)}
    (each : ∀ entry ∈ entries, ∀ {rest}, Ends rest →
      lex (entry.2.compact ++ rest) = entry.2.tokens ++ lex rest) (rest : List Char) :
    Ends (compactEntries entries ++ rest) ∧
      lex (compactEntries entries ++ rest) = entryTokens entries ++ lex rest := by
  induction entries with
  | nil =>
    refine ⟨by rintro c ⟨⟩; rfl, ?_⟩
    simp [compactEntries, entryTokens]
  | cons entry entries ih =>
    obtain ⟨here, later⟩ := List.forall_mem_cons.mp each
    obtain ⟨ends, lexed⟩ := ih later
    refine ⟨by rintro c ⟨⟩; rfl, ?_⟩
    simp [compactEntries, entryTokens, here ends, lexed]

/-- The compact form is read as the same tokens. -/
theorem lex_compact {v : JsonValue} (plain : v.Plain) {rest : List Char} (ends : Ends rest) :
    lex (v.compact ++ rest) = v.tokens ++ lex rest := by
  induction plain generalizing rest with
  | null => exact JsonToken.lex_cons 'n' _
  | bool value =>
    cases value with
    | false => exact JsonToken.lex_cons 'f' _
    | true => exact JsonToken.lex_cons 't' _
  | integer short =>
    rw [compact, JsonToken.lex_integer short ends]
    rfl
  | string text =>
    rw [compact, JsonToken.lex_quote]
    rfl
  | @array items _ ih =>
    cases items with
    | nil => simp [compact, tokens]
    | cons item items =>
      obtain ⟨here, later⟩ := List.forall_mem_cons.mp ih
      obtain ⟨ends, lexed⟩ := lex_compactItems later rest
      simp [compact, tokens, here ends, lexed]
  | @object entries _ ih =>
    cases entries with
    | nil => simp [compact, tokens]
    | cons entry entries =>
      obtain ⟨here, later⟩ := List.forall_mem_cons.mp ih
      obtain ⟨ends, lexed⟩ := lex_compactEntries later rest
      simp [compact, tokens, here ends, lexed]

end JsonValue

end CraftDsl
