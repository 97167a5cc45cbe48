import CraftDsl.Json.Token
import Mathlib.Tactic.Common

/-!
The lexer of JSON texts takes text with each token, so its limit is never met.
-/
namespace CraftDsl

theorem bind_eq_ok {ε α β : Type} {x : Except ε α} {f : α → Except ε β} {b : β} :
    (x >>= f) = .ok b ↔ ∃ a, x = .ok a ∧ f a = .ok b := by
  cases x with
  | ok a =>
    refine ⟨fun same => ⟨a, rfl, same⟩, ?_⟩
    rintro ⟨_, ⟨⟩, next⟩
    exact next
  | error e =>
    constructor
    · rintro ⟨⟩
    · rintro ⟨_, ⟨⟩, _⟩

namespace JsonToken

theorem scanText_shorter (whole : Bool) (read text : List Char) :
    (scanText whole read text).2.length ≤ text.length := by
  fun_induction scanText whole read text
  all_goals try simp only [List.length_drop, List.length_cons] at *
  all_goals first | exact Nat.zero_le _ | omega

theorem scanWord_shorter (value : JsonValue) (letters rest : List Char) :
    (scanWord value letters rest).2.length ≤ rest.length := by
  induction letters generalizing rest with
  | nil => exact Nat.le_refl _
  | cons letter letters ih =>
    cases rest with
    | nil => exact Nat.le_refl _
    | cons c rest =>
      rw [scanWord]
      split
      · exact Nat.le_succ_of_le (ih rest)
      · exact Nat.zero_le _

theorem scanWhole_shorter {text digits rest : List Char}
    (scanned : scanWhole text = .ok (digits, rest)) : rest.length < text.length := by
  simp only [scanWhole] at scanned
  split at scanned
  · cases scanned
  · split at scanned
    · cases scanned
    · rename_i some_digit _
      obtain ⟨rfl, rfl⟩ := Prod.mk.inj (Except.ok.inj scanned)
      have digits : 0 < (text.takeWhile Char.isDigit).length := by
        rw [List.length_pos_iff]
        simpa using some_digit
      have within := (List.takeWhile_prefix (p := Char.isDigit) (l := text)).length_le
      rw [List.length_drop]
      omega

theorem scanFraction_shorter {text rest : List Char} {fraction : Option (List Char)}
    (scanned : scanFraction text = .ok (fraction, rest)) : rest.length ≤ text.length := by
  unfold scanFraction at scanned
  split at scanned
  · simp only at scanned
    split at scanned
    · cases scanned
    · obtain ⟨-, rfl⟩ := Prod.mk.inj (Except.ok.inj scanned)
      rw [List.length_drop, List.length_cons]
      omega
  · obtain ⟨-, rfl⟩ := Prod.mk.inj (Except.ok.inj scanned)
    exact Nat.le_refl _

theorem scanExponent_shorter {text rest : List Char} {exponent : Option (Bool × List Char)}
    (scanned : scanExponent text = .ok (exponent, rest)) : rest.length ≤ text.length := by
  unfold scanExponent at scanned
  split at scanned
  · split at scanned
    · simp only at scanned
      split at scanned
      all_goals
        split at scanned
        · cases scanned
        · obtain ⟨-, rfl⟩ := Prod.mk.inj (Except.ok.inj scanned)
          simp only [List.length_drop, List.length_cons]
          omega
    · obtain ⟨-, rfl⟩ := Prod.mk.inj (Except.ok.inj scanned)
      exact Nat.le_refl _
  · obtain ⟨-, rfl⟩ := Prod.mk.inj (Except.ok.inj scanned)
    exact Nat.le_refl _

def scanUnsigned (negative : Bool) (text : List Char) : Except JsonBreak (NumberParts × List Char) := do
  let (whole, rest) ← scanWhole text
  let (fraction, rest) ← scanFraction rest
  let (exponent, rest) ← scanExponent rest
  return (⟨negative, whole, fraction, exponent⟩, rest)

theorem scanNumber_negative (text : List Char) : scanNumber ('-' :: text) = scanUnsigned true text := rfl

theorem scanNumber_unsigned {c : Char} (unsigned : c ≠ '-') (text : List Char) :
    scanNumber (c :: text) = scanUnsigned false (c :: text) := by
  unfold scanNumber
  split
  · rename_i rest same
    split at same
    · rename_i signed
      exact absurd (List.cons.inj signed).1 unsigned
    · obtain ⟨rfl, rfl⟩ := Prod.mk.inj same
      rfl

theorem scanUnsigned_shorter {negative : Bool} {text rest : List Char} {parts : NumberParts}
    (scanned : scanUnsigned negative text = .ok (parts, rest)) : rest.length < text.length := by
  obtain ⟨⟨digits, after⟩, whole, scanned⟩ := bind_eq_ok.mp scanned
  obtain ⟨⟨fraction, later⟩, fractional, scanned⟩ := bind_eq_ok.mp scanned
  obtain ⟨⟨exponent, last⟩, exponential, scanned⟩ := bind_eq_ok.mp scanned
  have whole := scanWhole_shorter whole
  have fractional := scanFraction_shorter fractional
  have exponential := scanExponent_shorter exponential
  obtain ⟨-, rfl⟩ := Prod.mk.inj (Except.ok.inj scanned)
  omega

theorem scanNumber_shorter {c : Char} {text rest : List Char} {parts : NumberParts}
    (scanned : scanNumber (c :: text) = .ok (parts, rest)) : rest.length ≤ text.length := by
  by_cases signed : c = '-'
  · rw [signed, scanNumber_negative] at scanned
    exact Nat.le_of_lt (scanUnsigned_shorter scanned)
  · rw [scanNumber_unsigned signed] at scanned
    exact Nat.lt_succ_iff.mp (scanUnsigned_shorter scanned)

theorem scan_shorter (c : Char) (rest : List Char) : (scan c rest).2.length ≤ rest.length := by
  unfold scan
  split
  all_goals first
    | exact Nat.le_refl _
    | exact scanText_shorter _ _ _
    | exact scanWord_shorter _ _ _
    | skip
  split
  · split
    · rename_i scanned
      exact scanNumber_shorter scanned
    · exact Nat.zero_le _
  · exact Nat.zero_le _

theorem lexOnto_eq (found : List JsonToken) {limit : Nat} {text : List Char}
    (long : text.length ≤ limit) : lexOnto found limit text = found.reverse ++ lex text := by
  induction limit using Nat.strongRecOn generalizing found text with
  | _ limit ih =>
    cases text with
    | nil => cases limit <;> simp [lex, lexOnto]
    | cons c rest =>
      obtain ⟨limit, rfl⟩ : ∃ further, limit = further + 1 := ⟨limit - 1, by
        rw [List.length_cons] at long
        omega⟩
      rw [List.length_cons, Nat.add_le_add_iff_right] at long
      have shorter := scan_shorter c rest
      have here (found : List JsonToken) (limit' : Nat) (less : limit' ≤ limit)
          (long : rest.length ≤ limit') :
          lexOnto found (limit' + 1) (c :: rest) =
            if isSpace c then found.reverse ++ lex rest
            else found.reverse ++ (scan c rest).1 :: lex (scan c rest).2 := by
        rw [lexOnto]
        split
        · exact ih limit' (by omega) found long
        · simp [ih limit' (by omega) ((scan c rest).1 :: found) (Nat.le_trans shorter long)]
      have alone : lex (c :: rest) = _ := here [] rest.length long (Nat.le_refl _)
      rw [here found limit (Nat.le_refl _) long, alone]
      split <;> simp

@[simp] theorem lex_nil : lex [] = [] := rfl

theorem lex_cons (c : Char) (rest : List Char) :
    lex (c :: rest) =
      if isSpace c then lex rest else (scan c rest).1 :: lex (scan c rest).2 := by
  rw [lex, List.length_cons, lexOnto]
  split
  · exact lexOnto_eq [] (Nat.le_refl _)
  · exact lexOnto_eq [_] (scan_shorter c rest)

end JsonToken

end CraftDsl
