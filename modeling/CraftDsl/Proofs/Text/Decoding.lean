import CraftDsl.Text.Position
import Mathlib.Algebra.Group.Nat.Defs
import Mathlib.Data.List.Infix
import Mathlib.Data.Nat.Find
import Mathlib.Tactic.SplitIfs

/-!
The reading of bytes against the forms of characters. Any bytes fall into the forms of characters and
maximal invalid parts, and reading them gives each character back and one replacement character for
each part.
-/
namespace CraftDsl.Utf8

def BeginsChar (bytes : List UInt8) : Prop := ∃ c, bytes <+: String.utf8EncodeChar c

/-- Where no whole character stands: the longest bytes that begin one, or a single byte that begins
none. -/
structure MaximalInvalid (part rest : List UInt8) : Prop where
  some : part ≠ []
  broken : ∀ c, ¬ String.utf8EncodeChar c <+: part ++ rest
  begins : part.length = 1 ∨ BeginsChar part
  maximal : ∀ longer, longer <+: part ++ rest → BeginsChar longer → longer.length ≤ part.length

theorem BeginsChar.front {front bytes : List UInt8} (begins : BeginsChar bytes)
    (shorter : front <+: bytes) : BeginsChar front :=
  begins.imp fun _ longer => shorter.trans longer

/-- A character of a source of bytes, or what stands where there is none. -/
inductive Segment
  | char (c : Char)
  | invalid (part : List UInt8)

namespace Segment

def read : Segment → Char
  | char c => c
  | invalid _ => replacementChar

end Segment

/-- The bytes are cut into characters and maximal invalid parts. -/
inductive Segmented : List UInt8 → List Segment → Prop
  | nil : Segmented [] []
  | char {c : Char} {rest : List UInt8} {segments : List Segment} (later : Segmented rest segments) :
      Segmented (String.utf8EncodeChar c ++ rest) (.char c :: segments)
  | invalid {part rest : List UInt8} {segments : List Segment} (maximal : MaximalInvalid part rest)
      (later : Segmented rest segments) : Segmented (part ++ rest) (.invalid part :: segments)

def tailCount (v : Nat) : Nat :=
  if v ≤ 0x7f then 0 else if v ≤ 0x7ff then 1 else if v ≤ 0xffff then 2 else 3

def leadMark : Nat → Nat
  | 0 => 0
  | 1 => 0xc0
  | 2 => 0xe0
  | _ => 0xf0

/-- The last `k` tail bytes of a value. -/
def tails : Nat → Nat → List UInt8
  | 0, _ => []
  | k + 1, v => UInt8.ofNat (0x80 + v / 64 ^ k % 64) :: tails k v

theorem length_tails (k v : Nat) : (tails k v).length = k := by
  induction k with
  | zero => rfl
  | succ k ih => rw [tails, List.length_cons, ih]

theorem tail_toNat (v k : Nat) :
    (UInt8.ofNat (0x80 + v / 64 ^ k % 64)).toNat = 0x80 + v / 64 ^ k % 64 := by
  have small := Nat.mod_lt (v / 64 ^ k) (show 0 < 64 by decide)
  rw [UInt8.toNat_ofNat']
  omega

theorem toNat_bounds (c : Char) :
    c.toNat < 0xd800 ∨ 0xdfff < c.toNat ∧ c.toNat < 0x110000 := c.valid

theorem toNat_ofNat {v : Nat} (valid : v.isValidChar) : (Char.ofNat v).toNat = v := by
  rw [Char.ofNat, dif_pos valid]
  rfl

theorem utf8EncodeChar_eq (c : Char) :
    String.utf8EncodeChar c =
      UInt8.ofNat (leadMark (tailCount c.toNat) + c.toNat / 64 ^ tailCount c.toNat) ::
        tails (tailCount c.toNat) c.toNat := by
  have bounds := toNat_bounds c
  have same : c.val.toNat = c.toNat := rfl
  unfold String.utf8EncodeChar tailCount
  simp only [same]
  split_ifs <;> simp only [leadMark, tails, List.cons.injEq, and_true]
  · exact congrArg UInt8.ofNat (by omega)
  · exact ⟨congrArg UInt8.ofNat (by omega), congrArg UInt8.ofNat (by omega)⟩
  · exact ⟨congrArg UInt8.ofNat (by omega), congrArg UInt8.ofNat (by omega),
      congrArg UInt8.ofNat (by omega)⟩
  · exact ⟨congrArg UInt8.ofNat (by omega), congrArg UInt8.ofNat (by omega),
      congrArg UInt8.ofNat (by omega), congrArg UInt8.ofNat (by omega)⟩

theorem utf8EncodeChar_append_ne_nil (c : Char) (rest : List UInt8) :
    String.utf8EncodeChar c ++ rest ≠ [] := by
  simp [utf8EncodeChar_eq]

theorem MaximalInvalid.of_single {b : UInt8} (none : ¬ BeginsChar [b]) (rest : List UInt8) :
    MaximalInvalid [b] rest where
  some := List.cons_ne_nil _ _
  broken := fun c whole => by
    rw [utf8EncodeChar_eq] at whole
    obtain ⟨rfl, -⟩ := List.cons_prefix_cons.mp whole
    exact none ⟨c, utf8EncodeChar_eq c ▸ List.prefix_append [_] _⟩
  begins := .inl rfl
  maximal := fun longer front begins => by
    cases longer with
    | nil => exact Nat.zero_le _
    | cons first longer =>
      obtain ⟨rfl, -⟩ := List.cons_prefix_cons.mp front
      exact absurd (begins.front (List.prefix_append [first] longer)) none

/-- What the bytes read and the state after them have in common: the characters they begin are those
with the bits of the state, `k` tail bytes are owed after the next one, and the next byte may be what
it is in one of these characters. -/
structure Begun (read : List UInt8) (k : Nat) (state : PartialChar) : Prop where
  owed : state.owed = k + 1
  form : ∀ c : Char, read <+: String.utf8EncodeChar c ↔
    c.toNat / 64 ^ (k + 1) = state.bits ∧ tailCount c.toNat = read.length + k
  rest : ∀ c : Char, read <+: String.utf8EncodeChar c →
    String.utf8EncodeChar c = read ++ tails (k + 1) c.toNat
  fits : ∀ v, v / 64 ^ (k + 1) = state.bits →
    (state.low ≤ 0x80 + v / 64 ^ k % 64 ∧ 0x80 + v / 64 ^ k % 64 ≤ state.high ↔
      v.isValidChar ∧ tailCount v = read.length + k)
  tail : 0x80 ≤ state.low ∧ state.high ≤ 0xbf

namespace Begun

variable {read : List UInt8} {k : Nat} {state : PartialChar}

theorem prefix_snoc (begun : Begun read k state) (b : UInt8) (c : Char) :
    read ++ [b] <+: String.utf8EncodeChar c ↔
      read <+: String.utf8EncodeChar c ∧ 0x80 + c.toNat / 64 ^ k % 64 = b.toNat := by
  constructor
  · intro longer
    have front := (List.prefix_append read [b]).trans longer
    refine ⟨front, ?_⟩
    rw [begun.rest c front, List.prefix_append_right_inj, tails] at longer
    rw [(List.cons_prefix_cons.mp longer).1, tail_toNat]
  · rintro ⟨front, same⟩
    have byte : UInt8.ofNat (0x80 + c.toNat / 64 ^ k % 64) = b := by rw [same, UInt8.ofNat_toNat]
    rw [begun.rest c front, tails, byte]
    exact (List.prefix_append_right_inj _).mpr (List.prefix_append [b] _)

theorem bits_next (v k : Nat) : v / 64 ^ k = v / 64 ^ (k + 1) * 64 + v / 64 ^ k % 64 := calc
  v / 64 ^ k = v / 64 ^ k / 64 * 64 + v / 64 ^ k % 64 := (Nat.div_add_mod' _ 64).symm
  _ = v / 64 ^ (k + 1) * 64 + v / 64 ^ k % 64 := by rw [Nat.div_div_eq_div_mul, Nat.pow_succ]

theorem tail_bounds (begun : Begun read k state) {b : UInt8}
    (between : state.low ≤ b.toNat ∧ b.toNat ≤ state.high) : 0x80 ≤ b.toNat ∧ b.toNat ≤ 0xbf :=
  ⟨begun.tail.1.trans between.1, between.2.trans begun.tail.2⟩

theorem takes_iff (begun : Begun read k state) (b : UInt8) :
    state.low ≤ b.toNat ∧ b.toNat ≤ state.high ↔ BeginsChar (read ++ [b]) := by
  constructor
  · intro between
    have bounds := begun.tail_bounds between
    -- the first of the values whose bits go on with those of the byte
    let v := (state.bits * 64 + (b.toNat - 0x80)) * 64 ^ k
    have next : v / 64 ^ k = state.bits * 64 + (b.toNat - 0x80) :=
      Nat.mul_div_cancel _ (Nat.pow_pos (by decide))
    have bits : v / 64 ^ (k + 1) = state.bits := by
      rw [Nat.pow_succ, ← Nat.div_div_eq_div_mul, next]
      omega
    have byte : 0x80 + v / 64 ^ k % 64 = b.toNat := by omega
    obtain ⟨valid, count⟩ := (begun.fits v bits).mp (by rwa [byte])
    refine ⟨Char.ofNat v, (begun.prefix_snoc b _).mpr ⟨(begun.form _).mpr ?_, ?_⟩⟩
    · rw [toNat_ofNat valid]
      exact ⟨bits, count⟩
    · rw [toNat_ofNat valid, byte]
  · rintro ⟨c, longer⟩
    obtain ⟨front, byte⟩ := (begun.prefix_snoc b c).mp longer
    obtain ⟨bits, count⟩ := (begun.form c).mp front
    rw [← byte]
    exact (begun.fits _ bits).mpr ⟨c.valid, count⟩

/-- The characters that a taken byte leads on to. -/
theorem form_snoc (begun : Begun read k state) {b : UInt8}
    (between : state.low ≤ b.toNat ∧ b.toNat ≤ state.high) (c : Char) :
    read ++ [b] <+: String.utf8EncodeChar c ↔
      c.toNat / 64 ^ k = state.bits * 64 + (b.toNat - 0x80) ∧
        tailCount c.toNat = read.length + k := by
  have bounds := begun.tail_bounds between
  have split := bits_next c.toNat k
  rw [begun.prefix_snoc, begun.form]
  omega

theorem complete (begun : Begun read 0 state) {b : UInt8}
    (between : state.low ≤ b.toNat ∧ b.toNat ≤ state.high) :
    String.utf8EncodeChar (Char.ofNat (state.bits * 64 + (b.toNat - 0x80))) = read ++ [b] := by
  obtain ⟨c, longer⟩ := (begun.takes_iff b).mp between
  obtain ⟨front, byte⟩ := (begun.prefix_snoc b c).mp longer
  obtain ⟨bits, -⟩ := (begun.form_snoc between c).mp longer
  rw [Nat.pow_zero, Nat.div_one] at bits
  rw [← bits, Char.ofNat_toNat, begun.rest c front, tails, tails, byte, UInt8.ofNat_toNat]

theorem snoc (begun : Begun read (k + 1) state) {b : UInt8}
    (between : state.low ≤ b.toNat ∧ b.toNat ≤ state.high) :
    Begun (read ++ [b]) k ⟨state.bits * 64 + (b.toNat - 0x80), state.owed - 1, 0x80, 0xbf⟩ where
  owed := by rw [begun.owed, Nat.add_sub_cancel]
  form := fun c => by
    rw [begun.form_snoc between, List.length_append, List.length_singleton, Nat.add_right_comm,
      Nat.add_assoc]
  rest := fun c longer => by
    obtain ⟨front, byte⟩ := (begun.prefix_snoc b c).mp longer
    rw [begun.rest c front, tails, byte, UInt8.ofNat_toNat, List.append_assoc, List.singleton_append]
  fits := fun v bits => by
    have bounds := begun.tail_bounds between
    have split := bits_next v (k + 1)
    dsimp only at bits ⊢
    have byte : 0x80 + v / 64 ^ (k + 1) % 64 = b.toNat := by omega
    obtain ⟨valid, count⟩ := (begun.fits v (by omega)).mp (by rwa [byte])
    have small := Nat.mod_lt (v / 64 ^ k) (show 0 < 64 by decide)
    rw [List.length_append, List.length_singleton]
    exact ⟨fun _ => ⟨valid, by omega⟩, fun _ => by omega⟩
  tail := ⟨Nat.le_refl _, Nat.le_refl _⟩

end Begun

theorem lead_iff (b : UInt8) (c : Char) :
    [b] <+: String.utf8EncodeChar c ↔
      b.toNat = leadMark (tailCount c.toNat) + c.toNat / 64 ^ tailCount c.toNat := by
  have bounds := toNat_bounds c
  have byte : (UInt8.ofNat (leadMark (tailCount c.toNat) + c.toNat / 64 ^ tailCount c.toNat)).toNat =
      leadMark (tailCount c.toNat) + c.toNat / 64 ^ tailCount c.toNat := by
    rw [UInt8.toNat_ofNat', tailCount]
    apply Nat.mod_eq_of_lt
    split_ifs <;> simp only [leadMark] <;> omega
  rw [utf8EncodeChar_eq, List.cons_prefix_cons, ← UInt8.toNat_inj, byte]
  simp

/-- A byte that opens characters of `k + 1` tail bytes. -/
theorem lead_opens {b : UInt8} {k bits : Nat} (wide : k ≤ 2) (small : bits < 2 ^ (5 - k))
    (byte : b.toNat = leadMark (k + 1) + bits) (c : Char) :
    [b] <+: String.utf8EncodeChar c ↔
      c.toNat / 64 ^ (k + 1) = bits ∧ tailCount c.toNat = k + 1 := by
  have bounds := toNat_bounds c
  rw [lead_iff, byte, tailCount]
  obtain rfl | rfl | rfl : k = 0 ∨ k = 1 ∨ k = 2 := by omega
  all_goals
    split_ifs <;>
      simp only [leadMark, Nat.reduceAdd, Nat.reduceSub, Nat.reducePow, and_true, and_false,
        iff_false] at * <;> omega

theorem begun_lead {b : UInt8} {k : Nat} {state : PartialChar} (owed : state.owed = k + 1)
    (wide : k ≤ 2) (small : state.bits < 2 ^ (5 - k))
    (byte : b.toNat = leadMark (k + 1) + state.bits)
    (fits : ∀ v, v / 64 ^ (k + 1) = state.bits →
      (state.low ≤ 0x80 + v / 64 ^ k % 64 ∧ 0x80 + v / 64 ^ k % 64 ≤ state.high ↔
        v.isValidChar ∧ tailCount v = k + 1))
    (tail : 0x80 ≤ state.low ∧ state.high ≤ 0xbf) : Begun [b] k state where
  owed := owed
  form := fun c => by
    rw [lead_opens wide small byte, List.length_singleton, Nat.add_comm 1]
  rest := fun c front => by
    obtain ⟨-, count⟩ := (lead_opens wide small byte c).mp front
    have first := (lead_iff b c).mp front
    rw [utf8EncodeChar_eq, ← first, count, UInt8.ofNat_toNat, List.singleton_append]
  fits := by simpa only [List.length_singleton, Nat.add_comm 1] using fits
  tail := tail

/-- What a byte says of the characters that begin with it. -/
theorem leadByte_spec (b : UInt8) :
    match leadByte b.toNat with
    | .char c => String.utf8EncodeChar c = [b] ∧ ∀ d, [b] <+: String.utf8EncodeChar d → d = c
    | .opens state => ∃ k, Begun [b] k state
    | .invalid => ¬ BeginsChar [b] := by
  have small := b.toNat_lt
  unfold leadByte
  split_ifs with ascii two first surrogate three four plain last
  · have valid : b.toNat.isValidChar := by omega
    constructor
    · rw [utf8EncodeChar_eq, toNat_ofNat valid, tailCount, if_pos ascii, leadMark, tails]
      simp
    · intro d front
      have first := (lead_iff b d).mp front
      have same : d.toNat = b.toNat := by
        unfold tailCount at first
        split_ifs at first <;> simp only [leadMark, Nat.reducePow, Nat.div_one] at first <;> omega
      rw [← same, Char.ofNat_toNat]
  case neg =>
    rintro ⟨c, front⟩
    have bounds := toNat_bounds c
    rw [lead_iff, tailCount] at front
    split_ifs at front <;> simp only [leadMark] at front <;> omega
  -- seven ranges of lead bytes, each with its own range for the byte after it
  all_goals
    refine ⟨_, begun_lead rfl (by decide) (by dsimp only; omega) (by simp only [leadMark]; omega)
      (fun v bits => ?_) ⟨by dsimp only; omega, by dsimp only; omega⟩⟩
    unfold tailCount
    split_ifs <;>
      simp only [Nat.reduceAdd, Nat.reducePow, Nat.div_one, and_true, and_false, iff_false] at * <;>
      omega

section

variable {state : PartialChar} {b : UInt8} (bytes : List UInt8)

theorem decodeFrom_none : decodeFrom none (b :: bytes) =
    match leadByte b.toNat with
    | .char c => c :: decodeFrom none bytes
    | .opens state => decodeFrom (some state) bytes
    | .invalid => replacementChar :: decodeFrom none bytes := rfl

theorem decodeFrom_taken (between : state.low ≤ b.toNat ∧ b.toNat ≤ state.high) :
    decodeFrom (some state) (b :: bytes) =
      if state.owed ≤ 1 then
        Char.ofNat (state.bits * 64 + (b.toNat - 0x80)) :: decodeFrom none bytes
      else
        decodeFrom (some ⟨state.bits * 64 + (b.toNat - 0x80), state.owed - 1, 0x80, 0xbf⟩) bytes := by
  rw [decodeFrom, if_pos between]

theorem decodeFrom_refused (refused : ¬ (state.low ≤ b.toNat ∧ b.toNat ≤ state.high)) :
    decodeFrom (some state) (b :: bytes) = replacementChar :: decodeFrom none (b :: bytes) := by
  rw [decodeFrom_none, decodeFrom]
  exact if_neg refused

end

namespace Begun

variable {read more rest : List UInt8} {k : Nat} {state : PartialChar}

theorem decode_char (begun : Begun read k state) {c : Char}
    (form : String.utf8EncodeChar c = read ++ more) :
    decodeFrom (some state) (more ++ rest) = c :: decodeFrom none rest := by
  induction more generalizing read k state with
  | nil =>
    have whole := begun.rest c (form ▸ List.prefix_append read [])
    have short := congrArg List.length (form.symm.trans whole)
    simp [length_tails] at short
  | cons b more ih =>
    have form' : String.utf8EncodeChar c = read ++ [b] ++ more := by simpa using form
    have longer : read ++ [b] <+: String.utf8EncodeChar c := form' ▸ List.prefix_append _ more
    have between := (begun.takes_iff b).mpr ⟨c, longer⟩
    rw [List.cons_append, decodeFrom_taken _ between, begun.owed]
    cases k with
    | zero =>
      have same := ((begun.form_snoc between c).mp longer).1
      rw [Nat.pow_zero, Nat.div_one] at same
      have last : more = [] := by
        rw [← begun.complete between, ← same, Char.ofNat_toNat] at form'
        simpa using form'
      rw [if_pos (by decide), ← same, Char.ofNat_toNat, last, List.nil_append]
    | succ k =>
      rw [if_neg (by omega), ← begun.owed]
      exact ih (begun.snoc between) form'

/-- A character begun that is not completed is read as a replacement character where its bytes end. -/
theorem decode_invalid (begun : Begun read k state) (some : read ≠ [])
    (invalid : MaximalInvalid (read ++ more) rest) :
    decodeFrom (.some state) (more ++ rest) = replacementChar :: decodeFrom none rest := by
  induction more generalizing read k state with
  | nil =>
    rw [List.append_nil] at invalid
    cases rest with
    | nil => rfl
    | cons b rest =>
      rw [List.nil_append, decodeFrom_refused]
      intro between
      have begins := (begun.takes_iff b).mp between
      have short := invalid.maximal _ ⟨rest, by simp⟩ begins
      rw [List.length_append, List.length_singleton] at short
      omega
  | cons b more ih =>
    have longer : read ++ [b] ++ more = read ++ b :: more := by simp
    rw [← longer] at invalid
    have begins : BeginsChar (read ++ [b]) := by
      have wide := List.length_pos_iff.mpr some
      rcases invalid.begins with single | begins
      · simp only [List.length_append, List.length_singleton] at single
        omega
      · exact begins.front (List.prefix_append _ more)
    have between := (begun.takes_iff b).mpr begins
    rw [List.cons_append, decodeFrom_taken _ between, begun.owed]
    cases k with
    | zero =>
      have front := List.prefix_append (read ++ [b]) (more ++ rest)
      have broken := invalid.broken (Char.ofNat (state.bits * 64 + (b.toNat - 0x80)))
      rw [begun.complete between, List.append_assoc] at broken
      exact absurd front broken
    | succ k =>
      rw [if_neg (by omega), ← begun.owed]
      exact ih (begun.snoc between) (by simp) invalid

end Begun

/-- The form of a character is read as the character. -/
theorem decodeFrom_char (c : Char) (rest : List UInt8) :
    decodeFrom none (String.utf8EncodeChar c ++ rest) = c :: decodeFrom none rest := by
  obtain ⟨b, more, form⟩ : ∃ b more, String.utf8EncodeChar c = b :: more :=
    ⟨_, _, utf8EncodeChar_eq c⟩
  have first : [b] <+: String.utf8EncodeChar c := form ▸ List.prefix_append [b] more
  have spec := leadByte_spec b
  rw [form, List.cons_append, decodeFrom_none]
  cases lead : leadByte b.toNat with
  | char d =>
    rw [lead] at spec
    obtain rfl := spec.2 c first
    obtain rfl : more = [] := by simpa using form.symm.trans spec.1
    rfl
  | opens state =>
    rw [lead] at spec
    obtain ⟨k, begun⟩ := spec
    exact begun.decode_char form
  | invalid =>
    rw [lead] at spec
    exact absurd ⟨c, first⟩ spec

/-- A maximal invalid part is read as one replacement character. -/
theorem decodeFrom_invalid {part rest : List UInt8} (invalid : MaximalInvalid part rest) :
    decodeFrom none (part ++ rest) = replacementChar :: decodeFrom none rest := by
  obtain ⟨b, more, rfl⟩ := List.exists_cons_of_ne_nil invalid.some
  have spec := leadByte_spec b
  rw [List.cons_append, decodeFrom_none]
  cases lead : leadByte b.toNat with
  | char c =>
    rw [lead] at spec
    have front : String.utf8EncodeChar c <+: b :: more ++ rest :=
      spec.1 ▸ List.prefix_append [b] (more ++ rest)
    exact absurd front (invalid.broken c)
  | opens state =>
    rw [lead] at spec
    obtain ⟨k, begun⟩ := spec
    exact begun.decode_invalid (List.cons_ne_nil _ _) invalid
  | invalid =>
    rw [lead] at spec
    obtain rfl : more = [] := by
      rcases invalid.begins with single | begins
      · simpa using single
      · exact absurd (begins.front (List.prefix_append [b] more)) spec
    rfl

namespace Segmented

variable {bytes : List UInt8} {segments : List Segment}

/-- Each segment is read as one character. -/
theorem decode (segmented : Segmented bytes segments) :
    decodeBytes bytes = segments.map Segment.read := by
  unfold decodeBytes
  induction segmented with
  | nil => rfl
  | char later ih => rw [decodeFrom_char, ih, List.map_cons, Segment.read]
  | invalid maximal later ih => rw [decodeFrom_invalid maximal, ih, List.map_cons, Segment.read]

theorem append_text (text : List Char) (later : Segmented bytes segments) :
    Segmented (text.flatMap String.utf8EncodeChar ++ bytes) (text.map Segment.char ++ segments) := by
  induction text with
  | nil => exact later
  | cons c text ih =>
    rw [List.flatMap_cons, List.append_assoc, List.map_cons, List.cons_append]
    exact .char ih

theorem of_text (text : List Char) :
    Segmented (text.flatMap String.utf8EncodeChar) (text.map Segment.char) := by
  simpa using append_text text .nil

theorem valid (segmented : Segmented bytes segments) (chars : ∀ part, .invalid part ∉ segments) :
    ∃ text : List Char, bytes = text.flatMap String.utf8EncodeChar := by
  induction segmented with
  | nil => exact ⟨[], rfl⟩
  | @char c rest segments later ih =>
    obtain ⟨text, rfl⟩ := ih fun part member => chars part (List.mem_cons_of_mem _ member)
    exact ⟨c :: text, rfl⟩
  | @invalid part => exact absurd List.mem_cons_self (chars part)

end Segmented

/-- The form of a text is read as the text. -/
theorem decodeBytes_text (text : List Char) :
    decodeBytes (text.flatMap String.utf8EncodeChar) = text := by
  calc decodeBytes (text.flatMap String.utf8EncodeChar)
      = (text.map Segment.char).map Segment.read := (Segmented.of_text text).decode
    _ = text := by rw [List.map_map]; exact List.map_id text

theorem exists_maximalInvalid {bytes : List UInt8} (some : bytes ≠ [])
    (broken : ∀ c, ¬ String.utf8EncodeChar c <+: bytes) :
    ∃ part rest, bytes = part ++ rest ∧ MaximalInvalid part rest := by
  classical
  have wide := List.length_pos_iff.mpr some
  have empty : BeginsChar (bytes.take 0) := ⟨default, List.nil_prefix⟩
  -- as many bytes as begin a character, but at least one
  let most := Nat.findGreatest (fun n => BeginsChar (bytes.take n)) bytes.length
  have most_begins : BeginsChar (bytes.take most) :=
    Nat.findGreatest_spec (P := fun n => BeginsChar (bytes.take n)) (Nat.zero_le _) empty
  have most_le : most ≤ bytes.length := Nat.findGreatest_le _
  have length : (bytes.take (max most 1)).length = max most 1 := by
    rw [List.length_take]
    omega
  refine ⟨bytes.take (max most 1), bytes.drop (max most 1), (List.take_append_drop _ _).symm, ?_⟩
  constructor
  · rw [← List.length_pos_iff, length]
    omega
  · rwa [List.take_append_drop]
  · by_cases few : most ≤ 1
    · exact .inl (length.trans (max_eq_right few))
    · rw [max_eq_left (by omega)]
      exact .inr most_begins
  · rw [List.take_append_drop, length]
    intro longer front begins
    have least : longer.length ≤ most :=
      Nat.le_findGreatest front.length_le (List.prefix_iff_eq_take.mp front ▸ begins)
    omega

theorem exists_segmented (bytes : List UInt8) : ∃ segments, Segmented bytes segments := by
  induction length : bytes.length using Nat.strongRecOn generalizing bytes with
  | _ bound ih =>
    by_cases some : bytes = []
    · exact ⟨[], some ▸ .nil⟩
    by_cases whole : ∃ c, String.utf8EncodeChar c <+: bytes
    · obtain ⟨c, rest, rfl⟩ := whole
      have wide := c.utf8Size_pos
      rw [List.length_append, String.length_utf8EncodeChar] at length
      obtain ⟨segments, later⟩ := ih _ (by omega) rest rfl
      exact ⟨_, .char later⟩
    · obtain ⟨part, rest, rfl, maximal⟩ := exists_maximalInvalid some (not_exists.mp whole)
      have wide := List.length_pos_iff.mpr maximal.some
      rw [List.length_append] at length
      obtain ⟨segments, later⟩ := ih _ (by omega) rest rfl
      exact ⟨_, .invalid maximal later⟩

theorem MaximalInvalid.length_le {part rest other more : List UInt8} (first : MaximalInvalid part rest)
    (second : MaximalInvalid other more) (same : part ++ rest = other ++ more) :
    part.length ≤ other.length := by
  rcases first.begins with single | begins
  · rw [single]
    exact List.length_pos_iff.mpr second.some
  · exact second.maximal part (same ▸ List.prefix_append part rest) begins

/-- There is one way only to cut bytes into characters and maximal invalid parts. -/
theorem Segmented.unique {bytes : List UInt8} {segments others : List Segment}
    (first : Segmented bytes segments) (second : Segmented bytes others) : segments = others := by
  induction first generalizing others with
  | nil =>
    generalize empty : [] = bytes at second
    cases second with
    | nil => rfl
    | @char c => exact absurd empty.symm (utf8EncodeChar_append_ne_nil c _)
    | invalid maximal => exact absurd (List.append_eq_nil_iff.mp empty.symm).1 maximal.some
  | @char c rest segments later ih =>
    generalize whole : String.utf8EncodeChar c ++ rest = bytes at second
    cases second with
    | nil => exact absurd whole (utf8EncodeChar_append_ne_nil c rest)
    | @char d =>
      have reads := congrArg (decodeFrom none) whole
      rw [decodeFrom_char, decodeFrom_char] at reads
      obtain rfl : c = d := (List.cons.inj reads).1
      obtain rfl := List.append_cancel_left whole
      rw [ih ‹_›]
    | invalid maximal => exact absurd ⟨rest, whole⟩ (maximal.broken c)
  | @invalid part rest segments maximal later ih =>
    generalize whole : part ++ rest = bytes at second
    cases second with
    | nil => exact absurd (List.append_eq_nil_iff.mp whole).1 maximal.some
    | @char d more => exact absurd ⟨more, whole.symm⟩ (maximal.broken d)
    | @invalid other more _ other_maximal =>
      have length : part.length = other.length :=
        Nat.le_antisymm (maximal.length_le other_maximal whole)
          (other_maximal.length_le maximal whole.symm)
      obtain ⟨rfl, rfl⟩ := List.append_inj whole length
      rw [ih ‹_›]

end CraftDsl.Utf8
