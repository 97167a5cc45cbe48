/-!
Texts as bytes: byte lengths, the reading of bytes as UTF-8, in which every maximal invalid part becomes
one replacement character, and lines and columns of byte offsets.
-/
namespace CraftDsl

def byteLength (text : List Char) : Nat := text.foldr (fun c length => c.utf8Size + length) 0

theorem byteLength_cons (c : Char) (text : List Char) :
    byteLength (c :: text) = c.utf8Size + byteLength text := rfl

theorem byteLength_append (first second : List Char) :
    byteLength (first ++ second) = byteLength first + byteLength second := by
  induction first with
  | nil => simp [byteLength]
  | cons c first ih => simp only [List.cons_append, byteLength_cons, ih, Nat.add_assoc]

/-- A character begun and not yet complete: its bits so far, the tail bytes still owed, and the least
and the greatest byte the next of them may be. -/
structure PartialChar where
  bits : Nat
  owed : Nat
  low : Nat
  high : Nat

inductive LeadByte
  | char (c : Char)
  | opens (begun : PartialChar)
  | invalid

def leadByte (b : Nat) : LeadByte :=
  if b ≤ 0x7f then .char (Char.ofNat b)
  else if 0xc2 ≤ b ∧ b ≤ 0xdf then .opens ⟨b - 0xc0, 1, 0x80, 0xbf⟩
  else if b = 0xe0 then .opens ⟨0, 2, 0xa0, 0xbf⟩
  else if b = 0xed then .opens ⟨0xd, 2, 0x80, 0x9f⟩
  else if 0xe1 ≤ b ∧ b ≤ 0xef then .opens ⟨b - 0xe0, 2, 0x80, 0xbf⟩
  else if b = 0xf0 then .opens ⟨0, 3, 0x90, 0xbf⟩
  else if 0xf1 ≤ b ∧ b ≤ 0xf3 then .opens ⟨b - 0xf0, 3, 0x80, 0xbf⟩
  else if b = 0xf4 then .opens ⟨4, 3, 0x80, 0x8f⟩
  else .invalid

def replacementChar : Char := '\uFFFD'

/-- Reads on with the character begun before, if any. A byte that cannot continue it ends the invalid
part and is read afresh. -/
def decodeFrom : Option PartialChar → List UInt8 → List Char
  | none, [] => []
  | some _, [] => [replacementChar]
  | begun?, byte :: bytes =>
    let b := byte.toNat
    let afresh (_ : Unit) : List Char :=
      match leadByte b with
      | .char c => c :: decodeFrom none bytes
      | .opens begun => decodeFrom (some begun) bytes
      | .invalid => replacementChar :: decodeFrom none bytes
    match begun? with
    | none => afresh ()
    | some begun =>
      if begun.low ≤ b ∧ b ≤ begun.high then
        let bits := begun.bits * 64 + (b - 0x80)
        if begun.owed ≤ 1 then Char.ofNat bits :: decodeFrom none bytes
        else decodeFrom (some ⟨bits, begun.owed - 1, 0x80, 0xbf⟩) bytes
      else replacementChar :: afresh ()

def decodeBytes (bytes : List UInt8) : List Char := decodeFrom none bytes

structure Position where
  line : Nat
  column : Nat
  deriving DecidableEq, Repr

def Position.first : Position := ⟨1, 1⟩

def Position.after (p : Position) (c : Char) : Position :=
  if c = '\n' then ⟨p.line + 1, 1⟩ else ⟨p.line, p.column + 1⟩

/-- Where the offset lies, counted from `p` at the start of the text. An offset past the end means
the end, and one inside a character has no position. -/
def Position.advance (p : Position) : List Char → Nat → Option Position
  | _, 0 => some p
  | [], _ => some p
  | c :: cs, offset =>
    if offset < c.utf8Size then none else (p.after c).advance cs (offset - c.utf8Size)

def positionAt? (source : List Char) (offset : Nat) : Option Position :=
  Position.first.advance source offset

end CraftDsl
