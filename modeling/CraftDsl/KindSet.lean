import CraftDsl.Kind

/-!
Sets of kinds, and the ones the productions look for.
-/
namespace CraftDsl

def TokenKind.index : TokenKind → Nat
  | keyword word => 10 + word.ctorIdx
  | kind => if kind.ctorIdx < 10 then kind.ctorIdx else 40 + kind.ctorIdx

def Kind.index : Kind → Nat
  | token kind => kind.index
  | node kind => 63 + kind.ctorIdx

theorem TokenKind.all_index (kind : TokenKind) : TokenKind.all[kind.index]? = some kind := by
  cases kind with
  | keyword word => cases word <;> rfl
  | _ => rfl

theorem Kind.all_index (kind : Kind) : Kind.all[kind.index]? = some kind := by
  cases kind with
  | token kind =>
    have inner : kind.index < TokenKind.all.length :=
      (List.getElem?_eq_some_iff.mp kind.all_index).1
    simp only [Kind.all, Kind.index]
    rw [List.getElem?_append_left (by simpa using inner), List.getElem?_map, kind.all_index]
    rfl
  | node kind => cases kind <;> rfl

theorem Kind.index_inj {a b : Kind} : a.index = b.index ↔ a = b := by
  constructor
  · intro same
    apply Option.some.inj
    rw [← a.all_index, same, b.all_index]
  · intro same
    rw [same]

/-- One bit for each kind, at its place in the order of kinds. -/
structure KindSet where
  bits : Nat
  deriving DecidableEq

namespace KindSet

def has (s : KindSet) (kind : Kind) : Bool := s.bits.testBit kind.index

def empty : KindSet := ⟨0⟩

def ofList (kinds : List Kind) : KindSet :=
  ⟨kinds.foldr (fun kind bits => 1 <<< kind.index ||| bits) 0⟩

def single (kind : Kind) : KindSet := ofList [kind]

def union (s t : KindSet) : KindSet := ⟨s.bits ||| t.bits⟩

instance : Union KindSet := ⟨union⟩

def inter (s t : KindSet) : KindSet := ⟨s.bits &&& t.bits⟩

instance : Inter KindSet := ⟨inter⟩

def without (s t : KindSet) : KindSet := ⟨s.bits ^^^ (s.bits &&& t.bits)⟩

@[simp] theorem has_empty (kind : Kind) : empty.has kind = false := by
  simp [empty, has]

@[simp] theorem has_union (s t : KindSet) (kind : Kind) :
    (s ∪ t).has kind = (s.has kind || t.has kind) :=
  Nat.testBit_or s.bits t.bits kind.index

@[simp] theorem has_inter (s t : KindSet) (kind : Kind) :
    (s ∩ t).has kind = (s.has kind && t.has kind) :=
  Nat.testBit_and s.bits t.bits kind.index

@[simp] theorem has_without (s t : KindSet) (kind : Kind) :
    (s.without t).has kind = (s.has kind && !t.has kind) := by
  simp only [has, without, Nat.testBit_xor, Nat.testBit_and]
  cases s.bits.testBit kind.index <;> cases t.bits.testBit kind.index <;> rfl

theorem has_both {s t : KindSet} {kind : Kind} (left : s.has kind = true)
    (right : t.has kind = true) : (s ∩ t).has kind = true := by
  rw [has_inter, left, right]
  rfl

theorem has_left {s t : KindSet} {kind : Kind} (left : s.has kind = true)
    (right : t.has kind = false) : (s.without t).has kind = true := by
  rw [has_without, left, right]
  rfl

@[simp] theorem has_ofList (kinds : List Kind) (kind : Kind) :
    (ofList kinds).has kind = kinds.contains kind := by
  induction kinds with
  | nil => exact has_empty kind
  | cons first rest ih =>
    have bit : (1 <<< first.index).testBit kind.index = (kind == first) := by
      rw [Nat.one_shiftLeft, Nat.testBit_two_pow]
      exact decide_eq_decide.mpr (Kind.index_inj.trans eq_comm)
    simp only [has, ofList] at ih
    simp only [has, ofList, List.foldr_cons, Nat.testBit_or, bit, ih, List.contains_cons]

@[simp] theorem has_single (s kind : Kind) : (single s).has kind = (kind == s) := by
  rw [single, has_ofList, List.contains_cons, List.contains_nil, Bool.or_false]

theorem has_token (s kind : TokenKind) : (single s).has kind = true ↔ kind = s := by
  rw [has_single, beq_iff_eq]
  exact ⟨Kind.token.inj, congrArg Kind.token⟩

def toList (s : KindSet) : List Kind := Kind.all.filter s.has

def render (s : KindSet) : String :=
  "\x7b" ++ String.intercalate ", " (s.toList.map Kind.label) ++ "\x7d"

def ofKeywords (list : List Keyword) : KindSet :=
  ofList (list.map fun word => .token (.keyword word))

def keywords : KindSet := ofKeywords Keyword.all

def connectors : KindSet := ofKeywords (Keyword.all.filter Keyword.isConnector)

def words : KindSet := keywords ∪ single TokenKind.identifier

theorem has_words (kind : Kind) : words.has kind = kind.isWord := by
  cases kind with
  | token kind =>
    cases kind with
    | keyword word => cases word <;> rfl
    | _ => rfl
  | node kind => cases kind <;> rfl

def plainWords : KindSet := words.without connectors

/-- What a phrase is made of: words, connector words included, and strings. -/
def phraseFirst : KindSet := words ∪ single TokenKind.string

def itemFirst : KindSet :=
  ofKeywords [.arch, .services, .service, .domain, .domains, .actors, .actor, .exposure, .useCase]

def archSectionFirst : KindSet := ofKeywords [.presentation, .gateway]

def servicePropertyFirst : KindSet := ofKeywords [.domains, .language, .dataStores, .deployment]

def exposurePropertyFirst : KindSet := ofKeywords [.wordTo, .through, .wordOf]

def deploymentTypes : KindSet := ofKeywords [.canary, .blueGreen, .rolling]

def actorTypes : KindSet := ofKeywords [.user, .system, .service]

def booleans : KindSet := ofKeywords [.trueValue, .falseValue]

def lineEnd : KindSet := ofList [TokenKind.newline, TokenKind.braceClose, TokenKind.endOfInput]

end KindSet

end CraftDsl
