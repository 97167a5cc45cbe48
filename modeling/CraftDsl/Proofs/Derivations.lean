import CraftDsl.Grammar.Rule
import CraftDsl.Proofs.Patterns

/-!
Grammar rules as regular expressions over the names of children. A name stands for a child of that
name, a hidden rule for its body, and a sum for any of its alternatives. Every rule without recursion
through hidden rules and sums is a pattern of kinds. Main statement: `derives_of_matches`.
-/
namespace CraftDsl

def Kind.letter : Kind → String
  | .token .newline => "_newline"
  | kind => kind.name

namespace Grammar

/-- The sums: visible rules that stand for one of their alternatives and have no nodes. -/
def sums : List String :=
  ["arch_section", "arch_component", "modifier_value", "service_property", "exposure_property",
    "action"]

/-- Whether the body of the rule stands for its name. A newline is a child of its own. -/
def isInlined (name : String) : Bool :=
  name != "_newline" && (Rule.isHiddenName name || sums.contains name)

end Grammar

namespace Rule

/-- The words of names that a rule body allows. -/
inductive Derives (g : Grammar) : Rule → List String → Prop
  | blank : Derives g blank []
  | string (value : String) : Derives g (string value) [value]
  | symbol {name : String} (visible : Grammar.isInlined name = false) :
    Derives g (symbol name) [name]
  | inlined {name : String} {body : Rule} {word : List String}
    (hidden : Grammar.isInlined name = true) (found : g.rule? name = some body)
    (inner : Derives g body word) : Derives g (symbol name) word
  | seqNil : Derives g (seq []) []
  | seqCons {first : Rule} {rest : List Rule} {u v : List String} (now : Derives g first u)
    (later : Derives g (seq rest) v) : Derives g (seq (first :: rest)) (u ++ v)
  | choice {members : List Rule} {member : Rule} {word : List String} (among : member ∈ members)
    (inner : Derives g member word) : Derives g (choice members) word
  | repeatNil {content : Rule} : Derives g (repeat0 content) []
  | repeatCons {content : Rule} {u v : List String} (now : Derives g content u)
    (later : Derives g (repeat0 content) v) : Derives g (repeat0 content) (u ++ v)
  | repeatOnce {content : Rule} {u v : List String} (now : Derives g content u)
    (later : Derives g (repeat0 content) v) : Derives g (repeat1 content) (u ++ v)
  | field {name : String} {content : Rule} {word : List String} (inner : Derives g content word) :
    Derives g (field name content) word
  | prec {side : Associativity} {value : Int32} {content : Rule} {word : List String}
    (inner : Derives g content word) : Derives g (prec side value content) word

def never : Pattern := .one .empty

def named (name : String) : Pattern :=
  match Kind.all.find? fun kind => kind.letter = name with
  | some kind => workOut (KindSet.single kind).bits fun bits => .one ⟨bits⟩
  | none => never

mutual

def asPattern (symbols : String → Pattern) : Rule → Pattern
  | blank => .nothing
  | string value => named value
  | pattern _ _ => never
  | symbol name => symbols name
  | seq members => inTurn symbols members
  | choice members => anyOf symbols members
  | repeat0 content => .many (content.asPattern symbols)
  | repeat1 content => .seq (content.asPattern symbols) (.many (content.asPattern symbols))
  | field _ content => content.asPattern symbols
  | prec _ _ content => content.asPattern symbols

def inTurn (symbols : String → Pattern) : List Rule → Pattern
  | [] => .nothing
  | [last] => last.asPattern symbols
  | rule :: rules => .seq (rule.asPattern symbols) (inTurn symbols rules)

def anyOf (symbols : String → Pattern) : List Rule → Pattern
  | [] => never
  | [last] => last.asPattern symbols
  | rule :: rules => .alt (rule.asPattern symbols) (anyOf symbols rules)

end

theorem matches_never {word : List Kind} : ¬ never.Matches word := by
  intro matched
  cases matched with
  | one member => simp at member

theorem letters_of_named {name : String} {word : List Kind} (matched : (named name).Matches word) :
    word.map Kind.letter = [name] := by
  unfold named at matched
  split at matched
  · rename_i kind found
    rw [workOut_eq] at matched
    cases matched with
    | one member =>
      rename_i other
      have same : other = kind := by
        have bit : (KindSet.single kind).has other = true := member
        simpa using bit
      have letter := List.find?_some found
      rw [same]
      exact congrArg (fun letter => [letter]) (of_decide_eq_true letter)
  · exact absurd matched matches_never

variable {g : Grammar} {symbols : String → Pattern}

theorem repeat_of_many {content : Rule} {p : Pattern}
    (inner : ∀ word, p.Matches word → content.Derives g (word.map Kind.letter)) {word : List Kind}
    (matched : (Pattern.many p).Matches word) :
    (repeat0 content).Derives g (word.map Kind.letter) := by
  generalize same : Pattern.many p = q at matched
  induction matched with
  | done => exact .repeatNil
  | more now later _ later_ih =>
    cases same
    rw [List.map_append]
    exact .repeatCons (inner _ now) (later_ih rfl)
  | _ => cases same

mutual

/-- A pattern of a rule matches what the rule derives, if that holds for symbols. -/
theorem derives_of_matches
    (sound : ∀ name word, (symbols name).Matches word →
      (symbol name).Derives g (word.map Kind.letter)) :
    (rule : Rule) → (word : List Kind) → (rule.asPattern symbols).Matches word →
      rule.Derives g (word.map Kind.letter)
  | blank, word, matched => by
    cases matched
    exact .blank
  | string value, word, matched => by
    rw [letters_of_named matched]
    exact .string value
  | pattern _ _, word, matched => absurd matched matches_never
  | symbol name, word, matched => sound name word matched
  | seq members, word, matched => derives_inTurn sound members word matched
  | choice members, word, matched => by
    rcases derives_anyOf sound members word matched with ⟨member, among, inner⟩
    exact .choice among inner
  | repeat0 content, word, matched =>
    repeat_of_many (fun word => derives_of_matches sound content word) matched
  | repeat1 content, word, matched => by
    cases matched with
    | seq left right =>
      rw [List.map_append]
      exact .repeatOnce (derives_of_matches sound content _ left)
        (repeat_of_many (fun word => derives_of_matches sound content word) right)
  | field _ content, word, matched => .field (derives_of_matches sound content word matched)
  | prec _ _ content, word, matched => .prec (derives_of_matches sound content word matched)

theorem derives_inTurn
    (sound : ∀ name word, (symbols name).Matches word →
      (symbol name).Derives g (word.map Kind.letter)) :
    (rules : List Rule) → (word : List Kind) → (inTurn symbols rules).Matches word →
      (seq rules).Derives g (word.map Kind.letter)
  | [], word, matched => by
    cases matched
    exact .seqNil
  | [last], word, matched => by
    rw [← List.append_nil (word.map Kind.letter)]
    exact .seqCons (derives_of_matches sound last word matched) .seqNil
  | rule :: next :: rules, word, matched => by
    cases matched with
    | seq left right =>
      rw [List.map_append]
      exact .seqCons (derives_of_matches sound rule _ left)
        (derives_inTurn sound (next :: rules) _ right)

theorem derives_anyOf
    (sound : ∀ name word, (symbols name).Matches word →
      (symbol name).Derives g (word.map Kind.letter)) :
    (rules : List Rule) → (word : List Kind) → (anyOf symbols rules).Matches word →
      ∃ member ∈ rules, member.Derives g (word.map Kind.letter)
  | [], word, matched => absurd matched matches_never
  | [last], word, matched =>
    ⟨last, List.mem_singleton_self last, derives_of_matches sound last word matched⟩
  | rule :: next :: rules, word, matched => by
    cases matched with
    | left inner => exact ⟨rule, List.mem_cons_self, derives_of_matches sound rule _ inner⟩
    | right inner =>
      rcases derives_anyOf sound (next :: rules) _ inner with ⟨member, among, derived⟩
      exact ⟨member, List.mem_cons_of_mem _ among, derived⟩

end

def visible (name : String) : Pattern := if Grammar.isInlined name then never else named name

def expanded (g : Grammar) (name : String) : Pattern :=
  if Grammar.isInlined name then
    match g.rule? name with
    | some body => body.asPattern visible
    | none => never
  else named name

theorem derives_named {name : String} (shown : Grammar.isInlined name = false) {word : List Kind}
    (matched : (named name).Matches word) : (symbol name).Derives g (word.map Kind.letter) := by
  rw [letters_of_named matched]
  exact .symbol shown

theorem derives_visible (name : String) (word : List Kind) (matched : (visible name).Matches word) :
    (symbol name).Derives g (word.map Kind.letter) := by
  unfold visible at matched
  split at matched
  · exact absurd matched matches_never
  · rename_i shown
    exact derives_named (Bool.eq_false_iff.mpr shown) matched

theorem derives_expanded (name : String) (word : List Kind)
    (matched : (expanded g name).Matches word) : (symbol name).Derives g (word.map Kind.letter) := by
  unfold expanded at matched
  split at matched
  · rename_i hidden
    split at matched
    · rename_i body found
      exact .inlined hidden found (derives_of_matches derives_visible body word matched)
    · exact absurd matched matches_never
  · rename_i shown
    exact derives_named (Bool.eq_false_iff.mpr shown) matched

end Rule

end CraftDsl
