import CraftDsl.Proofs.Grammar.Rules

/-!
Rules nest no deeper than what they are read from, whichever way they are written there, so there is room
for the rules of a grammar that is read. Main statement: `read_roomy`.
-/
namespace CraftDsl

open JsonValue

theorem mem_of_mapM_ok {ε α β : Type} {f : α → Except ε β} {xs : List α} {ys : List β}
    (each : xs.mapM f = .ok ys) : ∀ y ∈ ys, ∃ x ∈ xs, f x = .ok y := by
  induction xs generalizing ys with
  | nil =>
    cases each
    exact List.forall_mem_nil _
  | cons x xs ih =>
    rw [List.mapM_cons] at each
    obtain ⟨y, here, each⟩ := bind_eq_ok.mp each
    obtain ⟨rest, later, same⟩ := bind_eq_ok.mp each
    cases same
    refine List.forall_mem_cons.mpr ⟨⟨x, List.mem_cons_self, here⟩, fun z member => ?_⟩
    obtain ⟨x, member, found⟩ := ih later z member
    exact ⟨x, List.mem_cons_of_mem _ member, found⟩

namespace RuleContent

/-- How many arrays and objects are open at the innermost place of the values. -/
def nesting : RuleContent → Nat
  | keyed entries => nestingEntries entries
  | ordered items => nestingItems items

theorem pick_nesting {content : RuleContent} {keys : List String} {optional : Nat}
    {values : List (Option JsonValue)} (picked : content.pick keys optional = .ok values) {v : JsonValue}
    (member : some v ∈ values) : v.nesting ≤ content.nesting := by
  cases content with
  | ordered items =>
    simp only [pick] at picked
    split at picked
    · cases picked
      rcases List.mem_append.mp member with inside | absent
      · obtain ⟨item, inside, same⟩ := List.mem_map.mp inside
        cases same
        exact nestingItems_le.mp (Nat.le_refl _) v inside
      · cases (List.mem_replicate.mp absent).2
    · cases picked
  | keyed entries =>
    obtain ⟨found, each, picked⟩ := bind_eq_ok.mp picked
    split at picked
    · cases picked
      obtain ⟨key, -, found⟩ := mem_of_mapM_ok each (some v) member
      unfold JsonValue.member at found
      split at found
      · cases found
      · rename_i k value entry
        cases found
        have inside : (k, v) ∈ entries :=
          (List.mem_filter.mp (entry ▸ List.mem_singleton_self (k, v))).1
        exact nestingEntries_le.mp (Nat.le_refl _) (k, v) inside
      · cases found
    · cases picked

variable {α β : Type} {content : RuleContent} {r : Rule}

/-- What a rule with one value is built of. -/
theorem pick_one {key : String} {first : JsonValue → Except JsonError α} {build : α → Rule}
    (read : (content.pick [key] 0 >>= fun
      | [some v] => first v >>= fun a => pure (build a)
      | _ => .error .wrongShape) = .ok r) :
    ∃ v a, first v = .ok a ∧ v.nesting ≤ content.nesting ∧ r = build a := by
  obtain ⟨values, picked, read⟩ := bind_eq_ok.mp read
  split at read
  · obtain ⟨a, found, same⟩ := bind_eq_ok.mp read
    cases same
    exact ⟨_, a, found, pick_nesting picked List.mem_cons_self, rfl⟩
  · cases read

/-- What the second value of a rule with two values is built of. -/
theorem pick_two {key second : String} {first : JsonValue → Except JsonError α}
    {next : JsonValue → Except JsonError β} {build : α → β → Rule}
    (read : (content.pick [key, second] 0 >>= fun
      | [some v, some w] => first v >>= fun a => next w >>= fun b => pure (build a b)
      | _ => .error .wrongShape) = .ok r) :
    ∃ w a b, next w = .ok b ∧ w.nesting ≤ content.nesting ∧ r = build a b := by
  obtain ⟨values, picked, read⟩ := bind_eq_ok.mp read
  split at read
  · obtain ⟨a, -, read⟩ := bind_eq_ok.mp read
    obtain ⟨b, found, same⟩ := bind_eq_ok.mp read
    cases same
    exact ⟨_, a, b, found, pick_nesting picked (List.mem_cons_of_mem _ List.mem_cons_self), rfl⟩
  · cases read

end RuleContent

namespace Rule

section

variable {rule : JsonValue → Except JsonError Rule}
  (each : ∀ v s, rule v = .ok s → s.toJson.nesting ≤ v.nesting) {content : RuleContent} {r : Rule}

include each

theorem members_nesting {build : List Rule → Rule} (read : (content.pick ["members"] 0 >>= fun
      | [some v] => v.asItems >>= fun items => items.mapM rule >>= fun rules => pure (build rules)
      | _ => .error .wrongShape) = .ok r) :
    ∃ rules, (JsonValue.array (rules.map toJson)).nesting ≤ content.nesting ∧ r = build rules := by
  obtain ⟨values, picked, read⟩ := bind_eq_ok.mp read
  split at read
  · rename_i v
    have inside := RuleContent.pick_nesting picked List.mem_cons_self
    obtain ⟨items, list, read⟩ := bind_eq_ok.mp read
    obtain ⟨rules, found, same⟩ := bind_eq_ok.mp read
    cases same
    refine ⟨rules, Nat.le_trans ?_ inside, rfl⟩
    cases v <;> cases list
    rw [JsonValue.nesting, JsonValue.nesting, Nat.add_le_add_iff_right, nestingItems_le,
      List.forall_mem_map]
    intro s member
    obtain ⟨item, inside, found⟩ := mem_of_mapM_ok found s member
    exact Nat.le_trans (each item s found) (nestingItems_le.mp (Nat.le_refl _) item inside)
  · cases read

theorem ofContent_nesting {form : RuleForm} (read : ofContent rule form content = .ok r) :
    r.toJson.nesting ≤ content.nesting + 1 := by
  have flat (text : String) : (JsonValue.string text).nesting ≤ content.nesting := Nat.zero_le _
  rw [nesting_toJson, Nat.add_le_add_iff_right, nestingEntries_le]
  cases form with
  | blank =>
    simp only [ofContent] at read
    split at read <;> cases read <;> exact List.forall_mem_nil _
  | string =>
    obtain ⟨_, text, -, -, rfl⟩ := RuleContent.pick_one read
    exact List.forall_mem_singleton.mpr (flat text)
  | pattern =>
    obtain ⟨values, picked, read⟩ := bind_eq_ok.mp read
    split at read
    · obtain ⟨text, -, read⟩ := bind_eq_ok.mp read
      obtain ⟨flags, -, same⟩ := bind_eq_ok.mp read
      cases same
      refine List.forall_mem_cons.mpr ⟨flat text, List.forall_mem_map.mpr fun flags _ => flat flags⟩
    · cases read
  | symbol =>
    obtain ⟨_, name, -, -, rfl⟩ := RuleContent.pick_one read
    exact List.forall_mem_singleton.mpr (flat name)
  | seq =>
    obtain ⟨rules, inside, rfl⟩ := members_nesting each read
    exact List.forall_mem_singleton.mpr inside
  | choice =>
    obtain ⟨rules, inside, rfl⟩ := members_nesting each read
    exact List.forall_mem_singleton.mpr inside
  | repeat0 =>
    obtain ⟨v, s, found, inside, rfl⟩ := RuleContent.pick_one read
    exact List.forall_mem_singleton.mpr (Nat.le_trans (each v s found) inside)
  | repeat1 =>
    obtain ⟨v, s, found, inside, rfl⟩ := RuleContent.pick_one read
    exact List.forall_mem_singleton.mpr (Nat.le_trans (each v s found) inside)
  | field =>
    obtain ⟨v, name, s, found, inside, rfl⟩ := RuleContent.pick_two read
    exact List.forall_mem_cons.mpr
      ⟨flat name, List.forall_mem_singleton.mpr (Nat.le_trans (each v s found) inside)⟩
  | prec side =>
    obtain ⟨v, value, s, found, inside, rfl⟩ := RuleContent.pick_two read
    exact List.forall_mem_cons.mpr
      ⟨Nat.zero_le _, List.forall_mem_singleton.mpr (Nat.le_trans (each v s found) inside)⟩

end

theorem ofJsonWithin_nesting {levels : Nat} {v : JsonValue} {r : Rule}
    (read : ofJsonWithin levels v = .ok r) : r.toJson.nesting ≤ v.nesting := by
  induction levels generalizing v r with
  | zero => cases read
  | succ levels ih =>
    cases v with
    | object entries =>
      obtain ⟨tag, -, read⟩ := bind_eq_ok.mp read
      obtain ⟨form, -, read⟩ := bind_eq_ok.mp read
      refine Nat.le_trans (ofContent_nesting (fun v s => ih) read) (Nat.succ_le_succ ?_)
      refine nestingEntries_le.mpr fun entry member => ?_
      exact nestingEntries_le.mp (Nat.le_refl _) entry (List.mem_filter.mp member).1
    | array items =>
      cases items with
      | nil => cases read
      | cons tag items =>
        obtain ⟨form, -, read⟩ := bind_eq_ok.mp read
        refine Nat.le_trans (ofContent_nesting (fun v s => ih) read) (Nat.succ_le_succ ?_)
        exact Nat.le_max_right _ _
    | _ => cases read

theorem readEntries_nesting {entries : List (Option String × JsonDocument)}
    (flat : ∀ entry ∈ entries, entry.2.Flat) {form found : Option RuleForm}
    {kept all : List (String × JsonValue)}
    (shallow : ∀ entry ∈ kept, valueDepth + entry.2.nesting ≤ nestingLimit)
    (read : readEntries form kept entries = .ok (found, all)) :
    ∀ entry ∈ all, valueDepth + entry.2.nesting ≤ nestingLimit := by
  induction entries generalizing form kept with
  | nil =>
    cases read
    exact shallow
  | cons entry entries ih =>
    obtain ⟨here, later⟩ := List.forall_mem_cons.mp flat
    obtain ⟨_ | key, document⟩ := entry
    · cases read
    · rw [readEntries] at read
      split at read
      · split at read
        · cases read
        · obtain ⟨tag, -, read⟩ := bind_eq_ok.mp read
          obtain ⟨form, -, read⟩ := bind_eq_ok.mp read
          exact ih later shallow read
      · obtain ⟨v, taken, read⟩ := bind_eq_ok.mp read
        have deep := JsonDocument.value_nesting here (show valueDepth ≤ nestingLimit by decide) taken
        exact ih later (List.forall_mem_append.mpr ⟨shallow, List.forall_mem_singleton.mpr deep⟩) read

theorem ofDocument_nesting {d : JsonDocument} (flat : d.Flat) {r : Rule} (read : ofDocument d = .ok r) :
    2 + r.toJson.nesting ≤ nestingLimit := by
  have room {form : RuleForm} {content : RuleContent}
      (shallow : content.nesting ≤ nestingLimit - valueDepth)
      (read : ofContent ofJson form content = .ok r) : 2 + r.toJson.nesting ≤ nestingLimit := by
    have deep := ofContent_nesting (fun v s => ofJsonWithin_nesting) read
    simp only [nestingLimit, valueDepth] at shallow ⊢
    omega
  cases flat with
  | quoted value => cases read
  | scalar _ => cases read
  | broken found => cases read
  | @object entries each ending =>
    obtain ⟨⟨found, kept⟩, entries_read, read⟩ := bind_eq_ok.mp read
    obtain ⟨-, -, read⟩ := bind_eq_ok.mp read
    have deep := readEntries_nesting each (List.forall_mem_nil _) entries_read
    cases found with
    | none => cases read
    | some form =>
      refine room (nestingEntries_le.mpr fun entry member => ?_) read
      have each := deep entry member
      omega
  | @array items each ending =>
    cases items with
    | nil =>
      obtain ⟨-, -, read⟩ := bind_eq_ok.mp read
      cases read
    | cons tag items =>
      obtain ⟨text, -, read⟩ := bind_eq_ok.mp read
      obtain ⟨form, -, read⟩ := bind_eq_ok.mp read
      obtain ⟨values, items_read, read⟩ := bind_eq_ok.mp read
      obtain ⟨-, -, read⟩ := bind_eq_ok.mp read
      refine room (nestingItems_le.mpr fun v member => ?_) read
      obtain ⟨item, inside, taken⟩ := mem_of_mapM_ok items_read v member
      have deep := JsonDocument.value_nesting ((List.forall_mem_cons.mp each).2 item inside)
        (show valueDepth ≤ nestingLimit by decide) taken
      omega

end Rule

namespace Grammar

def Room (rules : List Rule) : Prop := ∀ r ∈ rules, 2 + r.toJson.nesting ≤ nestingLimit

theorem mem_insertEntry {key : String} {rule : Rule} {entries : List (String × Rule)}
    {entry : String × Rule} (member : entry ∈ insertEntry key rule entries) :
    entry = (key, rule) ∨ entry ∈ entries := by
  induction entries with
  | nil => exact .inl (List.mem_singleton.mp member)
  | cons first rest ih =>
    rw [insertEntry] at member
    split at member
    · exact (List.mem_cons.mp member).imp_right (List.mem_cons_of_mem _)
    · rcases List.mem_cons.mp member with rfl | later
      · exact .inr List.mem_cons_self
      · exact (ih later).imp_right (List.mem_cons_of_mem _)

theorem readRules_nesting {entries : List (Option String × JsonDocument)}
    (flat : ∀ entry ∈ entries, entry.2.Flat) {rules found : OrderedMap Rule} (room : Room rules.values)
    (read : readRules rules entries = .ok found) : Room found.values := by
  induction entries generalizing rules with
  | nil =>
    cases read
    exact room
  | cons entry entries ih =>
    obtain ⟨here, later⟩ := List.forall_mem_cons.mp flat
    obtain ⟨_ | name, document⟩ := entry
    · cases read
    · obtain ⟨rule, taken, read⟩ := bind_eq_ok.mp read
      refine ih later (fun r member => ?_) read
      obtain ⟨entry, inserted, rfl⟩ := List.mem_map.mp member
      rcases mem_insertEntry inserted with rfl | before
      · exact Rule.ofDocument_nesting here taken
      · exact room _ (List.mem_map_of_mem before)

theorem rulesOf_nesting {d : JsonDocument} (flat : d.Flat) {rules : OrderedMap Rule}
    (read : rulesOf d = .ok rules) : Room rules.values := by
  cases flat with
  | object each ending =>
    obtain ⟨found, entries, read⟩ := bind_eq_ok.mp read
    obtain ⟨-, -, same⟩ := bind_eq_ok.mp read
    cases same
    have start : Room (OrderedMap.empty : OrderedMap Rule).values := List.forall_mem_nil _
    exact readRules_nesting each start entries
  | _ => cases read

theorem extrasOf_nesting {d : JsonDocument} (flat : d.Flat) {extras : List Rule}
    (read : extrasOf d = .ok extras) : Room extras := by
  cases flat with
  | array each ending =>
    obtain ⟨found, items, read⟩ := bind_eq_ok.mp read
    obtain ⟨-, -, same⟩ := bind_eq_ok.mp read
    cases same
    intro r member
    obtain ⟨item, inside, taken⟩ := mem_of_mapM_ok items r member
    exact Rule.ofDocument_nesting (each item inside) taken
  | _ => cases read

/-- There is room for all rules that were read so far. -/
structure Draft.Roomy (d : Draft) : Prop where
  rules : ∀ rules ∈ d.rules, Room rules.values
  extras : ∀ extras ∈ d.extras, Room extras

theorem add_roomy {d after : Draft} (roomy : d.Roomy) {document : JsonDocument} (flat : document.Flat)
    {key : String} (added : d.add key document = .ok after) : after.Roomy := by
  unfold Draft.add at added
  split at added
  · split at added
    · cases added
    · obtain ⟨name, -, same⟩ := bind_eq_ok.mp added
      cases same
      exact ⟨roomy.rules, roomy.extras⟩
  · split at added
    · split at added
      · cases added
      · obtain ⟨rules, read, same⟩ := bind_eq_ok.mp added
        cases same
        refine ⟨?_, roomy.extras⟩
        rintro _ ⟨⟩
        exact rulesOf_nesting flat read
    · split at added
      · split at added
        · cases added
        · obtain ⟨extras, read, same⟩ := bind_eq_ok.mp added
          cases same
          refine ⟨roomy.rules, ?_⟩
          rintro _ ⟨⟩
          exact extrasOf_nesting flat read
      · obtain ⟨-, -, same⟩ := bind_eq_ok.mp added
        cases same
        exact roomy

theorem addAll_roomy {entries : List (Option String × JsonDocument)}
    (flat : ∀ entry ∈ entries, entry.2.Flat) {d after : Draft} (roomy : d.Roomy)
    (added : d.addAll entries = .ok after) : after.Roomy := by
  induction entries generalizing d with
  | nil =>
    cases added
    exact roomy
  | cons entry entries ih =>
    obtain ⟨here, later⟩ := List.forall_mem_cons.mp flat
    obtain ⟨_ | key, document⟩ := entry
    · cases added
    · obtain ⟨next, first, added⟩ := bind_eq_ok.mp added
      exact ih later (add_roomy roomy here first) added

theorem finish_roomy {d : Draft} (roomy : d.Roomy) {g : Grammar} (finished : d.finish = .ok g) :
    (g.rules.map Prod.fst).Nodup ∧ Room (g.rules.map Prod.snd) ∧ Room g.extras := by
  unfold Draft.finish at finished
  split at finished
  · rename_i name rules _ found
    cases finished
    refine ⟨rules.distinct, roomy.rules rules found, ?_⟩
    cases given : d.extras with
    | none => exact List.forall_mem_nil _
    | some extras => exact roomy.extras extras given
  · cases finished

theorem ofDocument_roomy {d : JsonDocument} (flat : d.Flat) {g : Grammar} (read : ofDocument d = .ok g) :
    (g.rules.map Prod.fst).Nodup ∧ Room (g.rules.map Prod.snd) ∧ Room g.extras := by
  have start : Draft.Roomy ⟨none, none, none⟩ := ⟨by rintro rules ⟨⟩, by rintro extras ⟨⟩⟩
  cases flat with
  | object each ending =>
    obtain ⟨draft, added, read⟩ := bind_eq_ok.mp read
    obtain ⟨-, -, finished⟩ := bind_eq_ok.mp read
    exact finish_roomy (addAll_roomy each start added) finished
  | array each ending =>
    obtain ⟨draft, added, read⟩ := bind_eq_ok.mp read
    have roomy := addAll_roomy (fun entry member => each _ (List.of_mem_zip member).2) start added
    split at read
    · obtain ⟨_, _, finished⟩ := bind_eq_ok.mp read
      exact finish_roomy roomy finished
    · cases read
  | _ => cases read

theorem read_roomy {text : List Char} {g : Grammar} (loaded : read text = .ok g) :
    (g.rules.map Prod.fst).Nodup ∧ Room (g.rules.map Prod.snd) ∧ Room g.extras := by
  obtain ⟨d, flat, found⟩ := readJson_flat loaded
  exact ofDocument_roomy flat found

end Grammar

end CraftDsl
