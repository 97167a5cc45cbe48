import CraftDsl.Proofs.Losslessness
import CraftDsl.Tree.Dump
import Mathlib.Data.List.Nodup

/-!
Dumps with blanks and comments are faithful: every line can be told apart into its depth, its kind and
its text, and the depths of the lines give the nesting back. Main statement: `dump_faithful`.
-/
namespace CraftDsl

/-- What stands before the first `c` and what stands behind it are determined by the whole. -/
theorem append_cons_inj_first {c : Char} {front front' back back' : List Char}
    (same : front ++ c :: back = front' ++ c :: back') (first : c ∉ front) (first' : c ∉ front') :
    front = front' ∧ back = back' := by
  induction front generalizing front' with
  | nil =>
    cases front' with
    | nil => exact ⟨rfl, (List.cons.inj same).2⟩
    | cons d front' =>
      obtain ⟨rfl, -⟩ := List.cons.inj same
      exact absurd List.mem_cons_self first'
  | cons d front ih =>
    cases front' with
    | nil =>
      obtain ⟨rfl, -⟩ := List.cons.inj same
      exact absurd List.mem_cons_self first
    | cons e front' =>
      obtain ⟨rfl, rest⟩ := List.cons.inj same
      obtain ⟨rfl, tails⟩ :=
        ih rest (fun member => first (.tail _ member)) (fun member => first' (.tail _ member))
      exact ⟨rfl, tails⟩

theorem takeWhile_exact {p : Char → Bool} {front back : List Char} (inside : ∀ c ∈ front, p c = true)
    (stops : ∀ c ∈ back.head?, p c = false) : (front ++ back).takeWhile p = front := by
  rw [List.takeWhile_append_of_pos inside]
  cases back with
  | nil => simp
  | cons c back => simp [stops c rfl]

/-- Lines are told apart by the newlines behind them. -/
theorem lines_injective {lines lines' : List (List Char)} (whole : ∀ line ∈ lines, '\n' ∉ line)
    (whole' : ∀ line ∈ lines', '\n' ∉ line)
    (same : lines.flatMap (fun line => line ++ ['\n']) = lines'.flatMap fun line => line ++ ['\n']) :
    lines = lines' := by
  induction lines generalizing lines' with
  | nil =>
    cases lines' with
    | nil => rfl
    | cons line' lines' => simp at same
  | cons line lines ih =>
    cases lines' with
    | nil => simp at same
    | cons line' lines' =>
      simp only [List.flatMap_cons, List.append_assoc, List.singleton_append] at same
      obtain ⟨here, later⟩ := List.forall_mem_cons.mp whole
      obtain ⟨here', later'⟩ := List.forall_mem_cons.mp whole'
      obtain ⟨rfl, rest⟩ := append_cons_inj_first same here here'
      rw [ih later later' rest]

def unescape : List Char → List Char
  | '\\' :: 'n' :: cs => '\n' :: unescape cs
  | '\\' :: 'r' :: cs => '\r' :: unescape cs
  | '\\' :: 't' :: cs => '\t' :: unescape cs
  | '\\' :: c :: cs => c :: unescape cs
  | c :: cs => c :: unescape cs
  | [] => []

def leafChar (c : Char) : List Char :=
  if c = '"' || c = '\\' then ['\\', c]
  else if c = '\n' then ['\\', 'n']
  else if c = '\r' then ['\\', 'r']
  else if c = '\t' then ['\\', 't']
  else [c]

theorem escapeLeaf_cons (c : Char) (text : List Char) :
    escapeLeaf (c :: text) = leafChar c ++ escapeLeaf text := rfl

theorem unescape_leafChar (c : Char) (rest : List Char) :
    unescape (leafChar c ++ rest) = c :: unescape rest := by
  unfold leafChar
  split_ifs with quoted newline carriage tab
  · rw [Bool.or_eq_true, decide_eq_true_eq, decide_eq_true_eq] at quoted
    rcases quoted with rfl | rfl <;> simp [unescape]
  · simp [unescape, newline]
  · simp [unescape, carriage]
  · simp [unescape, tab]
  · have plain : c ≠ '\\' := by rintro rfl; simp at quoted
    rw [List.singleton_append, unescape.eq_def]
    simp [plain]

theorem newline_notMem_leafChar (c : Char) : '\n' ∉ leafChar c := by
  unfold leafChar
  split_ifs with quoted newline carriage tab
  · rw [Bool.or_eq_true, decide_eq_true_eq, decide_eq_true_eq] at quoted
    rcases quoted with rfl | rfl <;> simp
  all_goals simp [eq_comm, newline]

theorem newline_notMem_escapeLeaf (text : List Char) : '\n' ∉ escapeLeaf text := fun member =>
  let ⟨c, _, inside⟩ := List.mem_flatMap.mp member
  newline_notMem_leafChar c inside

theorem escapeLeaf_injective : Function.Injective escapeLeaf := by
  refine Function.LeftInverse.injective (g := unescape) fun text => ?_
  induction text with
  | nil => rfl
  | cons c text ih => rw [escapeLeaf_cons, unescape_leafChar, ih]

namespace Kind

theorem mem_all (kind : Kind) : kind ∈ all := List.mem_of_getElem? kind.all_index

def code (kind : Kind) : Nat := kind.label.toList.foldl (fun n c => 256 * n + c.toNat) 0

/-- Labels are letters only, and no two kinds share one, as their numbers show. -/
theorem labels_apart : (all.map code).Nodup ∧
    ∀ kind ∈ all, kind.label.toList ≠ [] ∧ kind.label.toList.all Char.isAlpha = true := by
  decide +kernel

theorem label_injective : Function.Injective label := by
  intro a b same
  have codes : a.code = b.code := by rw [code, code, same]
  exact List.inj_on_of_nodup_map labels_apart.1 a.mem_all b.mem_all codes

theorem label_notMem (kind : Kind) {c : Char} (other : c.isAlpha = false) : c ∉ kind.label.toList :=
  fun member => Bool.eq_false_iff.mp other
    (List.all_eq_true.mp (labels_apart.2 kind kind.mem_all).2 c member)

theorem label_head (kind : Kind) (rest : List Char) :
    ∀ c ∈ (kind.label.toList ++ rest).head?, c ≠ ' ' := by
  obtain ⟨c, cs, letters⟩ := List.exists_cons_of_ne_nil (labels_apart.2 kind kind.mem_all).1
  rw [letters]
  rintro _ ⟨⟩ rfl
  exact kind.label_notMem (by decide) (letters ▸ List.mem_cons_self)

theorem label_inj {kind kind' : Kind} {rest rest' : List Char} (blank : ∀ c ∈ rest.head?, c = ' ')
    (blank' : ∀ c ∈ rest'.head?, c = ' ')
    (same : kind.label.toList ++ rest = kind'.label.toList ++ rest') : kind = kind' ∧ rest = rest' := by
  have letters (kind : Kind) : ∀ c ∈ kind.label.toList, decide (c ≠ ' ') = true := fun c member =>
    decide_eq_true fun space => kind.label_notMem (by decide) (space ▸ member)
  have labels := congrArg (List.takeWhile (· ≠ ' ')) same
  rw [takeWhile_exact (letters kind) (by simpa using blank),
    takeWhile_exact (letters kind') (by simpa using blank'), String.toList_inj] at labels
  obtain rfl := label_injective labels
  exact ⟨rfl, List.append_cancel_left same⟩

end Kind

theorem indentation_inj {depth depth' : Nat} {line line' : List Char}
    (solid : ∀ c ∈ line.head?, c ≠ ' ') (solid' : ∀ c ∈ line'.head?, c ≠ ' ')
    (same : indentation depth ++ line = indentation depth' ++ line') :
    depth = depth' ∧ line = line' := by
  have blanks (depth : Nat) : ∀ c ∈ indentation depth, decide (c = ' ') = true := by simp [indentation]
  have widths := congrArg (List.takeWhile (· = ' ')) same
  rw [takeWhile_exact (blanks depth) (by simpa using solid),
    takeWhile_exact (blanks depth') (by simpa using solid')] at widths
  have twice : 2 * depth = 2 * depth' := by simpa [indentation] using congrArg List.length widths
  obtain rfl : depth = depth' := by omega
  exact ⟨rfl, List.append_cancel_left same⟩

theorem notMem_spanSuffix (spans : Bool) (start width : Nat) {c : Char} (digit : c.isDigit = false)
    (other : c ∉ [' ', '[', '.', ']']) : c ∉ spanSuffix spans start width := by
  have decimals (n : Nat) : c ∉ decimal n := fun member => Bool.eq_false_iff.mp digit
    (Nat.isDigit_of_mem_toDigits (by decide) (by decide) member)
  have brackets : c ∉ " [".toList ∧ c ∉ "..".toList := by simp_all
  unfold spanSuffix
  split_ifs
  · simp_all
  · exact List.not_mem_nil

namespace Tree

def quoted : Tree → List Char
  | leaf token => " \"".toList ++ escapeLeaf token.text ++ ['"']
  | node _ _ => []

def heading (spans : Bool) (depth start : Nat) (t : Tree) : List Char :=
  indentation depth ++ t.kind.label.toList ++ spanSuffix spans start t.width ++ t.quoted

section

variable {spans : Bool} {depth depth' start start' : Nat}

theorem dumpLines_heading (t : Tree) :
    t.dumpLines ⟨true, spans⟩ depth start =
      t.heading spans depth start :: dumpLinesAll ⟨true, spans⟩ (depth + 1) start t.children := by
  cases t <;> simp [dumpLines, dumpLinesAll, heading, quoted, kind, Kind.label, children, width]

theorem newline_notMem_heading (t : Tree) : '\n' ∉ t.heading spans depth start := by
  have blanks : '\n' ∉ indentation depth := by simp [indentation]
  have text : '\n' ∉ t.quoted := by
    cases t with
    | leaf token => simp [quoted, newline_notMem_escapeLeaf]
    | node kind children => exact List.not_mem_nil
  simp only [heading, List.mem_append, not_or]
  exact ⟨⟨⟨blanks, t.kind.label_notMem (by decide)⟩, notMem_spanSuffix _ _ _ (by decide) (by decide)⟩,
    text⟩

theorem head_spanSuffix (width : Nat) (t : Tree) :
    ∀ c ∈ (spanSuffix spans start width ++ t.quoted).head?, c = ' ' := by
  unfold spanSuffix
  cases t <;> split_ifs <;> simp [quoted]

theorem heading_inj {t t' : Tree}
    (same : t.heading spans depth start = t'.heading spans depth' start') :
    depth = depth' ∧ t.kind = t'.kind ∧ t.token? = t'.token? := by
  simp only [heading, List.append_assoc] at same
  obtain ⟨rfl, labels⟩ := indentation_inj (t.kind.label_head _) (t'.kind.label_head _) same
  obtain ⟨kinds, texts⟩ := Kind.label_inj (head_spanSuffix _ t) (head_spanSuffix _ t') labels
  refine ⟨rfl, kinds, ?_⟩
  cases t with
  | node kind children => cases t' with
    | node kind' children' => rfl
    | leaf token' => cases kinds
  | leaf token => cases t' with
    | node kind' children' => cases kinds
    | leaf token' =>
      have quotes (start width : Nat) : '"' ∉ spanSuffix spans start width ++ [' '] := by
        simp [notMem_spanSuffix spans start width (c := '"') (by decide) (by decide)]
      have parted (start width : Nat) (text : List Char) :
          spanSuffix spans start width ++ (" \"".toList ++ escapeLeaf text ++ ['"']) =
            (spanSuffix spans start width ++ [' ']) ++ '"' :: (escapeLeaf text ++ ['"']) := by simp
      rw [quoted, quoted, parted, parted] at texts
      obtain ⟨-, escaped⟩ := append_cons_inj_first texts (quotes _ _) (quotes _ _)
      have text := escapeLeaf_injective (List.append_cancel_right escaped)
      cases token
      cases kinds
      cases text
      rfl

def Shallow (spans : Bool) (depth : Nat) (lines : List (List Char)) : Prop :=
  ∀ line ∈ lines.head?, ∃ less < depth, ∃ start t, line = heading spans less start t

theorem shallow_dumpLinesAll (trees : List Tree) {rest : List (List Char)}
    (shallow : Shallow spans depth rest) :
    Shallow spans (depth + 1) (dumpLinesAll ⟨true, spans⟩ depth start trees ++ rest) := by
  intro line first
  cases trees with
  | nil =>
    obtain ⟨less, deeper, place⟩ := shallow line first
    exact ⟨less, Nat.lt_succ_of_lt deeper, place⟩
  | cons t trees =>
    rw [dumpLinesAll, dumpLines_heading] at first
    exact ⟨depth, Nat.lt_succ_self depth, start, t, (Option.some.inj first).symm⟩

theorem eq_of_parts {t t' : Tree} (kinds : t.kind = t'.kind) (tokens : t.token? = t'.token?)
    (inner : t.children = t'.children) : t = t' := by
  cases t <;> cases t' <;> simp_all [kind, token?, children]

theorem sizeOf_children (t : Tree) (trees : List Tree) : sizeOf t.children < sizeOf (t :: trees) := by
  cases t <;> simp [children] <;> omega

theorem shallow_ne {t : Tree} {lines rest : List (List Char)} (shallow : Shallow spans depth rest) :
    rest ≠ t.heading spans depth start :: lines := by
  rintro rfl
  obtain ⟨less, deeper, _, _, same⟩ := shallow _ rfl
  exact absurd (heading_inj same).1.symm (Nat.ne_of_lt deeper)

/-- The trees of a depth are read back from their lines, up to the first line that is less deep. -/
theorem dumpLinesAll_inj {depth start : Nat} {trees trees' : List Tree} {rest rest' : List (List Char)}
    (shallow : Shallow spans depth rest) (shallow' : Shallow spans depth rest')
    (same : dumpLinesAll ⟨true, spans⟩ depth start trees ++ rest =
      dumpLinesAll ⟨true, spans⟩ depth start trees' ++ rest') :
    trees = trees' ∧ rest = rest' := by
  match trees, trees' with
  | [], [] => exact ⟨rfl, same⟩
  | [], t' :: trees' =>
    rw [dumpLinesAll, dumpLinesAll, dumpLines_heading] at same
    exact absurd same (shallow_ne shallow)
  | t :: trees, [] =>
    rw [dumpLinesAll, dumpLinesAll, dumpLines_heading] at same
    exact absurd same.symm (shallow_ne shallow')
  | t :: trees, t' :: trees' =>
    simp only [dumpLinesAll, dumpLines_heading, List.cons_append, List.append_assoc] at same
    obtain ⟨heads, below⟩ := List.cons.inj same
    obtain ⟨-, kinds, tokens⟩ := heading_inj heads
    obtain ⟨inner, later⟩ := dumpLinesAll_inj (shallow_dumpLinesAll trees shallow)
      (shallow_dumpLinesAll trees' shallow') below
    obtain rfl := eq_of_parts kinds tokens inner
    obtain ⟨rfl, rests⟩ := dumpLinesAll_inj shallow shallow' later
    exact ⟨rfl, rests⟩
termination_by sizeOf trees
decreasing_by
  · exact sizeOf_children t trees
  · simp only [List.cons.sizeOf_spec]
    omega

theorem newline_notMem_dumpLinesAll {depth start : Nat} (trees : List Tree) :
    ∀ line ∈ dumpLinesAll ⟨true, spans⟩ depth start trees, '\n' ∉ line := by
  induction size : sizeOf trees using Nat.strongRecOn generalizing depth start trees with
  | _ bound ih =>
    cases trees with
    | nil => exact List.forall_mem_nil _
    | cons t trees =>
      rw [dumpLinesAll, dumpLines_heading]
      intro line member
      rcases List.mem_append.mp member with inside | later
      · rcases List.mem_cons.mp inside with rfl | below
        · exact t.newline_notMem_heading
        · exact ih _ (size ▸ sizeOf_children t trees) t.children rfl line below
      · have less : sizeOf trees < bound := by
          rw [← size, List.cons.sizeOf_spec]
          omega
        exact ih _ less trees rfl line later

theorem dump_injective (spans : Bool) : Function.Injective (dump ⟨true, spans⟩) := by
  intro t t' same
  have lines := lines_injective (newline_notMem_dumpLinesAll [t]) (newline_notMem_dumpLinesAll [t'])
    (by simpa [dumpLinesAll, dump] using same)
  have ends : Shallow spans 0 [] := nofun
  obtain ⟨trees, -⟩ := dumpLinesAll_inj ends ends (congrArg (· ++ []) lines)
  exact (List.cons.inj trees).1

end

end Tree

/-- Sources with the same dump, blanks and comments included, are the same, and so are their trees. -/
theorem dump_faithful {source source' : List Char} {spans : Bool}
    (same : (parse source).tree.dump ⟨true, spans⟩ = (parse source').tree.dump ⟨true, spans⟩) :
    source = source' ∧ (parse source).tree = (parse source').tree := by
  have trees := Tree.dump_injective spans same
  have text (source : List Char) : (parse source).tree.text = source := by
    rw [Tree.text, carried_text (parse_carried source), lex_text]
  refine ⟨?_, trees⟩
  rw [← text source, trees, text source']

/-- A string with a quote and a tab inside, and a comment over two lines. -/
def quotedTab : List Char := "arch /* a\nb */ \"c\\\"\td\"".toList

theorem quotedTab_faithful :
    quotedTab = (parse quotedTab).tree.text ∧
      (parse quotedTab).tree = (parse (parse quotedTab).tree.text).tree :=
  dump_faithful (show (parse quotedTab).tree.dump ⟨true, true⟩ =
    (parse (parse quotedTab).tree.text).tree.dump ⟨true, true⟩ by decide +kernel)

end CraftDsl
