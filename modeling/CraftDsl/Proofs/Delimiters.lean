import CraftDsl.Proofs.Relexing
import CraftDsl.Proofs.Spellings

/-!
Where strings and comments end. The scans for a closing quote and for the end of a comment take the same
characters as the regular expressions of strings and block comments, and if they find no end, the same
as those of strings and comments that stay open.
-/
namespace CraftDsl

open Regex TokenKind

/-- Whether the character after `before` is escaped: an unescaped backslash stands right in front of
it. -/
def escaped (before : List Char) : Bool :=
  before.foldl (fun escaped c => c = '\\' && !escaped) false

theorem closingQuote?_quoted {body : List Char} (inside : body ∈ quoted.texts) (n : Nat)
    (rest : List Char) : closingQuote? n (body ++ rest) = closingQuote? (n + body.length) rest := by
  revert n
  apply many_induction (motive := fun body => ∀ n,
    closingQuote? n (body ++ rest) = closingQuote? (n + body.length) rest) _ _ inside
  · intro n
    rfl
  · rintro word (plain | taken) body ih n
    · obtain ⟨c, ⟨quote, backslash⟩, rfl⟩ := mem_outsideTwo.mp plain
      rw [List.append_assoc, List.singleton_append, closingQuote?, ih]
      · simp only [List.length_append, List.length_singleton, Nat.add_assoc]
      · exact quote
      · exact fun _ _ same _ => backslash same
    · obtain ⟨c, rfl⟩ := mem_escape.mp taken
      simp only [List.cons_append, List.nil_append, closingQuote?, ih, List.length_cons]
      congr 1
      omega

theorem lt_of_closingQuote? {n m : Nat} {cs : List Char} (found : closingQuote? n cs = some m) :
    n < m := by
  fun_induction closingQuote? n cs with
  | case1 => cases found
  | case2 n cs =>
    obtain rfl := Option.some.inj found
    exact Nat.lt_succ_self n
  | case3 n c cs ih => exact Nat.lt_trans (Nat.lt_add_of_pos_right (by decide)) (ih found)
  | case4 n c cs quote escape ih => exact Nat.lt_of_succ_lt (ih found)

theorem quoted_of_closingQuote? {n m : Nat} {cs : List Char} (found : closingQuote? n cs = some m) :
    ∃ body rest, body ∈ quoted.texts ∧ cs = body ++ '"' :: rest ∧ m = n + body.length + 1 := by
  fun_induction closingQuote? n cs with
  | case1 => cases found
  | case2 n cs => exact ⟨[], cs, many_nil _, rfl, (Option.some.inj found).symm⟩
  | case3 n c cs ih =>
    obtain ⟨body, rest, inside, rfl, rfl⟩ := ih found
    have taken : ['\\', c] ∈ escape.texts := mem_escape.mpr ⟨c, rfl⟩
    refine ⟨['\\', c] ++ body, rest, many_cons (.inr taken) inside, rfl, ?_⟩
    simp only [List.cons_append, List.nil_append, List.length_cons]
    omega
  | case4 n c cs quote escape ih =>
    obtain ⟨body, rest, inside, rfl, rfl⟩ := ih found
    -- A backslash would have taken the next character along, whatever that is.
    have backslash : c ≠ '\\' := by
      rintro rfl
      cases body with
      | nil => exact escape '"' rest rfl rfl
      | cons d ds => exact escape d _ rfl rfl
    have plain := mem_outsideTwo.mpr ⟨c, ⟨quote, backslash⟩, rfl⟩
    refine ⟨[c] ++ body, rest, many_cons (.inl plain) inside, rfl, ?_⟩
    simp only [List.cons_append, List.nil_append, List.length_cons]
    omega

theorem quoted_of_unclosed {n : Nat} {cs : List Char} (open' : closingQuote? n cs = none) :
    ∃ body ∈ quoted.texts, cs = body ∨ cs = body ++ ['\\'] := by
  fun_induction closingQuote? n cs with
  | case1 => exact ⟨[], many_nil _, .inl rfl⟩
  | case2 n cs => cases open'
  | case3 n c cs ih =>
    obtain ⟨body, inside, rest⟩ := ih open'
    have taken : ['\\', c] ∈ escape.texts := mem_escape.mpr ⟨c, rfl⟩
    refine ⟨['\\', c] ++ body, many_cons (.inr taken) inside, ?_⟩
    rcases rest with rfl | rfl
    · exact .inl rfl
    · exact .inr rfl
  | case4 n c cs quote escape ih =>
    by_cases backslash : c = '\\'
    · subst backslash
      cases cs with
      | nil => exact ⟨[], many_nil _, .inr rfl⟩
      | cons d ds => exact (escape d ds rfl rfl).elim
    · obtain ⟨body, inside, rest⟩ := ih open'
      have plain := mem_outsideTwo.mpr ⟨c, ⟨quote, backslash⟩, rfl⟩
      refine ⟨[c] ++ body, many_cons (.inl plain) inside, ?_⟩
      rcases rest with rfl | rfl
      · exact .inl rfl
      · exact .inr rfl

theorem quoted_escaped {body : List Char} (inside : body ∈ quoted.texts) :
    escaped body = false ∧
      ∀ before after, body = before ++ '"' :: after → escaped before = true := by
  apply many_induction (motive := fun body => escaped body = false ∧
    ∀ before after, body = before ++ '"' :: after → escaped before = true) _ _ inside
  · exact ⟨rfl, fun before after same => by simp at same⟩
  · rintro word (plain | taken) body ⟨ended, quotes⟩
    · obtain ⟨c, ⟨quote, backslash⟩, rfl⟩ := mem_outsideTwo.mp plain
      have passed : ∀ text, escaped ([c] ++ text) = escaped text := by
        intro text
        simp [escaped, backslash]
      refine ⟨(passed body).trans ended, ?_⟩
      intro before after same
      cases before with
      | nil => exact absurd (List.cons.inj same).1 quote
      | cons d ds =>
        obtain ⟨rfl, rest⟩ := List.cons.inj same
        exact (passed ds).trans (quotes ds after rest)
    · obtain ⟨c, rfl⟩ := mem_escape.mp taken
      have passed : ∀ text, escaped (['\\', c] ++ text) = escaped text := by
        intro text
        simp [escaped]
      refine ⟨(passed body).trans ended, ?_⟩
      intro before after same
      rcases before with _ | ⟨d, _ | ⟨e, before⟩⟩
      · cases same
      · obtain ⟨rfl, -⟩ := List.cons.inj same
        rfl
      · obtain ⟨rfl, rest⟩ := List.cons.inj same
        obtain ⟨rfl, rest⟩ := List.cons.inj rest
        exact (passed before).trans (quotes before after (List.cons.inj (List.cons.inj same).2).2)

theorem commentEnd?_plain {c : Char} (other : c ≠ '*') (n : Nat) (cs : List Char) :
    commentEnd? n (c :: cs) = commentEnd? (n + 1) cs := by
  rw [commentEnd?]
  exact fun _ same _ => other same

theorem commentEnd?_run {run : List Char} (plain : ∀ c ∈ run, c ≠ '*') (n : Nat) (cs : List Char) :
    commentEnd? n (run ++ cs) = commentEnd? (n + run.length) cs := by
  induction run generalizing n with
  | nil => rfl
  | cons c run ih =>
    obtain ⟨first, rest⟩ := List.forall_mem_cons.mp plain
    rw [List.cons_append, commentEnd?_plain first, ih rest, List.length_cons]
    congr 1
    omega

theorem commentEnd?_stars {stars : List Char} (starry : ∀ c ∈ stars, c = '*') {c : Char}
    (other : c ≠ '/') (n : Nat) (cs : List Char) :
    commentEnd? n (stars ++ c :: cs) = commentEnd? (n + stars.length) (c :: cs) := by
  induction stars generalizing n with
  | nil => rfl
  | cons d stars ih =>
    obtain ⟨rfl, rest⟩ := List.forall_mem_cons.mp starry
    rw [List.cons_append, commentEnd?, ih rest, List.length_cons]
    · congr 1
      omega
    · intro tail _ slash
      cases stars with
      | nil => exact other (List.cons.inj slash).1
      | cons e stars =>
        obtain rfl := rest e List.mem_cons_self
        cases slash

theorem commentEnd?_closed {stars : List Char} (wide : stars ≠ []) (starry : ∀ c ∈ stars, c = '*')
    (n : Nat) (cs : List Char) :
    commentEnd? n (stars ++ '/' :: cs) = some (n + stars.length + 1) := by
  obtain ⟨front, rfl⟩ : ∃ front, stars = front ++ ['*'] := by
    refine ⟨stars.dropLast, ?_⟩
    have last := starry _ (List.getLast_mem wide)
    rw [← last, List.dropLast_append_getLast]
  have stars : ∀ c ∈ front, c = '*' := fun c member => starry c (List.mem_append_left _ member)
  rw [List.append_assoc, List.singleton_append, commentEnd?_stars stars (by decide), commentEnd?,
    List.length_append, List.length_singleton]
  rfl

theorem commentEnd?_parts {parts : List Char} (inside : parts ∈ commentPart.many.texts)
    {stars : List Char} (starry : stars ≠ [] ∧ ∀ c ∈ stars, c = '*') (n : Nat) (cs : List Char) :
    commentEnd? n (stars ++ (parts ++ '/' :: cs)) =
      some (n + stars.length + parts.length + 1) := by
  revert n stars
  apply many_induction (motive := fun parts => ∀ stars : List Char,
    (stars ≠ [] ∧ ∀ c ∈ stars, c = '*') → ∀ n, commentEnd? n (stars ++ (parts ++ '/' :: cs)) =
      some (n + stars.length + parts.length + 1)) _ _ inside
  · rintro stars ⟨wide, starry⟩ n
    exact commentEnd?_closed wide starry n cs
  · rintro word member parts ih stars ⟨-, starry⟩ n
    obtain ⟨c, before, later, ⟨slash, star⟩, run, starry_later, rfl⟩ :=
      mem_commentPart.mp member
    simp only [List.cons_append, List.append_assoc]
    rw [commentEnd?_stars starry slash, commentEnd?_plain star, commentEnd?_run run,
      ih later starry_later]
    simp only [List.length_cons, List.length_append]
    congr 1
    omega

theorem lt_of_commentEnd? {n m : Nat} {cs : List Char} (found : commentEnd? n cs = some m) :
    n + 1 < m := by
  fun_induction commentEnd? n cs with
  | case1 => cases found
  | case2 n cs =>
    obtain rfl := Option.some.inj found
    exact Nat.lt_succ_self _
  | case3 n c cs ending ih => exact Nat.lt_of_succ_lt (ih found)

theorem stars_lt_of_commentEnd? {stars : List Char} (starry : ∀ c ∈ stars, c = '*') {n m : Nat}
    {cs : List Char} (found : commentEnd? n (stars ++ cs) = some m) : n + stars.length < m := by
  induction stars generalizing n with
  | nil => exact Nat.lt_of_succ_lt (lt_of_commentEnd? found)
  | cons c stars ih =>
    obtain ⟨rfl, rest⟩ := List.forall_mem_cons.mp starry
    cases stars with
    | nil => exact lt_of_commentEnd? found
    | cons d stars =>
      obtain rfl := rest d List.mem_cons_self
      have later := ih rest found
      rw [List.length_cons]
      omega

theorem commentEnd?_open {body : List Char} (inside : body ∈ openPart.many.texts) (n : Nat)
    (cs : List Char) : commentEnd? n (body ++ cs) = commentEnd? (n + body.length) cs := by
  revert n
  apply many_induction (motive := fun body => ∀ n,
    commentEnd? n (body ++ cs) = commentEnd? (n + body.length) cs) _ _ inside
  · intro n
    rfl
  · intro word member body ih n
    rcases mem_openPart.mp member with ⟨c, other, rfl⟩ | ⟨stars, c, starry, ⟨other, slash⟩, rfl⟩
    · rw [List.append_assoc, List.singleton_append, commentEnd?_plain other, ih]
      simp only [List.length_append, List.length_singleton, Nat.add_assoc]
    · rw [List.append_assoc, List.append_assoc, List.singleton_append,
        commentEnd?_stars starry.2 slash, commentEnd?_plain other, ih]
      simp only [List.length_append, List.length_singleton, Nat.add_assoc]

/-- What leads up to the first `*/` is a comment's inside. -/
theorem parts_of_commentEnd? {n m : Nat} {cs : List Char} (found : commentEnd? n cs = some m) :
    ∃ before stars parts rest, (∀ c ∈ before, c ≠ '*') ∧ (stars ≠ [] ∧ ∀ c ∈ stars, c = '*') ∧
      parts ∈ commentPart.many.texts ∧ cs = before ++ (stars ++ (parts ++ '/' :: rest)) ∧
        m = n + before.length + stars.length + parts.length + 1 := by
  fun_induction commentEnd? n cs with
  | case1 => cases found
  | case2 n cs =>
    exact ⟨[], ['*'], [], cs, List.forall_mem_nil _, ⟨by simp, by simp⟩, many_nil _, rfl,
      (Option.some.inj found).symm⟩
  | case3 n c cs ending ih =>
    obtain ⟨before, stars, parts, rest, run, ⟨wide, starry⟩, inside, rfl, rfl⟩ := ih found
    -- A star before stars is one of them. Other text after it is a part, as it is no slash.
    by_cases star : c = '*'
    · subst star
      cases before with
      | nil =>
        refine ⟨[], '*' :: stars, parts, rest, List.forall_mem_nil _,
          ⟨List.cons_ne_nil _ _, ?_⟩, inside, rfl, ?_⟩
        · exact List.forall_mem_cons.mpr ⟨rfl, starry⟩
        · simp only [List.length_nil, List.length_cons]
          omega
      | cons d before =>
        obtain ⟨plain, run⟩ := List.forall_mem_cons.mp run
        have slash : d ≠ '/' := by
          rintro rfl
          exact ending _ rfl rfl
        have part : d :: (before ++ stars) ∈ commentPart.texts :=
          mem_commentPart.mpr ⟨d, before, stars, ⟨slash, plain⟩, run, ⟨wide, starry⟩, rfl⟩
        refine ⟨[], ['*'], d :: (before ++ stars) ++ parts, rest, List.forall_mem_nil _,
          ⟨by simp, by simp⟩, many_cons part inside, by simp, ?_⟩
        simp only [List.length_nil, List.length_cons, List.length_append]
        omega
    · refine ⟨c :: before, stars, parts, rest, List.forall_mem_cons.mpr ⟨star, run⟩, ⟨wide, starry⟩,
        inside, rfl, ?_⟩
      rw [List.length_cons]
      omega

/-- Without a `*/` everything is the inside of a comment that stays open. -/
theorem open_of_commentEnd? {n : Nat} {cs : List Char} (unclosed : commentEnd? n cs = none) :
    ∃ body stars, body ∈ openPart.many.texts ∧ (∀ c ∈ stars, c = '*') ∧ cs = body ++ stars := by
  fun_induction commentEnd? n cs with
  | case1 => exact ⟨[], [], many_nil _, List.forall_mem_nil _, rfl⟩
  | case2 n cs => cases unclosed
  | case3 n c cs ending ih =>
    obtain ⟨body, stars, inside, starry, rfl⟩ := ih unclosed
    by_cases star : c = '*'
    · subst star
      rcases many_cases inside with rfl | ⟨word, member, rest, others, rfl⟩
      · exact ⟨[], '*' :: stars, many_nil _, List.forall_mem_cons.mpr ⟨rfl, starry⟩, rfl⟩
      · refine ⟨'*' :: word ++ rest, stars, many_cons (mem_openPart.mpr (.inr ?_)) others, starry,
          rfl⟩
        rcases mem_openPart.mp member with ⟨d, plain, rfl⟩ | ⟨more, d, ⟨-, all⟩, other, rfl⟩
        · have slash : d ≠ '/' := by
            rintro rfl
            exact ending _ rfl rfl
          exact ⟨['*'], d, ⟨by simp, by simp⟩, ⟨plain, slash⟩, rfl⟩
        · exact ⟨'*' :: more, d, ⟨List.cons_ne_nil _ _, List.forall_mem_cons.mpr ⟨rfl, all⟩⟩, other,
            rfl⟩
    · have plain := mem_openPart.mpr (.inl ⟨c, star, rfl⟩)
      exact ⟨[c] ++ body, stars, many_cons plain inside, starry, rfl⟩

/-- The comment ends with the first `*/`. -/
theorem first_of_commentEnd? {n m : Nat} {cs : List Char} (found : commentEnd? n cs = some m) :
    ∃ inner rest, cs = inner ++ '*' :: '/' :: rest ∧ m = n + inner.length + 2 ∧
      ∀ before after, inner ++ ['*'] ≠ before ++ '*' :: '/' :: after := by
  fun_induction commentEnd? n cs with
  | case1 => cases found
  | case2 n cs =>
    refine ⟨[], cs, rfl, (Option.some.inj found).symm, fun before after same => ?_⟩
    have short := congrArg List.length same
    simp only [List.nil_append, List.length_append, List.length_cons, List.length_nil] at short
    omega
  | case3 n c cs ending ih =>
    obtain ⟨inner, rest, rfl, rfl, first⟩ := ih found
    refine ⟨c :: inner, rest, rfl, ?_, fun before after same => ?_⟩
    · rw [List.length_cons]
      omega
    · cases before with
      | nil =>
        obtain ⟨rfl, tail⟩ := List.cons.inj same
        cases inner with
        | nil => cases tail
        | cons d inner =>
          obtain ⟨rfl, -⟩ := List.cons.inj tail
          exact ending _ rfl rfl
      | cons d before => exact first before after (List.cons.inj same).2

end CraftDsl
