import CraftDsl.Proofs.Foreseen.Steps

/-!
What foresight says of whole productions comes true: a production that passes the check fails none of
its own checks, the nodes it finishes pass the monitor, and it ends in one of the exits. Main
statement: `run_foreseen`.
-/
namespace CraftDsl

namespace Monitor

variable {M : Monitor} {s t u : Outlook} {bound : Nat} {e f : Exits Outlook} {c : Cursor}
  {o : Outcome} {inside : Bool}

theorem leave_reaches {kind : NodeKind} (clear : o.faults = []) (passes : M.Passes c.ahead o.pieces)
    (spent : Spent c o) (reached : M.Reaches (M.begin s kind) bound o t)
    (left : M.leave s kind t = some u) :
    M.Passes c.ahead (o.wrapped kind).pieces ∧ M.Reaches s bound (o.wrapped kind) u := by
  rw [leave, Option.ite_none_right_eq_some, Bool.and_eq_true, Option.isNone_iff_eq_none] at left
  rcases left with ⟨⟨spine, ends⟩, found⟩
  rcases Option.map_eq_some_iff.mp found with ⟨site, seen, rfl⟩
  have closes : M.Closes t.site (kindIn 0 (c.ahead.drop (tokensOf o.pieces).length)) := by
    intro opened member
    simp [spine] at member
  rcases grow_closed o.pieces reached.2 passes closes with ⟨accepted, walked⟩
  rw [Site.around, spine] at walked
  have next : (M.ends kind t.site.here).has
      (kindIn 0 (c.ahead.drop (tokensOf o.pieces).length)) = true := by
    rw [rest_ahead spent clear]
    exact KindSet.has_of_within ends reached.1.first
  constructor
  · exact ⟨accepts_closed accepted walked next, trivial⟩
  · refine ⟨reached.1.at_site site, ?_⟩
    show (M.see s.site (.node kind)).bind _ = some site
    rw [seen]
    rfl

theorem foreseen_within {kind : NodeKind} (inner : M.Foreseen (M.begin s kind) bound e c o)
    (spent : Spent c o) (left : Exits.through (M.leave s kind) e = some f) :
    M.Foreseen s bound f c (o.wrapped kind) := by
  rcases inner.exits with ⟨t, member, reached⟩
  rcases Exits.through_covers left member with ⟨u, ended, wider⟩
  rcases leave_reaches inner.clear inner.passes spent reached ended with ⟨passes, exit⟩
  exact ⟨inner.clear, passes, wider _ (M.reaches_upward _ _ _) exit⟩

theorem close_closes {next : TokenKind} (first : t.first.has next = true)
    (closed : M.close s t = some u) :
    M.Closes t.site next ∧ u = { t with site := ⟨s.site.spine, t.site.around⟩ } := by
  unfold Monitor.close at closed
  cases spine : t.site.spine with
  | none =>
    simp only [spine] at closed
    cases closed
    constructor
    · intro opened member
      simp [spine] at member
    · rw [Site.around, spine]
  | some opened =>
    simp only [spine, Option.ite_none_right_eq_some] at closed
    rcases closed with ⟨ends, closed⟩
    cases closed
    constructor
    · intro other member
      have same : other = opened := by simpa [spine, eq_comm] using member
      rw [same]
      exact KindSet.has_of_within ends first
    · rw [Site.around, spine]

theorem foreseen_scope (inner : M.Foreseen { s with site := ⟨none, s.site.here⟩ } bound e c o)
    (spent : Spent c o) (closed : Exits.through (M.close s) e = some f) :
    M.Foreseen s bound f c o.closed := by
  rcases inner.exits with ⟨t, member, holds, grown⟩
  rcases Exits.through_covers closed member with ⟨u, ended, wider⟩
  rcases close_closes holds.first ended with ⟨closes, rfl⟩
  rw [Cursor.kindAhead, ← rest_ahead spent inner.clear] at closes
  rcases grow_closed o.pieces grown inner.passes closes with ⟨accepted, walked⟩
  constructor
  · exact inner.clear
  · exact (M.passes_trees _ _).mpr accepted
  · exact wider _ (M.reaches_upward _ _ _) ⟨holds.at_site _, grow_trees _ _ walked⟩

/-- A round after which a further one comes has taken a token. -/
theorem foreseen_round {body : Outlook → Option (Exits Outlook)}
    (stepped : Outlook.round body s = some e) (holds : s.Holds bound c)
    (inner : ∀ f, body { s with moved := false } = some f →
      M.Foreseen { s with moved := false } c.ahead.length f c o)
    (spent : Spent c o) :
    M.Foreseen s bound e c o ∧ (o.answer = true → o.cursor.ahead.length < c.ahead.length) := by
  rw [Outlook.round, Outlook.onward_eq, Option.bind_eq_some_iff] at stepped
  rcases stepped with ⟨f, found, moving⟩
  rw [Option.ite_none_right_eq_some] at moving
  rcases moving with ⟨moves, result⟩
  cases result
  have foreseen := inner f found
  have shrinks : o.cursor.ahead.length ≤ c.ahead.length := by
    rcases spent with ⟨taken, spends⟩
    rw [spends.ahead, List.length_append]
    omega
  rcases foreseen.exits with ⟨t, member, after, grown⟩
  cases answer : o.answer with
  | true =>
    rw [answer] at member
    have moved : t.moved = true := List.all_eq_true.mp moves t member
    refine ⟨⟨foreseen.clear, foreseen.passes, ?_⟩, fun _ => after.moved moved⟩
    rw [answer]
    exact ⟨t, member, after.rebound holds.length, grown⟩
  | false =>
    rw [answer] at member
    refine ⟨⟨foreseen.clear, foreseen.passes, ?_⟩, fun yes => Bool.noConfusion yes⟩
    rw [answer]
    exact ⟨_, List.mem_map_of_mem member, after.carry holds shrinks, grown⟩

theorem foreseen_rounds {round : Cursor → Outcome} {body : Outlook → Option (Exits Outlook)}
    {states ended : List Outlook}
    (closed : ∀ s ∈ states, Exits.Leads (Outlook.round body) states ended s)
    (inner : ∀ s e bound c, body s = some e → s.Holds bound c → M.Fair inside (round c) →
      M.Foreseen s bound e c (round c))
    (spent : ∀ c, Spent c (round c)) (limit : List Token) (member : s ∈ states)
    (holds : s.Holds bound c) (enough : c.ahead.length ≤ limit.length)
    (fair : M.Fair inside (Production.rounds round limit c)) :
    M.Foreseen s bound ⟨ended, []⟩ c (Production.rounds round limit c) := by
  induction limit generalizing s bound c with
  | nil =>
    rw [Production.rounds] at fair ⊢
    rcases closed s member with ⟨e, stepped, onward, outward⟩
    have round_fair := fair.first (Cursor.check_spent _ _ _ _)
    rcases foreseen_round stepped holds
      (fun f found => inner _ f _ c found holds.fresh round_fair) (spent c) with ⟨start, moved⟩
    -- A further round would have taken a token, and there was none.
    have stopped : (round c).answer = false := by
      cases again : (round c).answer with
      | true => exact absurd ((moved again).trans_le enough) (Nat.not_lt_zero _)
      | false => rfl
    have exit := start.exits
    rw [stopped] at exit
    rcases outward _ (M.reaches_upward _ _ _) exit with ⟨t, inside, reached⟩
    refine start.step (spent c) reached ⟨?_, trivial, t, inside, reached.1, rfl⟩
    simp [stopped, Outcome.check]
  | cons token limit ih =>
    rw [Production.rounds] at fair ⊢
    rcases closed s member with ⟨e, stepped, onward, outward⟩
    have round_fair := fair.first (by
      split
      · exact Production.rounds_spent spent limit _
      · exact Cursor.quiet_spent _ true)
    rcases foreseen_round stepped holds
      (fun f found => inner _ f _ c found holds.fresh round_fair) (spent c) with ⟨start, moved⟩
    have exit := start.exits
    have rest_fair := fair.second
    cases again : (round c).answer with
    | true =>
      rw [again] at exit
      simp only [again, if_true] at rest_fair
      rcases exit with ⟨t, further, reached⟩
      rcases onward t further with ⟨u, known, below⟩
      have weaker := M.reaches_upward _ _ _ _ _ below reached
      have fewer : (round c).cursor.ahead.length ≤ limit.length :=
        Nat.le_of_lt_succ ((moved again).trans_le enough)
      apply start.step (spent c) weaker
      simp only [again, if_true]
      exact ih known weaker.1 fewer rest_fair
    | false =>
      rw [again] at exit
      rcases outward _ (M.reaches_upward _ _ _) exit with ⟨t, inside, reached⟩
      apply start.step (spent c) reached
      simp only [again, Bool.false_eq_true, if_false]
      exact ⟨rfl, trivial, t, inside, reached.1, rfl⟩

def Reliable (M : Monitor) (x : Production) : Prop :=
  ∀ ⦃inside s bound e c⦄, x.foresee M inside s = some e → s.Holds bound c →
    M.Fair inside (x.run c) → M.Foreseen s bound e c (x.run c)

theorem reliable_within {body : Production} (inner : M.Reliable body) (kind : NodeKind) :
    M.Reliable (.within kind body) := by
  intro inside s bound e c checked holds fair
  rcases Option.bind_eq_some_iff.mp checked with ⟨f, found, left⟩
  rw [Outlook.onward_eq] at found
  exact foreseen_within (inner found (holds.at_site _) fair.wrapped) (body.run_spent c) left

theorem reliable_scope {body : Production} (inner : M.Reliable body) : M.Reliable (.scope body) := by
  intro inside s bound e c checked holds fair
  rcases Option.bind_eq_some_iff.mp checked with ⟨f, found, closed⟩
  rw [Outlook.onward_eq] at found
  exact foreseen_scope (inner found (holds.at_site _) fair.closed) (body.run_spent c) closed

theorem reliable_seq {first second : Production} (one : M.Reliable first) (two : M.Reliable second) :
    M.Reliable (.seq first second) := by
  intro inside s bound e c checked holds fair
  rcases Option.bind_eq_some_iff.mp checked with ⟨f, begun, collected⟩
  rw [Outlook.onward_eq] at collected
  have start := one begun holds (fair.first (second.run_spent _))
  apply start.andThen (first.run_spent c) start.any collected
  intro t g stepped after
  exact two stepped after fair.second

theorem reliable_branch {question yes no : Production} (asking : M.Reliable question)
    (affirming : M.Reliable yes) (denying : M.Reliable no) :
    M.Reliable (.branch question yes no) := by
  intro inside s bound e c checked holds fair
  rcases Option.bind_eq_some_iff.mp checked with ⟨f, asked, answered⟩
  rcases Option.bind_eq_some_iff.mp answered with ⟨g, affirmed, last⟩
  rcases Option.map_eq_some_iff.mp last with ⟨h, denied, rfl⟩
  rw [Outlook.onward_eq] at affirmed denied
  have start := asking asked holds (fair.first (by
    split
    · exact yes.run_spent _
    · exact no.run_spent _))
  have rest_fair := fair.second
  apply start.decide (question.run_spent c) affirmed denied
  · intro answer t k stepped after
    rw [if_pos answer] at rest_fair
    exact affirming stepped after rest_fair
  · intro answer t k stepped after
    rw [if_neg (Bool.eq_false_iff.mp answer)] at rest_fair
    exact denying stepped after rest_fair

theorem reliable_loop {body : Production} (inner : M.Reliable body) : M.Reliable (.loop body) := by
  intro inside s bound e c checked holds fair
  rcases Option.map_eq_some_iff.mp checked with ⟨ended, explored, rfl⟩
  rcases Exits.rounds_closed explored with ⟨states, ⟨t, member, below⟩, closed⟩
  rcases Outlook.holds_le below holds with ⟨after, site⟩
  have foreseen := foreseen_rounds closed
    (fun s e bound c stepped holds fair => inner stepped holds fair) body.run_spent c.ahead member
    after (Nat.le_refl _) fair
  constructor
  · exact foreseen.clear
  · exact foreseen.passes
  · rcases foreseen.exits with ⟨u, exit, reached⟩
    exact ⟨u, exit, reached.1, site ▸ reached.2⟩

theorem reliable_block {body : Production} (inner : M.Reliable body) (what : String) :
    M.Reliable (.block what body) := by
  intro inside s bound e c checked holds fair
  rcases Option.bind_eq_some_iff.mp checked with ⟨opened, taken, entered⟩
  rcases Option.bind_eq_some_iff.mp entered with ⟨f, going, finished⟩
  rw [Outlook.onward_eq] at going
  have parts : (Production.block what body).run c =
      ((c.take (.single TokenKind.braceOpen) none).andThen fun _ c => body.run c).andThen
        fun _ after => after.closeBlock what c.spanAhead := by
    rw [Outcome.andThen_assoc]
    rfl
  rw [parts] at fair ⊢
  have body_fair := fair.block
  have take := foreseen_take holds taken (body_fair.first (body.run_spent _))
  have begun := take.exits
  rw [Cursor.take_answer] at begun
  have start : M.Foreseen s bound f c
      ((c.take (.single TokenKind.braceOpen) none).andThen fun _ c => body.run c) := by
    apply take.andThen (c.take_own_spent _) begun going
    intro t g stepped after
    exact inner stepped after body_fair.second
  apply start.andThen ((c.take_own_spent _).andThen (body.run_spent _)) start.any finished
  intro t g stepped after
  exact foreseen_closeBlock after stepped what c.spanAhead fair.second

/-- The longer form of a node, which has `rest` after the answer yes. -/
theorem foreseen_longer {kind : NodeKind} {rest : Production} (going : M.Reliable rest)
    {longer : List Outlook} (start : M.Foreseen (M.begin s kind) bound e c o) (spent : Spent c o)
    (answer : o.answer = true) (continued : Exits.collect (rest.foresee M inside) e.yes = some f)
    (left : Exits.gather (M.leave s kind) f.all = some longer)
    (fair : M.Fair inside (o.andThen fun _ c => rest.run c)) :
    M.Foreseen s bound ⟨longer, []⟩ c
      (((o.andThen fun _ c => rest.run c).andThen fun _ c => .quiet true c).wrapped kind) := by
  have exits := start.exits
  rw [answer] at exits
  have gone : M.Foreseen (M.begin s kind) bound f c (o.andThen fun _ c => rest.run c) := by
    apply start.andThen spent exits continued
    intro t g stepped after
    exact going stepped after fair.second
  have gone_spent : Spent c (o.andThen fun _ c => rest.run c) := spent.andThen (rest.run_spent _)
  rcases gone.any with ⟨t, member, reached⟩
  rcases Exits.gather_covers left member with ⟨u, ended, wider⟩
  have whole : M.Foreseen (M.begin s kind) bound (.only true [t]) c
      ((o.andThen fun _ c => rest.run c).andThen fun _ c => .quiet true c) :=
    gone.step gone_spent reached (foreseen_quiet reached.1 true)
  rcases leave_reaches whole.clear whole.passes (gone_spent.andThen (Cursor.quiet_spent _ true))
    (whole.reaches (by simp [Exits.only])) ended with ⟨passes, exit⟩
  exact ⟨whole.clear, passes, wider _ (M.reaches_upward _ _ _) exit⟩

theorem foreseen_shorter {kind : NodeKind} {shorter : List Outlook}
    (start : M.Foreseen (M.begin s kind) bound e c o) (spent : Spent c o) (answer : o.answer = false)
    (left : Exits.gather (M.leave s kind) e.no = some shorter) :
    M.Foreseen s bound ⟨[], shorter⟩ c ((o.andThen fun _ c => .quiet false c).wrapped kind) := by
  rcases start.exits with ⟨t, member, reached⟩
  rw [answer] at member
  rcases Exits.gather_covers left member with ⟨u, ended, wider⟩
  have whole : M.Foreseen (M.begin s kind) bound (.only false [t]) c
      (o.andThen fun _ c => .quiet false c) :=
    start.step spent reached (foreseen_quiet reached.1 false)
  rcases leave_reaches whole.clear whole.passes (spent.andThen (Cursor.quiet_spent _ false))
    (whole.reaches (by simp [Exits.only])) ended with ⟨passes, exit⟩
  exact ⟨whole.clear, passes, wider _ (M.reaches_upward _ _ _) exit⟩

theorem reliable_wrap {first question rest : Production} (starting : M.Reliable first)
    (asking : M.Reliable question) (going : M.Reliable rest) (yes no : NodeKind) :
    M.Reliable (.wrap yes no first question rest) := by
  intro inside s bound e c checked holds fair
  simp only [Production.foresee, Outlook.onward_eq, Option.bind_eq_some_iff,
    Option.map_eq_some_iff] at checked
  rcases checked with ⟨f, ⟨f₀, f_begun, f_asked⟩, g, continued, longer, long_left, h,
    ⟨h₀, h_begun, h_asked⟩, shorter, short_left, rfl⟩
  -- Up to the answer the node has the same children, whichever kind it gets.
  set q := (first.run c).andThen fun _ c => question.run c with q_eq
  have q_spent : Spent c q := (first.run_spent c).andThen (question.run_spent _)
  have asked {kind : NodeKind} {e₀ e : Exits Outlook}
      (begun : first.foresee M inside (M.begin s kind) = some e₀)
      (then_asked : Exits.collect (question.foresee M inside) e₀.all = some e)
      (q_fair : M.Fair inside q) : M.Foreseen (M.begin s kind) bound e c q := by
    have start := starting begun (holds.at_site _) (q_fair.first (question.run_spent _))
    apply start.andThen (first.run_spent c) start.any then_asked
    intro t g stepped after
    exact asking stepped after q_fair.second
  set tail : Bool → Cursor → Outcome := fun answer c =>
    if answer then (rest.run c).andThen fun _ c => .quiet true c else .quiet false c
  have parts : (Production.wrap yes no first question rest).run c =
      (q.andThen tail).wrapped (if (q.andThen tail).answer then yes else no) := by
    rw [q_eq, Outcome.andThen_assoc]
    rfl
  cases answer : q.answer with
  | true =>
    have whole : q.andThen tail =
        (q.andThen fun _ c => rest.run c).andThen fun _ c => .quiet true c := by
      simp [Outcome.andThen, tail, answer]
    have long_form : (Production.wrap yes no first question rest).run c =
        ((q.andThen fun _ c => rest.run c).andThen fun _ c => .quiet true c).wrapped yes := by
      rw [parts, whole]
      rfl
    rw [long_form] at fair ⊢
    have rest_fair := fair.wrapped.first (Cursor.quiet_spent _ true)
    have start := asked f_begun f_asked (rest_fair.first (rest.run_spent _))
    have long := foreseen_longer going start q_spent answer continued long_left rest_fair
    exact ⟨long.clear, long.passes, Exits.covers_yes shorter long.exits⟩
  | false =>
    have whole : q.andThen tail = q.andThen fun _ c => .quiet false c := by
      simp [Outcome.andThen, tail, answer]
    have short_form : (Production.wrap yes no first question rest).run c =
        (q.andThen fun _ c => .quiet false c).wrapped no := by
      rw [parts, whole]
      rfl
    rw [short_form] at fair ⊢
    have start := asked h_begun h_asked (fair.wrapped.first (Cursor.quiet_spent _ false))
    have short := foreseen_shorter start q_spent answer short_left
    exact ⟨short.clear, short.passes, Exits.covers_no longer short.exits⟩

theorem run_foreseen (x : Production) : M.Reliable x := by
  induction x with
  | answer value =>
    intro inside s bound e c checked holds fair
    cases checked
    exact foreseen_quiet holds value
  | look n among =>
    intro inside s bound e c checked holds fair
    rcases Option.map_eq_some_iff.mp checked with ⟨t, peeked, rfl⟩
    exact foreseen_look holds peeked n among
  | glance n among =>
    intro inside s bound e c checked holds fair
    cases checked
    exact foreseen_glance holds n among
  | demand among =>
    intro inside s bound e c checked holds fair
    rcases Option.bind_eq_some_iff.mp checked with ⟨t, peeked, found⟩
    rw [Option.ite_none_right_eq_some] at found
    rcases found with ⟨within, found⟩
    cases found
    exact foreseen_demand holds peeked within
  | impossible =>
    intro inside s bound e c checked
    cases checked
  | take among =>
    intro inside s bound e c checked holds fair
    rcases Option.map_eq_some_iff.mp checked with ⟨after, taken, rfl⟩
    exact foreseen_take holds taken fair
  | name =>
    intro inside s bound e c checked holds fair
    rcases Option.ite_none_right_eq_some.mp checked with ⟨within, found⟩
    rcases Option.map_eq_some_iff.mp found with ⟨t, taken, rfl⟩
    exact foreseen_name holds within taken fair
  | pass =>
    intro inside s bound e c checked holds fair
    cases checked
    exact foreseen_quiet holds true
  | settle =>
    intro inside s bound e c checked holds fair
    cases checked
    exact foreseen_settle holds
  | within kind body ih => exact reliable_within ih kind
  | into kind =>
    intro inside s bound e c checked holds fair
    rcases Option.map_eq_some_iff.mp checked with ⟨site, entered, rfl⟩
    refine ⟨rfl, trivial, _, List.mem_singleton_self _, holds.at_site site, ?_⟩
    show (M.enter s.site kind).bind _ = some site
    rw [entered]
    rfl
  | count opened =>
    intro inside s bound e c checked holds fair
    cases checked
    exact foreseen_quiet holds true
  | scope body ih => exact reliable_scope ih
  | wrap yes no first question rest first_ih question_ih rest_ih =>
    exact reliable_wrap first_ih question_ih rest_ih yes no
  | seq first second first_ih second_ih => exact reliable_seq first_ih second_ih
  | branch question yes no question_ih yes_ih no_ih =>
    exact reliable_branch question_ih yes_ih no_ih
  | loop body ih => exact reliable_loop ih
  | missing kind message =>
    intro inside s bound e c checked holds fair
    rcases Option.bind_eq_some_iff.mp checked with ⟨t, peeked, ended⟩
    rcases Option.map_eq_some_iff.mp ended with ⟨flagged, found, rfl⟩
    exact foreseen_missing holds peeked found kind message fair
  | skip complaint =>
    intro inside s bound e c checked holds fair
    rcases Option.bind_eq_some_iff.mp checked with ⟨t, first_look, once⟩
    rcases Option.bind_eq_some_iff.mp once with ⟨u, second_look, twice⟩
    rcases Option.bind_eq_some_iff.mp twice with ⟨v, third_look, ended⟩
    rcases Option.map_eq_some_iff.mp ended with ⟨flagged, found, rfl⟩
    exact foreseen_skip holds first_look second_look third_look found complaint fair
  | block what body ih => exact reliable_block ih what

end Monitor

end CraftDsl
