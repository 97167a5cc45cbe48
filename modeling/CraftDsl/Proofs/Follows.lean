import CraftDsl.Proofs.Fits

/-!
Replies of the parser that runs, and what the same steps of a cursor say of them: the answer, what is
built and reported, and an exit that the parser fits.
-/
namespace CraftDsl

namespace Parser

/-- The reply of a production is what its outcome says, and leaves the parser in one of the exits. -/
structure Follows (p : Parser) (t : Trim) (e : Exits Trim) (o : Outcome) (reply : Bool × Parser) :
    Prop where
  answer : reply.1 = o.answer
  mirrors : p.Mirrors o reply.2
  exits : e.Covers (reply.2.Keeps (p.opened + t.uncounted + openings o.pieces)) o.answer

variable {p : Parser} {t u : Trim} {e f : Exits Trim} {o : Outcome} {reply later : Bool × Parser}

namespace Follows

theorem sound (follows : p.Follows t e o reply) (sound : p.builder.Sound) :
    reply.2.builder.Sound := by
  rw [follows.mirrors.builder]
  exact sound.absorb o.pieces

theorem any (follows : p.Follows t e o reply) :
    ∃ u ∈ e.all, reply.2.Keeps (p.opened + t.uncounted + openings o.pieces) u :=
  (keeps_upward _ _).all follows.exits

theorem widen (follows : p.Follows t e o reply)
    (wider : ∀ holds answer, Exits.Upward holds → e.Covers holds answer → f.Covers holds answer) :
    p.Follows t f o reply :=
  ⟨follows.answer, follows.mirrors, wider _ _ (keeps_upward _ _) follows.exits⟩

theorem step (next : Bool → Cursor → Outcome) (first : p.Follows t e o reply)
    (exit : reply.2.Keeps (p.opened + t.uncounted + openings o.pieces) u)
    (second : reply.2.Follows u f (next o.answer reply.2.view) later) :
    p.Follows t f (o.andThen next) later := by
  have answer := second.answer
  have exits := second.exits
  rw [first.mirrors.cursor] at answer
  rw [exit.2, first.mirrors.cursor] at exits
  constructor
  · exact answer
  · exact first.mirrors.andThen second.mirrors
  · rw [Outcome.openings_andThen, ← Nat.add_assoc]
    exact exits

/-- A second step, from whichever exit of the first one holds. -/
theorem andThen {step : Trim → Option (Exits Trim)} {states : List Trim}
    (next : Bool → Cursor → Outcome) (first : p.Follows t e o reply)
    (onward : ∃ u ∈ states, reply.2.Keeps (p.opened + t.uncounted + openings o.pieces) u)
    (collected : Exits.collect step states = some f)
    (second : ∀ u g, step u = some g → reply.2.Fits u →
      reply.2.Follows u g (next o.answer reply.2.view) later) :
    p.Follows t f (o.andThen next) later := by
  rcases onward with ⟨u, member, exit⟩
  rcases Exits.collect_covers collected member with ⟨g, stepped, wider⟩
  exact (first.step next exit (second u g stepped exit.1)).widen wider

theorem after_pass (follows : p.pass.Follows t.passed e o reply) : p.Follows t e o reply := by
  rcases follows with ⟨answer, mirrors, exits⟩
  exact ⟨answer, ⟨mirrors.cursor, mirrors.builder, mirrors.reports, mirrors.faults⟩, exits⟩

end Follows

theorem follows_quiet (fits : p.Fits t) (answer : Bool) :
    p.Follows t (.only answer [t]) (.quiet answer p.view) (answer, p) :=
  ⟨rfl, p.mirrors_quiet answer, Exits.covers_only answer ⟨t, List.mem_singleton_self t, fits, rfl⟩⟩

theorem follows_pass (fits : p.Fits t) :
    p.Follows t ⟨[t.passed], []⟩ (.quiet true p.view) (true, p.pass) :=
  ⟨rfl, p.mirrors_pass true, t.passed, List.mem_singleton_self _, fits.pass, rfl⟩

theorem follows_look (fits : p.Fits t) (among : KindSet) :
    p.Follows t ⟨[t.passed], [t.passed]⟩ (p.view.look 0 among) (p.look 0 among) := by
  constructor
  · exact look_answer fits.kept 0 among
  · exact p.mirrors_look 0 among
  · exact Exits.covers_both _ ⟨fits.pass.level (p.level_look among), rfl⟩

theorem follows_peek (fits : p.Fits t) (n : Nat) (among : KindSet) :
    p.Follows t ⟨[t], [t]⟩ (p.view.look (n + 1) among) (p.look (n + 1) among) := by
  constructor
  · exact look_answer fits.kept (n + 1) among
  · exact p.mirrors_look (n + 1) among
  · exact Exits.covers_both _ ⟨fits.level ⟨rfl, rfl, rfl⟩, rfl⟩

theorem follows_glance (fits : p.Fits t) (n : Nat) (among : KindSet) :
    p.Follows t ⟨[t], [t]⟩ (.quiet (among.has (p.view.kindAhead n)) p.view)
      (among.has (kindIn n p.ahead), p) := by
  constructor
  · exact congrArg (fun kind : TokenKind => among.has kind) (kindAhead_view fits.kept n).symm
  · exact p.mirrors_quiet _
  · exact Exits.covers_both _ ⟨fits, rfl⟩

theorem follows_check (fits : p.Fits t) (holds : Bool) (fault : Fault) :
    p.Follows t ⟨[t], []⟩ (.check holds fault true p.view) (true, p.check holds fault) :=
  ⟨rfl, p.mirrors_check holds fault true, t, List.mem_singleton_self t,
    fits.level ⟨rfl, rfl, rfl⟩, rfl⟩

theorem follows_demand (fits : p.Fits t) (among : KindSet) :
    p.Follows t ⟨[t.passed], []⟩
      ((p.view.look 0 among).andThen fun found c => .check found .misplaced true c)
      (true, (p.look 0 among).2.check (p.look 0 among).1 .misplaced) := by
  have look := follows_look fits among
  rcases look.exits with ⟨u, member, keeps⟩
  have only : u = t.passed := by simpa using Exits.mem_append_of_after member
  rw [only] at keeps
  apply look.step _ keeps
  rw [look_answer fits.kept]
  exact follows_check keeps.1 _ .misplaced

theorem follows_settle (fits : p.Fits t) (poised : t.poised = true) :
    p.Follows t ⟨[{ t with flushed := true }], []⟩ p.view.settle (true, p.settle) := by
  refine ⟨rfl, mirrors_settle fits.kept (fits.poised poised), _, List.mem_singleton_self _, ?_⟩
  constructor
  · exact ⟨kept_of_flushed rfl, fits.poised, fun _ => rfl⟩
  · rw [p.view.openings_settle]
    rfl

theorem follows_take (fits : p.Fits t) (among : KindSet) (retag : Option TokenKind) :
    p.Follows t ⟨[t.taken], []⟩ (p.view.take among retag) (true, p.take among retag) := by
  refine ⟨(p.view.take_answer among retag).symm, mirrors_take fits.kept among retag, ?_⟩
  rw [p.view.take_answer]
  refine ⟨t.taken, List.mem_singleton_self _, p.fits_take t among retag, ?_⟩
  rw [opened_take, p.view.openings_take]
  rfl

theorem follows_into (fits : p.Fits t) (flushed : t.flushed = true) (kind : NodeKind) :
    p.Follows t ⟨[{ t with uncounted := t.uncounted + 1 }], []⟩
      { Outcome.quiet true p.view with pieces := [.opening kind] } (true, p.startNode kind) := by
  rw [startNode_flushed (fits.flushed flushed)]
  refine ⟨rfl, ⟨rfl, rfl, rfl, rfl⟩, _, List.mem_singleton_self _, ?_⟩
  constructor
  · exact ⟨fits.kept, fits.poised, fits.flushed⟩
  · exact (Nat.add_assoc _ _ _).symm

theorem follows_count (fits : p.Fits t) {opened : Nat} (enough : opened ≤ t.uncounted) :
    p.Follows t ⟨[{ t with uncounted := t.uncounted - opened }], []⟩ (.quiet true p.view)
      (true, { p with opened := p.opened + opened }) := by
  refine ⟨rfl, ⟨rfl, rfl, rfl, rfl⟩, _, List.mem_singleton_self _, ?_⟩
  constructor
  · exact ⟨fits.kept, fits.poised, fits.flushed⟩
  · show p.opened + opened + (t.uncounted - opened) = p.opened + t.uncounted
    omega

theorem follows_missing (fits : p.Fits t) (kind : DiagnosticKind) (message : String) :
    p.Follows t ⟨[], [{ t with poised := true, flushed := true }]⟩ (p.view.missing kind message)
      (false, p.missing kind message) := by
  refine ⟨rfl, mirrors_missing fits.kept kind message, _, List.mem_singleton_self _, ?_⟩
  constructor
  · exact fits_missing fits.kept t kind message
  · rw [opened_missing fits.kept, p.view.openings_missing]
    rfl

theorem follows_skip (fits : p.Fits t) (complaint : Complaint) :
    p.Follows t ⟨[{ t with poised := true, flushed := false }], []⟩ (p.view.skip complaint)
      (true, p.skip complaint) := by
  rcases fits_skip fits.kept t complaint with ⟨exit, opened⟩
  refine ⟨(p.view.skip_answer complaint).symm, mirrors_skip fits.kept complaint, ?_⟩
  rw [p.view.skip_answer]
  refine ⟨_, List.mem_singleton_self _, exit, ?_⟩
  rw [opened, p.view.openings_skip]
  rfl

theorem follows_closeBlock (fits : p.Fits t) (what : String) (brace : Span) {states : List Trim}
    (member : t.taken ∈ states) :
    p.Follows t ⟨states, states⟩ (p.view.closeBlock what brace) (p.closeBlock what brace) := by
  have seen : p.view.kindAhead 0 = kindIn 0 p.ahead := kindAhead_view fits.kept 0
  rw [Cursor.closeBlock, Parser.closeBlock, seen]
  by_cases closes : kindIn 0 p.ahead = .braceClose
  · simp only [if_pos closes]
    apply (follows_take fits _ none).widen
    intro holds answer upward covers
    exact Exits.covers_among states member covers
  · simp only [if_neg closes]
    rcases fits_unclosed fits.kept t what brace with ⟨exit, opened⟩
    refine ⟨rfl, mirrors_unclosed fits.kept what brace, t.taken, member, ?_, ?_⟩
    · exact exit.weaken (fun known => Bool.noConfusion known) fun _ => rfl
    · rw [opened, p.view.openings_unclosed]
      rfl

namespace Follows

variable {kind : NodeKind}

theorem within (flushed : p.aside = []) (body : (p.startNode kind).Follows t e o reply)
    (closed : openings o.pieces = 0) :
    p.Follows t e (o.wrapped kind) (reply.1, reply.2.finishNode) := by
  have level := reply.2.level_finishNode
  rcases body.exits with ⟨u, member, fits, total⟩
  refine ⟨body.answer, body.mirrors.within flushed closed, u, member, fits.level level, ?_⟩
  rw [level.opened, total, closed]
  rfl

/-- Where all opened nodes are counted, closing as many closes all. -/
theorem closed (body : Parser.Follows { p with opened := 0 } { t with uncounted := 0 } e o reply)
    (counted : ∀ u ∈ e.after o.answer, u.uncounted = 0) :
    p.Follows t (e.map fun u => { u with uncounted := t.uncounted }) o.closed
      (reply.1, { reply.2.finishNodes reply.2.opened with opened := p.opened }) := by
  rcases body.exits with ⟨u, member, fits, total⟩
  have opened : reply.2.opened = openings o.pieces := by
    simpa [counted u member] using total
  have mirrors : p.Mirrors o reply.2 :=
    ⟨body.mirrors.cursor, body.mirrors.builder, body.mirrors.reports, body.mirrors.faults⟩
  have closed := mirrors.closed
  rw [← opened] at closed
  have inner := fits.level (reply.2.level_finishNodes reply.2.opened)
  refine ⟨body.answer, ⟨closed.cursor, closed.builder, closed.reports, closed.faults⟩, ?_⟩
  apply Exits.covers_map member
  constructor
  · exact ⟨inner.kept, inner.poised, inner.flushed⟩
  · rw [Outcome.openings_closed]
    rfl

theorem adopt (flushed : p.aside = []) (sound : p.builder.Sound) (body : p.Follows t e o reply)
    (closed : openings o.pieces = 0) (kind : NodeKind) (fault : Fault) :
    (p.startNode kind).Follows t e o
      (reply.1, reply.2.build (reply.2.builder.startNodeAt? p.builder.checkpoint kind) fault) := by
  have level := reply.2.level_build
    (reply.2.builder.startNodeAt? p.builder.checkpoint kind) fault
  rcases body.exits with ⟨u, member, fits, total⟩
  refine ⟨body.answer, body.mirrors.adopt flushed sound closed kind fault, u, member,
    fits.level level, ?_⟩
  rw [level.opened]
  exact total

theorem agree (follows : p.Follows t e o reply) :
    p.Follows t ⟨e.all, []⟩ (o.andThen fun _ c => .quiet true c) (true, reply.2) := by
  rcases follows.any with ⟨u, member, keeps⟩
  exact follows.step _ keeps ⟨rfl, mirrors_quiet _ true, u, member, keeps.1, rfl⟩

theorem refuse (follows : p.Follows t e o reply) (answer : o.answer = false) :
    p.Follows t ⟨[], e.no⟩ (o.andThen fun _ c => .quiet false c) (false, reply.2) := by
  rcases follows.exits with ⟨u, member, keeps⟩
  rw [answer] at member
  exact follows.step _ keeps ⟨rfl, mirrors_quiet _ false, u, member, keeps.1, rfl⟩

end Follows

theorem startNode_sound (flushed : p.aside = []) (sound : p.builder.Sound) (kind : NodeKind) :
    (p.startNode kind).builder.Sound := by
  rw [startNode_flushed flushed]
  exact sound.add (.opening kind)

end Parser

end CraftDsl
