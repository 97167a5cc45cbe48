import CraftDsl.Proofs.Pieces

/-!
Nodes around a single token. They open right before the token, so no blank and no comment is in them.
Main statement: `parse_sheathed`.
-/
namespace CraftDsl

def NodeKind.content? : NodeKind → Option KindSet
  | .componentName | .modifierKey | .subdomain | .actorName | .triggerActor | .triggerVerb
  | .actionSubject | .actionTarget | .actionVerb => some (.single TokenKind.identifier)
  | .deploymentType => some .deploymentTypes
  | .actorType => some .actorTypes
  | .eventTrigger => some (.single TokenKind.string)
  | .connectorWord => some .connectors
  | .boolean => some .booleans
  | _ => none

def Production.token? : Production → Option KindSet
  | take among => some among
  | seq (demand _) name => some (.single TokenKind.identifier)
  | _ => none

def Production.isSheath : Production → Production → Bool
  | settle, within kind body =>
    match kind.content?, body.token? with
    | some content, some among => among.within content
    | _, _ => false
  | _, _ => false

def Sheathed (kind : NodeKind) (children : List Tree) : Prop :=
  ∀ content ∈ kind.content?, ∃ token : Token,
    children = [.leaf token] ∧ content.has token.kind = true

/-- Where no blank is ahead, a production takes its token only. -/
theorem Cursor.take_settled {c : Cursor} {among : KindSet} {retag : Option TokenKind}
    (settled : c.settle = .quiet true c) (clear : (c.take among retag).faults = []) :
    ∃ token : Token, among.has token.kind = true ∧
      (c.take among retag).pieces = [.tree (.leaf ⟨retag.getD token.kind, token.text⟩)] := by
  rw [Cursor.take, settled] at clear ⊢
  obtain ⟨-, taken⟩ := Outcome.andThen_clear clear
  cases ahead : c.ahead with
  | nil => simp [Outcome.quiet, Outcome.check, ahead] at taken
  | cons token tokens =>
    refine ⟨token, ?_, ?_⟩
    · simpa [Outcome.quiet, Outcome.check, ahead] using taken
    · simp [Outcome.andThen, Outcome.quiet, ahead]

theorem Production.token_taken {body : Production} {among : KindSet} {c : Cursor}
    (takes : body.token? = some among) (settled : c.settle = .quiet true c)
    (clear : (body.run c).faults = []) :
    ∃ token : Token, among.has token.kind = true ∧ (body.run c).pieces = [.tree (.leaf token)] := by
  unfold token? at takes
  split at takes
  · cases takes
    obtain ⟨token, member, pieces⟩ := Cursor.take_settled settled clear
    exact ⟨token, member, pieces⟩
  · rename_i demanded
    cases takes
    let next := ((demand demanded).run c).cursor
    have still : next.settle = .quiet true next := by
      have moved : next.settle = { c.settle with cursor := { c.settle.cursor with
          looks := next.looks } } := rfl
      rw [moved, settled]
      rfl
    obtain ⟨token, -, pieces⟩ := Cursor.take_settled still (Outcome.andThen_clear clear).2
    refine ⟨⟨.identifier, token.text⟩, by rw [KindSet.has_single, beq_self_eq_true], ?_⟩
    show [] ++ (next.take .words (some .identifier)).pieces = _
    rw [pieces]
    rfl
  · cases takes

theorem isSheath_cases {first second : Production} (sheath : first.isSheath second = true) :
    ∃ kind body content among, first = .settle ∧ second = .within kind body ∧
      kind.content? = some content ∧ body.token? = some among ∧ among.within content = true := by
  unfold Production.isSheath at sheath
  split at sheath
  · split at sheath
    · rename_i kind body _ _ content among holds takes
      exact ⟨kind, body, content, among, rfl, rfl, holds, takes, sheath⟩
    · cases sheath
  · cases sheath

theorem sheath_pieces {free : NodeKind → Bool} {first second : Production} (c : Cursor)
    (sheath : first.isSheath second = true)
    (clear : ((Production.seq first second).run c).faults = []) :
    EverywherePieces Sheathed free ((Production.seq first second).run c).pieces := by
  obtain ⟨kind, body, content, among, rfl, rfl, holds, takes, within⟩ := isSheath_cases sheath
  obtain ⟨-, inside⟩ := Outcome.andThen_clear clear
  obtain ⟨token, member, pieces⟩ := Production.token_taken takes c.settle_settled inside
  have node : Sheathed kind [.leaf token] := by
    intro other same
    obtain rfl : content = other := Option.some.inj (holds.symm.trans same)
    exact ⟨token, rfl, KindSet.has_of_within within member⟩
  refine everywhere_append ?_ ?_
  · show EverywherePieces Sheathed free c.settle.pieces
    rw [c.settle_eq]
    exact everywhere_tokens c.pending
  · show EverywherePieces Sheathed free
      [.tree (.node kind (closePieces (body.run c.settle.cursor).pieces))]
    rw [pieces]
    exact everywhere_trees (List.forall_mem_singleton.mpr
      (Tree.everywhere_node node (List.forall_mem_singleton.mpr (Tree.everywhere_leaf token))))

theorem sourceFile_sheaths :
    Production.sourceFile.opensOnly Production.isSheath (fun kind => kind.content?.isNone) = true := by
  decide +kernel

theorem parse_sheathed (source : List Char) : (parse source).tree.Everywhere Sheathed := by
  refine parse_everywhere ?_ ?_ ?_ sourceFile_sheaths source
  · intro kind children free content holds
    rw [Option.mem_def.mp holds] at free
    cases free
  · intro tokens content holds
    cases holds
  · exact sheath_pieces

end CraftDsl
