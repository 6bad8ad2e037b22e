import Runbook.Proofs.Comments.Mirror

namespace Runbook.Action

variable {f : Nat ↪o Nat} {p : Program} {cs : List Command} {ceiling : Bool} {n : Nat}

theorem condAt_renumber (place : Nat) :
    condAt (p.renumber f cs) (f place) = (condAt p place).map (Prod.map (Option.map f) f) := by
  simp only [condAt, Program.renumber, Outline.block?_renumber]
  rcases p.outline.block? place with _ | ⟨form, last⟩ | owner
  · rfl
  · cases form <;> rfl
  · rfl

theorem mimics_condHere :
    Mimics f (fun x y => y = (f x.1, x.2.renumber f)) (condHere p)
      (condHere (p.renumber f cs)) := by
  apply mimics_bind mimics_ownerHere
  rintro owner _ rfl
  apply mimics_bind mimics_expectTop
  intro x y same
  cases same using Frame.Mirrors.kinds with
  | cond => exact mimics_pure rfl
  | loop | guard => exact mimics_fault

theorem mimics_endIf : Mimics f Eq (endIf p) (endIf (p.renumber f cs)) := by
  apply mimics_bind mimics_ownerHere
  rintro owner _ rfl
  apply mimics_bind mimics_expectTop
  intro _ _ _
  exact mimics_bind mimics_pop fun _ _ _ => mimics_pure rfl

section Conditions

variable (embeds : Embeds f p.commands cs)

include embeds

theorem mimics_choose {place : Nat} {condition : String} :
    Mimics f Eq (choose p place condition) (choose (p.renumber f cs) (f place) condition) := by
  apply mimics_seq (mimics_holds condition)
  intro holds
  cases holds with
  | true => exact mimics_changeCond fun _ => rfl
  | false =>
    apply mimics_bind mimics_expectTop
    intro x y same
    rw [condAt_renumber]
    apply mimics_bind mimics_orFault
    rintro ⟨orElse, last⟩ _ rfl
    have otherwise : Mimics f Eq (branchTo p ((orElse.getD last : Nat) : Int))
        (branchTo (p.renumber f cs) (((orElse.map f).getD (f last) : Nat) : Int)) := by
      rw [Option.getD_map]
      exact mimics_branchTo_nat embeds _
    cases same using Frame.Mirrors.kinds with
    | loop | guard => exact otherwise
    | cond _ _ c =>
      obtain ⟨left, decided⟩ := c
      cases left with
      | nil => exact otherwise
      | cons next rest =>
        have drops : Mimics f Eq (changeCond fun c => { c with left := rest })
            (changeCond fun c => { c with left := rest.map f }) := mimics_changeCond fun _ => rfl
        exact mimics_seq drops fun _ => mimics_branchTo_nat embeds next

theorem mimics_openIf (c : Command) : Mimics f Eq (openIf p c) (openIf (p.renumber f cs) c) := by
  apply mimics_bind mimics_openerHere
  rintro ⟨place, form, last⟩ _ rfl
  cases form with
  | cond elseIfs orElse =>
    have opened : (Frame.mk place [] (.cond { left := elseIfs })).Mirrors f
        (Frame.mk (f place) [] (.cond { left := elseIfs.map f })) :=
        ⟨rfl, rfl, .cond { left := elseIfs }⟩
    exact mimics_seq (mimics_push opened) fun _ => mimics_choose embeds
  | guard name catchAt finallyAt | loop kind | function word name => exact mimics_fault

theorem mimics_skipBranches {owner : Nat} :
    Mimics f Eq (skipBranches p owner) (skipBranches (p.renumber f cs) (f owner)) := by
  unfold skipBranches
  rw [lastOf_renumber]
  apply mimics_bind mimics_orFault
  rintro last _ rfl
  exact mimics_branchTo_nat embeds last

theorem mimics_elseIf (c : Command) : Mimics f Eq (elseIf p c) (elseIf (p.renumber f cs) c) := by
  apply mimics_bind mimics_condHere
  rintro ⟨owner, cond⟩ _ rfl
  exact mimics_ite Iff.rfl (fun _ => mimics_skipBranches embeds) fun _ => mimics_choose embeds

theorem mimics_orElse : Mimics f Eq (orElse p) (orElse (p.renumber f cs)) := by
  apply mimics_bind mimics_condHere
  rintro ⟨owner, cond⟩ _ rfl
  exact mimics_ite Iff.rfl (fun _ => mimics_skipBranches embeds) fun _ => mimics_pure rfl

omit embeds in
theorem mimics_checkJump {source dest : Int} :
    Mimics f Eq (checkJump p source dest)
      (checkJump (p.renumber f cs) (moved f source) (moved f dest)) := by
  have regions : (p.renumber f cs).outline.region? (moved f source) =
      (p.renumber f cs).outline.region? (moved f dest) ↔
      p.outline.region? source = p.outline.region? dest := by
    simp only [Program.renumber, Outline.region?_renumber]
    exact (Option.map_injective (Region.renumber_injective f)).eq_iff
  exact mimics_ite regions (fun _ => mimics_pure rfl) fun _ => mimics_complain

omit embeds in
theorem holdsDest_renumber (place : Nat) (dest : Int) :
    holdsDest (p.renumber f cs) (f place) (moved f dest) = holdsDest p place dest := by
  have begins := lt_moved_iff f place dest
  simp only [holdsDest, Program.renumber, Outline.block?_renumber]
  rcases p.outline.block? place with _ | ⟨form, last⟩ | owner
  · rfl
  · have ends : moved f dest ≤ (f last : Int) ↔ dest ≤ (last : Int) := by
      have past := lt_moved_iff f last dest
      omega
    simp only [Option.map_some, Block.renumber, begins, ends]
  · simp only [Option.map_some, Block.renumber, begins]

omit embeds in
theorem mimics_leaveConds {dest : Int} {bs bs' : List Frame}
    (same : List.Forall₂ (Frame.Mirrors f) bs bs') :
    Mimics f Eq (leaveConds p dest bs) (leaveConds (p.renumber f cs) (moved f dest) bs') := by
  induction same with
  | nil => exact mimics_pure rfl
  | @cons x y _ _ top _ ih =>
    cases top using Frame.Mirrors.kinds with
    | loop | guard => exact mimics_pure rfl
    | cond =>
      simp only [leaveConds, holdsDest_renumber]
      apply mimics_seq mimics_orFault_eq
      intro inside
      exact mimics_ite Iff.rfl (fun _ => mimics_pure rfl) fun _ =>
        mimics_bind mimics_pop fun _ _ _ => ih

theorem mimics_jump {dest : Nat} :
    Mimics f Eq (jump p (dest : Int)) (jump (p.renumber f cs) (f dest : Int)) := by
  apply mimics_bind mimics_get
  intro m m' same
  rw [same.here, ← moved_natCast]
  cases m.here with
  | none => exact mimics_fault
  | some here =>
    apply mimics_seq mimics_checkJump
    intro _
    apply mimics_bind mimics_blocks
    intro bs bs' blocks
    exact mimics_seq (mimics_leaveConds blocks) fun _ => mimics_branchTo embeds dest

theorem mimics_goto {label : String} :
    Mimics f Eq (goto p label) (goto (p.renumber f cs) label) := by
  unfold goto
  have place :
      (p.renumber f cs).outline.symbols.get? label = (p.outline.symbols.get? label).map f :=
    Outline.symbols_renumber f p.outline
  rw [place]
  cases p.outline.symbols.get? label with
  | none => exact mimics_complain
  | some dest => exact mimics_jump embeds

theorem mimics_gotoIf (c : Command) : Mimics f Eq (gotoIf p c) (gotoIf (p.renumber f cs) c) := by
  apply mimics_seq (mimics_holds c.target)
  intro holds
  exact mimics_ite Iff.rfl (fun _ => mimics_goto embeds) fun _ => mimics_pure rfl

end Conditions

theorem passage_renumber (above : Nat) {bs bs' : List Frame}
    (same : List.Forall₂ (Frame.Mirrors f) bs bs') :
    passage (p.renumber f cs) ceiling above bs' = passage p ceiling above bs := by
  induction same generalizing above with
  | nil => rfl
  | @cons x y _ _ top _ ih =>
    unfold passage
    rw [top.isLoop, ih, owesFinally_renumber top]
    split
    · rfl
    · cases top using Frame.Mirrors.kinds with
      | cond | loop => rfl
      | guard _ _ g g' guards =>
        have waits : g'.pending.isSome = g.pending.isSome := by
          have pending := guards.pending
          generalize g.pending = x, g'.pending = y at pending
          cases pending <;> rfl
        simp only [guards.phase, waits]

theorem findStop_renumber (calls : Nat) {levels levels' : List (List Frame)}
    (same : List.Forall₂ (List.Forall₂ (Frame.Mirrors f)) levels levels') :
    findStop (p.renumber f cs) ceiling calls levels' = findStop p ceiling calls levels := by
  induction same generalizing calls with
  | nil => rfl
  | cons top _ ih => simp only [findStop, passage_renumber 0 top, ih]

theorem mimics_popCalls : Mimics f Eq (popCalls p n) (popCalls (p.renumber f cs) n) := by
  induction n with
  | zero => exact mimics_pure rfl
  | succ n ih => exact mimics_bind mimics_popCall fun _ _ _ => ih

theorem mimics_popBlocks : Mimics f Eq (popBlocks n) (popBlocks n) := by
  induction n with
  | zero => exact mimics_pure rfl
  | succ n ih => exact mimics_bind mimics_pop fun _ _ _ => ih

section Transfers

variable (embeds : Embeds f p.commands cs) {source : Option Int}

include embeds

theorem mimics_suspend {toll : Toll} {bubble bubble' : Bubble} (same : bubble.Mirrors f bubble') :
    Mimics f Eq (suspend p toll source bubble)
      (suspend (p.renumber f cs) toll (source.map (moved f)) bubble') := by
  apply mimics_bind mimics_blocks
  intro bs bs' blocks
  cases blocks with
  | nil => exact mimics_fault
  | @cons x y _ _ top _ =>
    cases toll with
    | replace =>
      have marks : Mimics f Eq (changeGuard fun g => { g with pending := some bubble })
          (changeGuard fun g => { g with pending := some bubble' }) :=
        mimics_changeGuard fun _ _ guards => { guards with pending := .some same }
      have rest : Mimics f Eq (supersede p x bubble) (supersede (p.renumber f cs) y bubble') := by
        apply mimics_seq marks
        intro _
        apply mimics_bind (mimics_segmentsOf top)
        rintro s _ rfl
        exact mimics_branchTo_nat embeds s.last
      have waiting := top.pending?
      dsimp only
      generalize x.pending? = prior, y.pending? = prior' at waiting ⊢
      cases waiting with
      | none => exact rest
      | some _ => exact mimics_seq mimics_logEvent fun _ => rest
    | finish =>
      have marks : Mimics f Eq
          (changeGuard fun g =>
          { g with pending := some bubble, phase := some .finishing, finaled := true })
          (changeGuard fun g =>
          { g with pending := some bubble', phase := some .finishing, finaled := true }) :=
        mimics_changeGuard fun _ _ guards =>
          { guards with pending := .some same, phase := rfl, finaled := rfl }
      apply mimics_seq mimics_logEvent
      intro _
      apply mimics_seq marks
      intro _
      apply mimics_bind (mimics_segmentsOf top)
      rintro s _ rfl
      exact mimics_branchBack_nat embeds

theorem mimics_bubbleCommand {ceiling crosses : Bool} :
    Mimics f Eq (bubbleCommand p source ceiling crosses)
      (bubbleCommand (p.renumber f cs) (source.map (moved f)) ceiling crosses) := by
  apply mimics_bind mimics_get
  intro m m' same
  have levels : List.Forall₂ (List.Forall₂ (Frame.Mirrors f))
      (if crosses then m.calls.map (·.blocks) else [m.call.blocks])
      (if crosses then m'.calls.map (·.blocks) else [m'.call.blocks]) := by
    split
    · rw [List.forall₂_map_left_iff, List.forall₂_map_right_iff]
      exact same.calls.imp fun _ _ call => call.blocks
    · exact .cons same.call.blocks .nil
  dsimp only
  rw [findStop_renumber 0 levels]
  apply mimics_seq mimics_orFault_eq
  intro stop
  cases stop with
  | none => exact mimics_pure rfl
  | some stop =>
    apply mimics_seq mimics_popCalls
    intro _
    apply mimics_seq mimics_popBlocks
    intro _
    exact mimics_seq (mimics_suspend embeds (.command source ceiling crosses)) fun _ =>
      mimics_pure rfl

theorem mimics_transfer {ceiling crosses : Bool} :
    Mimics f Eq (transfer p ceiling crosses) (transfer (p.renumber f cs) ceiling crosses) := by
  apply mimics_bind mimics_get
  intro m m' same
  rw [same.here]
  exact mimics_bubbleCommand embeds

end Transfers

end Runbook.Action
