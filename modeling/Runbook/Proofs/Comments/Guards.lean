import Runbook.Proofs.Comments.Blocks

namespace Runbook.Action

variable {f : Nat ↪o Nat} {p : Program} {cs : List Command}

theorem mimics_guardHere :
    Mimics f (fun x y => y.1 = f x.1 ∧ x.2.Mirrors f y.2) (guardHere p)
      (guardHere (p.renumber f cs)) := by
  apply mimics_bind mimics_ownerHere
  rintro owner _ rfl
  apply mimics_bind mimics_expectTop
  intro x y same
  cases same using Frame.Mirrors.kinds with
  | cond | loop => exact mimics_fault
  | guard _ _ _ _ guards => exact mimics_pure ⟨rfl, guards⟩

theorem mimics_logDepth {sign : String} : Mimics f Eq (logDepth sign) (logDepth sign) :=
  mimics_bind mimics_get fun _ _ _ => mimics_logEvent

theorem mimics_openTry (c : Command) : Mimics f Eq (openTry p c) (openTry (p.renumber f cs) c) := by
  apply mimics_bind mimics_get
  intro m m' same
  dsimp only
  rw [same.here, blockAt?_renumber]
  cases here : m.here with
  | none => exact mimics_fault
  | some i =>
    cases blockAt? p (some i) with
    | none => exact mimics_fault
    | some block =>
      have place : ((Option.map (moved f) (some i)).getD 0).toNat = f ((some i).getD 0).toNat := by
        have inside : ¬ i < 0 := by have := same.placed i here; omega
        simp [moved, inside]
      have opened : (Frame.mk ((some i).getD 0).toNat [] (.guard { name := c.target })).Mirrors f
          (Frame.mk ((Option.map (moved f) (some i)).getD 0).toNat []
          (.guard { name := c.target })) :=
        ⟨place, rfl, .guard ⟨rfl, rfl, rfl, rfl, .none⟩⟩
      have tries : Mimics f Eq startTrying startTrying :=
        mimics_seq (mimics_changeGuard fun _ _ guards => { guards with phase := rfl }) fun _ =>
          mimics_logDepth
      apply mimics_seq (mimics_push opened)
      intro _
      cases block with
      | partner _ => exact mimics_fault
      | opener form last =>
        cases form with
        | cond _ _ | loop _ | function _ _ => exact mimics_fault
        | guard name catchAt finallyAt =>
          rcases catchAt with _ | catchAt
          · rcases finallyAt with _ | finallyAt
            · exact mimics_logEvent
            · exact tries
          · exact mimics_seq mimics_logEvent fun _ => tries

theorem mimics_openFinally : Mimics f Eq (openFinally p) (openFinally (p.renumber f cs)) := by
  apply mimics_bind mimics_guardHere
  rintro ⟨place, g⟩ ⟨place', g'⟩ ⟨_, same⟩
  have first : g'.phase.isSome ∧ ¬ g'.finaled ↔ g.phase.isSome ∧ ¬ g.finaled := by
    have same : g.Mirrors f g' := same
    rw [same.phase, same.finaled]
  have marks : Mimics f Eq
    (changeGuard fun g => { g with phase := some .finishing, finaled := true })
    (changeGuard fun g => { g with phase := some .finishing, finaled := true }) :=
    mimics_changeGuard fun _ _ guards => { guards with phase := rfl, finaled := rfl }
  exact mimics_ite first (fun _ => mimics_seq marks fun _ => mimics_logEvent) fun _ =>
    mimics_logEvent

section Guards

variable (embeds : Embeds f p.commands cs)

include embeds

theorem mimics_openCatch : Mimics f Eq (openCatch p) (openCatch (p.renumber f cs)) := by
  apply mimics_bind mimics_guardHere
  rintro ⟨place, g⟩ ⟨place', g'⟩ ⟨places, same⟩
  cases (show place' = f place from places)
  have idle : g'.phase ≠ some .catching ↔ g.phase ≠ some .catching := by
    have same : g.Mirrors f g' := same
    rw [same.phase]
  refine mimics_ite idle (fun _ => ?_) fun _ => mimics_pure rfl
  rw [segmentsOf_renumber]
  apply mimics_bind mimics_orFault
  rintro s _ rfl
  have place :
      ((s.renumber f).finallyAt.getD (s.renumber f).last : Nat) = f (s.finallyAt.getD s.last) :=
    Option.getD_map f s.last s.finallyAt
  rw [place]
  exact mimics_branchTo_nat embeds _

theorem mimics_release {bubble bubble' : Bubble} (same : bubble.Mirrors f bubble') :
    Mimics f Eq (release p bubble) (release (p.renumber f cs) bubble') := by
  cases same with
  | failure cause source => exact mimics_seq mimics_logEvent fun _ => mimics_throw cause
  | command source ceiling crosses =>
    apply mimics_seq (mimics_bubbleCommand embeds)
    intro waits
    refine mimics_ite Iff.rfl (fun _ => mimics_pure rfl) fun _ => ?_
    apply mimics_seq mimics_logEvent
    intro _
    have resumes : Mimics f Eq (modify fun m => { m with resume := source } : Action PUnit)
        (modify fun m => { m with resume := source.map (moved f) }) :=
      mimics_modify fun _ _ machines => { machines with resume := rfl }
    exact mimics_seq resumes fun _ => mimics_branchBack embeds

theorem mimics_endTry : Mimics f Eq (endTry p) (endTry (p.renumber f cs)) := by
  apply mimics_bind mimics_ownerHere
  rintro owner _ rfl
  apply mimics_bind mimics_expectTop
  intro _ _ _
  apply mimics_bind mimics_pop
  intro x y same
  cases same using Frame.Mirrors.kinds with
  | cond | loop => exact mimics_fault
  | guard _ _ g g' same =>
    have rest : Mimics f Eq (closeGuard p g) (closeGuard (p.renumber f cs) g') := by
      apply mimics_seq mimics_logEvent
      intro _
      have waiting := same.pending
      generalize g.pending = pending, g'.pending = pending' at waiting ⊢
      cases waiting with
      | none => exact mimics_pure rfl
      | some bubbles => exact mimics_release embeds bubbles
    have tries : g'.phase.isSome = true ↔ g.phase.isSome = true := by rw [same.phase]
    exact mimics_ite tries (fun _ => mimics_seq mimics_logDepth fun _ => rest) fun _ => rest

end Guards

theorem mimics_unwindCalls {wanted wanted' : Frame → Except Fault Bool}
    (agree : ∀ x y, x.Mirrors f y → wanted' y = wanted x) {outer outer' : List Call}
    (same : List.Forall₂ (Call.Mirrors f) outer outer') :
    Mimics f (Option.Rel (Frame.Mirrors f)) (unwindCalls p wanted outer)
      (unwindCalls (p.renumber f cs) wanted' outer') := by
  induction same with
  | nil => exact mimics_unwind agree
  | cons _ _ ih =>
    apply mimics_bind (mimics_unwind agree)
    intro found found' frames
    cases frames with
    | some top => exact mimics_pure (.some top)
    | none =>
      apply mimics_bind mimics_popCall
      intro _ _ _
      exact mimics_seq mimics_logEvent fun _ => ih

theorem isSpent_renumber {x y : Frame} (same : x.Mirrors f y) :
    isSpent (p.renumber f cs) y = isSpent p x := by
  unfold isSpent
  rw [owesFinally_renumber same]
  cases same using Frame.Mirrors.kinds with
  | cond | loop => rfl
  | guard _ _ _ _ guards => simp only [guards.phase]

def TakesAny (p : Program) : Prop := ∀ place name catchAt finallyAt last,
  p.outline.block? place = some (.opener (.guard name (some catchAt) finallyAt) last) →
      targetAt p catchAt = ""

section Errors

variable (embeds : Embeds f p.commands cs) {source : Int}

include embeds

theorem targetAt_renumber (place : Nat) :
    targetAt (p.renumber f cs) (f place) = targetAt p place := by
  unfold targetAt
  cases has : p.commands[place]? with
  | some c => rw [show (p.renumber f cs).commands[f place]? = some c from embeds.keeps place c has]
  | none =>
    have beyond : f p.commands.length ≤ f place :=
      f.le_iff_le.mpr (List.getElem?_eq_none_iff.mp has)
    rw [embeds.size] at beyond
    rw [show (p.renumber f cs).commands[f place]? = none from List.getElem?_eq_none_iff.mpr beyond]

variable {cause cause' : Failure} {x y : Frame}

theorem mimics_tryFinally (causes : cause.Mirrors f cause') (same : x.Mirrors f y) :
    Mimics f Eq (tryFinally p cause source x)
      (tryFinally (p.renumber f cs) cause' (moved f source) y) := by
  unfold tryFinally
  rw [owesFinally_renumber same]
  apply mimics_seq mimics_orFault_eq
  intro owes
  refine mimics_ite Iff.rfl (fun _ => ?_) fun _ => mimics_pure rfl
  have marks : Mimics f Eq
      (changeGuard fun g => { g with
        pending := some (.failure cause source), phase := some .finishing, finaled := true })
      (changeGuard fun g =>
        { g with pending := some (.failure
          cause' (moved f source)), phase := some .finishing, finaled := true }) :=
    mimics_changeGuard fun _ _ guards =>
      { guards with pending := .some (.failure causes source), phase := rfl, finaled := rfl }
  apply mimics_seq mimics_logEvent
  intro _
  apply mimics_seq marks
  intro _
  apply mimics_bind (mimics_segmentsOf same)
  rintro s _ rfl
  exact mimics_seq (mimics_branchBack_nat embeds) fun _ => mimics_pure rfl

variable (takes : TakesAny p)

include takes

theorem mimics_tryCatch {source' : Int} (same : x.Mirrors f y) :
    Mimics f Eq (tryCatch p cause source x) (tryCatch (p.renumber f cs) cause' source' y) := by
  unfold tryCatch
  rw [owesCatch_renumber same, same.place, segmentsOf_renumber]
  apply mimics_seq mimics_orFault_eq
  intro owes
  refine mimics_ite Iff.rfl (fun _ => ?_) fun _ => mimics_pure rfl
  cases segments : segmentsOf p x.place with
  | error x => exact mimics_fault
  | ok s =>
    obtain ⟨catchAt, finallyAt, last⟩ := s
    cases catchAt with
    | none => exact mimics_pure rfl
    | some place =>
      have filter : targetAt p place = "" := by
        unfold segmentsOf at segments
        split at segments
        · rename_i block
          cases segments
          exact takes _ _ _ _ _ block
        · cases segments
      have marks : Mimics f Eq
          (changeGuard fun g => { g with caught := true, phase := some .catching, pending := none })
          (changeGuard fun g =>
          { g with caught := true, phase := some .catching, pending := none }) :=
        mimics_changeGuard fun _ _ guards =>
          { guards with caught := rfl, phase := rfl, pending := .none }
      have taken : Mimics f Eq (enterCatch p cause source place)
          (enterCatch (p.renumber f cs) cause' source' (f place)) := by
        apply mimics_seq mimics_logEvent
        intro _
        apply mimics_seq marks
        intro _
        exact mimics_seq (mimics_branchTo_nat embeds place) fun _ => mimics_pure rfl
      have first : catches p cause (targetAt p place) = pure true := by rw [filter]; rfl
      have second :
          catches (p.renumber f cs) cause' (targetAt (p.renumber f cs) (f place)) = pure true := by
        rw [targetAt_renumber embeds, filter]
        rfl
      show Mimics f Eq
        (do if ← catches p cause (targetAt p place) then _ else return false)
        (do
          if ← catches (p.renumber f cs) cause' (targetAt (p.renumber f cs) (f place)) then _
          else return false)
      rw [first, second]
      exact taken

theorem mimics_offer (causes : cause.Mirrors f cause') {bs bs' : List Frame}
    (same : List.Forall₂ (Frame.Mirrors f) bs bs') :
    Mimics f Eq (offer p cause source bs)
      (offer (p.renumber f cs) cause' (moved f source) bs') := by
  induction same with
  | nil => exact mimics_pure rfl
  | cons top _ ih =>
    apply mimics_seq (mimics_tryCatch embeds takes top)
    intro caught
    refine mimics_ite Iff.rfl (fun _ => mimics_pure rfl) fun _ => ?_
    apply mimics_seq (mimics_tryFinally embeds causes top)
    intro waits
    exact mimics_ite Iff.rfl (fun _ => mimics_pure rfl) fun _ =>
      mimics_bind mimics_pop fun _ _ _ => ih

theorem mimics_offerCalls (causes : cause.Mirrors f cause') (source : Int)
    {outer outer' : List Call} (same : List.Forall₂ (Call.Mirrors f) outer outer') :
    Mimics f Eq (offerCalls p cause source outer)
      (offerCalls (p.renumber f cs) cause' (moved f source) outer') := by
  have here : Mimics f Eq (do offer p cause source (← blocks))
      (do offer (p.renumber f cs) cause' (moved f source) (← blocks)) :=
    mimics_bind mimics_blocks fun _ _ blocks => mimics_offer embeds takes causes blocks
  induction same with
  | nil => exact here
  | cons _ _ ih =>
    apply mimics_bind mimics_blocks
    intro bs bs' blocks
    apply mimics_seq (mimics_offer embeds takes causes blocks)
    intro taken
    refine mimics_ite Iff.rfl (fun _ => mimics_pure rfl) fun _ => ?_
    apply mimics_bind mimics_popCall
    intro _ _ _
    exact mimics_seq mimics_logEvent fun _ => ih

theorem mimics_route {failure failure' : Failure} (failures : failure.Mirrors f failure') :
    Mimics f Eq (route p failure) (route (p.renumber f cs) failure') := by
  apply mimics_bind mimics_get
  intro m m' same
  have causes := failures.locate m.here
  rw [← same.here] at causes
  have fatal : (failure'.locate m'.here).isFatal = true ↔
      (failure.locate m.here).isFatal = true := by
    rw [causes.isFatal]
  refine mimics_ite fatal (fun _ => mimics_seq mimics_logEvent fun _ => mimics_pure rfl) fun _ => ?_
  have unguarded : (!m'.isGuarded) = true ↔ (!m.isGuarded) = true := by rw [same.isGuarded]
  refine mimics_ite unguarded (fun _ => mimics_pure rfl) fun _ => ?_
  have source : m'.here.getD (-1) = moved f (m.here.getD (-1)) := by
    rw [same.here]
    cases m.here <;> rfl
  have intercepts (x y : Frame) (top : x.Mirrors f y) :
      (Except.ok y.intercepts : Except Fault Bool) = .ok x.intercepts := by rw [top.intercepts]
  apply mimics_bind (mimics_unwindCalls intercepts same.outer)
  intro found found' frames
  cases frames with
  | none => exact mimics_pure rfl
  | some top =>
    apply mimics_seq mimics_logEvent
    intro _
    rw [isSpent_renumber top, source]
    apply mimics_seq mimics_orFault_eq
    intro spent
    refine mimics_ite Iff.rfl (fun _ => ?_) fun _ => ?_
    · have marks : Mimics f Eq
          (changeGuard fun g =>
            { g with pending := some (.failure (failure.locate m.here) (m.here.getD (-1))) })
          (changeGuard fun g =>
            { g with pending := some (.failure (failure'.locate m'.here)
              (moved f (m.here.getD (-1)))) }) :=
        mimics_changeGuard fun _ _ guards => { guards with pending := .some (.failure causes _) }
      apply mimics_seq mimics_logEvent
      intro _
      apply mimics_seq marks
      intro _
      apply mimics_bind (mimics_lastOf top)
      rintro last _ rfl
      exact mimics_seq (mimics_branchTo_nat embeds last) fun _ => mimics_pure rfl
    · apply mimics_bind mimics_get
      intro n n' machines
      apply mimics_seq (mimics_offerCalls embeds takes causes _ machines.outer)
      intro taken
      exact mimics_ite Iff.rfl (fun _ => mimics_pure rfl) fun _ => mimics_seq
        mimics_logEvent fun _ => mimics_pure rfl

end Errors

end Runbook.Action
