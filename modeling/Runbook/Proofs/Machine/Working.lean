import Runbook.Proofs.Machine.Reading

/-!
Commands as steps. Every action is taken apart into the steps that it takes, so that what a step
keeps is kept by all commands. The current command stays the same, and an error that it raises names
it or no command at all. The end of a guard is apart: it raises again what waited there.
-/

namespace Runbook

namespace Action

variable {α β : Type} {p : Program} {w : Powers} {m m' : Machine} {here : Option Int} {a : Action α}
  {r : Reply α} {f : α → Action β} {k : Control} {kind : Kind} {text : String} {place count : Nat}
  {dest source : Int} {c : Command} {cause : Failure} {wanted : Frame → Except Fault Bool}
  {outer : List Call}

def Working (w : Powers) (a : Action α) : Prop := ∀ m : Machine, m.Works w (a.run.run m).2

def Acts (w : Powers) (here : Option Int) (a : Action α) : Prop :=
  ∀ m, m.here = here → ActsOn (Machine.Works w) (Failure.At here) a m

theorem Acts.working (acts : ∀ here, Acts w here a) : Working w a := fun m => (acts m.here m rfl).1

theorem Acts.ran (acts : Acts w m.here a) (ran : Ran a m r m') : m.Works w m' := by
  have out := (acts m rfl).1
  rw [Ran] at ran
  rwa [ran] at out

theorem Acts.blames (acts : Acts w here a) (same : m.here = here) (ran : Ran a m r m') :
    m'.here = here ∧ ∀ e, r = .error e → e.At here := by
  have out := acts m same
  rw [Ran] at ran
  rw [ActsOn, ran] at out
  exact ⟨out.1.here.trans same, out.2⟩

theorem acts_pure {x : α} : Acts w here (pure x : Action α) := fun _ _ => ⟨.refl, nofun⟩

theorem acts_throw {e : Failure} (blames : e.At here) : Acts w here (throw e : Action α) := by
  intro m _
  refine ⟨.refl, fun f same => ?_⟩
  cases same
  exact blames

theorem acts_fault {f : Fault} : Acts w here (fault f : Action α) := acts_throw at_fault

theorem acts_orFault {x : Except Fault α} : Acts w here (orFault x) := by
  cases x with
  | ok a => exact acts_pure
  | error f => exact acts_fault

theorem works_bind (same : m.here = here) (first : ActsOn (Machine.Works w) (Failure.At here) a m)
    (rest : ∀ x, Acts w here (f x)) : ActsOn (Machine.Works w) (Failure.At here) (a >>= f) m :=
  actsOn_bind first (fun x _ works => rest x _ (works.here.trans same))
    (fun _ works => works) fun _ _ => .trans

theorem acts_bind (first : Acts w here a) (rest : ∀ x, Acts w here (f x)) : Acts w here (a >>= f) :=
  fun m same => works_bind same (first m same) rest

theorem acts_get_bind {f : Machine → Action β} (rest : ∀ m, m.here = here → Acts w here (f m)) :
    Acts w here (get >>= f) :=
  fun m same => rest m same m same

theorem acts_get : Acts w here (get : Action Machine) := fun _ _ => ⟨.refl, nofun⟩

theorem acts_complain : Acts w here (complain p kind text : Action α) :=
  acts_get_bind fun _ same => acts_throw (at_error (.inr same))

theorem acts_modify {how : Machine → Machine} (calls : ∀ m, (how m).calls = m.calls)
    (same : ∀ m, (how m).here = m.here ∧ (how m).started = m.started)
    (vars : ∀ m, w.Keeps m.vars (how m).vars) : Acts w here (modify how : Action PUnit) :=
  fun m _ => ⟨.single (.still (calls m) (same m) (vars m)), nofun⟩

theorem acts_logEvent {level : Level} {topic : Topic} {message : String}
    {locals : Option (List String)} {depth : Option Nat} :
    Acts w here (logEvent level topic message locals depth) :=
  acts_modify (fun _ => rfl) (fun _ => ⟨rfl, rfl⟩) fun _ => .refl

theorem acts_evalIn (keeps : ∀ vars, w.Keeps vars (p.evaluator text vars).2) :
    Acts w here (eval p text) := by
  intro m same
  obtain ⟨after, _, errors⟩ := ran_eval (ran_self (eval p text) m)
  refine ⟨by rw [after]; exact .single (.still rfl ⟨rfl, rfl⟩ (keeps m.vars)), fun e failed => ?_⟩
  obtain ⟨message, rfl⟩ := errors e failed
  exact at_error (.inr same)

theorem works_of_reading [w.Free] (works : m.Works { leaves := False } m') : m.Works w m' :=
  Machine.Works.mono works nofun False.elim False.elim fun name _ => Powers.Free.writes name

theorem Reads.acts [w.Free] (reads : ∀ k : Control, k.here = here → Reads k (Failure.At here) a) :
    Acts w here a := by
  intro m same
  obtain ⟨⟨_, works⟩, blames⟩ := reads m.control same m rfl
  exact ⟨works_of_reading works, blames⟩

theorem admits_at (same : k.here = here) : Admits k (Failure.At here) kind :=
  fun _ _ blames => at_error (same ▸ blames)

theorem grants_at (same : k.here = here) (v : Option Verb) : Grants k (Failure.At here) v :=
  fun _ _ blames => same ▸ blames

theorem acts_eval [w.Free] : Acts w here (eval p text) :=
  Reads.acts fun _ same => reads_eval (admits_at same) p text

theorem acts_holds [w.Free] : Acts w here (holds p text) :=
  Reads.acts fun _ same => reads_holds (admits_at same) p text

theorem acts_argumentsFrom [w.Free] {found : Record Value} {texts : List String} :
    Acts w here (argumentsFrom p found texts) :=
  Reads.acts fun _ same => reads_argumentsFrom (admits_at same) p found texts

theorem acts_textOf {v : Value} : Acts w here (textOf p v) := acts_orFault

theorem acts_assign [w.Free] {values : List (String × Value)} : Acts w here (assign values) :=
  acts_modify (fun _ => rfl) (fun _ => ⟨rfl, rfl⟩) fun _ => w.keeps _ _

theorem acts_blocks : Acts w here blocks := acts_bind acts_get fun _ => acts_pure

theorem acts_change {how : Frame → Frame} (later : ∀ f : Frame, f.Later (how f)) :
    Acts w here (change how) := by
  intro m _
  rw [ActsOn, run_change]
  cases top : m.call.blocks with
  | nil => exact ⟨.refl, by rintro _ ⟨⟩⟩
  | cons f rest => exact ⟨.single (.change top (later f)), by rintro _ ⟨⟩⟩

theorem acts_changeGuard {how : Guard → Guard} : Acts w here (changeGuard how) :=
  acts_change fun ⟨_, _, body⟩ => by cases body <;> exact ⟨rfl, rfl, rfl, rfl, List.Subset.refl _⟩

theorem acts_complete : Acts w here (changeLoop fun l => { l with complete := true }) :=
  acts_change fun ⟨_, _, body⟩ => by cases body <;> exact ⟨rfl, rfl, rfl, rfl, List.Subset.refl _⟩

theorem acts_changeCond {how : Cond → Cond} : Acts w here (changeCond how) :=
  acts_change fun ⟨_, _, body⟩ => by cases body <;> exact ⟨rfl, rfl, rfl, rfl, List.Subset.refl _⟩

theorem acts_pop [w.Leaving] : Acts w here pop := by
  intro m _
  rw [ActsOn, run_pop]
  cases top : m.call.blocks with
  | nil => exact acts_fault m ‹_›
  | cons f rest => exact ⟨.single (.leave Powers.Leaving.leaves top), by rintro _ ⟨⟩⟩

theorem acts_popCall [w.Leaving] : Acts w here (popCall p) := by
  intro m same
  cases outer : m.outer with
  | nil =>
    rw [ActsOn, run_popCall_alone outer]
    exact acts_complain m same
  | cons next rest =>
    rw [ActsOn, run_popCall outer]
    exact ⟨.single (.leaveCall Powers.Leaving.leaves outer), by rintro _ ⟨⟩⟩

theorem acts_unwind [w.Leaving] : Acts w here (unwind wanted) := by
  refine acts_bind acts_blocks fun frames => ?_
  induction frames with
  | nil => exact acts_pure
  | cons f rest ih =>
    refine acts_bind acts_orFault fun _ => ?_
    split
    · exact acts_pure
    · exact acts_bind acts_pop fun _ => ih

theorem acts_expectTop : Acts w here (expectTop p place) := by
  refine acts_bind acts_blocks fun _ => ?_
  split
  · exact acts_complain
  · split
    · exact acts_pure
    · exact acts_complain

theorem acts_openerHere : Acts w here (openerHere p) := by
  refine acts_bind acts_get fun _ => ?_
  dsimp only
  split
  · exact acts_pure
  · exact acts_fault

theorem acts_ownerHere : Acts w here (ownerHere p) := by
  refine acts_bind acts_get fun _ => ?_
  split
  · exact acts_pure
  · exact acts_fault

theorem acts_branchTo : Acts w here (branchTo p dest) := by
  unfold branchTo
  split
  · exact acts_modify (fun _ => rfl) (fun _ => ⟨rfl, rfl⟩) fun _ => .refl
  · exact acts_complain

theorem acts_branchBack {dest : Option Int} : Acts w here (branchBack p dest) := by
  cases dest with
  | none => exact acts_fault
  | some dest => exact acts_branchTo

theorem acts_jump [w.Leaving] : Acts w here (jump p dest) := by
  refine acts_bind acts_get fun _ => ?_
  split
  · exact acts_fault
  · refine acts_bind ?_ fun _ => acts_bind acts_blocks fun frames => acts_bind ?_ fun _ =>
      acts_branchTo
    · unfold checkJump
      split
      · exact acts_pure
      · exact acts_complain
    · induction frames with
      | nil => exact acts_pure
      | cons f rest ih =>
        unfold leaveConds
        split
        · refine acts_bind acts_orFault fun _ => ?_
          split
          · exact acts_pure
          · exact acts_bind acts_pop fun _ => ih
        · exact acts_pure

theorem acts_goto [w.Leaving] {label : String} : Acts w here (goto p label) := by
  unfold goto
  split
  · exact acts_complain
  · exact acts_jump

theorem acts_choose [w.Free] {condition : String} : Acts w here (choose p place condition) := by
  refine acts_bind acts_holds fun _ => ?_
  split
  · exact acts_changeCond
  · refine acts_bind acts_expectTop fun _ => acts_bind acts_orFault fun _ => ?_
    split
    split
    · exact acts_bind acts_changeCond fun _ => acts_branchTo
    · exact acts_branchTo

theorem acts_condHere : Acts w here (condHere p) := by
  refine acts_bind acts_ownerHere fun _ => acts_bind acts_expectTop fun _ => ?_
  split
  · exact acts_pure
  · exact acts_fault

theorem acts_skipBranches {owner : Nat} : Acts w here (skipBranches p owner) :=
  acts_bind acts_orFault fun _ => acts_branchTo

theorem acts_elseIf [w.Free] : Acts w here (elseIf p c) := by
  refine acts_bind acts_condHere fun ⟨owner, cond⟩ => ?_
  dsimp only
  split
  · exact acts_skipBranches
  · exact acts_choose

theorem acts_orElse : Acts w here (orElse p) := by
  refine acts_bind acts_condHere fun ⟨owner, cond⟩ => ?_
  dsimp only
  split
  · exact acts_skipBranches
  · exact acts_pure

theorem acts_endIf [w.Leaving] : Acts w here (endIf p) :=
  acts_bind acts_ownerHere fun _ => acts_bind acts_expectTop fun _ =>
    acts_bind acts_pop fun _ => acts_pure

theorem acts_popCalls [w.Leaving] : Acts w here (popCalls p count) := by
  induction count with
  | zero => exact acts_pure
  | succ count ih => exact acts_bind acts_popCall fun _ => ih

theorem acts_popBlocks [w.Leaving] : Acts w here (popBlocks count) := by
  induction count with
  | zero => exact acts_pure
  | succ count ih => exact acts_bind acts_pop fun _ => ih

theorem acts_suspend {toll : Toll} {source : Option Int} {bubble : Bubble} :
    Acts w here (suspend p toll source bubble) := by
  have replaced (f : Frame) : Acts w here (supersede p f bubble) :=
    acts_bind acts_changeGuard fun _ => acts_bind acts_orFault fun _ => acts_branchTo
  refine acts_bind acts_blocks fun _ => ?_
  split
  · exact acts_fault
  · split
    · split
      · exact acts_bind acts_logEvent fun _ => replaced _
      · exact replaced _
    · refine acts_bind acts_logEvent fun _ => acts_bind acts_changeGuard fun _ => ?_
      exact acts_bind acts_orFault fun _ => acts_branchBack

theorem acts_bubbleCommand [w.Leaving] {source : Option Int} {ceiling crosses : Bool} :
    Acts w here (bubbleCommand p source ceiling crosses) := by
  refine acts_bind acts_get fun _ => acts_bind acts_orFault fun _ => ?_
  split
  · exact acts_pure
  · refine acts_bind acts_popCalls fun _ => acts_bind acts_popBlocks fun _ => ?_
    exact acts_bind acts_suspend fun _ => acts_pure

theorem acts_transfer [w.Leaving] {ceiling crosses : Bool} :
    Acts w here (transfer p ceiling crosses) :=
  acts_bind acts_get fun _ => acts_bubbleCommand

theorem acts_exitTest [w.Leaving] {resuming : Bool} : Acts w here (exitTest p resuming) := by
  have stop : Acts w here endRun :=
    acts_bind acts_logEvent fun _ => acts_modify (fun _ => rfl) (fun _ => ⟨rfl, rfl⟩) fun _ => .refl
  unfold exitTest
  split
  · refine acts_bind acts_transfer fun _ => ?_
    split
    · exact acts_pure
    · exact stop
  · exact stop

theorem acts_openFunction [w.Free] : Acts w here (openFunction p) := by
  refine acts_bind acts_openerHere fun ⟨_, _, _⟩ => acts_bind acts_get fun _ => ?_
  split
  · exact acts_assign
  · exact acts_bind acts_orFault fun _ => acts_bind acts_logEvent fun _ => acts_branchTo

theorem acts_logDepth {sign : String} : Acts w here (logDepth sign) :=
  acts_bind acts_get fun _ => acts_logEvent

theorem acts_guardHere : Acts w here (guardHere p) := by
  refine acts_bind acts_ownerHere fun _ => acts_bind acts_expectTop fun _ => ?_
  split
  · exact acts_pure
  · exact acts_fault

theorem acts_openCatch : Acts w here (openCatch p) := by
  refine acts_bind acts_guardHere fun ⟨place, g⟩ => ?_
  dsimp only
  split
  · exact acts_bind acts_orFault fun _ => acts_branchTo
  · exact acts_pure

theorem acts_openFinally : Acts w here (openFinally p) := by
  refine acts_bind acts_guardHere fun ⟨place, g⟩ => ?_
  dsimp only
  split
  · exact acts_bind acts_changeGuard fun _ => acts_logEvent
  · exact acts_logEvent

theorem working_bind (first : ∀ here, Acts w here a) (rest : ∀ x, Working w (f x)) :
    Working w (a >>= f) := by
  intro m
  rw [run_bind]
  have works := Acts.working first m
  rcases ran : a.run.run m with ⟨r, m₁⟩
  rw [ran] at works
  cases r with
  | error e => exact works
  | ok x => exact works.trans (rest x m₁)

theorem working_release [w.Leaving] {bubble : Bubble} : Working w (release p bubble) := by
  cases bubble with
  | failure cause source => exact working_bind (fun _ => acts_logEvent) fun _ _ => .refl
  | command source ceiling crosses =>
    refine Acts.working fun here => acts_bind acts_bubbleCommand fun _ => ?_
    split
    · exact acts_pure
    · refine acts_bind acts_logEvent fun _ => ?_
      exact acts_bind (acts_modify (fun _ => rfl) (fun _ => ⟨rfl, rfl⟩) fun _ => .refl) fun _ =>
        acts_branchBack

theorem working_endTry [w.Leaving] : Working w (endTry p) := by
  refine working_bind (fun _ => acts_ownerHere) fun _ => working_bind
    (fun _ => acts_expectTop) fun _ => ?_
  refine working_bind (fun _ => acts_pop) fun f => ?_
  split
  · rename_i g _
    have ends : Working w (closeGuard p g) := by
      refine working_bind (fun _ => acts_logEvent) fun _ => ?_
      split
      · exact Acts.working fun _ => acts_pure
      · exact working_release
    dsimp only
    split
    · exact working_bind (fun _ => acts_logDepth) fun _ => ends
    · exact ends
  · exact Acts.working fun _ => acts_fault

theorem acts_unwindCalls [w.Leaving] : Acts w here (unwindCalls p wanted outer) := by
  induction outer with
  | nil => exact acts_unwind
  | cons _ outer ih =>
    refine acts_bind acts_unwind fun _ => ?_
    split
    · exact acts_pure
    · exact acts_bind acts_popCall fun _ => acts_bind acts_logEvent fun _ => ih

/-- The filter of the guard at this place, if it has one, writes such variables only. -/
def Screens (w : Powers) (p : Program) (place : Nat) : Prop :=
  ∀ s c, segmentsOf p place = .ok s → s.catchAt = some c →
    ∀ vars, w.Keeps vars (p.evaluator (targetAt p c) vars).2

theorem screens_free [w.Free] : m.GuardsIn (Screens w p) := fun _ _ _ _ _ _ _ _ => w.keeps _ _

theorem acts_catches {filter : String} (keeps : ∀ vars, w.Keeps vars (p.evaluator filter vars).2) :
    Acts w here (catches p cause filter) := by
  unfold catches
  split
  · exact acts_pure
  · refine acts_bind (acts_evalIn keeps) fun _ => ?_
    split
    · exact acts_pure
    · exact acts_bind acts_textOf fun _ => acts_pure

theorem acts_tryCatch {f : Frame} (screens : f.guard?.isSome = true → Screens w p f.place) :
    Acts w here (tryCatch p cause source f) := by
  by_cases guard : f.guard?.isSome = true
  case neg =>
    have waives : owesCatch p f = .ok false := by
      unfold owesCatch
      unfold Frame.guard? at guard
      split at guard <;> simp_all
    unfold tryCatch
    rw [waives]
    exact acts_pure
  refine acts_bind acts_orFault fun _ => ?_
  split
  · cases segments : segmentsOf p f.place with
    | error x => exact acts_fault
    | ok s =>
      rw [show (orFault (.ok s) : Action _) = pure s from rfl, pure_bind]
      split
      · exact acts_pure
      · rename_i owed
        refine acts_bind (acts_catches (screens guard s _ segments owed)) fun _ => ?_
        split
        · refine acts_bind acts_logEvent fun _ => acts_bind acts_changeGuard fun _ => ?_
          exact acts_bind acts_branchTo fun _ => acts_pure
        · exact acts_pure
  · exact acts_pure

theorem acts_tryFinally {f : Frame} : Acts w here (tryFinally p cause source f) := by
  refine acts_bind acts_orFault fun _ => ?_
  split
  · refine acts_bind acts_logEvent fun _ => acts_bind acts_changeGuard fun _ => ?_
    refine acts_bind acts_orFault fun _ => ?_
    exact acts_bind acts_branchBack fun _ => acts_pure
  · exact acts_pure

theorem acts_offer [w.Leaving] {frames : List Frame}
    (screens : ∀ f ∈ frames, f.guard?.isSome = true → Screens w p f.place) :
    Acts w here (offer p cause source frames) := by
  induction frames with
  | nil => exact acts_pure
  | cons f rest ih =>
    obtain ⟨own, others⟩ := List.forall_mem_cons.mp screens
    refine acts_bind (acts_tryCatch own) fun _ => ?_
    split
    · exact acts_pure
    · refine acts_bind acts_tryFinally fun _ => ?_
      split
      · exact acts_pure
      · exact acts_bind acts_pop fun _ => ih others

/-- Only the filters of guards that are open are evaluated on the way of an error. -/
theorem works_offerCalls [w.Leaving] (closed : ∀ place, ¬ w.guards place)
    (screens : m.GuardsIn (Screens w p)) {r : Reply Bool}
    (ran : Ran (offerCalls p cause source outer) m r m') : m.Works w m' := by
  induction outer generalizing m with
  | nil => exact (acts_offer (forall_frames.mp screens).1).ran (ran_blocks_bind ran)
  | cons _ outer ih =>
    have offers : Acts w m.here (offer p cause source m.call.blocks) :=
      acts_offer (forall_frames.mp screens).1
    rcases ran_bind (ran_blocks_bind ran) with ⟨e, _, failed⟩ | ⟨took, m₁, asked, ran⟩
    · exact offers.ran failed
    have first := offers.ran asked
    cases took with
    | true =>
      obtain ⟨_, rfl⟩ := ran_pure ran
      exact first
    | false =>
      rcases ran_bind (show Ran (popCall p >>= fun _ => _) m₁ r m' from ran) with
        ⟨e, _, failed⟩ | ⟨left, m₂, popped, ran⟩
      · exact first.trans (acts_popCall.ran failed)
      have popped := first.trans (acts_popCall.ran popped)
      rcases ran_bind ran with ⟨e, _, failed⟩ | ⟨_, m₃, logged, ran⟩
      · exact popped.trans (acts_logEvent.ran failed)
      have upTo := popped.trans (acts_logEvent.ran logged)
      have inside := Machine.Works.guardsIn upTo
        (fun place opens => absurd opens (closed place)) screens
      exact upTo.trans (ih inside ran)

theorem acts_giveUp {f : Frame} : Acts w here (giveUp p cause source f) := by
  refine acts_bind acts_logEvent fun _ => acts_bind acts_changeGuard fun _ =>
    acts_bind acts_orFault fun _ => ?_
  exact acts_bind acts_branchTo fun _ => acts_pure

theorem works_offerAll [w.Leaving] (closed : ∀ place, ¬ w.guards place)
    (screens : m.GuardsIn (Screens w p)) {r : Reply Bool}
    (ran : Ran (offerAll p cause source) m r m') : m.Works w m' := by
  rcases ran_bind (ran_get_bind ran) with ⟨e, _, failed⟩ | ⟨took, m₁, asked, ran⟩
  · exact works_offerCalls closed screens failed
  refine (works_offerCalls closed screens asked).trans ?_
  cases took with
  | true => exact acts_pure.ran ran
  | false => exact (acts_bind acts_logEvent fun _ => acts_pure).ran ran

theorem works_settle [w.Leaving] (closed : ∀ place, ¬ w.guards place)
    (screens : m.GuardsIn (Screens w p)) {r : Reply Bool} {found : Option Frame}
    (ran : Ran (settle p cause source found) m r m') : m.Works w m' := by
  cases found with
  | none => exact acts_pure.ran ran
  | some f =>
    rcases ran_bind ran with ⟨e, _, failed⟩ | ⟨_, m₁, logged, ran⟩
    · exact acts_logEvent.ran failed
    rcases ran_bind ran with ⟨e, _, failed⟩ | ⟨spent, m₂, asked, ran⟩
    · exact .trans (acts_logEvent.ran logged) (acts_orFault.ran failed)
    have upTo : m.Works w m₂ := .trans (acts_logEvent.ran logged) (acts_orFault.ran asked)
    refine upTo.trans ?_
    cases spent with
    | true => exact acts_giveUp.ran ran
    | false =>
      exact works_offerAll closed
        (Machine.Works.guardsIn upTo (fun place opens => absurd opens (closed place)) screens) ran

theorem works_route [w.Leaving] (closed : ∀ place, ¬ w.guards place)
    (screens : m.GuardsIn (Screens w p)) {failure : Failure} {r : Reply Bool}
    (ran : Ran (route p failure) m r m') : m.Works w m' := by
  have ran := ran_get_bind ran
  dsimp only at ran
  split at ran
  · exact (acts_bind acts_logEvent fun _ => acts_pure).ran ran
  split at ran
  · exact acts_pure.ran ran
  rcases ran_bind ran with ⟨e, _, failed⟩ | ⟨found, m₀, unwound, ran⟩
  · exact acts_unwindCalls.ran failed
  have upTo : m.Works w m₀ := acts_unwindCalls.ran unwound
  have inside := Machine.Works.guardsIn upTo
    (fun place opens => absurd opens (closed place)) screens
  exact upTo.trans (works_settle closed inside ran)

structure Rounds.Acts (w : Powers) (here : Option Int) (rounds : Rounds) : Prop where
  prepare : ∀ k : Control, k.here = here → Prepares k (Failure.At here) rounds.prepare
  start : Action.Acts w here rounds.start
  advance : Action.Acts w here rounds.advance
  goesOn : Action.Acts w here rounds.goesOn

theorem rounds_acts [w.Free] (p : Program) (c : Command) (kind : LoopKind) :
    (rounds p c kind).Acts w here := by
  have reads (k : Control) (same : k.here = here) : (rounds p c kind).Reads k (Failure.At here) :=
    rounds_reads (grants_at same _) (.inr at_fault)
  exact ⟨fun k same => (reads k same).prepare, Reads.acts fun k same => (reads k same).start,
    Reads.acts fun k same => (reads k same).advance, Reads.acts fun k same => (reads k same).goesOn⟩

theorem acts_isTop : Acts w here (isTop place) := by
  refine acts_bind acts_blocks fun _ => ?_
  split
  · exact acts_pure
  · exact acts_pure

theorem acts_endLoop [w.Leaving] : Acts w here (endLoop p) := by
  refine acts_bind acts_ownerHere fun _ => acts_bind acts_expectTop fun _ => ?_
  split
  · split
    · exact acts_bind acts_pop fun _ => acts_logEvent
    · exact acts_branchTo
  · exact acts_fault

theorem acts_push (grows : w.grows) {f : Frame} (bare : f.saved = []) (plain : f.guard? = none)
    (fresh : f.names = []) :
    Acts w here (push f) := fun _ _ => ⟨.single (.block grows bare plain fresh), nofun⟩

theorem acts_openIf [w.Free] (grows : w.grows) : Acts w here (openIf p c) := by
  refine acts_bind acts_openerHere fun _ => ?_
  split
  · exact acts_bind (acts_push grows rfl rfl rfl) fun _ => acts_choose
  · exact acts_fault

theorem acts_openTry (allowed : ∀ b, blockAt? p here = some b → w.guards (here.getD 0).toNat) :
    Acts w here (openTry p c) := by
  have tried : Acts w here startTrying := acts_bind acts_changeGuard fun _ => acts_logDepth
  refine acts_get_bind fun m same => ?_
  dsimp only
  split
  · exact acts_fault
  · rename_i b opener
    have pushed : Acts w here
        (push { place := (m.here.getD 0).toNat, body := .guard { name := c.target } }) := by
      rw [same] at opener ⊢
      exact fun _ _ => ⟨.single (.guard (allowed b opener) _), nofun⟩
    refine acts_bind pushed fun _ => ?_
    split
    · exact acts_logEvent
    · split
      · exact acts_bind acts_logEvent fun _ => tried
      · exact tried
    · exact acts_fault

end Action

end Runbook
