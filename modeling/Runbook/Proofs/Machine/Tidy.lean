import Runbook.Proofs.Machine.Working

namespace Runbook

def Powers.first (w : Powers) : Powers := { w with leaves := False }

def Powers.all : Powers := { guards := fun _ => True, grows := True }

def Powers.last : Powers := { writes := fun _ => False }

instance {w : Powers} [w.Free] : w.first.Free := ⟨Powers.Free.writes (w := w)⟩

instance : Powers.last.Leaving := ⟨trivial⟩

instance : Powers.all.Free := ⟨fun _ => trivial⟩

instance : Powers.all.Leaving := ⟨trivial⟩

abbrev Machine.Tidies (w : Powers) : Machine → Machine → Prop :=
  Relation.Comp (Machine.Works w.first) (Machine.Works .last)

theorem Machine.Tidies.works {w : Powers} [w.Leaving] {m m' : Machine} (tidies : m.Tidies w m') :
    m.Works w m' := by
  obtain ⟨x, first, last⟩ := tidies
  have opened : m.Works w x := Machine.Works.mono first (fun _ => id) id False.elim fun _ => id
  exact opened.trans
    (Machine.Works.mono last nofun False.elim (fun _ => Powers.Leaving.leaves) nofun)

theorem Machine.Tidies.here {w : Powers} {m m' : Machine} (tidies : m.Tidies w m') :
    m'.here = m.here := by
  obtain ⟨x, first, last⟩ := tidies
  exact last.here.trans first.here

namespace Action

variable {α β : Type} {p : Program} {w : Powers} {m m' : Machine} {here : Option Int} {a : Action α}
  {f : α → Action β} {rounds : Rounds} {v : Verb} {c : Command} {resuming : Bool}

def Tidy (w : Powers) (here : Option Int) (a : Action α) : Prop :=
  ∀ m, m.here = here → ActsOn (Machine.Tidies w) (Failure.At here) a m

theorem Acts.first (acts : Acts w.first here a) : Tidy w here a :=
  fun m same => ⟨⟨_, (acts m same).1, .refl⟩, (acts m same).2⟩

theorem Acts.last (acts : Acts .last here a) : Tidy w here a :=
  fun m same => ⟨⟨_, .refl, (acts m same).1⟩, (acts m same).2⟩

theorem tidy_bind (first : Acts w.first here a) (rest : ∀ x, Tidy w here (f x)) :
    Tidy w here (a >>= f) := by
  intro m same
  refine actsOn_bind (first m same) (fun x _ works => rest x _ (works.here.trans same))
    (fun x works => ⟨x, works, .refl⟩) ?_
  rintro x y works ⟨z, further, last⟩
  exact ⟨z, works.trans further, last⟩

theorem Tidy.then (first : Tidy w here a) (rest : ∀ x, Acts .last here (f x)) :
    Tidy w here (a >>= f) := by
  intro m same
  refine actsOn_bind (first m same) (fun x _ tidies => rest x _ (tidies.here.trans same))
    (fun _ tidies => tidies) ?_
  rintro x y ⟨z, works, last⟩ further
  exact ⟨z, works, last.trans further⟩

theorem tidy_gotoIf [w.Free] : Tidy w here (gotoIf p c) := by
  refine tidy_bind acts_holds fun _ => ?_
  split
  · exact acts_goto.last
  · exact acts_pure.last

theorem tidy_skipNext [w.Free] : Tidy w here (skipNext p c) := by
  refine tidy_bind (Reads.acts fun _ same => reads_skipCount (admits_at same)) fun n => ?_
  split
  · refine tidy_bind acts_get fun _ => ?_
    split
    · exact acts_fault.last
    · exact acts_jump.last
  · exact acts_pure.last

theorem tidy_dropToLoop [w.Free] : Tidy w here (dropToLoop p c resuming) := by
  have drop : Acts .last here (unwindToLoop p) := by
    refine acts_bind acts_unwind fun _ => ?_
    split
    · exact acts_pure
    · exact acts_complain
  have goes : Acts .last here (leaveRound p) := by
    refine acts_bind acts_transfer fun _ => ?_
    split
    · exact acts_pure
    · exact drop
  unfold dropToLoop
  split
  · exact drop.last
  · split
    · exact goes.last
    · refine tidy_bind acts_holds fun _ => ?_
      split
      · exact goes.last
      · exact acts_pure.last

theorem tidy_again [w.Free] : Tidy w here (again p c resuming) := by
  refine tidy_dropToLoop.then fun _ => ?_
  split
  · exact acts_branchTo
  · exact acts_pure

theorem tidy_leave [w.Free] : Tidy w here (leave p c resuming) := by
  refine tidy_dropToLoop.then fun _ => ?_
  split
  · exact acts_bind acts_complete fun _ => acts_bind acts_orFault fun _ => acts_branchTo
  · exact acts_pure

theorem tidy_giveBack [w.Free] {expression : String} :
    Tidy w here (giveBack p expression resuming) := by
  have marks : Acts .last here
      (modify fun m => { m with call := { m.call with returning := true } } : Action PUnit) :=
    fun m _ => ⟨.single (.mark true), nofun⟩
  have back : Acts .last here (goBack p) :=
    acts_bind marks fun _ => acts_bind acts_get fun _ => acts_branchBack
  have goes : Acts .last here (turnBack p) := by
    refine acts_bind acts_transfer fun _ => ?_
    split
    · exact acts_pure
    · exact back
  refine tidy_bind acts_ownerHere fun _ => tidy_bind acts_get fun _ => ?_
  split
  · exact acts_pure.last
  · split
    · exact back.last
    · split
      · exact goes.last
      · exact tidy_bind acts_eval fun _ => tidy_bind acts_assign fun _ => goes.last

theorem acts_beginRounds [w.Free] (inner : rounds.Acts w here) {place : Nat} {kind : LoopKind}
    {names : List String} : Acts w here (beginRounds place kind rounds names) :=
  acts_bind (acts_modify (fun _ => rfl) (fun _ => ⟨rfl, rfl⟩) fun _ => w.keeps _ _) fun _ =>
    acts_bind inner.start fun _ =>
    acts_logEvent

theorem acts_enterLoop [w.Free] (grows : w.grows) {place : Nat} {kind : LoopKind}
    (inner : rounds.Acts w here) : Acts w here (enterLoop place kind rounds) := by
  intro m same
  let pushed : Machine :=
    { m with call :=
      { m.call with blocks := { place := place, body := .loop { kind := kind } } :: m.call.blocks }
        }
  have opened : m.Works w pushed := .single (.block grows rfl rfl rfl)
  rw [ActsOn, enterLoop, run_bind, show (push _).run.run m = (.ok (), pushed) from rfl]
  dsimp only
  rw [run_bind]
  rcases prepared : rounds.prepare.run.run pushed with ⟨e | names, n⟩
  all_goals obtain ⟨_, fails, tells⟩ :=
    inner.prepare pushed.control same _ _ _ _ _ _ rfl rfl prepared
  · obtain ⟨located, works⟩ := fails e rfl
    refine ⟨opened.trans (works_of_reading works), fun f failed => ?_⟩
    cases failed
    exact located
  · -- by then it has no snapshot yet
    obtain ⟨x, place', l, l', frames, works, top, known, rfl⟩ := tells names rfl
    have kept : m.Works w _ :=
      (opened.trans (works_of_reading works)).tail (.keep grows names top known)
    obtain ⟨further, blames⟩ := acts_beginRounds inner _ (kept.here.trans same)
    exact ⟨kept.trans further, blames⟩

theorem acts_tryRound (goesOn : Acts w here rounds.goesOn) {last : Nat} :
    Acts w here (tryRound p rounds last) := by
  refine acts_bind goesOn fun _ => ?_
  split
  · exact acts_bind acts_complete fun _ => acts_branchTo
  · exact acts_pure

theorem acts_openLoop [w.Free] (grows : w.grows) (inner : rounds.Acts w here) :
    Acts w here (openLoop p rounds) := by
  refine acts_bind acts_openerHere fun ⟨place, form, last⟩ => acts_bind acts_isTop fun _ => ?_
  dsimp only
  split
  · exact acts_bind inner.advance fun _ => acts_tryRound inner.goesOn
  · split
    · exact acts_bind (acts_enterLoop grows inner) fun _ => acts_tryRound inner.goesOn
    · exact acts_bind acts_fault fun _ => acts_tryRound inner.goesOn

theorem tidy_call [w.Free] (grows : w.grows) : Tidy w here (call p c) := by
  unfold call
  split
  · exact acts_complain.last
  · rename_i place _
    refine tidy_bind acts_get fun m => ?_
    split
    · exact (acts_bind acts_popCall fun _ => acts_logEvent).last
    · refine tidy_bind acts_argumentsFrom fun args => Acts.first ?_
      have rest : Acts w.first here (do
          logEvent .info .call
            ("calling function '" ++ c.target ++ "'") none (some (← get).outer.length)
          branchTo p (place : Nat)) :=
        acts_bind acts_get fun _ => acts_bind acts_logEvent fun _ => acts_branchTo
      intro n same
      let called : Call :=
        { function := some place, name := c.target, args := args, back := m.here }
      have step := Machine.Step.call (w := w.first) (m := n) grows called args.names
        (w.first.keeps _ (n.vars.assign args))
      have ⟨works, blames⟩ := rest _ (step.same.1.trans same)
      have entered (a : Action Unit) : (do
          let saved := (← get).vars.capture args.names
          assign args
          pushCall { called with saved := saved }
          a : Action Unit).run.run n = a.run.run _ := rfl
      rw [ActsOn, entered]
      exact ⟨.head step works, blames⟩

theorem tidy_perform [w.Free] (other : v ≠ .endTry) (grows : v.grows = true → w.grows)
    (guards : v = .openTry → ∀ b, blockAt? p here = some b → w.guards (here.getD 0).toNat) :
    Tidy w here (perform p c resuming v) := by
  have outdated (old new : String) {a : Action Unit} (tidy : Tidy w here a) :
      Tidy w here (do deprecated old new; a) :=
    tidy_bind acts_logEvent fun _ => tidy
  have loads (format : Format) : Tidy w here (loadVars p format c) :=
    (Reads.acts fun _ same => reads_loadVars (grants_at same (some (.load .plain)))
      (unreadable_at here format) p c).first
  cases v with
  | openTry => exact (acts_openTry (w := w.first) (guards rfl)).first
  | openIf => exact (acts_openIf (w := w.first) (grows rfl)).first
  | openLoop kind =>
    exact (acts_openLoop (w := w.first) (grows rfl) (rounds_acts p c kind)).first
  | call => exact tidy_call (grows rfl)
  | label => exact acts_pure.last
  | goto => exact acts_goto.last
  | gotoIf => exact tidy_gotoIf
  | skipNext => exact tidy_skipNext
  | elseIf => exact acts_elseIf.first
  | orElse => exact acts_orElse.last
  | endIf => exact acts_endIf.last
  | openCatch => exact acts_openCatch.last
  | openFinally => exact acts_openFinally.last
  | endTry => exact absurd rfl other
  | endLoop _ => exact acts_endLoop.last
  | again => exact tidy_again
  | leave => exact tidy_leave
  | openFunction word =>
    cases word with
    | function => exact acts_openFunction.first
    | script => exact outdated _ _ acts_openFunction.first
  | giveBack => exact tidy_giveBack
  | endFunction word =>
    cases word with
    | function => exact tidy_giveBack
    | script => exact outdated _ _ tidy_giveBack
  | exitTest => exact acts_exitTest.last
  | load word =>
    cases word with
    | json | xml => exact loads _
    | plain => exact outdated _ _ (loads _)

theorem tidies_perform [w.Free] {r : Reply Unit} (ran : Ran (perform p c resuming v) m r m')
    (grows : v.grows = true → w.grows)
    (guards : v = .openTry → ∀ b, blockAt? p m.here = some b → w.guards (m.here.getD 0).toNat) :
    m.Tidies w m' := by
  obtain rfl : m' = ((perform p c resuming v).run.run m).2 := (congrArg Prod.snd ran).symm
  by_cases last : v = .endTry
  · subst last
    exact ⟨m, .refl, working_endTry m⟩
  · exact (tidy_perform last grows guards m rfl).1

theorem perform_blames (other : v ≠ .endTry) {r : Reply Unit} (same : m.here = here)
    (ran : Ran (perform p c resuming v) m r m') :
    m'.here = here ∧ ∀ e, r = .error e → e.At here := by
  have out : ActsOn _ _ (perform p c resuming v) m :=
    tidy_perform (w := .all) other (fun _ => trivial) (fun _ _ _ => trivial) m same
  rw [Ran] at ran
  rw [ActsOn, ran] at out
  exact ⟨out.1.here.trans same, out.2⟩

theorem acts_host [w.Free] : Acts w here (Host.perform p c) :=
  Reads.acts fun _ same => Host.reads_perform (grants_at same none)

end Action

end Runbook
