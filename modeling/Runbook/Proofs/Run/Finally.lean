import Runbook.Proofs.Run.Lives

namespace Runbook

open Runbook.Action Control List

section Sent

variable {p : Program} {m m' : Machine} {i d q j last : Nat} {laps : List Lap} {v : Verdict}
  {g : Guard} {name : String} {catchAt : Option Nat}

theorem Life.sent [p.Ready] (life : Life p d q laps m g)
    (block : p.Spans q (.guard name catchAt (some j)) last) (finaled : g.finaled = true) :
    (∃ t ∈ laps, t.Executes d j) ∨ (m.branch = some j ∧ m.control.spots.length = d + 1) := by
  induction life with
  | opened _ => cases finaled
  | @turn _ laps m m' i v g g' _ before turn _ lies lies' ih =>
    have placed := before.reached.placed
    -- a guard that was finished before, and to which control was sent, is executed in this turn at
    -- the latest
    have earlier (finaled : g.finaled = true) :
        ∃ t ∈ (⟨m, i, v, m'⟩ : Lap) :: laps, t.Executes d j := by
      rcases ih finaled with ⟨t, mem, executes⟩ | ⟨branch, top⟩
      · exact ⟨t, mem_cons_of_mem _ mem, executes⟩
      · refine ⟨_, mem_cons_self, turn.place_of_branch placed branch
          (block.finallyPart p.found).verb, ?_⟩
        rwa [← frames_length]
    cases turn.onward placed lies lies' with
    | stays => exact .inl (earlier finaled)
    | executes other owed top _ =>
      cases block.symm.trans other
      exact .inl ⟨_, mem_cons_self, rfl, by rwa [← frames_length]⟩
    | taken taken =>
      obtain ⟨top, becomes, _⟩ := taken
      cases becomes with
      | holds _ _ _ _ _ | catches _ _ _ _ => exact .inl (earlier finaled)
      | finishes _ other _ sent =>
        cases block.symm.trans other
        exact .inr ⟨sent, top⟩

theorem Run.executed [p.Ready] (run : Run p laps m) (turn : Turn p m i v m')
    (lies : m.control.Lies d ⟨q, .guard g⟩) (block : p.Spans q (.guard name catchAt (some j)) last)
    (vacant : m'.control.spots.length ≤ d) (paid : Paid p.outline ⟨q, .guard g⟩) :
    ∃ t ∈ since d laps, t.Executes d j := by
  have placed := run.reached.placed
  have finaled : g.finaled = true := by simpa [Paid, Spot.owesFinally, block] using paid
  rcases (run.life lies).sent block finaled with executed | ⟨branch, top⟩
  · exact executed
  · -- the turn that begins the segment keeps the guard
    have verb := (block.finallyPart p.found).verb
    obtain rfl := turn.place_of_branch placed branch verb
    obtain ⟨lengths, _⟩ := turn.at_finally placed verb
    omega

end Sent

section Ends

variable {p : Program} {m m' : Machine} {i : Nat} {e : Error}

theorem owesFinally_of_paid (fits : m.control.Fits p.outline)
    (paid : ∀ s ∈ m.control.spots, Paid p.outline s) :
    ∀ f ∈ m.frames, owesFinally p f = .ok false := by
  intro f mem
  have inside : f.spot ∈ m.control.spots := by
    rw [m.spots_control]
    exact mem_map_of_mem mem
  rw [owesFinally_spot (fits f.spot inside), paid f.spot inside]

theorem Placed.paid_end [p.Ready] (placed : Placed p m.control)
    (ran : Ran (next p) m (.ok none) m') : ∀ f ∈ m'.frames, owesFinally p f = .ok false := by
  cases placed.ahead ran with
  | ended _ outer _ blocks => simp [Machine.frames, Machine.calls, outer, blocks]
  | stopped stopped =>
    cases placed with
    | going _ _ going => cases stopped.symm.trans going.running
    | stopped _ chain seated clear =>
      refine owesFinally_of_paid (fits_of_chain chain seated.covers.fits) ?_
      intro s mem
      obtain ⟨t, inside, present⟩ := mem_flatMap.mp mem
      exact Clear.paid clear _ (mem_map_of_mem inside) s present

theorem Turn.paid_unhandled [p.Ready] (placed : Placed p m.control)
    (turn : Turn p m i (.unhandled e) m') (mild : (Failure.error e).isFatal = false) :
    ∀ f ∈ m'.frames, owesFinally p f = .ok false := by
  generalize same : Verdict.unhandled e = v at turn
  cases turn with
  | done | broken | astray => cases same
  | @routed c m₁ m₂ _ e' taken fetched dispatched ran =>
    cases taken with
    | true => cases same
    | false =>
      cases same
      obtain ⟨poised, has, _⟩ := fetched.poised placed
      have rooted := dispatched.lands poised has mild
      have slip : Slip p.outline m₁.control.spots m₂.control.spots := dispatched.stirs poised has
      have ok := slip.ok poised.ok
      have routed := ran_route rooted.fits ran
      generalize control : m'.control = k' at routed
      cases routed with
      | fatal fatal =>
        rw [isFatal_locate] at fatal
        cases fatal.symm.trans mild
      | unguarded _ deaf =>
        refine owesFinally_of_paid (by rw [control]; exact rooted.fits) ?_
        rw [control]
        intro s mem
        obtain ⟨function, known⟩ := ok s mem
        exact paid_of_deaf known (deaf s mem)
      | offered _ _ _ _ taken =>
        cases taken with
        | lost _ empty bottom =>
          have none : m'.control.spots = [] := by rw [control, spots_eq, empty, bottom]; rfl
          refine owesFinally_of_paid ?_ (by simp [none])
          simp [Control.Fits, none]

end Ends

/-- The guard `g` lives on as another state of the same block. -/
structure LivesOn (m' : Machine) (d place : Nat) (g : Guard) (f' : Frame) (g' : Guard) : Prop where
  frame : m'.frameAt d = some f'
  place : f'.place = place
  guard : f'.body = .guard g'
  caught : g.caught = true → g'.caught = true
  finaled : g.finaled = true → g'.finaled = true

theorem livesOn_of_spotAt {m' : Machine} {d q : Nat} {g g' : Guard}
    (lies : spotAt m'.control.spots d = some ⟨q, .guard g'⟩)
    (caught : g.caught = true → g'.caught = true) (finaled : g.finaled = true → g'.finaled = true) :
    ∃ f', LivesOn m' d q g f' g' := by
  rw [spotAt_control] at lies
  obtain ⟨f', frame, spot⟩ := Option.map_eq_some_iff.mp lies
  obtain ⟨place, saved, body⟩ := f'
  cases body with
  | guard g'' => cases spot; exact ⟨_, frame, rfl, rfl, caught, finaled⟩
  | cond _ | loop _ => cases spot

/-- In every turn of a run a guard with a last segment stays open, or leaves after the first command
of this segment was executed with the guard innermost. When the run completes, stops, or fails with
an error that is not fatal and is not that of a filter, no guard is left that still has to run its
last segment. -/
theorem last_segments_run {p q : Program} {laps : List Lap} {m : Machine}
    (outlined : q.outlined = .ok p) (start : q.start = 0) (run : Run p laps m) :
    (∀ i v m', Turn p m i v m' → ∀ d f g name catchAt j last, m.frameAt d = some f →
      f.body = .guard g →
      p.outline.block? f.place = some (.opener (.guard name catchAt (some j)) last) →
      (∃ f' g', LivesOn m' d f.place g f' g') ∨
        (m'.frames.length ≤ d ∧ ∃ t ∈ since d laps, t.Executes d j)) ∧
    (∀ m', Ran (next p) m (.ok none) m' → ∀ f ∈ m'.frames, owesFinally p f = .ok false) ∧
    (∀ i e m', Turn p m i (.unhandled e) m' → (Failure.error e).isFatal = false →
      ∀ f ∈ m'.frames, owesFinally p f = .ok false) := by
  have := ready_of_outlined outlined start
  have placed := run.reached.placed
  refine ⟨?_, fun m' ran => placed.paid_end ran, fun i e m' turn mild =>
    turn.paid_unhandled placed mild⟩
  intro i v m' turn d f g name catchAt j last frame guard block
  have lies := spotAt_of_frameAt frame guard
  rcases (turn.stir placed).1.fate lies with ⟨g', lies', onward⟩ | ⟨vacant, paid⟩
  · obtain ⟨f', lives⟩ := livesOn_of_spotAt lies' onward.keeps.1 onward.keeps.2
    exact .inl ⟨f', g', lives⟩
  · exact .inr ⟨by rwa [← frames_length], run.executed turn lies block vacant paid⟩

def leaveThroughGuard : Program := .ofCommands
  [{ name := "while", target := "true" }, { name := "try" }, { name := "break" },
   { name := "finally" }, { name := "echo", target := "text" }, { name := "endTry" },
   { name := "endWhile" }]

theorem last_segments_run_leaveThroughGuard :
    ∃ laps m i v m', Run leaveThroughGuard laps m ∧ Turn leaveThroughGuard m i v m' ∧
      (m.frameAt 1).map Frame.place = some 1 ∧ m'.frames.length = 1 ∧
        ∃ t ∈ since 1 laps, t.Executes 1 3 := by
  have outlined : leaveThroughGuard.outlined = .ok leaveThroughGuard := rfl
  have := ready_of_outlined outlined rfl
  have reached := Session.reached_runFor (p := leaveThroughGuard) (s := {}) 5 (.start {} #[])
  have before : (({} : Session).runFor leaveThroughGuard 5).2 = none ∧
      (((({} : Session).runFor leaveThroughGuard 5).1.machine.frameAt 1).map Frame.place = some 1 ∧
        ((({} : Session).runFor leaveThroughGuard 5).1.machine.frameAt 1).any (·.guard?.isSome) =
          true) := by
    decide +kernel
  have after : ((({} : Session).runFor leaveThroughGuard 5).1.step leaveThroughGuard).2 = none ∧
      ((({} : Session).runFor leaveThroughGuard 5).1.step
        leaveThroughGuard).1.machine.frames.length = 1 := by
    decide +kernel
  have block : leaveThroughGuard.outline.block? 1 = some (.opener (.guard "" none (some 3)) 5) := by
    decide +kernel
  generalize ({} : Session).runFor leaveThroughGuard 5 = s at reached before after
  obtain ⟨further, place, guard⟩ := before
  have reached := reached further
  obtain ⟨laps, run⟩ := reached.run
  rcases step : s.1.step leaveThroughGuard with ⟨s', ending⟩
  rw [step] at after
  rcases Session.step_turn reached.placed step with ⟨i, v, turn, _⟩ | ⟨_, ended⟩
  · obtain ⟨f, frame, place'⟩ := Option.map_eq_some_iff.mp place
    rw [frame] at guard
    obtain ⟨g, body⟩ : ∃ g, f.body = .guard g := by
      simp only [Option.any_some, Frame.guard?] at guard
      split at guard
      · exact ⟨_, ‹_›⟩
      · cases guard
    refine ⟨laps, s.1.machine, i, v, _, run, turn, place, after.2, ?_⟩
    rw [← place'] at block
    rcases (last_segments_run outlined rfl run).1 i v _ turn 1 f g _ _ 3 5 frame body block with
      ⟨f', g', lives⟩ | gone
    · have bound := (List.getElem?_eq_some_iff.mp lives.frame).1
      rw [length_reverse, after.2] at bound
      omega
    · exact gone.2
  · cases after.1.symm.trans ended

end Runbook
