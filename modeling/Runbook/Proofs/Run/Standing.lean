import Runbook.Proofs.Run.Landing

namespace Runbook

open Runbook.Action Control List

section Turns

variable {p : Program} {m m' : Machine} {i : Nat} {c : Command} {e : Error} {v : Verdict}

theorem placed_start {vars : Env} {logs : Array Log} :
    Placed p { vars := vars, logs := logs : Machine }.control := by
  have seated : Seated p {} 0 := ⟨nofun, .nil, by simp, by simp⟩
  exact .going (.start rfl rfl) (Nat.zero_le _) ⟨rfl, .bottom rfl, .inside rfl rfl seated⟩

theorem Chain.alone {t : Tier} {outer : List Tier} (chain : Chain p t outer)
    (top : t.function = none) : outer = [] := by
  cases chain with
  | bottom _ => rfl
  | call own => rw [top] at own; cases own

theorem Going.closed {k : Control} {t : Nat} [p.Faithful] (going : Going p k t)
    (silent : Silent p.commands t p.commands.length) (bound : t ≤ p.commands.length) :
    k.outer = [] ∧ k.call.function = none ∧ k.call.blocks = [] := by
  have ended := going.fetched silent bound
  have empty : opens p.commands p.commands.length = [] := opens_end p.found (Nat.le_refl _)
  have past {v : Verb} (verb : p.Does p.commands.length v) : False :=
    Nat.lt_irrefl _ (lt_length_of_verbAt verb)
  cases ended.stance with
  | inside _ _ seated =>
    have top : k.call.function = none := by
      cases own : k.call.function with
      | none => rfl
      | some f =>
        have := (seated.function f own).1
        rw [empty] at this
        cases this
    refine ⟨going.chain.alone top, top, ?_⟩
    have seated : Seated p k.call p.commands.length := seated
    have places := seated.covers.places
    rw [top, empty] at places
    exact map_eq_nil_iff.mp (sublist_nil.mp places)
  | round _ _ _ fits _ =>
    cases fits with
    | loop block => exact (past (block.ended p.found).grown.opened).elim
  | entry _ _ _ _ block => exact (past (block.ended p.found).grown.opened).elim
  | resume _ _ _ leaving _ => exact (past (leaving.verb).choose_spec).elim
  | back _ _ source own _ _ => exact (past (ended.chain.verb_back own source)).elim

theorem faithful_of_outlined {q : Program} (outlined : q.outlined = .ok p) :
    p.Faithful ∧ p.start = q.start := by
  unfold Program.outlined Outline.ofCommands at outlined
  cases found : Outline.find q.commands with
  | error e => rw [found] at outlined; cases outlined
  | ok o => rw [found] at outlined; cases outlined; exact ⟨⟨found⟩, rfl⟩

theorem ready_of_outlined {q : Program} (outlined : q.outlined = .ok p) (start : q.start = 0) :
    p.Ready :=
  have ⟨⟨found⟩, same⟩ := faithful_of_outlined outlined
  { found, start := same.trans start }

inductive Ahead (p : Program) (m : Machine) : Except Failure (Option Command) → Machine → Prop
  | stopped (stopped : m.stopped = true) : Ahead p m (.ok none) m
  | command {m' : Machine} {i c} (has : p.Has i c) (control : m'.control = m.control.fetched i)
      (poised : Poised p m'.control i) : Ahead p m (.ok (some c)) m'
  | ended {m' : Machine} (running : m'.stopped = false) (outer : m'.outer = [])
      (function : m'.call.function = none) (blocks : m'.call.blocks = []) : Ahead p m (.ok none) m'

theorem Placed.ahead {x : Reply (Option Command)} [p.Ready] (placed : Placed p m.control)
    (ran : Ran (next p) m x m') : Ahead p m x m' := by
  cases placed with
  | stopped stopped =>
    have stopped : m.stopped = true := stopped
    have out : (next p).run.run m = (.ok none, m) := by
      show (if m.stopped then pure none else _ : Action (Option Command)).run.run m = _
      rw [if_pos stopped]
      rfl
    cases out.symm.trans ran
    exact .stopped stopped
  | going next bound going =>
    rcases ran_next next ran with
      ⟨stopped, _⟩ | ⟨_, i, c, after, has, _, silent, rfl, control⟩ | ⟨running, silent,
        rfl, control⟩
    · cases stopped.symm.trans going.running
    · exact .command has control (by rw [control]; exact going.fetched silent after)
    · obtain ⟨outer, function, blocks⟩ := going.closed silent bound
      refine .ended ((congrArg Control.stopped control).trans running) ?_ ?_ ?_
      · exact map_eq_nil_iff.mp ((congrArg Control.outer control).trans outer)
      · exact (congrArg (·.call.function) control).trans function
      · exact map_eq_nil_iff.mp ((congrArg (·.call.blocks) control).trans blocks)

theorem Placed.fetches [p.Ready] (placed : Placed p m.control) : Fetches p m := by
  intro x m' ran
  cases placed.ahead ran with
  | stopped _ | ended _ _ _ _ => exact .inl rfl
  | command _ _ poised => exact .inr ⟨_, _, rfl, ran, poised.here⟩

theorem Fetched.poised [p.Ready] (placed : Placed p m.control) (fetched : Fetched p m i c m') :
    Poised p m'.control i ∧ p.Has i c ∧ m'.control = m.control.fetched i := by
  cases placed.ahead fetched.ran with
  | @command _ j _ has control poised =>
    obtain rfl : j = i := Int.ofNat.inj (Option.some.inj (Eq.trans poised.here.symm fetched.here))
    exact ⟨poised, has, control⟩

theorem Dispatched.lands {r : Reply Unit} [p.Faithful] (poised : Poised p m.control i)
    (has : p.Has i c) (dispatched : Dispatched p c m r m') : Lands p r m'.control := by
  cases dispatched.acted poised.toGoing.fits poised.here has with
  | moves verb move => exact poised.lands verb move
  | fails verb move located =>
    intro mild
    rw [located, isFatal_locate] at mild
    exact poised.lands verb move mild
  | host none same =>
    rw [same]
    have bound := has.lt
    have inside := poised.inside_of_host none
    cases r with
    | ok _ =>
      exact inside.toAlive.next inside.here inside.branch bound
        (inside.seated.succ (by simp [none]) (by simp [none]))
    | error e => exact fun _ => inside.rooted

theorem locate_eq {place : Option Int} (placed : e.index.isSome = true) : e.locate place = e := by
  obtain ⟨kind, message, index, prior⟩ := e
  cases index with
  | none => cases placed
  | some _ => rfl

theorem isSome_locate {place : Int} : (e.locate (some place)).index.isSome = true := by
  rw [Error.locate]
  cases e.index <;> rfl

theorem Dispatched.routed {m₁ m₂ : Machine} {x : Reply Bool} [p.Faithful]
    (poised : Poised p m₁.control i) (has : p.Has i c)
    (dispatched : Dispatched p c m₁ (.error (.error e)) m₂)
    (ran : Ran (route p (.error (e.locate m₁.here))) m₂ x m') :
    Routed p.outline (.error (e.locate m₁.here)) (m₂.here.getD (-1)) m₂.control x m'.control ∧
      (x = .ok true → Rooted p m₂.control) := by
  by_cases fatal : (Failure.error (e.locate m₁.here)).isFatal = true
  · obtain ⟨rfl, control⟩ := ran_route_fatal fatal ran
    rw [control]
    exact ⟨.fatal fatal, nofun⟩
  have rooted := dispatched.lands poised has
    (by simpa using fatal : (Failure.error (e.locate m₁.here)).isFatal = false)
  have routed := ran_route rooted.fits ran
  have index : (e.locate m₁.here).index.isSome = true := by
    rw [show m₁.Here i from poised.here]
    exact isSome_locate
  rw [Failure.locate, locate_eq index] at routed
  exact ⟨routed, fun _ => rooted⟩

/-- How a turn goes on from what its command did: with that it is over, or a guard takes the
failure, or the run ends. -/
inductive Concludes (p : Program) (k k' : Control) : Verdict → Except Failure Unit → Prop
  | done (same : k' = k) : Concludes p k k' .done (.ok ())
  | taken {e : Failure} {e'} {source : Int} (rooted : Rooted p k)
      (routed : Routed p.outline (.error e') source k (.ok true) k') :
      Concludes p k k' (.handled e') (.error e)
  | ends {v : Verdict} {e} (ending : v.ending?.isSome = true)
      (left : k' = k ∨ ∃ cause source x, x ≠ .ok true ∧ Routed p.outline cause source k x k') :
      Concludes p k k' v (.error e)

theorem Turn.concludes [p.Ready] (placed : Placed p m.control) (turn : Turn p m i v m') :
    ∃ c m₁ r m₂, Fetched p m i c m₁ ∧ Dispatched p c m₁ r m₂ ∧
      Concludes p m₂.control m'.control v r := by
  cases turn with
  | done fetched dispatched => exact ⟨_, _, _, _, fetched, dispatched, .done rfl⟩
  | broken fetched dispatched => exact ⟨_, _, _, _, fetched, dispatched, .ends rfl (.inl rfl)⟩
  | @routed c m₁ m₂ _ e taken fetched dispatched ran =>
    obtain ⟨poised, has, _⟩ := fetched.poised placed
    obtain ⟨routed, rooted⟩ := dispatched.routed poised has ran
    cases taken with
    | true => exact ⟨_, _, _, _, fetched, dispatched, .taken (rooted rfl) routed⟩
    | false =>
      exact ⟨_, _, _, _, fetched, dispatched, .ends rfl (.inr ⟨_, _, .ok false, nofun, routed⟩)⟩
  | @astray c m₁ m₂ _ e nested fetched dispatched ran =>
    obtain ⟨poised, has, _⟩ := fetched.poised placed
    have routed := (dispatched.routed poised has ran).1
    exact ⟨_, _, _, _, fetched, dispatched, .ends (by cases nested <;> rfl)
      (.inr ⟨_, _, .error nested, nofun, routed⟩)⟩

theorem Turn.acted [p.Ready] (placed : Placed p m.control) (turn : Turn p m i v m') :
    ∃ r k, Poised p (m.control.fetched i) i ∧ Acted p i (m.control.fetched i) k r ∧
      Concludes p k m'.control v r := by
  obtain ⟨c, m₁, r, m₂, fetched, dispatched, concludes⟩ := turn.concludes placed
  obtain ⟨poised, has, control⟩ := fetched.poised placed
  have acted := dispatched.acted poised.toGoing.fits poised.here has
  rw [control] at poised acted
  exact ⟨r, m₂.control, poised, acted, concludes⟩

theorem Turn.placed [p.Ready] (placed : Placed p m.control) (turn : Turn p m i v m')
    (further : v.ending? = none) : Placed p m'.control := by
  obtain ⟨c, m₁, r, m₂, fetched, dispatched, concludes⟩ := turn.concludes placed
  cases concludes with
  | done same =>
    obtain ⟨poised, has, _⟩ := fetched.poised placed
    rw [same]
    exact dispatched.lands poised has
  | taken rooted routed => exact Routed.placed rooted routed
  | ends ending _ => simp [further] at ending

theorem Reached.placed [p.Ready] (reached : Reached p m) : Placed p m.control := by
  induction reached with
  | start vars logs => exact placed_start
  | turn _ turn further ih => exact turn.placed ih further

end Turns

namespace Session

variable {p : Program} {s s' : Session} {ending : Option Ending}

theorem dispatched (p : Program) (c : Command) (m : Machine) :
    Dispatched p c m (((Host.dispatch p c).run.run m).1.map fun _ => ())
      ((Host.dispatch p c).run.run m).2 := by
  rcases ran_dispatch (ran_self (Host.dispatch p c) m) with ⟨r, verb, ran, same⟩ | ⟨verb, ran⟩
  · rw [same]
    refine .control verb ?_
    cases r <;> exact ran
  · exact .host verb ((Host.reads_perform grants_arises).still ran)

/-- The next turn of a session, if there is one: its place, how it ends, and the machine behind
it. -/
def turn? (p : Program) (s : Session) : Option (Nat × Verdict × Machine) :=
  match (next p).run.run s.machine with
  | (.ok (some c), m) =>
    let place := (m.here.getD 0).toNat
    match (Host.dispatch p c).run.run m with
    | (.ok _, m') => some (place, .done, m')
    | (.error (.fault f), m') => some (place, .broken f, m')
    | (.error (.error e), m₂) =>
      let e := e.locate m.here
      match (route p (.error e)).run.run m₂ with
      | (.ok taken, m') => some (place, if taken then .handled e else .unhandled e, m')
      | (.error nested, m') => some (place, .astray e (nested.locate m.here), m')
  | _ => none

inductive Turned (p : Program) (m₁ : Machine) (c : Command) (m' : Machine) : Verdict → Prop
  | done {shown} (ran : Ran (Host.dispatch p c) m₁ (.ok shown) m') : Turned p m₁ c m' .done
  | broken {f} (ran : Ran (Host.dispatch p c) m₁ (.error (.fault f)) m') :
      Turned p m₁ c m' (.broken f)
  | routed {e : Error} {m₂ x v} (ran : Ran (Host.dispatch p c) m₁ (.error (.error e)) m₂)
      (routed : Ran (route p (.error (e.locate m₁.here))) m₂ x m')
      (verdict : v = .routed (e.locate m₁.here) m₁.here x) : Turned p m₁ c m' v

theorem turned {i : Nat} {v : Verdict} {m' : Machine} (fetches : Fetches p s.machine)
    (turn : s.turn? p = some (i, v, m')) :
    ∃ c m₁, Fetched p s.machine i c m₁ ∧ Turned p m₁ c m' v := by
  unfold turn? at turn
  rcases ran : (next p).run.run s.machine with ⟨x, m₁⟩
  rw [ran] at turn
  rcases fetches x m₁ ran with rfl | ⟨j, c, rfl, fetched⟩
  · cases turn
  have here : m₁.Here j := fetched.here
  rcases out : (Host.dispatch p c).run.run m₁ with ⟨r, m₂⟩
  simp only [out] at turn
  match r with
  | .ok shown =>
    rw [here] at turn
    cases turn
    exact ⟨c, m₁, fetched, .done out⟩
  | .error (.fault f) =>
    rw [here] at turn
    cases turn
    exact ⟨c, m₁, fetched, .broken out⟩
  | .error (.error e) =>
    rcases routed : (route p (.error (e.locate m₁.here))).run.run m₂ with ⟨x, m₃⟩
    simp only [routed] at turn
    match x with
    | .ok true | .ok false | .error _ =>
      rw [here] at turn
      cases turn
      exact ⟨c, m₁, fetched, .routed out routed (by rw [here]; rfl)⟩

theorem step_turns (fetches : Fetches p s.machine) (step : s.step p = (s', ending)) :
    (∃ i v, s.turn? p = some (i, v, s'.machine) ∧ Turn p s.machine i v s'.machine ∧
      v.ending? = ending) ∨
      (s.turn? p = none ∧ Ran (next p) s.machine (.ok none) s'.machine ∧
        ending = some (.outcome (if s'.machine.stopped then .stopped else .completed))) := by
  unfold Session.step at step
  unfold turn?
  rcases ran : (next p).run.run s.machine with ⟨x, m₁⟩
  rw [ran] at step
  rcases fetches x m₁ ran with rfl | ⟨i, c, rfl, fetched⟩
  · cases step
    exact .inr ⟨rfl, ran, rfl⟩
  have place : (m₁.here.getD 0).toNat = i := by rw [fetched.here]; rfl
  have dispatched := dispatched p c m₁
  replace step : perform p { s with machine := m₁ } c = (s', ending) := step
  unfold perform at step
  rcases out : (Host.dispatch p c).run.run m₁ with ⟨r, m₂⟩
  simp only [out] at step dispatched ⊢
  rw [place]
  left
  match r with
  | .ok shown => cases step; exact ⟨i, .done, rfl, .done fetched dispatched, rfl⟩
  | .error (.fault f) => cases step; exact ⟨i, .broken f, rfl, .broken fetched dispatched, rfl⟩
  | .error (.error e) =>
    rcases routed : (route p (.error (e.locate m₁.here))).run.run m₂ with ⟨x, m₃⟩
    simp only [handle, routed] at step ⊢
    match x with
    | .ok true => cases step; exact ⟨i, _, rfl, .routed fetched dispatched routed, rfl⟩
    | .ok false => cases step; exact ⟨i, _, rfl, .routed fetched dispatched routed, rfl⟩
    | .error (.error nested) =>
      cases step; exact ⟨i, _, rfl, .astray fetched dispatched routed, rfl⟩
    | .error (.fault f) => cases step; exact ⟨i, _, rfl, .astray fetched dispatched routed, rfl⟩

theorem step_turn [p.Ready] (placed : Placed p s.machine.control) (step : s.step p = (s', ending)) :
    (∃ i v, Turn p s.machine i v s'.machine ∧ v.ending? = ending) ∨
      (Ran (next p) s.machine (.ok none) s'.machine ∧
        ending = some (.outcome (if s'.machine.stopped then .stopped else .completed))) := by
  rcases step_turns placed.fetches step with ⟨i, v, _, turn, goes⟩ | ⟨_, ended⟩
  · exact .inl ⟨i, v, turn, goes⟩
  · exact .inr ended

theorem reached_runFor [p.Ready] (count : Nat) (reached : Reached p s.machine)
    (further : (s.runFor p count).2 = none) : Reached p (s.runFor p count).1.machine := by
  induction count generalizing s with
  | zero => exact reached
  | succ count ih =>
    rcases step : s.step p with ⟨s₁, ending⟩
    simp only [runFor, step] at further ⊢
    cases ending with
    | some e => cases further
    | none =>
      rcases step_turn reached.placed step with ⟨i, v, turn, goes⟩ | ⟨_, wrong⟩
      · exact ih (.turn reached turn goes) further
      · cases wrong

end Session

end Runbook
