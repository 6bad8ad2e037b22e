import Mathlib.Logic.Function.Iterate
import Runbook.Proofs.Run.Suspended
import Runbook.Proofs.Structured.Yields

namespace Runbook

open Runbook.Action

abbrev Point := Session × Option Ending

namespace Point

variable {p : Program} {u v w : Point} {m n : Nat}

def tick (p : Program) : Point → Point
  | (s, none) => s.step p
  | u => u

def Leads (p : Program) (u v : Point) : Prop := ∃ n, (tick p)^[n] u = v

def Lasts (p : Program) (n : Nat) (u : Point) : Prop := ∀ k < n, ((tick p)^[k] u).2 = none

theorem tick_over {ending : Ending} (ended : u.2 = some ending) : tick p u = u := by
  obtain ⟨s, e⟩ := u
  cases ended
  rfl

theorem runFor_eq (s : Session) : s.runFor p n = (tick p)^[n] (s, none) := by
  induction n generalizing s with
  | zero => rfl
  | succ n ih =>
    rw [Function.iterate_succ_apply]
    show _ = (tick p)^[n] (s.step p)
    rw [Session.runFor]
    rcases s.step p with ⟨s', _ | ending⟩
    · exact ih s'
    · exact (Function.iterate_fixed (tick_over rfl) n).symm

theorem Leads.refl : Leads p u u := ⟨0, rfl⟩

theorem Leads.trans (first : Leads p u v) (second : Leads p v w) : Leads p u w := by
  obtain ⟨m, rfl⟩ := first
  obtain ⟨n, rfl⟩ := second
  exact ⟨n + m, Function.iterate_add_apply _ n m u⟩

theorem leads_tick : Leads p u (tick p u) := ⟨1, rfl⟩

theorem lasts_zero : Lasts p 0 u := fun k below => by omega

theorem Lasts.mono (lasts : Lasts p n u) (less : m ≤ n) : Lasts p m u :=
  fun k below => lasts k (by omega)

theorem Lasts.of_leads (leads : Leads p u v) (lasts : Lasts p n v) : Lasts p n u := by
  obtain ⟨m, rfl⟩ := leads
  intro k below
  have going := lasts k below
  rw [← Function.iterate_add_apply, Nat.add_comm, Function.iterate_add_apply] at going
  cases ended : ((tick p)^[k] u).2 with
  | none => rfl
  | some ending =>
    -- a run that is over stays so
    rw [Function.iterate_fixed (tick_over ended), ended] at going
    cases going

theorem Lasts.of_tick (going : u.2 = none) (lasts : Lasts p n (tick p u)) : Lasts p (n + 1) u := by
  intro k below
  cases k with
  | zero => exact going
  | succ k => exact lasts k (by omega)

def Shows (u : Point) (m : Machine) (lines : Array String) : Prop :=
  u.2 = none ∧ u.1.lines = lines ∧ ∃ logs, u.1.machine = { m with logs := logs }

def Over (u : Point) (ending : Ending) (lines : Array String) : Prop :=
  u.2 = some ending ∧ u.1.lines = lines

structure Thrown (p : Program) (u : Point) (e : Error) (m : Machine) (lines : Array String) :
    Prop where
  taken : ∀ m', Yields (route p (.error e)) m (.ok true) m' → u.Shows m' lines
  refused : ∀ m', Yields (route p (.error e)) m (.ok false) m' → u.Over (.outcome (.failed e)) lines

/-- What a lap comes to when an action is still to be done at a place. -/
structure Doing (p : Program) (u : Point) (place : Nat) (a : Action Unit) (m : Machine)
    (lines : Array String) : Prop where
  done : ∀ m', Yields a m (.ok ()) m' → u.Shows m' lines
  failed : ∀ e m', m'.here = some (place : Int) → Yields a m (.error (.error e)) m' →
    Thrown p u (e.locate (some place)) m' lines
  broken : ∀ f m', Yields a m (.error (.fault f)) m' → u.Over (.broken f) lines

theorem Doing.step {α : Type} {place : Nat} {a : Action α} {f : α → Action Unit} {x : α}
    {m m' : Machine} {lines : Array String} (doing : Doing p u place (a >>= f) m lines)
    (yields : Yields a m (.ok x) m') : Doing p u place (f x) m' lines where
  done _ rest := doing.done _ (yields.bind rest)
  failed _ _ here rest := doing.failed _ _ here (yields.bind rest)
  broken _ _ rest := doing.broken _ _ (yields.bind rest)

end Point

def still (vars : Env) (call : Call) (outer : List Call) (place : Nat) : Machine :=
  { vars := vars, call := call, outer := outer, here := some (place : Int), started := true }

namespace Action

variable {p : Program} {m m' : Machine} {i t : Nat} {c : Command}

theorem yields_target [p.Fresh] (comes : m.control.At t) :
    Yields (target p) m (.ok (t : Int)) { m with started := true, branch := none } := by
  intro logs
  obtain ⟨vars, call, outer, here, started, branch, stopped, resume, logs₀⟩ := m
  cases comes with
  | start fresh none =>
    cases (fresh : started = false)
    cases (none : branch = _)
    exact ⟨logs, by unfold Ran target; rw [p.fresh]; rfl⟩
  | branch begun some =>
    cases (begun : started = true)
    cases (some : branch = _)
    exact ⟨_, rfl⟩
  | after begun none place =>
    cases (begun : started = true)
    cases (none : branch = _)
    cases (place : here = _)
    exact ⟨logs, rfl⟩

theorem yields_next_of_seek [p.Fresh] {out : Option (Int × Command)} (running : m.stopped = false)
    (aims : m.control.At t) (found : seek p ((p.commands.length : Int) - t).toNat t = .ok out) :
    Yields (next p) m (.ok (out.map (·.2)))
      { m with
        started := true
        branch := none
        here := some (out.elim (p.commands.length : Int) (·.1)) } := by
  refine .get fun logs => ?_
  rw [if_neg (by simp [running])]
  refine (yields_target aims).bind ?_
  rw [found]
  cases out <;> exact fun logs => ⟨logs, rfl⟩

theorem yields_next [p.Fresh] (heads : Heads p m i) (has : p.Has i c)
    (executable : c.executable = true) : Yields (next p) m (.ok (some c))
    { m with started := true, branch := none, here := some (i : Int) } := by
  obtain ⟨running, t, aims, after, silent⟩ := heads
  rcases seek_from p t with ⟨n, d, low, there, executable', silent', out⟩ | ⟨silent', _⟩
  · obtain rfl := Nat.le_antisymm (silent'.le after has executable)
      (silent.le low there executable')
    cases there.symm.trans has
    exact yields_next_of_seek running aims out
  · exact absurd has.lt (Nat.not_lt.mpr (silent'.le after has executable))

theorem yields_next_end [p.Fresh] (heads : Heads p m p.commands.length) :
    Yields (next p) m (.ok none)
    { m with started := true, branch := none, here := some (p.commands.length : Int) } := by
  obtain ⟨running, t, aims, after, silent⟩ := heads
  rcases seek_from p t with ⟨n, d, low, there, executable, _⟩ | ⟨_, out⟩
  · exact absurd there.lt (Nat.not_lt.mpr (silent.le low there executable))
  · exact yields_next_of_seek running aims out

theorem yields_next_stopped (stopped : m.stopped = true) : Yields (next p) m (.ok none) m := by
  refine .get fun logs => ?_
  rw [if_pos stopped]
  exact yields_pure

theorem yields_located {α : Type} {a : Action α} {r : Reply α} (yields : Yields a m r m') :
    Yields (located a) m (r.mapError (·.locate m'.here)) m' := by
  intro logs
  obtain ⟨logs', ran⟩ := yields logs
  rcases out : (located a).run.run { m with logs := logs } with ⟨r₁, m₁⟩
  obtain ⟨r', inner, rfl⟩ := ran_located out
  obtain ⟨rfl, rfl⟩ := Prod.mk.inj (ran.symm.trans inner)
  exact ⟨logs', out⟩

theorem yields_execute {v : Verb} {r : Reply Unit} (verb : c.verb? = some v)
    (yields : Yields (perform p c (m.resume.isSome ∧ m.resume = m.here) v)
      { m with resume := none } r m') :
    Yields (execute p c) m (r.mapError (·.locate m'.here)) m' := by
  unfold execute
  rw [verb]
  refine .get fun logs => ?_
  have cleared :
      Yields (set { m with logs := logs, resume := none }) m (.ok ()) { m with resume := none } :=
    fun _ => ⟨logs, rfl⟩
  exact cleared.bind (yields_located yields)

end Action

namespace Point

variable {p : Program} {u : Point} {i : Nat} {c : Command} {call : Call} {outer : List Call}
  {w : World} {vars : Env} {lines : Array String} {s : Session} {m n : Machine} {v : Verb}

structure Stands (p : Program) (u : Point) (i : Nat) (call : Call) (outer : List Call) (w : World) :
    Prop where
  going : u.2 = none
  heads : Heads p u.1.machine i
  vars : u.1.machine.vars = w.vars
  call : u.1.machine.call = call
  outer : u.1.machine.outer = outer
  idle : u.1.machine.resume = none
  lines : u.1.lines = w.lines

theorem heads_of_at {t : Nat} (running : m.stopped = false) (aims : m.control.At t) : Heads p m t :=
  ⟨running, t, aims, Nat.le_refl t, fun j low below => by omega⟩

theorem Shows.stands_next (shown : u.Shows (still vars call outer i) lines) :
    Stands p u (i + 1) call outer ⟨vars, lines⟩ := by
  obtain ⟨going, lines, logs, machine⟩ := shown
  refine ⟨going, ?_, ?_, ?_, ?_, ?_, lines⟩
  all_goals rw [machine]
  exacts [heads_of_at rfl (.after rfl rfl rfl), rfl, rfl, rfl, rfl]

theorem Shows.stands_branch {t : Nat}
    (shown : u.Shows { still vars call outer i with branch := some t } lines) :
    Stands p u t call outer ⟨vars, lines⟩ := by
  obtain ⟨going, lines, logs, machine⟩ := shown
  refine ⟨going, ?_, ?_, ?_, ?_, ?_, lines⟩
  all_goals rw [machine]
  exacts [heads_of_at rfl (.branch rfl rfl), rfl, rfl, rfl, rfl]

theorem Stands.skip (stands : Stands p u i call outer w) (has : p.Has i c)
    (idle : c.executable = false) : Stands p u (i + 1) call outer w := by
  obtain ⟨running, t, aims, after, silent⟩ := stands.heads
  refine { stands with heads := ⟨running, t, aims, by omega, fun j low below d there => ?_⟩ }
  rcases Nat.lt_or_ge j i with before | later
  · exact silent j low before d there
  · obtain rfl : j = i := by omega
    cases there.symm.trans has
    exact idle

section

variable (machine : ∃ logs, s.machine = { m with logs := logs })

include machine

theorem perform_shows {shown : Option String}
    (yields : Yields (Host.dispatch p c) m (.ok shown) n) :
    Shows (s.perform p c) n (s.lines ++ shown.toArray) := by
  obtain ⟨logs, machine⟩ := machine
  obtain ⟨logs', ran⟩ := yields logs
  unfold Session.perform
  dsimp only
  rw [machine, ran]
  exact ⟨rfl, rfl, logs', rfl⟩

theorem perform_broken {f : Fault} (yields : Yields (Host.dispatch p c) m (.error (.fault f)) n) :
    Over (s.perform p c) (.broken f) s.lines := by
  obtain ⟨logs, machine⟩ := machine
  obtain ⟨logs', ran⟩ := yields logs
  unfold Session.perform
  dsimp only
  rw [machine, ran]
  exact ⟨rfl, rfl⟩

theorem perform_thrown {e : Error} (here : m.Here i)
    (yields : Yields (Host.dispatch p c) m (.error (.error e)) n) :
    Thrown p (s.perform p c) (e.locate (some i)) n s.lines := by
  obtain ⟨logs, machine⟩ := machine
  obtain ⟨logs', ran⟩ := yields logs
  unfold Session.perform
  dsimp only
  rw [machine, ran]
  dsimp only
  rw [here]
  constructor
  · intro m' routed
    obtain ⟨logs₁, ran⟩ := routed logs'
    unfold Session.handle
    dsimp only
    rw [ran]
    exact ⟨rfl, rfl, logs₁, rfl⟩
  · intro m' routed
    obtain ⟨logs₁, ran⟩ := routed logs'
    unfold Session.handle
    dsimp only
    rw [ran]
    exact ⟨rfl, rfl⟩

end

theorem fetched_eq (heads : Heads p m i) :
    { m with started := true, branch := none, here := some (i : Int) } =
      { still m.vars m.call m.outer i with resume := m.resume, logs := m.logs } := by
  obtain ⟨running, _⟩ := heads
  obtain ⟨vars, call, outer, here, started, branch, stopped, resume, logs⟩ := m
  cases running
  rfl

theorem step_eq [p.Fresh] (heads : Heads p s.machine i) (has : p.Has i c)
    (executable : c.executable = true) :
    ∃ t : Session, s.step p = t.perform p c ∧ t.lines = s.lines ∧ ∃ logs, t.machine =
      { still s.machine.vars s.machine.call s.machine.outer i with
        resume := s.machine.resume
        logs := logs } := by
  obtain ⟨logs, ran⟩ := yields_next heads has executable s.machine.logs
  have fetched := fetched_eq heads
  refine ⟨{ s with machine := { s.machine with
    started := true, branch := none, here := some (i : Int), logs := logs } }, ?_, rfl, logs, ?_⟩
  · have ran : (next p).run.run s.machine = _ := ran
    unfold Session.step
    rw [ran]
  · exact congrArg (fun m : Machine => { m with logs := logs }) fetched

theorem step_verb [p.Fresh] (heads : Heads p s.machine i) (has : p.Has i c)
    (verb : c.verb? = some v) :
    Doing p (s.step p) i
      (perform p c (s.machine.resume.isSome ∧ s.machine.resume = some (i : Int)) v)
      (still s.machine.vars s.machine.call s.machine.outer i) s.lines := by
  obtain ⟨t, step, lines, machine⟩ := step_eq heads has (Command.executable_of_verb verb)
  rw [step, ← lines]
  have dispatched {r : Reply Unit} {m' : Machine}
      (yields : Yields (perform p c (s.machine.resume.isSome ∧ s.machine.resume = some (i : Int)) v)
        (still s.machine.vars s.machine.call s.machine.outer i) r m') :
      Yields (Host.dispatch p c)
        { still s.machine.vars s.machine.call s.machine.outer i with resume := s.machine.resume }
        ((r.mapError (·.locate m'.here)).map fun _ => none) m' := by
    unfold Host.dispatch
    rw [if_pos (by rw [verb]; rfl)]
    have executed :=
      yields_execute (m := { still s.machine.vars s.machine.call s.machine.outer i with
        resume := s.machine.resume }) verb yields
    cases r with
    | ok _ => exact executed.bind yields_pure
    | error e => exact executed.fail
  constructor
  · intro m' yields
    have shown := perform_shows machine (dispatched yields)
    simpa using shown
  · intro e m' here yields
    have thrown := perform_thrown machine rfl (dispatched yields)
    rw [here] at thrown
    have same : (e.locate (some (i : Int))).locate (some (i : Int)) = e.locate (some (i : Int)) :=
      locate_eq isSome_locate
    rwa [same] at thrown
  · intro f m' yields
    exact perform_broken machine (dispatched yields)

theorem Stands.lap [p.Fresh] (stands : Stands p u i call outer w) (has : p.Has i c)
    (verb : c.verb? = some v) :
    Doing p (tick p u) i (perform p c false v) (still w.vars call outer i) w.lines := by
  obtain ⟨s, e⟩ := u
  obtain ⟨rfl, heads, vars, call, outer, idle, lines⟩ := stands
  have doing := step_verb heads has verb
  dsimp only at vars call outer idle lines
  rw [vars, call, outer, idle, lines] at doing
  exact doing

theorem Shows.resume {place : Nat} [p.Fresh]
    (shown : u.Shows { still vars call outer place with resume := some (i : Int), branch := some i }
      lines)
    (has : p.Has i c) (verb : c.verb? = some v) :
    Doing p (tick p u) i (perform p c true v) (still vars call outer i) lines := by
  obtain ⟨s, e⟩ := u
  obtain ⟨rfl, rfl, logs, machine⟩ := shown
  dsimp only at machine
  have heads : Heads p s.machine i := by
    rw [machine]
    exact heads_of_at rfl (.branch rfl rfl)
  have doing := step_verb heads has verb
  rw [machine] at doing
  simp only [Option.isSome_some, and_self, decide_true] at doing
  exact doing

theorem Stands.host [p.Fresh] (stands : Stands p u i call outer w) (has : p.Has i c)
    (verb : c.verb? = none) (executable : c.executable = true) :
    match effect (Host.perform p c) i w.vars with
    | (.ok shown, vars) => Shows (tick p u) (still vars call outer i) (w.lines ++ shown.toArray)
    | (.error (.error e), vars) =>
      Thrown p (tick p u) (e.locate (some i)) (still vars call outer i) w.lines
    | (.error (.fault f), _) => Over (tick p u) (.broken f) w.lines := by
  obtain ⟨s, e⟩ := u
  obtain ⟨rfl, heads, sameVars, sameCall, sameOuter, idle, lines⟩ := stands
  dsimp only at heads sameVars sameCall sameOuter idle lines
  obtain ⟨t, step, same, machine⟩ := step_eq heads has executable
  rw [sameVars, sameCall, sameOuter, idle] at machine
  have dispatched : Yields (Host.dispatch p c) (still w.vars call outer i)
      (effect (Host.perform p c) i w.vars).1
      (still (effect (Host.perform p c) i w.vars).2 call outer i) := by
    unfold Host.dispatch
    rw [if_neg (by rw [verb]; simp)]
    exact (varsOnly_perform p c).yields rfl
  have ticked : tick p (s, none) = t.perform p c := step
  rw [ticked, ← lines, ← same]
  rcases out : effect (Host.perform p c) i w.vars with ⟨(e | f) | shown, vars'⟩
  all_goals rw [out] at dispatched
  exacts [perform_thrown machine rfl dispatched, perform_broken machine dispatched,
    perform_shows machine dispatched]

theorem Stands.completes [p.Fresh] (stands : Stands p u p.commands.length call outer w) :
    Over (tick p u) (.outcome .completed) w.lines ∧ (tick p u).1.machine.vars = w.vars := by
  obtain ⟨s, e⟩ := u
  obtain ⟨rfl, heads, vars, call, outer, idle, lines⟩ := stands
  obtain ⟨logs, ran⟩ := yields_next_end heads s.machine.logs
  have ran : (next p).run.run s.machine = _ := ran
  have running : s.machine.stopped = false := heads.1
  show Over (s.step p) _ _ ∧ (s.step p).1.machine.vars = w.vars
  unfold Session.step
  rw [ran]
  dsimp only
  rw [running]
  exact ⟨⟨rfl, lines⟩, vars⟩

theorem stops (stopped : s.machine.stopped = true) :
    Over (tick p (s, none)) (.outcome .stopped) s.lines := by
  obtain ⟨logs, ran⟩ := @yields_next_stopped p s.machine stopped s.machine.logs
  have ran : (next p).run.run s.machine = _ := ran
  show Over (s.step p) _ _
  unfold Session.step
  rw [ran]
  dsimp only
  rw [stopped]
  exact ⟨rfl, rfl⟩

end Point

end Runbook
