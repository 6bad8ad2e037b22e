import Runbook.Proofs.Machine.Performed
import Runbook.Proofs.Machine.Routing

namespace Runbook

open Runbook.Action Control

inductive Dispatched (p : Program) (c : Command) (m : Machine) :
    Except Failure Unit → Machine → Prop
  | control {r : Except Failure Unit} {m' : Machine} (verb : c.verb?.isSome = true)
      (ran : Ran (execute p c) m r m') : Dispatched p c m r m'
  | host {r : Except Failure Unit} {m' : Machine} (verb : c.verb? = none)
      (same : m'.control = m.control) : Dispatched p c m r m'

/-- How a turn ends. In an `astray` one the filter of a guard failed on the way of an error. -/
inductive Verdict
  | done
  | handled (e : Error)
  | unhandled (e : Error)
  | astray (cause : Error) (e : Failure)
  | broken (f : Fault)
  deriving DecidableEq, Repr

def Verdict.ending? : Verdict → Option Ending
  | .done | .handled _ => none
  | .unhandled e | .astray _ (.error e) => some (.outcome (.failed e))
  | .astray _ (.fault f) | .broken f => some (.broken f)

def Verdict.cause? : Verdict → Option Error
  | .handled e | .unhandled e | .astray e _ => some e
  | .done | .broken _ => none

def Verdict.routed (e : Error) (place : Option Int) : Except Failure Bool → Verdict
  | .ok true => .handled e
  | .ok false => .unhandled e
  | .error nested => .astray e (nested.locate place)

@[simp] theorem Verdict.cause?_routed {e : Error} {place : Option Int} {x : Reply Bool} :
    (Verdict.routed e place x).cause? = some e := by
  match x with
  | .ok true | .ok false | .error _ => rfl

/-- The next command is the one at the place `i`. -/
structure Fetched (p : Program) (m : Machine) (i : Nat) (c : Command) (m' : Machine) : Prop where
  ran : Ran (next p) m (.ok (some c)) m'
  here : m'.here = some (i : Int)

def Fetches (p : Program) (m : Machine) : Prop :=
  ∀ x m', Ran (next p) m x m' → x = .ok none ∨ ∃ i c, x = .ok (some c) ∧ Fetched p m i c m'

/-- One turn, in which the command at the place `i` is executed. -/
inductive Turn (p : Program) (m : Machine) (i : Nat) : Verdict → Machine → Prop
  | done {c : Command} {m₁ m' : Machine} (fetched : Fetched p m i c m₁)
      (dispatched : Dispatched p c m₁ (.ok ()) m') : Turn p m i .done m'
  | routed {c : Command} {m₁ m₂ m' : Machine} {e : Error} {taken : Bool}
      (fetched : Fetched p m i c m₁) (dispatched : Dispatched p c m₁ (.error (.error e)) m₂)
      (ran : Ran (route p (.error (e.locate m₁.here))) m₂ (.ok taken) m') :
      Turn p m i (if taken then .handled (e.locate m₁.here) else .unhandled (e.locate m₁.here)) m'
  | astray {c : Command} {m₁ m₂ m' : Machine} {e : Error} {nested : Failure}
      (fetched : Fetched p m i c m₁) (dispatched : Dispatched p c m₁ (.error (.error e)) m₂)
      (ran : Ran (route p (.error (e.locate m₁.here))) m₂ (.error nested) m') :
      Turn p m i (.astray (e.locate m₁.here) (nested.locate m₁.here)) m'
  | broken {c : Command} {m₁ m' : Machine} {f : Fault} (fetched : Fetched p m i c m₁)
      (dispatched : Dispatched p c m₁ (.error (.fault f)) m') : Turn p m i (.broken f) m'

/-- The machines that stand between the turns of a run. -/
inductive Reached (p : Program) : Machine → Prop
  | start (vars : Env) (logs : Array Log) : Reached p { vars := vars, logs := logs }
  | turn {m m' : Machine} {i : Nat} {v : Verdict} (before : Reached p m) (turn : Turn p m i v m')
      (further : v.ending? = none) : Reached p m'

inductive Control.At (k : Control) : Nat → Prop
  | start (fresh : k.started = false) (branch : k.branch = none) : At k 0
  | branch {t : Nat} (started : k.started = true) (branch : k.branch = some t) : At k t
  | after {i : Nat} (started : k.started = true) (branch : k.branch = none)
      (here : k.here = some (i : Int)) : At k (i + 1)

def Control.fetched (k : Control) (place : Nat) : Control :=
  { k with started := true, branch := none, here := some (place : Int) }

def Silent (cs : List Command) (t i : Nat) : Prop :=
  ∀ j, t ≤ j → j < i → ∀ c, cs[j]? = some c → c.executable = false

theorem Silent.le {cs : List Command} {c : Command} {t i j : Nat} (silent : Silent cs t i)
    (after : t ≤ j) (there : cs[j]? = some c) (executable : c.executable = true) : i ≤ j := by
  by_contra before
  cases (silent j after (by omega) c there).symm.trans executable

variable {α : Type} {p : Program} {t i : Nat} {c : Command} {m m' : Machine}
  {x : Reply (Option Command)} {r : Reply Unit}

theorem commandFrom_nat (has : p.Has t c) : commandFrom p (t : Int) = .ok c := by
  have inside : ¬ (t : Int) < 0 := by omega
  simp only [commandFrom, if_neg inside, commandAt?, Int.toNat_natCast, has]

theorem seek_eq (count t : Nat) (size : t + count = p.commands.length) :
    (∃ i c, t ≤ i ∧ p.Has i c ∧ c.executable = true ∧ Silent p.commands t i ∧
        seek p count (t : Int) = .ok (some ((i : Int), c))) ∨
      (Silent p.commands t p.commands.length ∧ seek p count (t : Int) = .ok none) := by
  induction count generalizing t with
  | zero =>
    refine .inr ⟨?_, rfl⟩
    intro j low below
    omega
  | succ count ih =>
    obtain ⟨c, has⟩ : ∃ c, p.Has t c := ⟨_, List.getElem?_eq_getElem (by omega)⟩
    unfold seek
    rw [commandFrom_nat has]
    by_cases executable : c.executable = true
    · refine .inl ⟨t, c, Nat.le_refl t, has, executable, ?_, ?_⟩
      · intro j low below
        omega
      · show (if c.executable then _ else _) = _
        rw [if_pos executable]
        rfl
    · have silent {i : Nat} (rest : Silent p.commands (t + 1) i) : Silent p.commands t i := by
        intro j low below d at_j
        rcases Nat.eq_or_lt_of_le low with rfl | later
        · cases has.symm.trans at_j
          simpa using executable
        · exact rest j later below d at_j
      have next : seek p count ((t : Int) + 1) = seek p count ((t + 1 : Nat) : Int) := by
        push_cast; rfl
      have skip : (do
          let c ← Except.ok c
          if c.executable then return some ((t : Int), c) else seek p count ((t : Int) + 1) :
            Except Fault (Option (Int × Command))) = seek p count ((t + 1 : Nat) : Int) := by
        rw [← next]
        show (if c.executable then _ else _) = _
        rw [if_neg executable]
      rcases ih (t + 1) (by omega) with ⟨i, d, low, at_i, executable', rest, out⟩ | ⟨rest, out⟩
      · exact .inl ⟨i, d, by omega, at_i, executable', silent rest, skip.trans out⟩
      · exact .inr ⟨silent rest, skip.trans out⟩

theorem seek_from (p : Program) (t : Nat) :
    (∃ i c, t ≤ i ∧ p.Has i c ∧ c.executable = true ∧ Silent p.commands t i ∧
        seek p ((p.commands.length : Int) - t).toNat (t : Int) = .ok (some ((i : Int), c))) ∨
      (Silent p.commands t p.commands.length ∧
        seek p ((p.commands.length : Int) - t).toNat (t : Int) = .ok none) := by
  rcases Nat.lt_or_ge p.commands.length t with beyond | within
  · have count : ((p.commands.length : Int) - t).toNat = 0 := by omega
    rw [count]
    refine .inr ⟨fun j low below => ?_, rfl⟩
    omega
  · have count : ((p.commands.length : Int) - t).toNat = p.commands.length - t := by omega
    rw [count]
    exact seek_eq _ t (by omega)

theorem ran_target {x : Reply Int} [p.Fresh] (comes : m.control.At t)
    (ran : Ran (target p) m x m') :
    x = .ok (t : Int) ∧ m'.control = { m.control with started := true, branch := none } := by
  have ran := ran_get_bind ran
  cases comes with
  | start fresh branch =>
    have fresh : m.started = false := fresh
    have branch : m.branch = none := branch
    simp only [fresh] at ran
    obtain ⟨rfl, rfl⟩ := Prod.mk.inj ran
    exact ⟨by rw [p.fresh]; rfl, by simp [Machine.control, branch]⟩
  | branch started branch =>
    have started : m.started = true := started
    have branch : m.branch = some t := branch
    simp only [started, branch] at ran
    obtain ⟨rfl, rfl⟩ := Prod.mk.inj ran
    exact ⟨rfl, by simp [Machine.control, started]⟩
  | @after i started branch here =>
    have started : m.started = true := started
    have branch : m.branch = none := branch
    have here : m.Here i := here
    simp only [started, branch, here] at ran
    obtain ⟨rfl, rfl⟩ := Prod.mk.inj ran
    exact ⟨by push_cast; rfl, by simp [Machine.control, started, branch]⟩

theorem ran_next [p.Fresh] (comes : m.control.At t) (ran : Ran (next p) m x m') :
    (m.stopped = true ∧ x = .ok none ∧ m' = m) ∨
    (m.stopped = false ∧ ∃ i c, t ≤ i ∧ p.Has i c ∧ c.executable = true ∧ Silent p.commands t i ∧
      x = .ok (some c) ∧ m'.control = m.control.fetched i) ∨
    (m.stopped = false ∧ Silent p.commands t p.commands.length ∧ x = .ok none ∧
      m'.control = m.control.fetched p.commands.length) := by
  have ran := ran_get_bind ran
  split at ran
  · rename_i stopped
    obtain ⟨rfl, rfl⟩ := ran_pure ran
    exact .inl ⟨stopped, rfl, rfl⟩
  · rename_i running
    have running : m.stopped = false := by simpa using running
    rcases ran_bind ran with ⟨e, _, failed⟩ | ⟨place, m₁, aimed, ran⟩
    · cases (ran_target comes failed).1
    obtain ⟨same, control⟩ := ran_target comes aimed
    cases same
    rcases seek_from p t with ⟨i, c, low, at_i, executable, silent, out⟩ | ⟨silent, out⟩
    · rw [out] at ran
      obtain ⟨rfl, rfl⟩ := Prod.mk.inj ran
      refine .inr (.inl ⟨running, i, c, low, at_i, executable, silent, rfl, ?_⟩)
      show { m₁.control with here := some (i : Int) } = _
      rw [control]
      rfl
    · rw [out] at ran
      obtain ⟨rfl, rfl⟩ := Prod.mk.inj ran
      refine .inr (.inr ⟨running, silent, rfl, ?_⟩)
      show { m₁.control with here := some (p.commands.length : Int) } = _
      rw [control]
      rfl

theorem seek_found {count : Nat} {place j : Int} (found : seek p count place = .ok (some (j, c))) :
    commandFrom p j = .ok c := by
  induction count generalizing place with
  | zero => cases found
  | succ count ih =>
    unfold seek at found
    cases command : commandFrom p place with
    | error f => rw [command] at found; cases found
    | ok d =>
      rw [command] at found
      have found : (if d.executable then .ok (some (place, d)) else seek p count (place + 1)) =
        (.ok (some (j, c)) : Except Fault (Option (Int × Command))) := found
      split at found
      · cases found
        exact command
      · exact ih found

theorem command_of_fetched (ran : Ran (next p) m (.ok (some c)) m') :
    ∃ j, m'.here = some j ∧ commandFrom p j = .ok c := by
  have ran := ran_get_bind ran
  split at ran
  · cases (ran_pure ran).1
  rcases ran_bind ran with ⟨_, wrong, _⟩ | ⟨place, m₁, _, ran⟩
  · cases wrong
  rcases ran_bind ran with ⟨_, wrong, _⟩ | ⟨out, m₂, sought, ran⟩
  · cases wrong
  obtain ⟨_, ⟨_, found, same⟩ | ⟨_, _, wrong⟩⟩ := ran_orFault sought
  case inr => cases wrong
  cases same
  cases out with
  | none => cases (Prod.mk.inj ran).1
  | some hit =>
    obtain ⟨same, rfl⟩ := Prod.mk.inj ran
    cases same
    exact ⟨_, rfl, seek_found found⟩

theorem Fetched.command (fetched : Fetched p m i c m') : p.Has i c := by
  obtain ⟨j, here, found⟩ := command_of_fetched fetched.ran
  cases here.symm.trans fetched.here
  have inside : ¬ (i : Int) < 0 := by omega
  simp only [commandFrom, if_neg inside, commandAt?, Int.toNat_natCast] at found
  split at found
  · rename_i there
    cases found
    exact there
  · cases found

theorem next_keeps (ran : Ran (next p) m x m') :
    m'.vars = m.vars ∧ m'.call = m.call ∧ m'.outer = m.outer ∧ ∀ n, m'.branch = some n →
      m.branch = some n := by
  have aims {x : Reply Int} {m' : Machine} (ran : Ran (target p) m x m') :
      m'.vars = m.vars ∧ m'.call = m.call ∧ m'.outer = m.outer ∧ ∀ n, m'.branch = some n →
      m.branch = some n := by
    have ran := ran_get_bind ran
    split at ran
    · obtain ⟨_, rfl⟩ := Prod.mk.inj ran
      exact ⟨rfl, rfl, rfl, fun _ same => same⟩
    · split at ran
      · obtain ⟨_, rfl⟩ := Prod.mk.inj ran
        exact ⟨rfl, rfl, rfl, nofun⟩
      · obtain ⟨_, rfl⟩ := ran_pure ran
        exact ⟨rfl, rfl, rfl, fun _ same => same⟩
  have ran := ran_get_bind ran
  split at ran
  · obtain ⟨_, rfl⟩ := ran_pure ran
    exact ⟨rfl, rfl, rfl, fun _ same => same⟩
  · rcases ran_bind ran with ⟨e, _, failed⟩ | ⟨place, m₁, aimed, ran⟩
    · exact aims failed
    have kept := aims aimed
    rcases ran_bind ran with ⟨e, _, failed⟩ | ⟨found, m₂, sought, ran⟩
    · obtain ⟨rfl, _⟩ := ran_orFault failed
      exact kept
    · obtain ⟨rfl, _⟩ := ran_orFault sought
      cases found with
      | none =>
        obtain ⟨_, rfl⟩ := Prod.mk.inj ran
        exact kept
      | some hit =>
        obtain ⟨_, rfl⟩ := Prod.mk.inj ran
        exact kept

theorem calls_of_next (ran : Ran (next p) m x m') : m'.calls = m.calls := by
  obtain ⟨_, call, outer, _⟩ := next_keeps ran
  rw [Machine.calls, call, outer]
  rfl

def Control.resuming (k : Control) : Bool := decide (k.resume.isSome ∧ k.resume = k.here)

theorem run_located (a : Action α) (m : Machine) : (located a).run.run m = match a.run.run m with
    | (.ok x, n) => (.ok x, n)
    | (.error e, n) => (.error (e.locate n.here), n) := by
  simp only [located, tryCatchThe, MonadExceptOf.tryCatch, ExceptT.tryCatch, ExceptT.run_mk,
    StateT.run_bind]
  change (StateT.run (ExceptT.run a) m >>= _) = _
  generalize StateT.run (ExceptT.run a) m = out
  obtain ⟨r, n⟩ := out
  cases r <;> rfl

theorem ran_located {a : Action α} {r : Reply α} (ran : Ran (located a) m r m') :
    ∃ r', Ran a m r' m' ∧ r = r'.mapError (·.locate m'.here) := by
  unfold Ran at ran
  rw [run_located] at ran
  rcases first : a.run.run m with ⟨r', n⟩
  rw [first] at ran
  cases r' with
  | ok x =>
    obtain ⟨rfl, rfl⟩ := Prod.mk.inj ran
    exact ⟨.ok x, first, rfl⟩
  | error e =>
    obtain ⟨rfl, rfl⟩ := Prod.mk.inj ran
    exact ⟨.error e, first, rfl⟩

theorem ran_execute {v : Verb} (verb : c.verb? = some v) (ran : Ran (execute p c) m r m') :
    ∃ r', r = r'.mapError (·.locate m'.here) ∧ Ran (perform p c m.control.resuming v)
      { m with resume := none } r' m' := by
  unfold execute at ran
  rw [verb] at ran
  have ran := ran_get_bind ran
  rcases ran_bind ran with ⟨e, _, failed⟩ | ⟨_, m₁, cleared, ran⟩
  · cases (ran_set failed).1
  obtain ⟨_, rfl⟩ := ran_set cleared
  obtain ⟨r', inner, rfl⟩ := ran_located ran
  exact ⟨r', rfl, inner⟩

theorem Dispatched.performs {v : Verb} (verb : c.verb? = some v)
    (dispatched : Dispatched p c m r m') :
    ∃ r', r = r'.mapError (·.locate m'.here) ∧ Ran (perform p c m.control.resuming v)
      { m with resume := none } r' m' := by
  cases dispatched with
  | host none _ => cases none.symm.trans verb
  | control _ ran => exact ran_execute verb ran

theorem ran_dispatch {r : Reply (Option String)} (ran : Ran (Host.dispatch p c) m r m') :
    (∃ r', c.verb?.isSome = true ∧ Ran (execute p c) m r' m' ∧ r = r'.map fun _ => none) ∨
      c.verb? = none ∧ Ran (Host.perform p c) m r m' := by
  unfold Host.dispatch at ran
  split at ran
  · rename_i verb
    rcases ran_bind ran with ⟨e, rfl, failed⟩ | ⟨_, _, done, ran⟩
    · exact .inl ⟨_, verb, failed, rfl⟩
    · obtain ⟨rfl, rfl⟩ := ran_pure ran
      exact .inl ⟨_, verb, done, rfl⟩
  · rename_i verb
    exact .inr ⟨by simpa using verb, ran⟩

/-- What the command at the place `i` does to control: nothing if it is one for the host, else a
move of its verb. -/
inductive Acted (p : Program) (i : Nat) (k k' : Control) : Except Failure Unit → Prop
  | host {r : Reply Unit} (silent : verbAt p.commands i = none) (same : k' = k) : Acted p i k k' r
  | moves {v : Verb} (verb : p.Does i v)
      (move : Move p i k.resuming { k with resume := none } v (.ok ()) k') : Acted p i k k' (.ok ())
  | fails {v : Verb} {e e' : Failure} {here : Option Int} (verb : p.Does i v)
      (move : Move p i k.resuming { k with resume := none } v (.error e) k')
      (located : e' = e.locate here) : Acted p i k k' (.error e')

theorem Dispatched.acted [p.Faithful] (fits : m.control.Fits p.outline) (here : m.Here i)
    (has : p.Has i c) (dispatched : Dispatched p c m r m') : Acted p i m.control m'.control r := by
  cases dispatched with
  | host silent same => exact .host (by simp [verbAt, has, silent]) same
  | control verb ran =>
    obtain ⟨v, verb⟩ := Option.isSome_iff_exists.mp verb
    have at_verb := verbAt_of_at has verb
    obtain ⟨r', rfl, inner⟩ := ran_execute verb ran
    have move := perform_move (m := { m with resume := none }) fits here at_verb inner
    cases r' with
    | ok _ => exact .moves at_verb move
    | error e => exact .fails at_verb move rfl

end Runbook
