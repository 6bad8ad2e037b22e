import Runbook.Proofs.Machine.Control
import Runbook.Proofs.Structured.Meaning

namespace Runbook.Action

variable {α β : Type} {a : Action α} {m : Machine} {place : Nat} {f : α → Action β} {p : Program}
  {text : String} {format : Format}

/-- Run from a machine, whatever its logs, an action gives a result and another machine, whatever
its logs. -/
def Yields (a : Action α) (m : Machine) (r : Except Failure α) (m' : Machine) : Prop :=
  ∀ logs, ∃ logs', Ran a { m with logs := logs } r { m' with logs := logs' }

section Composition

variable {a : Action α} {f : α → Action β} {m m₁ m' : Machine} {r : Except Failure β} {x : α}
  {e : Failure} {level : Level} {topic : Topic} {message : String} {locals : Option (List String)}
  {depth : Option Nat}

theorem yields_pure : Yields (pure x) m (.ok x) m := fun logs => ⟨logs, rfl⟩

theorem yields_throw : Yields (throw e : Action α) m (.error e) m := fun logs => ⟨logs, rfl⟩

theorem Yields.bind (first : Yields a m (.ok x) m₁) (rest : Yields (f x) m₁ r m') :
    Yields (a >>= f) m r m' := by
  intro logs
  obtain ⟨logs₁, ran⟩ := first logs
  obtain ⟨logs', ran'⟩ := rest logs₁
  refine ⟨logs', ?_⟩
  unfold Ran at ran ran' ⊢
  rw [run_bind, ran]
  exact ran'

theorem Yields.fail (first : Yields a m (.error e) m') : Yields (a >>= f) m (.error e) m' := by
  intro logs
  obtain ⟨logs', ran⟩ := first logs
  refine ⟨logs', ?_⟩
  unfold Ran at ran ⊢
  rw [run_bind, ran]

theorem Yields.get {f : Machine → Action β}
    (rest : ∀ logs, Yields (f { m with logs := logs }) m r m') :
    Yields (get >>= f) m r m' := fun logs => rest logs logs

theorem yields_modify {how : Machine → Machine}
    (same : ∀ logs, how { m with logs := logs } = { m' with logs := logs }) :
    Yields (modify how) m (.ok ()) m' := by
  intro logs
  refine ⟨logs, ?_⟩
  rw [← same logs]
  rfl

theorem yields_log : Yields (logEvent level topic message locals depth) m (.ok ()) m :=
  fun _ => ⟨_, rfl⟩

theorem Yields.after_log {next : Action β} (rest : Yields next m r m') :
    Yields (logEvent level topic message locals depth >>= fun _ => next) m r m' :=
  yields_log.bind rest

theorem yields_orFault (x : α) (m : Machine) : Yields (orFault (.ok x)) m (.ok x) m := yields_pure

theorem Yields.unique {r₁ : Reply β} {m₂ : Machine} {b : Action β} (first : Yields b m r m₁)
    (second : Yields b m r₁ m₂) : r = r₁ := by
  obtain ⟨_, ran⟩ := first #[]
  obtain ⟨_, ran'⟩ := second #[]
  exact (Prod.mk.inj (ran.symm.trans ran')).1

def Alike (a : Action α) (m : Machine) (b : Action α) (n : Machine) : Prop :=
  ∀ logs, ∃ logs', a.run.run { m with logs := logs } = b.run.run { n with logs := logs' }

section

variable {b c : Action α} {n l : Machine} {r : Reply α}

theorem Alike.refl : Alike a m a m := fun logs => ⟨logs, rfl⟩

theorem Alike.trans (first : Alike a m b n) (second : Alike b n c l) : Alike a m c l := by
  intro logs
  obtain ⟨logs₁, same⟩ := first logs
  obtain ⟨logs₂, same'⟩ := second logs₁
  exact ⟨logs₂, same.trans same'⟩

theorem Alike.yields (alike : Alike a m b n) (yields : Yields b n r m') : Yields a m r m' := by
  intro logs
  obtain ⟨logs₁, same⟩ := alike logs
  obtain ⟨logs₂, ran⟩ := yields logs₁
  exact ⟨logs₂, same.trans ran⟩

theorem Alike.bind (alike : Alike a m b n) (f : α → Action β) : Alike (a >>= f) m (b >>= f) n := by
  intro logs
  obtain ⟨logs', same⟩ := alike logs
  exact ⟨logs', by rw [run_bind, run_bind, same]⟩

theorem Yields.alike {x : α} (first : Yields a m (.ok x) m₁) : Alike (a >>= f) m (f x) m₁ := by
  intro logs
  obtain ⟨logs', ran⟩ := first logs
  unfold Ran at ran
  exact ⟨logs', by rw [run_bind, ran]⟩

end

end Composition

section Blocks

variable {p : Program} {m : Machine} {f : Frame} {rest : List Frame}

theorem yields_blocks : Yields blocks m (.ok m.call.blocks) m := fun logs => ⟨logs, rfl⟩

theorem yields_push :
    Yields (push f) m (.ok ()) { m with call := { m.call with blocks := f :: m.call.blocks } } :=
  fun logs => ⟨logs, rfl⟩

theorem yields_pop (top : m.Top f rest) :
    Yields pop m (.ok f)
    { m with call := { m.call with blocks := rest }, vars := m.vars.restore f.saved } :=
  fun logs => ⟨logs, run_pop_top top⟩

theorem yields_change {how : Frame → Frame} (top : m.Top f rest) :
    Yields (change how) m (.ok ()) { m with call := { m.call with blocks := how f :: rest } } :=
  fun logs => ⟨logs, run_change_top top⟩

theorem yields_expectTop (top : m.Top f rest) : Yields (expectTop p f.place) m (.ok f) m :=
  fun logs => ⟨logs, run_expectTop top⟩

theorem yields_popCall {next : Call} {rest : List Call} (outer : m.outer = next :: rest) :
    Yields (popCall p) m (.ok m.call)
    { m with call := next, outer := rest, vars := m.call.release m.vars } :=
  fun logs => ⟨logs, run_popCall outer⟩

end Blocks

section Places

variable {p : Program} {m : Machine} {i : Nat}

theorem yields_openerHere {form : Form} {last : Nat} (here : m.Here i)
    (block : p.outline.block? i = some (.opener form last)) :
    Yields (openerHere p) m (.ok (i, form, last)) m :=
  fun logs => ⟨logs, run_openerHere here block⟩

theorem yields_ownerHere {owner : Nat} (here : m.Here i)
    (block : p.outline.block? i = some (.partner owner)) :
    Yields (ownerHere p) m (.ok owner) m := fun logs => ⟨logs, run_ownerHere here block⟩

theorem yields_branchTo (bound : place < p.commands.length) :
    Yields (branchTo p (place : Int)) m (.ok ()) { m with branch := some place } :=
  fun logs => ⟨logs, run_branchTo bound⟩

end Places

/-- An action that reads and changes the variables alone; it may ask for the place and add to the
logs. -/
def VarsOnly (a : Action α) : Prop :=
  ∀ (m : Machine) (place : Int), m.here = some place → ∃ logs,
    Ran a m (effect a place m.vars).1 { m with vars := (effect a place m.vars).2, logs := logs }

theorem VarsOnly.yields (only : VarsOnly a) (here : m.Here place) :
    Yields a m (effect a place m.vars).1 { m with vars := (effect a place m.vars).2 } :=
  fun logs => only { m with logs := logs } place here

theorem effect_of_ran {place : Int} {vars : Env} {r : Reply α}
    (ran : Ran a { vars := vars, here := some place } r m) : effect a place vars = (r, m.vars) := by
  unfold effect
  unfold Ran at ran
  rw [ran]

theorem effect_bind (first : VarsOnly a) (rest : ∀ x, VarsOnly (f x)) (place : Int) (vars : Env) :
    effect (a >>= f) place vars = match effect a place vars with
      | (.ok x, vars) => effect (f x) place vars
      | (.error e, vars) => (.error e, vars) := by
  obtain ⟨logs, ran⟩ := first { vars := vars, here := some place } place rfl
  dsimp only at ran
  rcases out : effect a place vars with ⟨r, vars'⟩
  rw [out] at ran
  cases r with
  | error e =>
    have whole : Ran (a >>= f) { vars := vars, here := some place } (.error e)
        { vars := vars', here := some place, logs := logs } := by
      unfold Ran at ran ⊢
      rw [run_bind, ran]
    exact effect_of_ran whole
  | ok x =>
    obtain ⟨logs', ran'⟩ := rest x { vars := vars', here := some place, logs := logs } place rfl
    have whole : Ran (a >>= f) { vars := vars, here := some place } (effect (f x) place vars').1
        { vars := (effect (f x) place vars').2, here := some place, logs := logs' } := by
      unfold Ran at ran ran' ⊢
      rw [run_bind, ran]
      exact ran'
    rw [effect_of_ran whole]

theorem varsOnly_pure {x : α} : VarsOnly (pure x : Action α) := fun m _ _ => ⟨m.logs, rfl⟩

theorem varsOnly_throw {e : Failure} : VarsOnly (throw e : Action α) := fun m _ _ => ⟨m.logs, rfl⟩

theorem varsOnly_bind (first : VarsOnly a) (rest : ∀ x, VarsOnly (f x)) : VarsOnly (a >>= f) := by
  intro m place here
  obtain ⟨logs, ran⟩ := first m place here
  rw [effect_bind first rest]
  rcases out : effect a place m.vars with ⟨r, vars⟩
  rw [out] at ran
  cases r with
  | error e =>
    refine ⟨logs, ?_⟩
    unfold Ran at ran ⊢
    rw [run_bind, ran]
  | ok x =>
    obtain ⟨logs', ran'⟩ := rest x { m with vars := vars, logs := logs } place here
    refine ⟨logs', ?_⟩
    unfold Ran at ran ran' ⊢
    rw [run_bind, ran]
    exact ran'

theorem varsOnly_fault {f : Fault} : VarsOnly (fault f : Action α) := varsOnly_throw

theorem varsOnly_orFault {x : Except Fault α} : VarsOnly (orFault x) := by
  cases x with
  | ok a => exact varsOnly_pure
  | error f => exact varsOnly_fault

theorem varsOnly_orError {x : Except Error α} : VarsOnly (orError x) := by
  cases x with
  | ok a => exact varsOnly_pure
  | error e => exact varsOnly_throw

theorem varsOnly_get {f : Machine → Action β} (only : ∀ m, VarsOnly (f m))
    (same : ∀ m m' : Machine, m.here = m'.here → m.vars = m'.vars → f m = f m') :
    VarsOnly (get >>= f) := by
  intro m place here
  obtain ⟨logs, ran⟩ := only m m place here
  have bare : effect (get >>= f) place m.vars = effect (f m) place m.vars := by
    rw [same m { vars := m.vars, here := some (place : Int) } here rfl]
    rfl
  rw [bare]
  exact ⟨logs, ran⟩

theorem varsOnly_complain {kind : Kind} : VarsOnly (complain p kind text : Action α) := by
  unfold complain
  refine varsOnly_get (fun m => varsOnly_throw) fun m m' here _ => ?_
  simp only [here]

theorem varsOnly_eval : VarsOnly (eval p text) := by
  intro m place here
  refine ⟨m.logs, ?_⟩
  rcases out : p.evaluator text m.vars with ⟨result, vars⟩
  unfold effect Ran eval
  simp only [run_bind, run_get, run_set, here, out]
  rcases result with cause | v
  · cases cause <;> rfl
  · rfl

theorem varsOnly_holds : VarsOnly (holds p text) :=
  varsOnly_bind varsOnly_eval fun _ => varsOnly_pure

theorem varsOnly_assign {values : List (String × Value)} : VarsOnly (assign values) :=
  fun m _ _ => ⟨m.logs, rfl⟩

theorem varsOnly_textOf (v : Value) : VarsOnly (textOf p v) := varsOnly_orFault

theorem varsOnly_require {field : String} : VarsOnly (require p field text) := by
  unfold require
  split
  · exact varsOnly_complain
  · exact varsOnly_pure

theorem varsOnly_loadReader {target : String} : VarsOnly (loadReader p format target) := by
  unfold loadReader
  dsimp only
  split
  · exact varsOnly_pure
  · exact varsOnly_throw

theorem varsOnly_takeVarset {r : Reader} : VarsOnly (takeVarset r) :=
  varsOnly_bind varsOnly_orError fun _ => varsOnly_bind varsOnly_assign fun _ => varsOnly_pure

theorem varsOnly_seekVarset (p : Program) (selector : String) (count : Nat) (r : Reader) :
    VarsOnly (seekVarset p selector count r) := by
  induction count generalizing r with
  | zero => exact varsOnly_pure
  | succ count ih =>
    unfold seekVarset
    split
    · exact varsOnly_pure
    · refine varsOnly_bind varsOnly_takeVarset fun r => varsOnly_bind varsOnly_holds fun found => ?_
      split
      · exact varsOnly_pure
      · exact ih r

theorem varsOnly_loadVars (p : Program) (c : Command) : VarsOnly (loadVars p format c) := by
  refine varsOnly_bind varsOnly_require fun _ => varsOnly_bind varsOnly_loadReader fun _ =>
    varsOnly_bind varsOnly_takeVarset fun r => ?_
  split
  · unfold loadOnly
    split
    · exact varsOnly_complain
    · exact varsOnly_pure
  · refine varsOnly_bind varsOnly_eval fun v => ?_
    split
    · exact varsOnly_pure
    · refine varsOnly_bind (varsOnly_seekVarset p _ _ _) fun found => ?_
      split
      · exact varsOnly_complain
      · exact varsOnly_pure
    · exact varsOnly_complain

theorem varsOnly_argument (p : Program) : VarsOnly (argument p text) := by
  unfold argument
  refine varsOnly_get (fun m => ?_) fun m m' here _ => by simp only [here]
  dsimp only
  split
  · exact varsOnly_throw
  · exact varsOnly_complain
  · exact varsOnly_bind varsOnly_eval fun _ => varsOnly_pure

theorem varsOnly_arguments (p : Program) (text : String) : VarsOnly (arguments p text) := by
  unfold arguments
  generalize Split.list ',' text = texts
  generalize ([] : Record Value) = found
  induction texts generalizing found with
  | nil => exact varsOnly_pure
  | cons text rest ih => exact varsOnly_bind (varsOnly_argument p) fun _ => ih _

theorem varsOnly_applies (p : Program) (c : Command) : VarsOnly (Tree.applies p c) := by
  unfold Tree.applies
  split
  · exact varsOnly_pure
  · exact varsOnly_holds

theorem varsOnly_fill : VarsOnly (Host.fill p text) :=
  varsOnly_get (fun _ => varsOnly_orFault) fun _ _ _ vars => by simp only [vars]

theorem varsOnly_showLine : VarsOnly (Host.showLine p text) := by
  unfold Host.showLine
  split
  · exact varsOnly_pure
  · exact varsOnly_fault

theorem varsOnly_failWith {message : String} : VarsOnly (Host.failWith message : Action α) :=
  varsOnly_throw

theorem varsOnly_assertEval (p : Program) (c : Command) : VarsOnly (Host.assertEval p c) := by
  refine varsOnly_bind varsOnly_eval fun v => varsOnly_bind (varsOnly_textOf v) fun _ =>
    varsOnly_bind varsOnly_fill fun _ => ?_
  split
  · exact varsOnly_failWith
  · exact varsOnly_pure

theorem varsOnly_perform (p : Program) (c : Command) : VarsOnly (Host.perform p c) := by
  have silent {a : Action Unit} (only : VarsOnly a) :
      VarsOnly (do a; return none : Action (Option String)) :=
    varsOnly_bind only fun _ => varsOnly_pure
  unfold Host.perform
  split
  · exact silent (varsOnly_bind varsOnly_orError fun _ => varsOnly_bind varsOnly_fill fun _ =>
      varsOnly_assign)
  · exact silent (varsOnly_bind varsOnly_orError fun _ => varsOnly_bind varsOnly_eval fun _ =>
      varsOnly_assign)
  · exact varsOnly_bind varsOnly_eval fun _ => varsOnly_pure
  · exact silent (varsOnly_assertEval p c)
  · exact silent (varsOnly_bind varsOnly_fill fun _ => varsOnly_failWith)
  · refine varsOnly_bind varsOnly_fill fun text => varsOnly_bind varsOnly_showLine fun _ =>
      varsOnly_bind ?_ fun _ => varsOnly_pure
    exact fun m _ _ => ⟨_, rfl⟩
  · exact varsOnly_failWith

end Runbook.Action
