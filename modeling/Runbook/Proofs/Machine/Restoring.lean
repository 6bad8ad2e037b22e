import Runbook.Proofs.Machine.Layers

/-!
Scopes. A loop or a call takes a snapshot of its local names when it begins. However the blocks and
calls above a layer are left, each name that one of them had taken is again what it was when the
lowest of these took it, defined or not. All other names and all layers beneath are untouched.
-/

namespace Runbook

open Runbook.Action List

/-- The names of which a layer took a snapshot, and the variables at that moment. -/
structure Moment where
  names : List String := []
  vars : Env := []

def Moment.snapshot (t : Moment) : Snapshot := t.vars.capture t.names

inductive Unwinding
  | block
  | blocksTo (wanted : Frame → Except Fault Bool)
  | call
  | layersTo (wanted : Frame → Except Fault Bool)
  | counted (calls blocks : Nat)

namespace Unwinding

def act (p : Program) : Unwinding → Action Unit
  | .block => do let _ ← pop
  | .blocksTo wanted => do let _ ← unwind wanted
  | .call => do let _ ← popCall p
  | .layersTo wanted => do let _ ← unwindCalls p wanted (← get).outer
  | .counted calls blocks => do
    popCalls p calls
    popBlocks blocks

/-- What is left, topmost first. The outermost call always stays. -/
def popped (m : Machine) : Unwinding → List StackLayer
  | .block => (m.call.blocks.take 1).map .block
  | .blocksTo wanted => (m.call.blocks.map StackLayer.block).takeWhile (StackLayer.passes wanted)
  | .call => (m.calls.dropLast.take 1).flatMap Call.layers
  | .layersTo wanted => m.layers.dropLast.takeWhile (StackLayer.passes wanted)
  | .counted calls blocks =>
    (m.calls.dropLast.take calls).flatMap Call.layers ++
      ((m.calls.drop calls).take 1).flatMap fun c => (c.blocks.take blocks).map .block

variable {α : Type} {p : Program} {m m' : Machine} {r : Reply Unit}

theorem ran_discard {a : Action α} (ran : Ran (do let _ ← a) m r m') : ∃ r, Ran a m r m' := by
  rcases ran_bind ran with ⟨e, _, failed⟩ | ⟨x, _, done, ran⟩
  · exact ⟨_, failed⟩
  · obtain ⟨_, rfl⟩ := ran_pure ran
    exact ⟨_, done⟩

theorem unwound_counted {calls blocks : Nat}
    (ran : Ran (do popCalls p calls; popBlocks blocks) m r m') :
    m.Unwound (popped m (.counted calls blocks)) m' := by
  have nothing (beyond : m.outer.length < calls) : m.calls.drop calls = [] :=
    drop_eq_nil_of_le (by rw [Machine.calls, length_cons]; omega)
  rcases ran_bind ran with ⟨e, _, failed⟩ | ⟨_, m₁, done, ran⟩
  · obtain ⟨left, ⟨wrong, _⟩ | ⟨beyond, _⟩⟩ := unwound_popCalls failed
    · cases wrong
    · simpa [popped, nothing beyond] using left
  · obtain ⟨left, ⟨_, rest⟩ | ⟨_, _, wrong⟩⟩ := unwound_popCalls done
    · have further := unwound_popBlocks ran
      have active : (m.calls.drop calls).take 1 = [m₁.call] := by rw [← rest]; rfl
      simpa [popped, active] using left.trans further
    · cases wrong

theorem unwound (u : Unwinding) (ran : Ran (u.act p) m r m') : m.Unwound (u.popped m) m' := by
  cases u with
  | block =>
    obtain ⟨_, ran⟩ := ran_discard ran
    cases top : m.call.blocks with
    | nil =>
      rw [ran_pop_empty ran top, popped, top]
      exact .refl
    | cons f rest =>
      rw [popped, top]
      exact (unwound_pop ran top).2.1
  | blocksTo wanted =>
    obtain ⟨_, ran⟩ := ran_discard ran
    exact (unwound_unwind ran).1
  | call =>
    obtain ⟨_, ran⟩ := ran_discard ran
    cases around : m.outer with
    | nil =>
      rw [ran_popCall_alone ran around, popped, Machine.calls, around]
      exact .refl
    | cons next outer =>
      rw [popped, Machine.calls, around]
      simpa using (unwound_popCall ran around).2.1
  | layersTo wanted =>
    obtain ⟨_, ran⟩ := ran_discard (ran_get_bind ran)
    exact (unwound_unwindCalls ran rfl).1
  | counted calls blocks => exact unwound_counted ran

end Unwinding

/-- Blocks and calls are left in one way after the other; `gone` are all of them, topmost first. -/
inductive Machine.Leaves (p : Program) : Machine → List StackLayer → Machine → Prop
  | none (m : Machine) : Leaves p m [] m
  | step {m m₁ m' : Machine} {more : List StackLayer} {r : Except Failure Unit} (u : Unwinding)
      (ran : Ran (u.act p) m r m₁) (rest : Leaves p m₁ more m') : Leaves p m (u.popped m ++ more) m'

theorem Machine.Leaves.unwound {p : Program} {m m' : Machine} {gone : List StackLayer}
    (leaves : m.Leaves p gone m') : m.Unwound gone m' := by
  induction leaves with
  | none m => exact .refl
  | step u ran _ ih => exact (u.unwound ran).trans ih

/-- A machine whose layers took their snapshots at these moments, topmost first. -/
inductive Machine.Stacked (p : Program) : List Moment → Machine → Prop
  | start {m : Machine} (alone : m.calls = [{}]) : Stacked p [{}] m
  | work {ts : List Moment} {m m' : Machine} (before : Stacked p ts m)
      (same : m'.layers.map StackLayer.saved = m.layers.map StackLayer.saved) : Stacked p ts m'
  | block {ts : List Moment} {m m' : Machine} {r : Except Failure Unit} {place : Nat} {body : Body}
      (before : Stacked p ts m) (ran : Ran (push { place := place, body := body }) m r m') :
      Stacked p ({} :: ts) m'
  | loop {t : Moment} {ts : List Moment} {m m' : Machine} {r : Except Failure Unit}
      {names : List String} (before : Stacked p (t :: ts) m) (inside : m.call.blocks ≠ [])
      (ran : Ran (change fun f => { f with saved := m.vars.capture names }) m r m') :
      Stacked p (⟨names, m.vars⟩ :: ts) m'
  | call {ts : List Moment} {m m₁ m' : Machine} {r : Except Failure Unit} {c : Call}
      {names : List String} (before : Stacked p ts m)
      (same : m₁.layers.map StackLayer.saved = m.layers.map StackLayer.saved)
      (ran : Ran (pushCall { c with saved := m.vars.capture names, blocks := [] }) m₁ r m') :
      Stacked p (⟨names, m.vars⟩ :: ts) m'
  | left {ts : List Moment} {m m' : Machine} {gone : List StackLayer} (before : Stacked p ts m)
      (leaves : m.Leaves p gone m') : Stacked p (ts.drop gone.length) m'

section Stacked

variable {p : Program} {ts : List Moment} {m m' : Machine} {gone : List StackLayer}

theorem Machine.Stacked.snapshots (stacked : m.Stacked p ts) :
    m.layers.map StackLayer.saved = ts.map Moment.snapshot := by
  induction stacked with
  | start alone =>
    rw [Machine.layers, alone]
    rfl
  | work _ same ih => rw [same, ih]
  | block _ ran ih =>
    obtain ⟨_, rfl⟩ := Prod.mk.inj ran
    rw [layers_block rfl, map_cons, map_cons, ← ih]
    rfl
  | loop _ inside ran ih =>
    obtain ⟨f, rest, top⟩ := exists_cons_of_ne_nil inside
    unfold Ran at ran
    rw [run_change, top] at ran
    obtain ⟨_, rfl⟩ := Prod.mk.inj ran
    rw [layers_block top, map_cons, map_cons] at ih
    rw [layers_block rfl, map_cons, map_cons, ← (cons.inj ih).2]
    rfl
  | call _ same ran ih =>
    obtain ⟨_, rfl⟩ := Prod.mk.inj ran
    rw [layers_call rfl, map_append, map_cons, ← ih, ← same]
    rfl
  | left _ leaves ih =>
    rw [leaves.unwound.layers, map_append] at ih
    rw [map_drop, ← ih, drop_left' (length_map _)]

theorem Machine.Stacked.taken (stacked : m.Stacked p ts) (leaves : m.Leaves p gone m') :
    gone.map StackLayer.saved = (ts.take gone.length).map Moment.snapshot := by
  have all := stacked.snapshots
  rw [leaves.unwound.layers, map_append] at all
  rw [map_take, ← all, take_left' (length_map _)]

/-- Scopes are restored by unwinding. -/
theorem unwinding_restores (stacked : m.Stacked p ts) (leaves : m.Leaves p gone m') :
    m.layers = gone ++ m'.layers ∧ ts.map Moment.snapshot = m.layers.map StackLayer.saved ∧
      (∀ name above t below, ts.take gone.length = above ++ t :: below → name ∈ t.names →
        (∀ s ∈ below, name ∉ s.names) →
        m'.vars.get? name = t.vars.get? name) ∧
      ∀ name, (∀ t ∈ ts.take gone.length, name ∉ t.names) →
        m'.vars.get? name = m.vars.get? name := by
  have taken := stacked.taken leaves
  have vars := leaves.unwound.vars
  rw [taken] at vars
  have distinct : ∀ saved ∈ (ts.take gone.length).map Moment.snapshot, saved.names.Nodup :=
    forall_mem_map.mpr fun t _ => Env.capture_nodup
  have other {t : Moment} {name : String} (free : name ∉ t.names) : name ∉ t.snapshot.names :=
    fun mem => free (Env.mem_names_capture.mp mem)
  refine ⟨leaves.unwound.layers, stacked.snapshots.symm, ?_, ?_⟩
  · intro name above t below split mem lowest
    have parts : (ts.take gone.length).map Moment.snapshot =
        above.map Moment.snapshot ++ t.vars.capture t.names :: below.map Moment.snapshot := by
      rw [split, map_append, map_cons]
      rfl
    rw [vars]
    exact Env.get?_foldl_restore_lowest distinct parts mem
      (forall_mem_map.mpr fun s present => other (lowest s present))
  · intro name free
    rw [vars]
    exact Env.get?_foldl_restore distinct
      (forall_mem_map.mpr fun t present => other (free t present))

end Stacked

def loopsAcrossCall : Machine :=
  let outer : Frame :=
    { place := 0, saved := [("x", some (.int 1)), ("_i", none)], body := .loop { kind := .items } }
  let inner : Frame :=
    { place := 5, saved := [("y", none), ("_i", some (.int 0))], body := .loop { kind := .items } }
  { vars := [("x", .int 3), ("_i", .int 7), ("y", .int 8), ("z", .int 9)]
    call := { saved := [("x", some (.int 2))], blocks := [inner, { place := 4, body := .cond {} }] }
    outer := [{ blocks := [outer] }] }

theorem unwinding_restores_loopsAcrossCall :
    ∃ ts gone m', loopsAcrossCall.Stacked { commands := [] } ts ∧
    loopsAcrossCall.Leaves { commands := [] } gone m' ∧ gone.length = 4 ∧ m'.layers.length = 1 ∧
    m'.vars.get? "x" = some (.int 1) ∧ m'.vars.get? "_i" = none ∧ m'.vars.get? "y" = none ∧
      m'.vars.get? "z" = some (.int 9) := by
  let p : Program := { commands := [] }
  let loop : Body := .loop { kind := .items }
  let inLoop : Env := [("x", .int 2), ("_i", .int 0)]
  let inCall : Env := [("x", .int 3), ("_i", .int 0)]
  let below : Call :=
    { blocks := [{ place := 0, saved := [("x", some (.int 1)), ("_i", none)], body := loop }] }
  have begun : Machine.Stacked p [{}] { vars := [("x", .int 1)] } := .start rfl
  have opened := @Machine.Stacked.block p _ _ _ _ 0 loop begun rfl
  have looping := @Machine.Stacked.loop p _ _ _ _ _ ["x", "_i"] opened nofun rfl
  have inside :
      Machine.Stacked p [⟨["x", "_i"], [("x", .int 1)]⟩, {}] { vars := inLoop, call := below } :=
    looping.work rfl
  have called := @Machine.Stacked.call p _ _ { vars := inCall, call := below } _ _ {}
    ["x"] inside rfl rfl
  have chosen := @Machine.Stacked.block p _ _ _ _ 4 (.cond {}) called rfl
  have again := @Machine.Stacked.loop p _ _ _ _ _ ["y", "_i"]
    (@Machine.Stacked.block p _ _ _ _ 5 loop chosen rfl) nofun rfl
  have stacked : loopsAcrossCall.Stacked p
      [⟨["y", "_i"], inCall⟩, {}, ⟨["x"], inLoop⟩, ⟨["x", "_i"], [("x", .int 1)]⟩, {}] :=
      again.work rfl
  have leaves := Machine.Leaves.step (m := loopsAcrossCall) (p := p) (.counted 1 1) rfl (.none _)
  obtain ⟨_, _, restored, kept⟩ := unwinding_restores stacked leaves
  refine ⟨_, _, _, stacked, leaves, rfl, rfl, ?_, ?_, ?_, ?_⟩
  · exact restored "x" [_, _, _] _ [] rfl (by simp) nofun
  · exact restored "_i" [_, _, _] _ [] rfl (by simp) nofun
  · exact restored "y" [] _ [_, _, _] rfl (by simp) (by simp)
  · exact kept "z" (by simp [Unwinding.popped, loopsAcrossCall, Machine.calls, Call.layers])

end Runbook
