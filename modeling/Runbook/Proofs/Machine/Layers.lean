import Mathlib.Data.List.TakeWhile
import Runbook.Proofs.Machine.Working

namespace Runbook

open List

/-- An open block, or a call apart from its blocks. -/
inductive StackLayer
  | block (f : Frame)
  | call (c : Call)

namespace StackLayer

def saved : StackLayer → Snapshot
  | .block f => f.saved
  | .call c => c.saved

def passes (wanted : Frame → Except Fault Bool) : StackLayer → Bool
  | .block f => match wanted f with
    | .ok false => true
    | _ => false
  | .call _ => true

end StackLayer

def Call.layers (c : Call) : List StackLayer :=
  c.blocks.map .block ++ [.call { c with blocks := [] }]

/-- All layers of a machine, topmost first; the lowest one is the outermost call. -/
def Machine.layers (m : Machine) : List StackLayer := m.calls.flatMap Call.layers

/-- The layers `gone` were left, topmost first. The variables and logs apart, nothing else has
changed. -/
structure Machine.Drops (m : Machine) (gone : List StackLayer) (m' : Machine) : Prop where
  layers : m.layers = gone ++ m'.layers
  here : m'.here = m.here
  started : m'.started = m.started
  branch : m'.branch = m.branch
  stopped : m'.stopped = m.stopped
  resume : m'.resume = m.resume

/-- The layers `gone` were left, and each put its variables back. -/
structure Machine.Unwound (m : Machine) (gone : List StackLayer) (m' : Machine) :
    Prop extends Machine.Drops m gone m' where
  vars : m'.vars = (gone.map StackLayer.saved).foldl Env.restore m.vars

section Layers

variable {m m' m'' : Machine} {gone more : List StackLayer} {f : Frame} {rest : List Frame}
  {next : Call} {outer : List Call}

theorem layers_block (top : m.Top f rest) :
    m.layers = .block f :: { m with call := { m.call with blocks := rest } : Machine }.layers := by
  simp [Machine.layers, Machine.calls, Call.layers, top]

theorem layers_call (around : m.outer = next :: outer) :
    m.layers = m.call.layers ++ { m with call := next, outer := outer : Machine }.layers := by
  simp [Machine.layers, Machine.calls, around]

theorem layers_alone (alone : m.outer = []) : m.layers = m.call.layers := by
  simp [Machine.layers, Machine.calls, alone]

theorem layers_of_calls (same : m'.calls = m.calls) : m'.layers = m.layers := by
  rw [Machine.layers, same]; rfl

theorem layers_ne_nil : m.layers ≠ [] := by
  simp [Machine.layers, Machine.calls, Call.layers]

theorem calls_of_blocks {blocks blocks' : List Frame} {c c' : Call} {rest rest' : List StackLayer}
    (same : blocks.map StackLayer.block ++ .call c :: rest = blocks'.map StackLayer.block ++
      .call c' :: rest') :
    blocks = blocks' ∧ c = c' ∧ rest = rest' := by
  induction blocks generalizing blocks' with
  | nil =>
    cases blocks' with
    | nil => simpa using same
    | cons f blocks' => simp at same
  | cons f blocks ih =>
    cases blocks' with
    | nil => simp at same
    | cons f' blocks' =>
      simp only [map_cons, cons_append, List.cons.injEq, StackLayer.block.injEq] at same
      obtain ⟨rfl, same⟩ := same
      obtain ⟨rfl, others⟩ := ih same
      exact ⟨rfl, others⟩

theorem calls_of_layers {calls calls' : List Call}
    (same : calls.flatMap Call.layers = calls'.flatMap Call.layers) : calls = calls' := by
  induction calls generalizing calls' with
  | nil =>
    cases calls' with
    | nil => rfl
    | cons c calls' => simp [Call.layers] at same
  | cons c calls ih =>
    cases calls' with
    | nil => simp [Call.layers] at same
    | cons c' calls' =>
      simp only [flatMap_cons, Call.layers, append_assoc, singleton_append] at same
      obtain ⟨blocks, bare, others⟩ := calls_of_blocks same
      obtain rfl := ih others
      have whole : c = c' :=
        calc c = { { c with blocks := [] } with blocks := c.blocks } := rfl
          _ = { { c' with blocks := [] } with blocks := c'.blocks } := by rw [bare, blocks]
          _ = c' := rfl
      rw [whole]

theorem mem_frames_iff_layers : f ∈ m.frames ↔ .block f ∈ m.layers := by
  simp [Machine.frames, Machine.layers, Call.layers]

theorem Machine.Drops.refl : m.Drops [] m := ⟨rfl, rfl, rfl, rfl, rfl, rfl⟩

theorem Machine.Drops.trans (first : m.Drops gone m') (second : m'.Drops more m'') :
    m.Drops (gone ++ more) m'' where
  layers := by rw [first.layers, second.layers, append_assoc]
  here := second.here.trans first.here
  started := second.started.trans first.started
  branch := second.branch.trans first.branch
  stopped := second.stopped.trans first.stopped
  resume := second.resume.trans first.resume

theorem Machine.Drops.cancel (first : m.Drops more m'') (drops : m.Drops (more ++ gone) m') :
    m''.Drops gone m' where
  layers := by
    have whole := drops.layers
    rw [first.layers, append_assoc] at whole
    exact append_cancel_left whole
  here := drops.here.trans first.here.symm
  started := drops.started.trans first.started.symm
  branch := drops.branch.trans first.branch.symm
  stopped := drops.stopped.trans first.stopped.symm
  resume := drops.resume.trans first.resume.symm

theorem Machine.Drops.block (top : m.Top f rest) (vars : Env) :
    m.Drops [.block f] { m with call := { m.call with blocks := rest }, vars := vars } :=
  ⟨layers_block top, rfl, rfl, rfl, rfl, rfl⟩

theorem Machine.Drops.call (around : m.outer = next :: outer) (vars : Env) :
    m.Drops m.call.layers { m with call := next, outer := outer, vars := vars } :=
  ⟨layers_call around, rfl, rfl, rfl, rfl, rfl⟩

theorem Machine.Drops.log (drops : m.Drops gone m') (logs : Array Log) :
    m.Drops gone { m' with logs := logs } :=
  ⟨drops.layers, drops.here, drops.started, drops.branch, drops.stopped, drops.resume⟩

theorem Machine.Unwound.refl : m.Unwound [] m := ⟨.refl, rfl⟩

theorem Machine.Unwound.trans (first : m.Unwound gone m') (second : m'.Unwound more m'') :
    m.Unwound (gone ++ more) m'' :=
  ⟨first.toDrops.trans second.toDrops, by rw [second.vars, first.vars, map_append, foldl_append]⟩

theorem Machine.Unwound.log (unwound : m.Unwound gone m') (logs : Array Log) :
    m.Unwound gone { m' with logs := logs } :=
  ⟨unwound.toDrops.log logs, unwound.vars⟩

end Layers

namespace Action

variable {p : Program} {m m' : Machine} {wanted : Frame → Except Fault Bool} {f : Frame}
  {rest : List Frame} {outer : List Call} {r : Reply (Option Frame)} {count : Nat}

theorem unwound_pop {r : Reply Frame} (ran : Ran pop m r m') (top : m.Top f rest) :
    r = .ok f ∧ m.Unwound [.block f] m' ∧ m'.outer = m.outer ∧ m'.call.blocks = rest := by
  unfold Ran at ran
  rw [run_pop, top] at ran
  obtain ⟨rfl, rfl⟩ := Prod.mk.inj ran
  exact ⟨rfl, ⟨.block top _, rfl⟩, rfl, rfl⟩

theorem ran_pop_empty {r : Reply Frame} (ran : Ran pop m r m') (empty : m.call.blocks = []) :
    m' = m := by
  unfold Ran at ran
  rw [run_pop, empty] at ran
  exact (Prod.mk.inj ran).2.symm

theorem release_eq {c : Call} {vars : Env} :
    c.release vars = (c.layers.map StackLayer.saved).foldl Env.restore vars := by
  simp [Call.release, Call.layers, StackLayer.saved, foldl_map]

theorem unwound_popCall {r : Reply Call} {next : Call} (ran : Ran (popCall p) m r m')
    (around : m.outer = next :: outer) :
    r = .ok m.call ∧ m.Unwound m.call.layers m' ∧ m'.call = next ∧ m'.outer = outer := by
  unfold Ran at ran
  rw [run_popCall around] at ran
  obtain ⟨rfl, rfl⟩ := Prod.mk.inj ran
  exact ⟨rfl, ⟨.call around _, release_eq⟩, rfl, rfl⟩

theorem ran_popCall_alone {r : Reply Call} (ran : Ran (popCall p) m r m') (alone : m.outer = []) :
    m' = m := by
  unfold Ran at ran
  rw [run_popCall_alone alone] at ran
  exact (Prod.mk.inj ran).2.symm

def foundAt (wanted : Frame → Except Fault Bool) : List Frame → Except Failure (Option Frame)
  | [] => .ok none
  | f :: _ => match wanted f with
    | .ok _ => .ok (some f)
    | .error x => .error (.fault x)

theorem unwound_unwindFrom {frames : List Frame} (ran : Ran (unwindFrom wanted frames) m r m')
    (blocks : m.call.blocks = frames) :
    m.Unwound ((frames.map StackLayer.block).takeWhile (StackLayer.passes wanted)) m' ∧
      m'.outer = m.outer ∧
      m'.call.blocks.map StackLayer.block =
        (frames.map StackLayer.block).dropWhile (StackLayer.passes wanted) ∧
      r = foundAt wanted m'.call.blocks := by
  induction frames generalizing m with
  | nil =>
    obtain ⟨rfl, rfl⟩ := ran_pure ran
    exact ⟨.refl, rfl, by rw [blocks]; rfl, by rw [blocks]; rfl⟩
  | cons f rest ih =>
    have stays (stops : StackLayer.passes wanted (.block f) = false) (same : m' = m)
        (out : r = foundAt wanted (f :: rest)) :
        m.Unwound (((f :: rest).map StackLayer.block).takeWhile (StackLayer.passes wanted)) m' ∧
        m'.outer = m.outer ∧
        m'.call.blocks.map StackLayer.block =
          ((f :: rest).map StackLayer.block).dropWhile (StackLayer.passes wanted) ∧
        r = foundAt wanted m'.call.blocks := by
      subst same
      rw [map_cons, takeWhile_cons_of_neg (by simpa using stops), dropWhile_cons_of_neg
        (by simpa using stops), blocks]
      exact ⟨.refl, rfl, rfl, out⟩
    unfold unwindFrom at ran
    cases want : wanted f with
    | error x =>
      rw [want] at ran
      obtain ⟨rfl, rfl⟩ := Prod.mk.inj ran
      exact stays (by simp [StackLayer.passes, want]) rfl (by simp [foundAt, want])
    | ok hit =>
      rw [want] at ran
      cases hit with
      | true =>
        obtain ⟨rfl, rfl⟩ := Prod.mk.inj ran
        exact stays (by simp [StackLayer.passes, want]) rfl (by simp [foundAt, want])
      | false =>
        have ran : Ran (do
            let _ ← pop
            unwindFrom wanted rest) m r m' := ran
        rcases ran_bind ran with ⟨e, _, failed⟩ | ⟨_, m₁, popped, ran⟩
        · cases (unwound_pop failed blocks).1
        obtain ⟨_, left, outer, blocks'⟩ := unwound_pop popped blocks
        obtain ⟨further, outer', out⟩ := ih ran blocks'
        rw [map_cons, takeWhile_cons_of_pos (by simp [StackLayer.passes, want]),
          dropWhile_cons_of_pos (by simp [StackLayer.passes, want])]
        exact ⟨left.trans further, outer'.trans outer, out⟩

theorem unwound_unwind (ran : Ran (unwind wanted) m r m') :
    m.Unwound ((m.call.blocks.map StackLayer.block).takeWhile (StackLayer.passes wanted)) m' ∧
      m'.outer = m.outer ∧
      m'.call.blocks.map StackLayer.block =
        (m.call.blocks.map StackLayer.block).dropWhile (StackLayer.passes wanted) ∧
      r = foundAt wanted m'.call.blocks :=
  unwound_unwindFrom (ran_blocks_bind ran) rfl

theorem unwound_unwind_stopped (ran : Ran (unwind wanted) m r m') (top : m'.Top f rest) :
    m.Unwound (m.layers.dropLast.takeWhile (StackLayer.passes wanted)) m' := by
  obtain ⟨unwound, _, left, _⟩ := unwound_unwind ran
  have stops : StackLayer.passes wanted (.block f) = false := by
    have head := head?_dropWhile_not (StackLayer.passes wanted) (m.call.blocks.map StackLayer.block)
    rw [← left, top] at head
    exact head
  have layers := unwound.layers
  rw [layers_block top] at layers
  rw [layers, dropLast_append_of_ne_nil (by simp), dropLast_cons_of_ne_nil layers_ne_nil,
    takeWhile_append_of_pos (fun x mem => mem_takeWhile_imp mem),
    takeWhile_cons_of_neg (by simp [stops]), append_nil]
  exact unwound

theorem unwound_unwindCalls (ran : Ran (unwindCalls p wanted outer) m r m')
    (around : m.outer = outer) :
    m.Unwound (m.layers.dropLast.takeWhile (StackLayer.passes wanted)) m' ∧
      r = foundAt wanted m'.call.blocks ∧
      (m'.call.blocks = [] → m'.outer = []) := by
  induction outer generalizing m with
  | nil =>
    obtain ⟨unwound, same, _, out⟩ := unwound_unwind ran
    rw [layers_alone around, Call.layers, dropLast_concat]
    exact ⟨unwound, out, fun _ => same.trans around⟩
  | cons next outer ih =>
    rcases ran_bind ran with ⟨e, rfl, failed⟩ | ⟨found, m₁, searched, ran⟩
    · obtain ⟨_, _, _, out⟩ := unwound_unwind failed
      cases top : m'.call.blocks with
      | nil => rw [top] at out; cases out
      | cons f rest => exact ⟨unwound_unwind_stopped failed top, by rw [← top]; exact out, nofun⟩
    obtain ⟨unwound, same, left, out⟩ := unwound_unwind searched
    cases top : m₁.call.blocks with
    | cons f rest =>
      rw [top, foundAt] at out
      split at out
      · cases out
        obtain ⟨rfl, rfl⟩ := ran_pure ran
        exact ⟨unwound_unwind_stopped searched top, by simp [foundAt, *], by simp [top]⟩
      · cases out
    | nil =>
      rw [top] at out left
      cases out
      have passed : ∀ x ∈ m.call.blocks.map StackLayer.block, StackLayer.passes wanted x = true :=
        dropWhile_eq_nil_iff.mp left.symm
      rw [takeWhile_eq_self_iff.mpr passed] at unwound
      rcases ran_bind ran with ⟨e, _, failed⟩ | ⟨_, m₂, popped, ran⟩
      · cases (unwound_popCall failed (same.trans around)).1
      obtain ⟨_, popped, _, outer'⟩ := unwound_popCall popped (same.trans around)
      rw [Call.layers, top] at popped
      rcases ran_bind ran with ⟨e, _, failed⟩ | ⟨_, m₃, logged, ran⟩
      · cases (ran_modify failed).1
      obtain ⟨_, rfl⟩ := ran_modify logged
      obtain ⟨further, out, bottom⟩ := ih ran outer'
      have left := unwound.trans popped
      refine ⟨?_, out, bottom⟩
      rw [left.layers, dropLast_append_of_ne_nil layers_ne_nil, takeWhile_append_of_pos ?_]
      · exact (left.log _).trans further
      · intro x mem
        rcases mem_append.mp mem with block | call
        · exact passed x block
        · obtain rfl := mem_singleton.mp call
          rfl

theorem unwound_popCalls {r : Reply Unit} (ran : Ran (popCalls p count) m r m') :
    m.Unwound ((m.calls.dropLast.take count).flatMap Call.layers) m' ∧
      ((r = .ok () ∧ m'.calls = m.calls.drop count) ∨
        (m.outer.length < count ∧ ∃ e, r = .error e)) := by
  induction count generalizing m with
  | zero =>
    obtain ⟨rfl, rfl⟩ := ran_pure ran
    exact ⟨.refl, .inl ⟨rfl, rfl⟩⟩
  | succ count ih =>
    cases around : m.outer with
    | nil =>
      rcases ran_bind ran with ⟨e, rfl, failed⟩ | ⟨_, _, popped, _⟩
      · rw [ran_popCall_alone failed around, Machine.calls, around]
        exact ⟨.refl, .inr ⟨Nat.succ_pos _, e, rfl⟩⟩
      · unfold Ran at popped
        rw [run_popCall_alone around] at popped
        cases (Prod.mk.inj popped).1
    | cons next outer =>
      rcases ran_bind ran with ⟨e, _, failed⟩ | ⟨_, m₁, popped, ran⟩
      · cases (unwound_popCall failed around).1
      obtain ⟨_, left, call, outer'⟩ := unwound_popCall popped around
      obtain ⟨further, out⟩ := ih ran
      have calls : m₁.calls = next :: outer := by rw [Machine.calls, call, outer']
      rw [calls] at further out
      rw [Machine.calls, around]
      refine ⟨left.trans further, ?_⟩
      rcases out with done | ⟨beyond, failed⟩
      · exact .inl done
      · rw [outer'] at beyond
        exact .inr ⟨Nat.succ_lt_succ beyond, failed⟩

theorem unwound_popBlocks {r : Reply Unit} (ran : Ran (popBlocks count) m r m') :
    m.Unwound ((m.call.blocks.take count).map StackLayer.block) m' := by
  induction count generalizing m with
  | zero =>
    obtain ⟨rfl, rfl⟩ := ran_pure ran
    exact .refl
  | succ count ih =>
    cases top : m.call.blocks with
    | nil =>
      rcases ran_bind ran with ⟨e, _, failed⟩ | ⟨f, m₁, popped, ran⟩
      · rw [ran_pop_empty failed top]
        exact .refl
      · unfold Ran at popped
        rw [run_pop, top] at popped
        cases (Prod.mk.inj popped).1
    | cons f rest =>
      rcases ran_bind ran with ⟨e, _, failed⟩ | ⟨_, m₁, popped, ran⟩
      · cases (unwound_pop failed top).1
      obtain ⟨_, left, _, blocks⟩ := unwound_pop popped top
      have further := ih ran
      rw [blocks] at further
      exact left.trans further

end Action

end Runbook
