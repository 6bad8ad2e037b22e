import Runbook.Proofs.Machine.Moves

namespace Runbook.Action

variable {α : Type} {p : Program} {m m' : Machine} {f : Frame} {place : Nat} {r : Reply Unit}

@[simp] theorem control_here (m : Machine) : m.control.here = m.here := rfl

@[simp] theorem control_function (m : Machine) : m.control.call.function = m.call.function := rfl

@[simp] theorem control_blocks (m : Machine) :
    m.control.call.blocks = m.call.blocks.map Frame.spot := rfl

@[simp] theorem control_outer (m : Machine) : m.control.outer = m.outer.map Call.tier := rfl

theorem control_tiers (m : Machine) : m.control.tiers = m.calls.map Call.tier := rfl

@[simp] theorem spot_place (f : Frame) : f.spot.place = f.place := rfl

theorem spot_cond {c : Cond} (same : f.spot = ⟨place, .cond c⟩) :
    f.place = place ∧ f.body = .cond c := by
  obtain ⟨own, saved, body⟩ := f
  cases body <;> simp_all [Frame.spot, Body.mark]

theorem spot_guard {g : Guard} (same : f.spot = ⟨place, .guard g⟩) :
    f.place = place ∧ f.body = .guard g := by
  obtain ⟨own, saved, body⟩ := f
  cases body <;> simp_all [Frame.spot, Body.mark]

theorem spot_loop {kind : LoopKind} {complete : Bool}
    (same : f.spot = ⟨place, .loop kind complete⟩) :
    f.place = place ∧ ∃ l, f.body = .loop l ∧ l.kind = kind ∧ l.complete = complete := by
  obtain ⟨own, saved, body⟩ := f
  cases body <;> simp_all [Frame.spot, Body.mark]

theorem isLoop_spot (f : Frame) : f.spot.isLoop = f.isLoop := by
  obtain ⟨place, saved, body⟩ := f
  cases body <;> rfl

theorem intercepts_spot (f : Frame) : f.spot.intercepts = f.intercepts := by
  obtain ⟨place, saved, body⟩ := f
  cases body <;> rfl

theorem ran_expectTop {r : Reply Frame} (ran : Ran (expectTop p place) m r m') :
    m' = m ∧ (((∃ e, r = .error e ∧ e.kind? = some .scope) ∧ ∀ f rest, m.call.blocks = f :: rest →
      f.place ≠ place) ∨
      ∃ f rest, r = .ok f ∧ m.call.blocks = f :: rest ∧ f.place = place) := by
  have ran := ran_blocks_bind ran
  split at ran
  · rename_i empty
    obtain ⟨rfl, rfl⟩ := Prod.mk.inj ran
    exact ⟨rfl, .inl ⟨⟨_, rfl, rfl⟩, by simp [empty]⟩⟩
  · rename_i f rest split
    split at ran
    · rename_i at_place
      obtain ⟨rfl, rfl⟩ := ran_pure ran
      exact ⟨rfl, .inr ⟨f, rest, rfl, split, at_place⟩⟩
    · rename_i elsewhere
      obtain ⟨rfl, rfl⟩ := Prod.mk.inj ran
      refine ⟨rfl, .inl ⟨⟨_, rfl, rfl⟩, fun f' rest' same => ?_⟩⟩
      cases split.symm.trans same
      exact elsewhere

theorem ran_unwindFrom {wanted : Frame → Bool} {x : Reply (Option Frame)} {frames : List Frame}
    (ran : Ran (unwindFrom (fun f => .ok (wanted f)) frames) m x m')
    (start : m.call.blocks = frames) :
    m'.here = m.here ∧ m'.outer = m.outer ∧
      m'.control = m.control.withBlocks (m'.call.blocks.map Frame.spot) ∧
      ((∃ above f rest, frames = above ++ f :: rest ∧ (∀ x ∈ above, wanted x = false) ∧
        wanted f = true ∧
          x = .ok (some f) ∧ m'.Top f rest) ∨
        ((∀ x ∈ frames, wanted x = false) ∧ x = .ok none ∧ m'.call.blocks = [])) := by
  induction frames generalizing m with
  | nil =>
    obtain ⟨rfl, rfl⟩ := ran_pure ran
    exact ⟨rfl, rfl, rfl, .inr ⟨by simp, rfl, start⟩⟩
  | cons f rest ih =>
    unfold unwindFrom at ran
    have ran : Ran (do
        if wanted f then return some f
        let _ ← pop
        unwindFrom (fun f => .ok (wanted f)) rest) m x m' := ran
    split at ran
    · rename_i takes
      obtain ⟨rfl, rfl⟩ := ran_pure ran
      exact ⟨rfl, rfl, rfl, .inl ⟨[], f, rest, rfl, by simp, takes, rfl, start⟩⟩
    · rename_i passes
      have passes : wanted f = false := by simpa using passes
      have ran := ran_bind_ok ran (run_pop_top start)
      obtain ⟨here, outer, control, which⟩ := ih ran rfl
      refine ⟨here, outer, control, ?_⟩
      rcases which with ⟨above, g, rest', split, left, takes, out, after⟩ | ⟨left, out, after⟩
      · refine .inl ⟨f :: above, g, rest', by rw [split]; rfl, ?_, takes, out, after⟩
        exact List.forall_mem_cons.mpr ⟨passes, left⟩
      · exact .inr ⟨List.forall_mem_cons.mpr ⟨passes, left⟩, out, after⟩

theorem ran_branchTo_beyond (ran : Ran (branchTo p (place : Int)) m r m')
    (beyond : p.commands.length ≤ place) :
    (∃ e, r = .error e ∧ e.kind? = some .jump) ∧ m'.control = m.control := by
  unfold branchTo at ran
  have outside : ¬ (0 ≤ (place : Int) ∧ (place : Int) < p.commands.length) := by omega
  rw [if_neg outside] at ran
  obtain ⟨rfl, rfl⟩ := Prod.mk.inj ran
  exact ⟨⟨_, rfl, rfl⟩, rfl⟩

theorem ran_branchBack {place : Option Int} (ran : Ran (branchBack p place) m r m') :
    (∃ n : Nat, place = some (n : Int) ∧ n < p.commands.length ∧ r = .ok () ∧
      m'.control = m.control.goto n) ∨
    ((∀ n : Nat, place = some (n : Int) → p.commands.length ≤ n) ∧ (∃ e, r = .error e) ∧
      m'.control = m.control) := by
  cases place with
  | none =>
    obtain ⟨rfl, rfl⟩ := Prod.mk.inj ran
    exact .inr ⟨nofun, ⟨_, rfl⟩, rfl⟩
  | some n =>
    change Ran (branchTo p n) m r m' at ran
    by_cases inside : 0 ≤ n ∧ n < p.commands.length
    · obtain ⟨k, rfl⟩ := Int.eq_ofNat_of_zero_le inside.1
      obtain ⟨rfl, rfl⟩ := ran_done ran (run_branchTo (by omega))
      exact .inl ⟨k, rfl, by omega, rfl, rfl⟩
    · unfold branchTo at ran
      rw [if_neg inside] at ran
      obtain ⟨rfl, rfl⟩ := Prod.mk.inj ran
      refine .inr ⟨?_, ⟨_, rfl⟩, rfl⟩
      intro k same
      cases same
      omega

theorem ran_orFault {x : Except Fault α} {r : Reply α} (ran : Ran (orFault x) m r m') :
    m' = m ∧ ((∃ a, x = .ok a ∧ r = .ok a) ∨ ∃ f, x = .error f ∧ r = .error (.fault f)) := by
  cases x with
  | ok a =>
    obtain ⟨rfl, rfl⟩ := ran_pure ran
    exact ⟨rfl, .inl ⟨a, rfl, rfl⟩⟩
  | error f =>
    obtain ⟨rfl, rfl⟩ := Prod.mk.inj ran
    exact ⟨rfl, .inr ⟨f, rfl, rfl⟩⟩

end Runbook.Action
