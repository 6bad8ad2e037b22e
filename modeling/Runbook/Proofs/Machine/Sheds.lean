import Runbook.Proofs.Machine.Working

namespace Runbook

open List

def Frame.stub (f : Frame) : Nat × Snapshot := (f.place, f.saved)

def Call.head (c : Call) : Call := { c with blocks := [], returning := false }

/-- The same call later: its blocks are those it had, with the blocks `new` on top, or the lower
ones of these. -/
structure Call.Trims (new : List (Nat × Snapshot)) (c c' : Call) : Prop where
  head : c'.head = c.head
  blocks : c'.blocks.map Frame.stub <:+ new ++ c.blocks.map Frame.stub

def Machine.Sheds (new : List (Nat × Snapshot)) (m m' : Machine) : Prop :=
  ∃ c, c :: m'.outer <:+ m.calls ∧ c.Trims new m'.call

section Relations

variable {new : List (Nat × Snapshot)} {m m' m'' : Machine} {c c' c'' : Call}

theorem Call.Trims.refl : c.Trims [] c := ⟨rfl, suffix_refl _⟩

theorem Call.Trims.trans (first : c.Trims new c') (second : c'.Trims [] c'') : c.Trims new c'' :=
  ⟨second.head.trans first.head, second.blocks.trans first.blocks⟩

theorem Call.Trims.more (trims : c.Trims [] c') : c.Trims new c' :=
  ⟨trims.head, trims.blocks.trans (suffix_append new _)⟩

theorem Machine.Sheds.more (sheds : m.Sheds [] m') : m.Sheds new m' := by
  obtain ⟨c, calls, trims⟩ := sheds
  exact ⟨c, calls, trims.more⟩

theorem Machine.Sheds.active (outer : m'.outer = m.outer) (trims : m.call.Trims new m'.call) :
    m.Sheds new m' := by
  refine ⟨m.call, ?_, trims⟩
  rw [outer]
  exact suffix_refl _

theorem Machine.Sheds.still (calls : m'.calls = m.calls) : m.Sheds [] m' := by
  obtain ⟨call, outer⟩ := cons.inj calls
  apply Machine.Sheds.active outer
  rw [call]
  exact .refl

theorem Machine.Sheds.trans (first : m.Sheds new m') (second : m'.Sheds [] m'') :
    m.Sheds new m'' := by
  obtain ⟨c, calls, trims⟩ := first
  obtain ⟨d, calls', trims'⟩ := second
  rcases suffix_cons_iff.mp calls' with same | lower
  · obtain ⟨rfl, outer⟩ := cons.inj same
    exact ⟨c, by rwa [outer], trims.trans trims'⟩
  · have around : m'.outer <:+ m.calls := (suffix_cons c m'.outer).trans calls
    exact ⟨d, lower.trans around, trims'.more⟩

end Relations

section Works

variable {m m' : Machine}

theorem Machine.Step.sheds (step : m.Step {} m') : m.Sheds [] m' := by
  cases step with
  | still calls _ _ => exact .still calls
  | change top later =>
    refine .active rfl ⟨rfl, ?_⟩
    simp [top, Frame.stub, later.place, later.saved]
  | mark returning => exact .active rfl ⟨rfl, suffix_refl _⟩
  | leave _ top =>
    refine .active rfl ⟨rfl, ?_⟩
    rw [top]
    exact suffix_cons _ _
  | leaveCall _ around =>
    refine ⟨_, ?_, .refl⟩
    rw [Machine.calls, around]
    exact suffix_cons _ _
  | guard allowed _ | block allowed _ _ _ | keep allowed _ _ _ | call allowed _ _ _ =>
    exact allowed.elim

theorem Machine.Works.sheds (works : m.Works {} m') : m.Sheds [] m' := by
  induction works with
  | refl => exact .still rfl
  | tail _ step ih => exact ih.trans step.sheds

end Works

end Runbook
