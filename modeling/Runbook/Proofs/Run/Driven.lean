import Runbook.Proofs.Machine.Tidy
import Runbook.Proofs.Run.Turns
import Runbook.Proofs.Structured.Yields

namespace Runbook

open Runbook.Action List

inductive Driven (p : Program) : Machine → Prop
  | start {m : Machine} (alone : m.calls = [{}]) : Driven p m
  | host {m m' : Machine} (before : Driven p m) (calls : m'.calls = m.calls) : Driven p m'
  | fetch {m m' : Machine} {r : Except Failure (Option Command)} (before : Driven p m)
      (ran : Ran (next p) m r m') : Driven p m'
  | execute {m m' : Machine} {i : Int} {c : Command} {r : Except Failure Unit} (before : Driven p m)
      (here : m.here = some i) (command : commandFrom p i = .ok c)
      (ran : Ran (execute p c) m r m') : Driven p m'
  | route {m m' : Machine} {e : Failure} {r : Except Failure Bool} (before : Driven p m)
      (ran : Ran (route p e) m r m') : Driven p m'

section Driven

variable {p : Program} {m m' : Machine} {c : Command} {r : Reply Unit}

theorem tidies_execute {w : Powers} [w.Free] (grows : w.grows)
    (guards : c.verb? = some .openTry → ∀ b, blockAt? p m.here = some b →
      w.guards (m.here.getD 0).toNat)
    (ran : Ran (execute p c) m r m') : m.Tidies w m' := by
  cases verb : c.verb? with
  | none =>
    unfold execute at ran
    rw [verb] at ran
    exact ⟨m', acts_complain.ran ran, .refl⟩
  | some v =>
    obtain ⟨_, _, performed⟩ := ran_execute verb ran
    obtain ⟨x, first, last⟩ := tidies_perform (w := w) performed (fun _ => grows) fun tries =>
      guards (verb.trans (congrArg some tries))
    exact ⟨x, .head (b := { m with resume := none }) (.still rfl ⟨rfl, rfl⟩ (.refl)) first, last⟩

theorem works_execute {i : Int} [p.Faithful] (here : m.here = some i)
    (command : commandFrom p i = .ok c) (ran : Ran (execute p c) m r m') :
    m.Works { guards := OpensGuard p, grows := True } m' := by
  refine (tidies_execute trivial (fun verb b opener => ?_) ran).works
  rw [here] at opener ⊢
  have inside : ¬ i < 0 := by
    intro before
    simp [blockAt?, before] at opener
  obtain ⟨n, rfl⟩ := Int.eq_ofNat_of_zero_le (Int.not_lt.mp inside)
  have own : p.Does n .openTry := by
    simp only [commandFrom, if_neg inside, commandAt?, Int.toNat_natCast] at command
    split at command
    · rename_i there
      cases command
      exact verbAt_of_at there verb
    · cases command
  obtain ⟨form, last, block, opening⟩ := block?_opening p.found own rfl
  cases form <;> cases opening
  exact ⟨_, _, _, last, block⟩

theorem frames_of_alone {Q : Frame → Prop} (alone : m.calls = [{}]) : ∀ f ∈ m.frames, Q f := by
  intro f mem
  rw [Machine.frames, alone] at mem
  cases mem

theorem Driven.grounded [p.Faithful] (driven : Driven p m) : m.Grounded p := by
  induction driven with
  | start alone => exact frames_of_alone alone
  | host _ calls ih => exact frames_of_calls ih calls
  | fetch _ ran ih => exact frames_of_calls ih (calls_of_next ran)
  | execute _ here command ran ih =>
    exact Machine.Works.guardsIn (works_execute here command ran) (fun _ opens => opens) ih
  | route _ ran ih =>
    exact Machine.Works.guardsIn (works_route (w := {}) nofun screens_free ran) nofun ih

end Driven

structure Frame.Sturdy (f : Frame) : Prop where
  known : f.names ⊆ f.saved.names
  bare : f.isLoop = false → f.saved = []

def Machine.Sturdy (m : Machine) : Prop := ∀ f ∈ m.frames, f.Sturdy

section Sturdy

variable {p : Program} {w : Powers} {m : Machine}

theorem sturdy_of_bare {f : Frame} (bare : f.saved = []) (fresh : f.names = []) : f.Sturdy :=
  ⟨fresh ▸ List.nil_subset _, fun _ => bare⟩

theorem Powers.keeping_sturdy : w.Keeping Frame.Sturdy where
  later later sturdy := by
    refine ⟨?_, fun other => later.saved.trans (sturdy.bare (later.loop.symm.trans other))⟩
    rw [later.saved]
    exact List.Subset.trans later.names sturdy.known
  guard _ _ _ := sturdy_of_bare rfl rfl
  block _ bare _ fresh := sturdy_of_bare bare fresh
  loop _ _ _ _ known := ⟨fun _ mem => Env.mem_names_capture.mpr (known mem), nofun⟩

theorem Driven.sturdy (driven : Driven p m) : m.Sturdy := by
  induction driven with
  | start alone => exact frames_of_alone alone
  | host _ calls ih => exact frames_of_calls ih calls
  | fetch _ ran ih => exact frames_of_calls ih (calls_of_next ran)
  | execute _ _ _ ran ih =>
    exact (tidies_execute (w := .all) trivial (fun _ _ _ => trivial) ran).works.frames
      Powers.keeping_sturdy ih
  | route _ ran ih =>
    exact (works_route (w := {}) nofun screens_free ran).frames Powers.keeping_sturdy ih

end Sturdy

section Host

variable {p : Program} {m m' : Machine} {c : Command} {s : Session}

theorem Driven.dispatch {i : Int} {r : Reply (Option String)} (driven : Driven p m)
    (here : m.here = some i) (command : commandFrom p i = .ok c)
    (ran : Ran (Host.dispatch p c) m r m') : Driven p m' := by
  rcases ran_dispatch ran with ⟨_, _, executed, _⟩ | ⟨_, ran⟩
  · exact driven.execute here command executed
  · obtain ⟨logs, ran'⟩ := varsOnly_perform p c m i here
    obtain ⟨_, rfl⟩ := Prod.mk.inj (ran.symm.trans ran')
    exact driven.host rfl

theorem Session.driven_handle {place : Option Int} {e : Error} (driven : Driven p s.machine) :
    Driven p (s.handle p place e).1.machine := by
  unfold Session.handle
  dsimp only
  split <;> exact driven.route ‹_›

theorem Session.driven_step (driven : Driven p s.machine) : Driven p (s.step p).1.machine := by
  unfold Session.step
  split
  · rename_i c m fetched
    obtain ⟨i, here, command⟩ := command_of_fetched fetched
    have before := driven.fetch fetched
    unfold Session.perform
    dsimp only
    split
    · exact before.dispatch here command ‹_›
    · exact Session.driven_handle (before.dispatch here command ‹_›)
    · exact before.dispatch here command ‹_›
  all_goals exact driven.fetch ‹_›

theorem Session.driven_runFor (count : Nat) (driven : Driven p s.machine) :
    Driven p (s.runFor p count).1.machine := by
  induction count generalizing s with
  | zero => exact driven
  | succ count ih =>
    have next := s.driven_step (p := p) driven
    unfold Session.runFor
    split
    · rename_i out
      rwa [out] at next
    · rename_i out
      rw [out] at next
      exact ih next

end Host

end Runbook
