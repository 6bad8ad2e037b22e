import Mathlib.Logic.Relation
import Runbook.Proofs.Machine.Control

/-!
What actions are made of. Whatever a command does, it works on top: it writes variables, changes the
innermost block, leaves the innermost block or call, and opens blocks and calls. Each step of this
kind is named here, so that what a step keeps is kept by all actions that take such steps only. An
error that a command raises names this command or none at all.
-/

namespace Runbook

/-- What an action may do: open guards at some places, open other blocks and calls, leave those that
are open, and give values to some variables. -/
structure Powers where
  guards : Nat → Prop := fun _ => False
  grows : Prop := False
  leaves : Prop := True
  writes : String → Prop := fun _ => True

def Powers.Keeps (w : Powers) (vars vars' : Env) : Prop :=
  ∀ name, ¬ w.writes name → vars'.get? name = vars.get? name

class Powers.Leaving (w : Powers) : Prop where
  leaves : w.leaves

class Powers.Free (w : Powers) : Prop where
  writes : ∀ name, w.writes name

instance {guards : Nat → Prop} {grows : Prop} {writes : String → Prop} :
    Powers.Leaving ⟨guards, grows, True, writes⟩ := ⟨trivial⟩

instance {guards : Nat → Prop} {grows leaves : Prop} :
    Powers.Free ⟨guards, grows, leaves, fun _ => True⟩ := ⟨fun _ => trivial⟩

variable {w w' : Powers} {f : Frame} {m m' : Machine} {place : Option Int} {e : Error}

theorem Powers.Keeps.refl {vars : Env} : w.Keeps vars vars := fun _ _ => rfl

theorem Powers.keeps [w.Free] (vars vars' : Env) : w.Keeps vars vars' :=
  fun name closed => absurd (Free.writes name) closed

def Cursor.names : Cursor → List String
  | .data r => r.names
  | _ => []

def Frame.names (f : Frame) : List String :=
  match f.body with
  | .loop l => l.cursor.names
  | _ => []

structure Frame.Later (f f' : Frame) : Prop where
  place : f'.place = f.place
  saved : f'.saved = f.saved
  guard : f'.guard?.isSome = f.guard?.isSome
  loop : f'.isLoop = f.isLoop
  names : f'.names ⊆ f.names

theorem Frame.Later.refl : f.Later f := ⟨rfl, rfl, rfl, rfl, List.Subset.refl _⟩

theorem Frame.Later.trans {f' f'' : Frame} (first : f.Later f') (second : f'.Later f'') :
    f.Later f'' :=
  ⟨second.place.trans first.place, second.saved.trans first.saved, second.guard.trans first.guard,
    second.loop.trans first.loop, List.Subset.trans second.names first.names⟩

/-- One step on top of the open blocks and calls. -/
inductive Machine.Step (w : Powers) (m : Machine) : Machine → Prop
  | still {m' : Machine} (calls : m'.calls = m.calls)
      (same : m'.here = m.here ∧ m'.started = m.started)
      (vars : w.Keeps m.vars m'.vars) : Step w m m'
  | change {f f' : Frame} {rest : List Frame} (top : m.call.blocks = f :: rest)
      (later : f.Later f') :
      Step w m { m with call := { m.call with blocks := f' :: rest } }
  | mark (returning : Bool) : Step w m { m with call := { m.call with returning := returning } }
  | leave (allowed : w.leaves) {f : Frame} {rest : List Frame} (top : m.call.blocks = f :: rest) :
      Step w m { m with call := { m.call with blocks := rest }, vars := m.vars.restore f.saved }
  | leaveCall (allowed : w.leaves) {next : Call} {outer : List Call}
      (around : m.outer = next :: outer) :
      Step w m { m with call := next, outer := outer, vars := m.call.release m.vars }
  | guard {place : Nat} (allowed : w.guards place) (g : Guard) :
      Step w m { m with call :=
        { m.call with blocks := { place := place, body := .guard g } :: m.call.blocks } }
  | block (allowed : w.grows) {f : Frame} (bare : f.saved = []) (plain : f.guard? = none)
      (fresh : f.names = []) :
      Step w m { m with call := { m.call with blocks := f :: m.call.blocks } }
  /-- The innermost loop takes a snapshot, if it has none, in which all names are that it may know
  by then. -/
  | keep (allowed : w.grows) {place : Nat} {l l' : Loop} {rest : List Frame} (names : List String)
      (top : m.call.blocks = ⟨place, [], .loop l⟩ :: rest) (known : l'.cursor.names ⊆ names) :
      Step w m { m with call :=
        { m.call with blocks := ⟨place, m.vars.capture names, .loop l'⟩ :: rest } }
  /-- A call takes a snapshot, and then its arguments get their values. -/
  | call (allowed : w.grows) (c : Call) (names : List String) {vars : Env}
      (kept : w.Keeps m.vars vars) :
      Step w m { m with
        vars := vars
        call := { c with saved := m.vars.capture names, blocks := [] }
        outer := m.call :: m.outer }

abbrev Machine.Works (w : Powers) (m m' : Machine) : Prop :=
  Relation.ReflTransGen (Machine.Step w) m m'

def Verb.grows : Verb → Bool
  | .openIf | .openTry | .openLoop _ | .call => true
  | _ => false

theorem Machine.Step.same (step : m.Step w m') : m'.here = m.here ∧ m'.started = m.started := by
  cases step with
  | still _ same _ => exact same
  | _ => exact ⟨rfl, rfl⟩

theorem Machine.Works.same (works : m.Works w m') : m'.here = m.here ∧ m'.started = m.started := by
  induction works with
  | refl => exact ⟨rfl, rfl⟩
  | tail _ step ih => exact ⟨step.same.1.trans ih.1, step.same.2.trans ih.2⟩

theorem Machine.Works.here (works : m.Works w m') : m'.here = m.here := works.same.1

theorem Machine.Step.mono (step : m.Step w m') (guards : ∀ place, w.guards place → w'.guards place)
    (grows : w.grows → w'.grows) (leaves : w.leaves → w'.leaves)
    (writes : ∀ name, w.writes name → w'.writes name) : m.Step w' m' := by
  have keeps {vars vars' : Env} (kept : w.Keeps vars vars') : w'.Keeps vars vars' :=
    fun name closed => kept name fun free => closed (writes name free)
  cases step with
  | still calls same vars => exact .still calls same (keeps vars)
  | change top later => exact .change top later
  | mark returning => exact .mark returning
  | leave allowed top => exact .leave (leaves allowed) top
  | leaveCall allowed around => exact .leaveCall (leaves allowed) around
  | guard allowed g => exact .guard (guards _ allowed) g
  | block allowed bare plain fresh => exact .block (grows allowed) bare plain fresh
  | keep allowed names top known => exact .keep (grows allowed) names top known
  | call allowed c names kept => exact .call (grows allowed) c names (keeps kept)

theorem Machine.Works.mono (works : m.Works w m')
    (guards : ∀ place, w.guards place → w'.guards place) (grows : w.grows → w'.grows)
    (leaves : w.leaves → w'.leaves) (writes : ∀ name, w.writes name → w'.writes name) :
    m.Works w' m' := by
  induction works with
  | refl => exact .refl
  | tail _ step ih => exact ih.tail (step.mono guards grows leaves writes)

theorem Machine.Works.top {rest : List Frame} (works : m.Works w m')
    (guards : ∀ place, ¬ w.guards place) (grows : ¬ w.grows) (leaves : ¬ w.leaves)
    (top : m.call.blocks = f :: rest) : ∃ f', m'.call.blocks = f' :: rest ∧ f.Later f' := by
  induction works with
  | refl => exact ⟨f, top, .refl⟩
  | tail _ step ih =>
    obtain ⟨f', top', before⟩ := ih
    cases step with
    | still calls _ _ =>
      rw [(List.cons.inj calls).1]
      exact ⟨f', top', before⟩
    | change top later =>
      obtain ⟨rfl, rfl⟩ := List.cons.inj (top.symm.trans top')
      exact ⟨_, rfl, before.trans later⟩
    | mark _ => exact ⟨f', top', before⟩
    | leave allowed _ | leaveCall allowed _ => exact absurd allowed leaves
    | guard allowed _ => exact absurd allowed (guards _)
    | block allowed _ _ _ | keep allowed _ _ _ | call allowed _ _ _ => exact absurd allowed grows

theorem mem_frames (m : Machine) (f : Frame) :
    f ∈ m.frames ↔ f ∈ m.call.blocks ∨ f ∈ m.outer.flatMap Call.blocks := by
  rw [Machine.frames, Machine.calls, List.flatMap_cons, List.mem_append]

/-- What holds of the frames that steps open, and goes on to hold as steps change them. -/
structure Powers.Keeping (w : Powers) (Q : Frame → Prop) : Prop where
  later : ∀ {f f' : Frame}, f.Later f' → Q f → Q f'
  guard : ∀ place g, w.guards place → Q { place := place, body := .guard g }
  block : ∀ f : Frame, f.saved = [] → f.guard? = none → f.names = [] → Q f
  loop : ∀ place (vars : Env) names (l : Loop), l.cursor.names ⊆ names →
    Q ⟨place, vars.capture names, .loop l⟩

section Frames

open List

variable {Q : Frame → Prop} {P : Nat → Prop}

theorem forall_frames : (∀ f ∈ m.frames, Q f) ↔
    (∀ f ∈ m.call.blocks, Q f) ∧ ∀ f ∈ m.outer.flatMap Call.blocks, Q f := by
  simp only [mem_frames, or_imp, forall_and]

theorem frames_of_calls (all : ∀ f ∈ m.frames, Q f) (calls : m'.calls = m.calls) :
    ∀ f ∈ m'.frames, Q f := by
  unfold Machine.frames
  rwa [calls]

theorem Machine.Step.frames (step : m.Step w m') (kept : w.Keeping Q) (all : ∀ f ∈ m.frames, Q f) :
    ∀ f ∈ m'.frames, Q f := by
  have ⟨inner, outer⟩ := forall_frames.mp all
  cases step with
  | still calls _ _ => exact frames_of_calls all calls
  | mark _ => exact all
  | change top later =>
    rw [top, forall_mem_cons] at inner
    exact forall_frames.mpr ⟨forall_mem_cons.mpr ⟨kept.later later inner.1, inner.2⟩, outer⟩
  | leave _ top =>
    rw [top, forall_mem_cons] at inner
    exact forall_frames.mpr ⟨inner.2, outer⟩
  | leaveCall _ around =>
    rw [around, flatMap_cons, forall_mem_append] at outer
    exact forall_frames.mpr outer
  | guard allowed g =>
    exact forall_frames.mpr ⟨forall_mem_cons.mpr ⟨kept.guard _ g allowed, inner⟩, outer⟩
  | block _ bare plain fresh =>
    exact forall_frames.mpr ⟨forall_mem_cons.mpr ⟨kept.block _ bare plain fresh, inner⟩, outer⟩
  | keep _ names top known =>
    rw [top, forall_mem_cons] at inner
    exact forall_frames.mpr ⟨forall_mem_cons.mpr ⟨kept.loop _ _ names _ known, inner.2⟩, outer⟩
  | call _ c _ _ =>
    refine forall_frames.mpr ⟨forall_mem_nil _, ?_⟩
    rw [flatMap_cons, forall_mem_append]
    exact ⟨inner, outer⟩

theorem Machine.Works.frames (works : m.Works w m') (kept : w.Keeping Q)
    (all : ∀ f ∈ m.frames, Q f) : ∀ f ∈ m'.frames, Q f := by
  induction works with
  | refl => exact all
  | tail _ step ih => exact step.frames kept ih

/-- All open guards stand at places of this kind. -/
def Machine.GuardsIn (P : Nat → Prop) (m : Machine) : Prop :=
  ∀ f ∈ m.frames, f.guard?.isSome = true → P f.place

theorem Powers.keeping_guards (opens : ∀ place, w.guards place → P place) :
    w.Keeping fun f => f.guard?.isSome = true → P f.place where
  later later inside guard := later.place ▸ inside (later.guard ▸ guard)
  guard place _ allowed _ := opens place allowed
  block _ _ plain _ := by simp [plain]
  loop _ _ _ _ _ := nofun

theorem Machine.Works.guardsIn (works : m.Works w m') (opens : ∀ place, w.guards place → P place)
    (inside : m.GuardsIn P) : m'.GuardsIn P := works.frames (w.keeping_guards opens) inside

end Frames

def Error.At (place : Option Int) (e : Error) : Prop := e.index = none ∨ e.index = place

def Failure.At (place : Option Int) (f : Failure) : Prop := ∀ e, f = .error e → e.At place

theorem Error.At.locate (blames : e.At place) : (e.locate place).index = place := by
  rcases blames with none | same
  · rw [Error.locate, none]
    rfl
  · show e.index.or place = place
    rw [same]
    cases place <;> rfl

theorem at_fault {f : Fault} : (Failure.fault f).At place := nofun

theorem at_error (blames : e.At place) : (Failure.error e).At place := by
  intro f same
  cases same
  exact blames

namespace Action

variable {α β : Type} {m : Machine} {E : Failure → Prop}

/-- From this machine an action comes to another one that is related to it, and fails only in some
ways. -/
def ActsOn (R : Machine → Machine → Prop) (E : Failure → Prop) (a : Action α) (m : Machine) :
    Prop :=
  R m (a.run.run m).2 ∧ ∀ e, (a.run.run m).1 = .error e → E e

theorem actsOn_bind {R S T : Machine → Machine → Prop} {a : Action α} {f : α → Action β}
    (first : ActsOn R E a m) (rest : ∀ x n, R m n → ActsOn S E (f x) n) (cut : ∀ x, R m x → T m x)
    (join : ∀ x y, R m x → S x y → T m y) : ActsOn T E (a >>= f) m := by
  obtain ⟨works, fails⟩ := first
  unfold ActsOn
  rw [run_bind]
  rcases ran : a.run.run m with ⟨r, m₁⟩
  rw [ran] at works fails
  cases r with
  | error e =>
    refine ⟨cut _ works, fun f failed => ?_⟩
    cases failed
    exact fails e rfl
  | ok x =>
    obtain ⟨further, fails⟩ := rest x m₁ works
    exact ⟨join _ _ works further, fails⟩

theorem ran_self (a : Action α) (m : Machine) : Ran a m (a.run.run m).1 (a.run.run m).2 := rfl

end Action

end Runbook
