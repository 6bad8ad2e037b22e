import Runbook.Proofs.Run.Beneath

namespace Runbook

open Runbook.Action Control List

/-- How far a command leaves blocks: up to the innermost loop of the active call, or all of the
call, or all of the run. -/
inductive Reach
  | loop
  | call
  | run
  deriving DecidableEq, Repr

namespace Reach

def ceiling : Reach → Bool
  | .loop => true
  | .call | .run => false

def crosses : Reach → Bool
  | .run => true
  | .loop | .call => false

end Reach

def Verb.reach? : Verb → Option Reach
  | .again | .leave => some .loop
  | .giveBack => some .call
  | .exitTest => some .run
  | _ => none

/-- The condition of the command holds, or the value that it gives back is found. -/
def Command.Goes (p : Program) (c : Command) (vars : Env) : Verb → Prop
  | .again | .leave => ExitGoes p c vars
  | .giveBack => BackGoes p c.target vars
  | _ => True

namespace Control

def leaves (k : Control) : Reach → List Spot
  | .loop => k.call.blocks.takeWhile fun s => !s.isLoop
  | .call => k.call.blocks
  | .run => k.spots

/-- Of what a command of some reach leaves, the blocks `gone` are left. -/
structure Lowered (reach : Reach) (gone : List Spot) (k k' : Control) : Prop where
  spots : k.spots = gone ++ k'.spots
  leaves : k.leaves reach = gone ++ k'.leaves reach
  call : reach ≠ .run → k'.call.function = k.call.function ∧ k'.call.back = k.call.back ∧
    k'.outer = k.outer ∧
    k.call.blocks = gone ++ k'.call.blocks

/-- What a completed command leaves behind of the control `k` that it was executed in. -/
inductive Completed (p : Program) (k k' : Control) : Verb → Prop
  | again {above rest : List Spot} {place : Nat} {kind : LoopKind} {complete : Bool}
      (blocks : k.call.blocks = above ++ ⟨place, .loop kind complete⟩ :: rest)
      (inner : ∀ s ∈ above, s.isLoop = false) (function : k'.call.function = k.call.function)
      (outer : k'.outer = k.outer) (top : k'.Top ⟨place, .loop kind complete⟩ rest)
      (next : k'.branch = some place) : Completed p k k' .again
  | leave {above rest : List Spot} {place last : Nat} {kind : LoopKind} {complete : Bool}
      (blocks : k.call.blocks = above ++ ⟨place, .loop kind complete⟩ :: rest)
      (inner : ∀ s ∈ above, s.isLoop = false)
      (block : p.outline.block? place = some (.opener (.loop kind) last))
      (function : k'.call.function = k.call.function) (outer : k'.outer = k.outer)
      (top : k'.Top ⟨place, .loop kind true⟩ rest) (next : k'.branch = some last) :
      Completed p k k' .leave
  | giveBack {back : Nat} (source : k.call.back = some (back : Int))
      (function : k'.call.function = k.call.function) (outer : k'.outer = k.outer)
      (returning : k'.call.returning = true) (next : k'.branch = some back) :
      Completed p k k' .giveBack
  | exitTest (stopped : k'.stopped = true) : Completed p k k' .exitTest

section Lowering

variable {reach : Reach} {gone more above rest : List Spot} {k k' k'' : Control}
  {passed outer : List Tier} {t : Tier}

theorem Lowered.refl : Lowered reach [] k k :=
  ⟨rfl, rfl, fun _ => ⟨rfl, rfl, rfl, rfl⟩⟩

theorem Lowered.trans (first : Lowered reach gone k k') (second : Lowered reach more k' k'') :
    Lowered reach (gone ++ more) k k'' := by
  refine ⟨?_, ?_, fun near => ?_⟩
  · rw [first.spots, second.spots, append_assoc]
  · rw [first.leaves, second.leaves, append_assoc]
  · obtain ⟨function, back, outer, blocks⟩ := first.call near
    obtain ⟨function', back', outer', blocks'⟩ := second.call near
    exact ⟨function'.trans function, back'.trans back, outer'.trans outer, by
      rw [blocks, blocks', append_assoc]⟩

theorem leaves_congr (blocks : k'.call.blocks = k.call.blocks) (outer : k'.outer = k.outer) :
    k'.leaves reach = k.leaves reach ∧ k'.spots = k.spots := by
  have spots : k'.spots = k.spots := by simp [Control.spots, tiers, blocks, outer]
  cases reach with
  | loop => exact ⟨by simp only [leaves, blocks], spots⟩
  | call => exact ⟨blocks, spots⟩
  | run => exact ⟨spots, spots⟩

theorem Lowered.congr (lowered : Lowered reach gone k k')
    (function : k''.call.function = k'.call.function) (back : k''.call.back = k'.call.back)
    (blocks : k''.call.blocks = k'.call.blocks) (outer : k''.outer = k'.outer) :
    Lowered reach gone k k'' := by
  obtain ⟨leaves, spots⟩ := leaves_congr blocks outer
  refine ⟨by rw [lowered.spots, spots], by rw [lowered.leaves, leaves], fun near => ?_⟩
  rw [function, back, blocks, outer]
  exact lowered.call near

theorem lowered_unwound (tiers : k.tiers = passed ++ t :: outer) (blocks : t.blocks = above ++ rest)
    (inside : reach.crosses = false → passed = [])
    (plain : reach.ceiling = true → ∀ x ∈ above, x.isLoop = false) :
    Lowered reach (passed.flatMap Tier.blocks ++ above) k (k.unwound t rest outer) := by
  have spots :
      k.spots = (passed.flatMap Tier.blocks ++ above) ++ (k.unwound t rest outer).spots := by
    rw [Control.spots, tiers]
    simp [Control.spots, Control.tiers, unwound, blocks]
  have active (none : passed = []) : k.call = t ∧ k.outer = outer := by
    subst none
    exact cons.inj tiers
  refine ⟨spots, ?_, fun near => ?_⟩
  · cases reach with
    | run => exact spots
    | call =>
      obtain rfl := inside rfl
      rw [leaves, (active rfl).1, blocks]
      rfl
    | loop =>
      obtain rfl := inside rfl
      rw [leaves, (active rfl).1, blocks]
      refine takeWhile_append_of_pos fun x mem => ?_
      rw [plain rfl x mem]
      rfl
  · obtain rfl : passed = [] := by
      cases reach with
      | run => exact absurd rfl near
      | loop | call => exact inside rfl
    obtain ⟨rfl, rfl⟩ := active rfl
    exact ⟨rfl, rfl, rfl, blocks⟩

theorem Lowered.plain (lowered : Lowered .loop gone k k') : ∀ s ∈ gone, s.isLoop = false := by
  intro s mem
  have left : s ∈ k.leaves .loop := by rw [lowered.leaves]; exact mem_append_left _ mem
  simpa using mem_takeWhile_imp left

theorem Completed.lowered {p : Program} {v : Verb} (completed : Completed p k' k'' v)
    (far : v.reach? = some reach) (lowered : Lowered reach gone k k') : Completed p k k'' v := by
  cases completed with
  | exitTest stopped => exact .exitTest stopped
  | giveBack source function outer returning next =>
    cases far
    obtain ⟨function', back, outer', _⟩ := lowered.call nofun
    exact .giveBack (back ▸ source) (function.trans function') (outer.trans outer') returning next
  | again blocks inner function outer top next =>
    cases far
    obtain ⟨function', _, outer', blocks'⟩ := lowered.call nofun
    rw [blocks, ← append_assoc] at blocks'
    refine .again blocks' ?_ (function.trans function') (outer.trans outer') top next
    exact forall_mem_append.mpr ⟨lowered.plain, inner⟩
  | leave blocks inner block function outer top next =>
    cases far
    obtain ⟨function', _, outer', blocks'⟩ := lowered.call nofun
    rw [blocks, ← append_assoc] at blocks'
    refine .leave blocks' ?_ block (function.trans function') (outer.trans outer') top next
    exact forall_mem_append.mpr ⟨lowered.plain, inner⟩

end Lowering

section Owing

variable {o : Outline} {reach : Reach} {k k' : Control} {source : Option Int}

/-- Nothing waits yet on the last segment of a guard that the command leaves. -/
def Vacant (k : Control) (reach : Reach) : Prop :=
  ∀ s ∈ k.leaves reach, ∀ g, s.mark = .guard g →
    ¬ (g.phase = some .finishing ∧ g.pending.isSome = true)

theorem Waits.owed (waits : Waits o k source reach.ceiling reach.crosses k')
    (vacant : Vacant k reach) :
    ∃ gone place g rest name catchAt j last, Lowered reach (gone ++ [⟨place, .guard g⟩]) k
      (k'.withBlocks rest) ∧
      (∀ s ∈ gone, s.owesFinally o = false) ∧ Spot.owesFinally o ⟨place, .guard g⟩ = true ∧
      o.Spans place (.guard name catchAt (some j)) last ∧
      k'.Top ⟨place, .guard (g.finishing.holding (.command source reach.ceiling reach.crosses))⟩
        rest ∧
      k'.branch = some j ∧ k'.stopped = k.stopped ∧ k'.started = k.started ∧
        k'.resume = k.resume := by
  obtain @⟨passed, outer, t, above, rest, place, n, g, g', tiers, blocks, inside, left, gone,
    detains⟩ := waits
  have lowered : Lowered reach ((passed.flatMap Tier.blocks ++ above) ++ [⟨place, .guard g⟩]) k
      (k.unwound t rest outer) := by
    rw [append_assoc]
    refine lowered_unwound tiers (by rw [blocks]; simp) inside fun bounded x mem => ?_
    rcases mem_append.mp mem with early | last
    · exact (gone x early).1 bounded
    · cases mem_singleton.mp last
      rfl
  cases detains with
  | replaces block running occupied =>
    refine absurd ⟨running, occupied⟩ (vacant ⟨place, .guard g⟩ ?_ g rfl)
    rw [lowered.leaves]
    simp
  | finishes block owed =>
    refine ⟨_, place, g, rest, _, _, n, _, lowered.congr rfl rfl rfl rfl, ?_, ?_, block, rfl, rfl,
      rfl, rfl, rfl⟩
    · exact fun s mem => paid_of_passes (passes_above left gone s mem)
    · simp [Spot.owesFinally, block, owed]

theorem Clear.nothing_owed (clear : Clear o reach.ceiling (k.wayOut reach.crosses)) :
    ∀ s ∈ k.leaves reach, Paid o s := by
  cases reach with
  | run =>
    intro s mem
    obtain ⟨t, inside, present⟩ := mem_flatMap.mp mem
    exact Clear.paid clear t.blocks (mem_map_of_mem inside) s present
  | call => exact Clear.paid clear k.call.blocks (mem_singleton.mpr rfl)
  | loop =>
    have clear : Clear o true [k.leaves .loop ++ k.call.blocks.dropWhile fun s => !s.isLoop] := by
      rw [leaves, takeWhile_append_dropWhile]
      exact clear
    refine Clear.paid_inner clear fun s mem => ?_
    simpa using mem_takeWhile_imp mem

end Owing

end Control

section Executing

variable {p : Program} {m m' : Machine} {s : Nat} {c : Command} {v : Verb} {reach : Reach}
  {resuming : Bool} {r : Reply Unit}

/-- A command that leaves a round waits, or is at its loop. -/
theorem ran_dropped [p.Faithful] {next : Option Frame → Action Unit}
    (fits : m.control.Fits p.outline) (loop : ∃ x ∈ m.control.call.blocks, x.isLoop = true)
    (goes : resuming = false → ExitGoes p c m.vars) (waiting : next none = pure ())
    (ran : Ran (dropToLoop p c resuming >>= next) m r m') :
    (r = .ok () ∧ resuming = false ∧ Waits p.outline m.control m.here true false m'.control) ∨
    ∃ n f, (resuming = false → Clear p.outline true [m.control.call.blocks]) ∧
      Dropped m.control (.ok (some f)) n ∧ Ran (next (some f)) n r m' := by
  obtain ⟨x, mem, is_loop⟩ := loop
  rcases ran_bind ran with ⟨e, _, failed⟩ | ⟨out, n, left, ran⟩
  · rcases ran_dropToLoop fits failed with ⟨fresh, stays, _⟩ | ⟨_, wrong, _⟩ | ⟨_, gone⟩
    · exact absurd (goes fresh) stays
    · cases wrong
    · cases gone with
      | none none _ _ => cases is_loop.symm.trans (none x mem)
  · rcases ran_dropToLoop fits left with ⟨fresh, stays, _⟩ | ⟨fresh, same, waits⟩ | ⟨clear, gone⟩
    · exact absurd (goes fresh) stays
    · cases same
      rw [waiting] at ran
      obtain ⟨rfl, rfl⟩ := ran_pure ran
      exact .inl ⟨rfl, fresh, waits⟩
    · cases gone with
      | loop blocks inner is_loop top control =>
        exact .inr ⟨n, _, clear, .loop blocks inner is_loop top control, ran⟩

theorem ran_depart [p.Faithful] (fits : m.control.Fits p.outline) (here : m.Here s)
    (far : v.reach? = some reach)
    (loop : reach = .loop → ∃ x ∈ m.control.call.blocks, x.isLoop = true)
    (own : reach = .call → ∃ f, p.Links s f ∧ m.control.call.function = some f)
    (back : reach = .call → ∃ b : Nat, m.control.call.back = some (b : Int) ∧ b < p.commands.length)
    (goes : resuming = false → c.Goes p m.vars v) (ran : Ran (perform p c resuming v) m r m') :
    r = .ok () ∧
      ((resuming = false ∧ Waits p.outline m.control m.here reach.ceiling reach.crosses
        m'.control) ∨
      ((resuming = false → Clear p.outline reach.ceiling (m.control.wayOut reach.crosses)) ∧
        Completed p m.control m'.control v)) := by
  cases v with
  | again =>
    cases far
    rcases ran_dropped fits (loop rfl) goes rfl ran with
      ⟨rfl, fresh, waits⟩ | ⟨n, f, clear, gone, ran⟩
    · exact ⟨rfl, .inl ⟨fresh, waits⟩⟩
    · obtain ⟨rfl, above, rest, place, kind, complete, blocks, inner, control⟩ :=
        ran_againAt fits gone ran
      refine ⟨rfl, .inr ⟨clear, ?_⟩⟩
      rw [control]
      exact .again blocks inner rfl rfl rfl rfl
  | leave =>
    cases far
    rcases ran_dropped fits (loop rfl) goes rfl ran with
      ⟨rfl, fresh, waits⟩ | ⟨n, f, clear, gone, ran⟩
    · exact ⟨rfl, .inl ⟨fresh, waits⟩⟩
    · obtain ⟨rfl, above, rest, place, last, kind, complete, blocks, inner, block, control⟩ :=
        ran_leaveAt fits gone ran
      refine ⟨rfl, .inr ⟨clear, ?_⟩⟩
      rw [control]
      exact .leave blocks inner block rfl rfl rfl rfl
  | giveBack =>
    cases far
    obtain ⟨f, owned, function⟩ := own rfl
    obtain ⟨b, source, bound⟩ := back rfl
    rcases ran_giveBack fits here owned ran with
      ⟨foreign, _⟩ | ⟨_, ⟨fresh, stays, _⟩ | ⟨fresh, rfl, waits⟩ | ⟨clear, n, same, ran⟩⟩
    · exact absurd function foreign
    · exact absurd (goes fresh) stays
    · exact ⟨rfl, .inl ⟨fresh, waits⟩⟩
    · rcases ran_goBack ran with ⟨b', source', _, rfl, control⟩ | ⟨nowhere, _⟩
      · refine ⟨rfl, .inr ⟨clear, ?_⟩⟩
        rw [control, same]
        rw [same] at source'
        exact .giveBack source' rfl rfl rfl rfl
      · rw [same] at nowhere
        have := nowhere b source
        omega
  | exitTest =>
    cases far
    obtain ⟨rfl, ⟨fresh, waits⟩ | ⟨clear, control⟩⟩ := ran_exitTest fits ran
    · exact ⟨rfl, .inl ⟨fresh, waits⟩⟩
    · refine ⟨rfl, .inr ⟨clear, ?_⟩⟩
      rw [control]
      exact .exitTest rfl
  | _ => cases far

end Executing

end Runbook
