import Runbook.Proofs.Machine.Effects

namespace Runbook.Action

open Runbook.Control List

variable {p : Program} {m m' : Machine} {o : Outline} {ceiling : Bool} {f : Frame}
  {rest : List Frame} {n : Nat} {r : Reply Unit} {c : Call} {s : Spot}

section Owed

variable {f : Frame}

theorem segmentsOf_guard {place last : Nat} {name : String} {catchAt finallyAt : Option Nat}
    (block : p.Spans place (.guard name catchAt finallyAt) last) :
    segmentsOf p place = .ok ⟨catchAt, finallyAt, last⟩ := by
  unfold segmentsOf
  rw [block]

theorem owesFinally_spot (fits : f.spot.Fits p.outline) :
    owesFinally p f = .ok (f.spot.owesFinally p.outline) := by
  obtain ⟨place, saved, body⟩ := f
  cases body with
  | cond c | loop l => rfl
  | guard g =>
    cases fits with
    | @guard _ last _ name catchAt finallyAt block =>
      show (segmentsOf p place >>= fun s => pure (s.finallyAt.isSome && !g.finaled)) = _
      rw [segmentsOf_guard block]
      cases finallyAt <;> simp [Spot.owesFinally, Frame.spot, Body.mark, block]

theorem isSpent_spot (fits : f.spot.Fits p.outline) :
    isSpent p f = .ok (f.spot.isSpent p.outline) := by
  have owed := owesFinally_spot fits
  obtain ⟨place, saved, body⟩ := f
  cases body with
  | cond c | loop l => rfl
  | guard g =>
    unfold isSpent
    dsimp only
    rw [owed]
    by_cases trying : g.phase = some .trying
    · simp [trying, Spot.isSpent, Frame.spot, Body.mark]
    · simp [trying, Spot.isSpent, Frame.spot, Body.mark]

end Owed

inductive Met (o : Outline) (ceiling : Bool) (above : Nat) (frames : List Frame) : Passage → Prop
  | free (passed : ∀ f ∈ frames, f.spot.Passes o ceiling) : Met o ceiling above frames .free
  | blocked {gone rest} {f : Frame} (split : frames = gone ++ f :: rest) (bounded : ceiling = true)
      (passed : ∀ x ∈ gone, x.spot.Passes o ceiling) (loop : f.isLoop = true) :
      Met o ceiling above frames .blocked
  | halted {gone : List Frame} {rest} {f : Frame} {toll} (split : frames = gone ++ f :: rest)
      (passed : ∀ x ∈ gone, x.spot.Passes o ceiling) (asked : f.spot.toll o = some toll) :
      Met o ceiling above frames (.halted toll (above + gone.length))

theorem Met.cons {above : Nat} {out : Passage} (passes : f.spot.Passes o ceiling)
    (met : Met o ceiling (above + 1) rest out) : Met o ceiling above (f :: rest) out := by
  have both {gone : List Frame} (passed : ∀ x ∈ gone, x.spot.Passes o ceiling) :
      ∀ x ∈ f :: gone, x.spot.Passes o ceiling := by
    intro x mem
    rcases mem_cons.mp mem with rfl | mem
    · exact passes
    · exact passed x mem
  cases met with
  | free passed => exact .free (both passed)
  | blocked split bounded passed loop =>
    exact .blocked (by rw [split]; rfl) bounded (both passed) loop
  | @halted gone rest' g toll split passed asked =>
    have count : above + 1 + gone.length = above + (f :: gone).length := by
      simp only [length_cons]; omega
    rw [count]
    exact .halted (by rw [split]; rfl) (both passed) asked

theorem passage_met (frames : List Frame) (above : Nat)
    (fits : ∀ f ∈ frames, f.spot.Fits p.outline) :
    ∃ out, passage p ceiling above frames = .ok out ∧ Met p.outline ceiling above frames out := by
  induction frames generalizing above with
  | nil => exact ⟨.free, rfl, .free (by simp)⟩
  | cons f rest ih =>
    obtain ⟨out, further, met⟩ := ih (above + 1) fun x mem => fits x (mem_cons_of_mem f mem)
    have fits_f := fits f mem_cons_self
    unfold passage
    by_cases stops : (ceiling && f.isLoop) = true
    · rw [if_pos stops]
      have both := Bool.and_eq_true_iff.mp stops
      exact ⟨.blocked, rfl, @Met.blocked _ _ _ _ [] rest f rfl both.1 (by simp) both.2⟩
    · rw [if_neg stops]
      have inside : ceiling = true → f.spot.isLoop = false := by
        intro bounded
        rw [isLoop_spot]
        simpa [bounded] using stops
      cases body : f.body with
      | cond c =>
        exact ⟨out, further, met.cons ⟨inside, by simp [Spot.toll, Frame.spot, body, Body.mark]⟩⟩
      | loop l =>
        exact ⟨out, further, met.cons ⟨inside, by simp [Spot.toll, Frame.spot, body, Body.mark]⟩⟩
      | guard g =>
        dsimp only
        have mark : f.spot.mark = .guard g := by simp [Frame.spot, body, Body.mark]
        by_cases occupied : g.phase = some .finishing ∧ g.pending.isSome
        · rw [if_pos occupied]
          refine ⟨_, rfl, @Met.halted _ _ _ _ [] rest f .replace rfl (by simp) ?_⟩
          simp [Spot.toll, mark, occupied]
        · rw [if_neg occupied, owesFinally_spot fits_f]
          by_cases owed : f.spot.owesFinally p.outline = true
          · refine ⟨.halted .finish above, by rw [owed]; rfl, ?_⟩
            refine @Met.halted _ _ _ _ [] rest f .finish rfl (by simp) ?_
            simp [Spot.toll, mark, occupied, owed]
          · refine ⟨out, ?_, met.cons ⟨inside, by simp [Spot.toll, mark, occupied, owed]⟩⟩
            simp only [Bool.not_eq_true] at owed
            rw [owed]
            exact further

inductive Found (o : Outline) (ceiling : Bool) (calls : Nat) (levels : List (List Frame)) :
    Option Stop → Prop
  | none (clear : Clear o ceiling (levels.map (List.map Frame.spot))) :
      Found o ceiling calls levels none
  | some {passed : List (List Frame)} {more} {gone : List Frame} {rest} {f : Frame} {toll}
      (split : levels = passed ++ (gone ++ f :: rest) :: more)
      (left : ∀ d ∈ passed, ∀ x ∈ d, x.spot.Passes o ceiling)
      (gone_passed : ∀ x ∈ gone, x.spot.Passes o ceiling) (asked : f.spot.toll o = some toll) :
      Found o ceiling calls levels (some ⟨toll, calls + passed.length, gone.length⟩)

theorem findStop_found (levels : List (List Frame)) (calls : Nat)
    (fits : ∀ d ∈ levels, ∀ f ∈ d, f.spot.Fits p.outline) :
    ∃ out, findStop p ceiling calls levels = .ok out ∧
      Found p.outline ceiling calls levels out := by
  induction levels generalizing calls with
  | nil => exact ⟨none, rfl, .none .nil⟩
  | cons frames more ih =>
    obtain ⟨out, ran, met⟩ := @passage_met p ceiling frames 0 (fits frames mem_cons_self)
    unfold findStop
    rw [ran]
    cases met with
    | free passed =>
      obtain ⟨out, further, found⟩ := ih (calls + 1) fun d mem => fits d
        (mem_cons_of_mem frames mem)
      refine ⟨out, further, ?_⟩
      cases found with
      | none clear =>
        refine .none (.through ?_ clear)
        intro s mem
        obtain ⟨f, inside, rfl⟩ := mem_map.mp mem
        exact passed f inside
      | @some passed' more' gone rest f toll split left gone_passed asked =>
        have count : calls + 1 + passed'.length = calls + (frames :: passed').length := by
          simp only [length_cons]; omega
        rw [count]
        refine .some (by rw [split]; rfl) ?_ gone_passed asked
        intro d mem
        rcases mem_cons.mp mem with rfl | mem
        · exact passed
        · exact left d mem
    | @blocked gone rest f split bounded passed loop =>
      refine ⟨none, rfl, .none ?_⟩
      rw [split, map_cons, map_append, map_cons]
      refine .reached bounded ?_ (by rw [isLoop_spot]; exact loop)
      intro s mem
      obtain ⟨x, inside, rfl⟩ := mem_map.mp mem
      exact passed x inside
    | @halted gone rest f toll split passed asked =>
      refine ⟨_, rfl, ?_⟩
      rw [Nat.zero_add]
      exact @Found.some _ _ _ _ [] more gone rest f toll (by rw [split]; rfl) (by simp) passed asked

theorem ran_popBlocks (ran : Ran (popBlocks n) m r m') {gone : List Frame}
    (split : m.call.blocks = gone ++ rest) (count : gone.length = n) :
    r = .ok () ∧ m'.control = m.control.withBlocks (rest.map Frame.spot) ∧
      m'.call.blocks = rest := by
  induction n generalizing m gone with
  | zero =>
    obtain rfl := eq_nil_of_length_eq_zero count
    obtain ⟨rfl, rfl⟩ := ran_pure ran
    refine ⟨rfl, ?_, split⟩
    rw [nil_append] at split
    rw [← split, ← control_blocks, withBlocks_self]
  | succ n ih =>
    cases gone with
    | nil => cases count
    | cons f gone =>
      have ran := ran_bind_ok ran (run_pop_top split)
      have further := ih ran rfl (by simpa using count)
      exact further

theorem ran_popCalls (ran : Ran (popCalls p n) m r m') {passed outer : List Call}
    (split : m.calls = passed ++ c :: outer) (count : passed.length = n) :
    r = .ok () ∧ m'.control = { m.control with call := c.tier, outer := outer.map Call.tier } ∧
      m'.call = c ∧
      m'.outer = outer := by
  induction n generalizing m passed with
  | zero =>
    obtain rfl := eq_nil_of_length_eq_zero count
    obtain ⟨rfl, rfl⟩ := ran_pure ran
    obtain ⟨rfl, rfl⟩ := cons.inj split
    exact ⟨rfl, rfl, rfl, rfl⟩
  | succ n ih =>
    cases passed with
    | nil => cases count
    | cons first passed =>
      obtain ⟨_, around⟩ := cons.inj split
      cases outer_split : m.outer with
      | nil => rw [outer_split] at around; simp at around
      | cons next rest =>
        have ran := ran_bind_ok ran (run_popCall outer_split)
        have further := ih ran (outer_split.symm.trans around) (by simpa using count)
        exact further

theorem toll_eq_replace (asked : s.toll o = some .replace) :
    ∃ g, s.mark = .guard g ∧ g.phase = some .finishing ∧ g.pending.isSome = true := by
  unfold Spot.toll at asked
  split at asked
  · rename_i g mark
    split at asked
    · rename_i occupied
      exact ⟨g, mark, occupied⟩
    · split at asked <;> cases asked
  · cases asked

theorem toll_eq_finish (asked : s.toll o = some .finish) :
    ∃ g name catchAt finallyAt last, s.mark = .guard g ∧ g.finaled = false ∧
      o.Spans s.place (.guard name catchAt (some finallyAt)) last := by
  unfold Spot.toll at asked
  split at asked
  · rename_i g mark
    split at asked
    · cases asked
    · split at asked
      · rename_i owed
        unfold Spot.owesFinally at owed
        rw [mark] at owed
        split at owed
        · rename_i same block
          cases same
          exact ⟨g, _, _, _, _, mark, by simpa using owed, block⟩
        · cases owed
      · cases asked
  · cases asked

section Suspended

variable {f : Frame} {rest : List Frame} {g : Guard} {name : String} {catchAt : Option Nat}
  {last : Nat} {b : Bubble} {source : Option Int} {r : Reply Unit}

theorem ran_suspend_replace {finallyAt : Option Nat} [p.Faithful]
    (ran : Ran (suspend p .replace source b) m r m') (top : m.Top f rest) (body : f.body = .guard g)
    (block : p.Spans f.place (.guard name catchAt finallyAt) last) :
    r = .ok () ∧
      m'.control =
        (m.control.withBlocks (⟨f.place, .guard (g.holding b)⟩ :: rest.map Frame.spot)).goto
        last := by
  have holds {n : Machine} (ran : Ran (supersede p f b) n r m') (same : n.control = m.control)
      (top : n.Top f rest) : r = .ok () ∧
      m'.control = (m.control.withBlocks
        (⟨f.place, .guard (g.holding b)⟩ :: rest.map Frame.spot)).goto last := by
    have ran := ran_bind_ok ran (run_changeGuard top body)
    rw [segmentsOf_guard block] at ran
    obtain ⟨rfl, rfl⟩ := ran_done ran (run_branchTo (block.ended p.found).bound)
    rw [← same]
    exact ⟨rfl, rfl⟩
  have ran := ran_blocks_bind ran
  simp only [top] at ran
  split at ran
  · exact holds (ran_log_bind ran) rfl top
  · exact holds ran rfl top

theorem ran_suspend_finish {finallyAt : Nat} [p.Faithful]
    (ran : Ran (suspend p .finish source b) m r m') (top : m.Top f rest) (body : f.body = .guard g)
    (block : p.Spans f.place (.guard name catchAt (some finallyAt)) last) :
    r = .ok () ∧ m'.control =
      (m.control.withBlocks (⟨f.place, .guard (g.finishing.holding b)⟩ :: rest.map Frame.spot)).goto
        finallyAt := by
  have ended := block.ended p.found
  have bound := ended.bound
  have inside := (ended.grown.parts (finallyAt, .openFinally) (by simp [Form.parts])).2.1
  have ran := ran_blocks_bind ran
  simp only [top] at ran
  have ran := ran_bind_ok (ran_log_bind ran) (run_changeGuard top body)
  rw [segmentsOf_guard block] at ran
  obtain ⟨rfl, rfl⟩ := ran_done ran (@run_branchTo p _ finallyAt (by omega))
  exact ⟨rfl, rfl⟩

theorem spot_eq (mark : f.spot.mark = .guard g) :
    f.body = .guard g ∧ f.spot = ⟨f.place, .guard g⟩ := by
  have same : f.spot = ⟨f.place, .guard g⟩ := by rw [← mark]; rfl
  exact ⟨(spot_guard same).2, same⟩

theorem ran_suspend {toll : Toll} [p.Faithful] (ran : Ran (suspend p toll source b) m r m')
    (top : m.Top f rest) (fits : f.spot.Fits p.outline)
    (asked : f.spot.toll p.outline = some toll) :
    r = .ok () ∧ ∃ g g' n, f.spot = ⟨f.place, .guard g⟩ ∧ Detains p.outline f.place b g g' n ∧
      m'.control = (m.control.withBlocks (⟨f.place, .guard g'⟩ :: rest.map Frame.spot)).goto n := by
  cases toll with
  | replace =>
    obtain ⟨g, mark, running, occupied⟩ := toll_eq_replace asked
    obtain ⟨body, spot⟩ := spot_eq mark
    rw [spot] at fits
    cases fits with
    | guard block =>
      obtain ⟨rfl, control⟩ := ran_suspend_replace ran top body block
      exact ⟨rfl, g, _, _, spot, .replaces block running occupied, control⟩
  | finish =>
    obtain ⟨g, name, catchAt, finallyAt, last, mark, owed, block⟩ := toll_eq_finish asked
    obtain ⟨body, spot⟩ := spot_eq mark
    obtain ⟨rfl, control⟩ := ran_suspend_finish ran top body block
    exact ⟨rfl, g, _, _, spot, .finishes block owed, control⟩

end Suspended

theorem fits_of_blocks (fits : m.control.Fits p.outline) (present : c ∈ m.calls) :
    ∀ f ∈ c.blocks, f.spot.Fits p.outline := by
  intro f mem
  apply fits
  rw [Machine.spots_control]
  exact mem_map.mpr ⟨f, mem_flatMap.mpr ⟨c, present, mem⟩, rfl⟩

theorem passes_map {frames : List Frame} (passed : ∀ f ∈ frames, f.spot.Passes o ceiling) :
    ∀ s ∈ frames.map Frame.spot, s.Passes o ceiling := by
  intro s mem
  obtain ⟨f, inside, rfl⟩ := mem_map.mp mem
  exact passed f inside

/-- The calls among whose blocks a command may have to stop on its way out. -/
theorem exists_crossed (m : Machine) (crosses : Bool) :
    ∃ calls beyond : List Call, m.calls = calls ++ beyond ∧
      (if crosses = true then m.calls.map (·.blocks) else [m.call.blocks]) =
        calls.map (·.blocks) ∧
      m.control.wayOut crosses = (calls.map (·.blocks)).map (List.map Frame.spot) ∧
      (crosses = false → calls = [m.call]) := by
  cases crosses with
  | true =>
    exact ⟨m.calls, [], by simp, by simp, by simp [wayOut, control_tiers, Call.tier], nofun⟩
  | false => exact ⟨[m.call], m.outer, rfl, by simp, by simp [wayOut], fun _ => rfl⟩

theorem ran_bubbleCommand {source : Option Int} {crosses : Bool} {r : Reply Bool} [p.Faithful]
    (fits : m.control.Fits p.outline) (ran : Ran (bubbleCommand p source ceiling crosses) m r m') :
    (r = .ok false ∧ m' = m ∧ Clear p.outline ceiling (m.control.wayOut crosses)) ∨
    (r = .ok true ∧ Waits p.outline m.control source ceiling crosses m'.control) := by
  have ran := ran_get_bind ran
  dsimp only at ran
  obtain ⟨calls, beyond, all, levels, way, narrow⟩ := exists_crossed m crosses
  rw [levels] at ran
  have fits_levels : ∀ d ∈ calls.map (·.blocks), ∀ f ∈ d, f.spot.Fits p.outline := by
    intro d mem
    obtain ⟨c, inside, rfl⟩ := mem_map.mp mem
    exact fits_of_blocks fits (by rw [all]; exact mem_append_left _ inside)
  obtain ⟨out, stop, met⟩ := @findStop_found p ceiling _ 0 fits_levels
  rw [stop] at ran
  cases met with
  | none clear =>
    obtain ⟨rfl, rfl⟩ := ran_pure ran
    rw [← way] at clear
    exact .inl ⟨rfl, rfl, clear⟩
  | @some passed more gone rest f toll split left gone_passed asked =>
    right
    -- the stop as a place among the calls
    obtain ⟨passed', tail, rfl, rfl, tail_eq⟩ := map_eq_append_iff.mp split
    obtain ⟨c, outer, rfl, blocks, rfl⟩ := map_eq_cons_iff.mp tail_eq
    have calls_split : m.calls = passed' ++ c :: (outer ++ beyond) := by rw [all]; simp
    have inside : crosses = false → passed'.map Call.tier = [] := by
      intro narrow_way
      have single := narrow narrow_way
      cases passed' with
      | nil => rfl
      | cons first others => simp at single
    have tiers :
        m.control.tiers = passed'.map Call.tier ++ c.tier :: (outer ++ beyond).map Call.tier := by
      rw [control_tiers, calls_split]
      simp
    have tier_blocks : c.tier.blocks = gone.map Frame.spot ++ f.spot :: rest.map Frame.spot := by
      simp [Call.tier, blocks]
    have tiers_left : ∀ d ∈ passed'.map Call.tier, ∀ x ∈ d.blocks, x.Passes p.outline ceiling := by
      intro d mem
      obtain ⟨e, present, rfl⟩ := mem_map.mp mem
      exact passes_map (left e.blocks (mem_map.mpr ⟨e, present, rfl⟩))
    have fits_f : f.spot.Fits p.outline := by
      refine fits_of_blocks fits (c := c) ?_ f ?_
      · rw [calls_split]; simp
      · rw [blocks]; simp
    have ran : Ran (do
        popCalls p (0 + (passed'.map (·.blocks)).length)
        popBlocks gone.length
        suspend p toll source (.command source ceiling crosses)
        pure true) m r m' := ran
    rcases ran_bind ran with ⟨e, _, failed⟩ | ⟨x, m₁, popped, ran⟩
    · cases (ran_popCalls failed calls_split (by simp)).1
    obtain ⟨_, control₁, call₁, outer₁⟩ := ran_popCalls popped calls_split (by simp)
    rcases ran_bind ran with ⟨e, _, failed⟩ | ⟨x, m₂, left_blocks, ran⟩
    · cases (ran_popBlocks failed (by rw [call₁]; exact blocks) rfl).1
    obtain ⟨_, control₂, blocks₂⟩ := ran_popBlocks left_blocks (by rw [call₁]; exact blocks) rfl
    have control : ∀ bs, m₂.control.withBlocks bs =
        m.control.unwound c.tier bs ((outer ++ beyond).map Call.tier) := by
      intro bs
      rw [control₂, withBlocks_withBlocks, control₁]
      rfl
    rcases ran_bind ran with ⟨e, _, failed⟩ | ⟨x, m₃, waited, ran⟩
    · cases (ran_suspend failed blocks₂ fits_f asked).1
    obtain ⟨_, g, g', n, spot, detains, control₃⟩ := ran_suspend waited blocks₂ fits_f asked
    obtain ⟨rfl, rfl⟩ := ran_pure ran
    rw [spot] at tier_blocks
    refine ⟨rfl, ?_⟩
    rw [control₃, control]
    exact .on tiers tier_blocks inside tiers_left (passes_map gone_passed) detains

end Runbook.Action
