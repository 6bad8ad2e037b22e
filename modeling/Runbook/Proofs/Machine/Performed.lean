import Runbook.Proofs.Machine.Verbs
import Runbook.Proofs.Outline.Regions

namespace Runbook.Action

open Control List

variable {p : Program} {m m' : Machine} {i : Nat} {r : Reply Unit} {α : Type}
  {place dest owner : Nat} {x : Reply α} {E : Failure → Prop} {kind : LoopKind} {rounds : Rounds}
  {resuming ceiling crosses : Bool} {text expression : String} {c : Command} {f : Frame} {s : Spot}
  {v : Verb} {n : Machine}

theorem ran_isTop_bind {f : Bool → Action α} (ran : Ran (isTop place >>= f) m x m') :
    (∃ t rest, m.call.blocks = t :: rest ∧ t.place = place ∧ Ran (f true) m x m') ∨
      ((∀ s, m.control.call.blocks.head? = some s → s.place ≠ place) ∧ Ran (f false) m x m') := by
  have top :
      (isTop place).run.run m = (.ok (m.call.blocks.head?.any fun f => f.place = place), m) := by
    rw [isTop, run_bind, show blocks.run.run m = (.ok m.call.blocks, m) from rfl]
    cases m.call.blocks <;> rfl
  have ran := ran_bind_ok ran top
  rcases blocks : m.call.blocks with _ | ⟨t, rest⟩
  · rw [blocks] at ran
    exact .inr ⟨by simp [blocks], ran⟩
  · rw [blocks] at ran
    have ran : Ran (f (decide (t.place = place))) m x m' := ran
    by_cases at_place : t.place = place
    · rw [decide_eq_true at_place] at ran
      exact .inl ⟨t, rest, rfl, at_place, ran⟩
    · rw [decide_eq_false at_place] at ran
      refine .inr ⟨?_, ran⟩
      intro s head
      rw [control_blocks, blocks, map_cons, head?_cons] at head
      cases head
      exact at_place

theorem ran_enterLoop (reads : ∀ k, AtLoop k → rounds.Reads k E)
    (ran : Ran (enterLoop place kind rounds) m r m') :
    m'.control = m.control.push ⟨place, .loop kind false⟩ ∧ ∀ e, r = .error e → E e := by
  obtain ⟨prepare, start, _, _⟩ := reads (m.control.push ⟨place, .loop kind false⟩)
    ⟨kind, false, rfl⟩
  rcases ran_bind ran with ⟨e, _, failed⟩ | ⟨_, m₁, pushed, ran⟩
  · cases failed
  obtain ⟨opened, top⟩ : m₁.control = m.control.push ⟨place, .loop kind false⟩ ∧
      m₁.call.blocks = ⟨place, [], .loop { kind := kind }⟩ :: m.call.blocks := by
    obtain ⟨_, rfl⟩ := Prod.mk.inj pushed
    exact ⟨rfl, rfl⟩
  rw [← opened] at start ⊢
  rcases ran_bind ran with ⟨e, rfl, failed⟩ | ⟨names, m₂, prepared, ran⟩
  · obtain ⟨control, fails, _⟩ := prepare _ _ _ _ _ _ opened top failed
    refine ⟨control, fun e' same => ?_⟩
    cases same
    exact (fails e rfl).1
  rw [← (prepare _ _ _ _ _ _ opened top prepared).control] at start ⊢
  -- the snapshot and the declared names are no part of the control
  obtain ⟨m₃, same, ran⟩ : ∃ m₃ : Machine, m₃.control = m₂.control ∧ Ran (do
      rounds.start
      logEvent .info .loop (kind.word ++ " loop begins @" ++ toString (place + 1)) (some names))
        m₃ r m' := by
    have ran := ran_bind_ok (ran_get_bind ran) run_change
    refine ⟨_, ?_, ran⟩
    cases blocks : m₂.call.blocks with
    | nil => rfl
    | cons f rest => simp [Machine.control, Call.tier, blocks, Frame.spot]
  rw [← same] at start ⊢
  rcases ran_bind ran with ⟨e, rfl, failed⟩ | ⟨_, m₄, started, ran⟩
  · refine ⟨start.still failed, fun e' same => ?_⟩
    cases same
    exact start.fails failed
  · obtain ⟨rfl, rfl⟩ := ran_modify ran
    have same := start.still started
    exact ⟨same, by rintro _ ⟨⟩⟩

theorem ran_round {last : Nat} {complete : Bool} {rest : List Spot}
    (reads : ∀ k, AtLoop k → rounds.Reads k E) (bound : last < p.commands.length)
    (top : m.control.Top ⟨place, .loop kind complete⟩ rest)
    (ran : Ran (tryRound p rounds last) m r m') :
    (m'.control = m.control ∧ ∀ e, r = .error e → E e) ∨ (r = .ok () ∧
      m'.control = (m.control.withBlocks (⟨place, .loop kind true⟩ :: rest)).goto last) := by
  have goesOn := (reads m.control ⟨kind, complete, by rw [top]; rfl⟩).goesOn
  rcases ran_bind ran with ⟨e, rfl, failed⟩ | ⟨further, m₁, tested, ran⟩
  · refine .inl ⟨goesOn.still failed, fun e' same => ?_⟩
    cases same
    exact goesOn.fails failed
  have same := goesOn.still tested
  cases further with
  | true =>
    obtain ⟨rfl, rfl⟩ := ran_pure ran
    exact .inl ⟨same, nofun⟩
  | false =>
    obtain ⟨f, fs, blocks, spot, rfl⟩ := top_of_spots (m := m₁) (by rw [same]; exact top)
    obtain ⟨rfl, l, body, rfl, _⟩ := spot_loop spot
    have ran := ran_bind_ok ran (run_changeLoop blocks body)
    obtain ⟨rfl, rfl⟩ := ran_done ran (run_branchTo bound)
    rw [← same]
    exact .inr ⟨rfl, rfl⟩

theorem openLoop_move
    (reads : ∀ k, AtLoop k → rounds.Reads k (Failure.Arises (some (.openLoop kind)))) [p.Faithful]
    (fits : m.control.Fits p.outline) (here : m.Here i) (verb : p.Does i (.openLoop kind))
    (ran : Ran (openLoop p rounds) m r m') :
    Move p i resuming m.control (.openLoop kind) r m'.control := by
  obtain ⟨form, last, block, opening⟩ := block?_opening p.found verb rfl
  have bound := (block.ended p.found).bound
  cases form with
  | loop kind' =>
    cases opening
    have ran := ran_bind_ok ran (run_openerHere here block)
    rcases ran_isTop_bind ran with ⟨f, rest, top, at_place, ran⟩ | ⟨fresh, ran⟩
    · -- the loop is open already
      have spots := top_spot top
      obtain ⟨complete, spot⟩ :=
        (fits_top fits spots).loop_of_closing
          (by rw [show f.spot.place = i from at_place]; exact block) rfl
      rw [spot, show f.spot.place = i from at_place] at spots
      have advance := (reads m.control ⟨_, complete, by rw [spots]; rfl⟩).advance
      rcases ran_bind ran with ⟨e, rfl, failed⟩ | ⟨_, m₂, advanced, ran⟩
      · rw [advance.still failed]
        exact .fail (by nofun) (by nofun) e (excused_of_arises (advance.fails failed))
      have same := advance.still advanced
      rcases ran_round reads bound (by rw [same]; exact spots) ran with
        ⟨control, data⟩ | ⟨rfl, control⟩
      · rw [control, same]
        cases r with
        | error e => exact .fail (by nofun) (by nofun) e (excused_of_arises (data e rfl))
        | ok _ => exact .nextRound spots
      · rw [control, same]
        exact .lastRound block spots
    · rcases ran_bind ran with ⟨e, rfl, failed⟩ | ⟨_, m₂, entered, ran⟩
      · obtain ⟨control, data⟩ := ran_enterLoop reads failed
        rw [control]
        exact .enterLoop _ block fresh data
      obtain ⟨control, _⟩ := ran_enterLoop reads entered
      rcases ran_round reads bound (by rw [control]; rfl) ran with ⟨same, data⟩ | ⟨rfl, control'⟩
      · rw [same, control]
        exact .enterLoop r block fresh data
      · rw [control', control]
        exact .skipLoop block fresh
  | cond elseIfs orElse | guard name catchAt finallyAt | function word name => cases opening

theorem endLoop_move [p.Faithful] (fits : m.control.Fits p.outline) (here : m.Here i)
    (verb : p.Does i (.endLoop kind)) (ran : Ran (endLoop p) m r m') :
    Move p i resuming m.control (.endLoop kind) r m'.control := by
  obtain ⟨owner, form, owned, block, closing⟩ := block?_closing p.found verb rfl
  have begins := (block.ended p.found).grown.begins
  have bound := (block.ended p.found).bound
  rcases ran_ownTop_bind here owned ran with
    ⟨rfl, ⟨e, rfl, scope⟩, stray⟩ | ⟨f, rest, top, rfl, after⟩
  · exact .fail (by nofun) (by nofun) e (excused_stray rfl scope owned stray)
  have spots := top_spot top
  obtain ⟨complete, spot⟩ := (fits_top fits spots).loop_of_closing block closing
  obtain ⟨_, l, body, _, done⟩ := spot_loop spot
  rw [spot] at spots
  rw [body] at after
  dsimp only at after
  cases complete with
  | true =>
    rw [if_pos done] at after
    have after := ran_bind_ok after (run_pop_top top)
    obtain ⟨rfl, rfl⟩ := ran_modify after
    exact .endLoop owned spots
  | false =>
    rw [if_neg (by simp [done])] at after
    obtain ⟨rfl, rfl⟩ := ran_done after (@run_branchTo p _ f.place (by omega))
    exact .loopBack owned spots

inductive Dropped (k : Control) : Except Failure (Option Frame) → Machine → Prop
  | loop {m' : Machine} {above} {f : Frame} {rest : List Frame}
      (blocks : k.call.blocks = above ++ f.spot :: rest.map Frame.spot)
      (inner : ∀ s ∈ above, s.isLoop = false) (loop : f.isLoop = true)
      (top : m'.call.blocks = f :: rest)
      (control : m'.control = k.withBlocks (f.spot :: rest.map Frame.spot)) :
      Dropped k (.ok (some f)) m'
  | none {m' : Machine} (none : ∀ s ∈ k.call.blocks, s.isLoop = false)
      (control : m'.control = k.withBlocks []) (e : Failure) (scope : e.kind? = some .scope) :
      Dropped k (.error e) m'

theorem ran_unwindToLoop {x : Reply (Option Frame)} (ran : Ran (unwindToLoop p) m x m') :
    Dropped m.control x m' := by
  have plain {frames : List Frame} (none : ∀ f ∈ frames, f.isLoop = false) :
      ∀ s ∈ frames.map Frame.spot, s.isLoop = false := by
    intro s mem
    obtain ⟨f, inside, rfl⟩ := mem_map.mp mem
    rw [isLoop_spot]
    exact none f inside
  rcases ran_bind ran with ⟨e, _, failed⟩ | ⟨out, m₁, left, ran⟩
  · obtain ⟨_, _, _, ⟨_, _, _, _, _, _, wrong, _⟩ | ⟨_, wrong, _⟩⟩ :=
      ran_unwindFrom (ran_blocks_bind failed) rfl <;> cases wrong
  obtain ⟨_, _, control, which⟩ := ran_unwindFrom (ran_blocks_bind left) rfl
  rcases which with ⟨above, f, rest, split, inner, loop, same, top⟩ | ⟨none, same, top⟩
  · cases same
    obtain ⟨rfl, rfl⟩ := ran_pure ran
    rw [top] at control
    have blocks :
        m.control.call.blocks = above.map Frame.spot ++ f.spot :: rest.map Frame.spot := by
      rw [control_blocks, split, map_append, map_cons]
    exact .loop blocks (plain inner) loop top control
  · cases same
    rw [top] at control
    obtain ⟨rfl, rfl⟩ := Prod.mk.inj ran
    exact .none (plain none) control _ rfl

theorem ran_transfer {x : Reply Bool} [p.Faithful] (fits : m.control.Fits p.outline)
    (ran : Ran (transfer p ceiling crosses) m x m') :
    (x = .ok false ∧ m' = m ∧ Clear p.outline ceiling (m.control.wayOut crosses)) ∨
    (x = .ok true ∧ Waits p.outline m.control m.here ceiling crosses m'.control) :=
  ran_bubbleCommand fits (ran_get_bind ran)

theorem ran_transfer_bind {out : α} {next : Action α}
    [p.Faithful] (fits : m.control.Fits p.outline)
    (ran : Ran (do
      if ← transfer p ceiling crosses then return out
      next) m x m') :
    (x = .ok out ∧ Waits p.outline m.control m.here ceiling crosses m'.control) ∨
    (Clear p.outline ceiling (m.control.wayOut crosses) ∧ Ran next m x m') := by
  rcases ran_bind ran with ⟨e, _, failed⟩ | ⟨waited, m₁, left, ran⟩
  · rcases ran_transfer fits failed with ⟨wrong, _⟩ | ⟨wrong, _⟩ <;> cases wrong
  rcases ran_transfer fits left with ⟨same, rfl, clear⟩ | ⟨same, waits⟩
  · cases same
    exact .inr ⟨clear, ran⟩
  · cases same
    obtain ⟨rfl, rfl⟩ := ran_pure ran
    exact .inl ⟨rfl, waits⟩

def ExitGoes (p : Program) (c : Command) (vars : Env) : Prop :=
  c.target.isEmpty = true ∨ ∃ x after, p.evaluator c.target vars = (.ok x, after) ∧ x.truthy = true

theorem ran_eval_ok {x : Value} {after : Env} {r : Reply Value}
    (value : p.evaluator text m.vars = (.ok x, after)) (ran : Ran (eval p text) m r m') :
    r = .ok x := by
  exact ((ran_eval ran).2.1 x).mpr (by rw [value])

theorem ran_holds_of_goes {x : Reply Bool} (goes : ExitGoes p c m.vars)
    (some : c.target.isEmpty = false) (ran : Ran (holds p c.target) m x m') : x = .ok true := by
  rcases goes with none | ⟨v, after, value, truthy⟩
  · cases some.symm.trans none
  have truth : p.truth? c.target m.vars = .some true := by simp [Program.truth?, value, truthy]
  obtain ⟨_, ⟨_, _, _, wrong⟩ | ⟨_, rfl, same⟩⟩ := ran_holds ran
  · cases truth.symm.trans wrong
  · cases truth.symm.trans same
    rfl

theorem ran_dropToLoop {x : Reply (Option Frame)} [p.Faithful] (fits : m.control.Fits p.outline)
    (ran : Ran (dropToLoop p c resuming) m x m') :
    (resuming = false ∧ ¬ ExitGoes p c m.vars ∧ m'.control = m.control ∧
      (x = .ok none ∨ ∃ e, x = .error e ∧ e.kind? = some .eval)) ∨
    (resuming = false ∧ x = .ok none ∧ Waits p.outline m.control m.here true false m'.control) ∨
    ((resuming = false → Clear p.outline true [m.control.call.blocks]) ∧
      Dropped m.control x m') := by
  have held_up {n : Machine} (same : n.control = m.control) (fresh : resuming = false)
      (ran : Ran (leaveRound p) n x m') :
      (resuming = false ∧ x = .ok none ∧ Waits p.outline m.control m.here true false m'.control) ∨
      ((resuming = false → Clear p.outline true [m.control.call.blocks]) ∧
        Dropped m.control x m') := by
    rw [← same, ← here_of_control same]
    rcases ran_transfer_bind (by rw [same]; exact fits) ran with ⟨rfl, waits⟩ | ⟨clear, ran⟩
    · exact .inl ⟨fresh, rfl, waits⟩
    · exact .inr ⟨fun _ => clear, ran_unwindToLoop ran⟩
  unfold dropToLoop at ran
  cases resuming with
  | true => exact .inr (.inr ⟨nofun, ran_unwindToLoop ran⟩)
  | false =>
    rw [if_neg nofun] at ran
    split at ran
    · exact .inr (held_up rfl rfl ran)
    · rename_i some
      have some : c.target.isEmpty = false := by simpa using some
      rcases ran_bind ran with ⟨e, rfl, failed⟩ | ⟨held, m₁, tested, ran⟩
      · have reads := reads_holds (k := m.control) admits_self p c.target
        refine .inl ⟨rfl, fun goes => ?_, reads.still failed, .inr ⟨e, rfl, reads.fails failed⟩⟩
        cases ran_holds_of_goes goes some failed
      have same := (reads_holds admits_self p c.target).still tested
      cases held with
      | true => exact .inr (held_up same rfl ran)
      | false =>
        obtain ⟨rfl, rfl⟩ := ran_pure ran
        refine .inl ⟨rfl, fun goes => ?_, same, .inl rfl⟩
        cases ran_holds_of_goes goes some tested

theorem spot_of_isLoop (loop : f.isLoop = true) :
    ∃ kind complete, f.spot = ⟨f.place, .loop kind complete⟩ := by
  obtain ⟨place, saved, body⟩ := f
  cases body with
  | loop l => exact ⟨l.kind, l.complete, rfl⟩
  | cond c | guard g => cases loop

theorem place_lt_of_fits [p.Faithful] (fits : s.Fits p.outline) : s.place < p.commands.length := by
  cases fits with
  | cond block _ | loop block | guard block =>
    have ended := block.ended p.found
    have bound := ended.bound
    exact Nat.lt_trans ended.grown.begins bound

theorem fits_of_mem {k : Control} {o : Outline} (fits : k.Fits o) (mem : s ∈ k.call.blocks) :
    s.Fits o :=
  fits s (mem_flatMap.mpr ⟨k.call, mem_cons_self, mem⟩)

section

variable [p.Faithful] (fits : m.control.Fits p.outline)

include fits

theorem ran_dropToLoop_bind {next : Frame → Action Unit} (exit : Verb.role v = .exit)
    (ran : Ran (do match ← dropToLoop p c resuming with
      | some f => next f
      | none => return) m r m') :
    Move p i resuming m.control v r m'.control ∨
      ∃ m₁ f, (resuming = false → Clear p.outline true [m.control.call.blocks]) ∧
        Dropped m.control (.ok (some f)) m₁ ∧ Ran (next f) m₁ r m' := by
  rcases ran_bind ran with ⟨e, rfl, failed⟩ | ⟨out, m₁, dropped, ran⟩
  · left
    rcases ran_dropToLoop fits failed with
      ⟨_, _, same, wrong | ⟨_, cause, evaluating⟩⟩ | ⟨_, wrong, _⟩ | ⟨clear, dropped⟩
    · cases wrong
    · cases cause
      rw [same]
      exact .fail (by rintro rfl; cases exit) (by rintro rfl; cases exit) e
        (excused_of_kind evaluating (by decide))
    · cases wrong
    · cases dropped with
      | none none control _ scope =>
        rw [control]
        exact .noLoop exit clear none e scope
  rcases ran_dropToLoop fits dropped with
    ⟨free, _, same, out | ⟨_, wrong, _⟩⟩ | ⟨free, out, waits⟩ | ⟨clear, dropped⟩
  · cases out
    obtain ⟨rfl, rfl⟩ := ran_pure ran
    rw [same]
    exact .inl (.pass exit free)
  · cases wrong
  · cases out
    obtain ⟨rfl, rfl⟩ := ran_pure ran
    exact .inl (.waitExit exit free waits)
  · cases dropped with
    | @loop _ above f rest blocks inner loop top control =>
      exact .inr ⟨m₁, f, clear, .loop blocks inner loop top control, ran⟩

theorem ran_againAt (dropped : Dropped m.control (.ok (some f)) n)
    (ran : Ran (branchTo p (f.place : Nat)) n r m') :
    r = .ok () ∧ ∃ above rest place kind complete,
      m.control.call.blocks = above ++ ⟨place, .loop kind complete⟩ :: rest ∧
      (∀ s ∈ above, s.isLoop = false) ∧
      m'.control = (m.control.withBlocks (⟨place, .loop kind complete⟩ :: rest)).goto place := by
  cases dropped with
  | @loop _ above _ rest blocks inner loop top control =>
    have fit : f.spot.Fits p.outline := fits_of_mem fits (by rw [blocks]; simp)
    obtain ⟨kind, complete, spot⟩ := spot_of_isLoop loop
    obtain ⟨rfl, rfl⟩ := ran_done ran (@run_branchTo p _ f.place (place_lt_of_fits fit))
    rw [spot] at blocks control
    exact ⟨rfl, above, _, _, kind, complete, blocks, inner, congrArg (·.goto f.place) control⟩

theorem ran_leaveAt
    (dropped : Dropped m.control (.ok (some f)) n)
    (ran : Ran (do
      changeLoop fun l => { l with complete := true }
      branchTo p ((← orFault (lastOf p f.place) : Nat) : Int)) n r m') :
    r = .ok () ∧ ∃ above rest place last kind complete,
      m.control.call.blocks = above ++ ⟨place, .loop kind complete⟩ :: rest ∧
      (∀ s ∈ above, s.isLoop = false) ∧
      p.Spans place (.loop kind) last ∧
      m'.control = (m.control.withBlocks (⟨place, .loop kind true⟩ :: rest)).goto last := by
  cases dropped with
  | @loop _ above _ rest blocks inner loop top control =>
    have fit : f.spot.Fits p.outline := fits_of_mem fits (by rw [blocks]; simp)
    obtain ⟨kind, complete, spot⟩ := spot_of_isLoop loop
    obtain ⟨_, l, body, rfl, _⟩ := spot_loop spot
    rw [spot] at fit blocks
    cases fit with
    | @loop _ last _ _ block =>
      have ran := ran_bind_ok ran (run_changeLoop top body)
      have ends : lastOf p f.place = .ok last := by simp [lastOf, block]
      rw [ends] at ran
      obtain ⟨rfl, rfl⟩ := ran_done ran (run_branchTo (block.ended p.found).bound)
      have left :=
        congrArg (fun k => (k.withBlocks (⟨f.place, .loop l.kind true⟩ :: rest.map Frame.spot)).goto
          last) control
      exact ⟨rfl, above, _, _, last, l.kind, complete, blocks, inner, block, left⟩

theorem again_move (ran : Ran (again p c resuming) m r m') :
    Move p i resuming m.control .again r m'.control := by
  rcases ran_dropToLoop_bind fits (rfl : Verb.again.role = .exit) ran with
    move | ⟨m₁, f, clear, dropped, ran⟩
  · exact move
  obtain ⟨rfl, above, rest, place, kind, complete, blocks, inner, control⟩ :=
    ran_againAt fits dropped ran
  rw [control]
  exact .again clear blocks inner

theorem leave_move (ran : Ran (leave p c resuming) m r m') :
    Move p i resuming m.control .leave r m'.control := by
  rcases ran_dropToLoop_bind fits (rfl : Verb.leave.role = .exit) ran with
    move | ⟨m₁, f, clear, dropped, ran⟩
  · exact move
  obtain ⟨rfl, above, rest, place, last, kind, complete, blocks, inner, block, control⟩ :=
    ran_leaveAt fits dropped ran
  rw [control]
  exact .leave clear blocks inner block

end

theorem holdsDest_eq [p.Faithful] (fits : s.Fits p.outline) :
    holdsDest p s.place dest = .ok (decide (s.place ∈ opens p.commands dest)) := by
  obtain ⟨form, last, block⟩ : ∃ form last, p.Spans s.place form last := by
    cases fits with
    | cond block _ | loop block | guard block => exact ⟨_, _, block⟩
  unfold holdsDest
  rw [block]
  have within :
      ((s.place : Int) < dest ∧ (dest : Int) ≤ last) ↔ s.place ∈ opens p.commands dest := by
    rw [mem_opens_iff p.found]
    constructor
    · rintro ⟨begins, ends⟩
      exact ⟨form, last, block, by omega, by omega⟩
    · rintro ⟨form', last', other, begins, ends⟩
      cases block.symm.trans other
      exact ⟨by omega, by omega⟩
  simp only [within]

theorem ran_leaveConds {frames : List Frame} [p.Faithful]
    (fits : ∀ f ∈ frames, f.spot.Fits p.outline) (start : m.call.blocks = frames)
    (ran : Ran (leaveConds p dest frames) m r m') :
    r = .ok () ∧ ∃ left rest, frames.map Frame.spot = left ++ rest ∧
      (∀ s ∈ left, s.isCond = true ∧ s.place ∉ opens p.commands dest) ∧
      (∀ s, rest.head? = some s → s.isCond = true → s.place ∈ opens p.commands dest) ∧
      m'.control = m.control.withBlocks rest := by
  induction frames generalizing m with
  | nil =>
    obtain ⟨rfl, rfl⟩ := ran_pure ran
    exact ⟨rfl, [], [], rfl, by simp, by simp, by
      rw [← withBlocks_self m'.control, control_blocks, start]; rfl⟩
  | cons f rest ih =>
    have kept (holds : f.spot.isCond = true → f.spot.place ∈ opens p.commands dest)
        (same : m'.control = m.control) :
        ∃ left rest', (f :: rest).map Frame.spot = left ++ rest' ∧
          (∀ s ∈ left, s.isCond = true ∧ s.place ∉ opens p.commands dest) ∧
          (∀ s, rest'.head? = some s → s.isCond = true → s.place ∈ opens p.commands dest) ∧
          m'.control = m.control.withBlocks rest' := by
      refine ⟨[], (f :: rest).map Frame.spot, rfl, by simp, ?_, by
        rw [← start, ← control_blocks, withBlocks_self, same]⟩
      intro s head
      cases head
      exact holds
    unfold leaveConds at ran
    split at ran
    · rename_i c body
      have asked : holdsDest p f.place dest = .ok (decide (f.place ∈ opens p.commands dest)) :=
        holdsDest_eq (s := f.spot) (fits f mem_cons_self)
      rw [asked] at ran
      have after : Ran (if decide (f.place ∈ opens p.commands dest) then return else do
          let _ ← pop
          leaveConds p dest rest) m r m' := ran
      split at after
      · rename_i holds
        obtain ⟨rfl, rfl⟩ := ran_pure after
        exact ⟨rfl, kept (fun _ => of_decide_eq_true holds) rfl⟩
      · rename_i out
        have after := ran_bind_ok after (run_pop_top start)
        obtain ⟨done, left, rest', split, gone, head, control⟩ :=
          ih (fun f' mem => fits f' (mem_cons_of_mem f mem)) rfl after
        refine ⟨done, f.spot :: left, rest', by rw [map_cons, split]; rfl, ?_, head, control⟩
        refine forall_mem_cons.mpr ⟨⟨by simp [Spot.isCond, Frame.spot, body, Body.mark], ?_⟩, gone⟩
        exact fun inside => out (decide_eq_true inside)
    · rename_i other
      obtain ⟨rfl, rfl⟩ := ran_pure ran
      refine ⟨rfl, kept ?_ rfl⟩
      intro cond
      cases body : f.body with
      | cond c => exact absurd body (other c)
      | loop l | guard g => simp [Spot.isCond, Frame.spot, body, Body.mark] at cond

section

variable [p.Faithful] (fits : m.control.Fits p.outline) (here : m.Here i)

include fits here

theorem jump_move (jumps : v.jumps = true)
    (named : dest ≤ i → ∃ w, p.Does dest w ∧ w.declares = true) (ran : Ran (jump p dest) m r m') :
    Move p i resuming m.control v r m'.control := by
  have ran := ran_get_bind ran
  rw [here] at ran
  dsimp only at ran
  unfold checkJump at ran
  split at ran
  · rename_i region
    have ran : Ran (do
        leaveConds p dest (← blocks)
        branchTo p dest) m r m' := ran
    have ran := ran_blocks_bind ran
    rcases ran_bind ran with ⟨e, _, failed⟩ | ⟨_, m₁, left, ran⟩
    · cases (ran_leaveConds (fits_of_blocks fits mem_cons_self) rfl failed).1
    obtain ⟨_, gone, rest, split, out, head, control⟩ :=
      ran_leaveConds (fits_of_blocks fits mem_cons_self) rfl left
    by_cases bound : dest < p.commands.length
    · obtain ⟨rfl, rfl⟩ := ran_done ran (run_branchTo bound)
      have moved : Move p i resuming m.control v (.ok ()) ((m.control.withBlocks rest).goto dest) :=
        .jump jumps region split out head bound named
      rw [← control] at moved
      exact moved
    · obtain ⟨⟨e, rfl, kind⟩, control'⟩ := ran_branchTo_beyond ran (by omega)
      rw [control', control]
      exact .overjump jumps region split out (by omega) e kind
  · rcases ran_bind ran with ⟨e, rfl, failed⟩ | ⟨_, m₁, wrong, _⟩
    · rw [(reads_complain admits_self).still failed]
      have kind : e.kind? = some .jump := (reads_complain admits_self).fails failed
      refine .fail (by rintro rfl; cases jumps) (by rintro rfl; cases jumps) e
        ⟨?_, fun _ => jumps, ?_⟩
      · rintro f rfl
        cases kind
      · intro wrong
        cases kind.symm.trans wrong
    · cases wrong

theorem goto_move {label : String} (jumps : v.jumps = true) (ran : Ran (goto p label) m r m') :
    Move p i resuming m.control v r m'.control := by
  unfold goto at ran
  split at ran
  · obtain ⟨rfl, rfl⟩ := Prod.mk.inj ran
    exact .fail (by rintro rfl; cases jumps) (by rintro rfl; cases jumps) _
      (excused_of_kind (show _ = some Kind.undefined from rfl) (by decide))
  · rename_i place got
    exact jump_move fits here jumps (fun _ => verbAt_of_symbol p.found got) ran

theorem gotoIf_move (ran : Ran (gotoIf p c) m r m') :
    Move p i resuming m.control .gotoIf r m'.control := by
  rcases ran_bind ran with ⟨e, rfl, failed⟩ | ⟨held, m₁, tested, ran⟩
  · rw [(reads_holds admits_self p c.target).still failed]
    have evaluating := (reads_holds admits_self p c.target).fails failed
    exact .fail (by nofun) (by nofun) e (excused_of_kind evaluating (by decide))
  have same := (reads_holds admits_self p c.target).still tested
  rw [← same]
  cases held with
  | true => exact goto_move (by rw [same]; exact fits) ((here_of_control same).trans here) rfl ran
  | false =>
    obtain ⟨rfl, rfl⟩ := ran_pure ran
    exact .stay rfl

theorem skipNext_move (ran : Ran (skipNext p c) m r m') :
    Move p i resuming m.control .skipNext r m'.control := by
  rcases ran_bind ran with ⟨e, rfl, failed⟩ | ⟨n, m₁, counted, ran⟩
  · rw [(reads_skipCount admits_self).still failed]
    have evaluating := (reads_skipCount admits_self).fails failed
    exact .fail (by nofun) (by nofun) e (excused_of_kind evaluating (by decide))
  have same := (reads_skipCount admits_self).still counted
  rw [← same]
  split at ran
  · have ran := ran_get_bind ran
    rw [here_of_control same, here] at ran
    have ran : Ran (jump p ((i + n + 1 : Nat) : Int)) m₁ r m' := by simpa using ran
    exact jump_move (by rw [same]; exact fits) ((here_of_control same).trans here) rfl
      (by omega) ran
  · obtain ⟨rfl, rfl⟩ := ran_pure ran
    exact .stay rfl

end

theorem function?_spans {name : String} (known : function? p name = some place) :
    ∃ word name last, p.Spans place (.function word name) last := by
  unfold function? at known
  split at known
  · cases known
  · split at known
    · rename_i block
      cases known
      exact ⟨_, _, _, block⟩
    · cases known

theorem call_move [p.Faithful] (ran : Ran (call p c) m r m') :
    Move p i resuming m.control .call r m'.control := by
  unfold call at ran
  split at ran
  · obtain ⟨rfl, rfl⟩ := Prod.mk.inj ran
    by_cases back : m.call.returning = true ∧ m.call.back = m.here
    · exact .lostCall back.1 back.2 _ rfl nofun
    · exact .fail (by nofun) (fun _ => back) _
        (excused_of_kind (show _ = some Kind.undefined from rfl) (by decide))
  rename_i place function
  obtain ⟨word, name, last, block⟩ := function?_spans function
  have ended := (block.ended p.found).grown.begins
  have bound := (block.ended p.found).bound
  have ran := ran_get_bind ran
  split at ran
  · rename_i back
    cases around : m.outer with
    | nil =>
      rw [Ran, run_bind, run_popCall_alone around] at ran
      obtain ⟨rfl, rfl⟩ := Prod.mk.inj ran
      exact .lostCall back.1 back.2 _ rfl fun _ => by rw [control_outer, around]; rfl
    | cons next outer =>
      have ran := ran_bind_ok ran (run_popCall around)
      obtain ⟨rfl, rfl⟩ := ran_modify ran
      exact .leaveCall (by rw [control_outer, around]; rfl) back.1 back.2
  · rename_i fresh
    rcases ran_bind ran with ⟨e, rfl, failed⟩ | ⟨args, m₁, evaluated, ran⟩
    · rw [(reads_argumentsFrom admits_self p _ _).still failed]
      have evaluating := (reads_argumentsFrom admits_self p _ _).fails failed
      exact .fail (by nofun) (fun _ => fresh) e (excused_of_kind evaluating (by decide))
    have same := (reads_argumentsFrom admits_self p _ _).still evaluated
    have ran : Ran (branchTo p (place : Nat)) { m₁ with
        vars := _, call :=
          { function := some place, name := _, args := _, back := m.here, saved := _ }
        outer := m₁.call :: m₁.outer, logs := _ } r m' := ran
    obtain ⟨rfl, rfl⟩ := ran_done ran (run_branchTo (by omega))
    have entered : Move p i resuming m.control .call (.ok ()) ({ m₁.control with
        call := { function := some place, back := m.here }, outer :=
          m₁.control.call :: m₁.control.outer }.goto place) := by
      rw [same]
      exact .enterCall block fresh
    exact entered

theorem openFunction_move {word : FunctionWord} [p.Faithful] (here : m.Here i)
    (verb : p.Does i (.openFunction word)) (ran : Ran (openFunction p) m r m') :
    Move p i resuming m.control (.openFunction word) r m'.control := by
  obtain ⟨form, last, block, opening⟩ := block?_opening p.found verb rfl
  cases form with
  | function word' name =>
    have ran := ran_bind_ok ran (run_openerHere here block)
    have ran := ran_get_bind ran
    split at ran
    · rename_i own
      obtain ⟨rfl, rfl⟩ := ran_modify ran
      exact .enterFunction own
    · rename_i other
      have ran : Ran (do
          logEvent .info .call ("skipping over function '" ++ name ++ "'")
          branchTo p (last : Nat)) m r m' := ran
      obtain ⟨rfl, rfl⟩ := ran_done (ran_log_bind ran) (run_branchTo (block.ended p.found).bound)
      exact .skipFunction other block
  | cond elseIfs orElse | guard name catchAt finallyAt | loop kind => cases opening

def BackGoes (p : Program) (expression : String) (vars : Env) : Prop :=
  expression.isEmpty = true ∨ ∃ x after, p.evaluator expression vars = (.ok x, after)

theorem ran_goBack (ran : Ran (goBack p) m r m') :
    (∃ back : Nat, m.control.call.back = some (back : Int) ∧ back < p.commands.length ∧ r = .ok () ∧
        m'.control = { m.control with call := { m.control.call with returning := true } }.goto
          back) ∨
      ((∀ place : Nat, m.control.call.back = some (place : Int) → p.commands.length ≤ place) ∧
        (∃ e, r = .error e) ∧
        m'.control = { m.control with call := { m.control.call with returning := true } }) := by
  have ran :
      Ran (branchBack p m.call.back) { m with call := { m.call with returning := true } } r m' :=
    ran
  exact ran_branchBack ran

section

variable [p.Faithful] (fits : m.control.Fits p.outline)

include fits

theorem ran_giveBack (here : m.Here i) (owned : p.Links i owner)
    (ran : Ran (giveBack p expression resuming) m r m') :
    (m.control.call.function ≠ some owner ∧ r = .ok () ∧ m' = m) ∨
    (m.control.call.function = some owner ∧
      ((resuming = false ∧ ¬ BackGoes p expression m.vars ∧
        (∃ e, r = .error e ∧ e.kind? = some .eval) ∧ m'.control = m.control) ∨
      (resuming = false ∧ r = .ok () ∧ Waits p.outline m.control m.here false false m'.control) ∨
      ((resuming = false → Clear p.outline false [m.control.call.blocks]) ∧
        ∃ n, n.control = m.control ∧ Ran (goBack p) n r m'))) := by
  have ran := ran_bind_ok ran (run_ownerHere here owned)
  have ran := ran_get_bind ran
  split at ran
  · rename_i other
    obtain ⟨rfl, rfl⟩ := ran_pure ran
    exact .inl ⟨other, rfl, rfl⟩
  rename_i own
  refine .inr ⟨by simpa using own, ?_⟩
  have held_up {n : Machine} (ran : Ran (turnBack p) n r m') (same : n.control = m.control)
      (fresh : resuming = false) :
      (resuming = false ∧ r = .ok () ∧ Waits p.outline m.control m.here false false m'.control) ∨
      ((resuming = false → Clear p.outline false [m.control.call.blocks]) ∧
        ∃ n, n.control = m.control ∧ Ran (goBack p) n r m') := by
    rw [← same, ← here_of_control same]
    rcases ran_transfer_bind (by rw [same]; exact fits) ran with ⟨rfl, waits⟩ | ⟨clear, ran⟩
    · exact .inl ⟨fresh, rfl, waits⟩
    · exact .inr ⟨fun _ => clear, n, rfl, ran⟩
  cases resuming with
  | true => exact .inr (.inr ⟨nofun, m, rfl, ran⟩)
  | false =>
    rw [if_neg nofun] at ran
    split at ran
    · exact .inr (held_up ran rfl rfl)
    · rename_i some
      rcases ran_bind ran with ⟨e, rfl, failed⟩ | ⟨result, m₂, evaluated, ran⟩
      · have reads := reads_eval (k := m.control) admits_self p expression
        refine .inl ⟨rfl, ?_, ⟨e, rfl, reads.fails failed⟩, reads.still failed⟩
        rintro (none | ⟨x, after, value⟩)
        · exact some none
        · cases ran_eval_ok value failed
      have ran := ran_bind_ok ran rfl
      have same : m₂.control = m.control := (reads_eval admits_self p expression).still evaluated
      exact .inr (held_up ran same rfl)

theorem giveBack_move (here : m.Here i) (gives : v.givesBack = true) (owned : p.Links i owner)
    (ran : Ran (giveBack p expression resuming) m r m') :
    Move p i resuming m.control v r m'.control := by
  rcases ran_giveBack fits here owned ran with
    ⟨foreign, rfl, rfl⟩ | ⟨own,
      ⟨_, _, ⟨e, rfl, evaluating⟩, same⟩ | ⟨fresh, rfl, waits⟩ | ⟨clear, n, same, ran⟩⟩
  · exact .foreign gives owned foreign
  · rw [same]
    exact .fail (by rintro rfl; cases gives) (by rintro rfl; cases gives) e
      (excused_of_kind evaluating (by decide))
  · exact .waitBack gives owned own fresh waits
  · rw [← same] at own clear ⊢
    rcases ran_goBack ran with ⟨_, source, bound, rfl, control⟩ | ⟨nowhere, ⟨e, rfl⟩, control⟩
    · rw [control]
      exact .giveBack gives owned own clear source bound
    · rw [control]
      exact .lostBack gives owned own nowhere e

theorem ran_exitTest (ran : Ran (exitTest p resuming) m r m') :
    r = .ok () ∧ ((resuming = false ∧ Waits p.outline m.control m.here false true m'.control) ∨
      ((resuming = false → Clear p.outline false (m.control.tiers.map Tier.blocks)) ∧
        m'.control = { m.control with stopped := true })) := by
  have stop (ran : Ran endRun m r m') :
      r = .ok () ∧ m'.control = { m.control with stopped := true } := by
    obtain ⟨rfl, rfl⟩ := Prod.mk.inj ran
    exact ⟨rfl, rfl⟩
  cases resuming with
  | true => exact ⟨(stop ran).1, .inr ⟨nofun, (stop ran).2⟩⟩
  | false =>
    rcases ran_transfer_bind fits ran with ⟨rfl, waits⟩ | ⟨clear, ran⟩
    · exact ⟨rfl, .inl ⟨rfl, waits⟩⟩
    · exact ⟨(stop ran).1, .inr ⟨fun _ => clear, (stop ran).2⟩⟩

theorem exitTest_move (ran : Ran (exitTest p resuming) m r m') :
    Move p i resuming m.control .exitTest r m'.control := by
  obtain ⟨rfl, ⟨fresh, waits⟩ | ⟨clear, control⟩⟩ := ran_exitTest fits ran
  · exact .waitExitTest fresh waits
  · rw [control]
    exact .stop clear

end

theorem ran_deprecated_bind {old new : String} {next : Action Unit}
    (ran : Ran (do
      deprecated old new
      next) m r m') : ∃ m₁, m₁.control = m.control ∧ Ran next m₁ r m' := by
  refine ⟨_, ?_, ran_log_bind ran⟩
  rfl

theorem load_move {word : LoadWord} {format : Format} (ran : Ran (loadVars p format c) m r m')
    (digits : format = .json → word = .json) :
    Move p i resuming m.control (.load word) r m'.control := by
  have reads : Reads m.control (Failure.Arises (some (.load word))) (loadVars p format c) := by
    have file : .file ∈ faultTopics (some (.load word)) := by cases word <;> decide
    refine reads_loadVars grants_arises
      ⟨fun _ => ⟨nofun, nofun⟩, fun f about => Fault.arises_of_mem about file, ?_⟩ p c
    intro json f about
    rw [digits json]
    exact Fault.arises_of_mem about (by decide)
  rw [reads.still ran]
  cases r with
  | ok _ => exact .stay rfl
  | error e => exact .fail (by nofun) (by nofun) e (excused_of_arises (reads.fails ran))

theorem perform_move [p.Faithful] (fits : m.control.Fits p.outline) (here : m.Here i)
    (verb : p.Does i v) (ran : Ran (perform p c resuming v) m r m') :
    Move p i resuming m.control v r m'.control := by
  cases v with
  | label =>
    obtain ⟨rfl, rfl⟩ := ran_pure ran
    exact .stay rfl
  | goto => exact goto_move fits here rfl ran
  | gotoIf => exact gotoIf_move fits here ran
  | skipNext => exact skipNext_move fits here ran
  | openIf => exact openIf_move here verb ran
  | elseIf => exact elseIf_move fits here verb ran
  | orElse => exact orElse_move fits here verb ran
  | endIf => exact endIf_move fits here verb ran
  | openTry => exact openTry_move here verb ran
  | openCatch => exact openCatch_move fits here verb ran
  | openFinally => exact openFinally_move fits here verb ran
  | endTry => exact endTry_move fits here verb ran
  | openLoop kind =>
    exact openLoop_move (fun _ looped => rounds_reads grants_arises (.inl looped)) fits
      here verb ran
  | endLoop kind => exact endLoop_move fits here verb ran
  | again => exact again_move fits ran
  | leave => exact leave_move fits ran
  | call => exact call_move ran
  | openFunction word =>
    cases word with
    | function => exact openFunction_move here verb ran
    | script =>
      obtain ⟨m₁, same, ran⟩ := ran_deprecated_bind ran
      rw [← same]
      exact openFunction_move ((here_of_control same).trans here) verb ran
  | giveBack =>
    obtain ⟨owner, owned, _⟩ := block?_giveBack p.found verb
    exact giveBack_move fits here rfl owned ran
  | endFunction word =>
    obtain ⟨owner, _, owned, _⟩ := block?_closing p.found verb rfl
    cases word with
    | function => exact giveBack_move fits here rfl owned ran
    | script =>
      obtain ⟨m₁, same, ran⟩ := ran_deprecated_bind ran
      rw [← same]
      exact giveBack_move (by rw [same]; exact fits) ((here_of_control same).trans here)
        rfl owned ran
  | exitTest => exact exitTest_move fits ran
  | load source =>
    cases source with
    | json => exact load_move ran fun _ => rfl
    | xml => exact load_move ran nofun
    | plain =>
      obtain ⟨m₁, same, ran⟩ := ran_deprecated_bind ran
      rw [← same]
      exact load_move ran nofun

end Runbook.Action
