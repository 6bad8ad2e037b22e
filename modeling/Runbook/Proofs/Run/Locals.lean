import Runbook.Proofs.Expr.Writes
import Runbook.Proofs.Run.Breaking
import Runbook.Proofs.Run.Driven
import Runbook.Proofs.Run.Isolation

namespace Runbook

open Runbook.Action List

/-- The variables that are assigned or updated inside an expression that may itself be an
assignment. -/
def Expr.inner : Expr → List String
  | .assign _ _ value => value.targets
  | .update _ _ _ => []
  | e => e.targets

theorem Expr.targets_subset (e : Expr) : e.targets ⊆ e.assigned?.toList ++ e.inner := by
  cases e with
  | assign target _ value | update target _ _ => simp [targets, assigned?, inner]
  | _ => exact subset_append_right _ _

variable {name : String} {p : Program} {vars : Env} {names : List String}

theorem Expr.mem_targetsAll {es : List Expr} (mem : name ∈ targetsAll es) :
    ∃ e ∈ es, name ∈ e.targets := by
  induction es with
  | nil => cases mem
  | cons e es ih =>
    rcases mem_append.mp mem with first | later
    · exact ⟨e, mem_cons_self, first⟩
    · obtain ⟨e', present, inside⟩ := ih later
      exact ⟨e', mem_cons_of_mem _ present, inside⟩

def Machine.saves (m : Machine) : List Snapshot := m.layers.map StackLayer.saved

/-- A loop is open over the snapshots `base`, and its own gives the name `name` the value `v` back.
Or it has been left, and the name has this value, unless some other that was left then has the name
as well. -/
inductive Held (name : String) (v : Option Value) (base : List Snapshot) :
    List Snapshot → Env → Prop
  | opened (above : List Snapshot) {saved} {vars : Env} (filled : saved ≠ [])
      (gives : ∀ vars : Env, (vars.restore saved).get? name = v) :
      Held name v base (above ++ saved :: base) vars
  | left (gone : List Snapshot) {rest} {vars : Env} (split : base = gone ++ rest)
      (value : (∀ s ∈ gone, name ∉ s.names) → vars.get? name = v) : Held name v base rest vars

section Held

variable {name : String} {v : Option Value} {base saves : List Snapshot} {vars : Env} {w : Powers}
  {m m' : Machine} {saved : Snapshot}

theorem Env.get?_restore_other (other : name ∉ saved.names) (vars : Env) :
    (vars.restore saved).get? name = vars.get? name := by
  induction saved generalizing vars with
  | nil => rfl
  | cons entry rest ih =>
    obtain ⟨first, others⟩ := not_or.mp fun mem => other (mem_cons.mpr mem)
    have step : (vars.restore (entry :: rest)).get? name = (vars.restoreEntry entry).get? name :=
      ih others _
    rw [step, Env.get?_restoreEntry, if_neg (Ne.symm first)]

theorem Held.pop (held : Held name v base (saved :: saves) vars) :
    Held name v base saves (vars.restore saved) := by
  generalize whole : saved :: saves = all at held
  cases held with
  | opened above filled gives =>
    cases above with
    | nil =>
      obtain ⟨rfl, rfl⟩ := cons.inj whole
      exact .left [] rfl fun _ => gives vars
    | cons _ above =>
      obtain ⟨rfl, rfl⟩ := cons.inj whole
      exact .opened above filled gives
  | left gone split value =>
    subst whole
    refine .left (gone ++ [saved]) (by rw [split, append_assoc]; rfl) fun free => ?_
    rw [forall_mem_append] at free
    rw [Env.get?_restore_other (free.2 saved mem_cons_self)]
    exact value free.1

theorem Held.pops {gone : List Snapshot} (held : Held name v base (gone ++ saves) vars) :
    Held name v base saves (gone.foldl Env.restore vars) := by
  induction gone generalizing vars with
  | nil => exact held
  | cons saved gone ih => exact ih held.pop

theorem Held.keeps {vars' : Env} (held : Held name v base saves vars)
    (same : vars'.get? name = vars.get? name) : Held name v base saves vars' := by
  cases held with
  | opened above filled gives => exact .opened above filled gives
  | left gone split value => exact .left gone split fun free => same.trans (value free)

theorem saves_of_calls (calls : m'.calls = m.calls) : m'.saves = m.saves := by
  rw [Machine.saves, layers_of_calls calls]
  rfl

theorem saves_block {f : Frame} {rest : List Frame} (top : m.Top f rest) :
    m.saves = f.saved :: { m with call := { m.call with blocks := rest } : Machine }.saves := by
  rw [Machine.saves, layers_block top]
  rfl

theorem saves_mark (m : Machine) {returning : Bool} :
    { m with call := { m.call with returning := returning } : Machine }.saves = m.saves := by
  simp [Machine.saves, Machine.layers, Machine.calls, Call.layers, StackLayer.saved]

theorem Machine.Step.held (step : m.Step w m') (guards : ∀ place, ¬ w.guards place)
    (grows : ¬ w.grows) (keeps : ¬ w.writes name) (held : Held name v base m.saves m.vars) :
    Held name v base m'.saves m'.vars := by
  cases step with
  | still calls _ vars =>
    rw [saves_of_calls calls]
    exact held.keeps (vars name keeps)
  | change top later =>
    rw [saves_block top] at held
    rw [saves_block rfl, later.saved]
    exact held
  | mark returning => rwa [saves_mark]
  | leave _ top =>
    rw [saves_block top] at held
    exact held.pop
  | leaveCall _ around =>
    rw [Machine.saves, layers_call around, map_append] at held
    dsimp only
    rw [Action.release_eq]
    exact held.pops
  | guard allowed _ => exact absurd allowed (guards _)
  | block allowed _ _ _ | keep allowed _ _ _ | call allowed _ _ _ => exact absurd allowed grows

theorem Machine.Works.held (works : m.Works w m') (guards : ∀ place, ¬ w.guards place)
    (grows : ¬ w.grows) (keeps : ¬ w.writes name) (held : Held name v base m.saves m.vars) :
    Held name v base m'.saves m'.vars := by
  induction works with
  | refl => exact held
  | tail _ step ih => exact step.held guards grows keeps ih

def Machine.Keeping (name : String) (v : Option Value) (base : List Snapshot) (m : Machine) :
    Prop :=
  ∃ above saved, m.saves = above ++ saved :: base ∧ saved ≠ [] ∧
    ∀ vars : Env, (vars.restore saved).get? name = v

theorem Machine.Keeping.held (keeping : m.Keeping name v base) :
    Held name v base m.saves m.vars := by
  obtain ⟨above, saved, saves, filled, gives⟩ := keeping
  rw [saves]
  exact .opened above filled gives

theorem Held.keeping (held : Held name v base m.saves m.vars)
    (high : base.length < m.saves.length) : m.Keeping name v base := by
  generalize whole : m.saves = saves at held
  cases held with
  | opened above filled gives => exact ⟨above, _, whole, filled, gives⟩
  | left _ split _ =>
    rw [split, whole, length_append] at high
    omega

theorem Machine.Step.saves_suffix (step : m.Step w m') (guards : ∀ place, ¬ w.guards place)
    (grows : ¬ w.grows) : m'.saves <:+ m.saves := by
  cases step with
  | still calls _ _ => rw [saves_of_calls calls]
  | change top later => rw [saves_block top, saves_block rfl, later.saved]
  | mark returning => rw [saves_mark]
  | leave _ top => rw [saves_block top]; exact suffix_cons _ _
  | leaveCall _ around =>
    rw [Machine.saves, Machine.saves, layers_call around, map_append]
    exact suffix_append _ _
  | guard allowed _ => exact absurd allowed (guards _)
  | block allowed _ _ _ | keep allowed _ _ _ | call allowed _ _ _ => exact absurd allowed grows

theorem Machine.Works.saves_suffix (works : m.Works w m') (guards : ∀ place, ¬ w.guards place)
    (grows : ¬ w.grows) : m'.saves <:+ m.saves := by
  induction works with
  | refl => exact suffix_rfl
  | tail _ step ih => exact (step.saves_suffix guards grows).trans ih

theorem Machine.Works.stays (works : m.Works w m') (guards : ∀ place, ¬ w.guards place)
    (grows : ¬ w.grows) (held : Held name v base m.saves m.vars)
    (high : base.length < m'.saves.length) : m'.Keeping name v base := by
  have suffix := works.saves_suffix guards grows
  obtain ⟨above, saved, saves, filled, gives⟩ := held.keeping (high.trans_le suffix.length_le)
  obtain ⟨gone, split⟩ := suffix
  rw [saves] at split
  rcases append_eq_append_iff.mp split with ⟨above', _, inner⟩ | ⟨extra, _, inner⟩
  · exact ⟨above', saved, inner, filled, gives⟩
  · -- nothing of the loop's own snapshot is gone, as more are left than there were before the loop
    have lengths := congrArg List.length inner
    rw [length_cons, length_append] at lengths
    obtain rfl : extra = [] := length_eq_zero_iff.mp (by omega)
    exact ⟨[], saved, inner.symm, filled, gives⟩

theorem Machine.Step.keeping (step : m.Step w m') (leaves : ¬ w.leaves)
    (keeping : m.Keeping name v base) : m'.Keeping name v base := by
  obtain ⟨above, saved, saves, filled, gives⟩ := keeping
  have grown {s : Snapshot} (more : m'.saves = s :: m.saves) : m'.Keeping name v base :=
    ⟨s :: above, saved, by rw [more, saves]; rfl, filled, gives⟩
  cases step with
  | still calls _ _ => exact ⟨above, saved, by rw [saves_of_calls calls, saves], filled, gives⟩
  | change top later =>
    exact ⟨above, saved, by rw [← saves, saves_block top, saves_block rfl, later.saved],
      filled, gives⟩
  | mark returning => exact ⟨above, saved, (saves_mark m).trans saves, filled, gives⟩
  | leave allowed _ | leaveCall allowed _ => exact absurd allowed leaves
  | guard _ _ | block _ _ _ _ => exact grown (saves_block rfl)
  | keep _ names top _ =>
    rw [saves_block top] at saves
    cases above with
    | nil => exact absurd (cons.inj saves).1.symm filled
    | cons _ above =>
      refine ⟨m.vars.capture names :: above, saved, ?_, filled, gives⟩
      rw [saves_block rfl, (cons.inj saves).2]
      rfl
  | call _ c names _ =>
    refine grown (s := m.vars.capture names) ?_
    rw [Machine.saves, layers_call rfl]
    rfl

theorem Machine.Works.keeping (works : m.Works w m') (leaves : ¬ w.leaves)
    (keeping : m.Keeping name v base) : m'.Keeping name v base := by
  induction works with
  | refl => exact keeping
  | tail _ step ih => exact step.keeping leaves ih

theorem Machine.Tidies.held (tidies : m.Tidies w m') (keeping : m.Keeping name v base) :
    Held name v base m'.saves m'.vars := by
  obtain ⟨x, first, last⟩ := tidies
  exact Machine.Works.held last nofun id id (first.keeping id keeping).held

end Held

section Laps

variable {p : Program} {name : String} {v : Option Value} {base : List Snapshot} {m m' : Machine}
  {s : Session} {i : Nat} {c : Command}

theorem tidies_dispatch {r : Reply (Option String)} (ran : Ran (Host.dispatch p c) m r m') :
    m.Tidies .all m' := by
  rcases ran_dispatch ran with ⟨_, _, executed, _⟩ | ⟨_, ran⟩
  · exact tidies_execute trivial (fun _ _ _ => trivial) executed
  · exact ⟨_, acts_host.ran ran, .refl⟩

/-- The guard at this place has no filter that writes the variable. -/
def Program.FilterSpares (p : Program) (name : String) (place : Nat) : Prop :=
  ∀ s c, segmentsOf p place = .ok s → s.catchAt = some c →
    ∀ vars, (p.evaluator (targetAt p c) vars).2.get? name = vars.get? name

/-- If an error is raised in the lap, no guard that was open before has a filter that writes the
variable. -/
def Lap.Spares (p : Program) (t : Lap) (name : String) : Prop :=
  ∀ e, t.verdict.cause? = some e → t.before.GuardsIn (p.FilterSpares name)

/-- A loop over the snapshots `base` still has its snapshot if it is open after the lap. If it is
not, the name has its value. -/
structure Lap.Holds (p : Program) (t : Lap) (name : String) (v : Option Value)
    (base : List Snapshot) : Prop where
  left : t.Spares p name → Held name v base t.after.saves t.after.vars
  stays : base.length < t.after.saves.length → t.after.Keeping name v base

theorem guardsIn_dispatch {P : Nat → Prop} {e : Failure} [p.Faithful] (here : m.Here i)
    (there : p.Has i c) (ran : Ran (Host.dispatch p c) m (.error e) m') (inside : m.GuardsIn P) :
    m'.GuardsIn P := by
  rcases ran_dispatch ran with ⟨r, _, executed, failed⟩ | ⟨_, ran⟩
  · -- a command that opens a guard does not fail
    have other : c.verb? ≠ some .openTry := by
      intro verb
      obtain ⟨r', same, performed⟩ := ran_execute verb executed
      rw [same, (ran_openTry (m := { m with resume := none }) here
        (verbAt_of_at there verb) performed).1] at failed
      cases failed
    have tidies := tidies_execute (w := { grows := True }) trivial
      (fun verb => absurd verb other) executed
    exact Machine.Works.guardsIn tidies.works nofun inside
  · exact Machine.Works.guardsIn ((acts_host (w := {})).ran ran) nofun inside

theorem Held.routed {e : Failure} {x : Reply Bool} (held : Held name v base m.saves m.vars)
    (spares : m.GuardsIn (p.FilterSpares name)) (ran : Ran (route p e) m x m') :
    Held name v base m'.saves m'.vars := by
  have screens : m.GuardsIn (Screens { writes := (· ≠ name) } p) := by
    intro f mem guard s c segments owed vars other same
    obtain rfl : other = name := not_not.mp same
    exact spares f mem guard s c segments owed vars
  have works := works_route (w := { writes := (· ≠ name) }) nofun screens ran
  exact Machine.Works.held works nofun id (fun other => other rfl) held

theorem Session.lap_holds {t : Lap} {m₁ m₂ : Machine} {r : Reply (Option String)} [p.Faithful]
    (fetched : Fetched p t.before t.place c m₁) (calls : m₁.calls = t.before.calls)
    (ran : Ran (Host.dispatch p c) m₁ r m₂)
    (routed : t.after = m₂ ∨ (∃ e, r = .error e) ∧ ∃ e x, t.verdict.cause? = some e ∧
      Ran (route p (.error e)) m₂ x t.after)
    (held : Held name v base m₂.saves m₂.vars) : t.Holds p name v base := by
  rcases routed with same | ⟨⟨e, rfl⟩, cause, x, raised, routed⟩
  · rw [← same] at held
    exact ⟨fun _ => held, held.keeping⟩
  · have works := works_route (w := {}) nofun screens_free routed
    refine ⟨fun spares => ?_, Machine.Works.stays works nofun id held⟩
    have before : m₁.GuardsIn (p.FilterSpares name) := frames_of_calls (spares cause raised) calls
    exact held.routed (guardsIn_dispatch fetched.here fetched.command ran before) routed

/-- The machines before the laps of a run that begins at whatever place. -/
structure Machine.Underway (p : Program) (m : Machine) : Prop where
  firm : m.control.Firm (fun _ => True) p
  fresh : m.started = false → m.branch = none

theorem Fetched.underway {m₁ : Machine} (fetched : Fetched p m i c m₁)
    (fresh : m.started = false → m.branch = none) :
    m₁.started = true ∧ m₁.branch = none ∧ m₁.stopped = false := by
  have ran := ran_get_bind fetched.ran
  split at ran
  · cases (ran_pure ran).1
  rename_i running
  rcases ran_bind ran with ⟨_, wrong, _⟩ | ⟨_, m₂, aimed, ran⟩
  · cases wrong
  have aims : m₂.started = true ∧ m₂.branch = none ∧ m₂.stopped = m.stopped := by
    have aimed := ran_get_bind aimed
    split at aimed
    · rename_i early
      obtain ⟨_, rfl⟩ := Prod.mk.inj aimed
      exact ⟨rfl, fresh (by simpa using early), rfl⟩
    · rename_i started
      split at aimed
      · obtain ⟨_, rfl⟩ := Prod.mk.inj aimed
        exact ⟨by simpa using started, rfl, rfl⟩
      · rename_i none
        obtain ⟨_, rfl⟩ := ran_pure aimed
        exact ⟨by simpa using started, none, rfl⟩
  rcases ran_bind ran with ⟨_, wrong, _⟩ | ⟨found, _, sought, ran⟩
  · cases wrong
  obtain ⟨rfl, _⟩ := ran_orFault sought
  cases found with
  | none => cases (Prod.mk.inj ran).1
  | some _ =>
    obtain ⟨_, rfl⟩ := Prod.mk.inj ran
    exact ⟨aims.1, aims.2.1, aims.2.2.trans (by simpa using running)⟩

theorem Dispatched.started {r : Reply Unit} (dispatched : Dispatched p c m r m') :
    m'.started = m.started := by
  cases dispatched with
  | control _ ran =>
    exact (tidies_execute (w := .all) trivial (fun _ _ _ => trivial) ran).works.same.2
  | host _ same => exact congrArg Control.started same

theorem Machine.Underway.turn {verdict : Verdict} [p.Faithful] (underway : m.Underway p)
    (turn : Turn p m i verdict m') : m'.Underway p := by
  have started : m'.started = true := by
    cases turn with
    | done fetched dispatched | broken fetched dispatched =>
      exact dispatched.started.trans (fetched.underway underway.fresh).1
    | routed fetched dispatched ran | astray fetched dispatched ran =>
      have routed := (works_route (w := {}) nofun screens_free ran).same.2
      exact routed.trans (dispatched.started.trans (fetched.underway underway.fresh).1)
  refine ⟨turn.firm underway.firm fun _ _ _ => trivial, fun fresh => ?_⟩
  cases started.symm.trans fresh

theorem Session.lap_held {t : Lap} [p.Faithful] (fetches : Fetches p s.machine)
    (before : t.before = s.machine) (turn : s.turn? p = some (t.place, t.verdict, t.after))
    (keeping : t.before.Keeping name v base) : t.Holds p name v base := by
  obtain ⟨c, m₁, r, m₂, fetched, _, calls, ran, routed⟩ := lap_runs fetches turn
  rw [← before] at fetched calls
  have keeping : m₁.Keeping name v base := by
    unfold Machine.Keeping
    rwa [saves_of_calls calls]
  exact lap_holds fetched calls ran routed ((tidies_dispatch ran).held keeping)

theorem openLoop_keeping {kind : LoopKind} {vars' : Env} {call : Call} {outer : List Call}
    {logs : Array Log} {r : Reply Unit} {last : Nat} {cursor : Cursor}
    (block : p.Spans i (.loop kind) last) (fresh : ∀ f rest, call.blocks = f :: rest → f.place ≠ i)
    (planned : effect (Loop.plan p c kind) i vars = (.ok (names, cursor), vars'))
    (listed : name ∈ names)
    (ran : Ran (openLoop p (rounds p c kind)) { still vars call outer i with logs := logs } r m') :
    m'.Keeping name (vars'.get? name) { still vars call outer i with logs := logs }.saves := by
  have keeping (cursor : Cursor) (logs' : Array Log) :
    { begun vars' call outer i kind cursor names with logs := logs' }.Keeping name (vars'.get? name)
    { still vars call outer i with logs := logs }.saves := by
    refine ⟨[], vars'.capture names, rfl, fun empty => ?_, fun _ => ?_⟩
    · have mem : name ∈ (vars'.capture names).names := Env.mem_names_capture.mpr listed
      rw [empty] at mem
      cases mem
    · rw [Env.get?_restore_capture, if_pos listed]
  have entered {r : Reply Unit} {n : Machine}
      (ran : Ran (enterLoop i kind (rounds p c kind))
      { still vars call outer i with logs := logs } r n) :
      n.Keeping name (vars'.get? name) { still vars call outer i with logs := logs }.saves := by
    rcases ran_enterLoop ran with ⟨e, failed⟩ | ⟨names', cursor', vars'', logs', planned', further⟩
    · have tracks := tracks_prepare p c kind vars call outer i [] i
      rw [planned] at tracks
      obtain ⟨_, _, _, yields⟩ := tracks
      obtain ⟨_, ran'⟩ := yields logs
      cases (Prod.mk.inj (failed.symm.trans ran')).1
    · obtain ⟨same, rfl⟩ := Prod.mk.inj (planned.symm.trans planned')
      cases same
      exact ((acts_beginRounds (w := Powers.all.first) (rounds_acts p c kind)).ran further).keeping
        id (keeping cursor logs')
  have further := ran_bind_ok ran (run_openerHere rfl block)
  rcases ran_isTop_bind further with ⟨f, rest, top, at_place, _⟩ | ⟨_, further⟩
  · exact absurd at_place (fresh f rest top)
  rcases ran_bind further with ⟨e, rfl, failed⟩ | ⟨_, m₁, done, further⟩
  · exact entered failed
  · exact ((acts_tryRound (w := Powers.all.first) (rounds_acts p c kind).goesOn).ran
      further).keeping id (entered done)

theorem Session.lap_begins {t : Lap} [p.Faithful] (fetches : Fetches p s.machine)
    (underway : t.before.Underway p) (before : t.before = s.machine)
    (turn : s.turn? p = some (t.place, t.verdict, t.after)) (begins : t.Begins p names vars)
    (listed : name ∈ names)
    (fresh : ∀ f rest, t.before.call.blocks = f :: rest → f.place ≠ t.place) :
    t.Holds p name (vars.get? name) t.before.saves := by
  obtain ⟨c', m₁, r, m₂, fetched, same, calls, ran, routed⟩ := lap_runs fetches turn
  rw [← before] at fetched same calls
  obtain ⟨c, kind, cursor, there, verb, planned⟩ := begins
  obtain rfl : c = c' := Option.some.inj (there.symm.trans fetched.command)
  refine lap_holds fetched calls ran routed ?_
  have own := verbAt_of_at there verb
  obtain ⟨form, last, block, opening⟩ := block?_opening p.found own rfl
  obtain rfl : form = .loop kind := by cases form <;> cases opening; rfl
  rcases ran_dispatch ran with ⟨_, _, executed, _⟩ | ⟨none, _⟩
  case inr => cases verb.symm.trans none
  obtain ⟨_, _, performed⟩ := ran_execute verb executed
  obtain ⟨started, branch, running⟩ := fetched.underway underway.fresh
  rw [eq_still fetched.here started branch running, same] at performed
  rw [← (cons.inj calls).1] at fresh
  have keeping := openLoop_keeping block fresh planned listed performed
  have base : { still t.before.vars m₁.call m₁.outer t.place with logs := m₁.logs }.saves =
      t.before.saves :=
    saves_of_calls calls
  rw [base] at keeping
  exact keeping.held

theorem Session.laps_held {count : Nat} {life later : List Lap} {last : Lap} [p.Faithful]
    (start : 0 ≤ p.start) (underway : s.machine.Underway p)
    (history : s.laps p count = life ++ last :: later) (spares : last.Spares p name)
    (stays : ∀ t ∈ life, base.length < t.after.saves.length)
    (keeping : s.machine.Keeping name v base) :
    Held name v base last.after.saves last.after.vars := by
  induction life generalizing s count with
  | nil =>
    obtain ⟨before, turn, _⟩ := laps_first (underway.firm.fetches start) history
    exact (lap_held (underway.firm.fetches start) before turn (before ▸ keeping)).left spares
  | cons t life ih =>
    obtain ⟨before, turn, none | ⟨s', n, turned, _, rest, _, after⟩⟩ :=
      laps_first (underway.firm.fetches start) history
    · cases (append_eq_nil_iff.mp none).2
    have next := (lap_held (underway.firm.fetches start) before turn (before ▸ keeping)).stays
      (stays t mem_cons_self)
    rw [← after] at next
    exact ih (underway.turn turned) rest (fun l mem => stays l (mem_cons_of_mem _ mem)) next

end Laps

theorem subset_addNew (names more : List String) :
    names ⊆ addNew names more ∧ more ⊆ addNew names more := by
  induction more generalizing names with
  | nil => exact ⟨List.Subset.refl _, List.nil_subset _⟩
  | cons name more ih =>
    obtain ⟨old, new⟩ := ih (if names.contains name then names else names ++ [name])
    have kept : names ⊆ if names.contains name then names else names ++ [name] := by
      split
      · exact List.Subset.refl _
      · exact subset_append_left _ _
    have added : name ∈ if names.contains name then names else names ++ [name] := by
      split
      · rename_i known
        exact contains_iff_mem.mp known
      · exact mem_append_right _ mem_cons_self
    exact ⟨List.Subset.trans kept old, cons_subset.mpr ⟨old added, new⟩⟩

theorem plan_counter {c : Command} {i : Nat} {vars' : Env} {cursor : Cursor}
    {init condition step : String} (parts : Split.list ';' c.target = [init, condition, step])
    (planned : effect (Loop.plan p c .counter) i vars = (.ok (names, cursor), vars')) :
    vars' = vars ∧ ∃ assigned, assignedNames p.patterns init = .ok assigned ∧ assigned ⊆ names := by
  unfold effect at planned
  split at planned
  rename_i r m ran
  obtain ⟨rfl, rfl⟩ := Prod.mk.inj planned
  have ran : Ran (Loop.plan p c .counter) { vars := vars, here := some (i : Int) }
      (.ok (names, cursor)) m := ran
  unfold Loop.plan at ran
  simp only [parts] at ran
  rcases ran_bind ran with ⟨_, wrong, _⟩ | ⟨_, m₁, required, ran⟩
  · cases wrong
  rcases ran_bind ran with ⟨_, wrong, _⟩ | ⟨given, m₂, named, ran⟩
  · cases wrong
  rcases ran_bind ran with ⟨_, wrong, _⟩ | ⟨assigned, m₃, collected, ran⟩
  · cases wrong
  obtain ⟨same, rfl⟩ := ran_pure ran
  cases same
  have first : m₁.vars = vars := by
    unfold require at required
    split at required
    · cases required
    · rw [(ran_pure required).2]
  have second : m₂.vars = m₁.vars := by
    unfold Loop.givenNames at named
    split at named
    · rw [(ran_pure named).2]
    · have named := ran_get_bind named
      unfold orError at named
      split at named
      · rw [(ran_pure named).2]
      · cases named
  unfold namesAssigned at collected
  split at collected
  · split at collected
    · rename_i known
      obtain ⟨same, rfl⟩ := ran_pure collected
      cases same
      exact ⟨second.trans first, assigned, known, (subset_addNew given assigned).2⟩
    all_goals cases collected
  · cases collected

theorem evaluate_changes {patterns : Matcher} {text : String} {env : Env}
    (changes : (evaluate patterns text env).2.get? name ≠ env.get? name) :
    ∃ s names, Statement.read patterns text = .ok s ∧ assignedNames patterns text = .ok names ∧
      (name ∈ names ∨ ∃ e ∈ s.items, name ∈ e.inner) := by
  have full : Text.isBlankText text = false := by
    by_contra blank
    exact changes (by rw [evaluate, if_pos (by simpa using blank)])
  rcases evaluate_writes with same | ⟨s, read, writes⟩
  · exact absurd (by rw [same]) changes
  have target : name ∈ s.targets := by
    by_contra other
    exact changes (writes.get? other)
  obtain ⟨e, item, inside⟩ := Expr.mem_targetsAll target
  refine ⟨s, s.items.filterMap Expr.assigned?, read, ?_, ?_⟩
  · rw [assignedNames, if_neg (by simp [full]), Statement.readNamed, read]
    rfl
  · rcases mem_append.mp (e.targets_subset inside) with whole | inner
    · exact .inl (mem_filterMap.mpr ⟨e, item, Option.mem_toList.mp whole⟩)
    · exact .inr ⟨e, item, inner⟩

/-- A loop with the local names `names` begins in the lap `enter`, when the variables are `vars`. It
is open after the laps `life` and left in the lap `last`; the first of all these laps is `enter`. -/
structure LoopLife (p : Program) (names : List String) (vars : Env) (enter : Lap) (life : List Lap)
    (last : Lap) : Prop where
  first : (life ++ [last]).head? = some enter
  begins : enter.Begins p names vars
  fresh : ∀ f rest, enter.before.call.blocks = f :: rest → f.place ≠ enter.place
  stays : ∀ t ∈ life, enter.before.layers.length < t.after.layers.length
  left : last.after.layers.length ≤ enter.before.layers.length

theorem LoopLife.restores {s : Session} {count : Nat} {life later : List Lap} {enter last : Lap}
    (lived : LoopLife p names vars enter life last) [p.Faithful] (start : 0 ≤ p.start)
    (underway : s.machine.Underway p) (history : s.laps p count = life ++ last :: later)
    (listed : name ∈ names) (spares : last.Spares p name)
    (free : ∀ x ∈ enter.before.layers.take (enter.before.layers.length - last.after.layers.length),
      name ∉ x.saved.names) :
    last.after.vars.get? name = vars.get? name := by
  have fetches := underway.firm.fetches start
  have held : Held name (vars.get? name) enter.before.saves last.after.saves last.after.vars := by
    cases life with
    | nil =>
      obtain rfl : last = enter := Option.some.inj lived.first
      obtain ⟨before, turn, _⟩ := Session.laps_first fetches history
      exact (Session.lap_begins fetches (before ▸ underway) before turn lived.begins listed
        lived.fresh).left spares
    | cons t life =>
      obtain rfl : t = enter := Option.some.inj lived.first
      obtain ⟨before, turn, none | ⟨s', n, turned, _, rest, _, after⟩⟩ :=
        Session.laps_first fetches history
      · cases (append_eq_nil_iff.mp none).2
      have begun := Session.lap_begins fetches (before ▸ underway) before turn lived.begins
        listed lived.fresh
      have high (l : Lap) (mem : l ∈ t :: life) : t.before.saves.length < l.after.saves.length := by
        rw [Machine.saves, Machine.saves, length_map, length_map]
        exact lived.stays l mem
      have keeping := begun.stays (high t mem_cons_self)
      rw [← after] at keeping
      exact Session.laps_held start (underway.turn turned) rest spares
        (fun l mem => high l (mem_cons_of_mem _ mem)) keeping
  have low : last.after.saves.length ≤ enter.before.saves.length := by
    rw [Machine.saves, Machine.saves, length_map, length_map]
    exact lived.left
  generalize whole : last.after.saves = saves at held low
  cases held with
  | opened above _ _ =>
    rw [length_append, length_cons] at low
    omega
  | left gone split value =>
    refine value ?_
    subst whole
    have count : enter.before.layers.length - last.after.layers.length = gone.length := by
      have lengths := congrArg List.length split
      rw [length_append, Machine.saves, Machine.saves, length_map, length_map] at lengths
      omega
    have all : (enter.before.layers.take gone.length).map StackLayer.saved = gone := by
      rw [map_take]
      show enter.before.saves.take _ = _
      rw [split, take_left]
    rw [count] at free
    rw [← all]
    exact forall_mem_map.mpr free

/-- The variables of the first statement of a loop are local, unless an assignment inside another
expression gives them their values: what the statement changes else is among the names that it
assigns. These have the value, or the absence, from before the loop when it is left in whatever way,
unless another loop or call is left as well that has the name, or a filter on the way of an error
writes it. -/
theorem init_variables_local (patterns : Matcher) (text name : String) (env : Env) :
    ((evaluate patterns text env).2.get? name ≠ env.get? name →
      ∃ s names, Statement.read patterns text = .ok s ∧ assignedNames patterns text = .ok names ∧
        (name ∈ names ∨ ∃ e ∈ s.items, name ∈ e.inner)) ∧
    ∀ {q p : Program} {inputs vars : Env} {limit : Nat} {earlier life later : List Lap}
      {enter last : Lap} {c : Command} {init condition step : String} {names : List String},
      q.outlined = .ok p → 0 ≤ q.start →
      Session.laps p limit { machine := { vars := inputs } } = earlier ++ (life ++ last :: later) →
      LoopLife p names vars enter life last → p.commands[enter.place]? = some c →
      c.verb? = some (.openLoop .counter) → Split.list ';' c.target = [init, condition, step] →
      ∃ assigned, assignedNames p.patterns init = .ok assigned ∧ assigned ⊆ names ∧
        ∀ name ∈ names, last.Spares p name →
        (∀ x ∈ enter.before.layers.take (enter.before.layers.length - last.after.layers.length),
          name ∉ x.saved.names) →
        last.after.vars.get? name = enter.before.vars.get? name := by
  refine ⟨evaluate_changes, ?_⟩
  intro q p inputs vars limit earlier life later enter last c init condition step names outlined
    start history lived there verb parts
  obtain ⟨_, same⟩ := faithful_of_outlined outlined
  have start : 0 ≤ p.start := by rwa [same]
  obtain ⟨c', kind, cursor, there', verb', planned⟩ := lived.begins
  obtain rfl : c' = c := Option.some.inj (there'.symm.trans there)
  cases verb'.symm.trans verb
  obtain ⟨rfl, assigned, known, part⟩ := plan_counter parts planned
  refine ⟨assigned, known, part, fun name listed spares free => ?_⟩
  cases whole : life ++ last :: later with
  | nil => cases (append_eq_nil_iff.mp whole).2
  | cons t rest =>
    rw [whole] at history
    have fetches (m : Machine) (underway : m.Underway p) : Fetches p m :=
      underway.firm.fetches start
    obtain ⟨s, n, underway, first, _⟩ := Session.laps_along fetches
      (fun _ _ _ _ underway turn _ => underway.turn turn) ⟨firm_start, fun _ => rfl⟩ history
    rw [← whole] at first
    exact lived.restores start underway first listed spares free

def lostSearch : Program := .ofCommands
  [{ name := "function", target := "f" }, { name := "for", target := "i = 0, k = 7; i < 5; i++" },
   { name := "throwError", target := "lost" }, { name := "endFor" }, { name := "endFunction" },
   { name := "try" }, { name := "call", target := "f", value := "n=1" },
   { name := "catch", target := "'lost'" }, { name := "endTry" }]

/-- The place of a lap, those of the blocks around it, the names in the snapshots before and after
it, and the local names of a loop with a counter that begins in it. -/
structure Picture where
  place : Nat
  around : List Nat
  before : List (List String)
  after : List (List String)
  names : Option (List String)
  deriving DecidableEq

def Lap.picture (p : Program) (t : Lap) : Picture where
  place := t.place
  around := t.before.call.blocks.map Frame.place
  before := t.before.saves.map (·.names)
  after := t.after.saves.map (·.names)
  names := p.commands[t.place]?.bind fun c =>
    (effect (Loop.plan p c .counter) t.place t.before.vars).1.toOption.map Prod.fst

theorem lostSearch_spares {t : Lap} : t.Spares lostSearch name := by
  obtain ⟨_, _⟩ := faithful_of_outlined (show lostSearch.outlined = .ok lostSearch from rfl)
  have filters : ∀ c ∈ lostSearch.commands, c.verb? = some .openCatch → c.target = "'lost'" := by
    decide +kernel
  intro _ _ f _ _ s place segments owed vars
  unfold segmentsOf at segments
  split at segments
  case h_2 => cases segments
  rename_i block
  cases segments
  dsimp only at owed
  subst owed
  obtain ⟨d, there, verb⟩ := Option.bind_eq_some_iff.mp
    (Outline.Spans.catchPart block lostSearch.found).verb
  rw [targetAt, there, Option.map_some, Option.getD_some, filters d (mem_of_getElem? there) verb]
  have targets : (Statement.read .standard "'lost'").toOption.map Statement.targets = some [] := by
    decide +kernel
  rcases evaluate_writes with same | ⟨s, read, writes⟩
  · exact congrArg (Record.get? · name) same
  · rw [read] at targets
    exact writes.get? (by rw [Option.some.inj targets]; exact not_mem_nil)

theorem init_variables_local_lostSearch :
    (assignedNames .standard "i = j = 0").toOption = some ["i"] ∧
    (∃ s names, Statement.read .standard "i = j = 0" = .ok s ∧ assignedNames .standard "i = j = 0" =
      .ok names ∧
      ("j" ∈ names ∨ ∃ e ∈ s.items, "j" ∈ e.inner)) ∧
    ∃ earlier enter last later,
      Session.laps lostSearch 20 { machine := { vars := [("i", .int 9)] } } = earlier ++
        ([enter] ++ last :: later) ∧
      enter.picture lostSearch = ⟨1, [], [["n"], [], []], [["i", "k"], ["n"], [], []],
        some ["i", "k"]⟩ ∧
      last.picture lostSearch = ⟨2, [1], [["i", "k"], ["n"], [], []], [[], []], none⟩ ∧
      ∀ name ∈ ["i", "k"], last.after.vars.get? name = enter.before.vars.get? name := by
  have both := init_variables_local .standard "i = j = 0" "j" []
  refine ⟨by decide +kernel, both.1 ?_, ?_⟩
  · intro same
    have changed : ((evaluate .standard "i = j = 0" []).2.get? "j").isSome = true := by
      decide +kernel
    rw [same] at changed
    cases changed
  have story : (Session.laps lostSearch 20 { machine := { vars := [("i", .int 9)] } }).map
    (Lap.picture lostSearch) = [⟨0, [], [[]], [[]], none⟩, ⟨4, [], [[]], [[]], none⟩,
    ⟨5, [], [[]], [[], []], none⟩, ⟨6, [5], [[], []], [["n"], [], []], none⟩,
    ⟨0, [], [["n"], [], []], [["n"], [], []], none⟩] ++
    ⟨1, [], [["n"], [], []], [["i", "k"], ["n"], [], []], some ["i", "k"]⟩ ::
    ⟨2, [1], [["i", "k"], ["n"], [], []], [[], []], none⟩ ::
    [⟨7, [5], [[], []], [[], []], none⟩, ⟨8, [5], [[], []], [[]], none⟩] := by decide +kernel
  obtain ⟨earlier, rest, history, _, story⟩ := map_eq_append_iff.mp story
  obtain ⟨enter, rest, rfl, entered, story⟩ := map_eq_cons_iff.mp story
  obtain ⟨last, later, rfl, left, _⟩ := map_eq_cons_iff.mp story
  refine ⟨earlier, enter, last, later, history, entered, left, ?_⟩
  obtain ⟨place, blocks, under, opened, planned⟩ := Picture.mk.inj entered
  obtain ⟨_, _, _, back, _⟩ := Picture.mk.inj left
  have there : lostSearch.commands[enter.place]? = some
      { name := "for", target := "i = 0, k = 7; i < 5; i++" } := by
    rw [place]
    rfl
  have verb : ({ name := "for", target := "i = 0, k = 7; i < 5; i++" } : Command).verb? =
      some (.openLoop .counter) := by
    decide +kernel
  have parts : Split.list ';' "i = 0, k = 7; i < 5; i++" = ["i = 0, k = 7", "i < 5", "i++"] := by
    decide +kernel
  rw [there, Option.bind_some] at planned
  obtain ⟨⟨names, cursor⟩, planned, same⟩ := Option.map_eq_some_iff.mp planned
  obtain rfl : names = ["i", "k"] := same
  have succeeds {result : Except Failure (List String × Cursor) × Env} {plan : List String × Cursor}
      (known : result.1.toOption = some plan) : result = (.ok plan, result.2) := by
    obtain ⟨answer, _⟩ := result
    cases answer <;> cases known
    rfl
  have depth {m : Machine} {names : List (List String)} (known : m.saves.map (·.names) = names) :
      m.layers.length = names.length := by
    rw [← known, Machine.saves, length_map, length_map]
  have lived : LoopLife lostSearch ["i", "k"] _ enter [enter] last :=
    { first := rfl
      begins := ⟨_, .counter, cursor, there, verb, succeeds planned⟩
      fresh := by
        intro f rest top
        rw [top] at blocks
        cases blocks
      stays := by
        intro t mem
        rw [mem_singleton.mp mem, depth under, depth opened]
        decide
      left := by
        rw [depth under, depth back]
        decide }
  have outlined : lostSearch.outlined = .ok lostSearch := rfl
  obtain ⟨_, _, _, kept⟩ := both.2 outlined (Int.le_refl 0) history lived there verb parts
  intro name listed
  refine kept name listed lostSearch_spares fun x mem inside => ?_
  rw [depth under, depth back] at mem
  have known : x.saved.names ∈ (enter.before.saves.map (·.names)).take 1 := by
    rw [Machine.saves, map_map, ← map_take]
    exact mem_map_of_mem mem
  rw [under] at known
  rw [mem_singleton.mp known] at inside
  obtain rfl : name = "n" := mem_singleton.mp inside
  exact absurd listed (by decide)

end Runbook
