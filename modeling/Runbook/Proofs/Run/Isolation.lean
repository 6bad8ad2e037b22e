import Runbook.Proofs.Machine.Sheds
import Runbook.Proofs.Run.Resolved
import Runbook.Proofs.Structured.Cursors

namespace Runbook

open Runbook.Action List

section Commands

variable {p : Program} {m m' : Machine} {i : Nat} {c : Command} {r : Reply Unit}

inductive Called (p : Program) (c : Command) (i : Nat) (m : Machine) :
    Except Failure Unit → Machine → Prop
  | refused {m' : Machine} (sheds : m.Sheds [] m') (e : Failure) : Called p c i m (.error e) m'
  | entered {m' : Machine} {args : Record Value} {vars : Env} {place : Nat}
      (evaluated : effect (arguments p c.value) i m.vars = (.ok args, vars))
      (around : m'.outer = m.calls)
      (call : m'.call =
        { function := some place, name := c.target, args := args,
          back := m.here, saved := vars.capture args.names }) :
      Called p c i m (.ok ()) m'
  | returned {m' : Machine} {next : Call} {outer : List Call}
      (around : m.outer = next :: outer) (back : m.call.back = m.here)
      (after : m' =
        { m with call := next, outer := outer, vars := m.call.release m.vars, logs := m'.logs }) :
      Called p c i m (.ok ()) m'

theorem ran_call [p.Faithful] (here : m.Here i) (ran : Ran (call p c) m r m') :
    Called p c i m r m' := by
  have complains {kind : Kind} {text : String} (ran : Ran (complain p kind text) m r m') :
      Called p c i m r m' := by
    obtain ⟨rfl, rfl⟩ := Prod.mk.inj ran
    exact .refused (.still rfl) _
  unfold call at ran
  split at ran
  · exact complains ran
  rename_i place known
  obtain ⟨_, _, _, block⟩ := function?_spans known
  have bound := lt_length_of_verbAt (block.ended p.found).grown.opened
  have ran := ran_get_bind ran
  split at ran
  · rename_i returning
    cases around : m.outer with
    | nil =>
      rw [Ran, run_bind, run_popCall_alone around] at ran
      obtain ⟨rfl, rfl⟩ := Prod.mk.inj ran
      exact .refused (.still rfl) _
    | cons next outer =>
      have ran := ran_bind_ok ran (run_popCall around)
      obtain ⟨rfl, rfl⟩ := ran_modify ran
      exact .returned around returning.2 rfl
  · obtain ⟨logs, evaluated⟩ := varsOnly_arguments p c.value m i here
    rcases out : effect (arguments p c.value) i m.vars with ⟨e | args, vars⟩
    all_goals rw [out] at evaluated
    · rcases ran_bind ran with ⟨e', rfl, failed⟩ | ⟨args, m₁, done, _⟩
      · exact .refused (acts_argumentsFrom.ran failed).sheds e'
      · cases (Prod.mk.inj (done.symm.trans evaluated)).1
    · rcases ran_bind ran with ⟨e', rfl, failed⟩ | ⟨args', m₁, done, ran⟩
      · cases (Prod.mk.inj (failed.symm.trans evaluated)).1
      · obtain ⟨same, rfl⟩ := Prod.mk.inj (done.symm.trans evaluated)
        cases same
        have ran : Ran (branchTo p (place : Int))
            { m with vars := _, call := _, outer := m.call :: m.outer, logs := _ } r m' :=
          ran
        obtain ⟨rfl, rfl⟩ := ran_done ran (run_branchTo bound)
        exact .entered out rfl rfl

theorem sheds_push {α : Type} {f : Frame} {rest : PUnit → Action α} {r : Reply α}
    (acts : Acts {} m.here (rest ())) (ran : Ran (push f >>= rest) m r m') :
    m.Sheds [f.stub] m' := by
  let pushed : Machine := { m with call := { m.call with blocks := f :: m.call.blocks } }
  have opened : m.Sheds [f.stub] pushed := .active rfl ⟨rfl, suffix_refl _⟩
  have out : (push f >>= rest).run.run m = (rest ()).run.run pushed := rfl
  exact opened.trans (acts.ran (m := pushed) (out.symm.trans ran)).sheds

theorem openIf_sheds {form : Form} {last : Nat} (here : m.Here i) (block : p.Spans i form last)
    (ran : Ran (openIf p c) m r m') : m.Sheds [(i, [])] m' := by
  have further := ran_bind_ok ran (run_openerHere here block)
  split at further
  · rename_i same
    cases same
    exact sheds_push acts_choose further
  · exact (acts_fault.ran further).sheds.more

theorem openTry_sheds (here : m.Here i) (ran : Ran (openTry p c) m r m') :
    m.Sheds [(i, [])] m' := by
  have tried : Acts {} m.here startTrying := acts_bind acts_changeGuard fun _ => acts_logDepth
  have ran := ran_get_bind ran
  dsimp only at ran
  split at ran
  · exact (acts_fault.ran ran).sheds.more
  · rw [here] at ran
    refine sheds_push ?_ ran
    split
    · exact acts_logEvent
    · split
      · exact acts_bind acts_logEvent fun _ => tried
      · exact tried
    · exact acts_fault

section Loops

variable {kind : LoopKind} {vars : Env} {call : Call} {outer : List Call} {logs : Array Log}
  {r : Reply Unit}

def begun (vars : Env) (call : Call) (outer : List Call) (i : Nat) (kind : LoopKind)
    (cursor : Cursor) (names : List String) : Machine :=
  still vars (call.looping kind cursor i (vars.capture names)) outer i

theorem ran_enterLoop
    (ran : Ran (enterLoop i kind (rounds p c kind))
      { still vars call outer i with logs := logs } r m') :
    (∃ e, Ran (rounds p c kind).prepare
      { still vars (call.looping kind .unset i []) outer i with logs := logs } (.error e) m') ∨
    ∃ names cursor vars' logs', effect (Loop.plan p c kind) i vars = (.ok (names, cursor), vars') ∧
        Ran (beginRounds i kind (rounds p c kind) names)
          { begun vars' call outer i kind cursor names with logs := logs' } r m' := by
  have ran : Ran (do
      let names ← (rounds p c kind).prepare
      let saved := (← get).vars.capture names
      change fun f => { f with saved := saved }
      beginRounds i kind (rounds p c kind) names)
      { still vars (call.looping kind .unset i []) outer i with logs := logs } r m' := ran
  have tracks := tracks_prepare p c kind vars call outer i [] i
  rcases ran_bind ran with ⟨e, _, failed⟩ | ⟨names, m₁, prepared, further⟩
  · exact .inl ⟨e, failed⟩
  rcases out : effect (Loop.plan p c kind) i vars with ⟨e | ⟨names', cursor⟩, vars'⟩
  all_goals rw [out] at tracks
  · obtain ⟨_, yields⟩ := tracks
    obtain ⟨_, ran'⟩ := yields logs
    cases (Prod.mk.inj (prepared.symm.trans ran')).1
  · obtain ⟨_, cursor', ⟨same, _⟩, yields⟩ := tracks
    cases same
    obtain ⟨logs', ran'⟩ := yields logs
    obtain ⟨same, rfl⟩ := Prod.mk.inj (prepared.symm.trans ran')
    cases same
    exact .inr ⟨names, cursor, vars', logs', rfl, further⟩

theorem enterLoop_sheds
    (ran : Ran (enterLoop i kind (rounds p c kind))
      { still vars call outer i with logs := logs } r m') :
    { still vars call outer i with logs := logs }.Sheds [(i, [])] m' ∨
      ∃ names cursor vars', effect (Loop.plan p c kind) i vars = (.ok (names, cursor), vars') ∧
        { still vars call outer i with logs := logs }.Sheds [(i, vars'.capture names)] m' := by
  rcases ran_enterLoop ran with ⟨e, failed⟩ | ⟨names, cursor, vars', logs', planned, further⟩
  · have opened : { still vars call outer i with logs := logs }.Sheds [(i, [])]
        { still vars (call.looping kind .unset i []) outer i with logs := logs } :=
      .active rfl ⟨rfl, suffix_refl _⟩
    have prepared := (rounds_acts (w := {}) p c kind).prepare _ rfl _ _ _ _ _ _ rfl rfl failed
    exact .inl (opened.trans (works_of_reading (prepared.fails e rfl).2).sheds)
  · have saved : { still vars call outer i with logs := logs }.Sheds [(i, vars'.capture names)]
        { begun vars' call outer i kind cursor names with logs := logs' } :=
        .active rfl ⟨rfl, suffix_refl _⟩
    exact .inr ⟨names, cursor, vars', planned,
      saved.trans ((acts_beginRounds (rounds_acts p c kind)).ran further).sheds⟩

theorem openLoop_sheds {last : Nat} (block : p.Spans i (.loop kind) last)
    (ran : Ran (openLoop p (rounds p c kind)) { still vars call outer i with logs := logs } r m') :
    { still vars call outer i with logs := logs }.Sheds [(i, [])] m' ∨
      ∃ names cursor vars', effect (Loop.plan p c kind) i vars = (.ok (names, cursor), vars') ∧
        { still vars call outer i with logs := logs }.Sheds [(i, vars'.capture names)] m' := by
  let m : Machine := { still vars call outer i with logs := logs }
  have here : m.Here i := rfl
  have inner (here : Option Int) : (rounds p c kind).Acts {} here := rounds_acts p c kind
  have further := ran_bind_ok ran (run_openerHere here block)
  rcases ran_isTop_bind further with ⟨f, rest, top, at_place, further⟩ | ⟨fresh, further⟩
  · exact .inl
      ((acts_bind (inner _).advance fun _ => acts_tryRound (inner _).goesOn).ran further).sheds.more
  rcases ran_bind further with ⟨e, rfl, failed⟩ | ⟨_, m₁, entered, further⟩
  · exact enterLoop_sheds failed
  · have later := ((acts_tryRound (inner _).goesOn).ran further).sheds
    rcases enterLoop_sheds entered with nothing | ⟨names, cursor, vars', planned, kept⟩
    · exact .inl (nothing.trans later)
    · exact .inr ⟨names, cursor, vars', planned, kept.trans later⟩

end Loops

end Commands

/-- The command of a lap is a call: its arguments, and the variables once they are evaluated. -/
def Lap.Passes (p : Program) (t : Lap) (args : Record Value) (vars : Env) : Prop :=
  ∃ c, p.commands[t.place]? = some c ∧ c.verb? = some .call ∧
    effect (arguments p c.value) t.place t.before.vars = (.ok args, vars)

/-- The command of a lap begins a loop: the local names, and the variables once these are known. -/
def Lap.Begins (p : Program) (t : Lap) (names : List String) (vars : Env) : Prop :=
  ∃ c kind cursor, p.commands[t.place]? = some c ∧ c.verb? = some (.openLoop kind) ∧
    effect (Loop.plan p c kind) t.place t.before.vars = (.ok (names, cursor), vars)

def Lap.Records (p : Program) (t : Lap) (saved : Snapshot) : Prop :=
  saved = [] ∨ ∃ names vars, t.Begins p names vars ∧ saved = vars.capture names

def Lap.Enters (p : Program) (t : Lap) : Prop :=
  ∃ args vars place name, t.Passes p args vars ∧ t.after.outer = t.before.calls ∧ t.after.call =
    { function := some place, name := name, args := args, back := some (t.place : Int),
      saved := vars.capture args.names }

def Lap.Sheds (p : Program) (t : Lap) : Prop :=
  ∃ saved, t.Records p saved ∧ t.before.Sheds [(t.place, saved)] t.after

section Laps

variable {p : Program} {m₁ m₂ m' : Machine} {s : Session} {i : Nat} {c : Command} {v : Verdict}

theorem eq_still (here : m₁.Here i) (started : m₁.started = true) (branch : m₁.branch = none)
    (running : m₁.stopped = false) :
    { m₁ with resume := none } = { still m₁.vars m₁.call m₁.outer i with logs := m₁.logs } := by
  simp [Runbook.still, here, started, branch, running]

theorem Poised.still (poised : Poised p m₁.control i) :
    { m₁ with resume := none } = { still m₁.vars m₁.call m₁.outer i with logs := m₁.logs } :=
  eq_still poised.here poised.started poised.branch poised.running

theorem Poised.works {r : Reply (Option String)} [p.Faithful] (poised : Poised p m₁.control i)
    (there : p.Has i c) (ran : Ran (Host.dispatch p c) m₁ r m₂) :
    m₂.Here i ∧ (Lap.Sheds p ⟨m₁, i, v, m₂⟩ ∨ Lap.Enters p ⟨m₁, i, v, m₂⟩ ∧ ∃ x, r = .ok x) := by
  have here : m₁.here = some (i : Int) := poised.here
  have plain {saved : Snapshot} (nothing : saved = []) (sheds : m₁.Sheds [(i, saved)] m₂) :
      Lap.Sheds p ⟨m₁, i, v, m₂⟩ :=
    ⟨saved, .inl nothing, sheds⟩
  rcases ran_dispatch ran with ⟨r₁, verb, executed, whole⟩ | ⟨_, ran⟩
  case inr =>
    obtain ⟨logs, ran'⟩ := varsOnly_perform p c m₁ i here
    obtain ⟨_, rfl⟩ := Prod.mk.inj (ran'.symm.trans ran)
    exact ⟨here, .inl (plain rfl (.more (.still rfl)))⟩
  · obtain ⟨w, verb⟩ := Option.isSome_iff_exists.mp verb
    have own := verbAt_of_at there verb
    obtain ⟨r₂, rfl, performed⟩ := ran_execute verb executed
    by_cases grows : w.grows = true
    · have same : m₂.here = some (i : Int) := by
        have other : w ≠ .endTry := by rintro rfl; cases grows
        exact (perform_blames (m := { m₁ with resume := none }) other here performed).1
      refine ⟨same, ?_⟩
      cases w with
      | openIf =>
        obtain ⟨form, last, block, _⟩ := block?_opening p.found own rfl
        exact .inl (plain rfl (openIf_sheds (m := { m₁ with resume := none }) here block performed))
      | openTry =>
        exact .inl (plain rfl (openTry_sheds (m := { m₁ with resume := none }) here performed))
      | openLoop kind =>
        obtain ⟨form, last, block, opening⟩ := block?_opening p.found own rfl
        obtain rfl : form = .loop kind := by cases form <;> cases opening; rfl
        rw [poised.still] at performed
        rcases openLoop_sheds block performed with sheds | ⟨names, cursor, vars, planned, sheds⟩
        · exact .inl (plain rfl sheds)
        · exact .inl ⟨_, .inr ⟨names, vars, ⟨c, kind, cursor, there, verb, planned⟩, rfl⟩, sheds⟩
      | call =>
        cases ran_call (m := { m₁ with resume := none }) here performed with
        | refused sheds e => exact .inl (plain rfl sheds.more)
        | @entered _ args vars place evaluated around call =>
          refine .inr ⟨⟨args, vars, place, c.target, ⟨c, there, verb, evaluated⟩, around, ?_⟩,
            ⟨none, whole⟩⟩
          rw [call, ← here]
        | returned around _ after =>
          have sheds : m₁.Sheds [] m₂ := by
            rw [after]
            refine ⟨_, ?_, .refl⟩
            rw [Machine.calls, show m₁.outer = _ from around]
            exact suffix_cons _ _
          exact .inl (plain rfl sheds.more)
      | _ => cases grows
    · have works := (tidies_perform (w := {}) performed (absurd · grows) fun same => absurd
        (same ▸ rfl) grows).works
      exact ⟨works.here.trans here, .inl (plain rfl works.sheds.more)⟩

theorem Session.lap_runs (fetches : Fetches p s.machine) (turn : s.turn? p = some (i, v, m')) :
    ∃ c m₁ r m₂, Fetched p s.machine i c m₁ ∧ m₁.vars = s.machine.vars ∧
      m₁.calls = s.machine.calls ∧
      Ran (Host.dispatch p c) m₁ r m₂ ∧
      (m' = m₂ ∨ (∃ e, r = .error e) ∧ ∃ e x, v.cause? = some e ∧
        Ran (route p (.error e)) m₂ x m') := by
  obtain ⟨c, m₁, fetched, turned⟩ := turned fetches turn
  obtain ⟨vars, _⟩ := next_keeps fetched.ran
  have calls := calls_of_next fetched.ran
  cases turned with
  | done ran | broken ran => exact ⟨c, m₁, _, m', fetched, vars, calls, ran, .inl rfl⟩
  | routed ran routed verdict =>
    have cause := (congrArg Verdict.cause? verdict).trans Verdict.cause?_routed
    exact ⟨c, m₁, _, _, fetched, vars, calls, ran, .inr ⟨⟨_, rfl⟩, _, _, cause, routed⟩⟩

theorem Session.lap_works [p.Ready] (reached : Reached p s.machine)
    (turn : s.turn? p = some (i, v, m')) :
    Lap.Sheds p ⟨s.machine, i, v, m'⟩ ∨ Lap.Enters p ⟨s.machine, i, v, m'⟩ := by
  obtain ⟨c, m₁, r, m₂, fetched, vars, calls, ran, routed⟩ := lap_runs reached.placed.fetches turn
  obtain ⟨poised, there, _⟩ := fetched.poised reached.placed
  have sheds {m₂ : Machine} (sheds : Lap.Sheds p ⟨m₁, i, v, m₂⟩) :
      Lap.Sheds p ⟨s.machine, i, v, m₂⟩ := by
    unfold Lap.Sheds Lap.Records Lap.Begins Machine.Sheds at sheds ⊢
    dsimp only at sheds ⊢
    rwa [vars, calls] at sheds
  have enters {m₂ : Machine} (enters : Lap.Enters p ⟨m₁, i, v, m₂⟩) :
      Lap.Enters p ⟨s.machine, i, v, m₂⟩ := by
    unfold Lap.Enters Lap.Passes at enters ⊢
    dsimp only at enters ⊢
    rwa [vars, calls] at enters
  obtain ⟨_, shed | ⟨enter, done⟩⟩ := poised.works there ran
  all_goals rcases routed with rfl | ⟨⟨e, wrong⟩, _, _, _, routed⟩
  · exact .inl (sheds shed)
  · obtain ⟨saved, records, first⟩ := sheds shed
    exact .inl ⟨saved, records, first.trans (works_route (w := {}) nofun screens_free routed).sheds⟩
  · exact .inr (enters enter)
  · obtain ⟨x, rfl⟩ := done
    cases wrong

theorem Session.lap_returns [p.Ready] (reached : Reached p s.machine)
    (turn : s.turn? p = some (i, .done, m')) (verb : p.Does i .call)
    (fewer : m'.outer.length < s.machine.outer.length) :
    s.machine.call.back = some (i : Int) ∧ m'.calls = s.machine.outer ∧
      m'.vars = s.machine.call.release s.machine.vars ∧
      m'.control.At (i + 1) ∧ m'.stopped = false := by
  have placed := reached.placed
  obtain ⟨c, m₁, fetched, turned⟩ := turned placed.fetches turn
  obtain ⟨poised, there, _⟩ := fetched.poised placed
  obtain ⟨vars, call, outer, _⟩ := next_keeps fetched.ran
  have here : m₁.here = some (i : Int) := poised.here
  have own := verb_of_at there verb
  cases turned with
  | routed _ _ verdict => cases congrArg Verdict.cause? verdict |>.trans Verdict.cause?_routed
  | done ran =>
    rcases ran_dispatch ran with ⟨_, _, executed, fine⟩ | ⟨none, _⟩
    case inr => cases own.symm.trans none
    obtain ⟨r, rfl, performed⟩ := ran_execute own executed
    cases ran_call (m := { m₁ with resume := none }) here performed with
    | refused _ e => cases fine
    | entered _ around _ =>
      rw [around] at fewer
      simp only [Machine.calls, length_cons, outer] at fewer
      omega
    | @returned _ next outer' around back after =>
      have around : s.machine.outer = next :: outer' := outer.symm.trans around
      rw [after]
      refine ⟨?_, around.symm, by rw [← vars, ← call], .after poised.started poised.branch here,
        poised.running⟩
      rw [← call]
      exact Eq.trans back here

end Laps

def Machine.Under (p : Program) (entered : Call) (around : List Call) (laps : List Lap)
    (m : Machine) : Prop :=
  ∃ upper c, m.calls = upper ++ c :: around ∧ c.head = entered.head ∧
    ∀ f ∈ c.blocks, ∃ t ∈ laps, t.place = f.place ∧ t.Records p f.saved

section Lives

variable {p : Program} {entered : Call} {around : List Call} {laps inner later : List Lap}
  {t leave : Lap} {s : Session} {count : Nat}

theorem Machine.Under.sheds (under : t.before.Under p entered around laps) (sheds : t.Sheds p)
    (high : around.length ≤ t.after.outer.length) :
    t.after.Under p entered around (laps ++ [t]) := by
  obtain ⟨upper, c, calls, head, opened⟩ := under
  obtain ⟨saved, records, d, left, trims⟩ := sheds
  have earlier : ∀ f ∈ c.blocks, ∃ l ∈ laps ++ [t], l.place = f.place ∧ l.Records p f.saved := by
    intro f mem
    obtain ⟨l, present, same⟩ := opened f mem
    exact ⟨l, mem_append_left _ present, same⟩
  rw [calls] at left
  -- the call is still there, since not fewer calls are left than lie under it
  have low : c :: around <:+ d :: t.after.outer :=
    suffix_of_suffix_length_le (suffix_append upper (c :: around)) left (by simpa using high)
  rcases suffix_cons_iff.mp low with same | lower
  · obtain ⟨rfl, rfl⟩ := cons.inj same
    refine ⟨[], t.after.call, rfl, trims.head.trans head, fun f mem => ?_⟩
    have present := trims.blocks.subset (mem_map_of_mem mem)
    rcases mem_append.mp present with new | old
    · obtain ⟨place, same⟩ := Prod.mk.inj (mem_singleton.mp new)
      exact ⟨t, mem_append_right _ mem_cons_self, place.symm, by rwa [same]⟩
    · obtain ⟨g, mem', same⟩ := mem_map.mp old
      obtain ⟨place, saved⟩ := Prod.mk.inj same
      rw [← place, ← saved]
      exact earlier g mem'
  · obtain ⟨between, outer⟩ := lower
    exact ⟨t.after.call :: between, c, by rw [Machine.calls, ← outer]; rfl, head, earlier⟩

theorem Machine.Under.enters (under : t.before.Under p entered around laps) (enters : t.Enters p) :
    t.after.Under p entered around (laps ++ [t]) := by
  obtain ⟨upper, c, calls, head, opened⟩ := under
  obtain ⟨_, _, _, _, _, outer, _⟩ := enters
  refine ⟨t.after.call :: upper, c, by rw [Machine.calls, outer, calls]; rfl, head, fun f mem => ?_⟩
  obtain ⟨l, present, same⟩ := opened f mem
  exact ⟨l, mem_append_left _ present, same⟩

theorem Session.under [p.Ready] (reached : Reached p s.machine)
    (history : s.laps p count = inner ++ leave :: later)
    (high : ∀ t ∈ inner, around.length ≤ t.after.outer.length)
    (under : s.machine.Under p entered around laps) :
    ∃ (s' : Session) (n : Nat), Reached p s'.machine ∧ s'.laps p n = leave :: later ∧
      s'.machine.Under p entered around (laps ++ inner) := by
  induction inner generalizing s count laps with
  | nil => exact ⟨s, count, reached, history, by rwa [append_nil]⟩
  | cons t inner ih =>
    obtain ⟨before, turn, none | ⟨s', n, reached', rest, _, after⟩⟩ := laps_cons reached history
    · cases (append_eq_nil_iff.mp none).2
    have works : t.Sheds p ∨ t.Enters p := by
      rcases lap_works reached turn with sheds | enters
      · exact .inl (by rwa [← before] at sheds)
      · exact .inr (by rwa [← before] at enters)
    rw [← before] at under
    have next : t.after.Under p entered around (laps ++ [t]) := by
      rcases works with sheds | enters
      · exact under.sheds sheds (high t mem_cons_self)
      · exact under.enters enters
    rw [← after] at next
    have out := ih reached' rest (fun l mem => high l (mem_cons_of_mem _ mem)) next
    rwa [append_assoc] at out

end Lives

theorem Lap.Records.nodup {p : Program} {t : Lap} {saved : Snapshot} (records : t.Records p saved) :
    saved.names.Nodup := by
  rcases records with rfl | ⟨names, vars, _, rfl⟩
  · exact nodup_nil
  · exact Env.capture_nodup

/-- What is so at the lap `leave` that comes back from the call that the lap `enter` made, the laps
`inner` between. -/
structure Isolated (p : Program) (enter : Lap) (inner : List Lap) (leave : Lap) : Prop where
  place : leave.place = enter.place
  calls : leave.after.calls = enter.before.calls
  next : leave.after.control.At (enter.place + 1)
  running : leave.after.stopped = false
  /-- The arguments are what they were when the call had evaluated them. A local name of a loop that
  is still open is what it was when the outermost such loop began. -/
  vars : ∃ args captured, enter.Passes p args captured ∧
    (∀ name ∈ args.names, leave.after.vars.get? name = captured.get? name) ∧
    (∀ name above f below, name ∉ args.names → leave.before.call.blocks = above ++ f :: below →
      name ∈ f.saved.names →
      (∀ g ∈ below, name ∉ g.saved.names) → ∃ t ∈ inner, ∃ names old, t.place = f.place ∧
        t.Begins p names old ∧
        f.saved = old.capture names ∧ leave.after.vars.get? name = old.get? name) ∧
    (∀ name, name ∉ args.names → (∀ f ∈ leave.before.call.blocks, name ∉ f.saved.names) →
      leave.after.vars.get? name = leave.before.vars.get? name)

theorem Session.isolated {p : Program} {s : Session} {enter leave : Lap} {inner : List Lap}
    [p.Ready] (reached : Reached p s.machine) (before : leave.before = s.machine)
    (turn : s.turn? p = some (leave.place, .done, leave.after)) (verb : p.Does leave.place .call)
    (enters : enter.Enters p) (under : s.machine.Under p enter.after.call enter.before.calls inner)
    (returns : leave.after.outer.length ≤ enter.before.outer.length) :
    Isolated p enter inner leave := by
  obtain ⟨args, captured, place, name, passes, around, entered⟩ := enters
  obtain ⟨upper, c, calls, head, opened⟩ := under
  rw [entered] at head
  have depth : s.machine.outer.length = upper.length + (enter.before.outer.length + 1) := by
    have lengths := congrArg List.length calls
    simp only [Machine.calls, length_append, length_cons] at lengths
    omega
  obtain ⟨back, calls', vars, next, running⟩ := lap_returns reached turn verb (by omega)
  have top : upper = [] := by
    have lengths := congrArg List.length calls'
    simp only [Machine.calls, length_cons] at lengths
    exact length_eq_zero_iff.mp (by omega)
  subst top
  obtain ⟨rfl, outer⟩ := cons.inj calls
  have made : s.machine.call.head.back = some (enter.place : Int) := congrArg Call.back head
  have same : leave.place = enter.place := Int.ofNat.inj (Option.some.inj (back.symm.trans made))
  have kept : s.machine.call.head.saved = captured.capture args.names := congrArg Call.saved head
  have saved : s.machine.call.saved = captured.capture args.names := kept
  have distinct : ∀ saved ∈ s.machine.call.blocks.map Frame.saved, saved.names.Nodup := by
    intro saved mem
    obtain ⟨f, inside, rfl⟩ := mem_map.mp mem
    obtain ⟨t, _, _, records⟩ := opened f inside
    exact records.nodup
  have value (name : String) : leave.after.vars.get? name =
      if name ∈ args.names then captured.get? name
      else Record.get? ((s.machine.call.blocks.map Frame.saved).foldl Env.restore s.machine.vars)
        name := by
    rw [vars, Call.release, saved, Env.get?_restore_capture, foldl_map]
  refine ⟨same, calls'.trans outer, same ▸ next, running, args, captured, passes, ?_, ?_, ?_⟩
  · intro name mem
    rw [value, if_pos mem]
  · rw [before]
    intro name above f below other split mem outermost
    obtain ⟨t, present, placed, nothing | ⟨names, old, begins, saved⟩⟩ :=
      opened f (by rw [split]; simp)
    · rw [nothing] at mem
      cases mem
    · rw [saved, Env.mem_names_capture] at mem
      have parts : s.machine.call.blocks.map Frame.saved =
          above.map Frame.saved ++ old.capture names :: below.map Frame.saved := by
        rw [split, map_append, map_cons, saved]
      refine ⟨t, present, names, old, placed, begins, saved, ?_⟩
      rw [value, if_neg other]
      exact Env.get?_foldl_restore_lowest distinct parts mem (forall_mem_map.mpr outermost)
  · rw [before]
    intro name other free
    rw [value, if_neg other]
    exact Env.get?_foldl_restore distinct (forall_mem_map.mpr free)

/-- Calls are isolated, however deep they are nested and whatever runs inside: the lap that comes
back to a call finds the calls, the arguments and the local names of open loops as they were, and
the run goes on behind the call. -/
theorem call_isolated {q p : Program} {inputs : Env} {limit : Nat} {earlier inner later : List Lap}
    {enter leave : Lap} (outlined : q.outlined = .ok p) (start : q.start = 0)
    (history : Session.laps p limit { machine := { vars := inputs } } =
      earlier ++ enter :: (inner ++ leave :: later))
    (deeper : enter.before.outer.length < enter.after.outer.length)
    (inside : ∀ t ∈ inner, enter.before.outer.length < t.after.outer.length)
    (verb : verbAt p.commands leave.place = some .call) (done : leave.verdict = .done)
    (returns : leave.after.outer.length ≤ enter.before.outer.length) :
    Isolated p enter inner leave := by
  have := ready_of_outlined outlined start
  obtain ⟨s, n, reached, first, _⟩ := Session.laps_from (.start inputs #[]) history
  obtain ⟨before, turn, none | ⟨s₁, n₁, reached₁, rest, _, after⟩⟩ :=
    Session.laps_cons reached first
  · cases (append_eq_nil_iff.mp none).2
  have enters : enter.Enters p := by
    have works := Session.lap_works reached turn
    rw [← before] at works
    rcases works with ⟨_, _, d, left, _⟩ | enters
    · have low :
          (d :: enter.after.outer).length ≤ (enter.before.call :: enter.before.outer).length :=
        left.length_le
      simp only [length_cons] at low
      omega
    · exact enters
  have under : s₁.machine.Under p enter.after.call enter.before.calls [] := by
    obtain ⟨args, captured, place, name, _, around, entered⟩ := enters
    rw [after]
    refine ⟨[], enter.after.call, by rw [Machine.calls, around]; rfl, rfl, fun f mem => ?_⟩
    rw [entered] at mem
    cases mem
  have high : ∀ t ∈ inner, enter.before.calls.length ≤ t.after.outer.length :=
    fun t mem => inside t mem
  obtain ⟨s₂, n₂, reached₂, last, under₂⟩ := Session.under reached₁ rest high under
  obtain ⟨before₂, turn₂, _⟩ := Session.laps_cons reached₂ last
  rw [done] at turn₂
  exact Session.isolated reached₂ before₂ turn₂ verb enters under₂ returns

def returnFromLoop : Program := .ofCommands
  [{ name := "function", target := "f" }, { name := "if", target := "n > 0" },
   { name := "call", target := "f", value := "n=n-1" }, { name := "endIf" },
   { name := "foreach", target := "x", value := "1,2" }, { name := "return", target := "n" },
   { name := "endForeach" }, { name := "endFunction" },
   { name := "call", target := "f", value := "n=1" }]

def Lap.depths (t : Lap) : Nat × Bool × Nat × Nat :=
  (t.place, decide (t.verdict = .done), t.before.outer.length, t.after.outer.length)

theorem call_isolated_returnFromLoop : ∃ earlier enter inner leave later,
    Session.laps returnFromLoop 20 { machine := { vars := [("n", .int 7), ("x", .int 5)] } } =
      earlier ++ enter :: (inner ++ leave :: later) ∧
    enter.depths = (8, true, 0, 1) ∧ inner.length = 12 ∧ leave.depths = (8, true, 1, 0) ∧
    Isolated returnFromLoop enter inner leave := by
  have story : (Session.laps returnFromLoop 20
    { machine := { vars := [("n", .int 7), ("x", .int 5)] } }).map Lap.depths =
    [(0, true, 0, 0), (7, true, 0, 0)] ++ (8, true, 0, 1) ::
    ([(0, true, 1, 1), (1, true, 1, 1), (2, true, 1, 2), (0, true, 2, 2), (1, true, 2, 2),
    (3, true, 2, 2), (4, true, 2, 2), (5, true, 2, 2), (2, true, 2, 1), (3, true, 1, 1),
    (4, true, 1, 1), (5, true, 1, 1)] ++ (8, true, 1, 0) :: []) := by decide +kernel
  obtain ⟨earlier, rest, history, _, story⟩ := map_eq_append_iff.mp story
  obtain ⟨enter, rest, rfl, entered, story⟩ := map_eq_cons_iff.mp story
  obtain ⟨inner, rest, rfl, depths, story⟩ := map_eq_append_iff.mp story
  obtain ⟨leave, later, rfl, left, _⟩ := map_eq_cons_iff.mp story
  refine ⟨earlier, enter, inner, leave, later, history, entered, ?_, left, ?_⟩
  · rw [← length_map (f := Lap.depths), depths]
    rfl
  · have depth {t : Lap} {i a b : Nat} {d : Bool} (same : t.depths = (i, d, a, b)) :
        t.place = i ∧ decide (t.verdict = .done) = d ∧ t.before.outer.length = a ∧
        t.after.outer.length = b := by
      cases same
      exact ⟨rfl, rfl, rfl, rfl⟩
    obtain ⟨_, _, zero, one⟩ := depth entered
    obtain ⟨place, done, _, back⟩ := depth left
    have deep : ∀ t ∈ inner, 0 < t.after.outer.length := by
      intro t mem
      have known : t.depths ∈ inner.map Lap.depths := mem_map_of_mem mem
      rw [depths] at known
      have all : ∀ k ∈ [(0, true, 1, 1), (1, true, 1, 1), (2, true, 1, 2), (0, true, 2, 2),
        (1, true, 2, 2), (3, true, 2, 2), (4, true, 2, 2), (5, true, 2, 2), (2, true, 2, 1),
        (3, true, 1, 1), (4, true, 1, 1), (5, true, 1, 1)],
        0 < (k : Nat × Bool × Nat × Nat).2.2.2 := by decide
      exact all _ known
    have verb : verbAt returnFromLoop.commands leave.place = some .call := by
      rw [place]
      decide +kernel
    refine call_isolated (q := returnFromLoop) rfl rfl history ?_ ?_ verb
      (of_decide_eq_true done) ?_
    · rw [zero, one]
      exact Nat.one_pos
    · rw [zero]
      exact deep
    · rw [zero, back]

end Runbook
