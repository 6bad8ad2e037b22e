import Runbook.Proofs.Structured.Raising

namespace Runbook

open Runbook.Action Point

namespace Jump

def verb : Jump → Verb
  | again => .again
  | leave => .leave
  | back => .giveBack
  | exit => .exitTest

def ceiling : Jump → Bool
  | again | leave => true
  | back | exit => false

def crosses : Jump → Bool
  | exit => true
  | _ => false

abbrev bubble (k : Jump) (source : Option Int) : Bubble := .command source k.ceiling k.crosses

def levels (k : Jump) (call : Call) (outer : List Call) : List (List Frame) :=
  call.blocks :: if k.crosses then outer.map (·.blocks) else []

end Jump

namespace Action

variable {p : Program} {k : Jump} {f : Frame} {ceiling : Bool} {g : Guard} {q last : Nat}
  {name : String} {catchAt finallyAt : Option Nat} {way : Option Stop} {m' : Machine}

def Passage.raise (d : Nat) : Passage → Passage
  | .halted toll above => .halted toll (above + d)
  | x => x

def Stop.raise (d : Nat) (s : Stop) : Stop := { s with calls := s.calls + d }

theorem passage_add (blocks : List Frame) (above d : Nat) :
    passage p ceiling (above + d) blocks =
      (passage p ceiling above blocks).map (Passage.raise d) := by
  induction blocks generalizing above with
  | nil => rfl
  | cons f rest ih =>
    have further : passage p ceiling (above + d + 1) rest =
        (passage p ceiling (above + 1) rest).map (Passage.raise d) := by
      rw [← ih (above + 1), Nat.add_right_comm]
    simp only [passage, further]
    split
    · rfl
    · split
      · split
        · rfl
        · cases owesFinally p f with
          | error _ => rfl
          | ok owed => cases owed <;> rfl
      · rfl

theorem findStop_add (levels : List (List Frame)) (calls d : Nat) :
    findStop p ceiling (calls + d) levels =
      (findStop p ceiling calls levels).map (Option.map (Stop.raise d)) := by
  induction levels generalizing calls with
  | nil => rfl
  | cons blocks rest ih =>
    unfold findStop
    rw [Nat.add_right_comm, ih (calls + 1)]
    cases passage p ceiling 0 blocks with
    | error _ => rfl
    | ok x => cases x <;> rfl

def Passes (p : Program) (k : Jump) (f : Frame) : Prop :=
  (k.ceiling && f.isLoop) = false ∧
    ∀ g, f.body = .guard g → ¬ (g.phase = some .finishing ∧ g.pending.isSome = true) ∧
    owesFinally p f = .ok false

theorem passage_push (passes : Passes p k f) (above : Nat) (rest : List Frame) :
    passage p k.ceiling above (f :: rest) = passage p k.ceiling (above + 1) rest := by
  obtain ⟨clear, guards⟩ := passes
  rw [passage, clear, if_neg Bool.false_ne_true]
  cases body : f.body with
  | guard g =>
    obtain ⟨idle, paid⟩ := guards g body
    dsimp only
    rw [if_neg idle, paid]
    rfl
  | cond _ | loop _ => rfl

theorem passes_guard (block : p.Spans q (.guard name catchAt finallyAt) last)
    (idle : g.phase = some .finishing → g.pending = none)
    (paid : (finallyAt.isSome && !g.finaled) = false) : Passes p k (g.frame q) := by
  refine ⟨by cases k <;> rfl, fun g' same => ?_⟩
  cases same
  refine ⟨fun ⟨finishing, waits⟩ => ?_, ?_⟩
  · rw [idle finishing] at waits
    cases waits
  · rw [owesFinally_frame block, paid]

variable {vars : Env} {call next : Call} {outer : List Call} {place : Nat} {source : Option Int}
  {stop : Stop}

theorem findStop_push (passes : Passes p k f) (rest : List (List Frame)) :
    findStop p k.ceiling 0 ((f :: call.blocks) :: rest) = (passage p k.ceiling 0 call.blocks >>= fun
      | .blocked => .ok none
      | .halted toll above => .ok (some ⟨toll, 0, above + 1⟩)
      | .free => findStop p k.ceiling 1 rest) := by
  rw [findStop, passage_push passes, passage_add]
  cases passage p k.ceiling 0 call.blocks with
  | error _ => rfl
  | ok x => cases x <;> rfl

theorem findStop_push_none (passes : Passes p k f)
    (free : findStop p k.ceiling 0 (k.levels call outer) = .ok none) :
    findStop p k.ceiling 0 (k.levels (call.push f) outer) = .ok none := by
  unfold Jump.levels at free ⊢
  dsimp only [Call.push]
  rw [findStop_push passes]
  rw [findStop] at free
  cases way : passage p k.ceiling 0 call.blocks with
  | error _ => rw [way] at free; cases free
  | ok x =>
    rw [way] at free
    cases x with
    | free => exact free
    | blocked => rfl
    | halted _ _ => cases free

def halt (p : Program) (source : Option Int) (k : Jump) : Option Stop → Action Bool
  | none => return false
  | some stop => do
    popCalls p stop.calls
    popBlocks stop.frames
    suspend p stop.toll source (k.bubble source)
    return true

theorem run_bubble {logs : Array Log} :
    (bubbleCommand p source k.ceiling k.crosses).run.run
      { still vars call outer place with logs := logs } =
      (orFault (findStop p k.ceiling 0 (k.levels call outer)) >>= halt p source k).run.run
        { still vars call outer place with logs := logs } := by
  have levels : (if k.crosses then (call :: outer).map (·.blocks) else [call.blocks]) =
      k.levels call outer := by
    unfold Jump.levels
    cases k.crosses <;> rfl
  show (orFault
    (findStop p k.ceiling 0 (if k.crosses then (call :: outer).map (·.blocks) else [call.blocks]))
    >>= _).run.run _ = _
  rw [levels, run_bind, run_bind]
  rcases (orFault (findStop p k.ceiling 0 (k.levels call outer))).run.run
    { still vars call outer place with logs := logs } with
    ⟨_ | way, m⟩
  · rfl
  · cases way <;> rfl

theorem yields_bubble {r : Reply Bool}
    (found : findStop p k.ceiling 0 (k.levels call outer) = .ok way)
    (yields : Yields (halt p source k way) (still vars call outer place) r m') :
    Yields (bubbleCommand p source k.ceiling k.crosses) (still vars call outer place) r m' := by
  intro logs
  obtain ⟨logs', ran⟩ := yields logs
  refine ⟨logs', run_bubble.trans ?_⟩
  rw [found]
  exact ran

theorem findStop_of_held
    (yields : Yields (bubbleCommand p source k.ceiling k.crosses) (still vars call outer place)
      (.ok true) m') :
    ∃ stop, findStop p k.ceiling 0 (k.levels call outer) = .ok (some stop) := by
  obtain ⟨logs', ran⟩ := yields #[]
  have ran := run_bubble.symm.trans ran
  cases found : findStop p k.ceiling 0 (k.levels call outer) with
  | error fault => rw [found] at ran; cases ran
  | ok way =>
    rw [found] at ran
    cases way with
    | none => cases ran
    | some stop => exact ⟨stop, rfl⟩

theorem alike_bubble {way' : Option Stop} {vars' : Env} {call' : Call} {outer' : List Call}
    (found : findStop p k.ceiling 0 (k.levels call outer) = .ok way)
    (found' : findStop p k.ceiling 0 (k.levels call' outer') = .ok way')
    (alike : Alike (halt p source k way) (still vars call outer place) (halt p source k way')
      (still vars' call' outer' place)) :
    Alike (bubbleCommand p source k.ceiling k.crosses) (still vars call outer place)
      (bubbleCommand p source k.ceiling k.crosses) (still vars' call' outer' place) := by
  intro logs
  obtain ⟨logs', same⟩ := alike logs
  refine ⟨logs', run_bubble.trans (Eq.trans ?_ run_bubble.symm)⟩
  rw [found, found']
  exact same

theorem alike_bubble_push (passes : Passes p k f)
    (found : findStop p k.ceiling 0 (k.levels call outer) = .ok (some stop)) :
    Alike (bubbleCommand p source k.ceiling k.crosses) (still vars (call.push f) outer place)
      (bubbleCommand p source k.ceiling k.crosses)
        (still (vars.restore f.saved) call outer place) := by
  have top := @findStop_push p k f call passes (if k.crosses then outer.map (·.blocks) else [])
  have base := found
  unfold Jump.levels at base
  rw [findStop] at base
  cases way : passage p k.ceiling 0 call.blocks with
  | error _ => rw [way] at base; cases base
  | ok x =>
    rw [way] at top base
    cases x with
    | blocked => cases base
    | halted toll above =>
      cases base
      exact alike_bubble top found fun logs => ⟨logs, rfl⟩
    | free =>
      -- calls are left, so the outermost one that is left takes its blocks along
      refine alike_bubble (top.trans base) found ?_
      replace base : findStop p k.ceiling (0 + 1) (if k.crosses then outer.map (·.blocks) else []) =
        .ok (some stop) := base
      rw [findStop_add] at base
      cases crosses : k.crosses with
      | false => rw [crosses] at base; cases base
      | true =>
        rw [crosses] at base
        cases outer with
        | nil => cases base
        | cons next outer =>
          cases further : findStop p k.ceiling 0 ((next :: outer).map (·.blocks)) with
          | error _ =>
            rw [if_pos rfl, further] at base
            cases base
          | ok way =>
            rw [if_pos rfl, further] at base
            cases way with
            | none => cases base
            | some stop =>
              cases base
              exact fun logs => ⟨logs, rfl⟩

theorem findStop_call (crosses : k.crosses = true) (bare : call.blocks = []) :
    findStop p k.ceiling 0 (k.levels call (next :: outer)) =
      (findStop p k.ceiling 0 (k.levels next outer)).map (Option.map (Stop.raise 1)) := by
  unfold Jump.levels
  rw [crosses, bare, findStop]
  exact findStop_add _ 0 1

theorem alike_bubble_call (crosses : k.crosses = true) (bare : call.blocks = [])
    (found : findStop p k.ceiling 0 (k.levels next outer) = .ok (some stop)) :
    Alike (bubbleCommand p source k.ceiling k.crosses) (still vars call (next :: outer) place)
      (bubbleCommand p source k.ceiling k.crosses)
        (still (vars.restore call.saved) next outer place) := by
  have top :
      findStop p k.ceiling 0 (k.levels call (next :: outer)) = .ok (some (stop.raise 1)) := by
    rw [findStop_call crosses bare, found]
    rfl
  refine alike_bubble top found ?_
  have left : Alike (popCalls p (stop.calls + 1)) (still vars call (next :: outer) place)
      (popCalls p stop.calls) (still (vars.restore call.saved) next outer place) :=
    (yields_popCall_bare bare).alike
  exact left.bind fun _ => do
    popBlocks stop.frames
    suspend p stop.toll source (k.bubble source)
    return true

section

variable {toll : Toll}

theorem yields_stop
    (halts : passage p k.ceiling 0 (g.frame q :: call.blocks) = .ok (.halted toll 0))
    (suspended : Yields (suspend p toll source (k.bubble source))
      (still vars (call.push (g.frame q)) outer place) (.ok ()) m') :
    Yields (bubbleCommand p source k.ceiling k.crosses)
      (still vars (call.push (g.frame q)) outer place) (.ok true) m' := by
  have found : findStop p k.ceiling 0 (k.levels (call.push (g.frame q)) outer) =
      .ok (some ⟨toll, 0, 0⟩) := by
    unfold Jump.levels
    dsimp only [Call.push]
    rw [findStop, halts]
    rfl
  exact yields_bubble found (yields_pure.bind (yields_pure.bind (suspended.bind yields_pure)))

end

theorem yields_finish {n : Nat} (block : p.Spans q (.guard name catchAt (some n)) last)
    (fresh : g.finaled = false) (idle : g.pending = none) (bound : n < p.commands.length) :
    Yields (bubbleCommand p source k.ceiling k.crosses)
      (still vars (call.push (g.frame q)) outer place) (.ok true)
      { still vars (call.push ((g.finishing.holding (k.bubble source)).frame q)) outer place with
        branch := some n } := by
  have halts : passage p k.ceiling 0 (g.frame q :: call.blocks) = .ok (.halted .finish 0) := by
    have owed := @owesFinally_frame p g q last name catchAt (some n) block
    have clear : (k.ceiling && (g.frame q).isLoop) = false := by cases k <;> rfl
    rw [fresh] at owed
    rw [passage, clear, if_neg Bool.false_ne_true]
    dsimp only [Guard.frame] at owed ⊢
    rw [if_neg (by rw [idle]; simp), owed]
    rfl
  have segments : segmentsOf p (g.frame q).place = .ok ⟨catchAt, some n, last⟩ :=
    segmentsOf_guard block
  refine yields_stop halts (yields_blocks.bind (.after_log ((yields_changeGuard _).bind ?_)))
  rw [segments]
  exact (yields_orFault _ _).bind (yields_branchTo bound)

theorem yields_replace (block : p.Spans q (.guard name catchAt finallyAt) last)
    (finishing : g.phase = some .finishing)
    (waits : g.pending.isSome = true) (bound : last < p.commands.length) :
    Yields (bubbleCommand p source k.ceiling k.crosses)
      (still vars (call.push (g.frame q)) outer place) (.ok true)
      { still vars (call.push ((g.holding (k.bubble source)).frame q)) outer place with
        branch := some last } := by
  have halts : passage p k.ceiling 0 (g.frame q :: call.blocks) = .ok (.halted .replace 0) := by
    have clear : (k.ceiling && (g.frame q).isLoop) = false := by cases k <;> rfl
    rw [passage, clear, if_neg Bool.false_ne_true]
    dsimp only [Guard.frame]
    rw [if_pos ⟨finishing, waits⟩]
  have segments : segmentsOf p (g.frame q).place = .ok
    ⟨catchAt, finallyAt, last⟩ := segmentsOf_guard block
  obtain ⟨prior, waits⟩ := Option.isSome_iff_exists.mp waits
  have pending : (g.frame q).pending? = some prior := waits
  refine yields_stop halts (yields_blocks.bind ?_)
  dsimp only [still, Call.push]
  rw [pending]
  refine .after_log ((yields_changeGuard _).bind ?_)
  rw [segments]
  exact (yields_orFault _ _).bind (yields_branchTo bound)

theorem yields_free (free : findStop p k.ceiling 0 (k.levels call outer) = .ok none) :
    Yields (bubbleCommand p source k.ceiling k.crosses) (still vars call outer place) (.ok false)
      (still vars call outer place) := yields_bubble free yields_pure

end Action

namespace Point

variable {p : Program} {u : Point} {k : Jump} {n place : Nat} {cmd : Command} {call next : Call}
  {outer : List Call} {w : World} {vars : Env} {lines : Array String} {f : Frame}

def Lands (p : Program) (u : Point) (n : Nat) (cmd : Command) (call : Call) (outer : List Call)
    (w : World) : Jump → Prop
  | .again =>
    ∀ m', Yields (again p cmd true) (still w.vars call outer n) (.ok ()) m' → u.Shows m' w.lines
  | .leave =>
    ∀ m', Yields (leave p cmd true) (still w.vars call outer n) (.ok ()) m' → u.Shows m' w.lines
  | .back =>
    ∃ vars left, left.release vars = call.release w.vars ∧ left.returning = true ∧
      left.back = call.back ∧ ∀ b : Nat, call.back = some (b : Int) → b < p.commands.length →
        u.Shows { still vars left outer n with branch := some b } w.lines
  | .exit => u.2 = none ∧ u.1.machine.stopped = true ∧ u.1.lines = w.lines

/-- A lap that ends with a command, which has come out of all blocks but those of `call` and of the
calls around. -/
structure Leaving (p : Program) (u : Point) (k : Jump) (n : Nat) (cmd : Command) (call : Call)
    (outer : List Call) (w : World) : Prop where
  there : p.Has n cmd
  verb : cmd.verb? = some k.verb
  own : k = .back → ∃ q, p.Links n q ∧ call.function = some q
  held : ∃ place, ∀ m', Yields (bubbleCommand p (some (n : Int)) k.ceiling k.crosses)
    (still w.vars call outer place) (.ok true) m' →
    u.Shows m' w.lines
  free : findStop p k.ceiling 0 (k.levels call outer) = .ok none → ∃ v, Leads p u v ∧
    Lands p v n cmd call outer w k

theorem Doing.congr {a b : Action Unit} {m l : Machine} (alike : Alike a m b l)
    (doing : Doing p u place a m lines) : Doing p u place b l lines where
  done _ yields := doing.done _ (alike.yields yields)
  failed _ _ here yields := doing.failed _ _ here (alike.yields yields)
  broken _ _ yields := doing.broken _ _ (alike.yields yields)

theorem Lands.shed (passes : Passes p k f) (lands : Lands p u n cmd (call.push f) outer w k) :
    Lands p u n cmd call outer { w with vars := w.vars.restore f.saved } k := by
  cases k with
  | again | leave =>
    have other : f.isLoop = false := by simpa [Jump.ceiling] using passes.1
    intro m' yields
    refine lands m' (Alike.yields ?_ yields)
    exact ((alike_unwind (congrArg Except.ok other)).bind _).bind _
  | back | exit => exact lands

theorem Leaving.shed (passes : Passes p k f) (leaving : Leaving p u k n cmd (call.push f) outer w) :
    Leaving p u k n cmd call outer { w with vars := w.vars.restore f.saved } := by
  obtain ⟨has, verb, own, ⟨place, held⟩, free⟩ := leaving
  refine ⟨has, verb, own, ⟨place, fun m' yields => ?_⟩, fun unstopped => ?_⟩
  · obtain ⟨stop, found⟩ := findStop_of_held yields
    exact held m' ((alike_bubble_push passes found).yields yields)
  · obtain ⟨v, leads, lands⟩ := free (findStop_push_none passes unstopped)
    exact ⟨v, leads, lands.shed passes⟩

theorem Leaving.shed_call (bare : call.blocks = [])
    (leaving : Leaving p u .exit n cmd call (next :: outer) w) :
    Leaving p u .exit n cmd next outer { w with vars := w.vars.restore call.saved } := by
  obtain ⟨has, verb, own, ⟨place, held⟩, free⟩ := leaving
  refine ⟨has, verb, nofun, ⟨place, fun m' yields => ?_⟩, fun unstopped => free ?_⟩
  · obtain ⟨stop, found⟩ := findStop_of_held yields
    exact held m' ((alike_bubble_call rfl bare found).yields yields)
  · rw [findStop_call rfl bare, unstopped]
    rfl

section Guards

variable {g : Guard} {q last j : Nat} {name : String} {catchAt finallyAt : Option Nat}

theorem Leaving.finish (block : p.Spans q (.guard name catchAt (some j)) last)
    (fresh : g.finaled = false) (idle : g.pending = none) (bound : j < p.commands.length)
    (leaving : Leaving p u k n cmd (call.push (g.frame q)) outer w) :
    Stands p u j (call.push ((g.finishing.holding (k.bubble (some (n : Int)))).frame q))
      outer w := by
  obtain ⟨place, held⟩ := leaving.held
  exact (held _ (yields_finish block fresh idle bound)).stands_branch

theorem Leaving.replace (block : p.Spans q (.guard name catchAt finallyAt) last)
    (finishing : g.phase = some .finishing) (waits : g.pending.isSome = true)
    (bound : last < p.commands.length)
    (leaving : Leaving p u k n cmd (call.push (g.frame q)) outer w) :
    Stands p u last (call.push ((g.holding (k.bubble (some (n : Int)))).frame q)) outer w := by
  obtain ⟨place, held⟩ := leaving.held
  exact (held _ (yields_replace block finishing waits bound)).stands_branch

end Guards

theorem Lands.of_doing (own : k = .back → ∃ q, p.Links n q ∧ call.function = some q)
    (doing : Doing p u n (perform p cmd true k.verb) (still w.vars call outer n) w.lines) :
    Lands p u n cmd call outer w k := by
  cases k with
  | again | leave => exact doing.done
  | back =>
    obtain ⟨q, owned, function⟩ := own rfl
    refine ⟨w.vars, { call with returning := true }, rfl, rfl, rfl, fun b back bound => ?_⟩
    have owner :
        Yields (ownerHere p) (still w.vars call outer n) (.ok q) (still w.vars call outer n) :=
      yields_ownerHere rfl owned
    refine doing.done _ (owner.bind (.get fun logs => ?_))
    have same :
        ¬ ({ still w.vars call outer n with logs := logs } : Machine).call.function ≠ some q :=
      fun other => other function
    rw [if_neg same]
    have marked : Yields (modify fun m => { m with call := { m.call with returning := true } })
      (still w.vars call outer n) (.ok ()) (still w.vars { call with returning := true } outer n) :=
      yields_modify fun _ => rfl
    refine marked.bind (.get fun logs => ?_)
    have back : ({ still w.vars { call with returning := true } outer n with logs := logs } :
      Machine).call.back = some (b : Int) := back
    rw [back]
    exact yields_branchTo bound
  | exit =>
    have stopped : Yields (modify fun m => { m with stopped := true })
      (still w.vars call outer n) (.ok ()) { still w.vars call outer n with stopped := true } :=
      yields_modify fun _ => rfl
    obtain ⟨going, lines, logs, machine⟩ := doing.done _ (.after_log stopped)
    exact ⟨going, by rw [machine], lines⟩

theorem Leaving.of_transfer {last : Action Unit} (has : p.Has n cmd)
    (verb : cmd.verb? = some k.verb) (own : k = .back → ∃ q, p.Links n q ∧ call.function = some q)
    (same : Alike last (still vars call outer n) (perform p cmd true k.verb)
      (still vars call outer n))
    (doing : Doing p u n
      (transfer p k.ceiling k.crosses >>= fun waits => if waits then pure () else last)
      (still vars call outer n) lines) :
    Leaving p u k n cmd call outer ⟨vars, lines⟩ := by
  have sets {waits : Bool} {m' : Machine}
      (yields : Yields (bubbleCommand p (some (n : Int)) k.ceiling k.crosses)
        (still vars call outer n) (.ok waits) m') :
      Yields (transfer p k.ceiling k.crosses) (still vars call outer n) (.ok waits) m' :=
    .get fun _ => yields
  refine ⟨has, verb, own, ⟨n, fun m' yields => ?_⟩, fun unstopped => ⟨u, .refl, .of_doing own ?_⟩⟩
  · exact doing.done _ ((sets yields).bind yields_pure)
  · exact (doing.step (sets (yields_free unstopped))).congr same

theorem Leaving.of_release [p.Fresh] (has : p.Has n cmd) (verb : cmd.verb? = some k.verb)
    (own : k = .back → ∃ q, p.Links n q ∧ call.function = some q)
    (doing : Doing p u place (release p (k.bubble (some (n : Int))))
      (still vars call outer place) lines) :
    Leaving p u k n cmd call outer ⟨vars, lines⟩ := by
  refine ⟨has, verb, own, ⟨place, fun m' yields => doing.done _ (yields.bind yields_pure)⟩,
    fun unstopped => ?_⟩
  have bound := has.lt
  have resumes : Yields (modify fun m => { m with resume := some (n : Int) })
    (still vars call outer place) (.ok ())
    { still vars call outer place with resume := some (n : Int) } := yields_modify fun _ => rfl
  have shown :=
    doing.done _ ((yields_free unstopped).bind (.after_log (resumes.bind (yields_branchTo bound))))
  exact ⟨tick p u, leads_tick, .of_doing own (shown.resume has verb)⟩

end Point

namespace Action

variable {p : Program} {c : Command} {i : Nat}

theorem dropToLoop_bind {rest : Option Frame → Action Unit} (idle : rest none = pure ()) :
    (dropToLoop p c false >>= rest) = (do
      if ← Tree.applies p c then
        if ← transfer p true false then return
        dropToLoop p c true >>= rest) := by
  have whole : dropToLoop p c false = (do
      if ← Tree.applies p c then
        if ← transfer p true false then return none
        dropToLoop p c true
      else return none) := by
    unfold dropToLoop Tree.applies
    cases empty : c.target.isEmpty with
    | true | false => rfl
  rw [whole, bind_assoc]
  congr 1
  funext does
  cases does with
  | false => exact idle
  | true =>
    show ((transfer p true false >>= _) >>= _) = (transfer p true false >>= _)
    rw [bind_assoc]
    congr 1
    funext waits
    cases waits with
    | false => rfl
    | true => exact idle

theorem run_giveBack {q : Nat} {m : Machine} (here : m.Here i) (owned : p.Links i q)
    (function : m.call.function = some q) {expression : String} {resuming : Bool} :
    (giveBack p expression resuming).run.run m = (do
      if resuming then goBack p
      else if expression.isEmpty then turnBack p
      else
        assign [("_result", ← eval p expression)]
        turnBack p : Action Unit).run.run m := by
  have owner : (ownerHere p).run.run m = (.ok q, m) := by
    unfold ownerHere
    rw [run_bind, run_get]
    dsimp only
    rw [here, blockAt?_nat, owned]
    rfl
  unfold giveBack
  rw [run_bind, owner]
  dsimp only
  rw [run_bind, run_get]
  dsimp only
  rw [if_neg fun other => other function]

end Action

end Runbook
