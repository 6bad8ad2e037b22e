import Mathlib.Data.List.Infix
import Runbook.Proofs.Machine.Layers
import Runbook.Proofs.Machine.Transfers

namespace Runbook

open Runbook.Action List

def OpensGuard (p : Program) (place : Nat) : Prop :=
  ∃ name catchAt finallyAt last, p.Spans place (.guard name catchAt finallyAt) last

abbrev Machine.Grounded (p : Program) (m : Machine) : Prop := m.GuardsIn (OpensGuard p)

theorem Text.occursIn_iff (part text : List Char) :
    Text.occursIn part text = true ↔ part <:+: text := by
  induction text with
  | nil => simp [Text.occursIn]
  | cons c rest ih => rw [Text.occursIn, Bool.or_eq_true, ih, isPrefixOf_iff_prefix, infix_cons_iff]

/-- What a filter says of a text, and the variables once it is evaluated: an empty one takes every
text, a pattern those in which it is found, and any other value those of which its own text is a
part. -/
inductive Judged (p : Program) (text : String) : String → Env → Bool → Env → Prop
  | any (vars : Env) : Judged p text "" vars true vars
  | pattern {filter : String} {vars : Env} {q : Pattern} (given : filter ≠ "")
      (value : (p.evaluator filter vars).1 = .ok (.pattern q)) :
      Judged p text filter vars (p.patterns.finds q text) (p.evaluator filter vars).2
  | part {filter part : String} {vars : Env} {v : Value} (given : filter ≠ "")
      (value : (p.evaluator filter vars).1 = .ok v) (other : ∀ q, v ≠ .pattern q)
      (spelled : p.limits.spell v = .ok part) :
      Judged p text filter vars (decide (part.toList <:+: text.toList)) (p.evaluator filter vars).2

/-- How the filter of a guard may fail: its value is not found, or is too large to have a text. -/
def Control.OfFilter (e : Failure) : Prop :=
  e.kind? = some .eval ∨ ∃ f, e = .fault f ∧ f.topic? = some .size

def Frame.catch? (p : Program) (f : Frame) : Option Nat :=
  match f.body, p.outline.block? f.place with
  | .guard g, some (.opener (.guard _ catchAt _) _) => if g.caught then none else catchAt
  | _, _ => none

def Frame.finally? (p : Program) (f : Frame) : Option Nat :=
  match f.body, p.outline.block? f.place with
  | .guard g, some (.opener (.guard _ _ finallyAt) _) => if g.finaled then none else finallyAt
  | _, _ => none

def Frame.last? (p : Program) (f : Frame) : Option Nat :=
  match p.outline.block? f.place with
  | some (.opener _ last) => some last
  | _ => none

def StackLayer.intercepts : StackLayer → Bool
  | .block f => f.intercepts
  | .call _ => false

/-- A block has no catching segment left, or one whose filter does not take the text. -/
inductive Frame.Declines (p : Program) (text : String) (f : Frame) : Env → Env → Prop
  | none (unowed : f.catch? p = none) (vars : Env) : Declines p text f vars vars
  | other {c : Nat} {vars vars' : Env} (owed : f.catch? p = some c)
      (judged : Judged p text (targetAt p c) vars false vars') : Declines p text f vars vars'

/-- Layers that a failure passes over, topmost first: each declines it, has no last segment to run,
and puts its variables back when it is left. -/
inductive Passed (p : Program) (text : String) : List StackLayer → Env → Env → Prop
  | nil (vars : Env) : Passed p text [] vars vars
  | block {f : Frame} {rest : List StackLayer} {vars vars₁ vars' : Env}
      (declines : f.Declines p text vars vars₁) (paid : f.finally? p = none)
      (further : Passed p text rest (vars₁.restore f.saved) vars') :
      Passed p text (.block f :: rest) vars vars'
  | call {c : Call} {rest : List StackLayer} {vars vars' : Env}
      (further : Passed p text rest (vars.restore c.saved) vars') :
      Passed p text (.call c :: rest) vars vars'

structure Machine.Passes (p : Program) (text : String) (m : Machine) (gone : List StackLayer)
    (m' : Machine) : Prop extends Machine.Drops m gone m' where
  vars : Passed p text gone m.vars m'.vars

/-- What becomes of a failure that is offered from the innermost block on outward. -/
inductive Offered (p : Program) (cause : Failure) (source : Int) (m : Machine) :
    Except Failure Bool → Machine → Prop
  | caught {gone : List StackLayer} {m₁ : Machine} {f : Frame} {g : Guard} {rest : List Frame}
      {c : Nat} {vars : Env} (passes : m.Passes p cause.message gone m₁)
      (top : m₁.call.blocks = f :: rest) (guard : f.body = .guard g) (owed : f.catch? p = some c)
      (judged : Judged p cause.message (targetAt p c) m₁.vars true vars) (logs : Array Log) :
      Offered p cause source m (.ok true)
        { m₁ with
          vars := vars
          call := { m₁.call with blocks := { f with body := .guard g.catching } :: rest }
          branch := some c
          logs := logs }
  /-- The failure waits while the last segment of the innermost guard that has one to run is run. -/
  | held {gone : List StackLayer} {m₁ : Machine} {f : Frame} {g : Guard} {rest : List Frame}
      {j : Nat} {vars : Env} (passes : m.Passes p cause.message gone m₁)
      (top : m₁.call.blocks = f :: rest) (guard : f.body = .guard g)
      (declines : f.Declines p cause.message m₁.vars vars) (owed : f.finally? p = some j)
      (logs : Array Log) :
      Offered p cause source m (.ok true)
        { m₁ with
          vars := vars
          call := { m₁.call with blocks :=
            { f with body := .guard (g.finishing.holding (.failure cause source)) } :: rest }
          branch := some j
          logs := logs }
  | lost {gone : List StackLayer} {m' : Machine} (passes : m.Passes p cause.message gone m')
      (bottom : m'.outer = []) (empty : m'.call.blocks = []) :
      Offered p cause source m (.ok false) m'
  | raised {gone : List StackLayer} {m₁ m' : Machine} {f : Frame} {rest : List Frame} {c : Nat}
      {e : Failure} (passes : m.Passes p cause.message gone m₁) (top : m₁.call.blocks = f :: rest)
      (owed : f.catch? p = some c)
      (raises : ∀ b vars, ¬ Judged p cause.message (targetAt p c) m₁.vars b vars) :
      Offered p cause source m (.error e) m'

def Strays (p : Program) (cause : Failure) (m : Machine) (r : Except Failure Bool) (m' : Machine) :
    Prop :=
  ∀ e, r = .error e → Control.OfFilter e ∧ ∃ gone m₁, m.Passes p cause.message gone m₁ ∧
    m'.control = m₁.control

inductive Routes (p : Program) (cause : Failure) (source : Int) (m : Machine) :
    Except Failure Bool → Machine → Prop
  | refused (unheard : cause.isFatal = true ∨ ∀ x ∈ m.layers, x.intercepts = false)
      (logs : Array Log) : Routes p cause source m (.ok false) { m with logs := logs }
  /-- The innermost guard that listens has nothing more to run. -/
  | spent {gone : List StackLayer} {m₀ : Machine} {f : Frame} {g : Guard} {rest : List Frame}
      {last : Nat} (mild : cause.isFatal = false) (unwound : m.Unwound gone m₀)
      (deaf : ∀ x ∈ gone, x.intercepts = false) (top : m₀.call.blocks = f :: rest)
      (guard : f.body = .guard g) (listens : g.phase.isSome = true) (late : g.phase ≠ some .trying)
      (paid : f.finally? p = none) (ends : f.last? p = some last) (logs : Array Log) :
      Routes p cause source m (.ok true)
        { m₀ with
          call := { m₀.call with blocks :=
            { f with body := .guard (g.holding (.failure cause source)) } :: rest }
          branch := some last
          logs := logs }
  | offered {gone : List StackLayer} {m₀ m' : Machine} {f : Frame} {g : Guard} {rest : List Frame}
      {r : Except Failure Bool} (mild : cause.isFatal = false) (unwound : m.Unwound gone m₀)
      (deaf : ∀ x ∈ gone, x.intercepts = false) (top : m₀.call.blocks = f :: rest)
      (guard : f.body = .guard g) (listens : g.phase.isSome = true)
      (live : g.phase = some .trying ∨ (f.finally? p).isSome = true)
      (offered : Offered p cause source m₀ r m') : Routes p cause source m r m'

section Passing

variable {p : Program} {text : String} {m m' m'' : Machine} {gone more : List StackLayer}
  {vars vars' vars'' : Env} {cause : Failure} {r : Reply Bool}

theorem Passed.append (first : Passed p text gone vars vars')
    (second : Passed p text more vars' vars'') : Passed p text (gone ++ more) vars vars'' := by
  induction first with
  | nil => exact second
  | block declines paid _ ih => exact .block declines paid (ih second)
  | call _ ih => exact .call (ih second)

theorem Machine.Passes.refl : m.Passes p text [] m := ⟨.refl, .nil _⟩

theorem Machine.Passes.trans (first : m.Passes p text gone m')
    (second : m'.Passes p text more m'') : m.Passes p text (gone ++ more) m'' :=
  ⟨first.toDrops.trans second.toDrops, first.vars.append second.vars⟩

theorem Machine.Drops.grounded (drops : m.Drops gone m') (grounded : m.Grounded p) :
    m'.Grounded p := by
  intro f mem
  rw [mem_frames_iff_layers] at mem
  refine grounded f (mem_frames_iff_layers.mpr ?_)
  rw [drops.layers]
  exact mem_append_right gone mem

theorem Offered.after {source : Int} (passes : m.Passes p cause.message gone m')
    (offered : Offered p cause source m' r m'') : Offered p cause source m r m'' := by
  cases offered with
  | caught further top guard owed judged logs =>
    exact .caught (passes.trans further) top guard owed judged logs
  | held further top guard declines owed logs =>
    exact .held (passes.trans further) top guard declines owed logs
  | lost further bottom empty => exact .lost (passes.trans further) bottom empty
  | raised further top owed raises => exact .raised (passes.trans further) top owed raises

theorem Strays.after (passes : m.Passes p cause.message gone m')
    (strays : Strays p cause m' r m'') : Strays p cause m r m'' := by
  intro e failed
  obtain ⟨filter, more, m₁, further, control⟩ := strays e failed
  exact ⟨filter, gone ++ more, m₁, passes.trans further, control⟩

end Passing

section Guards

variable {p : Program} {m m' : Machine} {f : Frame} {rest : List Frame} {cause : Failure}
  {source : Int} {r : Reply Bool} {j : Nat} {filter : String}

theorem reads_catches {k : Control} : Reads k Control.OfFilter (catches p cause filter) := by
  unfold catches
  split
  · exact reads_pure
  · refine reads_bind (reads_eval (fun _ same _ => .inl (congrArg some same)) _ _) fun v => ?_
    split
    · exact reads_pure
    · exact reads_bind (reads_textOf fun f size => .inr ⟨f, rfl, size⟩) fun _ => reads_pure

theorem ran_catches (ran : Ran (catches p cause filter) m r m') :
    (∃ b vars, r = .ok b ∧ Judged p cause.message filter m.vars b vars ∧
      m' = { m with vars := vars }) ∨
      ∃ e, r = .error e ∧ ∀ b vars, ¬ Judged p cause.message filter m.vars b vars := by
  unfold catches at ran
  split at ran
  · rename_i empty
    obtain rfl := String.isEmpty_iff.mp empty
    obtain ⟨rfl, rfl⟩ := ran_pure ran
    exact .inl ⟨true, m'.vars, rfl, .any _, rfl⟩
  rename_i filled
  have given : filter ≠ "" := fun same => filled (String.isEmpty_iff.mpr same)
  rcases ran_bind ran with ⟨e, rfl, failed⟩ | ⟨v, m₁, evaluated, ran⟩
  · refine .inr ⟨e, rfl, fun b vars judged => ?_⟩
    have none := (ran_eval failed).2.1
    cases judged with
    | any => exact given rfl
    | pattern _ value => cases (none _).mpr value
    | part _ value => cases (none _).mpr value
  obtain ⟨rfl, value, _⟩ := ran_eval evaluated
  have value := (value v).mp rfl
  split at ran
  · rename_i q
    obtain ⟨rfl, rfl⟩ := ran_pure ran
    exact .inl ⟨_, _, rfl, .pattern given value, rfl⟩
  · rename_i other
    have ran : Ran (do return Text.occursIn (← textOf p v).toList cause.message.toList) _ r m' :=
      ran
    unfold textOf at ran
    cases spelled : p.limits.spell v with
    | ok part =>
      rw [spelled] at ran
      obtain ⟨rfl, rfl⟩ := ran_pure ran
      have same : Text.occursIn part.toList cause.message.toList =
          decide (part.toList <:+: cause.message.toList) := by
        rw [Bool.eq_iff_iff, Text.occursIn_iff, decide_eq_true_iff]
      exact .inl ⟨_, _, rfl, same ▸ .part given value other spelled, rfl⟩
    | error x =>
      rw [spelled] at ran
      obtain ⟨rfl, rfl⟩ := Prod.mk.inj ran
      refine .inr ⟨_, rfl, fun b vars judged => ?_⟩
      cases judged with
      | any => exact given rfl
      | pattern _ value' =>
        rw [value] at value'
        cases value'
        exact other _ rfl
      | part _ value' _ spelled' =>
        rw [value] at value'
        cases value'
        rw [spelled] at spelled'
        cases spelled'

theorem catch?_eq_some {c : Nat} (owed : f.catch? p = some c) :
    ∃ g name finallyAt last, f.body = .guard g ∧
    g.caught = false ∧ p.Spans f.place (.guard name (some c) finallyAt) last := by
  unfold Frame.catch? at owed
  split at owed
  · rename_i g name catchAt finallyAt last body block
    split at owed
    · cases owed
    · rename_i fresh
      cases owed
      exact ⟨g, name, finallyAt, last, body, by simpa using fresh, block⟩
  · cases owed

theorem finally?_eq_some (owed : f.finally? p = some j) : ∃ g name catchAt last, f.body = .guard g ∧
    g.finaled = false ∧ p.Spans f.place (.guard name catchAt (some j)) last := by
  unfold Frame.finally? at owed
  split at owed
  · rename_i g name catchAt finallyAt last body block
    split at owed
    · cases owed
    · rename_i fresh
      cases owed
      exact ⟨g, name, catchAt, last, body, by simpa using fresh, block⟩
  · cases owed

theorem owes_eq (grounded : f.guard?.isSome = true → OpensGuard p f.place) :
    owesCatch p f = .ok (f.catch? p).isSome ∧ owesFinally p f = .ok (f.finally? p).isSome := by
  unfold owesCatch owesFinally Frame.catch? Frame.finally?
  cases body : f.body with
  | cond c | loop l => exact ⟨rfl, rfl⟩
  | guard g =>
    obtain ⟨name, catchAt, finallyAt, last, block⟩ := grounded (by simp [Frame.guard?, body])
    simp only [segmentsOf_guard block, block]
    constructor
    · cases catchAt <;> cases g.caught <;> rfl
    · cases finallyAt <;> cases g.finaled <;> rfl

theorem ran_toSegment {g : Guard} {how : Guard → Guard}
    (ran : Ran (do changeGuard how; branchTo p (j : Int); return true) m r m')
    (top : m.Top f rest) (guard : f.body = .guard g) (bound : j < p.commands.length) :
    r = .ok true ∧ m' = { m with
      call := { m.call with blocks := { f with body := .guard (how g) } :: rest }
      branch := some j } := by
  have inside : 0 ≤ (j : Int) ∧ (j : Int) < p.commands.length := by omega
  unfold Ran at ran
  rw [run_bind, changeGuard, run_change, top] at ran
  dsimp only at ran
  rw [guard, branchTo, if_pos inside] at ran
  obtain ⟨rfl, rfl⟩ := Prod.mk.inj ran
  exact ⟨rfl, rfl⟩

theorem ran_tryCatch [p.Faithful] (grounded : f.guard?.isSome = true → OpensGuard p f.place)
    (ran : Ran (Action.tryCatch p cause source f) m r m') (top : m.Top f rest) :
    (∃ vars, r = .ok false ∧ f.Declines p cause.message m.vars vars ∧
      m' = { m with vars := vars }) ∨
      (∃ c vars, r = .ok true ∧ f.catch? p = some c ∧ ∃ g, f.body = .guard g ∧
        Judged p cause.message (targetAt p c) m.vars true vars ∧
        m' = { m with
          vars := vars
          call := { m.call with blocks := { f with body := .guard g.catching } :: rest }
          branch := some c
          logs := m'.logs }) ∨
      ∃ c e, r = .error e ∧ f.catch? p = some c ∧
        (∀ b vars, ¬ Judged p cause.message (targetAt p c) m.vars b vars) ∧
        Control.OfFilter e ∧ m'.control = m.control := by
  unfold Action.tryCatch at ran
  rw [(owes_eq grounded).1] at ran
  cases owed : f.catch? p with
  | none =>
    rw [owed] at ran
    obtain ⟨rfl, rfl⟩ := ran_pure ran
    exact .inl ⟨_, rfl, .none owed _, rfl⟩
  | some c =>
    obtain ⟨g, name, finallyAt, last, body, _, block⟩ := catch?_eq_some owed
    rw [owed, segmentsOf_guard block] at ran
    have ran : Ran (do
        if ← catches p cause (targetAt p c) then enterCatch p cause source c
        else return false) m r m' := ran
    rcases ran_bind ran with ⟨e, rfl, failed⟩ | ⟨takes, m₁, asked, ran⟩
    · rcases ran_catches failed with ⟨_, _, wrong, _⟩ | ⟨_, _, raises⟩
      · cases wrong
      · exact .inr (.inr ⟨c, e, rfl,
          rfl, raises, reads_catches.fails failed, reads_catches.still failed⟩)
    rcases ran_catches asked with ⟨b, vars, same, judged, rfl⟩ | ⟨_, wrong, _⟩
    case inr => cases wrong
    cases same
    cases takes with
    | false =>
      obtain ⟨rfl, rfl⟩ := ran_pure ran
      exact .inl ⟨vars, rfl, .other owed judged, rfl⟩
    | true =>
      have bound : c < p.commands.length := by
        have ended := block.ended p.found
        have bound := ended.bound
        have inside := (ended.grown.parts (c, .openCatch) (by simp [Form.parts])).2.1
        omega
      have ran : Ran (do changeGuard _; branchTo p (c : Int); return true : Action Bool)
          { m with vars := vars, logs := _ } r m' := ran
      obtain ⟨rfl, rfl⟩ := ran_toSegment ran top body bound
      exact .inr (.inl ⟨c, vars, rfl, rfl, g, body, judged, rfl⟩)

theorem ran_tryFinally [p.Faithful] (grounded : f.guard?.isSome = true → OpensGuard p f.place)
    (ran : Ran (Action.tryFinally p cause source f) m r m') (top : m.Top f rest) :
    (r = .ok false ∧ f.finally? p = none ∧ m' = m) ∨
      ∃ j, r = .ok true ∧ f.finally? p = some j ∧ ∃ g, f.body = .guard g ∧
        m' = { m with
          call := { m.call with blocks :=
            { f with body := .guard (g.finishing.holding (.failure cause source)) } :: rest }
          branch := some j
          logs := m'.logs } := by
  unfold Action.tryFinally at ran
  rw [(owes_eq grounded).2] at ran
  cases owed : f.finally? p with
  | none =>
    rw [owed] at ran
    obtain ⟨rfl, rfl⟩ := ran_pure ran
    exact .inl ⟨rfl, rfl, rfl⟩
  | some j =>
    obtain ⟨g, name, catchAt, last, body, _, block⟩ := finally?_eq_some owed
    have bound : j < p.commands.length := by
      have ended := block.ended p.found
      have bound := ended.bound
      have inside := (ended.grown.parts (j, .openFinally) (by simp [Form.parts])).2.1
      omega
    rw [owed, segmentsOf_guard block] at ran
    have ran : Ran (do
        changeGuard fun g => { g with
          pending := some (.failure cause source)
          phase := some .finishing
          finaled := true }
        branchTo p (j : Int)
        return true : Action Bool) { m with logs := _ } r m' := ran
    obtain ⟨rfl, rfl⟩ := ran_toSegment ran top body bound
    exact .inr ⟨j, rfl, rfl, g, body, rfl⟩

end Guards

section Offers

variable {p : Program} {m m' : Machine} {cause failure : Failure} {source : Int} {r : Reply Bool}
  {f : Frame}

theorem ran_offer {frames : List Frame} [p.Faithful]
    (grounded : ∀ f ∈ frames, f.guard?.isSome = true → OpensGuard p f.place)
    (start : m.call.blocks = frames) (ran : Ran (offer p cause source frames) m r m') :
    (r = .ok false ∧ m'.call.blocks = [] ∧ m'.outer = m.outer ∧
        m.Passes p cause.message (frames.map StackLayer.block) m') ∨
      (r ≠ .ok false ∧ Offered p cause source m r m' ∧ Strays p cause m r m') := by
  induction frames generalizing m with
  | nil =>
    obtain ⟨rfl, rfl⟩ := ran_pure ran
    exact .inl ⟨rfl, start, rfl, .refl⟩
  | cons f rest ih =>
    obtain ⟨own, others⟩ := forall_mem_cons.mp grounded
    rcases ran_bind ran with ⟨e, rfl, failed⟩ | ⟨caught, m₁, asked, ran⟩
    · rcases ran_tryCatch own failed start with
        ⟨_, wrong, _⟩ | ⟨_, _, wrong, _⟩ | ⟨c, _, same, owed, raises, filter, control⟩
      · cases wrong
      · cases wrong
      · refine .inr ⟨nofun, .raised (.refl) start owed raises, fun _ failed => ?_⟩
        cases same
        cases failed
        exact ⟨filter, [], m, .refl, control⟩
    rcases ran_tryCatch own asked start with
      ⟨vars, same, declines, rfl⟩ | ⟨c, vars, same, owed, g, guard, judged, after⟩ | ⟨_,
        _, wrong, _⟩
    case inr.inr => cases wrong
    · cases same
      rcases ran_bind ran with ⟨e, _, failed⟩ | ⟨held, m₂, asked, ran⟩
      · rcases ran_tryFinally own failed start with ⟨wrong, _⟩ | ⟨_, wrong, _⟩ <;> cases wrong
      rcases ran_tryFinally own asked start with
        ⟨same, paid, rfl⟩ | ⟨j, same, owed, g, guard, after⟩
      · -- neither segment takes it: the block is left
        cases same
        have ran : Ran (pop >>= fun _ => offer p cause source rest) { m with vars := vars } r m' :=
          ran
        have ran := ran_bind_ok ran (run_pop_top start)
        have passes : m.Passes p cause.message [.block f]
            { m with call := { m.call with blocks := rest }, vars := vars.restore f.saved } :=
          ⟨.block start _, .block declines paid (.nil _)⟩
        rcases ih others rfl ran with ⟨rfl, empty, outer, further⟩ | ⟨other, offered, strays⟩
        · exact .inl ⟨rfl, empty, outer, passes.trans further⟩
        · exact .inr ⟨other, offered.after passes, strays.after passes⟩
      · cases same
        obtain ⟨rfl, rfl⟩ := ran_pure ran
        rw [after]
        exact .inr ⟨nofun, .held (.refl) start guard declines owed _, nofun⟩
    · cases same
      obtain ⟨rfl, rfl⟩ := ran_pure ran
      rw [after]
      exact .inr ⟨nofun, .caught (.refl) start guard owed judged _, nofun⟩

theorem ran_offerCalls {outer : List Call} [p.Faithful]
    (ran : Ran (offerCalls p cause source outer) m r m') (around : m.outer = outer)
    (grounded : m.Grounded p) : Offered p cause source m r m' ∧ Strays p cause m r m' := by
  induction outer generalizing m with
  | nil =>
    rcases ran_offer (forall_frames.mp grounded).1 rfl (ran_blocks_bind ran) with
      ⟨rfl, empty, outer, passes⟩ | ⟨_, offered⟩
    · exact ⟨.lost passes (outer.trans around) empty, nofun⟩
    · exact offered
  | cons next outer ih =>
    rcases ran_bind (ran_blocks_bind ran) with ⟨e, rfl, failed⟩ | ⟨took, m₁, asked, ran⟩
    · rcases ran_offer (forall_frames.mp grounded).1 rfl failed with ⟨wrong, _⟩ | ⟨_, offered⟩
      · cases wrong
      · exact offered
    rcases ran_offer (forall_frames.mp grounded).1 rfl asked with ⟨same, empty,
      outer₁, passes⟩ | ⟨other, offered⟩
    · cases same
      have around₁ : m₁.outer = next :: outer := outer₁.trans around
      have ran : Ran (popCall p >>= fun _ => _) m₁ r m' := ran
      have ran := ran_bind_ok ran (run_popCall around₁)
      have ran : Ran (offerCalls p cause source outer)
          { m₁ with call := next, outer := outer, vars := _, logs := _ } r m' := ran
      have left := @Machine.Drops.call m₁ next outer around₁ (m₁.call.release m₁.vars)
      rw [Call.layers, empty] at left
      have restored : Passed p cause.message [.call { m₁.call with blocks := [] }] m₁.vars
          (m₁.call.release m₁.vars) := by
        rw [release_eq, Call.layers, empty]
        exact .call (.nil _)
      have passed (logs : Array Log) := passes.trans (⟨left.log logs, restored⟩ : m₁.Passes _ _ _ _)
      obtain ⟨offered, strays⟩ := ih ran rfl ((passed _).grounded grounded)
      exact ⟨offered.after (passed _), strays.after (passed _)⟩
    · cases took with
      | false => exact absurd rfl other
      | true =>
        obtain ⟨rfl, rfl⟩ := ran_pure ran
        exact offered

theorem isSpent_eq {g : Guard} (grounded : f.guard?.isSome = true → OpensGuard p f.place)
    (guard : f.body = .guard g) :
    isSpent p f = .ok (decide (g.phase ≠ some .trying) && !(f.finally? p).isSome) := by
  unfold isSpent
  rw [(owes_eq grounded).2, guard]
  dsimp only
  split
  · rename_i trying
    simp [trying]
  · rename_i later
    simp only [later, ne_eq, not_false_eq_true, decide_true, Bool.true_and]
    rfl

theorem intercepts_iff : f.intercepts = true ↔ ∃ g, f.body = .guard g ∧ g.phase.isSome = true := by
  unfold Frame.intercepts
  split
  · rename_i g body
    exact ⟨fun listens => ⟨g, body, listens⟩, fun ⟨_, same, listens⟩ => by
      cases body.symm.trans same; exact listens⟩
  · rename_i other
    exact ⟨nofun, fun ⟨g, body, _⟩ => absurd body (other g)⟩

theorem stops_of_takeWhile {α : Type} {q : α → Bool} {l below : List α} {x : α}
    (split : l = l.takeWhile q ++ x :: below) : q x = false := by
  have rest : l.dropWhile q = x :: below := append_cancel_left
    (takeWhile_append_dropWhile.trans split)
  have first := head?_dropWhile_not q l
  rw [rest] at first
  simpa using first

theorem ran_unwindCalls {out : Reply (Option Frame)} (guarded : m.isGuarded = true)
    (ran : Ran (unwindCalls p (fun f => .ok f.intercepts) m.outer) m out m') :
    ∃ gone f rest, m.Unwound gone m' ∧ (∀ x ∈ gone, x.intercepts = false) ∧ out = .ok (some f) ∧
      m'.call.blocks = f :: rest ∧ f.intercepts = true := by
  have passes (x : StackLayer) :
      StackLayer.passes (fun f => .ok f.intercepts) x = !x.intercepts := by
    cases x with
    | block f =>
      unfold StackLayer.passes StackLayer.intercepts
      dsimp only
      cases f.intercepts <;> rfl
    | call c => rfl
  obtain ⟨unwound, out, bottom⟩ := unwound_unwindCalls ran rfl
  have deaf : ∀ x ∈ m.layers.dropLast.takeWhile (StackLayer.passes fun f => .ok f.intercepts),
      x.intercepts = false := by
    intro x mem
    have passed := mem_takeWhile_imp mem
    rw [passes] at passed
    simpa using passed
  have split := unwound.layers
  cases top : m'.call.blocks with
  | nil =>
    -- all was left, although some guard listens
    have last : m'.layers = [.call { m'.call with blocks := [] }] := by
      rw [layers_alone (bottom top), Call.layers, top]
      rfl
    have none : ∀ f ∈ m.frames, f.intercepts = false := by
      intro f mem
      rw [mem_frames_iff_layers, split, last] at mem
      rcases mem_append.mp mem with gone | call
      · exact deaf _ gone
      · cases mem_singleton.mp call
    have empty : m.frames.filter (·.intercepts) = [] := filter_eq_nil_iff.mpr fun f mem => by
      simp [none f mem]
    simp [Machine.isGuarded, Machine.guardDepth, empty] at guarded
  | cons f rest =>
    refine ⟨_, f, rest, unwound, deaf, ?_, rfl, ?_⟩
    · rw [out, top]
      rfl
    · rw [layers_block top] at split
      have stops := congrArg List.dropLast split
      rw [dropLast_append_cons, dropLast_cons_of_ne_nil layers_ne_nil] at stops
      have listens := stops_of_takeWhile stops
      rw [passes] at listens
      simpa [StackLayer.intercepts] using listens

theorem unheard_of_unguarded (none : m.isGuarded = false) :
    ∀ x ∈ m.layers, x.intercepts = false := by
  have empty : m.frames.filter (·.intercepts) = [] := by
    simpa [Machine.isGuarded, Machine.guardDepth] using none
  intro x mem
  cases x with
  | block f =>
    simpa [StackLayer.intercepts] using filter_eq_nil_iff.mp empty f (mem_frames_iff_layers.mpr mem)
  | call c => rfl

theorem last?_of_guard (opens : OpensGuard p f.place) [p.Faithful] :
    ∃ last, f.last? p = some last ∧ lastOf p f.place = .ok last ∧ last < p.commands.length := by
  obtain ⟨name, catchAt, finallyAt, last, block⟩ := opens
  exact ⟨last, by rw [Frame.last?, block], by rw [lastOf, block], (block.ended p.found).bound⟩

theorem Offered.log (offered : Offered p cause source m r m') {logs : Array Log} :
    Offered p cause source m r { m' with logs := logs } := by
  cases offered with
  | caught passes top guard owed judged _ => exact .caught passes top guard owed judged logs
  | held passes top guard declines owed _ => exact .held passes top guard declines owed logs
  | lost passes bottom empty => exact .lost ⟨passes.toDrops.log logs, passes.vars⟩ bottom empty
  | raised passes top owed raises => exact .raised passes top owed raises

theorem ran_route_parts [p.Faithful] (grounded : m.Grounded p)
    (ran : Ran (route p failure) m r m') :
    (∃ logs, r = .ok false ∧ m' = { m with logs := logs } ∧
      ((failure.locate m.here).isFatal = true ∨
        (failure.locate m.here).isFatal = false ∧ ∀ x ∈ m.layers, x.intercepts = false)) ∨
    (failure.locate m.here).isFatal = false ∧ ∃ gone m₀ f g rest, m.Unwound gone m₀ ∧
      (∀ x ∈ gone, x.intercepts = false) ∧ m₀.Top f rest ∧ f.body = .guard g ∧
      g.phase.isSome = true ∧
      ((g.phase ≠ some .trying ∧ f.finally? p = none ∧
        ∃ last logs, f.last? p = some last ∧ r = .ok true ∧ m' = { m₀ with
          call := { m₀.call with blocks :=
            { f with
              body := .guard (g.holding (.failure (failure.locate m.here) (m.here.getD (-1)))) } ::
            rest }
          branch := some last
          logs := logs }) ∨
      (g.phase = some .trying ∨ (f.finally? p).isSome = true) ∧
        ∃ m₁ logs, Ran (offerCalls p (failure.locate m.here) (m.here.getD (-1)) m₀.outer) m₀ r m₁ ∧
        m' = { m₁ with logs := logs }) := by
  have ran := ran_get_bind ran
  dsimp only at ran
  split at ran
  · rename_i fatal
    obtain ⟨rfl, rfl⟩ := Prod.mk.inj ran
    exact .inl ⟨_, rfl, rfl, .inl fatal⟩
  rename_i mild
  have mild : (failure.locate m.here).isFatal = false := by simpa using mild
  split at ran
  · rename_i unguarded
    obtain ⟨rfl, rfl⟩ := ran_pure ran
    exact .inl ⟨_, rfl, rfl, .inr ⟨mild, unheard_of_unguarded (by simpa using unguarded)⟩⟩
  rename_i guarded
  have guarded : m.isGuarded = true := by simpa using guarded
  rcases ran_bind ran with ⟨e, _, failed⟩ | ⟨out, m₀, left, ran⟩
  · obtain ⟨_, _, _, _, _, wrong, _⟩ := ran_unwindCalls guarded failed
    cases wrong
  obtain ⟨gone, f, rest, unwound, deaf, same, top, intercepts⟩ := ran_unwindCalls guarded left
  cases same
  obtain ⟨g, guard, listens⟩ := intercepts_iff.mp intercepts
  have opens := (forall_frames.mp (unwound.grounded grounded)).1 f (top ▸ mem_cons_self)
  have ran := ran_log_bind ran
  generalize m₀.logs.push _ = logs at ran
  rw [isSpent_eq opens guard] at ran
  refine .inr ⟨mild, ?_⟩
  cases spent : decide (g.phase ≠ some .trying) && !(f.finally? p).isSome with
  | true =>
    obtain ⟨late, paid⟩ := Bool.and_eq_true_iff.mp spent
    obtain ⟨last, ends, lastOf_eq, bound⟩ := last?_of_guard (opens (by simp [Frame.guard?, guard]))
    rw [spent] at ran
    have ran := ran_log_bind (show Ran (giveUp p _ _ f) _ r m' from ran)
    rw [lastOf_eq] at ran
    have ran : Ran (do changeGuard _; branchTo p (last : Int); return true : Action Bool)
        { m₀ with logs := _ } r m' := ran
    obtain ⟨rfl, rfl⟩ := ran_toSegment ran top guard bound
    exact ⟨gone, m₀, f, g, rest, unwound, deaf, top, guard, listens,
      .inl ⟨by simpa using late, by simpa using paid, last, _, ends, rfl, rfl⟩⟩
  | false =>
    rw [spent] at ran
    have ran := ran_get_bind (show Ran (offerAll p _ _) _ r m' from ran)
    have live : g.phase = some .trying ∨ (f.finally? p).isSome = true := by
      by_contra neither
      simp_all
    refine ⟨gone, _, f, g, rest, unwound.log logs, deaf, top, guard, listens, .inr ⟨live, ?_⟩⟩
    rcases ran_bind ran with ⟨e, rfl, failed⟩ | ⟨took, m₁, asked, ran⟩
    · exact ⟨m', _, failed, rfl⟩
    · cases took with
      | true =>
        obtain ⟨rfl, rfl⟩ := ran_pure ran
        exact ⟨m', _, asked, rfl⟩
      | false =>
        obtain ⟨rfl, rfl⟩ := Prod.mk.inj ran
        exact ⟨m₁, _, asked, rfl⟩

theorem ran_route_layers [p.Faithful] (grounded : m.Grounded p)
    (ran : Ran (route p failure) m r m') :
    Routes p (failure.locate m.here) (m.here.getD (-1)) m r m' := by
  rcases ran_route_parts grounded ran with ⟨logs, rfl, rfl, fatal | ⟨_, unheard⟩⟩ |
    ⟨mild, gone, m₀, f, g, rest, unwound, deaf, top, guard, listens, which⟩
  · exact .refused (.inl fatal) logs
  · exact .refused (.inr unheard) logs
  · rcases which with ⟨late, paid, last, logs, ends, rfl, rfl⟩ | ⟨live, m₁, logs, asked, rfl⟩
    · exact .spent mild unwound deaf top guard listens late paid ends logs
    · have offered := (ran_offerCalls asked rfl (unwound.grounded grounded)).1
      exact .offered mild unwound deaf top guard listens live offered.log

end Offers

end Runbook
