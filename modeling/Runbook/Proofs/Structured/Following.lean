import Runbook.Proofs.Structured.Layout
import Runbook.Proofs.Structured.Leaving

/-!
Runs that follow the tree. What a part of a tree results in tells what a run comes to that stands
before the part: behind it, with an error or a command on its way out, or at its end.
-/

namespace Runbook

open Runbook.Action Point

namespace Env

variable {before env : Env} {name : String}

theorem get?_reset (before env : Env) (name key : String) :
    (before.reset env name).get? key = if name = key then before.get? key else env.get? key := by
  unfold reset
  cases old : before.get? name with
  | some v => rw [Record.get?_set]; split <;> simp_all
  | none => rw [Record.get?_erase]; split <;> simp_all

theorem get?_putBack (env before : Env) (names : List String) (key : String) :
    (env.putBack names before).get? key =
      if key ∈ names then before.get? key else env.get? key := by
  unfold putBack
  induction names generalizing env with
  | nil => rfl
  | cons name rest ih =>
    rw [List.foldl_cons, ih, get?_reset]
    by_cases same : name = key
    · simp [same]
    · simp [same, Ne.symm same]

theorem reset_of_eq (same : env.get? name = before.get? name) : before.reset env name = env := by
  unfold reset
  rw [← same]
  cases value : env.get? name with
  | some v => exact Record.set_of_get? value
  | none => exact Record.erase_of_get? value

theorem restore_capture (env before : Env) (names : List String) :
    env.restore (before.capture names) = env.putBack names before := by
  -- what is captured so far agrees with the variables before, so that a name met again changes
  -- nothing
  have all (saved : Snapshot)
      (agrees : ∀ name, saved.has name = true → (env.restore saved).get? name = before.get? name) :
      env.restore (names.foldl (fun saved name =>
        if saved.has name then saved else saved ++ [(name, before.get? name)]) saved) =
        (env.restore saved).putBack names before := by
    induction names generalizing saved with
    | nil => rfl
    | cons name rest ih =>
      have step : before.reset (env.restore saved) name =
          env.restore (if saved.has name then saved else saved ++ [(name, before.get? name)]) := by
        split
        · rename_i known
          exact reset_of_eq (agrees name known)
        · rw [restore, restore, List.foldl_append]
          unfold reset
          cases before.get? name <;> rfl
      rw [List.foldl_cons, ih, putBack, putBack, List.foldl_cons, step]
      rw [← step]
      intro key known
      rw [get?_reset]
      split
      · rfl
      · rename_i other
        refine agrees key ?_
        split at known
        · exact known
        · rw [Record.has_iff] at known ⊢
          simpa [Record.names, Ne.symm other] using known
  exact all [] fun _ known => absurd known Bool.false_ne_true

end Env

/-- What a part results in once its frame or its call is left, which put the variables back. -/
def Result.releasing (saved : Snapshot) (r : Result) : Result :=
  r.map fun (c, w) => (c, { w with vars := w.vars.restore saved })

def Scope.allows (x : Scope) : Jump → Bool
  | .again | .leave => x.loop
  | .back => x.function.isSome
  | .exit => true

namespace Point

/-- A run from a point comes to what a part of the script results in, where the part ends at the
place `j`. If the part takes more than its fuel, the run lasts at least as long. -/
def Follows (p : Program) (x : Scope) (tight : Bool) (fuel : Nat) (call : Call) (outer : List Call)
    (j : Nat) (u : Point) : Result → Prop
  | none => Lasts p fuel u
  | some (.normal, w) => ∃ v, Leads p u v ∧ Stands p v j call outer w
  | some (.jump k, w) =>
    x.allows k = true ∧ ∃ v n cmd, Leads p u v ∧ Leaving p v k n cmd call outer w
  | some (.failed e, w) => ∃ v, Leads p u v ∧ Raising p tight v e call outer w
  | some (.aborted ending, w) =>
    ending ≠ .outcome .completed ∧ ∃ v, Leads p u v ∧ v.Over ending w.lines

variable {p : Program} {x y : Scope} {tight : Bool} {fuel : Nat} {call : Call} {outer : List Call}
  {i j k : Nat} {u v : Point} {r : Result} {w : World} {f : Frame} {α : Type} {place : Nat}
  {e : Error} {vars : Env} {lines : Array String} {a : Action α} {next : α → Action Unit}
  {rest : α → World → Result}

theorem Follows.of_leads (leads : Leads p u v) (follows : Follows p x tight fuel call outer j v r) :
    Follows p x tight fuel call outer j u r := by
  match r with
  | none => exact Lasts.of_leads leads follows
  | some (.normal, _) =>
    obtain ⟨v', more, rest⟩ := follows
    exact ⟨v', leads.trans more, rest⟩
  | some (.jump _, _) =>
    obtain ⟨allowed, v', n, cmd, more, rest⟩ := follows
    exact ⟨allowed, v', n, cmd, leads.trans more, rest⟩
  | some (.failed _, _) =>
    obtain ⟨v', more, rest⟩ := follows
    exact ⟨v', leads.trans more, rest⟩
  | some (.aborted _, _) =>
    obtain ⟨other, v', more, rest⟩ := follows
    exact ⟨other, v', leads.trans more, rest⟩

theorem Follows.of_tick (follows : Follows p x tight fuel call outer j (tick p u) r) :
    Follows p x tight fuel call outer j u r := follows.of_leads leads_tick

theorem Stands.follows (stands : Stands p u j call outer w) :
    Follows p x tight fuel call outer j u (some (.normal, w)) :=
  ⟨u, .refl, stands⟩

theorem Follows.andThen {rest : World → Result} (first : Follows p x tight fuel call outer j u r)
    (further : ∀ v w, Stands p v j call outer w → Follows p x tight fuel call outer k v (rest w)) :
    Follows p x tight fuel call outer k u (r.andThen rest) := by
  match r with
  | none => exact first
  | some (.normal, w) =>
    obtain ⟨v, leads, stands⟩ := first
    exact (further v w stands).of_leads leads
  | some (.jump _, _) => exact first
  | some (.failed _, _) => exact first
  | some (.aborted _, _) => exact first

structure Bland (p : Program) (f : Frame) : Prop where
  quiet : f.intercepts = false
  refuses : ∀ e, Refuses p e f
  paid : owesFinally p f = .ok false

theorem bland_of_body (other : ∀ g, f.body ≠ .guard g) : Bland p f := by
  obtain ⟨place, saved, body⟩ := f
  cases body with
  | cond c | loop l => exact ⟨rfl, fun e => refuses_of_owesCatch rfl, rfl⟩
  | guard g => exact absurd rfl (other g)

theorem Follows.close (body : Follows p y tight fuel (call.push f) outer k u r) (bland : Bland p f)
    (jumps : ∀ j w, r = some (.jump j, w) → y.allows j = true → x.allows j = true ∧ Passes p j f)
    (ends : ∀ v w, Stands p v k (call.push f) outer w → ∃ v', Leads p v v' ∧
      Stands p v' j call outer { w with vars := w.vars.restore f.saved }) :
    Follows p x tight fuel call outer j u (r.releasing f.saved) := by
  match r with
  | none => exact body
  | some (.normal, w) =>
    obtain ⟨v, leads, stands⟩ := body
    obtain ⟨v', more, stands⟩ := ends v w stands
    exact ⟨v', leads.trans more, stands⟩
  | some (.jump j, w) =>
    obtain ⟨allowed, v, n, cmd, leads, leaving⟩ := body
    obtain ⟨allowed, passes⟩ := jumps j w rfl allowed
    exact ⟨allowed, v, n, cmd, leads, leaving.shed passes⟩
  | some (.failed e, w) =>
    obtain ⟨v, leads, raising⟩ := body
    exact ⟨v, leads, raising.shed bland.quiet (bland.refuses e) bland.paid⟩
  | some (.aborted _, _) => exact body

theorem Thrown.follows
    (thrown : Thrown p u (e.locate (some place)) (still vars call outer place) lines) :
    Follows p x tight fuel call outer j u (some (.raise place (.error e), ⟨vars, lines⟩)) := by
  unfold Completion.raise
  dsimp only
  split
  · rename_i fatal
    exact ⟨by simp, u, .refl, thrown.refused _ (yields_route_fatal fatal)⟩
  · rename_i common
    exact ⟨u, .refl, by simpa using common, isSome_locate, place, .inl thrown⟩

theorem Thrown.follows_inside (bland : Bland p f)
    (thrown : Thrown p u (e.locate (some place)) (still vars (call.push f) outer place) lines) :
    Follows p x tight fuel call outer j u
      (Result.releasing f.saved (some (.raise place (.error e), ⟨vars, lines⟩))) := by
  have inside : Follows p x tight fuel (call.push f) outer j u
      (some (.raise place (.error e), ⟨vars, lines⟩)) := thrown.follows
  unfold Completion.raise at inside ⊢
  dsimp only at inside ⊢
  split at inside
  · rename_i fatal
    rw [if_pos fatal]
    exact inside
  · rename_i common
    rw [if_neg common]
    obtain ⟨v, leads, raising⟩ := inside
    exact ⟨v, leads, raising.shed bland.quiet (bland.refuses _) bland.paid⟩

theorem Doing.act (doing : Doing p u place (a >>= next) (still w.vars call outer place) w.lines)
    (only : VarsOnly a)
    (further : ∀ y vars, Doing p u place (next y) (still vars call outer place) w.lines →
      Follows p x tight fuel call outer j u (rest y { w with vars := vars })) :
    Follows p x tight fuel call outer j u (w.act place a rest) := by
  have yields : Yields a (still w.vars call outer place) (effect a place w.vars).1
      (still (effect a place w.vars).2 call outer place) := only.yields rfl
  unfold World.act
  rcases out : effect a place w.vars with ⟨(e | fault) | y, vars⟩
  all_goals rw [out] at yields
  · exact (doing.failed e _ rfl yields.fail).follows
  · exact ⟨by simp, u, .refl, doing.broken fault _ yields.fail⟩
  · exact further y vars (doing.step yields)

theorem Doing.act_inside
    (doing : Doing p u place (a >>= next) (still w.vars (call.push f) outer place) w.lines)
    (only : VarsOnly a) (bland : Bland p f)
    (further : ∀ y vars, Doing p u place (next y) (still vars (call.push f) outer place) w.lines →
      Follows p x tight fuel call outer j u ((rest y { w with vars := vars }).releasing f.saved)) :
    Follows p x tight fuel call outer j u ((w.act place a rest).releasing f.saved) := by
  have yields : Yields a (still w.vars (call.push f) outer place) (effect a place w.vars).1
      (still (effect a place w.vars).2 (call.push f) outer place) := only.yields rfl
  unfold World.act
  rcases out : effect a place w.vars with ⟨(e | fault) | y, vars⟩
  all_goals rw [out] at yields
  · exact (doing.failed e _ rfl yields.fail).follows_inside bland
  · exact ⟨by simp, u, .refl, doing.broken fault _ yields.fail⟩
  · exact further y vars (doing.step yields)

theorem releasing_nil (r : Result) : r.releasing [] = r := by
  rcases r with _ | ⟨c, w⟩ <;> rfl

theorem releasing_capture (r : Result) (names : List String) (before : Env) :
    r.releasing (before.capture names) = r.restoring names before := by
  simp only [Result.releasing, Result.restoring, Env.restore_capture]

theorem Doing.stands (doing : Doing p u place (pure ()) (still vars call outer place) lines) :
    Stands p u (place + 1) call outer ⟨vars, lines⟩ := (doing.done _ yields_pure).stands_next

structure Context (x : Scope) (i : Nat) (call : Call) : Prop where
  fresh : call.returning = false
  function : call.function = x.function
  blocks : ∀ f ∈ call.blocks, f.place < i
  before : ∀ q, x.function = some q → q < i

theorem Context.later (context : Context x i call) (later : i ≤ j) : Context x j call :=
  ⟨context.fresh, context.function, fun f mem => Nat.lt_of_lt_of_le (context.blocks f mem) later,
    fun q same => Nat.lt_of_lt_of_le (context.before q same) later⟩

theorem Context.push (context : Context x i call) (own : f.place < j) (later : i ≤ j) :
    Context x j (call.push f) := by
  have later := context.later later
  refine ⟨later.fresh, later.function, fun g mem => ?_, later.before⟩
  rcases List.mem_cons.mp mem with rfl | mem
  · exact own
  · exact later.blocks g mem

section Commands

variable {c : Command} {callee : Option (World → Result)}

theorem follows_host [p.Fresh] (stands : Stands p u i call outer w) (has : p.Has i c)
    (verb : c.verb? = none) :
    Follows p x tight fuel call outer (i + 1) u (Tree.command p i c callee w) := by
  unfold Tree.command
  rw [verb]
  dsimp only
  split
  · rename_i executable
    have lap := stands.host has verb executable
    refine .of_tick ?_
    unfold World.act
    rcases out : effect (Host.perform p c) i w.vars with ⟨(e | fault) | shown, vars⟩
    all_goals rw [out] at lap
    · exact lap.follows
    · exact ⟨by simp, _, .refl, lap⟩
    · exact lap.stands_next.follows
  · rename_i idle
    exact (stands.skip has (by simpa using idle)).follows

theorem follows_load {format : Format}
    (lap : Doing p (tick p u) i (loadVars p format c) (still w.vars call outer i) w.lines) :
    Follows p x tight fuel call outer (i + 1) u
      (w.act i (loadVars p format c) fun _ w => some (.normal, w)) := by
  have lap :
      Doing p (tick p u) i (loadVars p format c >>= pure) (still w.vars call outer i) w.lines := by
    rw [bind_pure]
    exact lap
  exact .of_tick (lap.act (varsOnly_loadVars p c) fun _ vars doing => doing.stands.follows)

theorem follows_drop {k : Jump} (has : p.Has i c) (verb : c.verb? = some k.verb)
    (up : k = .again ∨ k = .leave) (allowed : x.loop = true)
    (lap : Doing p (tick p u) i (perform p c false k.verb) (still w.vars call outer i) w.lines) :
    Follows p x tight fuel call outer (i + 1) u (Tree.jump p i c k w) := by
  have whole : perform p c false k.verb = (do
      if ← Tree.applies p c then
        if ← transfer p k.ceiling k.crosses then return
        perform p c true k.verb) := by
    rcases up with rfl | rfl
    · exact dropToLoop_bind rfl
    · exact dropToLoop_bind rfl
  rw [whole] at lap
  refine .of_tick (lap.act (varsOnly_applies p c) fun does vars doing => ?_)
  cases does with
  | false => exact doing.stands.follows
  | true =>
    refine ⟨by rcases up with rfl | rfl <;> exact allowed, _, i, c, .refl, .of_transfer has verb ?_
      (.refl) doing⟩
    rintro rfl
    rcases up with up | up <;> cases up

theorem follows_back {q : Nat} (has : p.Has i c) (verb : c.verb? = some .giveBack)
    (function : call.function = some q) (allowed : x.function.isSome = true) (owned : p.Links i q)
    (lap : Doing p (tick p u) i (giveBack p c.target false) (still w.vars call outer i) w.lines) :
    Follows p x tight fuel call outer (i + 1) u (if c.target.isEmpty then some (.jump .back, w)
      else w.act i (eval p c.target) fun v w =>
        some (.jump .back, { w with vars := w.vars.assign [("_result", v)] })) := by
  have lap := lap.congr fun logs => ⟨logs, run_giveBack rfl owned function⟩
  have own : Jump.back = .back → ∃ q, p.Links i q ∧ call.function = some q :=
    fun _ => ⟨q, owned, function⟩
  have leaves {vars : Env} (doing : Doing p (tick p u) i (transfer p false false >>= fun waits =>
      if waits then pure () else goBack p) (still vars call outer i) w.lines) :
      Leaving p (tick p u) .back i c call outer ⟨vars, w.lines⟩ :=
    .of_transfer has verb own (fun logs => ⟨logs, (run_giveBack rfl owned function).symm⟩) doing
  refine .of_tick ?_
  split
  · rename_i empty
    rw [empty] at lap
    exact ⟨allowed, _, i, c, .refl, leaves lap⟩
  · rename_i filled
    rw [(by simpa using filled : c.target.isEmpty = false)] at lap
    refine lap.act varsOnly_eval fun v vars doing => ?_
    have assigned : Yields (assign [("_result", v)]) (still vars call outer i) (.ok ())
        (still (vars.assign [("_result", v)]) call outer i) := fun logs => ⟨logs, rfl⟩
    exact ⟨allowed, _, i, c, .refl, leaves (doing.step assigned)⟩

theorem follows_command [p.Fresh] (context : Context x i call) (stands : Stands p u i call outer w)
    (has : p.Has i c) (alone : ∀ v, c.verb? = some v → v.standsIn x.around = true)
    (owned : c.verb? = some .giveBack → ∃ f, x.function = some f ∧ p.Links i f)
    (other : c.verb? ≠ some .call) :
    Follows p x tight fuel call outer (i + 1) u (Tree.command p i c callee w) := by
  cases verb : c.verb? with
  | none => exact follows_host stands has verb
  | some v =>
    have lap := stands.lap has verb
    have standing := alone v verb
    unfold Tree.command
    rw [verb]
    cases v with
    | label => exact .of_tick (lap.stands.follows)
    | call => exact absurd verb other
    | load word =>
      cases word with
      | json | xml => exact follows_load lap
      | plain => exact follows_load (lap.step yields_log)
    | again => exact follows_drop has verb (.inl rfl) standing lap
    | leave => exact follows_drop has verb (.inr rfl) standing lap
    | giveBack =>
      obtain ⟨q, function, owned⟩ := owned verb
      exact follows_back has verb (context.function.trans function) standing owned lap
    | exitTest =>
      exact .of_tick ⟨rfl, _, i, c, .refl, .of_transfer has verb nofun (.refl) lap⟩
    | _ => cases standing

end Commands

end Point

end Runbook
