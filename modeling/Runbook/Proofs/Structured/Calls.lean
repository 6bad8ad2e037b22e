import Mathlib.Data.List.Induction
import Runbook.Proofs.Structured.Rounds

namespace Runbook

open List

namespace Record

variable {α : Type} {name : String} {r : Record α} {entries : List (String × α)}

theorem has_set (r : Record α) (key name : String) (x : α) :
    (r.set key x).has name = (r.has name || decide (key = name)) := by
  unfold has
  rw [get?_set]
  split
  · rename_i same
    simp [same]
  · rename_i other
    simp [other]

theorem set_set (r : Record α) (key : String) (x y : α) :
    (r.set key x).set key y = r.set key y := by
  induction r with
  | nil => simp [set]
  | cons entry rest ih =>
    simp only [set]
    split
    · rename_i same
      simp [set, same]
    · rename_i other
      simp [set, other, ih]

theorem set_comm {key : String} (r : Record α) (x y : α) (other : key ≠ name)
    (known : r.has name = true) : (r.set key x).set name y = (r.set name y).set key x := by
  induction r with
  | nil => cases known
  | cons entry rest ih =>
    obtain ⟨first, old⟩ := entry
    by_cases one : first = key
    · subst one
      simp [set, other]
    · by_cases two : first = name
      · subst two
        simp [set, one]
      · have kept : Record.has rest name = true := by simpa [has, get?, two] using known
        simp [set, one, two, ih kept]

theorem has_override (entries : List (String × α)) (known : r.has name = true) :
    (r.override entries).has name = true := by
  induction entries generalizing r with
  | nil => exact known
  | cons entry rest ih => exact ih (by rw [has_set, known]; rfl)

theorem has_override_of_mem {entry : String × α} (mem : entry ∈ entries) :
    (r.override entries).has entry.1 = true := by
  induction entries generalizing r with
  | nil => cases mem
  | cons first rest ih =>
    rcases mem_cons.mp mem with rfl | mem
    · exact has_override rest (by rw [has_set]; simp)
    · exact ih mem

theorem override_set (key : String) (x y : α) (known : ∀ entry ∈ entries, r.has entry.1 = true) :
    ((r.set key x).override entries).set key y = (r.override entries).set key y := by
  induction entries generalizing r x with
  | nil => exact set_set r key x y
  | cons entry rest ih =>
    have later (s : Record α) (kept : ∀ name, r.has name = true → s.has name = true) :
        ∀ entry ∈ rest, s.has entry.1 = true :=
      fun entry mem => kept _ (known entry (mem_cons_of_mem _ mem))
    by_cases same : key = entry.1
    · show (((r.set key x).set entry.1 entry.2).override rest).set key y =
        ((r.set entry.1 entry.2).override rest).set key y
      rw [← same, set_set]
    · show (((r.set key x).set entry.1 entry.2).override rest).set key y =
        ((r.set entry.1 entry.2).override rest).set key y
      rw [set_comm r x entry.2 same (known entry (mem_cons_self ..))]
      exact ih x (later _ fun name old => by rw [has_set, old]; rfl)

theorem override_override : (r.override entries).override entries = r.override entries := by
  induction entries using List.reverseRecOn generalizing r with
  | nil => rfl
  | append_singleton earlier entry ih =>
    have known : ∀ e ∈ earlier, (r.override earlier).has e.1 = true :=
      fun e mem => has_override_of_mem mem
    calc (r.override (earlier ++ [entry])).override (earlier ++ [entry])
        = (((r.override earlier).set entry.1 entry.2).override earlier).set entry.1 entry.2 := by
          rw [override_append, override_append]; rfl
      _ = ((r.override earlier).override earlier).set entry.1 entry.2 := override_set _ _ _ known
      _ = (r.override earlier).set entry.1 entry.2 := by rw [ih]
      _ = r.override (earlier ++ [entry]) := by rw [override_append]; rfl

end Record

open Runbook.Action

namespace Point

variable {p : Program} {x : Scope} {tight : Bool} {fuel : Nat} {call left next : Call}
  {outer : List Call} {i q last : Nat} {u : Point} {w : World} {c : Command} {word : FunctionWord}
  {name : String}

theorem Stands.lap_open [p.Fresh] (opens : p.Does q (.openFunction word))
    (stands : Stands p u q call outer w) :
    Doing p (tick p u) q (openFunction p) (still w.vars call outer q) w.lines := by
  obtain ⟨c, has, verb⟩ := Option.bind_eq_some_iff.mp opens
  have lap := stands.lap has verb
  cases word with
  | function => exact lap
  | script => exact lap.step yields_log

theorem Stands.lap_end [p.Fresh] (closes : p.Does last (.endFunction word))
    (stands : Stands p u last call outer w) :
    Doing p (tick p u) last (giveBack p "" false) (still w.vars call outer last) w.lines := by
  obtain ⟨c, has, verb⟩ := Option.bind_eq_some_iff.mp closes
  have lap := stands.lap has verb
  cases word with
  | function => exact lap
  | script => exact lap.step yields_log

section

variable [p.Fresh] (opens : p.Does q (.openFunction word))
  (block : p.Spans q (.function word name) last)

include opens block

theorem Stands.pass_function (closes : p.Does last (.endFunction word)) (linked : p.Links last q)
    (other : call.function ≠ some q) (stands : Stands p u q call outer w) :
    Stands p (tick p (tick p u)) (last + 1) call outer w := by
  have opened : Yields (openFunction p) (still w.vars call outer q) (.ok ())
      { still w.vars call outer q with branch := some last } := by
    refine (yields_openerHere rfl block).bind (.get fun logs => ?_)
    dsimp only
    rw [if_neg (show ¬ (still w.vars call outer q).call.function = some q from other)]
    exact (yields_orFault name _).bind (.after_log (yields_branchTo (lt_length_of_verbAt closes)))
  have ended : Yields (giveBack p "" false) (still w.vars call outer last) (.ok ())
      (still w.vars call outer last) := by
    refine (yields_ownerHere rfl linked).bind (.get fun logs => ?_)
    dsimp only
    rw [if_pos (show (still w.vars call outer last).call.function ≠ some q from other)]
    exact yields_pure
  have passed : Stands p (tick p u) last call outer w :=
    ((stands.lap_open opens).done _ opened).stands_branch
  exact ((passed.lap_end closes).done _ ended).stands_next

theorem Stands.open_function (own : call.function = some q) (stands : Stands p u q call outer w) :
    Stands p (tick p u) (q + 1) call outer { w with vars := w.vars.assign call.args } := by
  have opened : Yields (openFunction p) (still w.vars call outer q) (.ok ())
      (still (w.vars.assign call.args) call outer q) := by
    refine (yields_openerHere rfl block).bind (.get fun logs => ?_)
    dsimp only
    rw [if_pos (show (still w.vars call outer q).call.function = some q from own)]
    exact fun logs => ⟨logs, rfl⟩
  exact ((stands.lap_open opens).done _ opened).stands_next

end

theorem Stands.end_function [p.Fresh] (closes : p.Does last (.endFunction word))
    (linked : p.Links last q) (own : call.function = some q) (bare : call.blocks = [])
    (back : call.back = some (i : Int)) (bound : i < p.commands.length)
    (stands : Stands p u last call outer w) :
    Stands p (tick p u) i { call with returning := true } outer w := by
  have unstopped : findStop p false 0 [call.blocks] = .ok none := by
    rw [bare]
    rfl
  have free : Yields (transfer p false false) (still w.vars call outer last) (.ok false)
      (still w.vars call outer last) :=
    .get fun _ => yields_free (k := .back) unstopped
  have marked : Yields (modify fun m => { m with call := { m.call with returning := true } })
    (still w.vars call outer last) (.ok ())
    (still w.vars { call with returning := true } outer last) := yields_modify fun _ => rfl
  have went : Yields (goBack p) (still w.vars call outer last) (.ok ())
      { still w.vars { call with returning := true } outer last with branch := some i } := by
    refine marked.bind (.get fun logs => ?_)
    have back : ({ still w.vars { call with returning := true } outer last with logs := logs } :
      Machine).call.back = some (i : Int) := back
    rw [back]
    exact yields_branchTo bound
  have lap := (stands.lap_end closes).congr fun logs => ⟨logs, run_giveBack rfl linked own⟩
  exact (lap.done _ (free.bind went)).stands_branch

theorem Stands.leave_call [p.Fresh] (has : p.Has i c) (verb : c.verb? = some .call)
    (known : function? p c.target = some q) (returning : left.returning = true)
    (back : left.back = some (i : Int)) (stands : Stands p u i left (next :: outer) w) :
    Stands p (tick p u) (i + 1) next outer { w with vars := left.release w.vars } := by
  have leaves : Yields (Action.call p c) (still w.vars left (next :: outer) i) (.ok ())
      (still (left.release w.vars) next outer i) := by
    unfold Action.call
    rw [known]
    refine .get fun logs => ?_
    dsimp only
    rw [if_pos (show (still w.vars left (next :: outer) i).call.returning = true ∧
      (still w.vars left (next :: outer) i).call.back =
      (still w.vars left (next :: outer) i).here from ⟨returning, back⟩)]
    exact (yields_popCall rfl).bind yields_log
  exact ((stands.lap has verb).done _ leaves).stands_next

def invoked (vars : Env) (i q : Nat) (name : String) (args : Record Value) : Call where
  function := some q
  name := name
  args := args
  back := some (i : Int)
  saved := vars.capture args.names

theorem Stands.enter_call {rest : Record Value → World → Result} [p.Fresh]
    (fresh : call.returning = false) (has : p.Has i c) (verb : c.verb? = some .call)
    (known : function? p c.target = some q) (bound : q < p.commands.length)
    (stands : Stands p u i call outer w)
    (further : ∀ args vars, Stands p (tick p u) q (invoked vars i q c.target args) (call :: outer)
      ⟨vars.assign args, w.lines⟩ → Follows p x tight fuel call outer (i + 1) (tick p u)
      (rest args { w with vars := vars })) :
    Follows p x tight fuel call outer (i + 1) (tick p u) (w.act i (arguments p c.value) rest) := by
  have lap : Doing p (tick p u) i (Action.call p c) (still w.vars call outer i) w.lines :=
    stands.lap has verb
  unfold Action.call at lap
  rw [known] at lap
  have idle : ¬ ((still w.vars call outer i).call.returning = true ∧
      (still w.vars call outer i).call.back = (still w.vars call outer i).here) := by
    intro both
    cases fresh.symm.trans both.1
  have lap := lap.get (b := do
    let args ← arguments p c.value
    let vars := (← MonadState.get).vars
    assign args
    pushCall (invoked vars i q c.target args)
    logEvent .info .call ("calling function '" ++ c.target ++ "'") none
      (some (← MonadState.get).outer.length)
    branchTo p (q : Nat)) fun logs => if_neg idle
  refine lap.act (varsOnly_arguments p c.value) fun args vars doing => further args vars ?_
  refine (doing.done { still (vars.assign args) (invoked vars i q c.target args)
    (call :: outer) i with branch := some q } (.get fun logs => ?_)).stands_branch
  have assigned : Yields (assign args) (still vars call outer i) (.ok ())
      (still (vars.assign args) call outer i) :=
    yields_modify fun _ => rfl
  have entered : Yields (pushCall (invoked vars i q c.target args))
      (still (vars.assign args) call outer i) (.ok ())
      (still (vars.assign args) (invoked vars i q c.target args) (call :: outer) i) :=
    yields_modify fun _ => rfl
  exact assigned.bind (entered.bind (.get fun logs => .after_log (yields_branchTo bound)))

theorem Follows.leave_call {r : Result} [p.Fresh] (has : p.Has i c) (verb : c.verb? = some .call)
    (known : function? p c.target = some q) (closes : p.Does last (.endFunction word))
    (linked : p.Links last q) (own : call.function = some q) (bare : call.blocks = [])
    (back : call.back = some (i : Int))
    (body : Follows p { loop := false, function := some q } tight fuel call
      (next :: outer) last u r) :
    Follows p x tight fuel next outer (i + 1) u
      (Result.releasing call.saved (r.map fun (c, w) => (c.called, w))) := by
  have bound := has.lt
  -- Whichever way the text was left, the call that is met again stands for the one that was made.
  have leaves {v : Point} {left : Call} {vars : Env} {w : World}
      (stands : Stands p v i left (next :: outer) ⟨vars, w.lines⟩)
      (returning : left.returning = true) (back : left.back = some (i : Int))
      (same : left.release vars = call.release w.vars) :
      Stands p (tick p v) (i + 1) next outer { w with vars := w.vars.restore call.saved } := by
    have outside := stands.leave_call has verb known returning back
    rw [same, Call.release, bare] at outside
    exact outside
  rcases r with _ | ⟨completion, w⟩
  · exact body
  cases completion with
  | normal =>
    obtain ⟨v, leads, stands⟩ := body
    have returned := stands.end_function closes linked own bare back bound
    refine .of_leads leads (.of_tick (.of_tick ?_))
    exact (leaves returned rfl back rfl).follows
  | jump j =>
    cases j with
    | back =>
      obtain ⟨_, v, n, cmd, leads, leaving⟩ := body
      have unstopped : findStop p false 0 [call.blocks] = .ok none := by
        rw [bare]
        rfl
      obtain ⟨v', more, vars, left, same, returning, origin, shown⟩ := leaving.free unstopped
      have returned : Stands p v' i left (next :: outer) ⟨vars, w.lines⟩ :=
        (shown i back bound).stands_branch
      refine .of_leads (leads.trans more) (.of_tick ?_)
      exact (leaves returned returning (origin.trans back) same).follows
    | exit =>
      obtain ⟨_, v, n, cmd, leads, leaving⟩ := body
      exact ⟨rfl, v, n, cmd, leads, leaving.shed_call bare⟩
    | again | leave => cases body.1
  | failed e =>
    obtain ⟨v, leads, raising⟩ := body
    exact ⟨v, leads, raising.shed_call bare⟩
  | aborted _ => exact body

theorem follows_call {body : World → Result} {t : Tree} {less : Nat} [p.Fresh]
    (fresh : call.returning = false) (has : p.Has i c) (verb : c.verb? = some .call)
    (known : function? p c.target = some q) (text : FunctionAt p q last word t)
    (inner : ∀ call outer v w, Context { loop := false, function := some q } (q + 1) call →
      Stands p v (q + 1) call outer w →
      Follows p { loop := false, function := some q } tight less call outer last v (body w))
    (enough : fuel ≤ less + 1) (stands : Stands p u i call outer w) :
    Follows p x tight fuel call outer (i + 1) u (Tree.call p i c (some body) w) := by
  obtain ⟨name, block⟩ := text.block
  unfold Tree.call
  refine .later stands.going enough
    (stands.enter_call fresh has verb known (lt_length_of_verbAt text.opens) ?_)
  intro args vars entered
  -- The function assigns its arguments once more.
  have twice : (vars.assign args).assign args = vars.assign args := Record.override_override
  have opened : Stands p (tick p (tick p u)) (q + 1) (invoked vars i q c.target args)
      (call :: outer) ⟨(vars.assign args).assign args, w.lines⟩ :=
    entered.open_function text.opens block rfl
  rw [twice] at opened
  have context :
      Context { loop := false, function := some q } (q + 1) (invoked vars i q c.target args) :=
    ⟨rfl, rfl, fun _ mem => absurd mem not_mem_nil, fun _ same => by
      cases same; exact Nat.lt_succ_self q⟩
  have called := (inner _ _ _ _ context opened).of_tick
  rw [← releasing_capture]
  exact called.leave_call has verb known text.closes text.linked rfl rfl rfl

theorem follows_undefined [p.Fresh] (has : p.Has i c) (verb : c.verb? = some .call)
    (unknown : function? p c.target = none) (stands : Stands p u i call outer w) :
    Follows p x tight fuel call outer (i + 1) u (Tree.call p i c none w) := by
  have lap : Doing p (tick p u) i (Action.call p c) (still w.vars call outer i) w.lines :=
    stands.lap has verb
  unfold Action.call at lap
  rw [unknown] at lap
  dsimp only at lap
  rw [← bind_pure (complain p .undefined (" Function does not exist: " ++ c.target ++ "."))] at lap
  unfold Tree.call
  exact .of_tick (lap.act varsOnly_complain fun _ vars doing => doing.stands.follows)

end Point

end Runbook
