import Runbook.Proofs.Run.Confinement
import Runbook.Proofs.Run.Stir
import Runbook.Proofs.Run.Driven

namespace Runbook

open Runbook.Action List

def Command.tested (p : Program) (c : Command) (vars : Env) : Env :=
  match c.verb? with
  | some .gotoIf => (p.evaluator c.target vars).2
  | some .skipNext =>
    if (Text.strip c.target).isEmpty then vars else (p.evaluator (Text.strip c.target) vars).2
  | _ => vars

/-- The command at the place `i`, in no loop, function or segment of a guard, asks to skip more
commands than there are. -/
def Overshoots (p : Program) (c : Command) (m : Machine) (i : Nat) : Prop :=
  c.verb? = some .skipNext ∧
    (∃ n m', Ran (skipCount p c.target) m (.ok n) m' ∧ p.commands.length ≤ i + n + 1) ∧
    ∀ r, ¬ p.outline.Encloses r i

section Jumps

variable {p : Program} {m m' : Machine} {c : Command} {i dest : Nat} {e : Failure} {text : String}

theorem ran_complain {α : Type} {kind : Kind} {r : Reply α}
    (ran : Ran (complain p kind text) m r m') : m' = m := (ran_throw (ran_get_bind ran)).2

theorem region?_end [p.Faithful] (beyond : p.commands.length ≤ dest) :
    p.outline.region? dest = none := by
  refine (region?_eq_none_iff p.found).mpr fun r encloses => ?_
  obtain ⟨extent, confines, _⟩ := (encloses_iff p.found).mp encloses
  have opened := confines.2.1
  rw [opens_end p.found beyond] at opened
  cases opened

theorem Inside.conds {k : Control} [p.Faithful] (inside : Inside p k i)
    (free : ∀ r, ¬ p.outline.Encloses r i) :
    k.outer = [] ∧ ∀ s ∈ k.call.blocks, s.isCond = true := by
  have region : p.outline.region? i = p.outline.region? (p.commands.length : Nat) :=
    ((region?_eq_none_iff p.found).mpr free).trans (region?_end (Nat.le_refl _)).symm
  obtain ⟨source, target, base, split, split', conds, _⟩ := opens_jump region
  rw [opens_end p.found (Nat.le_refl _), eq_comm, append_eq_nil_iff] at split'
  rw [split'.2, append_nil] at split
  rw [← split] at conds
  have seated := inside.seated
  refine ⟨inside.chain.alone ?_, fun s mem => ?_⟩
  · cases own : k.call.function with
    | none => rfl
    | some f =>
      obtain ⟨mem, _, _, _, block⟩ := seated.function f own
      obtain ⟨_, _, _, cond⟩ := conds f mem
      cases block.symm.trans cond
  · exact (seated.covers.fits s mem).isCond (conds s.place (seated.mem_opens mem))

theorem ran_leaveConds_bare {frames : List Frame} {place : Int} {r : Reply Unit}
    (start : m.call.blocks = frames) (sturdy : ∀ f ∈ frames, f.Sturdy)
    (ran : Ran (leaveConds p place frames) m r m') :
    ∃ rest, m' = { m with call := { m.call with blocks := rest } } := by
  induction frames generalizing m with
  | nil =>
    obtain ⟨_, rfl⟩ := ran_pure ran
    exact ⟨m'.call.blocks, rfl⟩
  | cons f rest ih =>
    obtain ⟨bare, others⟩ := forall_mem_cons.mp sturdy
    unfold leaveConds at ran
    split at ran
    · rename_i cond body
      have saved : f.saved = [] := bare.bare (by rw [Frame.isLoop, body])
      rcases ran_bind ran with ⟨e, _, failed⟩ | ⟨holds, m₁, asked, further⟩
      · obtain ⟨rfl, _⟩ := ran_orFault failed
        exact ⟨m'.call.blocks, rfl⟩
      obtain ⟨rfl, _⟩ := ran_orFault asked
      split at further
      · obtain ⟨_, rfl⟩ := ran_pure further
        exact ⟨m'.call.blocks, rfl⟩
      · have further := ran_bind_ok further (run_pop_top start)
        rw [saved] at further
        obtain ⟨rest', rfl⟩ := ih rfl others further
        exact ⟨rest', rfl⟩
    · obtain ⟨_, rfl⟩ := ran_pure ran
      exact ⟨m'.call.blocks, rfl⟩

theorem ran_jump_error [p.Faithful] (inside : Inside p m.control i) (sturdy : m.Sturdy)
    (ran : Ran (jump p dest) m (.error e) m') :
    m' = m ∧ (p.commands.length ≤ dest → ∃ r, p.outline.Encloses r i) ∨
      m' = { m with call := { m.call with blocks := [] } } ∧ p.commands.length ≤ dest ∧
        ∀ r, ¬ p.outline.Encloses r i := by
  have fits : m.control.Fits p.outline := fits_of_chain inside.chain inside.seated.covers.fits
  have ran := ran_get_bind ran
  rw [show m.Here i from inside.here] at ran
  dsimp only at ran
  unfold checkJump at ran
  split at ran
  · rename_i region
    have ran : Ran (do
        leaveConds p dest (← blocks)
        branchTo p dest) m (.error e) m' := ran
    have ran := ran_blocks_bind ran
    rcases ran_bind ran with ⟨_, _, failed⟩ | ⟨_, m₁, left, further⟩
    · cases (ran_leaveConds (fits_of_blocks fits mem_cons_self) rfl failed).1
    obtain ⟨_, gone, rest, split, _, head, control⟩ :=
      ran_leaveConds (fits_of_blocks fits mem_cons_self) rfl left
    obtain ⟨blocks, rfl⟩ := ran_leaveConds_bare rfl (forall_frames.mp sturdy).1 left
    have beyond : p.commands.length ≤ dest := by
      by_contra bound
      cases (ran_done further (run_branchTo (by omega))).1
    have free := (region?_eq_none_iff p.found).mp (region.trans (region?_end beyond))
    have none : rest = [] := by
      cases rest with
      | nil => rfl
      | cons s rest =>
        have cond := (inside.conds free).2 s (by rw [control_blocks, split]; simp)
        have inner := head s rfl cond
        rw [opens_end p.found beyond] at inner
        cases inner
    have emptied : blocks = [] := by
      have same := congrArg (fun k : Control => k.call.blocks) control
      rw [none] at same
      exact map_eq_nil_iff.mp same
    unfold branchTo at further
    rw [if_neg (by omega)] at further
    obtain ⟨_, rfl⟩ := Prod.mk.inj further
    rw [emptied]
    exact .inr ⟨rfl, beyond, free⟩
  · rename_i region
    refine .inl ⟨?_, fun beyond => ?_⟩
    · rcases ran_bind ran with ⟨_, _, failed⟩ | ⟨_, _, wrong, _⟩
      · exact ran_complain failed
      · cases (ran_throw (ran_get_bind wrong)).1
    · by_contra none
      rw [region?_end beyond, region?_eq_none_iff p.found] at region
      exact none (not_forall_not.mp region)

theorem ran_goto_error {label : String} [p.Faithful] (inside : Inside p m.control i)
    (sturdy : m.Sturdy) (ran : Ran (goto p label) m (.error e) m') : m' = m := by
  unfold goto at ran
  split at ran
  · exact ran_complain ran
  · rename_i place got
    rcases ran_jump_error inside sturdy ran with ⟨same, _⟩ | ⟨_, beyond, _⟩
    · exact same
    · obtain ⟨v, verb, _⟩ := verbAt_of_symbol p.found got
      exact absurd (lt_length_of_verbAt verb) (by omega)

theorem ran_skipCount {r : Reply Nat} (ran : Ran (skipCount p text) m r m') :
    m' = { m with vars := if (Text.strip text).isEmpty then m.vars else
      (p.evaluator (Text.strip text) m.vars).2 } := by
  unfold skipCount at ran
  dsimp only at ran
  split at ran
  · rename_i empty
    rw [if_pos empty]
    exact (ran_pure ran).2
  · rename_i some
    rw [if_neg some]
    rcases ran_bind ran with ⟨_, _, failed⟩ | ⟨v, m₁, evaluated, further⟩
    · exact (ran_eval failed).1
    rw [← (ran_eval evaluated).1]
    have checked {n : Int} {m₂ : Machine} {r : Reply Nat} (ran : Ran (do
        if n < 0 then complain p .eval " Requires a number >= 0"
        return n.toNat) m₁ r m₂) : m₂ = m₁ := by
      split at ran
      · rcases ran_bind ran with ⟨_, _, failed⟩ | ⟨_, _, wrong, _⟩
        · exact ran_complain failed
        · cases (ran_throw (ran_get_bind wrong)).1
      · exact (ran_pure ran).2
    split at further
    · exact ran_complain further
    · split at further
      · rcases ran_bind further with ⟨_, _, failed⟩ | ⟨_, _, wrong, _⟩
        · exact ran_complain failed
        · cases (ran_throw (ran_get_bind wrong)).1
      · exact checked further

theorem ran_gotoIf_error [p.Faithful] (inside : Inside p m.control i) (sturdy : m.Sturdy)
    (ran : Ran (gotoIf p c) m (.error e) m') :
    m' = { m with vars := (p.evaluator c.target m.vars).2 } := by
  have tested {r : Reply Bool} {m₁ : Machine} (ran : Ran (holds p c.target) m r m₁) :
      m₁ = { m with vars := (p.evaluator c.target m.vars).2 } := by
    rcases ran_bind ran with ⟨_, _, failed⟩ | ⟨_, _, evaluated, further⟩
    · exact (ran_eval failed).1
    · obtain ⟨_, rfl⟩ := ran_pure further
      exact (ran_eval evaluated).1
  rcases ran_bind ran with ⟨_, _, failed⟩ | ⟨held, m₁, holding, further⟩
  · exact tested failed
  obtain rfl := tested holding
  cases held with
  | true => exact ran_goto_error inside sturdy further
  | false => cases (ran_pure further).1

theorem ran_skipNext_error [p.Faithful] (inside : Inside p m.control i) (sturdy : m.Sturdy)
    (verb : c.verb? = some .skipNext) (ran : Ran (skipNext p c) m (.error e) m') :
    m' = { m with vars := c.tested p m.vars } ∧ ¬ Overshoots p c m i ∨
      m' = { m with vars := c.tested p m.vars, call := { m.call with blocks := [] } } ∧
        Overshoots p c m i := by
  have assigned {r : Reply Nat} {m₁ : Machine} (ran : Ran (skipCount p c.target) m r m₁) :
      m₁ = { m with vars := c.tested p m.vars } := by
    rw [ran_skipCount ran, Command.tested, verb]
  rcases ran_bind ran with ⟨_, _, failed⟩ | ⟨n, m₁, counted, further⟩
  · refine .inl ⟨assigned failed, ?_⟩
    rintro ⟨_, ⟨n, m₁, counted, _⟩, _⟩
    cases (Prod.mk.inj (counted.symm.trans failed)).1
  have assigned := assigned counted
  -- which variables the count left does not matter from here on
  generalize c.tested p m.vars = vars at assigned ⊢
  have inside₁ : Inside p m₁.control i := by rw [assigned]; exact inside
  have sturdy₁ : m₁.Sturdy := by rw [assigned]; exact sturdy
  split at further
  · have further := ran_get_bind further
    rw [show m₁.Here i from inside₁.here] at further
    have further : Ran (jump p ((i + n + 1 : Nat) : Int)) m₁ (.error e) m' := by simpa using further
    rw [← assigned]
    rcases ran_jump_error inside₁ sturdy₁ further with ⟨rfl, confined⟩ | ⟨rfl, beyond, free⟩
    · refine .inl ⟨rfl, ?_⟩
      rintro ⟨_, ⟨n', m₂, counted', beyond⟩, free⟩
      cases (Prod.mk.inj (counted.symm.trans counted')).1
      obtain ⟨r, encloses⟩ := confined beyond
      exact free r encloses
    · refine .inr ⟨?_, verb, ⟨n, m₁, counted, beyond⟩, free⟩
      rw [assigned]
  · cases (ran_pure further).1

end Jumps

/-- A jump that fails leaves calls, blocks and all else as they were, and the variables as its own
expression leaves them; unless it skips more commands than there are and lies in no region. Then no
call is active and only conditions are open, and they are left by the time the jump fails. -/
theorem failed_jump_keeps {p q : Program} {m m₁ m₂ : Machine} {i : Nat} {c : Command} {v : Verb}
    {e : Failure} (outlined : q.outlined = .ok p) (start : q.start = 0) (reached : Reached p m)
    (driven : Driven p m) (fetched : Fetched p m i c m₁) (verb : c.verb? = some v)
    (jumps : v.jumps = true) (ran : Ran (execute p c) m₁ (.error e) m₂) :
    (¬ Overshoots p c m₁ i → m₂ = { m₁ with vars := c.tested p m₁.vars }) ∧
    (Overshoots p c m₁ i →
      m₂ = { m₁ with vars := c.tested p m₁.vars, call := { m₁.call with blocks := [] } } ∧
      m₁.outer = [] ∧ ∀ f ∈ m₁.call.blocks, f.spot.isCond = true) := by
  have := ready_of_outlined outlined start
  obtain ⟨poised, has, _⟩ := fetched.poised reached.placed
  have own : verbAt p.commands i = some v := by rw [verbAt, has]; exact verb
  have inside := poised.inside_of_once own (by cases v <;> first | rfl | cases jumps)
    (Verb.mayWait_of_isFree (Verb.isFree_of_jumps jumps))
  have sturdy := (driven.fetch fetched.ran).sturdy
  have idle : { m₁ with resume := none } = m₁ := by
    rw [← show m₁.resume = none from inside.idle]
  obtain ⟨r, failed, performed⟩ := ran_execute verb ran
  rw [idle] at performed
  cases r with
  | ok _ => cases failed
  | error e' =>
    have other (different : v ≠ .skipNext) : ¬ Overshoots p c m₁ i :=
      fun overshoots => different (Option.some.inj (verb.symm.trans overshoots.1))
    cases v with
    | goto =>
      refine ⟨fun _ => ?_, fun overshoots => absurd overshoots (other (by rintro ⟨⟩))⟩
      rw [Command.tested, verb]
      exact ran_goto_error inside sturdy performed
    | gotoIf =>
      refine ⟨fun _ => ?_, fun overshoots => absurd overshoots (other (by rintro ⟨⟩))⟩
      rw [Command.tested, verb]
      exact ran_gotoIf_error inside sturdy performed
    | skipNext =>
      rcases ran_skipNext_error inside sturdy verb performed with ⟨same, fine⟩ | ⟨left, overshoots⟩
      · exact ⟨fun _ => same, fun overshoots => absurd overshoots fine⟩
      · refine ⟨fun fine => absurd overshoots fine, fun _ => ⟨left, ?_⟩⟩
        obtain ⟨alone, conds⟩ := inside.conds overshoots.2.2
        exact ⟨map_eq_nil_iff.mp alone, forall_mem_map.mp conds⟩
    | _ => cases jumps

/-- Twice more commands are to be skipped than there are: first inside of a guard, which takes the
error, and then in a condition. -/
def overreach : Program := .ofCommands
  [{ name := "try" }, { name := "skipNext", target := "x = 9" }, { name := "catch" },
   { name := "endTry" }, { name := "if", target := "true" },
   { name := "skipNext", target := "x = 5" }, { name := "endIf" }]

def overreach.after (turns : Nat) : Machine := (Session.runFor overreach turns {}).1.machine

def overreach.poised (turns : Nat) : Machine := ((next overreach).run.run (overreach.after turns)).2

def overreach.failed (turns : Nat) (c : Command) : Machine :=
  ((execute overreach c).run.run (overreach.poised turns)).2

theorem ran_of_toOption {α : Type} {a : Action α} {m : Machine} {x : α}
    (given : (a.run.run m).1.toOption = some x) : Ran a m (.ok x) (a.run.run m).2 := by
  have ran := ran_self a m
  cases answer : (a.run.run m).1 with
  | error e => rw [answer] at given; cases given
  | ok y =>
    rw [answer] at ran given
    cases given
    exact ran

theorem overreach.reaches {turns i : Nat} {c : Command}
    (further : (Session.runFor overreach turns {}).2 = none)
    (given : ((next overreach).run.run (overreach.after turns)).1.toOption = some (some c))
    (here : (overreach.poised turns).here = some (i : Int))
    (fails : ((execute overreach c).run.run (overreach.poised turns)).1.toOption = none) :
    Reached overreach (overreach.after turns) ∧ Driven overreach (overreach.after turns) ∧
      Fetched overreach (overreach.after turns) i c (overreach.poised turns) ∧
      ∃ e, Ran (execute overreach c) (overreach.poised turns) (.error e)
        (overreach.failed turns c) := by
  refine ⟨?_, Session.driven_runFor turns (.start rfl), ⟨ran_of_toOption given, here⟩, ?_⟩
  · have : overreach.Ready := ready_of_outlined (q := overreach) rfl rfl
    exact Session.reached_runFor turns (.start {} #[]) further
  · have ran := ran_self (execute overreach c) (overreach.poised turns)
    cases answer : ((execute overreach c).run.run (overreach.poised turns)).1 with
    | error e =>
      rw [answer] at ran
      exact ⟨e, ran⟩
    | ok x => rw [answer] at fails; cases fails

theorem failed_jump_keeps_overreach :
    (overreach.poised 1).call.blocks.map Frame.place = [0] ∧
    (overreach.failed 1 { name := "skipNext", target := "x = 9" }).calls =
      (overreach.poised 1).calls ∧
    (overreach.poised 5).call.blocks.map Frame.place = [4] ∧
    (overreach.failed 5 { name := "skipNext", target := "x = 5" }).call.blocks = [] := by
  have outlined : overreach.outlined = .ok overreach := rfl
  have := ready_of_outlined outlined rfl
  obtain ⟨reached, driven, fetched, e, ran⟩ :=
    @overreach.reaches 1 1 { name := "skipNext", target := "x = 9" } (by decide +kernel)
      (by decide +kernel) (by decide +kernel) (by decide +kernel)
  obtain ⟨reached', driven', fetched', e', ran'⟩ :=
    @overreach.reaches 5 5 { name := "skipNext", target := "x = 5" } (by decide +kernel)
      (by decide +kernel) (by decide +kernel) (by decide +kernel)
  have verb : ({ name := "skipNext", target := "x = 9" } : Command).verb? = some .skipNext := by
    decide +kernel
  have verb' : ({ name := "skipNext", target := "x = 5" } : Command).verb? = some .skipNext := by
    decide +kernel
  have confined :
      ¬ Overshoots overreach { name := "skipNext", target := "x = 9" } (overreach.poised 1) 1 := by
    rintro ⟨_, _, free⟩
    have region : overreach.outline.region? (1 : Nat) ≠ none := by decide +kernel
    exact region ((region?_eq_none_iff overreach.found).mpr free)
  have overshoots :
      Overshoots overreach { name := "skipNext", target := "x = 5" } (overreach.poised 5) 5 := by
    refine ⟨verb', ⟨5, _, ran_of_toOption (by decide +kernel), by decide⟩, ?_⟩
    exact (region?_eq_none_iff overreach.found).mp (by decide +kernel)
  have kept := (failed_jump_keeps outlined rfl reached driven fetched verb rfl ran).1 confined
  have left :=
    ((failed_jump_keeps outlined rfl reached' driven' fetched' verb' rfl ran').2 overshoots).1
  refine ⟨by decide +kernel, ?_, by decide +kernel, ?_⟩
  · rw [kept]
    rfl
  · rw [left]

end Runbook
