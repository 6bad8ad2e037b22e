import Mathlib.Data.List.Basic
import Runbook.Host.Run
import Runbook.Proofs.Outline.Links

namespace Runbook

def Program.ofCommands (commands : List Command) : Program :=
  { commands := commands, outline := (Outline.find commands).toOption.getD {} }

/-- The outline is that of the commands. -/
class Program.Faithful (p : Program) : Prop where
  found : Outline.find p.commands = .ok p.outline

class Program.Fresh (p : Program) : Prop where
  start : p.start = 0

class Program.Ready (p : Program) : Prop extends p.Faithful, p.Fresh

theorem Program.found (p : Program) [p.Faithful] : Outline.find p.commands = .ok p.outline :=
  Faithful.found

theorem Program.fresh (p : Program) [p.Fresh] : p.start = 0 := Fresh.start

abbrev Program.Spans (p : Program) (place : Nat) (form : Form) (last : Nat) : Prop :=
  p.outline.Spans place form last

abbrev Program.Links (p : Program) (place owner : Nat) : Prop := p.outline.Links place owner

abbrev Program.Has (p : Program) (i : Nat) (c : Command) : Prop := p.commands[i]? = some c

theorem Program.Has.lt {p : Program} {i : Nat} {c : Command} (has : p.Has i c) :
    i < p.commands.length :=
  (List.getElem?_eq_some_iff.mp has).1

abbrev Program.Does (p : Program) (i : Nat) (v : Verb) : Prop := verbAt p.commands i = some v

abbrev Reply := Except Failure

abbrev Machine.Here (m : Machine) (i : Nat) : Prop := m.here = some (i : Int)

abbrev Machine.Top (m : Machine) (f : Frame) (rest : List Frame) : Prop := m.call.blocks = f :: rest

inductive Mark
  | cond (c : Cond)
  | loop (kind : LoopKind) (complete : Bool)
  | guard (g : Guard)
  deriving DecidableEq, Repr

structure Spot where
  place : Nat
  mark : Mark
  deriving DecidableEq, Repr

structure Tier where
  function : Option Nat := none
  back : Option Int := none
  returning : Bool := false
  blocks : List Spot := []
  deriving DecidableEq, Repr

structure Control where
  call : Tier := {}
  outer : List Tier := []
  here : Option Int := none
  started : Bool := false
  branch : Option Nat := none
  stopped : Bool := false
  resume : Option Int := none
  deriving DecidableEq, Repr

abbrev Control.Here (k : Control) (i : Nat) : Prop := k.here = some (i : Int)

abbrev Control.Top (k : Control) (s : Spot) (rest : List Spot) : Prop := k.call.blocks = s :: rest

theorem Control.Top.mem {k : Control} {s : Spot} {rest : List Spot} (top : k.Top s rest) :
    s ∈ k.call.blocks := by
  rw [top]
  exact List.mem_cons_self

def Body.mark : Body → Mark
  | .cond c => .cond c
  | .loop l => .loop l.kind l.complete
  | .guard g => .guard g

def Frame.spot (f : Frame) : Spot := ⟨f.place, f.body.mark⟩

def Call.tier (c : Call) : Tier := ⟨c.function, c.back, c.returning, c.blocks.map Frame.spot⟩

namespace Machine

def control (m : Machine) : Control :=
  { call := m.call.tier
    outer := m.outer.map Call.tier
    here := m.here
    started := m.started
    branch := m.branch
    stopped := m.stopped
    resume := m.resume }

end Machine

namespace Control

def tiers (k : Control) : List Tier := k.call :: k.outer

def spots (k : Control) : List Spot := k.tiers.flatMap Tier.blocks

def withBlocks (k : Control) (blocks : List Spot) : Control :=
  { k with call := { k.call with blocks := blocks } }

def push (k : Control) (s : Spot) : Control := k.withBlocks (s :: k.call.blocks)

def goto (k : Control) (place : Nat) : Control := { k with branch := some place }

/-- The control once all inside a block of some call is left: the call `tier` is active with the
blocks `blocks`. -/
def unwound (k : Control) (tier : Tier) (blocks : List Spot) (outer : List Tier) : Control :=
  { k with call := { tier with blocks := blocks }, outer := outer }

@[simp] theorem withBlocks_blocks (k : Control) (blocks : List Spot) :
    (k.withBlocks blocks).call.blocks = blocks := rfl

@[simp] theorem withBlocks_self (k : Control) : k.withBlocks k.call.blocks = k := rfl

@[simp] theorem withBlocks_withBlocks (k : Control) (a b : List Spot) :
    (k.withBlocks a).withBlocks b = k.withBlocks b := rfl

end Control

theorem Machine.spots_control (m : Machine) : m.control.spots = m.frames.map Frame.spot := by
  simp [Control.spots, Control.tiers, Machine.control, Machine.frames, Machine.calls, Call.tier,
    List.map_flatMap, List.flatMap_map]

namespace Action

variable {α β : Type}

def Ran (a : Action α) (m : Machine) (r : Except Failure α) (m' : Machine) : Prop :=
  a.run.run m = (r, m')

theorem ran_iff (a : Action α) (m m' : Machine) (r : Reply α) :
    Ran a m r m' ↔ (a.run.run m).1 = r ∧ (a.run.run m).2 = m' := Prod.ext_iff

theorem run_bind (a : Action α) (f : α → Action β) (m : Machine) :
    (a >>= f).run.run m = match a.run.run m with
      | (.ok x, m') => (f x).run.run m'
      | (.error e, m') => (.error e, m') := by
  simp only [ExceptT.run_bind, StateT.run_bind]
  generalize StateT.run (ExceptT.run a) m = out
  obtain ⟨r, m'⟩ := out
  cases r <;> rfl

theorem run_pure {x : α} {m : Machine} : (pure x : Action α).run.run m = (.ok x, m) := rfl

theorem run_get (m : Machine) : (get : Action Machine).run.run m = (.ok m, m) := rfl

theorem run_set (n m : Machine) : (set n : Action PUnit).run.run m = (.ok (), n) := rfl

section Inversion

variable {a : Action α} {f : α → Action β} {m m' m₁ : Machine} {r : Except Failure β} {x : α}

theorem ran_bind (ran : Ran (a >>= f) m r m') :
    (∃ e, r = .error e ∧ Ran a m (.error e) m') ∨ ∃ x m₁, Ran a m (.ok x) m₁ ∧
      Ran (f x) m₁ r m' := by
  unfold Ran at ran
  rw [run_bind] at ran
  rcases out : a.run.run m with ⟨first, m₁⟩
  rw [out] at ran
  cases first with
  | error e =>
    obtain ⟨rfl, rfl⟩ := Prod.mk.inj ran
    exact .inl ⟨e, rfl, out⟩
  | ok x => exact .inr ⟨x, m₁, out, ran⟩

theorem ran_bind_ok (ran : Ran (a >>= f) m r m') (done : a.run.run m = (.ok x, m₁)) :
    Ran (f x) m₁ r m' := by
  unfold Ran at ran ⊢
  rwa [run_bind, done] at ran

theorem ran_done {b : Action β} {x : Reply β} (ran : Ran b m r m') (done : b.run.run m = (x, m₁)) :
    r = x ∧ m' = m₁ := by
  obtain ⟨rfl, rfl⟩ := Prod.mk.inj (done.symm.trans ran)
  exact ⟨rfl, rfl⟩

theorem ran_get_bind {f : Machine → Action β} (ran : Ran (get >>= f) m r m') : Ran (f m) m r m' :=
  ran

theorem ran_blocks_bind {f : List Frame → Action β} (ran : Ran (blocks >>= f) m r m') :
    Ran (f m.call.blocks) m r m' := ran

theorem ran_log_bind {f : Unit → Action β} {level : Level} {topic : Topic} {text : String}
    {locals : Option (List String)} {depth : Option Nat}
    (ran : Ran (logEvent level topic text locals depth >>= f) m r m') :
    Ran (f ()) { m with logs := m.logs.push (.event level topic text locals depth) } r m' := ran

theorem ran_pure {r : Reply α} (ran : Ran (pure x) m r m') : r = .ok x ∧ m' = m := by
  obtain ⟨rfl, rfl⟩ := Prod.mk.inj ran
  exact ⟨rfl, rfl⟩

theorem ran_throw {e : Failure} {r : Reply α} (ran : Ran (throw e) m r m') :
    r = .error e ∧ m' = m := by
  obtain ⟨rfl, rfl⟩ := Prod.mk.inj ran
  exact ⟨rfl, rfl⟩

theorem ran_set {n : Machine} {r : Reply PUnit} (ran : Ran (set n) m r m') :
    r = .ok () ∧ m' = n := by
  obtain ⟨rfl, rfl⟩ := Prod.mk.inj ran
  exact ⟨rfl, rfl⟩

theorem ran_modify {how : Machine → Machine} {r : Reply PUnit} (ran : Ran (modify how) m r m') :
    r = .ok () ∧ m' = how m := by
  obtain ⟨rfl, rfl⟩ := Prod.mk.inj ran
  exact ⟨rfl, rfl⟩

end Inversion

section Blocks

variable {p : Program} {m : Machine} {f : Frame} {rest : List Frame} {how : Frame → Frame}

theorem run_change : (change how).run.run m = (.ok (), match m.call.blocks with
    | [] => m
    | f :: rest => { m with call := { m.call with blocks := how f :: rest } }) := by
  unfold change
  rw [run_bind]
  show (match m.call.blocks with
    | [] => pure ()
    | f :: rest => setBlocks (how f :: rest) : Action Unit).run.run m = _
  cases m.call.blocks <;> rfl

theorem run_change_top (top : m.Top f rest) :
    (change how).run.run m =
      (.ok (), { m with call := { m.call with blocks := how f :: rest } }) := by
  rw [run_change, top]

theorem run_changeGuard {how : Guard → Guard} {g : Guard} (top : m.Top f rest)
    (body : f.body = .guard g) :
    (changeGuard how).run.run m =
      (.ok (), { m with call := { m.call with blocks := { f with body := .guard (how g) } :: rest }
        }) := by
  rw [changeGuard, run_change_top top, body]

theorem run_changeLoop {how : Loop → Loop} {l : Loop} (top : m.Top f rest)
    (body : f.body = .loop l) :
    (changeLoop how).run.run m =
      (.ok (), { m with call := { m.call with blocks := { f with body := .loop (how l) } :: rest }
        }) := by
  rw [changeLoop, run_change_top top, body]

theorem run_changeCond {how : Cond → Cond} {c : Cond} (top : m.Top f rest)
    (body : f.body = .cond c) :
    (changeCond how).run.run m =
      (.ok (), { m with call := { m.call with blocks := { f with body := .cond (how c) } :: rest }
        }) := by
  rw [changeCond, run_change_top top, body]

theorem run_pop (m : Machine) : pop.run.run m = match m.call.blocks with
    | [] => (.error (.fault .emptyStack), m)
    | f :: rest =>
      (.ok f,
        { m with call := { m.call with blocks := rest }, vars := m.vars.restore f.saved }) := by
  unfold pop
  rw [run_bind]
  show (match m.call.blocks with
    | [] => fault .emptyStack
    | f :: rest => do
      setBlocks rest
      modify fun m => { m with vars := m.vars.restore f.saved }
      return f : Action Frame).run.run m = _
  cases m.call.blocks <;> rfl

theorem run_pop_top (top : m.Top f rest) :
    pop.run.run m = (.ok f,
      { m with call := { m.call with blocks := rest }, vars := m.vars.restore f.saved }) := by
  rw [run_pop, top]

theorem run_expectTop (top : m.Top f rest) : (expectTop p f.place).run.run m = (.ok f, m) := by
  unfold expectTop
  rw [run_bind]
  show (match m.call.blocks with
    | [] => _
    | g :: _ => if g.place = f.place then return g else _ : Action Frame).run.run m = _
  rw [top]
  dsimp only
  rw [if_pos rfl]
  rfl

theorem run_popCall {next : Call} {rest : List Call} (outer : m.outer = next :: rest) :
    (popCall p).run.run m =
      (.ok m.call, { m with call := next, outer := rest, vars := m.call.release m.vars }) := by
  unfold popCall
  rw [run_bind, run_get]
  dsimp only
  rw [outer]
  rfl

theorem run_popCall_alone (alone : m.outer = []) : (popCall p).run.run m =
    (complain p .scope " No active function call to return from" : Action Call).run.run m := by
  unfold popCall
  rw [run_bind, run_get]
  dsimp only
  rw [alone]

end Blocks

section Places

variable {p : Program} {m : Machine} {i : Nat}

theorem blockAt?_nat (p : Program) (i : Nat) :
    blockAt? p (some (i : Int)) = p.outline.block? i := by
  have inside : ¬ (i : Int) < 0 := by omega
  simp only [blockAt?, if_neg inside, Int.toNat_natCast]

theorem run_openerHere {form : Form} {last : Nat} (here : m.Here i)
    (block : p.outline.block? i = some (.opener form last)) :
    (openerHere p).run.run m = (.ok (i, form, last), m) := by
  unfold openerHere
  rw [run_bind, run_get]
  simp only [here, blockAt?_nat, block]
  rfl

theorem run_ownerHere {owner : Nat} (here : m.Here i)
    (block : p.outline.block? i = some (.partner owner)) :
    (ownerHere p).run.run m = (.ok owner, m) := by
  unfold ownerHere
  rw [run_bind, run_get]
  simp only [here, blockAt?_nat, block]
  rfl

theorem run_branchTo {place : Nat} (bound : place < p.commands.length) :
    (branchTo p (place : Int)).run.run m = (.ok (), { m with branch := some place }) := by
  have inside : 0 ≤ (place : Int) ∧ (place : Int) < p.commands.length := by omega
  unfold branchTo
  rw [if_pos inside]
  rfl

end Places

end Action

end Runbook
