import Runbook.Expr.Eval
import Runbook.Machine.Basic
import Runbook.Outline.Basic
import Runbook.Pattern.Standard

/-!
Actions change the machine and may fail; what was changed before a failure stays changed.
-/

namespace Runbook

/-- What a run is about: the commands with their outline, where to begin, what patterns, expressions
and data files mean, and what the surroundings can bear. -/
structure Program where
  commands : List Command
  outline : Outline := {}
  start : Int := 0
  patterns : Matcher := .standard
  evaluator : Evaluator := evaluate patterns
  files : Files := {}
  base : Option Path := none
  limits : Limits := {}

/-- The reference of a place, for which an unknown one counts as before the first. -/
def Program.refer (p : Program) (place : Option Int) : String :=
  reference p.commands (place.getD (-1))

abbrev Action := ExceptT Failure (StateM Machine)

namespace Action

def fault {α : Type} (f : Fault) : Action α := throw (.fault f)

def orFault {α : Type} : Except Fault α → Action α
  | .ok a => return a
  | .error f => fault f

def complain {α : Type} (p : Program) (kind : Kind) (text : String) : Action α := do
  let here := (← get).here
  throw (.error { kind := kind, message := p.refer here ++ text, index := here })

def logEvent (level : Level) (topic : Topic) (message : String)
    (locals : Option (List String) := none) (depth : Option Nat := none) : Action Unit :=
  modify fun m => { m with logs := m.logs.push (.event level topic message locals depth) }

/-- The value of an expression; whatever goes wrong is an error of the current command. -/
def eval (p : Program) (text : String) : Action Value := do
  let m ← get
  let (result, vars) := p.evaluator text m.vars
  set { m with vars := vars }
  match result with
  | .ok v => return v
  | .error (.error message) => throw (.error { kind := .eval, message := message, index := m.here })
  | .error (.foreign _ message) =>
    throw (.error { kind := .eval, message := complaint text message, index := m.here })

def holds (p : Program) (text : String) : Action Bool := do return (← eval p text).truthy

def textOf (p : Program) (v : Value) : Action String := orFault (p.limits.spell v)

def assign (values : List (String × Value)) : Action Unit :=
  modify fun m => { m with vars := m.vars.assign values }

def blocks : Action (List Frame) := do return (← get).call.blocks

def setBlocks (blocks : List Frame) : Action Unit :=
  modify fun m => { m with call := { m.call with blocks := blocks } }

def push (f : Frame) : Action Unit := do setBlocks (f :: (← blocks))

def change (how : Frame → Frame) : Action Unit := do
  match ← blocks with
  | [] => return
  | f :: rest => setBlocks (how f :: rest)

def changeGuard (how : Guard → Guard) : Action Unit :=
  change fun f =>
    match f.body with
    | .guard g => { f with body := .guard (how g) }
    | _ => f

def changeLoop (how : Loop → Loop) : Action Unit :=
  change fun f =>
    match f.body with
    | .loop l => { f with body := .loop (how l) }
    | _ => f

def changeCond (how : Cond → Cond) : Action Unit :=
  change fun f =>
    match f.body with
    | .cond c => { f with body := .cond (how c) }
    | _ => f

def pop : Action Frame := do
  match ← blocks with
  | [] => fault .emptyStack
  | f :: rest =>
    setBlocks rest
    modify fun m => { m with vars := m.vars.restore f.saved }
    return f

/-- Leaves blocks of the active call until the innermost one is wanted. -/
def unwindFrom (wanted : Frame → Except Fault Bool) : List Frame → Action (Option Frame)
  | [] => return none
  | f :: rest => do
    if ← orFault (wanted f) then return some f
    let _ ← pop
    unwindFrom wanted rest

def unwind (wanted : Frame → Except Fault Bool) : Action (Option Frame) :=
  do unwindFrom wanted (← blocks)

def expectTop (p : Program) (place : Nat) : Action Frame := do
  match ← blocks with
  | [] => complain p .scope " unexpected command, active command was none"
  | f :: _ =>
    if f.place = place then return f
    else complain p .scope (" unexpected command, active command was " ++ p.refer (some f.place))

def pushCall (c : Call) : Action Unit :=
  modify fun m => { m with call := c, outer := m.call :: m.outer }

def popCall (p : Program) : Action Call := do
  match (← get).outer with
  | [] => complain p .scope " No active function call to return from"
  | next :: rest =>
    let left := (← get).call
    modify fun m => { m with call := next, outer := rest, vars := left.release m.vars }
    return left

def blockAt? (p : Program) (place : Option Int) : Option Block :=
  match place with
  | some i => if i < 0 then none else p.outline.block? i.toNat
  | none => none

def openerHere (p : Program) : Action (Nat × Form × Nat) := do
  let here := (← get).here
  match blockAt? p here with
  | some (.opener form last) => return ((here.getD 0).toNat, form, last)
  | _ => fault .noBlock

def ownerHere (p : Program) : Action Nat := do
  match blockAt? p (← get).here with
  | some (.partner owner) => return owner
  | _ => fault .noOwner

def lastOf (p : Program) (place : Nat) : Except Fault Nat :=
  match p.outline.block? place with
  | some (.opener _ last) => .ok last
  | _ => .error .noBlock

structure Segments where
  catchAt : Option Nat
  finallyAt : Option Nat
  last : Nat

def segmentsOf (p : Program) (place : Nat) : Except Fault Segments :=
  match p.outline.block? place with
  | some (.opener (.guard _ catchAt finallyAt) last) => .ok ⟨catchAt, finallyAt, last⟩
  | _ => .error .noBlock

def owesCatch (p : Program) (f : Frame) : Except Fault Bool :=
  match f.body with
  | .guard g => do return (← segmentsOf p f.place).catchAt.isSome && !g.caught
  | _ => .ok false

def owesFinally (p : Program) (f : Frame) : Except Fault Bool :=
  match f.body with
  | .guard g => do return (← segmentsOf p f.place).finallyAt.isSome && !g.finaled
  | _ => .ok false

def branchTo (p : Program) (place : Int) : Action Unit := do
  if 0 ≤ place ∧ place < p.commands.length then
    modify fun m => { m with branch := some place.toNat }
  else complain p .jump (" Cannot branch to non-existent command @" ++ toString (place + 1))

def branchBack (p : Program) (place : Option Int) : Action Unit :=
  match place with
  | some place => branchTo p place
  | none => fault .notNumeric

def commandFrom (p : Program) (place : Int) : Except Fault Command :=
  let place := if place < 0 then place + p.commands.length else place
  match commandAt? p.commands place with
  | some c => .ok c
  | none => .error .noSuchItem

/-- The first executable command from a place on, among the next `count` ones. -/
def seek (p : Program) : Nat → Int → Except Fault (Option (Int × Command))
  | 0, _ => .ok none
  | count + 1, place => do
    let c ← commandFrom p place
    if c.executable then return some (place, c) else seek p count (place + 1)

/-- Where to go on: at the start, at a branch, or behind the last command. -/
def target (p : Program) : Action Int := do
  let m ← get
  if !m.started then
    set { m with started := true }
    return p.start
  match m.branch with
  | some place =>
    set { m with branch := none }
    logEvent .info .branch ("branch => " ++ p.refer (some place))
    return place
  | none => return m.here.getD (-1) + 1

def next (p : Program) : Action (Option Command) := do
  if (← get).stopped then return none
  let place ← target p
  match ← orFault (seek p (p.commands.length - place).toNat place) with
  | some (place, c) =>
    modify fun m => { m with here := some place }
    return some c
  | none =>
    modify fun m => { m with here := some p.commands.length }
    return none

end Action

end Runbook
