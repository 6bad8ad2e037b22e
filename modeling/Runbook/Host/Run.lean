import Runbook.Host.Command
import Runbook.Outline.Scan

/-!
Runs: commands are executed one by one until the script ends, stops or fails. Failures are offered
to the guards of the script first.
-/

namespace Runbook

inductive Outcome
  | completed
  | stopped
  | failed (error : Error)
  deriving DecidableEq, Repr

inductive Ending
  | outcome (o : Outcome)
  | broken (f : Fault)
  deriving DecidableEq, Repr

structure Step where
  index : Int
  command : Command
  deriving DecidableEq, Repr

/-- A run in progress, with the commands executed and the lines shown. -/
structure Session where
  machine : Machine := {}
  steps : Array Step := #[]
  lines : Array String := #[]

namespace Session

/-- Offers an error to the guards; the run fails with it, or with what went wrong on the way, if it
is not taken. -/
def handle (p : Program) (s : Session) (place : Option Int) (e : Error) : Session × Option Ending :=
  let e := e.locate place
  match (Action.route p (.error e)).run.run s.machine with
  | (.ok true, m) => ({ s with machine := m }, none)
  | (.ok false, m) => ({ s with machine := m }, some (.outcome (.failed e)))
  | (.error (.error nested), m) =>
    ({ s with machine := m }, some (.outcome (.failed (nested.locate place))))
  | (.error (.fault f), m) => ({ s with machine := m }, some (.broken f))

def perform (p : Program) (s : Session) (c : Command) : Session × Option Ending :=
  let place := s.machine.here
  let s := { s with steps := s.steps.push ⟨place.getD 0, c⟩ }
  match (Host.dispatch p c).run.run s.machine with
  | (.ok shown, m) => ({ s with machine := m, lines := s.lines ++ shown.toArray }, none)
  | (.error (.error e), m) => handle p { s with machine := m } place e
  | (.error (.fault f), m) => ({ s with machine := m }, some (.broken f))

def step (p : Program) (s : Session) : Session × Option Ending :=
  match (Action.next p).run.run s.machine with
  | (.ok (some c), m) => perform p { s with machine := m } c
  | (.ok none, m) =>
    ({ s with machine := m }, some (.outcome (if m.stopped then .stopped else .completed)))
  | (.error (.error e), m) => ({ s with machine := m }, some (.outcome (.failed e)))
  | (.error (.fault f), m) => ({ s with machine := m }, some (.broken f))

def runFor (p : Program) : Nat → Session → Session × Option Ending
  | 0, s => (s, none)
  | count + 1, s =>
    match s.step p with
    | (s, some ending) => (s, some ending)
    | (s, none) => runFor p count s

end Session

def stepLimit : Nat := Number.pow2 60

namespace Program

def outlined (p : Program) : Except Error Program :=
  (Outline.ofCommands p.commands).map fun o => { p with outline := o }

def run (p : Program) (inputs : Env) (limit : Nat) : Session × Option Ending :=
  let s : Session := { machine := { vars := inputs } }
  match p.outlined with
  | .error e => (s, some (.outcome (.failed e)))
  | .ok p => s.runFor p limit

end Program

end Runbook
