import Runbook.Host.Placeholder
import Runbook.Machine.Execute

namespace Runbook.Host

open Runbook.Action

def fill (p : Program) (text : String) : Action String := do
  orFault (Placeholder.fill p.limits (← get).vars text)

def failWith {α : Type} (message : String) : Action α :=
  throw (.error { kind := .command, message := message })

def showLine (p : Program) (line : String) : Action Unit :=
  if p.limits.shows line then pure () else fault .unshown

def storeName (c : Command) : Action String := orError (Name.validate "variable" none c.value)

def store (p : Program) (c : Command) : Action Unit := do
  let name ← storeName c
  assign [(name, .text (← fill p c.target))]

def storeEval (p : Program) (c : Command) : Action Unit := do
  let name ← storeName c
  assign [(name, ← eval p c.target)]

def assertEval (p : Program) (c : Command) : Action Unit := do
  let actual ← textOf p (← eval p c.target)
  let expected ← fill p c.value
  if actual ≠ expected then
    failWith ("Actual value '" ++ actual ++ "' did not match '" ++ expected ++ "'")

def raise (p : Program) (c : Command) : Action Unit := do
  let message ← fill p c.target
  failWith (if message.isEmpty then "Error thrown" else message)

/-- Executes a host command; the result is a line to show, if it shows one. -/
def perform (p : Program) (c : Command) : Action (Option String) := do
  match c.baseName with
  | "store" => store p c; return none
  | "storeEval" => storeEval p c; return none
  | "getEval" => let _ ← eval p c.target; return none
  | "assertEval" => assertEval p c; return none
  | "throwError" => raise p c; return none
  | "echo" =>
    let text ← fill p c.target
    showLine p text
    modify fun m => { m with logs := m.logs.push (.echo text) }
    return some text
  | _ => failWith ("Unknown command: " ++ c.text)

def dispatch (p : Program) (c : Command) : Action (Option String) := do
  if c.verb?.isSome then
    execute p c
    return none
  else perform p c

end Runbook.Host
