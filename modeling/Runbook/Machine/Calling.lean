import Runbook.Expr.Split
import Runbook.Machine.Transfer
import Runbook.Name

namespace Runbook.Action

def argument (p : Program) (text : String) : Action (String × Value) := do
  let here := (← get).here
  let (name, body) := match Text.cutOnce? '=' text.toList with
    | some (name, body) => (name, some (String.ofList body))
    | none => (text.toList, none)
  let name := String.ofList (Text.trim name)
  match Name.validate "parameter" here name, body with
  | .error e, _ => throw (.error e)
  | .ok _, none =>
    complain p .eval (" Argument '" ++ name ++ "' requires a value: " ++ name ++ "=<expr>")
  | .ok _, some body => return (name, ← eval p body)

def argumentsFrom (p : Program) (found : Record Value) : List String → Action (Record Value)
  | [] => return found
  | text :: rest => do
    let (name, v) ← argument p text
    argumentsFrom p (found.set name v) rest

def arguments (p : Program) (text : String) : Action (Record Value) :=
  argumentsFrom p [] (Split.list ',' text)

def function? (p : Program) (name : String) : Option Nat :=
  match p.outline.symbols.get? name with
  | none => none
  | some place =>
    match p.outline.block? place with
    | some (.opener (.function _ _) _) => some place
    | _ => none

/-- Enters a function or, met again on the way back, leaves the call. -/
def call (p : Program) (c : Command) : Action Unit := do
  match function? p c.target with
  | none => complain p .undefined (" Function does not exist: " ++ c.target ++ ".")
  | some place =>
    let m ← get
    if m.call.returning ∧ m.call.back = m.here then
      let _ ← popCall p
      logEvent .info .call ("returned from function '" ++ c.target ++ "'")
    else
      let args ← arguments p c.value
      let saved := (← get).vars.capture args.names
      assign args
      pushCall
        { function := some place, name := c.target, args := args, back := m.here, saved := saved }
      logEvent .info .call
        ("calling function '" ++ c.target ++ "'") none (some (← get).outer.length)
      branchTo p (place : Nat)

def passedName : Form → Except Fault String
  | .function _ name => .ok name
  | .guard name _ _ => .ok name
  | _ => .error .noBlock

/-- A function runs only if it was called; its text is passed over else. -/
def openFunction (p : Program) : Action Unit := do
  let (place, form, last) ← openerHere p
  let m ← get
  if m.call.function = some place then assign m.call.args
  else
    logEvent .info .call ("skipping over function '" ++ (← orFault (passedName form)) ++ "'")
    branchTo p (last : Nat)

def goBack (p : Program) : Action Unit := do
  modify fun m => { m with call := { m.call with returning := true } }
  branchBack p (← get).call.back

def turnBack (p : Program) : Action Unit := do
  if ← transfer p false false then return
  goBack p

/-- Goes back to the call, with the value of an expression as its result if one is given. -/
def giveBack (p : Program) (expression : String) (resuming : Bool) : Action Unit := do
  let owner ← ownerHere p
  if (← get).call.function ≠ some owner then return
  if resuming then goBack p
  else if expression.isEmpty then turnBack p
  else
    assign [("_result", ← eval p expression)]
    turnBack p

def deprecated (old new : String) : Action Unit :=
  logEvent .warning .deprecated ("The " ++ old ++
    " command has been deprecated and will be removed in future releases. Please use " ++ new ++
    " instead.")

def endRun : Action Unit := do
  logEvent .info .exit "exitTest: stopping execution"
  modify fun m => { m with stopped := true }

def exitTest (p : Program) (resuming : Bool) : Action Unit := do
  if !resuming then
    if ← transfer p false true then return
  endRun

end Runbook.Action
