import Runbook.Machine.Looping

namespace Runbook.Action

def takeVarset (r : Reader) : Action Reader := do
  let (varset, after) ← orError r.next
  assign varset
  return after

/-- Takes varsets, at most `count`, until the selector holds; tells whether it does. -/
def seekVarset (p : Program) (selector : String) : Nat → Reader → Action Bool
  | 0, _ => return false
  | count + 1, r => do
    if r.atEnd then return false
    let r ← takeVarset r
    if ← holds p selector then return true
    seekVarset p selector count r

def loadOnly (p : Program) (r : Reader) : Action Unit := do
  if !r.atEnd then
    complain p .datafile (" Multiple " ++ r.format.unit ++
      "s are not valid for this command. (A specific " ++ r.format.unit ++
      " can be selected by specifying: name == \"value\".)")

def loadSelected (p : Program) (c : Command) (r : Reader) : Action Unit := do
  match ← eval p c.value with
  | .bool true => return
  | .bool false =>
    if !(← seekVarset p c.value r.varsets.length r) then
      complain p .datafile (" " ++ r.format.unit ++ " not found for selector expression: " ++
        c.value ++ "; in input file " ++ c.target)
  | _ => complain p .eval (", " ++ c.value ++ " is not a boolean expression")

def loadVars (p : Program) (format : Format) (c : Command) : Action Unit := do
  require p c.target (" Requires a " ++ format.title ++ " file path.")
  let (_, r) ← loadReader p format c.target
  let r ← takeVarset r
  if c.value.isEmpty then loadOnly p r else loadSelected p c r

end Runbook.Action
