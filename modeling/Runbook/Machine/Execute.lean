import Runbook.Machine.Branching
import Runbook.Machine.Calling
import Runbook.Machine.Guarding
import Runbook.Machine.Jump
import Runbook.Machine.Loading

namespace Runbook.Action

/-- What a verb does at the current place. A command that waited and goes on is `resuming`. -/
def perform (p : Program) (c : Command) (resuming : Bool) : Verb → Action Unit
  | .label => return
  | .goto => goto p c.target
  | .gotoIf => gotoIf p c
  | .skipNext => skipNext p c
  | .openIf => openIf p c
  | .elseIf => elseIf p c
  | .orElse => orElse p
  | .endIf => endIf p
  | .openTry => openTry p c
  | .openCatch => openCatch p
  | .openFinally => openFinally p
  | .endTry => endTry p
  | .openLoop kind => openLoop p (rounds p c kind)
  | .endLoop _ => endLoop p
  | .again => again p c resuming
  | .leave => leave p c resuming
  | .call => call p c
  | .openFunction .function => openFunction p
  | .openFunction .script => do
    deprecated "script" "function"
    openFunction p
  | .giveBack => giveBack p c.target resuming
  | .endFunction .function => giveBack p "" resuming
  | .endFunction .script => do
    deprecated "endScript" "endFunction"
    giveBack p "" resuming
  | .exitTest => exitTest p resuming
  | .load .json => loadVars p .json c
  | .load .xml => loadVars p .xml c
  | .load .plain => do
    deprecated "loadVars" "loadXmlVars"
    loadVars p .xml c

/-- Places the failure of an action at the current command, if it has no place. -/
def located {α : Type} (a : Action α) : Action α :=
  tryCatchThe Failure a fun failure => do throw (failure.locate (← get).here)

def execute (p : Program) (c : Command) : Action Unit := do
  match c.verb? with
  | none => complain p .engine ", is not a control-flow command"
  | some verb =>
    let m ← get
    set { m with resume := none }
    located (perform p c (m.resume.isSome ∧ m.resume = m.here) verb)

end Runbook.Action
