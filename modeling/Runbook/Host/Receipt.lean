import Runbook.Host.Run
import Runbook.Script.Load

namespace Runbook

def placeValue (place : Option Int) : Value :=
  match place with
  | some n => .int n
  | none => .null

def Error.position (e : Error) : Option Int := e.index.map (· + 1)

def Error.value (e : Error) : Value :=
  .map [("kind", .text e.kind.name), ("message", .text e.message),
    ("position", placeValue e.position)]

def Log.value : Log → Value
  | .echo text => .text text
  | .event level topic message locals depth =>
    .map ([("level", .text level.name), ("event", .text topic.name), ("message", .text message)] ++
      (locals.map fun names => ("locals", Value.list (names.map .text))).toList ++
      (depth.map fun d => ("depth", Value.int d)).toList)

def Step.value (s : Step) : Value :=
  .map [("event", .text "command"), ("index", .int s.index), ("command", .text s.command.name),
    ("target", .text s.command.target), ("value", .text s.command.value)]

namespace Outcome

def status : Outcome → String
  | .completed => "completed"
  | .stopped => "stopped"
  | .failed _ => "failed"

def ok : Outcome → Bool
  | .failed _ => false
  | _ => true

def error? : Outcome → Option Error
  | .failed e => some e
  | _ => none

def fields (o : Outcome) : Record Value :=
  ("status", .text o.status) ::
    match o with
    | .failed e =>
      [("reason", .text e.message), ("error", e.value), ("position", placeValue e.position)]
    | _ => []

end Outcome

def engineName : String := "blockflow"

namespace Session

def fields (s : Session) : Record Value :=
  [("engine", .text engineName), ("env", .map s.machine.vars),
    ("logs", .list (s.machine.logs.toList.map Log.value)),
    ("steps", .list (s.steps.toList.map Step.value))]

def shown (s : Session) : String := String.join (s.lines.toList.map (· ++ "\n"))

end Session

/-- The folder of a script, where its data files are unless another is given. -/
def dataFolder (files : Files) (script : Path) : Path := (script.resolve files.home).parent

def runFile (files : Files) (script : Path) (inputs : Env) (folder : Option Path) (start : Int)
    (limit : Nat) : Except Failure (Session × Option Ending) := do
  let commands ← Script.load .standard {} files script
  let p : Program :=
    { commands := commands
      start := start
      files := files
      base := some (folder.getD (dataFolder files script)) }
  return p.run inputs limit

end Runbook
