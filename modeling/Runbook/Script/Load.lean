import Runbook.File.Store
import Runbook.Json.Read
import Runbook.Limits
import Runbook.Script.Document

namespace Runbook.Script

def loadError (message : String) : Failure := .error { kind := .load, message := message }

def ofJson (wording : Document.Wording) (limits : Limits) (path : Path) (text : String) :
    Except Failure (List Command) :=
  if limits.decodes text.toList then
    match Json.read text.toList with
    | .error (.malformed problem rest) =>
      .error (loadError (path.text ++ ": invalid JSON: " ++ Json.message text.toList problem rest))
    | .error .tooManyDigits => .error (.fault .tooManyDigits)
    | .ok (.map fields) => ofDocument wording (.map fields)
    | .ok _ => .error (loadError (path.text ++ ": top-level JSON value must be an object"))
  else .error (.fault .tooDeep)

def load (wording : Document.Wording) (limits : Limits) (files : Files) (path : Path) :
    Except Failure (List Command) :=
  match files.text? path with
  | .error fault => .error (.fault fault)
  | .ok none => .error (loadError ("script not found: " ++ path.text))
  | .ok (some text) => if path.isJson then ofJson wording limits path text else ofText wording text

end Runbook.Script
