import Runbook.Env
import Runbook.Number.Literal
import Runbook.Text.Cut

namespace Runbook.Shell

def unquoted? (cs : List Char) : Option (List Char) :=
  match cs with
  | q :: c :: rest =>
    if (q = '"' ∨ q = '\'') ∧ (c :: rest).getLast? = some q then some (c :: rest).dropLast else none
  | _ => none

/-- What a text stands for: a quoted text, true or false, a number, or else itself. -/
def inputValue (text : List Char) : Value :=
  let cs := Text.trim text
  match unquoted? cs with
  | some inner => .text (String.ofList inner)
  | none =>
    let low := String.ofList (cs.map Char.toLower)
    if low = "true" then .bool true
    else if low = "false" then .bool false
    else
      match Number.readInt? cs with
      | some n => .int n
      | none =>
        match Number.readFloat? cs with
        | some x => .float x
        | none => .text (String.ofList cs)

def input? (text : List Char) : Option (String × Value) :=
  (Text.cutOnce? '=' (Text.trim text)).map fun (name, v) =>
    (String.ofList (Text.trim name), inputValue v)

def inputs (items : List String) : Env :=
  Record.ofEntries (items.flatMap fun item => (Text.cut ',' item.toList).filterMap input?)

end Runbook.Shell
