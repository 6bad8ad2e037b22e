import Runbook.Script.Entry
import Runbook.Value.Text

namespace Runbook.Document

inductive Problem
  | wrongType (place : String) (found : Value) (expected : String)
  | noCommands
  | badItem (number : Nat) (found : Value)
  | unexpected (names : List String)

def Problem.place : Problem → String
  | .wrongType place _ _ => place
  | .noCommands | .unexpected _ => "<root>"
  | .badItem number _ => "commands/" ++ toString number

abbrev Wording := Problem → Except Fault String

def unexpectedText (names : List String) : String :=
  "Additional properties are not allowed (" ++ ", ".intercalate (names.map Text.quote) ++
    (if names.length = 1 then " was" else " were") ++ " unexpected)"

def quoted (v : Value) : Except Fault String := v.literal.mapError fun _ => .tooManyDigits

def Wording.standard : Wording
  | .wrongType _ found expected =>
    do return (← quoted found) ++ " is not of type '" ++ expected ++ "'"
  | .noCommands => .ok "'commands' is a required property"
  | .badItem _ found => do return (← quoted found) ++ " is not valid under any of the given schemas"
  | .unexpected names => .ok (unexpectedText (names.mergeSort fun a b => decide (a ≤ b)))

def Problem.failure (wording : Wording) (p : Problem) : Failure :=
  match wording p with
  | .ok text =>
    .error { kind := .load, message := "Invalid script document at " ++ p.place ++ ": " ++ text }
  | .error f => .fault f

def isNameChar (c : Char) : Bool := c.isAlphanum || c = '_'

/-- An ASCII letter and then letters, digits and underscores; one line feed may end the text. -/
def isCommandName (name : String) : Bool :=
  match name.toList with
  | [] => false
  | c :: rest =>
    c.isAlpha && (rest.dropWhile isNameChar == [] || rest.dropWhile isNameChar == ['\n'])

def textField? (fields : Record Value) (name : String) : Option String :=
  match fields.get? name with
  | some (.text s) => some s
  | _ => none

/-- The text of a field, empty if it is absent; none if it is not a text. -/
def optionalText? (fields : Record Value) (name : String) : Option String :=
  match fields.get? name with
  | none => some ""
  | some (.text s) => some s
  | some _ => none

def isTyped (fields : Record Value) (type : String) : Bool :=
  match fields.get? "type" with
  | none => true
  | some (.text s) => s = type
  | some _ => false

def hasOnly (fields : Record Value) (names : List String) : Bool := fields.names.all names.contains

def comment? (fields : Record Value) : Option Command :=
  match textField? fields "comment" with
  | some text =>
    if isTyped fields "comment" && hasOnly fields ["type", "comment"] then
      some { name := "", target := text, executable := false }
    else none
  | none => none

def command? (fields : Record Value) : Option Command :=
  match textField? fields "command", optionalText? fields "target",
    optionalText? fields "value" with
  | some name, some target, some value =>
    if isCommandName name && isTyped fields "command" &&
      hasOnly fields ["type", "command", "target", "value"] then
      some { name := name, target := target, value := value }
    else none
  | _, _, _ => none

def item? : Value → Option Command
  | .map fields => (command? fields).or (comment? fields)
  | _ => none

def items (number : Nat) : List Value → Except Problem (List Command)
  | [] => .ok []
  | v :: rest =>
    match item? v with
    | some c => (items (number + 1) rest).map (c :: ·)
    | none => .error (.badItem number v)

def checkName (fields : Record Value) : Except Problem Unit :=
  match fields.get? "name" with
  | none | some (.text _) => .ok ()
  | some v => .error (.wrongType "name" v "string")

def readItems : Value → Except Problem (List Command)
  | .list vs => items 0 vs
  | v => .error (.wrongType "commands" v "array")

def checkExtra (fields : Record Value) : Except Problem Unit :=
  match fields.names.filter fun name => name ≠ "name" ∧ name ≠ "commands" with
  | [] => .ok ()
  | names => .error (.unexpected names)

def readFields (fields : Record Value) : Except Problem (List Command) :=
  match fields.get? "commands" with
  | none => .error .noCommands
  | some found => do
    checkName fields
    let commands ← readItems found
    checkExtra fields
    return commands

def read : Value → Except Problem (List Command)
  | .map fields => readFields fields
  | v => .error (.wrongType "<root>" v "object")

end Runbook.Document

namespace Runbook.Script

def ofDocument (wording : Document.Wording) (v : Value) : Except Failure (List Command) :=
  (Document.read v).mapError (Document.Problem.failure wording)

def ofText (wording : Document.Wording) (text : String) : Except Failure (List Command) :=
  match Entry.read text with
  | .ok entries => ofDocument wording (Entry.document entries)
  | .error e => .error (.error e)

end Runbook.Script
