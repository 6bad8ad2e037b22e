import Runbook.Error
import Runbook.Script.Command
import Runbook.Text.Blank
import Runbook.Text.Quoted
import Runbook.Value.Basic

namespace Runbook

inductive Entry
  | comment (text : String)
  | command (name : String) (target value : Option String)
  deriving DecidableEq, Repr

namespace Entry

/-- Divides at every bar that has no bar beside it. `after` tells whether the character before is a
bar. -/
def fieldsFrom (after : Bool) : List Char → List Char → List (List Char)
  | taken, [] => [taken.reverse]
  | taken, '|' :: rest =>
    if after || rest.head? = some '|' then fieldsFrom true ('|' :: taken) rest
    else taken.reverse :: fieldsFrom true [] rest
  | taken, c :: rest => fieldsFrom false (c :: taken) rest

def fields (line : List Char) : List (List Char) := (fieldsFrom false [] line).map Text.trim

def present? (field : List Char) : Option String :=
  if field.isEmpty then none else some (String.ofList field)

def ofFields : List (List Char) → Option Entry
  | [name] => some (.command (String.ofList name) none none)
  | [name, target] => some (.command (String.ofList name) (present? target) none)
  | [name, target, value] => some (.command (String.ofList name) (present? target) (present? value))
  | _ => none

def ofLine : List Char → Option Entry
  | '#' :: rest => some (.comment (String.ofList (Text.trim rest)))
  | line => ofFields (fields line)

def tooManyFields (number : Nat) (line : List Char) : Error :=
  { kind := .load
    message := "line " ++ toString number ++ ": expected 'command | target | value', got " ++
      Text.quote (String.ofList line) }

def readLines (number : Nat) : List (List Char) → Except Error (List Entry)
  | [] => .ok []
  | line :: rest =>
    match Text.trim line with
    | [] => readLines (number + 1) rest
    | trimmed =>
      match ofLine trimmed with
      | some entry => (readLines (number + 1) rest).map (entry :: ·)
      | none => .error (tooManyFields number trimmed)

def read (text : String) : Except Error (List Entry) := readLines 1 (Text.lines text.toList)

def optionalField (name : String) : Option String → List (String × Value)
  | some text => [(name, .text text)]
  | none => []

def item : Entry → Value
  | .comment text => .map [("type", .text "comment"), ("comment", .text text)]
  | .command name target value =>
    .map ([("command", .text name)] ++ optionalField "target" target ++ optionalField "value" value)

def document (entries : List Entry) : Value := .map [("commands", .list (entries.map item))]

end Entry

end Runbook
