import Runbook.Number.Literal
import Runbook.Number.Shortest
import Runbook.Text.Quoted
import Runbook.Value.Basic

namespace Runbook

def Pattern.literal (p : Pattern) : String :=
  let flags :=
    (if p.flags.template then ["re.TEMPLATE"] else []) ++
    (if p.flags.ignoreCase then ["re.IGNORECASE"] else []) ++
    (if p.flags.multiline then ["re.MULTILINE"] else []) ++
    (if p.flags.dotAll then ["re.DOTALL"] else []) ++
    (if p.flags.verbose then ["re.VERBOSE"] else []) ++
    (if p.flags.ascii then ["re.ASCII"] else [])
  let source := String.ofList ((Text.quote p.source).toList.take 200)
  if flags.isEmpty then "re.compile(" ++ source ++ ")"
  else "re.compile(" ++ source ++ ", " ++ "|".intercalate flags ++ ")"

def Number.literal : Number → Except TooManyDigits String
  | .int n => intText n
  | .float x => .ok (floatText x)

def Number.text : Number → Except TooManyDigits String
  | .int n => intText n
  | .float x =>
    match toInt? x with
    | some n => intText n
    | none => .ok (floatText x)

namespace Value

open Number (TooManyDigits)

mutual

def literal : Value → Except TooManyDigits String
  | .null => .ok "None"
  | .bool b => .ok (if b then "True" else "False")
  | .number n => n.literal
  | .text s => .ok (Text.quote s)
  | .list items => do return "[" ++ ", ".intercalate (← literals items) ++ "]"
  | .map fields => do return "\x7b" ++ ", ".intercalate (← fieldLiterals fields) ++ "\x7d"
  | .pattern p => .ok p.literal

def literals : List Value → Except TooManyDigits (List String)
  | [] => .ok []
  | v :: rest => do return (← literal v) :: (← literals rest)

def fieldLiterals : List (String × Value) → Except TooManyDigits (List String)
  | [] => .ok []
  | (name, v) :: rest =>
    do return (Text.quote name ++ ": " ++ (← literal v)) :: (← fieldLiterals rest)

end

mutual

def toText : Value → Except TooManyDigits String
  | .null => .ok "null"
  | .bool b => .ok (if b then "true" else "false")
  | .number n => n.text
  | .text s => .ok s
  | .list items => do return ",".intercalate (← texts items)
  | .map fields => literal (.map fields)
  | .pattern p => .ok ("/" ++ p.source ++ "/")

def texts : List Value → Except TooManyDigits (List String)
  | [] => .ok []
  | v :: rest => do return (← toText v) :: (← texts rest)

end

end Value

end Runbook
