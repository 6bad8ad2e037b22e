import Runbook.Number.Basic
import Runbook.Pattern.Basic
import Runbook.Record

namespace Runbook

inductive Value
  | null
  | bool (b : Bool)
  | number (n : Number)
  | text (s : String)
  | list (items : List Value)
  | map (fields : List (String × Value))
  | pattern (p : Pattern)

namespace Value

abbrev int (n : Int) : Value := .number (.int n)

abbrev float (x : Float) : Value := .number (.float x)

instance : Inhabited Value := ⟨.null⟩

/-- Null, false, zero, what is not a number and the empty text do not hold; all else does. -/
def truthy : Value → Bool
  | .null => false
  | .bool b => b
  | .number (.int n) => n != 0
  | .number (.float x) => !(x == 0 || Number.isNaN x)
  | .text s => s != ""
  | .list _ | .map _ | .pattern _ => true

def asNumber? : Value → Option Number
  | .number n => some n
  | .bool b => some (.int (if b then 1 else 0))
  | _ => none

end Value

end Runbook
