import Runbook.Value.Basic

namespace Runbook

inductive Comparison
  | less
  | lessEqual
  | greater
  | greaterEqual
  deriving DecidableEq, Repr

def Comparison.holds : Comparison → Ordering → Bool
  | .less, o => o == .lt
  | .lessEqual, o => o != .gt
  | .greater, o => o == .gt
  | .greaterEqual, o => o != .lt

namespace Value

def sameNumber (a b : Value) : Bool :=
  match a.asNumber?, b.asNumber? with
  | some x, some y => x.order y == some .eq
  | _, _ => false

def isNaN : Value → Bool
  | .number (.float x) => Number.isNaN x
  | _ => false

mutual

def same : Value → Value → Bool
  | .null, .null => true
  | .text s, .text t => s == t
  | .list xs, .list ys => sameItems xs ys
  | .map xs, .map ys => xs.length == ys.length && sameFields xs ys
  | .pattern p, .pattern q => p.source == q.source && p.flags == q.flags
  | a, b => sameNumber a b

def sameItems : List Value → List Value → Bool
  | [], [] => true
  | x :: xs, y :: ys => (same x y || (x.isNaN && y.isNaN)) && sameItems xs ys
  | _, _ => false

def sameFields : List (String × Value) → List (String × Value) → Bool
  | [], _ => true
  | (name, x) :: xs, ys =>
    (match Record.get? ys name with
     | some y => same x y || (x.isNaN && y.isNaN)
     | none => false) && sameFields xs ys

end

mutual

/-- Whether the comparison holds; none for values that have no order between them. -/
def compare? (op : Comparison) : Value → Value → Option Bool
  | .text s, .text t => some (op.holds (compare s t))
  | .list xs, .list ys => compareItems? op xs ys
  | a, b =>
    match a.asNumber?, b.asNumber? with
    | some x, some y => some ((x.order y).any op.holds)
    | _, _ => none

def compareItems? (op : Comparison) : List Value → List Value → Option Bool
  | x :: xs, y :: ys =>
    if same x y || (x.isNaN && y.isNaN) then compareItems? op xs ys else compare? op x y
  | xs, ys => some (op.holds (compare xs.length ys.length))

end

end Value

end Runbook
