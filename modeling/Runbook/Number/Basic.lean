import Runbook.Number.Nearest

/-!
Numbers of the expression language: unbounded integers and doubles. Mixed operations work on
doubles; comparison is exact.
-/

namespace Runbook

inductive Number
  | int (n : Int)
  | float (x : Float)
  deriving DecidableEq, Repr

namespace Number

inductive Failure
  | integerTooLarge
  | quotientTooLarge
  | outsideDomain
  | divisionByZero
  deriving DecidableEq, Repr

def Failure.message : Failure → String
  | .integerTooLarge => "int too large to convert to float"
  | .quotientTooLarge => "integer division result too large for a float"
  | .outsideDomain => "math domain error"
  | .divisionByZero => "Division by zero"

def toFloat : Number → Except Failure Float
  | .float x => .ok x
  | .int n =>
    match ofInt? n with
    | some x => .ok x
    | none => .error .integerTooLarge

def lift (onInt : Int → Int → Int) (onFloat : Float → Float → Float) :
    Number → Number → Except Failure Number
  | .int a, .int b => .ok (.int (onInt a b))
  | a, b => do return .float (onFloat (← a.toFloat) (← b.toFloat))

def add : Number → Number → Except Failure Number := lift (· + ·) (· + ·)

def sub : Number → Number → Except Failure Number := lift (· - ·) (· - ·)

def mul : Number → Number → Except Failure Number := lift (· * ·) (· * ·)

def neg : Number → Number
  | .int n => .int (-n)
  | .float x => .float (-x)

def isZero : Number → Bool
  | .int n => n == 0
  | .float x => x == 0

def ofQuotient (x : Float) : Number :=
  match toInt? x with
  | some n => if n.natAbs < pow2 53 then .int n else .float x
  | none => .float x

/-- Two integers are divided exactly and the quotient is rounded once. -/
def div (a b : Number) : Except Failure Number :=
  if b.isZero then .error .divisionByZero
  else
    match a, b with
    | .int m, .int n =>
      match nearest? (decide (m < 0) != decide (n < 0)) m.natAbs n.natAbs with
      | some x => .ok (ofQuotient x)
      | none => .error .quotientTooLarge
    | a, b => do return .float ((← a.toFloat) / (← b.toFloat))

/-- The remainder with the sign of the dividend, of finite doubles given by their parts. -/
def partsRem (p q : Parts) : Float :=
  let e := min p.exp q.exp
  let size := p.mant * pow2 (p.exp - e).toNat % (q.mant * pow2 (q.exp - e).toNat)
  let x :=
    if 0 ≤ e then nearest? p.negative (size * pow2 e.toNat) 1
    else nearest? p.negative size (pow2 (-e).toNat)
  x.getD (infinity p.negative)

def floatRem (x y : Float) : Except Failure Float :=
  match parts? x, parts? y with
  | some p, some q => .ok (partsRem p q)
  | some _, none => .ok (if isNaN y then y else x)
  | none, _ => if isNaN x then .ok x else if isNaN y then .ok y else .error .outsideDomain

/-- The remainder is taken between doubles, also for integers. -/
def rem (a b : Number) : Except Failure Number :=
  if b.isZero then .error .divisionByZero
  else
    match a, b with
    | .int m, .int n =>
      match roundInt? m, roundInt? n with
      | some x, some y => .ok (.int (x.tmod y))
      | _, _ => .error .integerTooLarge
    | a, b => do return .float (← floatRem (← a.toFloat) (← b.toFloat))

def compareParts (n : Int) (p : Parts) : Ordering :=
  let size : Int := if p.negative then -(p.mant : Int) else p.mant
  compare (n * pow2 (-p.exp).toNat) (size * pow2 p.exp.toNat)

def compareFloat (n : Int) (x : Float) : Option Ordering :=
  match parts? x with
  | some p => some (compareParts n p)
  | none => if isNaN x then none else if x < 0 then some .gt else some .lt

def order : Number → Number → Option Ordering
  | .int m, .int n => some (compare m n)
  | .int m, .float y => compareFloat m y
  | .float x, .int n => (compareFloat n x).map Ordering.swap
  | .float x, .float y =>
    if x < y then some .lt else if y < x then some .gt else if x == y then some .eq else none

end Number

end Runbook
