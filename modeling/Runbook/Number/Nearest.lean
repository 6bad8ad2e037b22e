namespace Runbook.Number

def pow2 (e : Nat) : Nat := Nat.pow 2 e

def pow10 (e : Nat) : Nat := Nat.pow 10 e

/-- The quotient rounded to the nearest natural number, a half to the even one. -/
def roundDiv (num den : Nat) : Nat :=
  let low := num / den
  let twice := 2 * (num % den)
  if twice < den then low
  else if den < twice then low + 1
  else low + low % 2

def roundAt (num den : Nat) (e : Int) : Nat :=
  if 0 ≤ e then roundDiv num (den * pow2 e.toNat) else roundDiv (num * pow2 (-e).toNat) den

/-- The least exponent at or above `e` whose rounded quotient keeps to 53 bits. -/
def fitExponent (num den : Nat) : Nat → Int → Int
  | 0, e => e
  | tries + 1, e => if roundAt num den e ≤ pow2 53 then e else fitExponent num den tries (e + 1)

/-- The exponent of the last place of the double nearest to `num / den`. -/
def lastPlace (num den : Nat) : Int :=
  fitExponent num den 3 (max (-1074) ((num.log2 : Int) - den.log2 - 53))

/-- The bit pattern without its sign of the double nearest to `num / den`; none when that is beyond
the greatest double. The significand carries its leading bit, which steps the exponent field. -/
def nearestBits? (num den : Nat) : Option Nat :=
  if num = 0 then some 0
  else
    let e := lastPlace num den
    let bits := (e + 1074).toNat * pow2 52 + roundAt num den e
    if bits < 0x7ff * pow2 52 then some bits else none

def signed (negative : Bool) (bits : Nat) : Float :=
  Float.ofBits (UInt64.ofNat (if negative then bits + pow2 63 else bits))

def nearest? (negative : Bool) (num den : Nat) : Option Float :=
  (nearestBits? num den).map (signed negative)

def infinity (negative : Bool) : Float := signed negative (0x7ff * pow2 52)

def ofInt? (n : Int) : Option Float := nearest? (n < 0) n.natAbs 1

def roundInt? (n : Int) : Option Int :=
  if (nearestBits? n.natAbs 1).isSome then
    let e := lastPlace n.natAbs 1
    let size : Nat :=
      if n = 0 then 0
      else if 0 ≤ e then roundAt n.natAbs 1 e * pow2 e.toNat
      else n.natAbs
    some (if n < 0 then -(size : Int) else size)
  else none

/-- A finite double as sign, significand and exponent: its value is `± mant * 2 ^ exp`. -/
structure Parts where
  negative : Bool
  mant : Nat
  exp : Int
  deriving DecidableEq, Repr

def parts? (x : Float) : Option Parts :=
  let bits := x.toBits.toNat
  let field : Nat := bits / pow2 52 % pow2 11
  let fraction : Nat := bits % pow2 52
  let negative := decide (pow2 63 ≤ bits)
  if field = 0x7ff then none
  else if field = 0 then some ⟨negative, fraction, -1074⟩
  else some ⟨negative, fraction + pow2 52, (field : Int) - 1075⟩

def toInt? (x : Float) : Option Int := do
  let p ← parts? x
  let size : Nat ←
    if 0 ≤ p.exp then some (p.mant * pow2 p.exp.toNat)
    else if p.mant % pow2 (-p.exp).toNat = 0 then some (p.mant / pow2 (-p.exp).toNat)
    else none
  return if p.negative then -(size : Int) else size

def truncate? (x : Float) : Option Int := do
  let p ← parts? x
  let size : Nat := if 0 ≤ p.exp then p.mant * pow2 p.exp.toNat else p.mant / pow2 (-p.exp).toNat
  return if p.negative then -(size : Int) else size

def isNaN (x : Float) : Bool := !(x == x)

end Runbook.Number
