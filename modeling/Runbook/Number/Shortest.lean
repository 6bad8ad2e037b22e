import Runbook.Number.Nearest

namespace Runbook.Number

/-- The reals that round to a positive double, with the double itself as `mid`, in units of
`2 ^ exp`. The ends belong to the interval when `closed`. -/
structure Interval where
  low : Nat
  mid : Nat
  high : Nat
  exp : Int
  closed : Bool

def Interval.ofParts (p : Parts) : Interval :=
  if p.mant = pow2 52 ∧ -1074 < p.exp then
    ⟨4 * p.mant - 1, 4 * p.mant, 4 * p.mant + 2, p.exp - 2, true⟩
  else
    ⟨2 * p.mant - 1, 2 * p.mant, 2 * p.mant + 1, p.exp - 1, p.mant % 2 = 0⟩

def Interval.binaryScale (i : Interval) (k : Int) : Nat := pow2 i.exp.toNat * pow10 (-k).toNat

def Interval.decimalScale (i : Interval) (k : Int) : Nat := pow10 k.toNat * pow2 (-i.exp).toNat

def Interval.holds (i : Interval) (k : Int) (n : Nat) : Bool :=
  let value := n * i.decimalScale k
  let low := i.low * i.binaryScale k
  let high := i.high * i.binaryScale k
  if i.closed then low ≤ value && value ≤ high else low < value && value < high

/-- The multiple of `10 ^ k` nearest to the double among its two neighbours that round to it; of two
equally near ones the even one. -/
def Interval.onGrid? (i : Interval) (k : Int) : Option Nat :=
  let mid := i.mid * i.binaryScale k
  let unit := i.decimalScale k
  let below := mid / unit
  let twice := 2 * (mid % unit)
  let nearer := if twice < unit || (twice = unit && below % 2 = 0) then below else below + 1
  let farther := if nearer = below then below + 1 else below
  if i.holds k nearer then some nearer else if i.holds k farther then some farther else none

def decimalDigits (n : Nat) : List Char := Nat.toDigits 10 n

/-- The place of the decimal point: the double lies between `10 ^ (point - 1)` and `10 ^ point`. -/
def Interval.point (i : Interval) : Int :=
  (decimalDigits (i.mid * i.binaryScale (-400) / i.decimalScale (-400))).length - 400

def Interval.search (i : Interval) (point : Int) : Nat → Nat → Nat × Int
  | 0, count =>
    (i.mid * i.binaryScale (point - count) / i.decimalScale (point - count), point - count)
  | tries + 1, count =>
    match i.onGrid? (point - count) with
    | some n => (n, point - count)
    | none => i.search point tries (count + 1)

/-- The fewest digits that read back as the double, and the place of the decimal point in them. -/
def shortest (p : Parts) : List Char × Int :=
  let i := Interval.ofParts p
  let (n, k) := i.search i.point 17 1
  let digits := decimalDigits n
  ((digits.reverse.dropWhile (· == '0')).reverse, k + digits.length)

/-- Positional notation covers decimal points from `-3` to `16`, keeps one digit after the point,
and beyond it the exponent has a sign and two digits at least. -/
def layout (digits : List Char) (point : Int) : List Char :=
  if -4 < point ∧ point ≤ 16 then
    if point ≤ 0 then '0' :: '.' :: List.replicate (-point).toNat '0' ++ digits
    else if digits.length ≤ point.toNat then
      digits ++ List.replicate (point.toNat - digits.length) '0' ++ ['.', '0']
    else digits.take point.toNat ++ '.' :: digits.drop point.toNat
  else
    let fraction := if digits.length ≤ 1 then [] else '.' :: digits.drop 1
    let e := point - 1
    let size := decimalDigits e.natAbs
    let padded := if size.length < 2 then '0' :: size else size
    digits.take 1 ++ fraction ++ 'e' :: (if e < 0 then '-' else '+') :: padded

/-- The text of a double: its shortest decimal, a sign also on zero, and words for the rest. -/
def floatText (x : Float) : String :=
  match parts? x with
  | none => if isNaN x then "nan" else if x < 0 then "-inf" else "inf"
  | some p =>
    let size := if p.mant = 0 then "0.0" else String.ofList (layout (shortest p).1 (shortest p).2)
    if p.negative then "-" ++ size else size

end Runbook.Number
