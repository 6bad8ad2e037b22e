import Runbook.Number.Nearest
import Runbook.Text.Blank
import Runbook.Text.Digit

namespace Runbook.Number

/-- The most digits that a whole number may have when it is read or written. -/
def digitLimit : Nat := 4300

/-- A whole number beyond the digit limit; `digits` is their count when it was read. -/
structure TooManyDigits where
  digits : Option Nat
  deriving DecidableEq, Repr

def TooManyDigits.message (e : TooManyDigits) : String :=
  "Exceeds the limit (4300 digits) for integer string conversion" ++
    (match e.digits with
     | some count => ": value has " ++ toString count ++ " digits"
     | none => "") ++
    "; use sys.set_int_max_str_digits() to increase the limit"

def intText (n : Int) : Except TooManyDigits String :=
  if n.natAbs < pow10 digitLimit then .ok (toString n) else .error ⟨none⟩

def natural (digits : List Char) : Except TooManyDigits Nat :=
  if digits.length ≤ digitLimit then .ok (Text.digitsValue digits) else .error ⟨some digits.length⟩

/-- The double nearest to `± mant * 10 ^ e`, where `mant` has about `size` digits. Beyond the range
of doubles it is infinite or zero. -/
def ofDecimal (negative : Bool) (mant size : Nat) (e : Int) : Float :=
  if mant = 0 ∨ size + e < -400 then signed negative 0
  else if 400 < e then infinity negative
  else if 0 ≤ e then (nearest? negative (mant * pow10 e.toNat) 1).getD (infinity negative)
  else (nearest? negative mant (pow10 (-e).toNat)).getD (infinity negative)

def ofDigits (negative : Bool) (whole fraction : List Char) (e : Int) : Float :=
  ofDecimal negative (Text.digitsValue (whole ++ fraction)) (whole.length + fraction.length)
    (e - fraction.length)

/-- Digits with single underscores between them, and what follows; `inside` when a digit came just
before. -/
def groupedFrom (inside : Bool) : List Char → List Char × List Char
  | [] => ([], [])
  | c :: rest =>
    if Text.isDigit c then
      let (digits, after) := groupedFrom true rest
      (c :: digits, after)
    else if c == '_' && inside && rest.head?.any Text.isDigit then groupedFrom false rest
    else ([], c :: rest)

def grouped (cs : List Char) : List Char × List Char := groupedFrom false cs

def splitSign : List Char → Bool × List Char
  | '-' :: rest => (true, rest)
  | '+' :: rest => (false, rest)
  | rest => (false, rest)

/-- A whole number in free form: blanks around it, a sign, underscores between digits. -/
def readInt? (cs : List Char) : Option Int :=
  let (negative, body) := splitSign (Text.trim cs)
  match grouped body with
  | ([], _) => none
  | (digits, []) =>
    if digits.length ≤ digitLimit then
      let n : Nat := Text.digitsValue digits
      some (if negative then -(n : Int) else n)
    else none
  | _ => none

def readExponent? : List Char → Option Int
  | [] => some 0
  | c :: rest =>
    if c == 'e' || c == 'E' then
      let (negative, body) := splitSign rest
      match grouped body with
      | ([], _) => none
      | (digits, []) =>
        let n : Nat := Text.digitsValue digits
        some (if negative then -(n : Int) else n)
      | _ => none
    else none

/-- A decimal in free form, or one of the words for what is infinite or not a number. -/
def readFloat? (cs : List Char) : Option Float :=
  let (negative, body) := splitSign (Text.trim cs)
  let word := String.ofList (body.map Char.toLower)
  if word = "inf" ∨ word = "infinity" then some (infinity negative)
  else if word = "nan" then some (0.0 / 0.0)
  else
    let (whole, rest) := grouped body
    let (fraction, after) :=
      match rest with
      | '.' :: more => grouped more
      | _ => ([], rest)
    if whole.isEmpty && fraction.isEmpty then none
    else (readExponent? after).map (ofDigits negative whole fraction)

end Runbook.Number
