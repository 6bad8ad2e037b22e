import Runbook.Number.Literal
import Runbook.Value.Basic

namespace Runbook.Json

inductive Problem
  | byteOrderMark
  | noValue
  | noName
  | noColon
  | noComma
  | extraData
  | unterminated
  | controlCharacter
  | badEscape
  | badUnicodeEscape
  deriving DecidableEq, Repr

def Problem.text : Problem → String
  | byteOrderMark => "Unexpected UTF-8 BOM (decode using utf-8-sig)"
  | noValue => "Expecting value"
  | noName => "Expecting property name enclosed in double quotes"
  | noColon => "Expecting ':' delimiter"
  | noComma => "Expecting ',' delimiter"
  | extraData => "Extra data"
  | unterminated => "Unterminated string starting at"
  | controlCharacter => "Invalid control character at"
  | badEscape => "Invalid \\escape"
  | badUnicodeEscape => "Invalid \\uXXXX escape"

inductive Failure
  | malformed (problem : Problem) (rest : List Char)
  | tooManyDigits
  deriving DecidableEq, Repr

def isSpace (c : Char) : Bool := c = ' ' || c = '\t' || c = '\n' || c = '\r'

def skip (cs : List Char) : List Char := cs.dropWhile isSpace

def hexUnit? (a b c d : Char) : Option Nat := do
  return (((← Text.hexValue? a) * 16 + (← Text.hexValue? b)) * 16 + (← Text.hexValue? c)) * 16 +
    (← Text.hexValue? d)

def escaped? : Char → Option Char
  | '"' => some '"'
  | '\\' => some '\\'
  | '/' => some '/'
  | 'b' => some '\x08'
  | 'f' => some '\x0c'
  | 'n' => some '\n'
  | 'r' => some '\r'
  | 't' => some '\t'
  | _ => none

/-- The code units of a string up to its closing quote, and the text after it. -/
def units (opening : List Char) : List Char → Except Failure (List Nat × List Char)
  | [] => .error (.malformed .unterminated opening)
  | ['\\'] => .error (.malformed .unterminated opening)
  | '"' :: rest => .ok ([], rest)
  | '\\' :: 'u' :: a :: b :: c :: d :: rest =>
    match hexUnit? a b c d with
    | some n =>
      if rest.isEmpty then .error (.malformed .badUnicodeEscape ('u' :: a :: b :: c :: d :: rest))
      else (units opening rest).map fun (ns, after) => (n :: ns, after)
    | none => .error (.malformed .badUnicodeEscape ('u' :: a :: b :: c :: d :: rest))
  | '\\' :: 'u' :: rest => .error (.malformed .badUnicodeEscape ('u' :: rest))
  | '\\' :: c :: rest =>
    match escaped? c with
    | some d => (units opening rest).map fun (ns, after) => (d.toNat :: ns, after)
    | none => .error (.malformed .badEscape ('\\' :: c :: rest))
  | c :: rest =>
    if c.toNat < 32 then .error (.malformed .controlCharacter (c :: rest))
    else (units opening rest).map fun (ns, after) => (c.toNat :: ns, after)

def isHigh (n : Nat) : Bool := 0xd800 ≤ n && n < 0xdc00

def isLow (n : Nat) : Bool := 0xdc00 ≤ n && n < 0xe000

def unitChar (n : Nat) : Char := if isHigh n || isLow n then '\ufffd' else Char.ofNat n

def joined : List Nat → List Char
  | [] => []
  | [n] => [unitChar n]
  | n :: m :: rest =>
    if isHigh n && isLow m then
      Char.ofNat (0x10000 + (n - 0xd800) * 0x400 + (m - 0xdc00)) :: joined rest
    else unitChar n :: joined (m :: rest)

def string (rest : List Char) : Except Failure (String × List Char) :=
  (units ('"' :: rest) rest).map fun (ns, after) => (String.ofList (joined ns), after)

def digits (cs : List Char) : List Char × List Char := cs.span Char.isDigit

def whole : List Char → List Char × List Char
  | '0' :: rest => (['0'], rest)
  | cs => digits cs

def fraction : List Char → List Char × List Char
  | '.' :: rest =>
    match digits rest with
    | ([], _) => ([], '.' :: rest)
    | found => found
  | cs => ([], cs)

def exponent? : List Char → Option (Int × List Char)
  | c :: rest =>
    if c = 'e' ∨ c = 'E' then
      let (negative, body) := Number.splitSign rest
      match digits body with
      | ([], _) => none
      | (ds, after) =>
        let n : Nat := Text.digitsValue ds
        some (if negative then -(n : Int) else n, after)
    else none
  | [] => none

def integer (negative : Bool) (ds : List Char) : Except Failure Value :=
  match Number.natural ds with
  | .ok n => .ok (.int (if negative then -(n : Int) else n))
  | .error _ => .error .tooManyDigits

def unsigned (start : List Char) (negative : Bool) (cs : List Char) :
    Except Failure (Value × List Char) :=
  match whole cs with
  | ([], _) => .error (.malformed .noValue start)
  | (ds, afterWhole) =>
    let (fs, afterFraction) := fraction afterWhole
    match fs, exponent? afterFraction with
    | [], none => (integer negative ds).map fun v => (v, afterWhole)
    | fs, none => .ok (.float (Number.ofDigits negative ds fs 0), afterFraction)
    | fs, some (e, after) => .ok (.float (Number.ofDigits negative ds fs e), after)

def number : List Char → Except Failure (Value × List Char)
  | '-' :: rest => unsigned ('-' :: rest) true rest
  | cs => unsigned cs false cs

def words : List (List Char × Value) :=
  [("null".toList, .null), ("true".toList, .bool true), ("false".toList, .bool false),
   ("NaN".toList, .float (0.0 / 0.0)), ("Infinity".toList, .float (Number.infinity false)),
   ("-Infinity".toList, .float (Number.infinity true))]

def word? (cs : List Char) : Option (Value × List Char) :=
  (words.find? (·.1.isPrefixOf cs)).map fun (w, v) => (v, cs.drop w.length)

def scalar (cs : List Char) : Except Failure (Value × List Char) :=
  match word? cs with
  | some found => .ok found
  | none => number cs

mutual

def value : Nat → List Char → Except Failure (Value × List Char)
  | 0, cs => .error (.malformed .noValue cs)
  | _ + 1, '"' :: rest =>
    (string rest).map fun (s, after) => (.text s, after)
  | fuel + 1, '\x7b' :: rest =>
    match skip rest with
    | '\x7d' :: after => .ok (.map [], after)
    | inside =>
      (members fuel inside).map fun (fields, after) => (.map (Record.ofEntries fields), after)
  | fuel + 1, '[' :: rest =>
    match skip rest with
    | ']' :: after => .ok (.list [], after)
    | inside => (elements fuel inside).map fun (items, after) => (.list items, after)
  | _ + 1, cs => scalar cs

def members : Nat → List Char → Except Failure (List (String × Value) × List Char)
  | fuel + 1, '"' :: rest => do
    let (name, afterName) ← string rest
    match skip afterName with
    | ':' :: afterColon =>
      let (v, afterValue) ← value fuel (skip afterColon)
      match skip afterValue with
      | '\x7d' :: after => return ([(name, v)], after)
      | ',' :: more =>
        let (fields, after) ← members fuel (skip more)
        return ((name, v) :: fields, after)
      | other => .error (.malformed .noComma other)
    | other => .error (.malformed .noColon other)
  | _, cs => .error (.malformed .noName cs)

def elements : Nat → List Char → Except Failure (List Value × List Char)
  | 0, cs => .error (.malformed .noValue cs)
  | fuel + 1, cs => do
    let (v, afterValue) ← value fuel cs
    match skip afterValue with
    | ']' :: after => return ([v], after)
    | ',' :: more =>
      let (items, after) ← elements fuel (skip more)
      return (v :: items, after)
    | other => .error (.malformed .noComma other)

end

def read (text : List Char) : Except Failure Value :=
  if text.head? = some '\ufeff' then .error (.malformed .byteOrderMark text)
  else do
    let (v, rest) ← value (text.length + 1) (skip text)
    match skip rest with
    | [] => return v
    | extra => .error (.malformed .extraData extra)

def place (text rest : List Char) : String :=
  let before := text.take (text.length - rest.length)
  let line := before.count '\n' + 1
  let column := (before.reverse.takeWhile (· ≠ '\n')).length + 1
  "line " ++ toString line ++ " column " ++ toString column ++ " (char " ++
    toString before.length ++ ")"

def message (text : List Char) (problem : Problem) (rest : List Char) : String :=
  problem.text ++ ": " ++ place text rest

end Runbook.Json
