import Runbook.Value.Text

namespace Runbook.Json

def escapeUnit (n : Nat) : List Char := '\\' :: 'u' :: Text.hex 4 n

def escapeChar (c : Char) : List Char :=
  match c with
  | '"' => ['\\', '"']
  | '\\' => ['\\', '\\']
  | '\n' => ['\\', 'n']
  | '\r' => ['\\', 'r']
  | '\t' => ['\\', 't']
  | '\x08' => ['\\', 'b']
  | '\x0c' => ['\\', 'f']
  | c =>
    if ' ' ≤ c ∧ c ≤ '~' then [c]
    else if c.toNat < 0x10000 then escapeUnit c.toNat
    else escapeUnit (0xd800 + (c.toNat - 0x10000) / 0x400) ++
      escapeUnit (0xdc00 + (c.toNat - 0x10000) % 0x400)

def quoted (s : String) : String := String.ofList ('"' :: s.toList.flatMap escapeChar ++ ['"'])

def floatWord (x : Float) : String :=
  if Number.isNaN x then "NaN"
  else if x == Number.infinity false then "Infinity"
  else if x == Number.infinity true then "-Infinity"
  else Number.floatText x

def newline (depth : Nat) : String := String.ofList ('\n' :: List.replicate (2 * depth) ' ')

def enclosed (depth : Nat) (first last : String) (items : List String) : String :=
  if items.isEmpty then first ++ last
  else first ++ newline (depth + 1) ++ ("," ++ newline (depth + 1)).intercalate items ++
    newline depth ++ last

def inOrder (fields : List (String × String)) : List (String × String) :=
  fields.mergeSort fun a b => decide (a.1 ≤ b.1)

mutual

def writeAt (depth : Nat) : Value → Except Number.TooManyDigits String
  | .null => .ok "null"
  | .bool b => .ok (if b then "true" else "false")
  | .number (.int n) => Number.intText n
  | .number (.float x) => .ok (floatWord x)
  | .text s => .ok (quoted s)
  | .list items => do return enclosed depth "[" "]" (← writeItems (depth + 1) items)
  | .map fields => do
    return enclosed depth "\x7b" "\x7d"
      ((inOrder (← writeFields (depth + 1) fields)).map
        fun (name, text) => quoted name ++ ": " ++ text)
  | .pattern p => .ok (quoted ("/" ++ p.source ++ "/"))

def writeItems (depth : Nat) : List Value → Except Number.TooManyDigits (List String)
  | [] => .ok []
  | v :: rest => do return (← writeAt depth v) :: (← writeItems depth rest)

def writeFields (depth : Nat) :
    List (String × Value) → Except Number.TooManyDigits (List (String × String))
  | [] => .ok []
  | (name, v) :: rest => do return (name, ← writeAt depth v) :: (← writeFields depth rest)

end

def write (v : Value) : Except Number.TooManyDigits String := writeAt 0 v

end Runbook.Json
