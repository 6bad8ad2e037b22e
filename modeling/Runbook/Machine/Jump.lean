import Runbook.Machine.Action
import Runbook.Outline.Region

namespace Runbook.Action

def jumpText (source dest : Option Region) : String :=
  " Attempt to jump" ++
  (match source with
   | some r => " out of " ++ r.title ++ r.spanText
   | none => "") ++
  (match dest with
   | some r => " into " ++ r.title ++ r.spanText
   | none => "") ++
  ". You cannot jump into, or out of: loops, functions, or try blocks."

def checkJump (p : Program) (source dest : Int) : Action Unit :=
  if p.outline.region? source = p.outline.region? dest then return
  else complain p .jump (jumpText (p.outline.region? source) (p.outline.region? dest))

def holdsDest (p : Program) (place : Nat) (dest : Int) : Except Fault Bool :=
  match p.outline.block? place with
  | some (.opener _ last) => .ok (place < dest ∧ dest ≤ last)
  | some (.partner _) => if place < dest then .error .noBlock else .ok false
  | none => .error .noBlock

/-- Leaves the conditions around the current command that do not hold the destination. -/
def leaveConds (p : Program) (dest : Int) : List Frame → Action Unit
  | [] => return
  | f :: rest =>
    match f.body with
    | .cond _ => do
      if ← orFault (holdsDest p f.place dest) then return
      let _ ← pop
      leaveConds p dest rest
    | _ => return

def jump (p : Program) (dest : Int) : Action Unit := do
  match (← get).here with
  | none => fault .noPlace
  | some here =>
    checkJump p here dest
    leaveConds p dest (← blocks)
    branchTo p dest

def goto (p : Program) (label : String) : Action Unit :=
  match p.outline.symbols.get? label with
  | none => complain p .undefined (" Target label '" ++ label ++ "' is not found.")
  | some place => jump p place

def gotoIf (p : Program) (c : Command) : Action Unit := do
  if ← holds p c.target then goto p c.value

def wholeNumber? : Value → Option Int
  | .number (.int n) => some n
  | .number (.float x) => Number.truncate? x
  | .text s => Number.readInt? s.toList
  | _ => none

def isFraction (v : Value) (n : Int) : Bool :=
  match v with
  | .number (.float x) => Number.toInt? x ≠ some n
  | _ => false

def skipCount (p : Program) (text : String) : Action Nat := do
  let text := Text.strip text
  if text.isEmpty then return 1
  let v ← eval p text
  match wholeNumber? v with
  | none => complain p .eval " Requires a numeric value"
  | some n =>
    if isFraction v n then complain p .eval " Requires a whole number"
    if n < 0 then complain p .eval " Requires a number >= 0"
    return n.toNat

def skipNext (p : Program) (c : Command) : Action Unit := do
  let n ← skipCount p c.target
  if n ≠ 0 then
    match (← get).here with
    | none => fault .notNumeric
    | some here => jump p (here + n + 1)

end Runbook.Action
