import Runbook.Env
import Runbook.Limits

namespace Runbook.Placeholder

def isStart (c : Char) : Bool := c.isAlpha || c = '_'

def isInner (c : Char) : Bool := c.isAlphanum || c = '_'

def name? : List Char → Option (List Char)
  | '$' :: '\x7b' :: rest =>
    match rest.span isInner with
    | (c :: cs, '\x7d' :: _) => if isStart c then some (c :: cs) else none
    | _ => none
  | _ => none

def found? (env : Env) (cs : List Char) : Option (Value × Nat) := do
  let name ← name? cs
  return (← env.get? (String.ofList name), name.length + 3)

/-- Puts in the values; the first `skip` characters belong to a placeholder that is done. -/
def fillFrom (limits : Limits) (env : Env) : Nat → List Char → Except Fault (List Char)
  | _, [] => .ok []
  | skip + 1, _ :: rest => fillFrom limits env skip rest
  | 0, c :: rest =>
    match found? env (c :: rest) with
    | some (v, size) =>
      do return (← limits.spell v).toList ++ (← fillFrom limits env (size - 1) rest)
    | none => (fillFrom limits env 0 rest).map (c :: ·)

def fill (limits : Limits) (env : Env) (text : String) : Except Fault String :=
  (fillFrom limits env 0 text.toList).map String.ofList

end Runbook.Placeholder
