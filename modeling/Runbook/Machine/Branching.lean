import Runbook.Machine.Action

namespace Runbook.Action

def condAt (p : Program) (place : Nat) : Except Fault (Option Nat × Nat) :=
  match p.outline.block? place with
  | some (.opener (.cond _ orElse) last) => .ok (orElse, last)
  | _ => .error .noBlock

/-- Tries a condition; if it does not hold, the next branch of the block at `place` is tried. -/
def choose (p : Program) (place : Nat) (condition : String) : Action Unit := do
  if ← holds p condition then changeCond fun c => { c with decided := true }
  else
    let f ← expectTop p place
    let (orElse, last) ← orFault (condAt p place)
    match f.body with
    | .cond { left := next :: rest, .. } =>
      changeCond fun c => { c with left := rest }
      branchTo p next
    | _ => branchTo p ((orElse.getD last : Nat) : Int)

def openIf (p : Program) (c : Command) : Action Unit := do
  match ← openerHere p with
  | (place, .cond elseIfs _, _) =>
    push { place := place, body := .cond { left := elseIfs } }
    choose p place c.target
  | _ => fault .noBlock

def condHere (p : Program) : Action (Nat × Cond) := do
  let owner ← ownerHere p
  match (← expectTop p owner).body with
  | .cond c => return (owner, c)
  | _ => fault .noBlock

def skipBranches (p : Program) (owner : Nat) : Action Unit :=
  do branchTo p ((← orFault (lastOf p owner) : Nat) : Int)

def elseIf (p : Program) (c : Command) : Action Unit := do
  let (owner, cond) ← condHere p
  if cond.decided then skipBranches p owner else choose p owner c.target

def orElse (p : Program) : Action Unit := do
  let (owner, cond) ← condHere p
  if cond.decided then skipBranches p owner

def endIf (p : Program) : Action Unit := do
  let _ ← expectTop p (← ownerHere p)
  let _ ← pop

end Runbook.Action
