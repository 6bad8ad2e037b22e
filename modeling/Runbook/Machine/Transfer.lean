import Runbook.Machine.Action

namespace Runbook.Action

/-- What a guard on the way asks of a command: to take the place of what waits there, or to wait. -/
inductive Toll
  | replace
  | finish
  deriving DecidableEq, Repr

inductive Passage
  | free
  | blocked
  | halted (toll : Toll) (above : Nat)
  deriving DecidableEq, Repr

/-- The first guard of a call that asks for something; `above` counts the blocks passed. -/
def passage (p : Program) (ceiling : Bool) : Nat → List Frame → Except Fault Passage
  | _, [] => .ok .free
  | above, f :: rest =>
    if ceiling && f.isLoop then .ok .blocked
    else
      match f.body with
      | .guard g =>
        if g.phase = some .finishing ∧ g.pending.isSome then .ok (.halted .replace above)
        else do
          if ← owesFinally p f then return .halted .finish above
          passage p ceiling (above + 1) rest
      | _ => passage p ceiling (above + 1) rest

/-- Where a command has to stop: the calls and then the blocks above that guard. -/
structure Stop where
  toll : Toll
  calls : Nat
  frames : Nat
  deriving DecidableEq, Repr

def findStop (p : Program) (ceiling : Bool) : Nat → List (List Frame) → Except Fault (Option Stop)
  | _, [] => .ok none
  | calls, blocks :: rest => do
    match ← passage p ceiling 0 blocks with
    | .blocked => return none
    | .halted toll above => return some ⟨toll, calls, above⟩
    | .free => findStop p ceiling (calls + 1) rest

def popCalls (p : Program) : Nat → Action Unit
  | 0 => return
  | n + 1 => do
    let _ ← popCall p
    popCalls p n

def popBlocks : Nat → Action Unit
  | 0 => return
  | n + 1 => do
    let _ ← pop
    popBlocks n

def replacedText (p : Program) (prior : Bubble) (source : Option Int) : String :=
  match prior with
  | .failure cause _ =>
    "Bubbling error: " ++ cause.message ++ ", replaced with command " ++ p.refer source
  | .command earlier _ _ =>
    "Command suspension " ++ p.refer earlier ++ ", replaced with " ++ p.refer source

def supersede (p : Program) (f : Frame) (bubble : Bubble) : Action Unit := do
  changeGuard fun g => { g with pending := some bubble }
  branchTo p ((← orFault (segmentsOf p f.place)).last : Nat)

def suspend (p : Program) (toll : Toll) (source : Option Int) (bubble : Bubble) : Action Unit := do
  match ← blocks with
  | [] => fault .emptyStack
  | f :: _ =>
    match toll with
    | .replace =>
      match f.pending? with
      | some prior => logEvent .warning .bubbling (replacedText p prior source)
      | none => pure ()
      supersede p f bubble
    | .finish =>
      logEvent .warning .bubbling ("Command " ++ p.refer source ++
        ", suspended while finally block runs")
      changeGuard fun g =>
        { g with pending := some bubble, phase := some .finishing, finaled := true }
      branchBack p ((← orFault (segmentsOf p f.place)).finallyAt.map Int.ofNat)

/-- Whether a command has to wait; if so it now waits, and the blocks inside that guard are left. -/
def bubbleCommand (p : Program) (source : Option Int) (ceiling crosses : Bool) : Action Bool := do
  let m ← get
  let levels := if crosses then m.calls.map (·.blocks) else [m.call.blocks]
  match ← orFault (findStop p ceiling 0 levels) with
  | none => return false
  | some stop =>
    popCalls p stop.calls
    popBlocks stop.frames
    suspend p stop.toll source (.command source ceiling crosses)
    return true

def transfer (p : Program) (ceiling crosses : Bool) : Action Bool := do
  bubbleCommand p (← get).here ceiling crosses

end Runbook.Action
