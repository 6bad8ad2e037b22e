import Runbook.Machine.Transfer
import Runbook.Text.Search

namespace Runbook.Action

def targetAt (p : Program) (place : Nat) : String :=
  ((p.commands[place]?).map Command.target).getD ""

def logDepth (sign : String) : Action Unit := do
  logEvent .info .guard (sign ++ " try nesting: " ++ toString (← get).guardDepth)

def filterText (filter : String) : String := if filter.isEmpty then "ANY" else filter

def startTrying : Action Unit := do
  changeGuard fun g => { g with phase := some .trying }
  logDepth "++"

def openTry (p : Program) (c : Command) : Action Unit := do
  let here := (← get).here
  match blockAt? p here with
  | none => fault .noBlock
  | some block =>
    push { place := (here.getD 0).toNat, body := .guard { name := c.target } }
    match block with
    | .opener (.guard _ none none) _ =>
      logEvent .warning .guard (p.refer here ++
        " does not have a catch-block nor a finally-block, and therefore serves no purpose")
    | .opener (.guard _ catchAt _) _ =>
      match catchAt with
      | some place =>
        logEvent .info .guard (c.target ++ " catchable: " ++ filterText (targetAt p place))
      | none => pure ()
      startTrying
    | _ => fault .noBlock

def guardHere (p : Program) : Action (Nat × Guard) := do
  let f ← expectTop p (← ownerHere p)
  match f.body with
  | .guard g => return (f.place, g)
  | _ => fault .noBlock

def openCatch (p : Program) : Action Unit := do
  let (place, g) ← guardHere p
  if g.phase ≠ some .catching then
    let s ← orFault (segmentsOf p place)
    branchTo p ((s.finallyAt.getD s.last : Nat) : Int)

def openFinally (p : Program) : Action Unit := do
  let (_, g) ← guardHere p
  if g.phase.isSome ∧ ¬ g.finaled then
    changeGuard fun g => { g with phase := some .finishing, finaled := true }
  logEvent .info .guard "entering finally block"

/-- What waited on a guard goes on once the guard is left. -/
def release (p : Program) : Bubble → Action Unit
  | .failure cause _ => do
    logEvent .info .bubbling "error-bubbling continuing..."
    throw cause
  | .command source ceiling crosses => do
    if ← bubbleCommand p source ceiling crosses then return
    logEvent .info .bubbling
      ("command-bubbling complete - suspended command executing now " ++ p.refer source)
    modify fun m => { m with resume := source }
    branchBack p source

def closeGuard (p : Program) (g : Guard) : Action Unit := do
  logEvent .info .guard ("end of try '" ++ g.name ++ "'")
  match g.pending with
  | none => return
  | some bubble => release p bubble

def endTry (p : Program) : Action Unit := do
  let _ ← expectTop p (← ownerHere p)
  let f ← pop
  match f.body with
  | .guard g =>
    if g.phase.isSome then logDepth "--"
    closeGuard p g
  | _ => fault .noBlock

/-- Leaves blocks, and then calls, until the innermost block is wanted. `outer` are the calls
around. -/
def unwindCalls (p : Program) (wanted : Frame → Except Fault Bool) :
    List Call → Action (Option Frame)
  | [] => unwind wanted
  | _ :: outer => do
    match ← unwind wanted with
    | some f => return some f
    | none =>
      let left ← popCall p
      logEvent .info .bubbling ("function '" ++ left.name ++ "' aborting due to error")
      unwindCalls p wanted outer

/-- Whether a filter takes a failure: an empty one takes all, a pattern by search, else a text it
has to hold. -/
def catches (p : Program) (cause : Failure) (filter : String) : Action Bool := do
  if filter.isEmpty then return true
  match ← eval p filter with
  | .pattern pattern => return p.patterns.finds pattern cause.message
  | v => return Text.occursIn (← textOf p v).toList cause.message.toList

def enterCatch (p : Program) (cause : Failure) (source : Int) (place : Nat) : Action Bool := do
  logEvent .info .bubbling ("@" ++ toString (source + 1) ++ ", error has been caught :: " ++
    cause.message)
  changeGuard fun g => { g with caught := true, phase := some .catching, pending := none }
  branchTo p (place : Nat)
  return true

/-- Takes a failure to the catching segment of the innermost guard if it has one left that takes
it. -/
def tryCatch (p : Program) (cause : Failure) (source : Int) (f : Frame) : Action Bool := do
  if ← orFault (owesCatch p f) then
    match (← orFault (segmentsOf p f.place)).catchAt with
    | none => return false
    | some place =>
      if ← catches p cause (targetAt p place) then enterCatch p cause source place else return false
  else return false

/-- Makes a failure wait on the innermost guard if its last segment is still to run. -/
def tryFinally (p : Program) (cause : Failure) (source : Int) (f : Frame) : Action Bool := do
  if ← orFault (owesFinally p f) then
    logEvent .warning .bubbling ("Bubbling suspended while finally block runs :: " ++ cause.message)
    changeGuard fun g =>
      { g with pending := some (.failure cause source), phase := some .finishing, finaled := true }
    branchBack p ((← orFault (segmentsOf p f.place)).finallyAt.map Int.ofNat)
    return true
  else return false

/-- Offers a failure to the open blocks of the active call in turn; blocks that do not take it are
left. -/
def offer (p : Program) (cause : Failure) (source : Int) : List Frame → Action Bool
  | [] => return false
  | f :: rest => do
    if ← tryCatch p cause source f then return true
    if ← tryFinally p cause source f then return true
    let _ ← pop
    offer p cause source rest

/-- The same for the calls around, each of which is left if none of its blocks takes the failure. -/
def offerCalls (p : Program) (cause : Failure) (source : Int) : List Call → Action Bool
  | [] => do offer p cause source (← blocks)
  | _ :: outer => do
    if ← offer p cause source (← blocks) then return true
    let left ← popCall p
    logEvent .info .bubbling ("function '" ++ left.name ++ "' aborting due to error")
    offerCalls p cause source outer

def isSpent (p : Program) (f : Frame) : Except Fault Bool :=
  match f.body with
  | .guard g => if g.phase = some .trying then .ok false else do return !(← owesFinally p f)
  | _ => .ok false

def phaseText (f : Frame) : String :=
  match f.body with
  | .guard g => (g.phase.map Phase.name).getD "None"
  | _ => "None"

/-- Makes a failure wait on the innermost guard, which has nothing more to run. -/
def giveUp (p : Program) (cause : Failure) (source : Int) (f : Frame) : Action Bool := do
  logEvent .warning .bubbling ("No unspent finally block, ending this try section :: " ++
    cause.message)
  changeGuard fun g => { g with pending := some (.failure cause source) }
  branchTo p ((← orFault (lastOf p f.place) : Nat) : Int)
  return true

def offerAll (p : Program) (cause : Failure) (source : Int) : Action Bool := do
  if ← offerCalls p cause source (← get).outer then return true
  logEvent .error .bubbling ("Error was not caught: " ++ cause.message)
  return false

def settle (p : Program) (cause : Failure) (source : Int) : Option Frame → Action Bool
  | none => return false
  | some f => do
    logEvent .info .bubbling ("Bubbling begins: try @" ++ toString (f.place + 1) ++ ", " ++
      phaseText f)
    if ← orFault (isSpent p f) then giveUp p cause source f else offerAll p cause source

/-- Takes a failure to a segment that catches it or has to run first; tells whether there was
one. -/
def route (p : Program) (failure : Failure) : Action Bool := do
  let m ← get
  let cause := failure.locate m.here
  if cause.isFatal then
    logEvent .error .error ("fatal: " ++ cause.message)
    return false
  if !m.isGuarded then return false
  settle p cause (m.here.getD (-1)) (← unwindCalls p (fun f => .ok f.intercepts) m.outer)

end Runbook.Action
