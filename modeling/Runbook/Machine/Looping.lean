import Runbook.Expr.Split
import Runbook.Machine.Transfer
import Runbook.Name

namespace Runbook.Action

def orError {α : Type} : Except Error α → Action α
  | .ok a => return a
  | .error e => throw (.error e)

def require (p : Program) (field text : String) : Action Unit := do
  if field.isEmpty then complain p .engine text

def setCursor (cursor : Cursor) : Action Unit := changeLoop fun l => { l with cursor := cursor }

def loopTop : Action Loop := do
  match ← blocks with
  | { body := .loop l, .. } :: _ => return l
  | _ => fault .noBlock

/-- What a kind of loop does when it starts and in every round: `prepare` tells the local names. -/
structure Rounds where
  prepare : Action (List String)
  start : Action Unit := pure ()
  advance : Action Unit := pure ()
  goesOn : Action Bool

def beginRounds (place : Nat) (kind : LoopKind) (rounds : Rounds) (names : List String) :
    Action Unit := do
  modify fun m => { m with vars := m.vars.declare names }
  rounds.start
  logEvent .info .loop (kind.word ++ " loop begins @" ++ toString (place + 1)) (some names)

def enterLoop (place : Nat) (kind : LoopKind) (rounds : Rounds) : Action Unit := do
  push { place := place, body := .loop { kind := kind } }
  let names ← rounds.prepare
  let saved := (← get).vars.capture names
  change fun f => { f with saved := saved }
  beginRounds place kind rounds names

def isTop (place : Nat) : Action Bool := do
  match ← blocks with
  | f :: _ => return f.place = place
  | [] => return false

def tryRound (p : Program) (rounds : Rounds) (last : Nat) : Action Unit := do
  if !(← rounds.goesOn) then
    changeLoop fun l => { l with complete := true }
    branchTo p (last : Nat)

def openLoop (p : Program) (rounds : Rounds) : Action Unit := do
  let (place, form, last) ← openerHere p
  if ← isTop place then rounds.advance
  else
    match form with
    | .loop kind => enterLoop place kind rounds
    | _ => fault .noBlock
  tryRound p rounds last

def endLoop (p : Program) : Action Unit := do
  let owner ← ownerHere p
  match (← expectTop p owner).body with
  | .loop l =>
    if l.complete then
      let _ ← pop
      logEvent .info .loop (l.kind.word ++ " loop ends @" ++ toString (owner + 1))
    else branchTo p (owner : Nat)
  | _ => fault .noBlock

def conditionRounds (p : Program) (c : Command) : Rounds where
  prepare := do
    require p c.target " 'while' requires a condition expression."
    return []
  goesOn := holds p c.target

def namesAssigned (p : Program) (text : String) : Action (List String) :=
  if p.limits.reads text then
    match assignedNames p.patterns text with
    | .ok names => return names
    | .error (.error message) => throw (.error { kind := .eval, message := message })
    | .error (.foreign f _) => fault f
  else fault .tooDeep

def addNew (names : List String) (more : List String) : List String :=
  more.foldl (fun names name => if names.contains name then names else names ++ [name]) names

def prepareCounter (p : Program) (c : Command) : Action (List String) := do
  require p c.target " 'for' requires: <init-stmt>; <condition>; <iter-stmt>."
  match Split.list ';' c.target with
  | [start, condition, step] =>
    setCursor (.counter start condition step)
    let given ←
      if c.value.isEmpty then pure []
      else do orError (Name.validateAll "variable" (← get).here (Split.list ',' c.value))
    return addNew given (← namesAssigned p start)
  | _ => complain p .engine " 'for' requires <init-stmt>; <condition>; <iter-stmt>."

def counter (key : String) (part : String → String → String → String) : Action String := do
  match (← loopTop).cursor with
  | .counter start condition step => return part start condition step
  | _ => fault (.noSuchKey key)

def counterRounds (p : Program) (c : Command) : Rounds where
  prepare := prepareCounter p c
  start := do let _ ← eval p (← counter "'init'" fun start _ _ => start)
  advance := do let _ ← eval p (← counter "'iter'" fun _ _ step => step)
  goesOn := do holds p (← counter "'cond'" fun _ condition _ => condition)

def itemCount : Value → Except Fault Nat
  | .list items => .ok items.length
  | .text s => .ok s.length
  | .map fields => .ok fields.length
  | .null => .error (.noLength "NoneType")
  | .bool _ => .error (.noLength "bool")
  | .number (.int _) => .error (.noLength "int")
  | .number (.float _) => .error (.noLength "float")
  | .pattern _ => .error (.noLength "re.Pattern")

/-- The item of a value at a place; a map has none, since its keys are texts. -/
def itemAt (v : Value) (i : Nat) : Except Fault Value :=
  match v with
  | .list items => (items[i]?).elim (.error .noSuchItem) .ok
  | .text s => (s.toList[i]?).elim (.error .noSuchItem) fun c => .ok (.text (String.singleton c))
  | _ => .error (.noSuchKey (toString i))

def unfoldItems (v : Value) : Except Fault Value := do
  if (← itemCount v) = 1 then
    match ← itemAt v 0 with
    | .list items => return .list items
    | _ => return v
  else return v

def prepareItems (p : Program) (c : Command) : Action (List String) := do
  require p c.target " 'foreach' requires a variable name."
  require p c.value " 'foreach' requires comma-separated values."
  let _ ← orError (Name.validate "variable" (← get).here c.target)
  let found ← eval p ("[" ++ c.value ++ "]")
  setCursor (.items (← orFault (unfoldItems found)) none)
  return [c.target, "_i"]

def items : Action Value := do
  match (← loopTop).cursor with
  | .items source _ => return source
  | _ => fault (.noSuchKey "'values'")

def itemIndex : Action Nat := do
  match (← loopTop).cursor with
  | .items _ (some i) => return i
  | _ => fault (.noSuchKey "'i'")

def takeItem (c : Command) (i : Nat) : Action Unit := do
  let source ← items
  if i < (← orFault (itemCount source)) then assign [(c.target, ← orFault (itemAt source i))]

def itemRounds (p : Program) (c : Command) : Rounds where
  prepare := prepareItems p c
  start := do
    setCursor (.items (← items) (some 0))
    takeItem c 0
  advance := do
    let i ← itemIndex
    setCursor (.items (← items) (some (i + 1)))
    takeItem c (i + 1)
  goesOn := do
    let i ← itemIndex
    assign [("_i", .int i)]
    return i < (← orFault (itemCount (← items)))

def loadReader (p : Program) (format : Format) (target : String) :
    Action (List String × Reader) := do
  let (result, reader) := (Reader.empty format).load p.limits p.files p.base target
  match result with
  | .ok names => return (names, reader)
  | .error failure => throw failure

def prepareData (p : Program) (format : Format) (c : Command) : Action (List String) := do
  require p c.target (" '" ++ c.baseName ++ "' requires a " ++ format.title ++ " file path.")
  let (result, reader) := (Reader.empty format).load p.limits p.files p.base c.target
  setCursor (.data reader)
  match result with
  | .ok names => return names
  | .error failure => throw failure

def reader : Action Reader := do
  match (← loopTop).cursor with
  | .data r => return r
  | _ => fault (.noSuchKey "'reader'")

def dataRounds (p : Program) (format : Format) (c : Command) : Rounds where
  prepare := prepareData p format c
  goesOn := do
    let r ← reader
    if r.atEnd then return false
    let (varset, after) ← orError r.next
    setCursor (.data after)
    assign varset
    return true

def rounds (p : Program) (c : Command) : LoopKind → Rounds
  | .condition => conditionRounds p c
  | .counter => counterRounds p c
  | .items => itemRounds p c
  | .json => dataRounds p .json c
  | .xml => dataRounds p .xml c

def unwindToLoop (p : Program) : Action (Option Frame) := do
  match ← unwind (fun f => .ok f.isLoop) with
  | some f => return some f
  | none => complain p .scope ", is not valid outside of an active loop"

def leaveRound (p : Program) : Action (Option Frame) := do
  if ← transfer p true false then return none
  unwindToLoop p

/-- Leaves what is inside the innermost loop, unless the command's condition fails or the command
has to wait. -/
def dropToLoop (p : Program) (c : Command) (resuming : Bool) : Action (Option Frame) := do
  if resuming then unwindToLoop p
  else if c.target.isEmpty then leaveRound p
  else if ← holds p c.target then leaveRound p
  else return none

def again (p : Program) (c : Command) (resuming : Bool) : Action Unit := do
  match ← dropToLoop p c resuming with
  | some f => branchTo p (f.place : Nat)
  | none => return

def leave (p : Program) (c : Command) (resuming : Bool) : Action Unit := do
  match ← dropToLoop p c resuming with
  | some f =>
    changeLoop fun l => { l with complete := true }
    branchTo p ((← orFault (lastOf p f.place) : Nat) : Int)
  | none => return

end Runbook.Action
