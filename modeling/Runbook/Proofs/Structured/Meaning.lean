import Runbook.Host.Run

/-!
Scripts as trees of blocks, and what a tree means without a machine: a part of a tree runs to one
completion, which is ordinary or tells how the part is left. Only single commands and expressions
are taken over from the machine, as what they do to the variables.
-/

namespace Runbook

/-- A script as a tree of its blocks. A block holds what stands behind it as `rest`. The branches of
a condition behind the first are `others`; the segments of a guard are each a `segment`, or nothing
if they are missing. -/
inductive Tree
  | done
  | single (place : Nat) (c : Command) (rest : Tree)
  | cond (place : Nat) (c : Command) (body others rest : Tree)
  | branch (place : Nat) (c : Command) (body others : Tree)
  | loop (place : Nat) (kind : LoopKind) (c : Command) (body rest : Tree)
  | guard (place : Nat) (body handler last rest : Tree)
  | segment (place : Nat) (c : Command) (body : Tree)
  | function (place : Nat) (name : String) (body rest : Tree)

/-- What a name stands for: a place and, for a function, its text. -/
structure Declaration where
  place : Nat
  text : Option Tree

/-- The names that a script declares, in order: those of functions and of labels. -/
def Tree.declared : Tree → List (String × Declaration)
  | .done => []
  | .single place c rest =>
    (if c.verb? = some .label then [(c.target, ⟨place, none⟩)] else []) ++ rest.declared
  | .cond _ _ body others rest => body.declared ++ others.declared ++ rest.declared
  | .branch _ _ body others => body.declared ++ others.declared
  | .loop _ _ _ body rest => body.declared ++ rest.declared
  | .guard _ body handler last rest =>
    body.declared ++ handler.declared ++ last.declared ++ rest.declared
  | .segment _ _ body => body.declared
  | .function place name body rest => (name, ⟨place, some body⟩) :: (body.declared ++ rest.declared)

def Tree.function? (t : Tree) (name : String) : Option Tree :=
  (Record.get? (Record.ofEntries t.declared) name).bind Declaration.text

def Tree.filter? : Tree → Option String
  | .segment _ c _ => some c.target
  | _ => none

/-- How a command leaves what is around it: a round, a loop, a call, or the run. -/
inductive Jump
  | again
  | leave
  | back
  | exit
  deriving DecidableEq, Repr

/-- How a part of a script completes. An error that is fatal, or a fault, ends the run at once. -/
inductive Completion
  | normal
  | jump (j : Jump)
  | failed (e : Error)
  | aborted (ending : Ending)
  deriving DecidableEq, Repr

/-- What a part of a script works on: the variables and the lines shown. -/
structure World where
  vars : Env := []
  lines : Array String := #[]

abbrev Result := Option (Completion × World)

def Completion.raise (place : Nat) : Failure → Completion
  | .error e =>
    let e := e.locate (some place)
    if e.kind.isFatal then .aborted (.outcome (.failed e)) else .failed e
  | .fault f => .aborted (.broken f)

def Result.andThen (r : Result) (rest : World → Result) : Result :=
  match r with
  | some (.normal, w) => rest w
  | r => r

/-- Makes a name what it was before: it has its old value again, or none if it had none. -/
def Env.reset (before env : Env) (name : String) : Env :=
  match before.get? name with
  | some v => env.set name v
  | none => env.erase name

def Env.putBack (env : Env) (names : List String) (before : Env) : Env :=
  names.foldl before.reset env

/-- However a part completes, these names are what they were before it. -/
def Result.restoring (r : Result) (names : List String) (before : Env) : Result :=
  r.map fun (c, w) => (c, { w with vars := w.vars.putBack names before })

def effect {α : Type} (a : Action α) (place : Int) (vars : Env) : Except Failure α × Env :=
  let (r, m) := a.run.run { vars := vars, here := some place }
  (r, m.vars)

def World.act {α : Type} (w : World) (place : Nat) (a : Action α) (rest : α → World → Result) :
    Result :=
  match effect a place w.vars with
  | (.ok x, vars) => rest x { w with vars := vars }
  | (.error f, vars) => some (.raise place f, { w with vars := vars })

namespace Loop

open Runbook.Action

def givenNames (c : Command) : Action (List String) :=
  if c.value.isEmpty then pure []
  else do orError (Name.validateAll "variable" (← get).here (Split.list ',' c.value))

def itemName (c : Command) : Action String :=
  do orError (Name.validate "variable" (← get).here c.target)

def plan (p : Program) (c : Command) : LoopKind → Action (List String × Cursor)
  | .condition => do
    require p c.target " 'while' requires a condition expression."
    return ([], .unset)
  | .counter => do
    require p c.target " 'for' requires: <init-stmt>; <condition>; <iter-stmt>."
    match Split.list ';' c.target with
    | [start, condition, step] =>
      return (addNew (← givenNames c) (← namesAssigned p start), .counter start condition step)
    | _ => complain p .engine " 'for' requires <init-stmt>; <condition>; <iter-stmt>."
  | .items => do
    require p c.target " 'foreach' requires a variable name."
    require p c.value " 'foreach' requires comma-separated values."
    let _ ← itemName c
    let found ← eval p ("[" ++ c.value ++ "]")
    return ([c.target, "_i"], .items (← orFault (unfoldItems found)) none)
  | .json => file .json
  | .xml => file .xml
where
  file (format : Format) : Action (List String × Cursor) := do
    require p c.target (" '" ++ c.baseName ++ "' requires a " ++ format.title ++ " file path.")
    let (names, reader) ← loadReader p format c.target
    return (names, .data reader)

def take (c : Command) (source : Value) (i : Nat) : Action Unit := do
  if i < (← orFault (itemCount source)) then assign [(c.target, ← orFault (itemAt source i))]

def start (p : Program) (c : Command) : Cursor → Action Cursor
  | .counter start condition step => do
    let _ ← eval p start
    return .counter start condition step
  | .items source _ => do
    take c source 0
    return .items source (some 0)
  | cursor => return cursor

def advance (p : Program) (c : Command) : Cursor → Action Cursor
  | .counter start condition step => do
    let _ ← eval p step
    return .counter start condition step
  | .items source (some i) => do
    take c source (i + 1)
    return .items source (some (i + 1))
  | cursor => return cursor

def goesOn (p : Program) (c : Command) : Cursor → Action (Bool × Cursor)
  | .unset => return (← holds p c.target, .unset)
  | .counter start condition step => return (← holds p condition, .counter start condition step)
  | .items source i => do
    assign [("_i", .int (i.getD 0))]
    return (i.getD 0 < (← orFault (itemCount source)), .items source i)
  | .data r => do
    if r.atEnd then return (false, .data r)
    let (varset, after) ← orError r.next
    assign varset
    return (true, .data after)

def rounds (p : Program) (place : Nat) (c : Command) (body : World → Result) :
    Nat → Cursor → World → Result
  | 0, _, _ => none
  | fuel + 1, cursor, w =>
    w.act place (goesOn p c cursor) fun (more, cursor) w =>
      if more then
        match body w with
        | some (.normal, w) | some (.jump .again, w) =>
          w.act place (advance p c cursor) fun cursor w => rounds p place c body fuel cursor w
        | some (.jump .leave, w) => some (.normal, w)
        | r => r
      else some (.normal, w)

/-- The local names get their old values back on every exit. -/
def run (p : Program) (place : Nat) (kind : LoopKind) (c : Command) (body : World → Result)
    (fuel : Nat) (w : World) : Result :=
  w.act place (plan p c kind) fun (names, cursor) w =>
    Result.restoring
      (World.act { w with vars := w.vars.declare names } place (start p c cursor) fun cursor w =>
        rounds p place c body fuel cursor w)
      names w.vars

end Loop

def literal? (patterns : Matcher) (filter : String) : Option Value :=
  if Text.isBlankText filter then none
  else
    match Statement.readNamed patterns filter with
    | .ok ⟨.text s, []⟩ => some (.text s)
    | .ok ⟨.pattern q, []⟩ => some (.pattern q)
    | _ => none

def IsLiteral (patterns : Matcher) (filter : String) : Prop :=
  filter = "" ∨ (literal? patterns filter).isSome = true

def takes (patterns : Matcher) (filter message : String) : Bool :=
  filter.isEmpty ||
    match literal? patterns filter with
    | some (.text s) => Text.occursIn s.toList message.toList
    | some (.pattern q) => patterns.finds q message
    | _ => false

def Result.catching (r : Result) (patterns : Matcher) (filter : Option String)
    (handler : World → Result) : Result :=
  match r, filter with
  | some (.failed e, w), some filter => if takes patterns filter e.message then handler w else r
  | r, _ => r

def Result.keeping (r : Result) (c : Completion) : Result :=
  match r with
  | some (.normal, w) => some (c, w)
  | r => r

/-- The last segment always runs; how it completes replaces how the part completed, unless it
completes normally. -/
def Result.finishing (r : Result) (last : World → Result) : Result :=
  match r with
  | none => none
  | some (.aborted ending, w) => some (.aborted ending, w)
  | some (c, w) => (last w).keeping c

def Completion.called : Completion → Completion
  | .jump .back => .normal
  | c => c

namespace Tree

open Runbook.Action

/-- A call of a function, the text of which `body` runs. The arguments get their old values back on
every exit. -/
def call (p : Program) (place : Nat) (c : Command) (callee : Option (World → Result)) (w : World) :
    Result :=
  match callee with
  | none =>
    w.act place (complain p .undefined (" Function does not exist: " ++ c.target ++ ".") :
      Action Unit) fun _ w =>
      some (.normal, w)
  | some body =>
    w.act place (arguments p c.value) fun args w =>
      Result.restoring ((body { w with vars := w.vars.assign args }).map fun (c, w) =>
        (c.called, w)) args.names w.vars

def applies (p : Program) (c : Command) : Action Bool :=
  if c.target.isEmpty then pure true else holds p c.target

def jump (p : Program) (place : Nat) (c : Command) (j : Jump) (w : World) : Result :=
  w.act place (applies p c) fun does w => some (if does then .jump j else .normal, w)

def command (p : Program) (place : Nat) (c : Command) (callee : Option (World → Result))
    (w : World) : Result :=
  match c.verb? with
  | none =>
    if c.executable then
      w.act place (Host.perform p c) fun shown w =>
        some (.normal, { w with lines := w.lines ++ shown.toArray })
    else some (.normal, w)
  | some .label => some (.normal, w)
  | some (.load .json) => w.act place (loadVars p .json c) fun _ w => some (.normal, w)
  | some (.load _) => w.act place (loadVars p .xml c) fun _ w => some (.normal, w)
  | some .again => jump p place c .again w
  | some .leave => jump p place c .leave w
  | some .call => call p place c callee w
  | some .giveBack =>
    if c.target.isEmpty then some (.jump .back, w)
    else w.act place (eval p c.target) fun v w =>
      some (.jump .back, { w with vars := w.vars.assign [("_result", v)] })
  | some .exitTest => some (.jump .exit, w)
  | some _ => none

def chosen (p : Program) (c : Command) : Action Bool :=
  if c.verb? = some .orElse then return true else holds p c.target

/-- Runs a tree; `callee` runs the functions it calls, and a loop has `fuel` rounds. -/
def runWith (p : Program) (callee : String → Option (World → Result)) (fuel : Nat) :
    Tree → World → Result
  | .done, w => some (.normal, w)
  | .single place c rest, w =>
    (command p place c (callee c.target) w).andThen (runWith p callee fuel rest)
  | .cond place c body others rest, w =>
    Result.andThen
      (w.act place (chosen p c) fun holds w =>
        if holds then runWith p callee fuel body w else runWith p callee fuel others w)
      (runWith p callee fuel rest)
  | .branch place c body others, w =>
    w.act place (chosen p c) fun holds w =>
      if holds then runWith p callee fuel body w else runWith p callee fuel others w
  | .loop place kind c body rest, w =>
    (Loop.run p place kind c (runWith p callee fuel body) fuel w).andThen
      (runWith p callee fuel rest)
  | .guard _ body handler last rest, w =>
    (((runWith p callee fuel body w).catching p.patterns handler.filter?
      (runWith p callee fuel handler)).finishing (runWith p callee fuel last)).andThen
      (runWith p callee fuel rest)
  | .segment _ _ body, w => runWith p callee fuel body w
  | .function _ _ _ rest, w => runWith p callee fuel rest w

/-- Runs a part of the script `t`, with `fuel` calls inside one another. -/
def run (p : Program) (t : Tree) : Nat → Tree → World → Result
  | 0 => runWith p (fun name => (t.function? name).map fun _ _ => none) 0
  | fuel + 1 => runWith p (fun name => (t.function? name).map (run p t fuel)) (fuel + 1)

end Tree

/-- How a run ends that completes in this way; it neither leaves a loop nor a call at the end. -/
def Completion.ending : Completion → Ending
  | .normal | .jump .again | .jump .leave | .jump .back => .outcome .completed
  | .jump .exit => .outcome .stopped
  | .failed e => .outcome (.failed e)
  | .aborted ending => ending

end Runbook
