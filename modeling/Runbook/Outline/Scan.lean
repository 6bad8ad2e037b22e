import Runbook.Error
import Runbook.Outline.Basic
import Runbook.Stack

/-!
One pass over the commands finds the blocks. The blocks that are still open are kept innermost
first.
-/

namespace Runbook

inductive Misnesting
  | waits (place : Nat)
  | unnamed (place : Nat)
  | unopened (place : Nat) (word : String)
  | outsideFunction (place : Nat)
  | outsideIf (place : Nat)
  | outsideTry (place : Nat)
  | outsideLoop (place : Nat)
  | mismatch (place opener : Nat)
  | elseIfAfterElse (place orElse : Nat)
  | secondElse (place first : Nat)
  | secondCatch (place first : Nat)
  | catchAfterFinally (place finallyAt : Nat)
  | secondFinally (place first : Nat)
  | unclosed (place : Nat) (endWord : String)
  deriving DecidableEq, Repr

namespace Misnesting

/-- The place that is reported; for an order of parts it is the part that came too early. -/
def place : Misnesting → Nat
  | waits p | unnamed p | unopened p _ | outsideFunction p | outsideIf p | outsideTry p
  | outsideLoop p => p
  | mismatch p _ | secondElse p _ | secondCatch p _ | secondFinally p _ | unclosed p _ => p
  | elseIfAfterElse _ p | catchAfterFinally _ p => p

def prior? : Misnesting → Option Nat
  | mismatch _ q | secondElse _ q | secondCatch _ q | secondFinally _ q => some q
  | elseIfAfterElse q _ | catchAfterFinally q _ => some q
  | _ => none

def text (commands : List Command) : Misnesting → String
  | waits _ => ", AndWait suffix is not valid for control-flow commands"
  | unnamed _ => ", requires a function name"
  | unopened _ word => ", without a beginning [" ++ word ++ "]"
  | outsideFunction _ => ", is not valid outside of a function/endFunction block"
  | outsideIf _ => ", is not valid outside of an if/endIf block"
  | outsideTry _ => ", is not valid without a try block"
  | outsideLoop _ => ", is not valid outside of a loop"
  | mismatch _ opener => ", does not match command " ++ reference commands opener
  | elseIfAfterElse _ _ => " An else has to come after all elseIfs."
  | secondElse _ _ => " There can only be one else associated with a given if."
  | secondCatch _ _ => " There can only be one catch-block associated with a given try."
  | catchAfterFinally _ _ => " A finally-block has to be last in a try section."
  | secondFinally _ _ => " There can only be one finally-block associated with a given try."
  | unclosed _ word => ", without a terminating [" ++ word ++ "]"

def error (commands : List Command) (m : Misnesting) : Error :=
  { kind := .structural
    message := reference commands m.place ++ m.text commands
    index := some m.place
    prior := m.prior?.map Int.ofNat }

end Misnesting

structure Opener where
  place : Nat
  form : Form
  deriving DecidableEq, Repr

structure Scan where
  pending : List Opener := []
  outline : Outline := {}
  deriving DecidableEq, Repr

namespace Scan

def link (s : Scan) (place owner : Nat) : Scan :=
  { s with outline := { s.outline with blocks := (place, .partner owner) :: s.outline.blocks } }

def declare (s : Scan) (name : String) (place : Nat) : Scan :=
  { s with outline := { s.outline with symbols := s.outline.symbols.set name place } }

def enter (s : Scan) (place : Nat) (form : Form) : Scan :=
  { s with pending := ⟨place, form⟩ :: s.pending }

def close (s : Scan) (place : Nat) (top : Opener) (rest : List Opener) : Scan :=
  { pending := rest
    outline := { s.outline with
      blocks := (place, .partner top.place) :: (top.place, .opener top.form place) ::
        s.outline.blocks } }

/-- Links an inner command to the block `top`, above `rest`, which from now on has the form
`form`. -/
def extend (s : Scan) (place : Nat) (top : Opener) (form : Form) (rest : List Opener) : Scan :=
  { s.link place top.place with pending := { top with form := form } :: rest }

def loop? (pending : List Opener) : Option Opener :=
  Stack.enclosing? (·.form.isLoop) (·.form.isFunction) pending

def function? (pending : List Opener) : Option Opener :=
  Stack.enclosing? (·.form.isFunction) (fun _ => false) pending

def closesName (c : Command) (name : String) : Bool := c.target.isEmpty || c.target = name

def elseIf (s : Scan) (i : Nat) : Except Misnesting Scan :=
  match s.pending with
  | [] => .error (.outsideIf i)
  | top :: rest =>
    match top.form with
    | .cond elseIfs none => .ok (s.extend i top (.cond (elseIfs ++ [i]) none) rest)
    | .cond _ (some orElse) => .error (.elseIfAfterElse i orElse)
    | _ => .error (.mismatch i top.place)

def orElse (s : Scan) (i : Nat) : Except Misnesting Scan :=
  match s.pending with
  | [] => .error (.outsideIf i)
  | top :: rest =>
    match top.form with
    | .cond elseIfs none => .ok (s.extend i top (.cond elseIfs (some i)) rest)
    | .cond _ (some first) => .error (.secondElse i first)
    | _ => .error (.mismatch i top.place)

def endIf (s : Scan) (i : Nat) : Except Misnesting Scan :=
  match s.pending with
  | [] => .error (.unopened i "if")
  | top :: rest =>
    match top.form with
    | .cond _ _ => .ok (s.close i top rest)
    | _ => .error (.mismatch i top.place)

def openCatch (s : Scan) (i : Nat) : Except Misnesting Scan :=
  match s.pending with
  | [] => .error (.outsideTry i)
  | top :: rest =>
    match top.form with
    | .guard name none none => .ok (s.extend i top (.guard name (some i) none) rest)
    | .guard _ (some first) _ => .error (.secondCatch i first)
    | .guard _ none (some finallyAt) => .error (.catchAfterFinally i finallyAt)
    | _ => .error (.mismatch i top.place)

def openFinally (s : Scan) (i : Nat) : Except Misnesting Scan :=
  match s.pending with
  | [] => .error (.unopened i "try")
  | top :: rest =>
    match top.form with
    | .guard name catchAt none => .ok (s.extend i top (.guard name catchAt (some i)) rest)
    | .guard _ _ (some first) => .error (.secondFinally i first)
    | _ => .error (.mismatch i top.place)

def endTry (s : Scan) (i : Nat) (c : Command) : Except Misnesting Scan :=
  match s.pending with
  | [] => .error (.unopened i "try")
  | top :: rest =>
    match top.form with
    | .guard name _ _ =>
      if closesName c name then .ok (s.close i top rest) else .error (.mismatch i top.place)
    | _ => .error (.mismatch i top.place)

def endLoop (s : Scan) (i : Nat) (kind : LoopKind) : Except Misnesting Scan :=
  match s.pending with
  | [] => .error (.unopened i kind.word)
  | top :: rest =>
    if top.form = .loop kind then .ok (s.close i top rest) else .error (.mismatch i top.place)

def jump (s : Scan) (i : Nat) : Except Misnesting Scan :=
  match loop? s.pending with
  | some top => .ok (s.link i top.place)
  | none => .error (.outsideLoop i)

def openFunction (s : Scan) (i : Nat) (c : Command) (word : FunctionWord) :
    Except Misnesting Scan :=
  if c.target.isEmpty then .error (.unnamed i)
  else .ok ((s.declare c.target i).enter i (.function word c.target))

def giveBack (s : Scan) (i : Nat) : Except Misnesting Scan :=
  match function? s.pending with
  | some top => .ok (s.link i top.place)
  | none => .error (.outsideFunction i)

def endFunction (s : Scan) (i : Nat) (c : Command) (word : FunctionWord) : Except Misnesting Scan :=
  match s.pending with
  | [] => .error (.unopened i word.word)
  | top :: rest =>
    match top.form with
    | .function opened name =>
      if opened = word ∧ closesName c name then .ok (s.close i top rest)
      else .error (.mismatch i top.place)
    | _ => .error (.mismatch i top.place)

def verb (s : Scan) (i : Nat) (c : Command) : Verb → Except Misnesting Scan
  | .label => .ok (s.declare c.target i)
  | .openIf => .ok (s.enter i (.cond [] none))
  | .elseIf => s.elseIf i
  | .orElse => s.orElse i
  | .endIf => s.endIf i
  | .openTry => .ok (s.enter i (.guard c.target none none))
  | .openCatch => s.openCatch i
  | .openFinally => s.openFinally i
  | .endTry => s.endTry i c
  | .openLoop kind => .ok (s.enter i (.loop kind))
  | .endLoop kind => s.endLoop i kind
  | .again | .leave => s.jump i
  | .openFunction word => s.openFunction i c word
  | .giveBack => s.giveBack i
  | .endFunction word => s.endFunction i c word
  | .goto | .gotoIf | .skipNext | .call | .exitTest | .load _ => .ok s

def step (s : Scan) (i : Nat) (c : Command) : Except Misnesting Scan :=
  match c.verb? with
  | none => .ok s
  | some v => if c.waits then .error (.waits i) else s.verb i c v

def run (s : Scan) (i : Nat) : List Command → Except Misnesting Scan
  | [] => .ok s
  | c :: rest => do (← s.step i c).run (i + 1) rest

end Scan

namespace Outline

def find (commands : List Command) : Except Misnesting Outline := do
  let s ← Scan.run {} 0 commands
  match s.pending with
  | [] => return s.outline
  | top :: _ => throw (.unclosed top.place top.form.endWord)

def ofCommands (commands : List Command) : Except Error Outline :=
  (find commands).mapError (·.error commands)

end Outline

end Runbook
