import Runbook.Env
import Runbook.Script.Verb
import Runbook.Varset

/-!
The state of a run: variables, the place that is next, and for every call the blocks that are open
in it.
-/

namespace Runbook

inductive Phase
  | trying
  | catching
  | finishing
  deriving DecidableEq, Repr

def Phase.name : Phase → String
  | .trying => "trying"
  | .catching => "catching"
  | .finishing => "finallying"

/-- What waits until a guard has run its last segment: a failure, or a command that leaves the
guard. A command may leave frames up to the next loop (`ceiling`) and may leave calls
(`crosses`). -/
inductive Bubble
  | failure (cause : Failure) (source : Int)
  | command (source : Option Int) (ceiling crosses : Bool)
  deriving DecidableEq, Repr

structure Cond where
  /-- The other conditions that were not tried yet. -/
  left : List Nat := []
  decided : Bool := false
  deriving DecidableEq, Repr

inductive Cursor
  | unset
  | counter (start condition step : String)
  | items (source : Value) (index : Option Nat)
  | data (reader : Reader)

structure Loop where
  kind : LoopKind
  complete : Bool := false
  cursor : Cursor := .unset

/-- Without a phase a guard catches nothing. -/
structure Guard where
  name : String := ""
  phase : Option Phase := none
  caught : Bool := false
  finaled : Bool := false
  pending : Option Bubble := none
  deriving DecidableEq, Repr

inductive Body
  | cond (c : Cond)
  | loop (l : Loop)
  | guard (g : Guard)

/-- A block that is open, with the variables to put back when it is left. -/
structure Frame where
  place : Nat
  saved : Snapshot := []
  body : Body

namespace Frame

def isLoop (f : Frame) : Bool :=
  match f.body with
  | .loop _ => true
  | _ => false

def guard? (f : Frame) : Option Guard :=
  match f.body with
  | .guard g => some g
  | _ => none

def intercepts (f : Frame) : Bool :=
  match f.body with
  | .guard g => g.phase.isSome
  | _ => false

def pending? (f : Frame) : Option Bubble := f.guard?.bind (·.pending)

end Frame

structure Call where
  function : Option Nat := none
  name : String := ""
  args : Record Value := []
  back : Option Int := none
  saved : Snapshot := []
  blocks : List Frame := []
  returning : Bool := false

/-- The variables after all blocks of a call and the call itself are left. -/
def Call.release (c : Call) (vars : Env) : Env :=
  (c.blocks.foldl (fun env f => env.restore f.saved) vars).restore c.saved

inductive Level
  | info
  | warning
  | error
  deriving DecidableEq, Repr

def Level.name : Level → String
  | .info => "info"
  | .warning => "warning"
  | .error => "error"

inductive Topic
  | branch
  | guard
  | bubbling
  | loop
  | call
  | deprecated
  | exit
  | error
  deriving DecidableEq, Repr

def Topic.name : Topic → String
  | .branch => "branch"
  | .guard => "try"
  | .bubbling => "bubbling"
  | .loop => "loop"
  | .call => "call"
  | .deprecated => "deprecated"
  | .exit => "exit"
  | .error => "error"

inductive Log
  | echo (text : String)
  | event (level : Level) (topic : Topic) (message : String) (locals : Option (List String))
      (depth : Option Nat)
  deriving DecidableEq, Repr

/-- `call` is the active call and `outer` are those it came from, nearest first. `resume` is the
place of a command that waited and now goes on. -/
structure Machine where
  vars : Env := []
  call : Call := {}
  outer : List Call := []
  here : Option Int := none
  started : Bool := false
  branch : Option Nat := none
  stopped : Bool := false
  resume : Option Int := none
  logs : Array Log := #[]

namespace Machine

def reset (m : Machine) : Machine := { vars := m.vars, logs := m.logs }

def calls (m : Machine) : List Call := m.call :: m.outer

def frames (m : Machine) : List Frame := m.calls.flatMap (·.blocks)

def guardDepth (m : Machine) : Nat := (m.frames.filter (·.intercepts)).length

def isGuarded (m : Machine) : Bool := 0 < m.guardDepth

def bubbling? (m : Machine) : Option Bubble := m.frames.findSome? (·.pending?)

end Machine

end Runbook
