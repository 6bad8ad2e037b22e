import Runbook.Record
import Runbook.Script.Verb

namespace Runbook

/-- What a block is and which of its inner commands have been met. -/
inductive Form
  | cond (elseIfs : List Nat) (orElse : Option Nat)
  | guard (name : String) (catchAt finallyAt : Option Nat)
  | loop (kind : LoopKind)
  | function (word : FunctionWord) (name : String)
  deriving DecidableEq, Repr

namespace Form

def endWord : Form → String
  | .cond _ _ => "endIf"
  | .guard _ _ _ => "endTry"
  | .loop kind => kind.endWord
  | .function word _ => word.endWord

def isLoop : Form → Bool
  | .loop _ => true
  | _ => false

def isFunction : Form → Bool
  | .function _ _ => true
  | _ => false

end Form

/-- What a place means for the block structure: it opens a block that ends at `last`, or it belongs
to the block opened at `owner`. -/
inductive Block
  | opener (form : Form) (last : Nat)
  | partner (owner : Nat)
  deriving DecidableEq, Repr

structure Outline where
  blocks : List (Nat × Block) := []
  symbols : Record Nat := []
  deriving DecidableEq, Repr

namespace Outline

def block? (o : Outline) (place : Nat) : Option Block := o.blocks.lookup place

def owner? (o : Outline) (place : Nat) : Option Nat :=
  match o.block? place with
  | some (.opener _ _) => some place
  | some (.partner owner) => some owner
  | none => none

end Outline

end Runbook
