import Runbook.Expr.Token

namespace Runbook

inductive AssignOp
  | set | add | sub
  deriving DecidableEq, Repr

inductive UpdateOp
  | inc | dec
  deriving DecidableEq, Repr

inductive UnaryOp
  | not | plus | minus
  deriving DecidableEq, Repr

inductive BinaryOp
  | or | and | eq | ne | strictEq | strictNe | lt | le | gt | ge | add | sub | mul | div | mod
  deriving DecidableEq, Repr

def AssignOp.sym : AssignOp → Sym
  | .set => .assign
  | .add => .addAssign
  | .sub => .subAssign

def UpdateOp.sym : UpdateOp → Sym
  | .inc => .inc
  | .dec => .dec

def UnaryOp.sym : UnaryOp → Sym
  | .not => .bang
  | .plus => .add
  | .minus => .sub

def BinaryOp.sym : BinaryOp → Sym
  | .or => .disj
  | .and => .conj
  | .eq => .eq
  | .ne => .ne
  | .strictEq => .strictEq
  | .strictNe => .strictNe
  | .lt => .lt
  | .le => .le
  | .gt => .gt
  | .ge => .ge
  | .add => .add
  | .sub => .sub
  | .mul => .mul
  | .div => .div
  | .mod => .mod

inductive Expr
  | number (n : Number)
  | text (s : String)
  | bool (b : Bool)
  | pattern (p : Pattern)
  | null
  | name (n : String)
  | list (items : List Expr)
  | assign (name : String) (op : AssignOp) (value : Expr)
  /-- `before` when the sign stands before the name, and the new value is the result. -/
  | update (name : String) (op : UpdateOp) (before : Bool)
  | index (target index : Expr)
  | member (target : Expr) (name : String)
  | unary (op : UnaryOp) (operand : Expr)
  | binary (op : BinaryOp) (left right : Expr)

instance : Inhabited Expr := ⟨.null⟩

/-- One or more expressions with commas between them; the value is that of the last. -/
structure Statement where
  first : Expr
  rest : List Expr

def Statement.items (s : Statement) : List Expr := s.first :: s.rest

def Expr.assigned? : Expr → Option String
  | .assign target _ _ => some target
  | .update target _ _ => some target
  | _ => none

end Runbook
