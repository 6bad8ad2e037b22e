import Runbook.Env
import Runbook.Error
import Runbook.Expr.Parser
import Runbook.Value.Order

/-!
Evaluation of expressions. Assignments made before a failure stay.
-/

namespace Runbook

namespace Eval

inductive Failure
  | undefinedName (name : String)
  | updateNeedsNumber (op : UpdateOp) (name shown : String)
  | cannotIndex (target index : String)
  | unhashable (kind : String)
  | noProperty (name target : String)
  | signNeedsNumber (op : UnaryOp)
  | cannotCompare (left : String) (op : BinaryOp) (right : String)
  | needsNumbers (op : BinaryOp) (left right : String)
  | arithmetic (e : Number.Failure)
  | tooManyDigits (e : Number.TooManyDigits)
  deriving DecidableEq, Repr

def Failure.message : Failure → String
  | .undefinedName name => name ++ " is not defined"
  | .updateNeedsNumber op name shown =>
    "'" ++ op.sym.spelling ++ "' requires a number, " ++ name ++ " is " ++ shown
  | .cannotIndex target index => "Cannot index " ++ target ++ " with " ++ index
  | .unhashable kind => "unhashable type: '" ++ kind ++ "'"
  | .noProperty name target => "Cannot read property '" ++ name ++ "' of " ++ target
  | .signNeedsNumber op => "Unary '" ++ op.sym.spelling ++ "' requires number"
  | .cannotCompare left op right =>
    "Cannot compare " ++ left ++ " " ++ op.sym.spelling ++ " " ++ right
  | .needsNumbers op left right =>
    "Operator '" ++ op.sym.spelling ++ "' requires numbers, got " ++ left ++ " and " ++ right
  | .arithmetic e => e.message
  | .tooManyDigits e => e.message

abbrev Outcome := Except Failure

def text (v : Value) : Outcome String :=
  match v.toText with
  | .ok s => .ok s
  | .error e => .error (.tooManyDigits e)

def arithmetic (r : Except Number.Failure Number) : Outcome Value :=
  match r with
  | .ok n => .ok (.number n)
  | .error e => .error (.arithmetic e)

def comparison? : BinaryOp → Option Comparison
  | .lt => some .less
  | .le => some .lessEqual
  | .gt => some .greater
  | .ge => some .greaterEqual
  | _ => none

def onNumbers (op : BinaryOp) (a b : Number) : Except Number.Failure Number :=
  match op with
  | .add => a.add b
  | .sub => a.sub b
  | .mul => a.mul b
  | .div => a.div b
  | _ => a.rem b

def compareValues (op : BinaryOp) (c : Comparison) (left right : Value) : Outcome Value :=
  match Value.compare? c left right with
  | some b => .ok (.bool b)
  | none => do .error (.cannotCompare (← text left) op (← text right))

def calculate (op : BinaryOp) (left right : Value) : Outcome Value :=
  match left, right with
  | .number a, .number b => arithmetic (onNumbers op a b)
  | _, _ => do .error (.needsNumbers op (← text left) (← text right))

def sum (left right : Value) : Outcome Value :=
  match left, right with
  | .text _, _ | _, .text _ => do return .text ((← text left) ++ (← text right))
  | .list xs, .list ys => .ok (.list (xs ++ ys))
  | _, _ => calculate .add left right

def binary (op : BinaryOp) (left right : Value) : Outcome Value :=
  match op with
  | .eq | .strictEq => .ok (.bool (left.same right))
  | .ne | .strictNe => .ok (.bool (!left.same right))
  | .add => sum left right
  | op =>
    match comparison? op with
    | some c => compareValues op c left right
    | none => calculate op left right

/-- The place in a sequence that a number names: whole and not negative. An integer beyond the range
of doubles is a failure. -/
def place? (n : Number) : Outcome (Option Nat) :=
  match n with
  | .int n =>
    if (Number.ofInt? n).isNone then .error (.arithmetic .integerTooLarge)
    else .ok (if n < 0 then none else some n.toNat)
  | .float x => .ok ((Number.toInt? x).bind fun n => if n < 0 then none else some n.toNat)

/-- A place outside of a sequence and a missing key give null. -/
def index (target i : Value) : Outcome Value :=
  match target, i with
  | .list items, .number n => do
    return ((← place? n).bind fun k => items[k]?).getD .null
  | .text s, .number n => do
    return (((← place? n).bind fun k => s.toList[k]?).map fun c =>
      Value.text (String.ofList [c])).getD .null
  | .map fields, .number n => do return ((Record.get? fields (← text (.number n))).getD .null)
  | .map fields, .text key => .ok ((Record.get? fields key).getD .null)
  | .map _, .list _ => .error (.unhashable "list")
  | .map _, .map _ => .error (.unhashable "dict")
  | .map _, _ => .ok .null
  | _, _ => do .error (.cannotIndex (← text target) (← text i))

def member (target : Value) (name : String) : Outcome Value :=
  match target with
  | .map fields => .ok ((Record.get? fields name).getD .null)
  | .list items =>
    if name = "length" then .ok (.int items.length)
    else do .error (.noProperty name (← text target))
  | .text s =>
    if name = "length" then .ok (.int s.length) else do .error (.noProperty name (← text target))
  | _ => do .error (.noProperty name (← text target))

def unary (op : UnaryOp) (v : Value) : Outcome Value :=
  match op, v with
  | .not, v => .ok (.bool (!v.truthy))
  | .plus, .number n => .ok (.number n)
  | .minus, .number n => .ok (.number n.neg)
  | op, _ => .error (.signNeedsNumber op)

def assignSum (op : AssignOp) (old value : Value) : Outcome Value :=
  match op with
  | .set => .ok value
  | .add => binary .add old value
  | .sub => binary .sub old value

def updated (op : UpdateOp) (name : String) (old : Value) : Outcome Value :=
  match old with
  | .number n =>
    arithmetic (match op with
      | .inc => n.add (.int 1)
      | .dec => n.sub (.int 1))
  | _ => do .error (.updateNeedsNumber op name (← text old))

end Eval

/-- Evaluation reads and changes variables; a failure keeps the changes made before it. -/
abbrev Evaluation := ExceptT Eval.Failure (StateM Env)

namespace Expr

def lookup (name : String) : Evaluation Value := do
  match Record.get? (← get) name with
  | some v => return v
  | none => throw (.undefinedName name)

theorem run_lookup (name : String) (env : Env) :
    (lookup name).run.run env =
      ((Record.get? env name).elim (.error (.undefinedName name)) .ok, env) := by
  rw [lookup, ExceptT.run_bind, StateT.run_bind,
    show (get : Evaluation Env).run.run env = pure (.ok env, env) from rfl, pure_bind]
  dsimp only
  cases Record.get? env name <;> rfl

def store (name : String) (v : Value) : Evaluation Unit := modify fun env => Record.set env name v

def lift {α : Type} (r : Eval.Outcome α) : Evaluation α := ExceptT.mk (pure r)

mutual

def eval : Expr → Evaluation Value
  | .number n => return .number n
  | .text s => return .text s
  | .bool b => return .bool b
  | .pattern p => return .pattern p
  | .null => return .null
  | .name n => lookup n
  | .list items => do return .list (← evalAll items)
  | .assign target op value => do
    let v ← eval value
    let new ← match op with
      | .set => pure v
      | op => do lift (Eval.assignSum op (← lookup target) v)
    store target new
    return new
  | .update target op before => do
    let old ← lookup target
    let new ← lift (Eval.updated op target old)
    store target new
    return if before then new else old
  | .index target i => do
    let t ← eval target
    let k ← eval i
    lift (Eval.index t k)
  | .member target property => do lift (Eval.member (← eval target) property)
  | .unary op operand => do lift (Eval.unary op (← eval operand))
  | .binary op left right => do
    let l ← eval left
    match op with
    | .and => if l.truthy then eval right else return l
    | .or => if l.truthy then return l else eval right
    | op => do lift (Eval.binary op l (← eval right))

def evalAll : List Expr → Evaluation (List Value)
  | [] => return []
  | e :: rest => do
    let v ← eval e
    return v :: (← evalAll rest)

end

end Expr

def Statement.evalFrom : Expr → List Expr → Evaluation Value
  | e, [] => e.eval
  | e, next :: rest => do
    let _ ← e.eval
    evalFrom next rest

def Statement.eval (s : Statement) : Evaluation Value := evalFrom s.first s.rest

/-- What an evaluator of texts may raise: an error of the expression, or a fault with its own
message. -/
inductive Mishap
  | error (message : String)
  | foreign (f : Fault) (message : String)
  deriving DecidableEq, Repr

abbrev Evaluator := String → Env → Except Mishap Value × Env

def complaint (text message : String) : String :=
  "While evaluating expression: " ++ text ++ ": " ++ message

def Statement.readNamed (patterns : Matcher) (text : String) : Except Mishap Statement :=
  match Statement.read patterns text with
  | .ok s => .ok s
  | .error (.form message) => .error (.error (complaint text message))
  | .error (.tooManyDigits e) => .error (.foreign .tooManyDigits e.message)
  | .error (.troubled t) => .error (.foreign (.troubled t) t.message)

/-- A blank text is null. -/
def evaluate (patterns : Matcher) : Evaluator := fun text env =>
  if Text.isBlankText text then (.ok .null, env)
  else
    match Statement.readNamed patterns text with
    | .error e => (.error e, env)
    | .ok s =>
      match s.eval.run.run env with
      | (.ok v, env) => (.ok v, env)
      | (.error e, env) => (.error (.error (complaint text e.message)), env)

/-- The variables assigned or updated by the items of a statement, as wholes. -/
def assignedNames (patterns : Matcher) (text : String) : Except Mishap (List String) :=
  if Text.isBlankText text then .ok []
  else do return (← Statement.readNamed patterns text).items.filterMap Expr.assigned?

end Runbook
