import Runbook.Expr.Basic
import Runbook.Expr.Lexer

/-!
Parsing of expressions by binding power. Every parser returns the tokens that it left; the first
argument bounds the depth of the recursion and is never used up when it starts from `depth`.
-/

namespace Runbook.Parser

inductive Failure
  | expectedName (got : Token)
  | expected (wanted : Sym) (got : Token)
  | unexpected (got : Token)
  | trailing (got : Token)
  | badTarget
  | badOperand (before : Bool) (op : UpdateOp)
  | exhausted
  deriving DecidableEq, Repr

def Failure.message : Failure → String
  | .expectedName got => "Expected ('ident', 'kw'), got " ++ got.literal
  | .expected wanted got => "Expected '" ++ wanted.spelling ++ "', got " ++ got.literal
  | .unexpected got => "Unexpected token: " ++ got.literal
  | .trailing got => "Unexpected trailing tokens: " ++ got.literal
  | .badTarget => "Invalid left-hand side in assignment"
  | .badOperand before op =>
    "Invalid operand for " ++ (if before then "pre" else "post") ++ "fix '" ++
      op.sym.spelling ++ "'"
  | .exhausted => "Unexpected end of tokens"

def signPower : Nat := 100

inductive Continuation
  | assign (op : AssignOp)
  | binary (op : BinaryOp)
  | update (op : UpdateOp)
  | index
  | member
  deriving DecidableEq, Repr

def continuation? : Token → Option Continuation
  | .sym .assign => some (.assign .set)
  | .sym .addAssign => some (.assign .add)
  | .sym .subAssign => some (.assign .sub)
  | .sym .disj | .keyword .or => some (.binary .or)
  | .sym .conj | .keyword .and => some (.binary .and)
  | .sym .eq => some (.binary .eq)
  | .sym .ne => some (.binary .ne)
  | .sym .strictEq => some (.binary .strictEq)
  | .sym .strictNe => some (.binary .strictNe)
  | .sym .lt => some (.binary .lt)
  | .sym .le => some (.binary .le)
  | .sym .gt => some (.binary .gt)
  | .sym .ge => some (.binary .ge)
  | .sym .add => some (.binary .add)
  | .sym .sub => some (.binary .sub)
  | .sym .mul => some (.binary .mul)
  | .sym .div => some (.binary .div)
  | .sym .mod => some (.binary .mod)
  | .sym .inc => some (.update .inc)
  | .sym .dec => some (.update .dec)
  | .sym .openList => some .index
  | .sym .dot => some .member
  | _ => none

def binaryPower : BinaryOp → Nat
  | .or => 10
  | .and => 20
  | .eq | .ne | .strictEq | .strictNe => 30
  | .lt | .le | .gt | .ge => 40
  | .add | .sub => 50
  | .mul | .div | .mod => 60

def Continuation.power : Continuation → Nat
  | .assign _ => 5
  | .binary op => binaryPower op
  | .update _ | .index | .member => 110

def expect (wanted : Sym) : List Token → Except Failure (List Token)
  | [] => .error .exhausted
  | t :: rest => if t = .sym wanted then .ok rest else .error (.expected wanted t)

def memberName : List Token → Except Failure (String × List Token)
  | [] => .error .exhausted
  | .name n :: rest => .ok (n, rest)
  | .keyword k :: rest => .ok (k.spelling, rest)
  | t :: _ => .error (.expectedName t)

mutual

/-- An expression whose continuations bind at least as tightly as `least`. -/
def expression : Nat → Nat → List Token → Except Failure (Expr × List Token)
  | 0, _, _ => .error .exhausted
  | _ + 1, _, [] => .error .exhausted
  | depth + 1, least, t :: rest => do
    let (left, rest) ← operand depth t rest
    continued depth least left rest

def operand : Nat → Token → List Token → Except Failure (Expr × List Token)
  | 0, _, _ => .error .exhausted
  | depth + 1, t, rest =>
    match t with
    | .number n => .ok (.number n, rest)
    | .text s => .ok (.text s, rest)
    | .pattern p => .ok (.pattern p, rest)
    | .keyword .yes => .ok (.bool true, rest)
    | .keyword .no => .ok (.bool false, rest)
    | .keyword .null | .keyword .undefined => .ok (.null, rest)
    | .name n => .ok (.name n, rest)
    | .sym .open => do
      let (e, rest) ← expression depth 0 rest
      return (e, ← expect .close rest)
    | .sym .openList =>
      if rest.head? = some (.sym .closeList) then .ok (.list [], rest.drop 1)
      else do
        let (items, rest) ← listed depth rest
        return (.list items, ← expect .closeList rest)
    | .sym .inc => stepped depth .inc rest
    | .sym .dec => stepped depth .dec rest
    | .keyword .not | .sym .bang => signed depth .not rest
    | .sym .add => signed depth .plus rest
    | .sym .sub => signed depth .minus rest
    | t => .error (.unexpected t)

def signed : Nat → UnaryOp → List Token → Except Failure (Expr × List Token)
  | 0, _, _ => .error .exhausted
  | depth + 1, op, rest => do
    let (e, rest) ← expression depth signPower rest
    return (.unary op e, rest)

def stepped : Nat → UpdateOp → List Token → Except Failure (Expr × List Token)
  | 0, _, _ => .error .exhausted
  | depth + 1, op, rest => do
    let (target, rest) ← expression depth signPower rest
    match target with
    | .name n => return (.update n op true, rest)
    | _ => .error (.badOperand true op)

def listed : Nat → List Token → Except Failure (List Expr × List Token)
  | 0, _ => .error .exhausted
  | depth + 1, ts => do
    let (first, rest) ← expression depth 0 ts
    match rest with
    | .sym .comma :: rest => do
      let (others, rest) ← listed depth rest
      return (first :: others, rest)
    | _ => return ([first], rest)

/-- Extends an operand by the continuations that bind at least as tightly as `least`. -/
def continued : Nat → Nat → Expr → List Token → Except Failure (Expr × List Token)
  | 0, _, _, _ => .error .exhausted
  | _ + 1, _, left, [] => .ok (left, [])
  | depth + 1, least, left, t :: rest =>
    match continuation? t with
    | none => .ok (left, t :: rest)
    | some c =>
      if c.power < least then .ok (left, t :: rest)
      else do
        let (left, rest) ← extended depth left c rest
        continued depth least left rest

def extended : Nat → Expr → Continuation → List Token → Except Failure (Expr × List Token)
  | 0, _, _, _ => .error .exhausted
  | depth + 1, left, c, rest =>
    match c with
    | .assign op =>
      match left with
      | .name n => do
        let (value, rest) ← expression depth c.power rest
        return (.assign n op value, rest)
      | _ => .error .badTarget
    | .update op =>
      match left with
      | .name n => .ok (.update n op false, rest)
      | _ => .error (.badOperand false op)
    | .index => do
      let (i, rest) ← expression depth 0 rest
      return (.index left i, ← expect .closeList rest)
    | .member => do
      let (n, rest) ← memberName rest
      return (.member left n, rest)
    | .binary op => do
      let (right, rest) ← expression depth (c.power + 1) rest
      return (.binary op left right, rest)

end

def depth (count : Nat) : Nat := 4 * count + 4

def statement (ts : List Token) : Except Failure Statement := do
  let (items, rest) ← listed (depth ts.length) ts
  match rest, items with
  | [], _ => .error .exhausted
  | t :: _, first :: others => if t = .eof then return ⟨first, others⟩ else .error (.trailing t)
  | _, [] => .error .exhausted

end Runbook.Parser

namespace Runbook.Statement

/-- Why a text is not a statement. A number beyond a limit, or a pattern that the matcher has
trouble with, is not a matter of form. -/
inductive Failure
  | form (message : String)
  | tooManyDigits (e : Number.TooManyDigits)
  | troubled (t : Pattern.Trouble)
  deriving DecidableEq, Repr

def Failure.ofLexer : Lexer.Failure → Failure
  | .badToken place excerpt =>
    .form ("Bad token at " ++ toString place ++ ": " ++ String.ofList (Text.quoteChars excerpt))
  | .badPattern source (.malformed message) =>
    .form ("Invalid regular expression /" ++ source ++ "/: " ++ message)
  | .badPattern _ (.troubled t) => .troubled t
  | .tooManyDigits e => .tooManyDigits e

def read (patterns : Matcher) (text : String) : Except Failure Statement :=
  match Lexer.tokens patterns text.toList with
  | .error e => .error (.ofLexer e)
  | .ok ts =>
    match Parser.statement ts with
    | .error e => .error (.form e.message)
    | .ok s => .ok s

end Runbook.Statement
