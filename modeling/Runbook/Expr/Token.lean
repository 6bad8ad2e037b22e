import Runbook.Value.Text

namespace Runbook

inductive Sym
  | strictEq | strictNe | eq | ne | le | ge | conj | disj | inc | dec | addAssign | subAssign
  | sub | add | mul | div | mod | lt | gt | assign | bang | open | close | comma | openList
  | closeList | dot
  deriving DecidableEq, Repr

def Sym.spelling : Sym → String
  | .strictEq => "==="
  | .strictNe => "!=="
  | .eq => "=="
  | .ne => "!="
  | .le => "<="
  | .ge => ">="
  | .conj => "&&"
  | .disj => "||"
  | .inc => "++"
  | .dec => "--"
  | .addAssign => "+="
  | .subAssign => "-="
  | .sub => "-"
  | .add => "+"
  | .mul => "*"
  | .div => "/"
  | .mod => "%"
  | .lt => "<"
  | .gt => ">"
  | .assign => "="
  | .bang => "!"
  | .open => "("
  | .close => ")"
  | .comma => ","
  | .openList => "["
  | .closeList => "]"
  | .dot => "."

def Sym.all : List Sym :=
  [.strictEq, .strictNe, .eq, .ne, .le, .ge, .conj, .disj, .inc, .dec, .addAssign, .subAssign,
   .sub, .add, .mul, .div, .mod, .lt, .gt, .assign, .bang, .open, .close, .comma, .openList,
   .closeList, .dot]

inductive Keyword
  | and | or | not | yes | no | null | undefined
  deriving DecidableEq, Repr

def Keyword.spelling : Keyword → String
  | .and => "and"
  | .or => "or"
  | .not => "not"
  | .yes => "true"
  | .no => "false"
  | .null => "null"
  | .undefined => "undefined"

def Keyword.all : List Keyword := [.and, .or, .not, .yes, .no, .null, .undefined]

def Keyword.ofName? (name : String) : Option Keyword := Keyword.all.find? fun k => k.spelling = name

inductive Token
  | number (n : Number)
  | text (s : String)
  | sym (s : Sym)
  | name (n : String)
  | keyword (k : Keyword)
  | pattern (p : Pattern)
  | eof
  deriving DecidableEq, Repr

namespace Token

/-- Whether an operand may end with this token, so that a slash after it divides. -/
def endsOperand : Token → Bool
  | .number _ | .text _ | .name _ | .pattern _ => true
  | .keyword k => k = .yes || k = .no || k = .null || k = .undefined
  | .sym s => s = .close || s = .closeList || s = .inc || s = .dec
  | .eof => false

def literal : Token → String
  | .number n => "('number', " ++ (match n.literal with | .ok s => s | .error e => e.message) ++ ")"
  | .text s => "('string', " ++ Text.quote s ++ ")"
  | .sym s => "('op', " ++ Text.quote s.spelling ++ ")"
  | .name n => "('ident', " ++ Text.quote n ++ ")"
  | .keyword k => "('kw', " ++ Text.quote k.spelling ++ ")"
  | .pattern p => "('regex', " ++ p.literal ++ ")"
  | .eof => "('eof', None)"

end Token

end Runbook
