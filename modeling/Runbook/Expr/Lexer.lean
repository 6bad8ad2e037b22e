import Runbook.Expr.Token

namespace Runbook.Lexer

inductive Failure
  | badToken (place : Nat) (excerpt : List Char)
  | badPattern (source : String) (error : Pattern.Failure)
  | tooManyDigits (e : Number.TooManyDigits)
  deriving DecidableEq, Repr

def isNameStart (c : Char) : Bool := c.isAlpha || c == '_' || c == '$'

def isNameChar (c : Char) : Bool := c.isAlphanum || c == '_' || c == '$'

def unescape : Char → Char
  | 'n' => '\n'
  | 't' => '\t'
  | 'r' => '\r'
  | '0' => '\x00'
  | c => c

/-- The text up to the closing quote; a backslash before a line feed, or no closing quote, is
none. -/
def quoted? (quote : Char) : List Char → Option (List Char × List Char)
  | [] => none
  | ['\\'] => none
  | '\\' :: c :: rest =>
    if c = '\n' then none else (quoted? quote rest).map fun (body, after) =>
      (unescape c :: body, after)
  | c :: rest =>
    if c = quote then some ([], rest)
    else (quoted? quote rest).map fun (body, after) => (c :: body, after)

def slashed? : List Char → Option (List Char × List Char)
  | [] => none
  | ['\\'] => none
  | '\\' :: c :: rest =>
    if c = '\n' then none else (slashed? rest).map fun (body, after) => ('\\' :: c :: body, after)
  | c :: rest =>
    if c = '/' then some ([], rest)
    else if c = '\n' then none
    else (slashed? rest).map fun (body, after) => (c :: body, after)

def pattern? (cs : List Char) : Option (List Char × List Char × List Char) :=
  match cs with
  | '/' :: rest =>
    match slashed? rest with
    | some (c :: body, after) => some (c :: body, after.span Char.isLower)
    | _ => none
  | _ => none

/-- A number after its first digit was seen: digits, and a fraction if a digit follows the point. -/
def number (cs : List Char) : Except Failure (Token × List Char) :=
  let (whole, rest) := cs.span Text.isDigit
  match rest with
  | '.' :: more =>
    let (fraction, after) := more.span Text.isDigit
    if fraction.isEmpty then integer whole rest
    else .ok (.number (.float (Number.ofDigits false whole fraction 0)), after)
  | _ => integer whole rest
where
  integer (digits rest : List Char) : Except Failure (Token × List Char) :=
    match Number.natural digits with
    | .ok n => .ok (.number (.int n), rest)
    | .error e => .error (.tooManyDigits e)

def sym? (cs : List Char) : Option (Sym × List Char) :=
  (Sym.all.find? fun s => s.spelling.toList.isPrefixOf cs).map fun s =>
    (s, cs.drop s.spelling.length)

def word (cs : List Char) : Token × List Char :=
  let (chars, rest) := cs.span isNameChar
  let name := String.ofList chars
  match Keyword.ofName? name with
  | some k => (.keyword k, rest)
  | none => (.name name, rest)

def plain (bad : Failure) (cs : List Char) : Except Failure (Token × List Char) :=
  match cs with
  | [] => .error bad
  | c :: rest =>
    if Text.isDigit c then number cs
    else if c = '"' || c = '\'' then
      match quoted? c rest with
      | some (body, after) => .ok (.text (String.ofList body), after)
      | none => .error bad
    else
      match sym? cs with
      | some (s, after) => .ok (.sym s, after)
      | none => if isNameStart c then .ok (word cs) else .error bad

/-- The next token of a text that is not all blank. `total` is the length of the whole text. -/
def token (patterns : Matcher) (total : Nat) (previous : Option Token) (cs : List Char) :
    Except Failure (Token × List Char) :=
  let body := Text.trimLeft cs
  let bad := Failure.badToken (total - cs.length) (cs.take 10)
  if previous.any Token.endsOperand then plain bad body
  else
    match pattern? body with
    | some (source, letters, rest) =>
      match patterns.read (String.ofList source) (Pattern.Flags.ofLetters letters) with
      | .ok p => .ok (.pattern p, rest)
      | .error e => .error (.badPattern (String.ofList source) e)
    | none => plain bad body

def tokensFrom (patterns : Matcher) (total : Nat) :
    Nat → Option Token → List Char → Except Failure (List Token)
  | 0, _, _ => .ok [.eof]
  | fuel + 1, previous, cs =>
    if Text.allBlank cs then .ok [.eof]
    else do
      let (t, rest) ← token patterns total previous cs
      return t :: (← tokensFrom patterns total fuel (some t) rest)

def tokens (patterns : Matcher) (cs : List Char) : Except Failure (List Token) :=
  tokensFrom patterns cs.length (cs.length + 1) none cs

end Runbook.Lexer
