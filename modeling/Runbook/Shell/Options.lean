import Runbook.Number.Literal
import Runbook.Text.Quoted

namespace Runbook.Shell

inductive Switch
  | help
  | inputs
  | dataDir
  | start
  | check
  | quiet
  | printLogs
  | printReceipt
  | receiptOut
  deriving DecidableEq, Repr

namespace Switch

def title : Switch → String
  | help => "-h/--help"
  | inputs => "--in"
  | dataDir => "--data-dir"
  | start => "--start"
  | check => "--check"
  | quiet => "--quiet"
  | printLogs => "--print-logs"
  | printReceipt => "--print-receipt"
  | receiptOut => "--receipt-out"

def takesValue : Switch → Bool
  | inputs | dataDir | start | receiptOut => true
  | _ => false

def words : List (String × Switch) :=
  [("-h", help), ("--help", help), ("--in", inputs), ("--data-dir", dataDir), ("--start", start),
    ("--check", check), ("--quiet", quiet), ("--print-logs", printLogs),
    ("--print-receipt", printReceipt), ("--receipt-out", receiptOut)]

end Switch

inductive Misuse
  | ambiguous (text : String) (words : List String)
  | noValue (s : Switch)
  | valueIgnored (s : Switch) (value : String)
  | notWhole (s : Switch) (value : String)
  | unrecognized (texts : List String)
  | noScript
  | scriptNotFound (path : String)
  deriving DecidableEq, Repr

def Misuse.message : Misuse → String
  | ambiguous text words =>
    "ambiguous option: " ++ text ++ " could match " ++ ", ".intercalate words
  | noValue s => "argument " ++ s.title ++ ": expected one argument"
  | valueIgnored s value =>
    "argument " ++ s.title ++ ": ignored explicit argument " ++ Text.quote value
  | notWhole s value => "argument " ++ s.title ++ ": invalid int value: " ++ Text.quote value
  | unrecognized texts => "unrecognized arguments: " ++ " ".intercalate texts
  | noScript => "script path required (e.g., scripts/loop.txt)"
  | scriptNotFound path => "script not found: " ++ path

inductive Arg
  | plain (text : String)
  | dash
  | switch (s : Switch) (value : Option String)
  | unknown (text : String)
  deriving DecidableEq, Repr

def splitEquals (text : String) : String × Option String :=
  match text.toList.span (· ≠ '=') with
  | (before, _ :: after) => (String.ofList before, some (String.ofList after))
  | (_, []) => (text, none)

/-- The switches that a text may stand for, each with its word and value. What follows a switch of
one letter is not a value. -/
def candidates (text : String) : List (String × Switch × Option String) :=
  match text.toList with
  | '-' :: '-' :: _ =>
    let (start, value) := splitEquals text
    (Switch.words.filter fun (w, _) => start.toList.isPrefixOf w.toList).map fun (w, s) =>
      (w, s, value)
  | '-' :: c :: _ =>
    (Switch.words.filter fun (w, _) => w = String.ofList ['-', c]).map fun (w, s) => (w, s, none)
  | _ => []

/-- A minus sign before a number of digits, with a point before the last of them if any. -/
def isNegativeNumber (cs : List Char) : Bool :=
  match cs with
  | '-' :: rest =>
    match rest.span Text.isDigit with
    | (_ :: _, []) => true
    | (_, '.' :: after) => !after.isEmpty && after.all Text.isDigit
    | _ => false
  | _ => false

def wordArg? (text : String) : Option Arg :=
  match Switch.words.lookup text with
  | some s => some (.switch s none)
  | none =>
    match splitEquals text with
    | (w, some value) => (Switch.words.lookup w).map fun s => .switch s (some value)
    | (_, none) => none

def classify (text : String) : Except Misuse Arg :=
  if text.toList.head? ≠ some '-' ∨ text = "-" then .ok (.plain text)
  else
    match wordArg? text with
    | some arg => .ok arg
    | none =>
      match candidates text with
      | [(_, s, value)] => .ok (.switch s value)
      | [] =>
        if isNegativeNumber text.toList ∨ text.toList.contains ' ' then .ok (.plain text)
        else .ok (.unknown text)
      | several => .error (.ambiguous text (several.map (·.1)))

def classifyAll : List String → Except Misuse (List Arg)
  | [] => .ok []
  | text :: rest =>
    if text = "--" then .ok (.dash :: rest.map .plain)
    else do return (← classify text) :: (← classifyAll rest)

structure Options where
  script : Option String := none
  inputs : List String := []
  dataDir : Option String := none
  start : Int := 1
  check : Bool := false
  quiet : Bool := false
  printLogs : Bool := false
  printReceipt : Bool := false
  receiptOut : Option String := none
  help : Bool := false
  deriving DecidableEq, Repr

def Options.setFlag (o : Options) : Switch → Options
  | .check => { o with check := true }
  | .quiet => { o with quiet := true }
  | .printLogs => { o with printLogs := true }
  | .printReceipt => { o with printReceipt := true }
  | .help => { o with help := true }
  | _ => o

def Options.setValue (o : Options) (s : Switch) (value : String) : Except Misuse Options :=
  match s with
  | .inputs => .ok { o with inputs := o.inputs ++ [value] }
  | .dataDir => .ok { o with dataDir := some value }
  | .receiptOut => .ok { o with receiptOut := some value }
  | .start =>
    match Number.readInt? value.toList with
    | some n => .ok { o with start := n }
    | none => .error (.notWhole s value)
  | _ => .error (.valueIgnored s value)

def dropDash : List Arg → List Arg
  | .dash :: rest => rest
  | args => args

/-- The arguments in turn: the first plain one is the script, if `taken` says that there was none
yet, and a dash next to it is not counted. What is left over is kept. -/
def gather (o : Options) (taken : Bool) (extra : List String) :
    Nat → List Arg → Except Misuse (Options × List String)
  | 0, _ => .ok (o, extra)
  | _ + 1, [] => .ok (o, extra)
  | fuel + 1, .plain text :: rest =>
    if taken then gather o taken (extra ++ [text]) fuel rest
    else gather { o with script := some text } true extra fuel (dropDash rest)
  | fuel + 1, .dash :: rest => gather o taken (if taken then extra ++ ["--"] else extra) fuel rest
  | fuel + 1, .unknown text :: rest => gather o taken (extra ++ [text]) fuel rest
  | fuel + 1, .switch s (some value) :: rest =>
    do gather (← o.setValue s value) taken extra fuel rest
  | fuel + 1, .switch s none :: rest =>
    if s = .help then .ok (o.setFlag s, [])
    else if s.takesValue then
      match rest with
      | .plain value :: rest => do gather (← o.setValue s value) taken extra fuel rest
      | _ => .error (.noValue s)
    else gather (o.setFlag s) taken extra fuel rest

def Options.read (args : List String) : Except Misuse Options := do
  let (o, extra) ← gather {} false [] (args.length + 1) (← classifyAll args)
  if extra.isEmpty then return o else throw (.unrecognized extra)

end Runbook.Shell
