import Runbook.Host.Receipt
import Runbook.Json.Write
import Runbook.Shell.Inputs
import Runbook.Shell.Options

/-!
The command line: runs or checks a script and shows what came of it.
-/

namespace Runbook.Shell

inductive Exit
  | code (n : Nat)
  | misuse (m : Misuse)
  | broken (f : Fault)
  deriving DecidableEq, Repr

structure Report where
  shown : String := ""
  files : Files
  exit : Exit

abbrev Work := ExceptT Fault (StateM (String × Files))

def say (text : String) : Work Unit := modify fun (shown, files) => (shown ++ text, files)

def sayLine (line : String) : Work Unit := say (line ++ "\n")

def json (v : Value) : Work String :=
  match Json.write v with
  | .ok text => return text
  | .error _ => throw .tooManyDigits

def checkText (o : Outline) : String :=
  "OK: " ++ toString o.blocks.length ++ " block commands, " ++
    toString o.symbols.length ++ " symbols"

def check (files : Files) (script : Path) : Except Failure Outline := do
  let commands ← Script.load .standard {} files script
  (Outline.ofCommands commands).mapError .error

def checkScript (script : Path) : Work Nat := do
  match check (← get).2 script with
  | .ok o =>
    sayLine (checkText o)
    return 0
  | .error (.error e) =>
    sayLine (← json (.map [("status", .text "failed"), ("error", e.value)]))
    return 1
  | .error (.fault f) => throw f

def logLine (l : Log) : Work String :=
  match l with
  | .echo text => return text
  | event => json event.value

def sayLogs : List Log → Work Unit
  | [] => return
  | l :: rest => do
    sayLine (← logLine l)
    sayLogs rest

def failedText (e : Error) : String :=
  "FAILED at @" ++ (e.position.elim "None" toString) ++ ": " ++ e.message

def writeReceipt (path : String) (receipt : Value) : Work Unit := do
  let text ← json receipt
  let (shown, files) ← get
  match files.write (Path.ofText path) text with
  | .ok files => set (shown, files)
  | .error f => throw f
  sayLine ("Wrote receipt: " ++ path)

def report (o : Options) (script : Path) (s : Session) (outcome : Outcome) : Work Nat := do
  let receipt :=
    Value.map (s.fields ++ outcome.fields ++ [("script", .map [("path", .text script.text)])])
  if o.printLogs then sayLogs s.machine.logs.toList
  if o.printReceipt then sayLine (← json receipt)
  match outcome.error? with
  | some e => sayLine (failedText e)
  | none => pure ()
  match o.receiptOut with
  | some path => if !path.isEmpty then writeReceipt path receipt
  | none => pure ()
  return if outcome.ok then 0 else 1

def unloaded (e : Error) : Work Nat := do
  sayLine (← json (.map
    [("engine", .text engineName), ("status", .text "failed"), ("reason", .text e.message),
      ("error", e.value)]))
  return 1

def runScript (o : Options) (script : Path) (limit : Nat) : Work Nat := do
  let start := max (o.start - 1) 0
  match runFile (← get).2 script (inputs o.inputs) (o.dataDir.map Path.ofText) start limit with
  | .error (.error e) => unloaded e
  | .error (.fault f) => throw f
  | .ok (s, ending) =>
    if !o.quiet then say s.shown
    match ending with
    | some (.outcome outcome) => report o script s outcome
    | some (.broken f) => throw f
    | none => return 1

def usage : String :=
  "usage: blockflow [-h] [--in INPUTS] [--data-dir DIR] [--start N] [--check] [--quiet] " ++
    "[--print-logs] [--print-receipt] [--receipt-out PATH] [script]"

def work (o : Options) (script : Path) (limit : Nat) : Work Nat :=
  if o.check then checkScript script else runScript o script limit

def Options.scriptIn (o : Options) (files : Files) : Except Exit Path :=
  match o.script with
  | none | some "" => .error (.misuse .noScript)
  | some text =>
    match files.bytes? (Path.ofText text) with
    | .ok (some _) => .ok (Path.ofText text)
    | .ok none => .error (.misuse (.scriptNotFound (Path.ofText text).text))
    | .error f => .error (.broken f)

def run (files : Files) (args : List String) (limit : Nat) : Report :=
  match Options.read args with
  | .error m => { files := files, exit := .misuse m }
  | .ok o =>
    if o.help then { shown := usage ++ "\n", files := files, exit := .code 0 }
    else
      match o.scriptIn files with
      | .error exit => { files := files, exit := exit }
      | .ok script =>
        match (work o script limit).run.run ("", files) with
        | (.ok code, shown, files) => { shown := shown, files := files, exit := .code code }
        | (.error f, shown, files) => { shown := shown, files := files, exit := .broken f }

def readsFile : Verb → Bool
  | .openLoop .json | .openLoop .xml | .load _ => true
  | _ => false

def dataPaths (files : Files) (folder : Option Path) (script : Path) : List Path :=
  match Script.load .standard {} files script with
  | .ok commands =>
    (commands.filter fun c => c.verb?.any readsFile).map fun c =>
      Path.locate (some (folder.getD (dataFolder files script))) c.target
  | .error _ => []

def misuseText (m : Misuse) : String := engineName ++ ": error: " ++ m.message

end Runbook.Shell
