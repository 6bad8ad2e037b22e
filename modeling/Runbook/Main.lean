import Runbook.Shell.Run

namespace Runbook.Shell

def fetch (files : Files) (p : Path) : IO Files :=
  tryCatch (do return files.withFile p (← IO.FS.readBinFile p.text)) fun _ => return files

def fetchFolder (files : Files) (p : Path) : IO Files :=
  tryCatch (do
    let place ← IO.FS.realPath p.text
    return if ← place.isDir then files.withFolder p else files) fun _ => return files

def fetchAll (files : Files) (o : Options) : IO Files := do
  let script := Path.ofText (o.script.getD "")
  let files ← fetch files script
  let files ← (dataPaths files (o.dataDir.map Path.ofText) script).foldlM fetch files
  match o.receiptOut.map Path.ofText with
  | some p => fetchFolder (← fetchFolder files p.parent) p
  | none => return files

def putReceipt (o : Options) (files : Files) : IO Unit := do
  match o.receiptOut.map Path.ofText with
  | some p =>
    match files.bytes? p with
    | .ok (some bytes) => IO.FS.writeBinFile p.text bytes
    | _ => return
  | none => return

end Runbook.Shell

open Runbook Shell in
def main (args : List String) : IO UInt32 := do
  let o := match Options.read args with
    | .ok o => o
    | .error _ => {}
  let home := Path.ofText (← IO.currentDir).toString
  let r := run (← fetchAll { home := home.parts } o) args stepLimit
  putReceipt o r.files
  IO.print r.shown
  match r.exit with
  | .code n => return n.toUInt32
  | .misuse m =>
    IO.eprintln (usage ++ "\n" ++ misuseText m)
    return 2
  | .broken f =>
    IO.eprintln f.message
    return 1
