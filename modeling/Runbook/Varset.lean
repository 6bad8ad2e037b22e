import Runbook.File.Store
import Runbook.Json.Read
import Runbook.Limits
import Runbook.Xml.Read

/-!
Varsets: a data file holds a list of records, read one after the other. The first record fixes the
names that every later one must have.
-/

namespace Runbook

abbrev Varset := Record Value

inductive Format
  | json
  | xml
  deriving DecidableEq, Repr

namespace Format

def unit : Format → String
  | .json => "JSON object"
  | .xml => "XML <vars> element"

def title : Format → String
  | .json => "JSON"
  | .xml => "XML"

end Format

def dataError (message : String) : Error := { kind := .datafile, message := message }

def Format.ofName (name : String) : Except Error Format :=
  if name = "json" then .ok .json
  else if name = "xml" then .ok .xml
  else .error (dataError ("Unknown data file kind: " ++ name))

namespace Varset

def ofValue? : Value → Option Varset
  | .map fields => some fields
  | _ => none

def ofValues? : List Value → Option (List Varset)
  | [] => some []
  | v :: rest =>
    match ofValue? v, ofValues? rest with
    | some varset, some varsets => some (varset :: varsets)
    | _, _ => none

/-- An empty text counts as null, and null as no varsets. -/
def ofJson (limits : Limits) (path : Path) (text : List Char) : Except Failure (List Varset) :=
  if text.isEmpty then .ok []
  else if !limits.decodes text then .error (.fault .tooDeep)
  else
    match Json.read text with
    | .error (.malformed problem rest) =>
      .error (.error
        (dataError (path.text ++ ": invalid JSON: " ++ Json.message text problem rest)))
    | .error .tooManyDigits => .error (.fault .tooManyDigits)
    | .ok .null => .ok []
    | .ok (.list items) =>
      match ofValues? items with
      | some varsets => .ok varsets
      | none => .error (.error (dataError (path.text ++ ": expected a JSON array of objects")))
    | .ok _ => .error (.error (dataError (path.text ++ ": expected a JSON array of objects")))

def ofTag (t : Xml.Tag) : Varset := t.attributes.map fun (name, text) => (name, .text text)

def ofXml (path : Path) (text : List Char) : Except Failure (List Varset) :=
  match Xml.read text with
  | .error failure =>
    .error (.error (dataError (path.text ++ ": invalid XML: " ++ failure.message text)))
  | .ok tags => .ok ((tags.filter (·.name = "vars")).map ofTag)

def ofText (limits : Limits) (format : Format) (path : Path) (text : String) :
    Except Failure (List Varset) :=
  match format with
  | .json => ofJson limits path text.toList
  | .xml => ofXml path text.toList

end Varset

/-- Reads varsets one by one; `cursor` counts those read, and is none before any were loaded. -/
structure Reader where
  format : Format
  varsets : List Varset := []
  names : List String := []
  cursor : Option Nat := none

namespace Reader

def empty (format : Format) : Reader := { format := format }

def unreadable (r : Reader) (path : Path) : Error :=
  dataError ("A " ++ r.format.unit ++ " could not be loaded, or the file was empty: " ++ path.text)

def take (r : Reader) (path : Path) : List Varset → Except Failure (List String) × Reader
  | [] => (.error (.error (r.unreadable path)), { r with varsets := [] })
  | first :: rest =>
    (.ok first.names, { r with varsets := first :: rest, names := first.names, cursor := some 0 })

/-- Loads a file and tells the names of its first varset. -/
def load (limits : Limits) (files : Files) (base : Option Path) (r : Reader) (target : String) :
    Except Failure (List String) × Reader :=
  if target.isEmpty then
    (.error (.error (dataError ("Requires a " ++ r.format.unit ++ " file path."))), r)
  else
    let path := Path.locate base target
    match files.text? path with
    | .error fault => (.error (.fault fault), r)
    | .ok none => (.error (.error (dataError ("Data file not found: " ++ path.text))), r)
    | .ok (some text) =>
      match Varset.ofText limits r.format path text with
      | .error failure => (.error failure, r)
      | .ok varsets => r.take path varsets

def current? (r : Reader) : Option Varset := r.cursor.bind fun i => r.varsets[i]?

def atEnd (r : Reader) : Bool := r.current?.isNone

def position (r : Reader) : Nat := r.cursor.getD 0

def exhausted (r : Reader) : Error :=
  dataError ("No more " ++ r.format.unit ++ "s to read after #" ++ toString r.position)

def inconsistent (r : Reader) (text : String) : Error :=
  dataError ("Inconsistent " ++ r.format.unit ++ " #" ++ toString (r.position + 1) ++
    "; " ++ text ++ " Each " ++ r.format.unit ++ " must have the same set of attributes.")

def wrongSize (r : Reader) (size : Nat) : Error :=
  r.inconsistent ("expected " ++ toString r.names.length ++ " attributes, but found " ++
    toString size ++ ".")

def strange (r : Reader) (name : String) : Error :=
  r.inconsistent ("found " ++ name ++ ", which does not appear in the first " ++
    r.format.unit ++ ".")

/-- The next varset, which must have the names of the first, and the reader behind it. -/
def next (r : Reader) : Except Error (Varset × Reader) :=
  match r.current? with
  | none => .error r.exhausted
  | some varset =>
    if varset.length ≠ r.names.length then .error (r.wrongSize varset.length)
    else
      match varset.names.find? fun name => !r.names.contains name with
      | some name => .error (r.strange name)
      | none => .ok (varset, { r with cursor := some (r.position + 1) })

end Reader

end Runbook
