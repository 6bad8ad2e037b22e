import Runbook.Error
import Runbook.File.Path
import Runbook.Text.Blank

namespace Runbook

/-- Contents by the place of each file, counted from the root; relative paths begin at `home`.
Folders need to be named only if they are empty. A path that the system denies is neither looked up
nor read. -/
structure Files where
  home : List String := []
  contents : List (List String × ByteArray) := []
  folders : List (List String) := []
  denies : Path → Bool := fun _ => false

namespace Files

def isFolder (f : Files) (place : List String) : Bool :=
  place.isPrefixOf f.home || f.folders.any place.isPrefixOf ||
    f.contents.any fun (file, _) => place.isPrefixOf file && place.length < file.length

def isFile (f : Files) (place : List String) : Bool := (f.contents.lookup place).isSome

def partLimit : Nat := 255

def pathLimit : Nat := 4095

/-- Follows the parts of a path from a place; every place on the way has to be a folder. -/
def walk (f : Files) : List String → List String → Except Fault (List String)
  | place, [] => .ok place
  | place, part :: rest =>
    if f.isFolder place then
      if partLimit < part.utf8ByteSize then .error .nameTooLong
      else f.walk (if part = ".." then place.dropLast else place ++ [part]) rest
    else if f.isFile place then .error .notAFolder
    else .error .missingFolder

def place (f : Files) (p : Path) : Except Fault (List String) :=
  if pathLimit < p.text.utf8ByteSize then .error .nameTooLong
  else f.walk (if p.isAbsolute then [] else f.home) p.parts

def bytes? (f : Files) (p : Path) : Except Fault (Option ByteArray) :=
  if f.denies p then .error .denied
  else
    match f.place p with
    | .ok place => .ok (f.contents.lookup place)
    | .error .nameTooLong => .error .nameTooLong
    | .error _ => .ok none

def decode (bytes : ByteArray) : Except Fault String :=
  match String.fromUTF8? bytes with
  | some text => .ok (String.ofList (Text.newlines text.toList))
  | none => .error .badEncoding

def text? (f : Files) (p : Path) : Except Fault (Option String) := do
  match ← f.bytes? p with
  | some bytes => return some (← decode bytes)
  | none => return none

def write (f : Files) (p : Path) (text : String) : Except Fault Files := do
  let place ← f.place p
  if f.isFolder place then throw .notAFile
  let folder := place.dropLast
  if f.isFile folder then throw .notAFolder
  if !f.isFolder folder then throw .missingFolder
  return { f with
    contents := (place, text.toUTF8) :: f.contents.filter fun entry => entry.1 ≠ place }

def foldersOf (f : Files) (p : Path) : List (List String) :=
  (List.range (p.parts.length + 1)).map fun count =>
    (Path.resolve f.home { p with parts := p.parts.take count }).parts

def withFolder (f : Files) (p : Path) : Files := { f with folders := f.foldersOf p ++ f.folders }

def withFile (f : Files) (p : Path) (bytes : ByteArray) : Files :=
  { f.withFolder p.parent with contents := ((p.resolve f.home).parts, bytes) :: f.contents }

end Files

end Runbook
