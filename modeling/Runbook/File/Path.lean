import Runbook.Text.Cut

namespace Runbook

/-- `root` holds the slashes with which an absolute path begins. -/
structure Path where
  root : String := ""
  parts : List String := []
  deriving DecidableEq, Repr

namespace Path

def rootOf (cs : List Char) : String :=
  match cs with
  | '/' :: '/' :: '/' :: _ => "/"
  | '/' :: '/' :: _ => "//"
  | '/' :: _ => "/"
  | _ => ""

def ofChars (cs : List Char) : Path :=
  { root := rootOf cs
    parts := ((Text.cut '/' cs).map String.ofList).filter fun part => part ≠ "" ∧ part ≠ "." }

def ofText (text : String) : Path := ofChars text.toList

def isAbsolute (p : Path) : Bool := p.root ≠ ""

def text (p : Path) : String :=
  if p.root = "" ∧ p.parts = [] then "." else p.root ++ "/".intercalate p.parts

def join (p q : Path) : Path := if q.isAbsolute then q else { p with parts := p.parts ++ q.parts }

def parent (p : Path) : Path := { p with parts := p.parts.dropLast }

/-- The last part from its last point on, unless the point begins or ends it. -/
def suffix (p : Path) : List Char :=
  let letters := (p.parts.getLast?.getD "").toList
  match letters.reverse.span (· ≠ '.') with
  | (_, []) | ([], _) | (_, [_]) => []
  | (after, _ :: _) => '.' :: after.reverse

def isJson (p : Path) : Bool := p.suffix.map Char.toLower = ".json".toList

def collapse (done : List String) : List String → List String
  | [] => done
  | part :: rest =>
    if part = ".." then collapse done.dropLast rest else collapse (done ++ [part]) rest

def resolve (home : List String) (p : Path) : Path :=
  { root := "/", parts := collapse [] (if p.isAbsolute then p.parts else home ++ p.parts) }

def urlMark : List Char := "file://".toList

/-- A data file by its text: a file URL or an absolute path stands for itself, any other path is
seen from `base`. -/
def locate (base : Option Path) (text : String) : Path :=
  let cs := text.toList
  if urlMark.isPrefixOf (cs.map Char.toLower) then ofChars (cs.drop urlMark.length)
  else
    match base with
    | some base => base.join (ofChars cs)
    | none => ofChars cs

end Path

end Runbook
