import Runbook.Text.Blank

namespace Runbook.Split

/-- Where a scan stands: how many brackets are open, the quote that it is inside of, and whether the
next character there is taken as it is. -/
structure Place where
  depth : Int := 0
  quote : Option Char := none
  escaped : Bool := false
  deriving DecidableEq, Repr

def Place.isPlain (p : Place) : Bool := p.depth == 0 && p.quote == none

def Place.step (p : Place) (c : Char) : Place :=
  match p.quote with
  | some quote =>
    if p.escaped then { p with escaped := false }
    else if c = '\\' then { p with escaped := true }
    else if c = quote then { p with quote := none }
    else p
  | none =>
    if c = '\'' || c = '"' then { p with quote := some c }
    else if c = '(' || c = '[' || c = '\x7b' then { p with depth := p.depth + 1 }
    else if c = ')' || c = ']' || c = '\x7d' then { p with depth := p.depth - 1 }
    else p

/-- The parts of the rest of a text; `part` is the current one reversed. -/
def partsFrom (sep : Char) (p : Place) (part : List Char) : List Char → List (List Char)
  | [] => [part.reverse]
  | c :: rest =>
    if c = sep && p.isPlain && p.step c = p then part.reverse :: partsFrom sep p [] rest
    else partsFrom sep (p.step c) (c :: part) rest

def items (sep : Char) (cs : List Char) : List (List Char) :=
  let parts := (partsFrom sep {} [] cs).map Text.trim
  if parts = [[]] then [] else parts

def list (sep : Char) (text : String) : List String := (items sep text.toList).map String.ofList

end Runbook.Split
