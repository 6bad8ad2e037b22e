import Runbook.Outline.Basic

namespace Runbook

structure Region where
  first : Nat
  last : Nat
  title : String
  deriving DecidableEq, Repr

namespace Region

def spanText (r : Region) : String :=
  " @[" ++ toString (r.first + 1) ++ "-" ++ toString (r.last + 1) ++ "]"

def segmentTitle (segment name : String) : String :=
  segment ++ "-block" ++
    (if name = "" then "" else (if segment = "try" then "" else " for") ++ " '" ++ name ++ "'")

def segments (place : Nat) (catchAt finallyAt : Option Nat) : List (Nat × String) :=
  (place, "try") :: (catchAt.map (·, "catch")).toList ++ (finallyAt.map (·, "finally")).toList

/-- The segment that holds a place; each ends where the next begins, and the last one holds its
end. -/
def segmentAt? (name : String) (last locus : Nat) : List (Nat × String) → Option Region
  | [] => none
  | [(first, segment)] =>
    if first ≤ locus ∧ locus ≤ last then some ⟨first, last, segmentTitle segment name⟩ else none
  | (first, segment) :: (next, other) :: rest =>
    if first ≤ locus ∧ locus < next then some ⟨first, next, segmentTitle segment name⟩
    else segmentAt? name last locus ((next, other) :: rest)

def ofBlock? (place : Nat) (form : Form) (last locus : Nat) : Option Region :=
  match form with
  | .loop kind => some ⟨place, last, kind.word ++ " loop"⟩
  | .function _ name => some ⟨place, last, "function '" ++ name ++ "'"⟩
  | .guard name catchAt finallyAt => segmentAt? name last locus (segments place catchAt finallyAt)
  | .cond _ _ => none

end Region

structure Extent where
  place : Nat
  form : Form
  last : Nat
  deriving DecidableEq, Repr

namespace Extent

def holds (e : Extent) (locus : Nat) : Bool := e.place < locus && locus ≤ e.last

def isRegion (e : Extent) : Bool :=
  match e.form with
  | .cond _ _ => false
  | _ => true

def later (a b : Extent) : Extent := if a.place < b.place then b else a

end Extent

namespace Outline

def extents (o : Outline) : List Extent :=
  o.blocks.filterMap fun (place, b) =>
    match b with
    | .opener form last => some ⟨place, form, last⟩
    | .partner _ => none

def around? (o : Outline) (locus : Nat) : Option Extent :=
  match o.extents.filter fun e => e.isRegion && e.holds locus with
  | [] => none
  | e :: rest => some (rest.foldl Extent.later e)

/-- The innermost region around a place; there is none before the first command. -/
def region? (o : Outline) (locus : Int) : Option Region :=
  if locus < 0 then none
  else (o.around? locus.toNat).bind fun e => Region.ofBlock? e.place e.form e.last locus.toNat

end Outline

end Runbook
