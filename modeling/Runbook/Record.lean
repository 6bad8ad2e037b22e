namespace Runbook

abbrev Record (α : Type) := List (String × α)

namespace Record

variable {α : Type}

def get? (r : Record α) (name : String) : Option α :=
  match r with
  | [] => none
  | (key, value) :: rest => if key = name then some value else get? rest name

def has (r : Record α) (name : String) : Bool := (get? r name).isSome

def set (r : Record α) (name : String) (value : α) : Record α :=
  match r with
  | [] => [(name, value)]
  | (key, old) :: rest =>
    if key = name then (key, value) :: rest else (key, old) :: set rest name value

def erase (r : Record α) (name : String) : Record α := r.filter fun entry => entry.1 ≠ name

def names (r : Record α) : List String := r.map Prod.fst

def override (r : Record α) (entries : List (String × α)) : Record α :=
  entries.foldl (fun r entry => set r entry.1 entry.2) r

def ofEntries (entries : List (String × α)) : Record α := override [] entries

end Record

end Runbook
