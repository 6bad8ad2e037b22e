import Runbook.Value.Basic

namespace Runbook

abbrev Env := Record Value

/-- The values of some names at one moment; none for a name that was not defined. -/
abbrev Snapshot := Record (Option Value)

namespace Env

def capture (env : Env) (names : List String) : Snapshot :=
  names.foldl
    (fun saved name => if saved.has name then saved else saved ++ [(name, env.get? name)]) []

def restoreEntry (env : Env) (entry : String × Option Value) : Env :=
  match entry.2 with
  | some value => env.set entry.1 value
  | none => env.erase entry.1

def restore (env : Env) (saved : Snapshot) : Env := saved.foldl restoreEntry env

def declare (env : Env) (names : List String) : Env :=
  names.foldl (fun env name => if env.has name then env else env.set name .null) env

def assign (env : Env) (values : List (String × Value)) : Env := env.override values

end Env

end Runbook
