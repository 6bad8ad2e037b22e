import Runbook.Pattern.Basic

namespace Runbook

inductive Kind
  | engine
  | structural
  | jump
  | scope
  | eval
  | undefined
  | datafile
  | command
  | load
  deriving DecidableEq, Repr

def Kind.name : Kind → String
  | .engine => "engine"
  | .structural => "structural"
  | .jump => "jump"
  | .scope => "scope"
  | .eval => "eval"
  | .undefined => "undefined"
  | .datafile => "datafile"
  | .command => "command"
  | .load => "load"

def Kind.isFatal : Kind → Bool
  | .structural | .scope | .undefined => true
  | _ => false

/-- `index` is the place of the command that failed, `prior` that of a second one it clashes
with. -/
structure Error where
  kind : Kind
  message : String
  index : Option Int := none
  prior : Option Int := none
  deriving DecidableEq, Repr

def Error.locate (e : Error) (place : Option Int) : Error :=
  { e with index := e.index.or place }

inductive Fault
  | tooManyDigits
  | tooDeep
  | troubled (t : Pattern.Trouble)
  | badEncoding
  | nameTooLong
  | denied
  | unshown
  | noLength (type : String)
  | notNumeric
  | noSuchKey (key : String)
  | noSuchItem
  | emptyStack
  | noCommand
  | noBlock
  | noOwner
  | noPlace
  | missingFolder
  | notAFolder
  | notAFile
  deriving DecidableEq, Repr

def Fault.message : Fault → String
  | tooManyDigits =>
    "Exceeds the limit (4300 digits) for integer string conversion; " ++
      "use sys.set_int_max_str_digits() to increase the limit"
  | tooDeep => "maximum recursion depth exceeded"
  | troubled t => t.message
  | badEncoding => "'utf-8' codec can't decode bytes"
  | nameTooLong => "File name too long"
  | denied => "Permission denied"
  | unshown => "'utf-8' codec can't encode characters"
  | noLength type => "object of type '" ++ type ++ "' has no len()"
  | notNumeric => "'<=' not supported between instances of 'int' and 'NoneType'"
  | noSuchKey key => key
  | noSuchItem => "list index out of range"
  | emptyStack => "pop from empty list"
  | noCommand => "'NoneType' object has no attribute 'base_name'"
  | noBlock => "'NoneType' object has no attribute 'idx'"
  | noOwner => "'NoneType' object has no attribute 'owner_idx'"
  | noPlace => ""
  | missingFolder => "No such file or directory"
  | notAFolder => "Not a directory"
  | notAFile => "Is a directory"

inductive Failure
  | error (e : Error)
  | fault (f : Fault)
  deriving DecidableEq, Repr

namespace Failure

def message : Failure → String
  | error e => e.message
  | fault f => f.message

def isFatal : Failure → Bool
  | error e => e.kind.isFatal
  | fault _ => false

def locate (f : Failure) (place : Option Int) : Failure :=
  match f with
  | error e => .error (e.locate place)
  | fault f => .fault f

end Failure

end Runbook
