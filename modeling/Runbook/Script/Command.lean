namespace Runbook

/-- A command that is not executable is a comment, kept for its place. -/
structure Command where
  name : String
  target : String := ""
  value : String := ""
  executable : Bool := true
  deriving DecidableEq, Repr

namespace Command

def waitMark : List Char := "AndWait".toList

def beforeWait? : List Char → Option (List Char)
  | [] => none
  | c :: rest =>
    if waitMark.isPrefixOf (c :: rest) then some [] else (beforeWait? rest).map (c :: ·)

def baseName (c : Command) : String :=
  match beforeWait? c.name.toList with
  | some before => String.ofList before
  | none => c.name

def waits (c : Command) : Bool := (beforeWait? c.name.toList).isSome

def field (text : String) : String := if text.isEmpty then "" else "|" ++ text

def text (c : Command) : String := "[" ++ c.name ++ field c.target ++ field c.value ++ "]"

end Command

def commandAt? (commands : List Command) (place : Int) : Option Command :=
  if place < 0 then none else commands[place.toNat]?

def reference (commands : List Command) (place : Int) : String :=
  match commandAt? commands place with
  | some c => "@" ++ toString (place + 1) ++ ": " ++ c.text
  | none => "@" ++ toString (place + 1)

end Runbook
