/-!
Search patterns. A pattern is known by its text and its flags; which texts are patterns, and in
which texts one is found, is up to a matcher.
-/

namespace Runbook

namespace Pattern

structure Flags where
  ignoreCase : Bool := false
  multiline : Bool := false
  dotAll : Bool := false
  verbose : Bool := false
  ascii : Bool := false
  template : Bool := false
  deriving DecidableEq, Repr

def Flags.ofLetters (letters : List Char) : Flags :=
  { ignoreCase := letters.contains 'i', multiline := letters.contains 'm',
    dotAll := letters.contains 's' }

inductive Trouble.Kind
  | overflow
  | value
  | recursion
  | memory
  deriving DecidableEq, Repr

/-- What keeps a text from being read as a pattern without being a matter of its form. -/
structure Trouble where
  kind : Trouble.Kind
  message : String
  deriving DecidableEq, Repr

inductive Failure
  | malformed (message : String)
  | troubled (t : Trouble)
  deriving DecidableEq, Repr

end Pattern

/-- A pattern keeps the text that it was read from. Its flags are those given with the text and
those that the text sets. -/
structure Pattern where
  source : String
  flags : Pattern.Flags
  deriving DecidableEq, Repr

/-- What texts mean as patterns. From a text and the flags given with it, `compile` tells all flags
of the pattern, or why there is none. -/
structure Matcher where
  compile : String → Pattern.Flags → Except Pattern.Failure Pattern.Flags
  finds : Pattern → String → Bool

def Matcher.read (patterns : Matcher) (source : String) (flags : Pattern.Flags) :
    Except Pattern.Failure Pattern :=
  (patterns.compile source flags).map fun flags => ⟨source, flags⟩

end Runbook
