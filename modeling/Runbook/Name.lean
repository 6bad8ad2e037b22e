import Runbook.Error
import Runbook.Text.Word

namespace Runbook.Name

def isLetter (c : Char) : Bool := c.isAlpha

def validChars : List Char → Bool
  | [] => false
  | c :: rest =>
    isLetter c && (rest.dropWhile Text.isWord == [] || rest.dropWhile Text.isWord == ['\n'])

def isValid (name : String) : Bool := validChars name.toList

def invalid (name what : String) (index : Option Int) : Error :=
  { kind := .eval, message := "Invalid character(s) in " ++ what ++ " name: '" ++ name ++ "'",
    index := index }

def validate (what : String) (index : Option Int) (name : String) : Except Error String :=
  if isValid name then .ok name else .error (invalid name what index)

def validateAll (what : String) (index : Option Int) : List String → Except Error (List String)
  | [] => .ok []
  | name :: rest => do return (← validate what index name) :: (← validateAll what index rest)

end Runbook.Name
