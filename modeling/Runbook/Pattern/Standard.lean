import Runbook.Pattern.Read
import Runbook.Pattern.Search

namespace Runbook

/-- The usual patterns, where `letters` tells the characters that have names. -/
def Matcher.withLetters (letters : String → Option Char) : Matcher where
  compile source flags := (Pattern.readText letters source flags).map Prod.snd
  finds p text :=
    match Pattern.readText letters p.source p.flags with
    | .ok (body, flags) => body.foundIn flags text
    | .error _ => false

def Matcher.standard : Matcher := .withLetters fun _ => none

end Runbook
