import Runbook.Error
import Runbook.Value.Text

/-!
What the surroundings of a run can bear. Texts and values may nest too deep for them, and their
output may be unable to show a line.
-/

namespace Runbook

/-- `reads` is about the texts of expressions, `decodes` about JSON, `spells` about values that are
to be written out, and `shows` about the lines of the output. -/
structure Limits where
  reads : String → Bool := fun _ => true
  decodes : List Char → Bool := fun _ => true
  spells : Value → Bool := fun _ => true
  shows : String → Bool := fun _ => true

def Limits.spell (limits : Limits) : Value → Except Fault String
  | .text s => .ok s
  | v => if limits.spells v then v.toText.mapError fun _ => .tooManyDigits else .error .tooDeep

end Runbook
