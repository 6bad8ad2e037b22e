namespace Runbook.Text

/-- The ranges behind a code point. Each is given by the distance to its beginning and the distance
from there to its end. -/
def spread (last : Nat) : List Nat → List (Nat × Nat)
  | gap :: length :: rest => (last + gap, last + gap + length) :: spread (last + gap + length) rest
  | _ => []

def inRanges (ranges : List (Nat × Nat)) (c : Char) : Bool :=
  ranges.any fun (low, high) => low ≤ c.toNat && c.toNat ≤ high

end Runbook.Text
