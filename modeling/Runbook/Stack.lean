namespace Runbook.Stack

variable {α : Type}

/-- The stack from its topmost wanted element down; the search gives up at the first element where
it has to stop. -/
def downFrom? (wanted stop : α → Bool) : List α → Option (List α)
  | [] => none
  | top :: rest =>
    if wanted top then some (top :: rest) else if stop top then none else downFrom? wanted stop rest

def enclosing? (wanted stop : α → Bool) (s : List α) : Option α :=
  (downFrom? wanted stop s).bind List.head?

def position? (wanted stop : α → Bool) (s : List α) : Option Nat :=
  (downFrom? wanted stop s).map fun part => part.length - 1

/-- The elements above the topmost wanted one, and the stack from there down. -/
def unwind (wanted : α → Bool) (s : List α) : List α × List α := s.span fun x => !wanted x

end Runbook.Stack
