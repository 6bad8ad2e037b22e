import Runbook.Proofs.Run.Driven
import Runbook.Proofs.Run.Standing

namespace Runbook

open Runbook.Action

/-- In every machine that an engine can come to, a failure goes to the innermost guard that takes
it, from the one that listens on outward. What lies in between is left, with its variables put
back. -/
theorem failure_routed {q p : Program} {m m' : Machine} {e : Failure} {r : Except Failure Bool}
    (outlined : q.outlined = .ok p) (driven : Driven p m) (ran : Ran (route p e) m r m') :
    Routes p (e.locate m.here) (m.here.getD (-1)) m r m' := by
  obtain ⟨_, _⟩ := faithful_of_outlined outlined
  exact ran_route_layers driven.grounded ran

/-- A guard around a call that fails inside a guard in a loop. The outer filter is a variable that
the loop uses as well. -/
def filterOfLoopName : Program := .ofCommands
  [{ name := "function", target := "f" }, { name := "foreach", target := "x", value := "1,2" },
   { name := "try", target := "inner" }, { name := "throwError", target := "bad 5" },
   { name := "catch", target := "'no'" }, { name := "endTry" }, { name := "endForeach" },
   { name := "endFunction" }, { name := "try", target := "outer" },
   { name := "call", target := "f" }, { name := "catch", target := "x" }, { name := "endTry" }]

def atInnerGuard : Machine :=
  (Session.runFor filterOfLoopName 7 { machine := { vars := [("x", .text "bad")] } }).1.machine

def badFive : Failure := .error { kind := .command, message := "bad 5" }

theorem failure_routed_filterOfLoopName :
    atInnerGuard.layers.length = 5 ∧
      (atInnerGuard.vars.get? "x").map Value.toText = some (.ok "1") ∧
      ∃ r m', Ran (route filterOfLoopName badFive) atInnerGuard r m' ∧
      Routes filterOfLoopName (badFive.locate atInnerGuard.here) (atInnerGuard.here.getD (-1))
        atInnerGuard r m' ∧
      r = .ok true ∧ m'.branch = some 10 ∧ m'.layers.length = 2 ∧
        (m'.vars.get? "x").map Value.toText = some (.ok "bad") := by
  have driven : Driven filterOfLoopName atInnerGuard := by
    unfold atInnerGuard
    exact Session.driven_runFor 7 (.start rfl)
  have outlined : filterOfLoopName.outlined = .ok filterOfLoopName := rfl
  have ran := ran_self (route filterOfLoopName badFive) atInnerGuard
  refine ⟨by decide +kernel, by decide +kernel, _, _, ran, failure_routed outlined driven ran,
    ?_, ?_, ?_, ?_⟩
  all_goals decide +kernel

end Runbook
