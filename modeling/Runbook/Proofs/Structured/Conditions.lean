import Runbook.Proofs.Structured.Following

namespace Runbook

open Runbook.Action Point

def Cond.frame (d : Cond) (place : Nat) : Frame := { place := place, body := .cond d }

namespace Action

variable {p : Program} {d : Cond} {q n place : Nat} {vars : Env} {call : Call} {outer : List Call}
  {f : Frame}

theorem yields_changeCond {how : Cond → Cond} :
    Yields (changeCond how) (still vars (call.push (d.frame q)) outer place) (.ok ())
      (still vars (call.push ((how d).frame q)) outer place) :=
  yields_change (f := d.frame q) rfl

theorem yields_expect :
    Yields (expectTop p f.place) (still vars (call.push f) outer place) (.ok f)
      (still vars (call.push f) outer place) :=
  yields_expectTop rfl

theorem yields_popped :
    Yields pop (still vars (call.push f) outer place) (.ok f)
      (still (vars.restore f.saved) call outer place) :=
  yields_pop rfl

theorem yields_condHere (linked : p.Links place q) :
    Yields (condHere p) (still vars (call.push (d.frame q)) outer place) (.ok (q, d))
      (still vars (call.push (d.frame q)) outer place) :=
  (yields_ownerHere rfl linked).bind (yields_expect.bind yields_pure)

theorem yields_skipBranches {form : Form} (block : p.Spans q form n)
    (bound : n < p.commands.length) :
    Yields (skipBranches p q) (still vars call outer place) (.ok ())
      { still vars call outer place with branch := some n } := by
  have ends : lastOf p q = .ok n := by rw [lastOf, block]
  unfold skipBranches
  rw [ends]
  exact (yields_orFault n _).bind (yields_branchTo bound)

end Action

namespace Point

variable {p : Program} {x y : Scope} {tight : Bool} {fuel : Nat} {call : Call} {outer : List Call}
  {i j m n q place : Nat} {u v : Point} {w : World} {d : Cond} {left elseIfs : List Nat}
  {orElse : Option Nat} {others : Tree} {c : Command}

theorem bland_cond : Bland p (d.frame q) := bland_of_body fun _ body => by cases body

theorem passes_cond (d : Cond) (q : Nat) (k : Jump) : Passes p k (d.frame q) :=
  ⟨by cases k <;> rfl, fun g body => by cases body⟩

theorem releasing_cond (d : Cond) (q : Nat) (r : Result) : r.releasing (d.frame q).saved = r :=
  releasing_nil r

theorem first_branch (branches : Laid p (.branches q left orElse) y m n others) :
    left.headD (orElse.getD n) = m := by
  cases branches with
  | noBranch | elseIf | orElse => rfl

theorem Stands.close_cond [p.Fresh] (closes : p.Does n .endIf) (linked : p.Links n q)
    (stands : Stands p u n (call.push (d.frame q)) outer w) :
    Stands p (tick p u) (n + 1) call outer w := by
  obtain ⟨c, has, verb⟩ := Option.bind_eq_some_iff.mp closes
  have lap := stands.lap has verb
  have ended : Yields (endIf p) (still w.vars (call.push (d.frame q)) outer n) (.ok ())
      (still w.vars call outer n) :=
    (yields_ownerHere rfl linked).bind (yields_expect.bind (yields_popped.bind yields_pure))
  exact (lap.done _ ended).stands_next

theorem Stands.skip_branches {form : Form} [p.Fresh] (block : p.Spans q form n)
    (bound : n < p.commands.length) (decided : d.decided = true)
    (branches : Laid p (.branches q left orElse) y m n others)
    (stands : Stands p u m (call.push (d.frame q)) outer w) :
    ∃ v, Leads p u v ∧ Stands p v n (call.push (d.frame q)) outer w := by
  cases branches with
  | noBranch => exact ⟨u, .refl, stands⟩
  | @elseIf _ _ _ _ _ c _ _ _ _ has verb linked _ _ =>
    have lap :
        Doing p (tick p u) m (if d.decided then skipBranches p q else choose p q c.target) _ _ :=
      (stands.lap has verb).step (yields_condHere linked)
    rw [if_pos decided] at lap
    exact ⟨tick p u, leads_tick, (lap.done _ (yields_skipBranches block bound)).stands_branch⟩
  | orElse has verb linked _ =>
    have lap : Doing p (tick p u) m (if d.decided then skipBranches p q else pure ()) _ _ :=
      (stands.lap has verb).step (yields_condHere linked)
    rw [if_pos decided] at lap
    exact ⟨tick p u, leads_tick, (lap.done _ (yields_skipBranches block bound)).stands_branch⟩

theorem follows_choose {condition : String} {yes no : World → Result}
    (block : p.Spans q (.cond elseIfs orElse) n) (bound : n < p.commands.length)
    (branches : Laid p (.branches q left orElse) y m n others)
    (doing : Doing p u place (choose p q condition)
      (still w.vars (call.push ({ left := left : Cond }.frame q)) outer place) w.lines)
    (does : ∀ w, Stands p u (place + 1)
      (call.push ({ left := left, decided := true : Cond }.frame q)) outer w →
      Follows p x tight fuel call outer j u (yes w))
    (other : ∀ w, Stands p u m (call.push ({ left := left.tail : Cond }.frame q)) outer w →
      Follows p x tight fuel call outer j u (no w)) :
    Follows p x tight fuel call outer j u
      (w.act place (holds p condition) fun holds w => if holds then yes w else no w) := by
  have inside : Follows p x tight fuel call outer j u
      (Result.releasing ({ left := left : Cond }.frame q).saved
        (w.act place (holds p condition) fun holds w => if holds then yes w else no w)) := by
    refine doing.act_inside varsOnly_holds bland_cond fun holds vars lap => ?_
    rw [releasing_cond]
    cases holds with
    | true => exact does _ (lap.done _ yields_changeCond).stands_next
    | false =>
      have begins := first_branch branches
      have bound : m < p.commands.length := Nat.lt_of_le_of_lt branches.le bound
      have parts : condAt p q = .ok (orElse, n) := by rw [condAt, block]
      have lap := (lap.step yields_expect).step (by rw [parts]; exact yields_orFault _ _)
      cases left with
      | nil =>
        cases (begins : orElse.getD n = m)
        exact other _ (lap.done _ (yields_branchTo bound)).stands_branch
      | cons next rest =>
        cases (begins : next = m)
        exact other _ (lap.done _ (yields_changeCond.bind (yields_branchTo bound))).stands_branch
  rwa [releasing_cond] at inside

theorem Stands.open_cond [p.Fresh] (has : p.Has i c) (opens : c.verb? = some .openIf)
    (block : p.Spans i (.cond elseIfs orElse) n) (stands : Stands p u i call outer w) :
    Doing p (tick p u) i (choose p i c.target)
      (still w.vars (call.push ({ left := elseIfs : Cond }.frame i)) outer i)
      w.lines :=
  ((stands.lap has opens).step (yields_openerHere rfl block)).step yields_push

theorem Stands.try_branch [p.Fresh] (has : p.Has i c) (verb : c.verb? = some .elseIf)
    (linked : p.Links i q) (undecided : d.decided = false)
    (stands : Stands p u i (call.push (d.frame q)) outer w) :
    Doing p (tick p u) i (choose p q c.target) (still w.vars (call.push (d.frame q)) outer i)
      w.lines := by
  have lap :
      Doing p (tick p u) i (if d.decided then skipBranches p q else choose p q c.target) _ _ :=
    (stands.lap has verb).step (yields_condHere linked)
  rwa [undecided] at lap

theorem Stands.take_else [p.Fresh] (has : p.Has i c) (verb : c.verb? = some .orElse)
    (linked : p.Links i q) (undecided : d.decided = false)
    (stands : Stands p u i (call.push (d.frame q)) outer w) :
    Stands p (tick p u) (i + 1) (call.push (d.frame q)) outer w := by
  have lap : Doing p (tick p u) i (if d.decided then skipBranches p q else pure ()) _ _ :=
    (stands.lap has verb).step (yields_condHere linked)
  rw [undecided] at lap
  exact lap.stands

theorem Follows.close_branch {r : Result} [p.Fresh] (closes : p.Does n .endIf)
    (linked : p.Links n q) (body : Follows p x tight fuel (call.push (d.frame q)) outer m u r)
    (skips : ∀ v w, Stands p v m (call.push (d.frame q)) outer w →
      ∃ v', Leads p v v' ∧ Stands p v' n (call.push (d.frame q)) outer w) :
    Follows p x tight fuel call outer (n + 1) u r := by
  have closed : Follows p x tight fuel call outer (n + 1) u (r.releasing (d.frame q).saved) := by
    refine body.close bland_cond (fun k _ _ allowed => ⟨allowed, passes_cond d q k⟩)
      fun v w stands => ?_
    obtain ⟨v', leads, stands⟩ := skips v w stands
    exact ⟨tick p v', leads.trans leads_tick, stands.close_cond closes linked⟩
  rwa [releasing_cond] at closed

end Point

end Runbook
