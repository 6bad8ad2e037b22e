import Runbook.Proofs.Structured.Conditions

namespace Runbook

open Runbook.Action Point

namespace Action

variable {p : Program} {g : Guard} {q place : Nat} {vars : Env} {call : Call} {outer : List Call}
  {m : Machine}

theorem yields_logDepth {sign : String} : Yields (logDepth sign) m (.ok ()) m :=
  .get fun _ => yields_log

theorem yields_guardHere (linked : p.Links place q) :
    Yields (guardHere p) (still vars (call.push (g.frame q)) outer place) (.ok (q, g))
      (still vars (call.push (g.frame q)) outer place) :=
  (yields_ownerHere rfl linked).bind (yields_expect.bind yields_pure)

theorem alike_endTry (linked : p.Links place q) :
    Alike (endTry p) (still vars (call.push (g.frame q)) outer place) (match g.pending with
      | none => pure ()
      | some bubble => release p bubble) (still vars call outer place) := by
  have owner : Yields (ownerHere p) (still vars (call.push (g.frame q)) outer place) (.ok q)
      (still vars (call.push (g.frame q)) outer place) := yields_ownerHere rfl linked
  refine owner.alike.trans ((yields_expect.alike).trans (yields_popped.alike.trans ?_))
  dsimp only [Guard.frame]
  split
  · exact yields_logDepth.alike.trans yields_log.alike
  · exact yields_log.alike

end Action

namespace Point

variable {p : Program} {x : Scope} {tight : Bool} {fuel : Nat} {call : Call} {outer : List Call}
  {i j k n q last : Nat} {u v : Point} {w : World} {g : Guard} {c : Command} {name : String}
  {catchAt finallyAt : Option Nat} {completion : Completion} {r : Result}

def entered (c : Command) (catchAt finallyAt : Option Nat) : Guard :=
  { name := c.target, phase := if catchAt.isNone && finallyAt.isNone then none else some .trying }

theorem Stands.open_guard [p.Fresh] (has : p.Has i c) (opens : c.verb? = some .openTry)
    (block : p.Spans i (.guard name catchAt finallyAt) last) (stands : Stands p u i call outer w) :
    Stands p (tick p u) (i + 1) (call.push ((entered c catchAt finallyAt).frame i)) outer w := by
  have lap := stands.lap has opens
  have opened : Yields (openTry p c) (still w.vars call outer i) (.ok ())
      (still w.vars (call.push ((entered c catchAt finallyAt).frame i)) outer i) := by
    refine .get fun logs => ?_
    dsimp only [still]
    rw [blockAt?_nat, block]
    refine yields_push.bind ?_
    cases catchAt with
    | none =>
      cases finallyAt with
      | none => exact yields_log
      | some n => exact (yields_changeGuard (g := { name := c.target }) _).bind yields_logDepth
    | some n =>
      exact yields_log.bind
        ((yields_changeGuard (g := { name := c.target }) _).bind yields_logDepth)
  exact (lap.done _ opened).stands_next

section

variable [p.Fresh] (has : p.Has j c) (linked : p.Links j q)
  (stands : Stands p u j (call.push (g.frame q)) outer w)

include has linked stands

theorem Stands.lap_catch (verb : c.verb? = some .openCatch) :
    Doing p (tick p u) j (do
      if g.phase ≠ some .catching then
        let s ← orFault (segmentsOf p q)
        branchTo p ((s.finallyAt.getD s.last : Nat) : Int))
          (still w.vars (call.push (g.frame q)) outer j) w.lines :=
  (stands.lap has verb).step (yields_guardHere linked)

theorem Stands.skip_catch (verb : c.verb? = some .openCatch)
    (block : p.Spans q (.guard name catchAt finallyAt) last) (other : g.phase ≠ some .catching)
    (bound : finallyAt.getD last < p.commands.length) :
    Stands p (tick p u) (finallyAt.getD last) (call.push (g.frame q)) outer w := by
  have lap := stands.lap_catch has linked verb
  rw [if_pos other, segmentsOf_guard block] at lap
  exact (lap.done _ ((yields_orFault _ _).bind (yields_branchTo bound))).stands_branch

theorem Stands.enter_catch (verb : c.verb? = some .openCatch)
    (catching : g.phase = some .catching) :
    Stands p (tick p u) (j + 1) (call.push (g.frame q)) outer w := by
  have lap := stands.lap_catch has linked verb
  rw [if_neg (by rw [catching]; simp)] at lap
  exact lap.stands

theorem Stands.enter_last (verb : c.verb? = some .openFinally) (loud : g.phase.isSome = true)
    (finishing : g.finaled = true → g.phase = some .finishing) :
    Stands p (tick p u) (j + 1) (call.push (g.finishing.frame q)) outer w := by
  have lap : Doing p (tick p u) j (do
      if g.phase.isSome ∧ ¬ g.finaled then changeGuard Guard.finishing
      logEvent .info .guard "entering finally block") _ _ := (stands.lap has verb).step
        (yields_guardHere linked)
  cases fresh : g.finaled with
  | false =>
    rw [if_pos ⟨loud, by rw [fresh]; simp⟩] at lap
    exact (lap.done _ ((yields_changeGuard _).bind yields_log)).stands_next
  | true =>
    have same : g.finishing = g := by rw [Guard.finishing, ← fresh, ← finishing fresh]
    rw [if_neg (fun both => both.2 fresh)] at lap
    rw [same]
    exact (lap.done _ yields_log).stands_next

end

def Pending (p : Program) (x : Scope) (call : Call) (b : Option Bubble) : Completion → Prop
  | .normal => b = none
  | .failed e =>
    e.kind.isFatal = false ∧ e.index.isSome = true ∧ ∃ source, b = some (.failure (.error e) source)
  | .jump k => x.allows k = true ∧ ∃ n cmd, b = some (k.bubble (some ((n : Nat) : Int))) ∧
      p.Has n cmd ∧ cmd.verb? = some k.verb ∧
      (k = .back → ∃ q, p.Links n q ∧ call.function = some q)
  | .aborted _ => False

theorem Raising.pending {e : Error} {source : Int} {around : Call}
    (raising : Raising p tight u e call outer w) :
    Pending p x around (some (.failure (.error e) source)) (.failed e) :=
  ⟨raising.common, raising.placed, source, rfl⟩

theorem Leaving.pending {k : Jump} {around : Call} (leaving : Leaving p u k n c call outer w)
    (allowed : x.allows k = true) (same : call.function = around.function) :
    Pending p x around (some (k.bubble (some (n : Int)))) (.jump k) :=
  ⟨allowed, n, c, rfl, leaving.there, leaving.verb, same ▸ leaving.own⟩

theorem Stands.close_guard [p.Fresh] (closes : p.Does k .endTry) (linked : p.Links k q)
    (waits : Pending p x call g.pending completion)
    (stands : Stands p u k (call.push (g.frame q)) outer w) :
    Follows p x tight fuel call outer (k + 1) u (some (completion, w)) := by
  obtain ⟨c, has, verb⟩ := Option.bind_eq_some_iff.mp closes
  have lap := (stands.lap has verb).congr (alike_endTry linked)
  refine .of_tick ?_
  match completion with
  | .normal =>
    rw [show g.pending = none from waits] at lap
    exact lap.stands.follows
  | .failed e =>
    obtain ⟨common, placed, source, waits⟩ := waits
    rw [waits] at lap
    have thrown := lap.failed e (still w.vars call outer k) rfl (.after_log yields_throw)
    rw [locate_eq placed] at thrown
    exact ⟨_, .refl, common, placed, k, .inl thrown⟩
  | .jump j =>
    obtain ⟨allowed, n, cmd, waits, has, verb, own⟩ := waits
    rw [waits] at lap
    exact ⟨allowed, _, n, cmd, .refl, .of_release has verb own lap⟩

theorem follows_last [p.Fresh] (block : p.Spans q (.guard name catchAt finallyAt) last)
    (closes : p.Does last .endTry) (linked : p.Links last q) (finishing : g.phase = some .finishing)
    (finaled : g.finaled = true) (waits : Pending p x call g.pending completion)
    (body : Follows p x true fuel (call.push (g.frame q)) outer last u r) :
    Follows p x false fuel call outer (last + 1) u (r.keeping completion) := by
  have bound := lt_length_of_verbAt closes
  have paid : (finallyAt.isSome && !g.finaled) = false := by rw [finaled]; simp
  match r with
  | none => exact body
  | some (.normal, w) =>
    obtain ⟨v, leads, stands⟩ := body
    exact (stands.close_guard closes linked waits).of_leads leads
  | some (.jump k, w) =>
    obtain ⟨allowed, v, n, cmd, leads, leaving⟩ := body
    cases pending : g.pending with
    | none =>
      exact ⟨allowed, v, n, cmd, leads, leaving.shed (passes_guard block (fun _ => pending) paid)⟩
    | some prior =>
      have stands := leaving.replace block finishing (by rw [pending]; rfl) bound
      exact (stands.close_guard closes linked (leaving.pending allowed rfl)).of_leads leads
  | some (.failed e, w) =>
    obtain ⟨v, leads, raising⟩ := body
    rcases raising.spent (by rw [finishing]; rfl) (by rw [finishing]; simp) bound block paid with
      ⟨source, stands⟩ | ⟨loose, _⟩
    · exact (stands.close_guard closes linked raising.pending).of_leads leads
    · cases loose
  | some (.aborted _, _) => exact body

structure Ready (catchAt finallyAt : Option Nat) (g : Guard) : Prop where
  fresh : g.finaled = false
  idle : g.pending = none
  phase : g.phase = some .trying ∨ g.phase = some .catching ∨ g.phase = none ∧ catchAt = none ∧
    finallyAt = none

theorem follows_unfinished [p.Fresh] (block : p.Spans q (.guard name catchAt none) last)
    (closes : p.Does last .endTry) (linked : p.Links last q) (ready : Ready catchAt none g)
    (body : Follows p x false fuel (call.push (g.frame q)) outer last u r)
    (refuses : ∀ e w, r = some (.failed e, w) → Refuses p e (g.frame q)) :
    Follows p x false fuel call outer (last + 1) u r := by
  have paid : ((none : Option Nat).isSome && !g.finaled) = false := rfl
  match r with
  | none => exact body
  | some (.normal, w) =>
    obtain ⟨v, leads, stands⟩ := body
    have waits : Pending p x call g.pending .normal := ready.idle
    exact (stands.close_guard closes linked waits).of_leads leads
  | some (.jump k, w) =>
    obtain ⟨allowed, v, n, cmd, leads, leaving⟩ := body
    exact ⟨allowed, v, n, cmd, leads, leaving.shed (passes_guard block (fun _ => ready.idle) paid)⟩
  | some (.failed e, w) =>
    obtain ⟨v, leads, raising⟩ := body
    have refuses := refuses e w rfl
    have owed : owesFinally p (g.frame q) = .ok false := owesFinally_frame block
    rcases ready.phase with trying | catching | ⟨silent, _⟩
    · exact ⟨v, leads, raising.refused trying refuses owed⟩
    · rcases raising.spent (by rw [catching]; rfl) (by rw [catching]; simp)
        (lt_length_of_verbAt closes) block paid with
        ⟨source, stands⟩ | ⟨_, further⟩
      · exact (stands.close_guard closes linked raising.pending).of_leads leads
      · exact ⟨v, leads, further refuses⟩
    · have quiet : (g.frame q).intercepts = false := by
        show g.phase.isSome = false
        rw [silent]
        rfl
      exact ⟨v, leads, raising.shed quiet refuses owed⟩
  | some (.aborted _, _) => exact body

theorem follows_finish {lasts : World → Result} [p.Fresh]
    (block : p.Spans q (.guard name catchAt (some n)) last) (has : p.Has n c)
    (verb : c.verb? = some .openFinally) (owned : p.Links n q) (closes : p.Does last .endTry)
    (linked : p.Links last q)
    (finishes : ∀ (g : Guard) v w, Stands p v (n + 1) (call.push (g.frame q)) outer w →
      Follows p x true fuel (call.push (g.frame q)) outer last v (lasts w))
    (ready : Ready catchAt (some n) g)
    (body : Follows p x false fuel (call.push (g.frame q)) outer n u r)
    (refuses : ∀ e w, r = some (.failed e, w) → Refuses p e (g.frame q)) :
    Follows p x false fuel call outer (last + 1) u (r.finishing lasts) := by
  have bound := has.lt
  have loud : g.phase = some .trying ∨ g.phase = some .catching := by
    rcases ready.phase with trying | catching | ⟨_, _, wrong⟩
    · exact .inl trying
    · exact .inr catching
    · cases wrong
  -- from where the guard is finishing, whatever waits there
  have further {g : Guard} {v : Point} {w : World} (completion : Completion) (leads : Leads p u v)
      (stands : Stands p v n (call.push (g.frame q)) outer w) (phase : g.phase.isSome = true)
      (finishing : g.finaled = true → g.phase = some .finishing)
      (waits : Pending p x call g.pending completion) :
      Follows p x false fuel call outer (last + 1) u ((lasts w).keeping completion) := by
    have body := finishes _ _ _ (stands.enter_last has owned verb phase finishing)
    have waits : Pending p x call g.finishing.pending completion := waits
    exact (follows_last block closes linked rfl rfl waits body).of_tick.of_leads leads
  match r with
  | none => exact body
  | some (.normal, w) =>
    obtain ⟨v, leads, stands⟩ := body
    refine further .normal leads stands ?_ (fun finaled => ?_) ready.idle
    · rcases loud with phase | phase <;> rw [phase] <;> rfl
    · rw [ready.fresh] at finaled
      cases finaled
  | some (.jump k, w) =>
    obtain ⟨allowed, v, n', cmd, leads, leaving⟩ := body
    exact further (.jump k) leads (leaving.finish block ready.fresh ready.idle bound) rfl
      (fun _ => rfl) (leaving.pending allowed rfl)
  | some (.failed e, w) =>
    obtain ⟨v, leads, raising⟩ := body
    obtain ⟨source, stands⟩ := raising.suspended loud ready.fresh block bound (refuses e w rfl)
    exact further (.failed e) leads stands rfl (fun _ => rfl) raising.pending
  | some (.aborted _, _) => exact body

theorem ready_entered (c : Command) (catchAt finallyAt : Option Nat) :
    Ready catchAt finallyAt (entered c catchAt finallyAt) := by
  refine ⟨rfl, rfl, ?_⟩
  cases catchAt with
  | some n => exact .inl rfl
  | none =>
    cases finallyAt with
    | some n => exact .inl rfl
    | none => exact .inr (.inr ⟨rfl, rfl, rfl⟩)

theorem catching_none (patterns : Matcher) (r : Result) (handles : World → Result) :
    r.catching patterns none handles = r := by
  match r with
  | none | some (.normal, _) | some (.jump _, _) | some (.failed _, _) | some (.aborted _, _) => rfl

theorem follows_handle {d : Command} {m : Nat} {handles : World → Result} [p.Fresh]
    (evaluator : p.evaluator = evaluate p.patterns)
    (block : p.Spans q (.guard name (some m) finallyAt) last) (has : p.Has m d)
    (verb : d.verb? = some .openCatch) (owned : p.Links m q)
    (literal : IsLiteral p.patterns d.target) (after : finallyAt.getD last = n)
    (bound : n < p.commands.length)
    (catches : ∀ (g : Guard) v w, Stands p v (m + 1) (call.push (g.frame q)) outer w →
      Follows p x false fuel (call.push (g.frame q)) outer n v (handles w))
    (body : Follows p x false fuel (call.push ((entered c (some m) finallyAt).frame q))
      outer m u r) :
    ∃ g, Ready (some m) finallyAt g ∧
      Follows p x false fuel (call.push (g.frame q)) outer n u
        (r.catching p.patterns (some d.target) handles) ∧
      ∀ e w, r.catching p.patterns (some d.target) handles = some (.failed e, w) →
        Refuses p e (g.frame q) := by
  have ready := ready_entered c (some m) finallyAt
  have target : targetAt p m = d.target := by rw [targetAt, has]; rfl
  match r with
  | none => exact ⟨_, ready, body, nofun⟩
  | some (.normal, w) =>
    obtain ⟨v, leads, stands⟩ := body
    subst after
    exact ⟨_, ready,
      ⟨tick p v, leads.trans leads_tick, stands.skip_catch has owned verb block nofun bound⟩, nofun⟩
  | some (.jump _, _) => exact ⟨_, ready, body, nofun⟩
  | some (.failed e, w) =>
    obtain ⟨v, leads, raising⟩ := body
    have result : Result.catching (some (.failed e, w)) p.patterns (some d.target) handles =
      if takes p.patterns d.target e.message then handles w else some (.failed e, w) := rfl
    rw [result]
    cases accepts : takes p.patterns d.target e.message with
    | true =>
      have stands := raising.caught evaluator rfl rfl block has.lt (by rw [target]; exact literal)
        (by rw [target]; exact accepts)
      have handled := catches _ _ _ (stands.enter_catch has owned verb rfl)
      exact ⟨_, ⟨rfl, rfl, .inr (.inl rfl)⟩, handled.of_tick.of_leads leads,
        fun e w _ => refuses_guard evaluator block fun n _ => .inl rfl⟩
    | false =>
      refine ⟨_, ready, ⟨v, leads, raising⟩, fun e' w' same => ?_⟩
      cases same
      refine refuses_guard evaluator block fun n same => .inr ?_
      cases same
      rw [target]
      exact ⟨literal, accepts⟩
  | some (.aborted _, _) => exact ⟨_, ready, body, nofun⟩

end Point

end Runbook
