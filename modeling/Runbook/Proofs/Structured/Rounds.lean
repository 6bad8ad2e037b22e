import Runbook.Proofs.Structured.Conditions
import Runbook.Proofs.Structured.Cursors

namespace Runbook

open Runbook.Action Point

namespace Action

variable {l : Loop} {saved : Snapshot} {q i place : Nat} {vars : Env} {call : Call}
  {outer : List Call}

theorem yields_changeLoop {how : Loop → Loop} :
    Yields (changeLoop how) (still vars (call.push (l.frame q saved)) outer place) (.ok ())
      (still vars (call.push ((how l).frame q saved)) outer place) :=
  yields_change (f := l.frame q saved) rfl

theorem yields_isTop_false (before : ∀ f ∈ call.blocks, f.place < i) :
    Yields (isTop i) (still vars call outer place) (.ok false) (still vars call outer place) := by
  refine yields_blocks.bind ?_
  have blocks : (still vars call outer place).call.blocks = call.blocks := rfl
  rw [blocks]
  cases same : call.blocks with
  | nil => exact yields_pure
  | cons f rest =>
    have other : f.place ≠ i := Nat.ne_of_lt (before f (by rw [same]; simp))
    dsimp only
    rw [decide_eq_false other]
    exact yields_pure

theorem yields_isTop :
    Yields (isTop q) (still vars (call.push (l.frame q saved)) outer place) (.ok true)
    (still vars (call.push (l.frame q saved)) outer place) := by
  refine yields_blocks.bind ?_
  have own : decide ((l.frame q saved).place = q) = true := decide_eq_true rfl
  dsimp only [still, Call.push]
  rw [own]
  exact yields_pure

end Action

namespace Point

variable {α β : Type} {p : Program} {x : Scope} {tight : Bool} {fuel m : Nat} {call : Call}
  {outer : List Call} {i j n q place : Nat} {u v : Point} {w : World} {l : Loop} {saved : Snapshot}
  {kind : LoopKind} {cursor : Cursor} {c cmd : Command} {lines : Array String}
  {body : World → Result}

theorem bland_loop (q : Nat) : Bland p (l.frame q saved) :=
  bland_of_body fun _ body => by cases body

theorem passes_loop {k : Jump} (up : k.ceiling = false) : Passes p k (l.frame q saved) :=
  ⟨by rw [up]; rfl, fun g body => by cases body⟩

theorem Doing.get {f : Machine → Action Unit} {b : Action Unit} {m : Machine}
    (doing : Doing p u place (MonadState.get >>= f) m lines)
    (same : ∀ logs, f { m with logs := logs } = b) : Doing p u place b m lines := by
  refine doing.congr fun logs => ⟨logs, ?_⟩
  show (f { m with logs := logs }).run.run _ = _
  rw [same]

theorem Doing.track {a : Action α} {b : Action β} {R : α → Cursor → β → Prop}
    {next : α → Action Unit} {rest : β → World → Result}
    (doing : Doing p u place (a >>= next)
      (still w.vars (call.looping kind cursor q saved) outer place) w.lines)
    (tracks : Tracks kind a b R cursor)
    (further : ∀ z cursor y vars, R z cursor y →
      Doing p u place (next z) (still vars (call.looping kind cursor q saved) outer place) w.lines →
      Follows p x tight fuel call outer j u ((rest y { w with vars := vars }).releasing saved)) :
    Follows p x tight fuel call outer j u ((w.act place b rest).releasing saved) := by
  have tracked := tracks w.vars call outer q saved place
  unfold World.act
  rcases out : effect b place w.vars with ⟨(e | fault) | y, vars⟩
  all_goals rw [out] at tracked
  · obtain ⟨cursor', fails⟩ := tracked
    exact (doing.failed e _ rfl fails.fail).follows_inside (bland_loop q)
  · obtain ⟨cursor', fails⟩ := tracked
    exact ⟨by simp, u, .refl, doing.broken fault _ fails.fail⟩
  · obtain ⟨z, cursor', related, does⟩ := tracked
    exact further z cursor' y vars related (doing.step does)

section

variable [p.Fresh] (closes : p.Does n (.endLoop kind)) (linked : p.Links n q)
  (stands : Stands p u n (call.push (l.frame q saved)) outer w)

include closes linked stands

theorem Stands.lap_endLoop : Doing p (tick p u) n (if l.complete then do
      let _ ← pop
      logEvent .info .loop (l.kind.word ++ " loop ends @" ++ toString (q + 1))
    else branchTo p (q : Nat)) (still w.vars (call.push (l.frame q saved)) outer n) w.lines := by
  obtain ⟨c, has, verb⟩ := Option.bind_eq_some_iff.mp closes
  exact ((stands.lap has verb).step (yields_ownerHere rfl linked)).step yields_expect

theorem Stands.close_loop (complete : l.complete = true) :
    Stands p (tick p u) (n + 1) call outer { w with vars := w.vars.restore saved } := by
  have lap := stands.lap_endLoop closes linked
  rw [if_pos complete] at lap
  exact (lap.done _ (yields_popped.bind yields_log)).stands_next

theorem Stands.repeat_loop (incomplete : l.complete = false) (bound : q < p.commands.length) :
    Stands p (tick p u) q (call.push (l.frame q saved)) outer w := by
  have lap := stands.lap_endLoop closes linked
  rw [if_neg (by rw [incomplete]; simp)] at lap
  exact (lap.done _ (yields_branchTo bound)).stands_branch

end

theorem yields_dropToLoop :
    Yields (dropToLoop p cmd true) (still w.vars (call.push (l.frame q saved)) outer m)
    (.ok (some (l.frame q saved))) (still w.vars (call.push (l.frame q saved)) outer m) :=
  (yields_unwind rfl).bind yields_pure

theorem Leaving.again_loop (bound : q < p.commands.length)
    (leaving : Leaving p u .again m cmd (call.push (l.frame q saved)) outer w) :
    ∃ v, Leads p u v ∧ Stands p v q (call.push (l.frame q saved)) outer w := by
  obtain ⟨v, leads, lands⟩ := leaving.free rfl
  exact ⟨v, leads, (lands _ (yields_dropToLoop.bind (yields_branchTo bound))).stands_branch⟩

theorem Leaving.leave_loop {form : Form} (block : p.Spans q form n) (bound : n < p.commands.length)
    (leaving : Leaving p u .leave m cmd (call.push (l.frame q saved)) outer w) :
    ∃ v, Leads p u v ∧ Stands p v n (call.push ({ l with complete := true }.frame q saved))
      outer w := by
  obtain ⟨v, leads, lands⟩ := leaving.free rfl
  have ends : lastOf p (l.frame q saved).place = .ok n := by
    show lastOf p q = .ok n
    rw [lastOf, block]
  have left : Yields (leave p cmd true)
      (still w.vars (call.push (l.frame q saved)) outer m) (.ok ())
      { still w.vars (call.push ({ l with complete := true }.frame q saved)) outer m with
        branch := some n } := by
    refine yields_dropToLoop.bind (yields_changeLoop.bind ?_)
    rw [ends]
    exact (yields_orFault n _).bind (yields_branchTo bound)
  exact ⟨v, leads, (lands _ left).stands_branch⟩

section

variable [p.Fresh] (has : p.Has i c) (opens : c.verb? = some (.openLoop kind))
  (block : p.Spans i (.loop kind) n)

include has opens block

theorem Stands.next_round (stands : Stands p u i (call.push (l.frame i saved)) outer w) :
    Doing p (tick p u) i ((rounds p c kind).advance >>= fun _ => tryRound p (rounds p c kind) n)
      (still w.vars (call.push (l.frame i saved)) outer i) w.lines :=
  ((stands.lap has opens).step (yields_openerHere rfl block)).step yields_isTop

theorem Stands.first_round (before : ∀ f ∈ call.blocks, f.place < i)
    (stands : Stands p u i call outer w) :
    Doing p (tick p u) i
      (enterLoop i kind (rounds p c kind) >>= fun _ => tryRound p (rounds p c kind) n)
      (still w.vars call outer i) w.lines :=
  ((stands.lap has opens).step (yields_openerHere rfl block)).step (yields_isTop_false before)

end

theorem Follows.later {r : Result} {more : Nat} (going : u.2 = none) (enough : more ≤ fuel + 1)
    (follows : Follows p x tight fuel call outer j (tick p u) r) :
    Follows p x tight more call outer j u r := by
  match r with
  | none => exact (Lasts.of_tick going follows).mono enough
  | some (.normal, _) | some (.jump _, _) | some (.failed _, _) | some (.aborted _, _) =>
    exact @Follows.of_tick p x tight fuel call outer j u (some _) follows

section

variable [p.Fresh] (has : p.Has i c) (opens : c.verb? = some (.openLoop kind))
  (block : p.Spans i (.loop kind) n) (closes : p.Does n (.endLoop kind)) (linked : p.Links n i)

include has opens block closes linked

theorem follows_rounds
    (inner : ∀ cursor v w, Stands p v (i + 1) (call.looping kind cursor i saved) outer w →
      Follows p { x with loop := true } tight fuel (call.looping kind cursor i saved) outer n
      v (body w))
    (count : Nat) (enough : count ≤ fuel) (running : cursor.Running kind)
    (doing : Doing p u i (tryRound p (rounds p c kind) n)
      (still w.vars (call.looping kind cursor i saved) outer i) w.lines) :
    Follows p x tight count call outer (n + 1) u
      ((Loop.rounds p i c body count cursor w).releasing saved) := by
  have bound := has.lt
  have bound' := lt_length_of_verbAt closes
  induction count generalizing u w cursor with
  | zero => exact lasts_zero
  | succ count ih =>
    refine doing.track (tracks_goesOn running) fun more cursor y vars related doing => ?_
    obtain ⟨rfl, running⟩ := related
    -- the loop is met again, with the values of this round
    have again {v : Point} {w : World}
        (stands : Stands p v i (call.looping kind cursor i saved) outer w) :
        Follows p x tight (count + 1) call outer (n + 1) v (Result.releasing saved
          (w.act i (Loop.advance p c cursor) fun cursor w =>
            Loop.rounds p i c body count cursor w)) := by
      refine .later stands.going (Nat.le_refl _)
        ((stands.next_round has opens block).track (tracks_advance running) ?_)
      rintro _ cursor y vars ⟨rfl, running⟩ doing
      exact ih (by omega) running doing
    cases more with
    | false =>
      have stands : Stands p u n
        (call.push ({ kind := kind, complete := true, cursor := cursor : Loop }.frame i saved))
        outer { w with vars := vars } :=
          (doing.done _ (yields_changeLoop.bind (yields_branchTo bound'))).stands_branch
      exact ⟨tick p u, leads_tick, stands.close_loop closes linked rfl⟩
    | true =>
      have followed := inner cursor u _ doing.stands
      dsimp only
      rw [if_pos rfl]
      generalize body { w with vars := vars } = r at followed
      match r with
      | none => exact Lasts.mono followed enough
      | some (.normal, w) =>
        obtain ⟨v, leads, stands⟩ := followed
        exact (again (stands.repeat_loop closes linked rfl bound)).of_tick.of_leads leads
      | some (.jump .again, w) =>
        obtain ⟨_, v, m, cmd, leads, leaving⟩ := followed
        obtain ⟨v', more, stands⟩ := leaving.again_loop bound
        exact (again stands).of_leads (leads.trans more)
      | some (.jump .leave, w) =>
        obtain ⟨_, v, m, cmd, leads, leaving⟩ := followed
        obtain ⟨v', more, stands⟩ := leaving.leave_loop block bound'
        exact ⟨tick p v', (leads.trans more).trans leads_tick, stands.close_loop closes linked rfl⟩
      | some (.jump .back, w) | some (.jump .exit, w) =>
        obtain ⟨allowed, v, m, cmd, leads, leaving⟩ := followed
        exact ⟨allowed, v, m, cmd, leads, leaving.shed (passes_loop rfl)⟩
      | some (.failed e, w) =>
        obtain ⟨v, leads, raising⟩ := followed
        have bland := @bland_loop p { kind := kind, cursor := cursor } saved i
        exact ⟨v, leads, raising.shed bland.quiet (bland.refuses e) bland.paid⟩
      | some (.aborted _, _) => exact followed

theorem follows_loop (before : ∀ f ∈ call.blocks, f.place < i) (stands : Stands p u i call outer w)
    (inner : ∀ saved cursor v w, Stands p v (i + 1) (call.looping kind cursor i saved) outer w →
      Follows p { x with loop := true } tight fuel (call.looping kind cursor i saved) outer n v
      (body w)) :
    Follows p x tight fuel call outer (n + 1) u (Loop.run p i kind c body fuel w) := by
  have lap := stands.first_round has opens block before
  unfold enterLoop at lap
  simp only [bind_assoc] at lap
  have lap :
      Doing p (tick p u) i _ (still w.vars (call.looping kind .unset i []) outer i) w.lines :=
    lap.step yields_push
  have entered : Follows p x tight fuel call outer (n + 1) (tick p u)
      (Result.releasing [] (Loop.run p i kind c body fuel w)) := by
    refine lap.track (tracks_prepare p c kind) ?_
    rintro names cursor _ vars ⟨rfl, planned⟩ lap
    rw [releasing_nil]
    dsimp only
    rw [← releasing_capture]
    -- the local names are captured, then declared
    have lap := lap.get (b := do
      change fun f => { f with saved := vars.capture names }
      beginRounds i kind (rounds p c kind) names
      tryRound p (rounds p c kind) n) fun _ => rfl
    have lap := lap.step (yields_change rfl)
    unfold beginRounds at lap
    simp only [bind_assoc] at lap
    have declared : Yields (modify fun m => { m with vars := m.vars.declare names })
        (still vars (call.looping kind cursor i (vars.capture names)) outer i) (.ok ())
        (still (vars.declare names) (call.looping kind cursor i (vars.capture names)) outer i) :=
      yields_modify fun _ => rfl
    have lap := lap.step declared
    refine Doing.track (w := ⟨vars.declare names, w.lines⟩) lap (tracks_start planned) ?_
    rintro _ cursor _ vars ⟨rfl, running⟩ lap
    have lap := lap.step yields_log
    exact follows_rounds (w := ⟨vars, w.lines⟩) has opens block closes linked (inner _) fuel
      (Nat.le_refl _) running lap
  rw [releasing_nil] at entered
  exact entered.of_tick

end

end Point

end Runbook
