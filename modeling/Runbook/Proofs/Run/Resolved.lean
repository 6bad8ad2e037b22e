import Runbook.Host.Receipt
import Runbook.Proofs.Machine.Tidy
import Runbook.Proofs.Run.Suspended

namespace Runbook

open Runbook.Action Control List

def Machine.pendingAt (m : Machine) (d : Nat) : Option Bubble :=
  ((m.frameAt d).bind Frame.guard?).bind Guard.pending

def Machine.Holds (m : Machine) (d : Nat) (e : Error) : Prop :=
  ∃ source, m.pendingAt d = some (.failure (.error e) source)

def Lap.Ends (p : Program) (d : Nat) (t : Lap) : Prop :=
  verbAt p.commands t.place = some .endTry ∧ t.before.frames.length = d + 1

/-- What waited on the guard that is ended is raised again. -/
def Lap.Rethrows (p : Program) (t : Lap) : Prop :=
  ∃ d cause source, t.Ends p d ∧ t.before.pendingAt d = some (.failure cause source)

inductive Resolution
  | failed
  | astray
  | caught
  | replaced
  | waiting
  deriving DecidableEq, Repr

/-- What became of the error `e` in the course of some laps, the first one first, at whose end the
run was over or not. The error is raised by the first of the laps, or waits on the guard at some
height. -/
inductive Resolved (p : Program) (e : Error) :
    Option Nat → List Lap → Option Ending → Resolution → Prop
  | failed {t : Lap} (verdict : t.verdict = .unhandled e) :
      Resolved p e none [t] (some (.outcome (.failed e))) .failed
  | astray {t : Lap} {f : Error} (verdict : t.verdict = .astray e (.error f)) :
      Resolved p e none [t] (some (.outcome (.failed f))) .astray
  | caught {t : Lap} {laps : List Lap} {ending : Option Ending} {d c : Nat}
      (verdict : t.verdict = .handled e) (catches : t.Catches d c) (verb : p.Does c .openCatch)
      (entered : t.after.phaseAt d = some .catching) : Resolved p e none (t :: laps) ending .caught
  | suspended {t : Lap} {laps : List Lap} {ending : Option Ending} {how : Resolution} {d : Nat}
      (verdict : t.verdict = .handled e) (holds : t.after.Holds d e)
      (rest : Resolved p e (some d) laps ending how) : Resolved p e none (t :: laps) ending how
  | waits {d : Nat} : Resolved p e (some d) [] none .waiting
  | keeps {t : Lap} {laps : List Lap} {ending : Option Ending} {how : Resolution} {d : Nat}
      (holds : t.after.Holds d e) (rest : Resolved p e (some d) laps ending how) :
      Resolved p e (some d) (t :: laps) ending how
  | rethrown {t : Lap} {laps : List Lap} {ending : Option Ending} {how : Resolution} {d : Nat}
      (ends : t.Ends p d) (rest : Resolved p e none (t :: laps) ending how) :
      Resolved p e (some d) (t :: laps) ending how
  | overtaken {t : Lap} {laps : List Lap} {ending : Option Ending} {d : Nat} {other : Error}
      (raises : t.verdict.cause? = some other) (inner : ¬ t.Ends p d)
      (leaves : t.verdict.ending?.isSome = true ∨ t.after.frames.length ≤ d + 1 ∧
        ¬ t.after.Holds d e) :
      Resolved p e (some d) (t :: laps) ending .replaced
  | dropped {t : Lap} {laps : List Lap} {ending : Option Ending} {d n : Nat} {v : Verb}
      {ceiling crosses : Bool}
      (pending : t.after.pendingAt d = some (.command (some (n : Int)) ceiling crosses))
      (verb : p.Does n v) (leaves : v.reach?.isSome = true) :
      Resolved p e (some d) (t :: laps) ending .replaced

/-- The laps of a session within at most `count` steps, the first one first. -/
def Session.laps (p : Program) : Nat → Session → List Lap
  | 0, _ => []
  | count + 1, s =>
    let lap := (s.turn? p).toList.map fun (place, verdict, after) =>
      ⟨s.machine, place, verdict, after⟩
    match s.step p with
    | (s', none) => lap ++ laps p count s'
    | (_, some _) => lap

theorem Session.laps_induction {p : Program} {s : Session} {I : Machine → Prop} {L : Lap → Prop}
    (fetches : ∀ m, I m → Fetches p m)
    (turns : ∀ (s : Session) i v m', I s.machine → s.turn? p = some (i, v, m') →
      Turn p s.machine i v m' → L ⟨s.machine, i, v, m'⟩ ∧ (v.ending? = none → I m'))
    {count : Nat} (first : I s.machine) :
    (∀ t ∈ s.laps p count, L t) ∧
      ∀ ending, (s.runFor p count).2 = some ending →
        ending = .outcome .completed ∨ ending = .outcome .stopped ∨
          ∃ t ∈ s.laps p count, t.verdict.ending? = some ending := by
  induction count generalizing s with
  | zero => exact ⟨by simp [laps], nofun⟩
  | succ count ih =>
    rcases step : s.step p with ⟨s', ending⟩
    rcases step_turns (fetches _ first) step with ⟨i, v, next, turn, goes⟩ | ⟨none, _, rfl⟩
    · obtain ⟨lap, later⟩ := turns s i v s'.machine first next turn
      simp only [laps, runFor, next, step]
      cases ending with
      | none =>
        obtain ⟨rest, ends⟩ := ih (later goes)
        refine ⟨forall_mem_cons.mpr ⟨lap, rest⟩, fun ending ended => ?_⟩
        rcases ends ending ended with same | same | ⟨t, mem, same⟩
        · exact .inl same
        · exact .inr (.inl same)
        · exact .inr (.inr ⟨t, mem_cons_of_mem _ mem, same⟩)
      | some last =>
        refine ⟨forall_mem_singleton.mpr lap, fun ending same => ?_⟩
        cases same
        exact .inr (.inr ⟨_, mem_cons_self, goes⟩)
    · simp only [laps, runFor, none, step]
      refine ⟨by simp, fun ending same => ?_⟩
      cases same
      cases s'.machine.stopped with
      | true => exact .inr (.inl rfl)
      | false => exact .inl rfl

section Heights

variable {p : Program} {m m' : Machine} {i d q : Nat} {v : Verdict} {g : Guard} {e : Error}

theorem pendingAt_eq (lies : spotAt m.control.spots d = some ⟨q, .guard g⟩) :
    m.pendingAt d = g.pending := by
  rw [Machine.pendingAt, guard?_frameAt lies, Option.bind_some]

theorem guard_of_pendingAt {b : Bubble} (lies : m.pendingAt d = some b) :
    ∃ q g, m.control.Lies d ⟨q, .guard g⟩ ∧ g.pending = some b := by
  obtain ⟨g, guard, same⟩ := Option.bind_eq_some_iff.mp lies
  obtain ⟨f, frame, body⟩ := frameAt_of_guard? guard
  exact ⟨f.place, g, spotAt_of_frameAt frame body, same⟩

theorem Turn.delivers [p.Ready] (placed : Placed p m.control) (turn : Turn p m i v m')
    (raised : v.cause? = some e) (further : v.ending? = none) :
    v = .handled e ∧ ((∃ d c, Lap.Catches d c ⟨m, i, v, m'⟩ ∧ p.Does c .openCatch ∧
      m'.phaseAt d = some .catching) ∨ ∃ d, m'.Holds d e) := by
  obtain ⟨_, _, _, _, _, _, concludes⟩ := turn.concludes placed
  cases concludes with
  | done => cases raised
  | ends ending _ => simp [further] at ending
  | taken _ routed =>
    cases raised
    refine ⟨rfl, ?_⟩
    obtain ⟨gone, q, g, g', rest, _, after, receives, _⟩ := routed.receives
    have lies : spotAt m'.control.spots rest.length = some ⟨q, .guard g'⟩ := by
      rw [after]; exact spotAt_top
    cases receives with
    | @catches name finallyAt j last block sent =>
      have height : m'.frames.length = rest.length + 1 := by rw [← frames_length, after]; rfl
      exact .inl ⟨rest.length, j, ⟨rfl, height, sent⟩, (block.catchPart p.found).verb,
        phaseAt_eq lies⟩
    | finishes | ends _ _ => exact .inr ⟨rest.length, _, pendingAt_eq lies⟩

inductive Kept (p : Program) (m m' : Machine) (i d : Nat) (e : Error) : Verdict → Prop
  | stays {v : Verdict} (holds : m'.Holds d e) (further : v.ending? = none) : Kept p m m' i d e v
  | rethrown {v : Verdict} (verb : p.Does i .endTry) (top : m.frames.length = d + 1)
      (raised : v.cause? = some e) : Kept p m m' i d e v
  | overtaken {v : Verdict} {other} (raised : v.cause? = some other)
      (inner : ¬ (p.Does i .endTry ∧ m.frames.length = d + 1))
      (leaves : v.ending?.isSome = true ∨ m'.frames.length ≤ d + 1 ∧ ¬ m'.Holds d e) :
      Kept p m m' i d e v
  | dropped {n : Nat} {w : Verb} {ceiling crosses} {v : Verdict}
      (pending : m'.pendingAt d = some (.command (some (n : Int)) ceiling crosses))
      (verb : p.Does n w) (leaves : w.reach?.isSome = true) (further : v.ending? = none) :
      Kept p m m' i d e v
  | broken (f : Fault) : Kept p m m' i d e (.broken f)

theorem Turn.held [p.Ready] (reached : Reached p m) (turn : Turn p m i v m') (holds : m.Holds d e)
    (index : e.index.isSome = true) : Kept p m m' i d e v := by
  have placed := reached.placed
  have steady := reached.steady
  obtain ⟨source, at_height⟩ := holds
  obtain ⟨q, g, lies, pending⟩ := guard_of_pendingAt at_height
  -- an error that is raised leaves the guard, or leaves it as it is
  have raises {other : Error} (raised : v.cause? = some other)
      (inner : ¬ (p.Does i .endTry ∧ m.frames.length = d + 1)) : Kept p m m' i d e v := by
    by_cases final : v.ending?.isSome = true
    · exact .overtaken raised inner (.inl final)
    have further : v.ending? = none := by simpa using final
    by_cases still : m'.Holds d e
    · exact .stays still further
    refine .overtaken raised inner (.inr ⟨?_, still⟩)
    rw [← frames_length]
    rcases (turn.stir placed).1.fate lies with ⟨g', lies', onward⟩ | ⟨vacant, _⟩
    · cases onward with
      | stays => exact absurd ⟨source, (pendingAt_eq lies').trans pending⟩ still
      | executes _ _ _ top => omega
      | taken taken => exact Nat.le_of_eq taken.top
    · omega
  -- at the end of the guard it is raised again
  have again {c : Command} {m₁ m₂ : Machine} {e₀ : Error} (fetched : Fetched p m i c m₁)
      (dispatched : Dispatched p c m₁ (.error (.error e₀)) m₂)
      (ends : p.Does i .endTry ∧ m.frames.length = d + 1) : e₀.locate m₁.here = e := by
    obtain ⟨same, _⟩ := fetched.at_end placed steady dispatched lies pending
      ((frames_length m).trans ends.2) ends.1
    cases same
    rw [locate_eq index, locate_eq index]
  cases turn with
  | done fetched dispatched =>
    have finishing := fetched.finishing placed steady dispatched lies pending
    obtain ⟨g', lies', same | ⟨n, w, ceiling, crosses, command, verb, leaves⟩⟩ :=
      (fetched.flow placed steady dispatched).after lies finishing pending
    · exact .stays ⟨source, (pendingAt_eq lies').trans (same.trans pending)⟩ rfl
    · exact .dropped ((pendingAt_eq lies').trans command) verb leaves rfl
  | @routed _ _ _ _ _ taken fetched dispatched _ =>
    by_cases ends : p.Does i .endTry ∧ m.frames.length = d + 1
    · refine .rethrown ends.1 ends.2 ?_
      rw [again fetched dispatched ends]
      cases taken <;> rfl
    · exact raises (by cases taken <;> rfl) ends
  | astray fetched dispatched _ =>
    by_cases ends : p.Does i .endTry ∧ m.frames.length = d + 1
    · refine .rethrown ends.1 ends.2 ?_
      rw [again fetched dispatched ends]
      rfl
    · exact raises rfl ends
  | broken _ _ => exact .broken _

theorem Reached.none_held [p.Ready] (reached : Reached p m) (ended : Ran (next p) m (.ok none) m') :
    ¬ m.Holds d e := by
  rintro ⟨source, at_height⟩
  obtain ⟨q, g, lies, pending⟩ := guard_of_pendingAt at_height
  cases reached.placed with
  | going next bound going =>
    rcases ran_next next ended with
      ⟨stopped, _⟩ | ⟨_, _, _, _, _, _, _, wrong, _⟩ | ⟨_, silent, _, _⟩
    · cases stopped.symm.trans going.running
    · cases wrong
    · obtain ⟨outer, _, blocks⟩ := going.closed silent bound
      have bound := lt_of_spotAt lies
      rw [spots_eq, blocks, outer] at bound
      exact Nat.not_lt_zero d bound
  | stopped stopped _ _ clear =>
    rcases reached.steady.waiting d q g _ source lies pending with finishing | ⟨_, running, _⟩
    · obtain ⟨t, tier, mem⟩ := mem_flatMap.mp (mem_of_spotAt lies)
      have passes := Clear.passes clear t.blocks (mem_map_of_mem tier) _ mem
      exact not_free finishing pending (free_of_passes passes)
    · cases stopped.symm.trans running

end Heights

section Sessions

variable {p : Program} {m m₁ m₂ m' : Machine} {s : Session} {i d count : Nat} {v : Verdict}
  {c : Command} {e : Error} {laps : List Lap} {ending : Option Ending} {how : Resolution} {t : Lap}

theorem Fetched.blames [p.Ready] (reached : Reached p m) (fetched : Fetched p m i c m₁)
    (out : (Host.dispatch p c).run.run m₁ = (.error (.error e), m₂)) :
    e.At (some (i : Int)) ∨
      p.Does i .endTry ∧ ∃ d cause source, m.frames.length = d + 1 ∧
        m.pendingAt d = some (.failure cause source) := by
  obtain ⟨poised, there, control⟩ := fetched.poised reached.placed
  have dispatched := Session.dispatched p c m₁
  rw [out] at dispatched
  cases dispatched with
  | host none _ =>
    have plain : Host.dispatch p c = Host.perform p c := if_neg (by simp [none])
    rw [plain] at out
    exact .inl ((acts_host (w := {})).blames fetched.here out |>.2 _ rfl e rfl)
  | control verb ran =>
    obtain ⟨w, verb⟩ := Option.isSome_iff_exists.mp verb
    by_cases last : w = .endTry
    · subst last
      have same : m₁.control.spots = m.control.spots := by rw [control]; rfl
      have sourced := reached.steady.sourced
      obtain ⟨q, g, rest, top, _, calm⟩ := poised.at_end there verb (by rw [same]; exact sourced)
        (.control (by simp [verb]) ran)
      right
      refine ⟨verbAt_of_at there verb, (m₁.control.withBlocks rest).spots.length, ?_⟩
      have spots := (spots_cons top).symm.trans same
      have lies : spotAt m.control.spots (m₁.control.withBlocks rest).spots.length =
          some ⟨q, .guard g⟩ := by
        rw [← spots]
        exact spotAt_top
      rw [pendingAt_eq lies, ← frames_length, ← spots]
      by_contra none
      cases calm fun cause source pending => none ⟨cause, source, rfl, pending⟩
    · obtain ⟨r', failed, performed⟩ := ran_execute verb ran
      obtain ⟨here, blames⟩ := Action.perform_blames (m := { m₁ with resume := none }) last
        fetched.here performed
      cases r' with
      | ok _ => cases failed
      | error f =>
        rw [here] at failed
        cases f with
        | fault f => cases failed
        | error e' =>
          cases failed
          exact .inl (.inr (blames _ rfl e' rfl).locate)

theorem Session.index_of_turn? [p.Ready] (reached : Reached p s.machine)
    (turn : s.turn? p = some (i, v, m')) (raised : v.cause? = some e)
    (fresh : ¬ Lap.Rethrows p ⟨s.machine, i, v, m'⟩) : e.index = some (i : Int) := by
  obtain ⟨c, m₁, fetched, turned⟩ := turned (reached.placed.fetches) turn
  cases turned with
  | done _ | broken _ => cases raised
  | @routed e₀ _ _ _ out _ verdict =>
    have here : m₁.Here i := fetched.here
    obtain rfl : e = e₀.locate (some (i : Int)) := by
      rw [verdict, Verdict.cause?_routed, here] at raised
      exact (Option.some.inj raised).symm
    rcases fetched.blames reached out with blames | ⟨verb, d, cause, source, top, pending⟩
    · exact blames.locate
    · exact absurd ⟨d, cause, source, ⟨verb, top⟩, pending⟩ fresh

theorem Resolved.open_or_failed {depth : Option Nat}
    (resolved : Resolved p e depth laps ending how) :
    how = .caught ∨ how = .replaced ∨ ending = none ∨
      ∃ f, ending = some (.outcome (.failed f)) := by
  induction resolved with
  | failed _ | astray _ => exact .inr (.inr (.inr ⟨_, rfl⟩))
  | caught _ _ _ _ => exact .inl rfl
  | waits => exact .inr (.inr (.inl rfl))
  | overtaken _ _ _ | dropped _ _ _ => exact .inr (.inl rfl)
  | suspended _ _ _ ih => exact ih
  | keeps _ _ ih => exact ih
  | rethrown _ _ ih => exact ih

theorem Session.resolved [p.Ready] (count : Nat) (reached : Reached p s.machine)
    (whole : ∀ f, (s.runFor p count).2 ≠ some (.broken f)) :
    (∀ t rest e, s.laps p count = t :: rest → t.verdict.cause? = some e → e.index.isSome = true →
      ∃ how, Resolved p e none (t :: rest) (s.runFor p count).2 how) ∧
    ∀ d e, s.machine.Holds d e → e.index.isSome = true →
      ∃ how, Resolved p e (some d) (s.laps p count) (s.runFor p count).2 how := by
  induction count generalizing s with
  | zero => exact ⟨fun _ _ _ none => absurd none (by simp [laps]), fun _ _ _ _ => ⟨_, .waits⟩⟩
  | succ count ih =>
    rcases step : s.step p with ⟨s', ending⟩
    rcases step_turns reached.placed.fetches step with
      ⟨i, v, next, turn, goes⟩ | ⟨none, ended, rfl⟩
    · have raised : ∀ t rest e, s.laps p (count + 1) = t :: rest → t.verdict.cause? = some e →
          e.index.isSome = true →
          ∃ how, Resolved p e none (t :: rest) (s.runFor p (count + 1)).2 how := by
        intro t rest e first raised index
        simp only [laps, runFor, next, step] at first whole ⊢
        cases ending with
        | none =>
          obtain ⟨rfl, rfl⟩ := cons.inj first
          obtain ⟨verdict, ⟨d, c, catches, verb, entered⟩ | ⟨d, holds⟩⟩ :=
            turn.delivers reached.placed raised goes
          · exact ⟨_, .caught verdict catches verb entered⟩
          · obtain ⟨how, rest⟩ := (ih (.turn reached turn goes) whole).2 d e holds index
            exact ⟨how, .suspended verdict holds rest⟩
        | some last =>
          obtain ⟨rfl, rfl⟩ := cons.inj first
          cases v with
          | done | handled _ => cases goes
          | unhandled _ => cases raised; cases goes; exact ⟨_, .failed rfl⟩
          | astray _ failure =>
            cases failure with
            | error _ => cases raised; cases goes; exact ⟨_, .astray rfl⟩
            | fault f => cases goes; exact absurd rfl (whole f)
          | broken f => cases raised
      refine ⟨raised, fun d e holds index => ?_⟩
      have first : ∃ rest, s.laps p (count + 1) = ⟨s.machine, i, v, s'.machine⟩ :: rest := by
        simp only [laps, next, step]
        cases ending <;> exact ⟨_, rfl⟩
      cases turn.held reached holds index with
      | stays holds further =>
        obtain rfl : ending = none := goes.symm.trans further
        simp only [laps, runFor, next, step] at whole ⊢
        obtain ⟨how, rest⟩ := (ih (.turn reached turn goes) whole).2 d e holds index
        exact ⟨how, .keeps holds rest⟩
      | rethrown verb top cause =>
        obtain ⟨rest, first⟩ := first
        obtain ⟨how, resolved⟩ := raised _ _ e first cause index
        rw [first]
        exact ⟨how, .rethrown ⟨verb, top⟩ resolved⟩
      | overtaken cause inner leaves =>
        obtain ⟨rest, first⟩ := first
        rw [first]
        exact ⟨_, .overtaken cause inner leaves⟩
      | dropped pending verb leaves _ =>
        obtain ⟨rest, first⟩ := first
        rw [first]
        exact ⟨_, .dropped pending verb leaves⟩
      | broken f =>
        cases goes
        exact absurd (by simp only [runFor, step]; rfl) (whole f)
    · refine ⟨fun t rest e first => ?_, fun d e holds => absurd holds (reached.none_held ended)⟩
      simp only [laps, none, step] at first
      cases first

theorem Session.laps_first (fetches : Fetches p s.machine) (first : s.laps p count = t :: laps) :
    t.before = s.machine ∧ s.turn? p = some (t.place, t.verdict, t.after) ∧
      (laps = [] ∨ ∃ (s' : Session) (n : Nat), Turn p s.machine t.place t.verdict s'.machine ∧
        t.verdict.ending? = none ∧ s'.laps p n = laps ∧ (s'.runFor p n).2 = (s.runFor p count).2 ∧
        s'.machine = t.after) := by
  cases count with
  | zero => cases first
  | succ count =>
    rcases step : s.step p with ⟨s', ending⟩
    rcases step_turns fetches step with ⟨i, v, next, turn, goes⟩ | ⟨none, _, rfl⟩
    · simp only [Session.laps, runFor, next, step] at first ⊢
      cases ending with
      | none =>
        obtain ⟨rfl, rfl⟩ := cons.inj first
        exact ⟨rfl, rfl, .inr ⟨s', count, turn, goes, rfl, rfl, rfl⟩⟩
      | some _ =>
        obtain ⟨rfl, rfl⟩ := cons.inj first
        exact ⟨rfl, rfl, .inl rfl⟩
    · simp only [Session.laps, none, step] at first
      cases first

theorem Session.laps_cons [p.Ready] (reached : Reached p s.machine)
    (first : s.laps p count = t :: laps) :
    t.before = s.machine ∧ s.turn? p = some (t.place, t.verdict, t.after) ∧
      (laps = [] ∨ ∃ (s' : Session) (n : Nat), Reached p s'.machine ∧ s'.laps p n = laps ∧
        (s'.runFor p n).2 = (s.runFor p count).2 ∧ s'.machine = t.after) := by
  obtain ⟨before, turn, none | ⟨s', n, turned, goes, rest⟩⟩ :=
    laps_first reached.placed.fetches first
  · exact ⟨before, turn, .inl none⟩
  · exact ⟨before, turn, .inr ⟨s', n, .turn reached turned goes, rest⟩⟩

/-- What holds at the start and is kept by every turn holds before each lap. -/
theorem Session.laps_along {I : Machine → Prop} {earlier : List Lap}
    (fetches : ∀ m, I m → Fetches p m)
    (turns : ∀ m i v m', I m → Turn p m i v m' → v.ending? = none → I m') (begins : I s.machine)
    (history : s.laps p count = earlier ++ t :: laps) :
    ∃ (s' : Session) (n : Nat), I s'.machine ∧ s'.laps p n = t :: laps ∧
      (s'.runFor p n).2 = (s.runFor p count).2 := by
  induction earlier generalizing s count with
  | nil => exact ⟨s, count, begins, history, rfl⟩
  | cons l earlier ih =>
    obtain ⟨_, _, none | ⟨s', n, turn, goes, rest, same, _⟩⟩ :=
      laps_first (fetches _ begins) history
    · cases (append_eq_nil_iff.mp none).2
    · obtain ⟨s'', n', later', rest', same'⟩ := ih (turns _ _ _ _ begins turn goes) rest
      exact ⟨s'', n', later', rest', same'.trans same⟩

theorem Session.laps_from {earlier : List Lap} [p.Ready] (reached : Reached p s.machine)
    (history : s.laps p count = earlier ++ t :: laps) :
    ∃ (s' : Session) (n : Nat), Reached p s'.machine ∧ s'.laps p n = t :: laps ∧
      (s'.runFor p n).2 = (s.runFor p count).2 :=
  laps_along (fun _ reached => reached.placed.fetches) (fun _ _ _ _ => .turn) reached history

end Sessions

/-- No error is lost. An error that is raised names its command, and is caught, or replaced by a
later error or command, or makes the run fail, or still waits. So every error of a run that is
completed or stopped is caught or replaced. -/
theorem errors_resolved {q p : Program} {inputs : Env} {limit : Nat} {earlier later : List Lap}
    {t : Lap} {e : Error} (outlined : q.outlined = .ok p) (start : q.start = 0)
    (whole : ∀ f, (q.run inputs limit).2 ≠ some (.broken f))
    (history : Session.laps p limit { machine := { vars := inputs } } = earlier ++ t :: later)
    (raised : t.verdict.cause? = some e) (fresh : ¬ t.Rethrows p) :
    e.position = some ((t.place : Int) + 1) ∧
      ∃ how, Resolved p e none (t :: later) (q.run inputs limit).2 how ∧
        ((q.run inputs limit).2 = some (.outcome .completed) ∨
          (q.run inputs limit).2 = some (.outcome .stopped) →
          how = .caught ∨ how = .replaced) := by
  have := ready_of_outlined outlined start
  have run : q.run inputs limit = Session.runFor p limit { machine := { vars := inputs } } := by
    rw [Program.run, outlined]
  rw [run] at whole ⊢
  obtain ⟨s, n, reached, first, ending⟩ := Session.laps_from (.start inputs #[]) history
  rw [← ending] at whole ⊢
  obtain ⟨before, turn, _⟩ := Session.laps_cons reached first
  have index : e.index = some (t.place : Int) := by
    refine Session.index_of_turn? reached turn raised ?_
    rwa [← before]
  refine ⟨by rw [Error.position, index]; rfl, ?_⟩
  obtain ⟨how, resolved⟩ := (Session.resolved n reached whole).1 t later e first raised
    (by rw [index]; rfl)
  refine ⟨how, resolved, fun calm => ?_⟩
  rcases resolved.open_or_failed with caught | replaced | going | ⟨f, failed⟩
  · exact .inl caught
  · exact .inr replaced
  · rw [going] at calm
    rcases calm with wrong | wrong <;> cases wrong
  · rw [failed] at calm
    rcases calm with wrong | wrong <;> cases wrong

def leaveLastSegment : Program := .ofCommands
  [{ name := "while", target := "true" }, { name := "try" },
   { name := "throwError", target := "boom" }, { name := "finally" }, { name := "break" },
   { name := "endTry" }, { name := "endWhile" }]

theorem errors_resolved_leaveLastSegment :
    ∃ earlier t later e how, Session.laps leaveLastSegment 12 {} = earlier ++ t :: later ∧
      t.verdict = .handled e ∧
      e.position = some 3 ∧ (leaveLastSegment.run [] 12).2 = some (.outcome .completed) ∧
      Resolved leaveLastSegment e none (t :: later) (leaveLastSegment.run [] 12).2 how ∧
        (how = .caught ∨ how = .replaced) := by
  have ending : (leaveLastSegment.run [] 12).2 = some (.outcome .completed) := by decide +kernel
  have third : (Session.laps leaveLastSegment 12 {})[2]?.map (fun t => (t.place, t.verdict)) =
      some (2, .handled { kind := .command, message := "boom", index := some 2 }) := by
      decide +kernel
  obtain ⟨t, present, same⟩ := Option.map_eq_some_iff.mp third
  obtain ⟨place, verdict⟩ := Prod.mk.inj same
  obtain ⟨earlier, later, history⟩ := append_of_mem (mem_of_getElem? present)
  have fresh : ¬ t.Rethrows leaveLastSegment := by
    rintro ⟨d, cause, source, ⟨verb, _⟩, _⟩
    rw [place] at verb
    exact absurd verb (by decide +kernel)
  obtain ⟨position, how, resolved, settled⟩ := errors_resolved (q := leaveLastSegment) rfl rfl
    (by rw [ending]; nofun) history (by rw [verdict]; rfl) fresh
  exact ⟨earlier, t, later, _, how, history, verdict, by rw [position, place]; rfl, ending,
    resolved, settled (.inl ending)⟩

end Runbook
