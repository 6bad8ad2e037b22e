import Runbook.Proofs.Run.Soundness

namespace Runbook

open Runbook.Action Control

/-- How a lap breaks a run: its command reads values or files that cannot be read, or the value of a
filter is too large to have a text. -/
inductive Lap.Breaks (p : Program) (t : Lap) (f : Fault) : Prop
  | command (verdict : t.verdict = .broken f) (arises : f.arises (verbAt p.commands t.place) = true)
  | filter {cause : Error} (verdict : t.verdict = .astray cause (.fault f))
      (size : f.topic? = some .size)

/-- The error of a command was offered to the guards, and taken by one of them only if it is not
fatal. -/
inductive Lap.Offers (p : Program) (t : Lap) (e : Error) : Prop
  | routed {c : Command} {m₁ m₂ : Machine} {raised : Error} {x : Except Failure Bool}
      (fetched : Fetched p t.before t.place c m₁)
      (failed : Ran (Host.dispatch p c) m₁ (.error (.error raised)) m₂)
      (placed : e = raised.locate m₁.here) (ran : Ran (route p (.error e)) m₂ x t.after)
      (fatal : t.verdict = .handled e → e.kind.isFatal = false)

/-- How a lap may end: its command succeeds, its error goes to the guards, or it breaks the run. -/
structure Lap.Settled (p : Program) (t : Lap) : Prop where
  whole : t.verdict = .done ∨ (∃ e, t.verdict.cause? = some e ∧ t.Offers p e) ∨
    ∃ f, t.verdict = .broken f
  breaks : ∀ f, t.verdict.ending? = some (.broken f) → t.Breaks p f

section Fetching

variable {P : Kind → Prop} {p : Program} {m m' : Machine}

theorem Control.Firm.target (start : 0 ≤ p.start) (firm : m.control.Firm P p) {x : Reply Int}
    (ran : Ran (target p) m x m') : ∃ t : Nat, x = .ok (t : Int) := by
  have ran := ran_get_bind ran
  split at ran
  · obtain ⟨rfl, _⟩ := Prod.mk.inj ran
    exact ⟨p.start.toNat, by rw [Int.toNat_of_nonneg start]⟩
  · rename_i started
    split at ran
    · rename_i place _
      obtain ⟨rfl, _⟩ := Prod.mk.inj ran
      exact ⟨place, rfl⟩
    · obtain ⟨rfl, _⟩ := ran_pure ran
      have started : m.control.started = true := by simpa [Machine.control] using started
      obtain ⟨i, here⟩ := firm.here started
      have here : m.Here i := here
      exact ⟨i + 1, by rw [here]; rfl⟩

theorem Control.Firm.fetches (start : 0 ≤ p.start) (firm : m.control.Firm P p) : Fetches p m := by
  intro x m' ran
  have inner := ran_get_bind ran
  split at inner
  · exact .inl (ran_pure inner).1
  rcases ran_bind inner with ⟨e, _, failed⟩ | ⟨place, m₁, aimed, inner⟩
  · obtain ⟨_, wrong⟩ := firm.target start failed
    cases wrong
  obtain ⟨t, same⟩ := firm.target start aimed
  cases same
  rcases seek_from p t with ⟨i, c, _, _, _, _, out⟩ | ⟨_, out⟩
  · rw [out] at inner
    obtain ⟨rfl, rfl⟩ := Prod.mk.inj inner
    exact .inr ⟨i, c, rfl, ran, rfl⟩
  · rw [out] at inner
    exact .inl (Prod.mk.inj inner).1.symm

end Fetching

section Turns

variable {p : Program} {m m' : Machine} {i : Nat} {c : Command} {v : Verdict} {s : Session}

theorem Dispatched.arises {f : Fault} [p.Faithful] (firm : m.control.Firm (fun _ => True) p)
    (here : m.Here i) (has : p.Has i c) (dispatched : Dispatched p c m (.error (.fault f)) m')
    (honest : verbAt p.commands i = none → f.arises none = true) :
    f.arises (verbAt p.commands i) = true := by
  cases dispatched.acted firm.fits here has with
  | @fails v e _ _ verb move located =>
    rw [verb]
    match e, located with
    | .fault _, rfl =>
      exact (move.raises (P := fun _ => True) ⟨firm.here, firm.branch, firm.tiers⟩).fault
  | host silent _ =>
    rw [silent]
    exact honest silent

theorem Session.settled [p.Faithful] (firm : s.machine.control.Firm (fun _ => True) p)
    (fetches : Fetches p s.machine) (next : s.turn? p = some (i, v, m')) :
    Lap.Settled p ⟨s.machine, i, v, m'⟩ := by
  have honest := honest fetches next
  obtain ⟨c, m₁, fetched, turned⟩ := turned fetches next
  have dispatched := dispatched p c m₁
  have firm₁ := fetched.firm firm
  cases turned with
  | done _ => exact ⟨.inl rfl, by rintro _ ⟨⟩⟩
  | @broken f ran =>
    rw [ran] at dispatched
    refine ⟨.inr (.inr ⟨f, rfl⟩), ?_⟩
    rintro _ ⟨⟩
    exact .command rfl
      (dispatched.arises firm₁ fetched.here fetched.command fun host => (honest host).2 f rfl)
  | @routed e m₂ x _ ran routed verdict =>
    rw [ran] at dispatched
    have firm₂ := dispatched.firm firm₁ fetched.here fetched.command
    subst verdict
    have offers : Lap.Offers p ⟨s.machine, i, .routed (e.locate m₁.here) m₁.here x, m'⟩
        (e.locate m₁.here) := by
      refine .routed fetched ran rfl routed fun taken => ?_
      rcases x with _ | _ | _
      · cases taken
      · cases taken
      · by_contra fatal
        have fatal : (Failure.error (e.locate m₁.here)).isFatal = true := by
          simpa [Failure.isFatal] using fatal
        cases (ran_route_fatal fatal routed).1
    refine ⟨.inr (.inl ⟨_, Verdict.cause?_routed, offers⟩), fun f ending => ?_⟩
    rcases x with (_ | _) | _ | _ <;> cases ending
    · rcases filter_of_routed (ran_route firm₂.fits routed) with kind | ⟨_, same, size⟩
      · cases kind
      · cases same
        exact .filter rfl size

end Turns

/-- Wherever a script is begun, its run ends with an outcome, unless values or files that a command
or a filter reads break it off. Any other failure of a command is an error that goes to the
guards. -/
theorem broken_by_data {q : Program} (start : 0 ≤ q.start) (inputs : Env) (limit : Nat) :
    (∀ e, q.outlined = .error e → (q.run inputs limit).2 = some (.outcome (.failed e))) ∧
    ∀ p, q.outlined = .ok p →
      (∀ t ∈ Session.laps p limit { machine := { vars := inputs } }, t.Settled p) ∧
      ∀ ending, (q.run inputs limit).2 = some ending →
        (∃ o, ending = .outcome o) ∨
          ∃ f, ending = .broken f ∧
            ∃ t ∈ Session.laps p limit { machine := { vars := inputs } }, t.Breaks p f := by
  constructor
  · intro e refused
    rw [Program.run, refused]
  · intro p outlined
    obtain ⟨_, same⟩ := faithful_of_outlined outlined
    have start : 0 ≤ p.start := by rwa [same]
    have run : q.run inputs limit = Session.runFor p limit { machine := { vars := inputs } } := by
      rw [Program.run, outlined]
    rw [run]
    have fetches (m : Machine) (firm : m.control.Firm (fun _ => True) p) : Fetches p m :=
      firm.fetches start
    obtain ⟨settled, ends⟩ := @Session.laps_induction p { machine := { vars := inputs } } _
      (Lap.Settled p) fetches (fun s i v m' firm next turn =>
        ⟨Session.settled firm (fetches _ firm) next, fun _ => turn.firm firm fun _ _ _ => trivial⟩)
      limit firm_start
    refine ⟨settled, fun ending ended => ?_⟩
    rcases ends ending ended with rfl | rfl | ⟨t, mem, last⟩
    · exact .inl ⟨_, rfl⟩
    · exact .inl ⟨_, rfl⟩
    · cases ending with
      | outcome o => exact .inl ⟨o, rfl⟩
      | broken f => exact .inr ⟨f, rfl, t, mem, (settled t mem).breaks f last⟩

def guardedLoad : Program :=
  { Program.ofCommands [{ name := "try" }, { name := "loadJsonVars", target := "bad.json" },
    { name := "catch" }, { name := "echo", target := "caught" }, { name := "endTry" }] with
    files := { contents := [(["bad.json"], ⟨#[0xff]⟩)] } }

theorem broken_by_data_guardedLoad :
    (guardedLoad.run [] 9).2 = some (.broken .badEncoding) ∧
      ∃ t ∈ Session.laps guardedLoad 9 {}, t.Breaks guardedLoad .badEncoding := by
  have ending : (guardedLoad.run [] 9).2 = some (.broken .badEncoding) := by decide +kernel
  obtain ⟨_, runs⟩ := broken_by_data (q := guardedLoad) (Int.le_refl 0) [] 9
  obtain ⟨_, ends⟩ := runs guardedLoad rfl
  rcases ends _ ending with ⟨o, wrong⟩ | ⟨f, same, t, mem, breaks⟩
  · cases wrong
  · cases same
    exact ⟨ending, t, mem, breaks⟩

end Runbook
