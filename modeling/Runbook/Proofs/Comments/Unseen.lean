import Runbook.Proofs.Comments.Guards
import Runbook.Proofs.Comments.Rounds
import Runbook.Proofs.Run.Firm

namespace Runbook

open Runbook.Action

namespace Action

variable {f : Nat ↪o Nat} {p : Program} {cs : List Command} {c : Command}

theorem mimics_located {α β : Type} {R : α → β → Prop} {a : Action α} {b : Action β}
    (mimics : Mimics f R a b) : Mimics f R (located a) (located b) := by
  intro m m' same
  rw [run_located, run_located]
  have out := mimics m m' same
  generalize a.run.run m = r at out ⊢
  generalize b.run.run m' = r' at out ⊢
  cases out with
  | ok result after => exact .ok result after
  | @error e e' n n' cause after =>
    have located := cause.locate n.here
    rw [← after.here] at located
    exact .error located after

theorem mimics_verb (embeds : Embeds f p.commands cs) (c : Command) (resuming : Bool) {v : Verb}
    (uncounted : v ≠ .skipNext) :
    Mimics f Eq (perform p c resuming v) (perform (p.renumber f cs) c resuming v) := by
  cases v with
  | label => exact mimics_pure rfl
  | goto => exact mimics_goto embeds
  | gotoIf => exact mimics_gotoIf embeds c
  | skipNext => exact absurd rfl uncounted
  | openIf => exact mimics_openIf embeds c
  | elseIf => exact mimics_elseIf embeds c
  | orElse => exact mimics_orElse embeds
  | endIf => exact mimics_endIf
  | openTry => exact mimics_openTry c
  | openCatch => exact mimics_openCatch embeds
  | openFinally => exact mimics_openFinally
  | endTry => exact mimics_endTry embeds
  | openLoop kind => exact mimics_openLoop embeds (mimics_rounds c)
  | endLoop kind => exact mimics_endLoop embeds
  | again => exact mimics_again embeds c
  | leave => exact mimics_leave embeds c
  | call => exact mimics_call embeds c
  | openFunction word =>
    cases word with
    | function => exact mimics_openFunction embeds
    | script => exact mimics_seq mimics_logEvent fun _ => mimics_openFunction embeds
  | giveBack => exact mimics_giveBack embeds
  | endFunction word =>
    cases word with
    | function => exact mimics_giveBack embeds
    | script => exact mimics_seq mimics_logEvent fun _ => mimics_giveBack embeds
  | exitTest => exact mimics_exitTest embeds
  | load word =>
    cases word with
    | json | xml => exact mimics_loadVars
    | plain => exact mimics_seq mimics_logEvent fun _ => mimics_loadVars

theorem mimics_execute (embeds : Embeds f p.commands cs) (uncounted : c.verb? ≠ some .skipNext) :
    Mimics f Eq (execute p c) (execute (p.renumber f cs) c) := by
  unfold execute
  cases verb : c.verb? with
  | none => exact mimics_complain
  | some v =>
    rw [verb] at uncounted
    apply mimics_bind mimics_get
    intro m m' same
    have clears : Mimics f Eq (set { m with resume := none } : Action PUnit)
        (set { m' with resume := none }) :=
      mimics_set { same with resume := rfl }
    have resuming : decide (m'.resume.isSome ∧ m'.resume = m'.here) =
        decide (m.resume.isSome ∧ m.resume = m.here) := by
      simp only [same.resume, same.here, Option.isSome_map,
        (Option.map_injective (moved_injective f)).eq_iff]
    apply mimics_seq clears
    intro _
    rw [resuming]
    exact mimics_located (mimics_verb embeds c _ fun other => uncounted (by rw [other]))

theorem mimics_dispatch (embeds : Embeds f p.commands cs) (uncounted : c.verb? ≠ some .skipNext) :
    Mimics f Eq (Host.dispatch p c) (Host.dispatch (p.renumber f cs) c) :=
  mimics_ite Iff.rfl
    (fun _ => mimics_seq (mimics_execute embeds uncounted) fun _ => mimics_pure rfl) fun _ =>
    Host.mimics_perform c

def SameAhead (f : Nat ↪o Nat) (t t' : Int) : Prop :=
  ∃ n n' : Nat, t = n ∧ t' = n' ∧ ∀ i, n ≤ i ↔ n' ≤ f i

theorem ahead_zero : SameAhead f 0 0 := ⟨0, 0, rfl, rfl, fun i => by omega⟩

theorem mimics_target [p.Fresh] : Mimics f (SameAhead f) (target p) (target (p.renumber f cs)) := by
  apply mimics_bind mimics_get
  intro m m' same
  have fresh : (!m'.started) = true ↔ (!m.started) = true := by rw [same.started]
  refine mimics_ite fresh (fun _ => ?_) fun _ => ?_
  · have marks : Mimics f Eq (set { m with started := true } : Action PUnit)
        (set { m' with started := true }) :=
      mimics_set { same with started := rfl }
    have start : (p.renumber f cs).start = 0 := p.fresh
    rw [p.fresh, start]
    exact mimics_seq marks fun _ => mimics_pure ahead_zero
  · rw [same.branch]
    cases branch : m.branch with
    | some place =>
      have clears : Mimics f Eq (set { m with branch := none } : Action PUnit)
          (set { m' with branch := none }) :=
        mimics_set { same with branch := rfl }
      have ahead : SameAhead f (place : Int) (f place : Int) :=
        ⟨place, f place, rfl, rfl, fun i => f.le_iff_le.symm⟩
      exact mimics_seq clears fun _ => mimics_seq mimics_logEvent fun _ => mimics_pure ahead
    | none =>
      apply mimics_pure
      rw [same.here]
      cases here : m.here with
      | none => exact ahead_zero
      | some i =>
        obtain ⟨n, rfl⟩ := Int.eq_ofNat_of_zero_le (same.placed i here)
        refine ⟨n + 1, f n + 1, by simp, by simp, fun i => ?_⟩
        have order : f n < f i ↔ n < i := f.lt_iff_lt
        omega

theorem seek_ahead (embeds : Embeds f p.commands cs) {n n' : Nat} (ahead : ∀ i, n ≤ i ↔ n' ≤ f i) :
    (∃ (i : Nat) (c : Command), p.Has i c ∧
      seek p ((p.commands.length : Int) - n).toNat n = .ok (some ((i : Int), c)) ∧
        seek (p.renumber f cs) ((cs.length : Int) - n').toNat n' = .ok (some ((f i : Int), c))) ∨
      (seek p ((p.commands.length : Int) - n).toNat n = .ok none ∧
        seek (p.renumber f cs) ((cs.length : Int) - n').toNat n' = .ok none) := by
  have bound {i : Nat} {c : Command} (has : p.Has i c) : i < p.commands.length :=
    (List.getElem?_eq_some_iff.mp has).1
  rcases seek_from p n with ⟨i, c, low, has, executable, silent, out⟩ | ⟨silent, out⟩
  · -- the command found in the script is there among the comments, so something is found there too
    have there : cs[f i]? = some c := embeds.keeps i c has
    have from' : n' ≤ f i := (ahead i).mp low
    rcases seek_from (p.renumber f cs) n' with
      ⟨j, d, _, at_j, executable', silent', out'⟩ | ⟨silent', _⟩
    · obtain ⟨k, at_k, rfl⟩ := embeds.only j d at_j executable'
      rcases Nat.lt_trichotomy k i with early | rfl | late
      · have comment := silent k ((ahead k).mpr (by assumption)) early d at_k
        rw [executable'] at comment
        cases comment
      · cases has.symm.trans at_k
        exact .inl ⟨k, c, has, out, out'⟩
      · have comment := silent' (f i) from' (f.lt_iff_lt.mpr late) c there
        rw [executable] at comment
        cases comment
    · have inside : f i < cs.length := by
        rw [← embeds.size]
        exact f.lt_iff_lt.mpr (bound has)
      have comment := silent' (f i) from' inside c there
      rw [executable] at comment
      cases comment
  · rcases seek_from (p.renumber f cs) n' with ⟨j, d, from', at_j, executable', _, _⟩ | ⟨_, out'⟩
    · obtain ⟨k, at_k, rfl⟩ := embeds.only j d at_j executable'
      have comment := silent k ((ahead k).mpr from') (bound at_k) d at_k
      rw [executable'] at comment
      cases comment
    · exact .inr ⟨out, out'⟩

theorem mimics_next (embeds : Embeds f p.commands cs) [p.Fresh] :
    Mimics f (fun x y => y = x ∧ ∀ c ∈ x, c ∈ p.commands) (next p) (next (p.renumber f cs)) := by
  apply mimics_bind mimics_get
  intro m m' same
  have stopped : m'.stopped = true ↔ m.stopped = true := by rw [same.stopped]
  refine mimics_ite stopped (fun _ => mimics_pure ⟨rfl, nofun⟩) fun _ => ?_
  apply mimics_bind mimics_target
  rintro _ _ ⟨n, n', rfl, rfl, ahead⟩
  have size : (p.renumber f cs).commands.length = cs.length := rfl
  rw [size]
  rcases seek_ahead embeds ahead with ⟨i, c, has, out, out'⟩ | ⟨out, out'⟩
  · have moves : Mimics f Eq (modify fun m => { m with here := some (i : Int) } : Action PUnit)
        (modify fun m => { m with here := some (f i : Int) }) :=
      mimics_modify fun _ _ machines => { machines with
        here := by simp
        placed := by rintro _ ⟨⟩; omega }
    rw [out, out']
    apply mimics_bind (R := fun x y => x = some ((i : Int), c) ∧ y = some ((f i : Int), c))
      (mimics_pure ⟨rfl, rfl⟩)
    rintro _ _ ⟨rfl, rfl⟩
    exact mimics_seq moves fun _ => mimics_pure
      ⟨rfl, by rintro _ ⟨⟩; exact List.mem_of_getElem? has⟩
  · have moves : Mimics f Eq (modify fun m => { m with here := some (p.commands.length : Int) } :
      Action PUnit) (modify fun m => { m with here := some (cs.length : Int) }) :=
      mimics_modify fun _ _ machines => { machines with
        here := by simp [embeds.size]
        placed := by rintro _ ⟨⟩; omega }
    rw [out, out']
    apply mimics_bind (R := fun x y => x = none ∧ y = none) (mimics_pure ⟨rfl, rfl⟩)
    rintro _ _ ⟨rfl, rfl⟩
    exact mimics_seq moves fun _ => mimics_pure ⟨rfl, nofun⟩

end Action

section Runs

variable (f : Nat ↪o Nat)

def Step.renumber (f : Nat → Nat) (s : Step) : Step := { s with index := moved f s.index }

inductive Ending.Mirrors : Ending → Ending → Prop
  | completed : Mirrors (.outcome .completed) (.outcome .completed)
  | stopped : Mirrors (.outcome .stopped) (.outcome .stopped)
  | failed {e e' : Error} (same : e.Mirrors f e') :
      Mirrors (.outcome (.failed e)) (.outcome (.failed e'))
  | broken (x : Fault) : Mirrors (.broken x) (.broken x)

/-- The same commands, executed at their new places, and the same lines, with machines that have the
same variables. -/
structure Session.Mirrors (s s' : Session) : Prop where
  machine : s.machine.Mirrors f s'.machine
  steps : s'.steps = s.steps.map (Step.renumber f)
  lines : s'.lines = s.lines

structure Session.InStep (r r' : Session × Option Ending) : Prop where
  session : r.1.Mirrors f r'.1
  ending : Option.Rel (Ending.Mirrors f) r.2 r'.2

end Runs

namespace Session

variable {f : Nat ↪o Nat} {p : Program} {cs : List Command} {s s' : Session}

theorem Mirrors.withMachine (same : s.Mirrors f s') {m m' : Machine} (machines : m.Mirrors f m') :
    Mirrors f { s with machine := m } { s' with machine := m' } := { same with machine := machines }

theorem handle_inStep (embeds : Embeds f p.commands cs) (takes : TakesAny p) (same : s.Mirrors f s')
    (place : Option Int) {e e' : Error} (errors : e.Mirrors f e') :
    InStep f (handle p s place e) (handle (p.renumber f cs) s' (place.map (moved f)) e') := by
  have located (place : Option Int) {e e' : Error} (errors : e.Mirrors f e') :
      (e.locate place).Mirrors f (e'.locate (place.map (moved f))) := by
    cases Failure.Mirrors.locate (.error errors) place with
    | error same => exact same
  have out := mimics_route embeds takes (.error (located place errors)) s.machine s'.machine
    same.machine
  unfold handle
  dsimp only
  generalize (route p (.error (e.locate place))).run.run s.machine = r at out ⊢
  generalize (route (p.renumber f cs) (.error (e'.locate (place.map (moved f))))).run.run
    s'.machine = r' at out ⊢
  cases out with
  | @ok taken _ _ _ result after =>
    cases result
    cases taken with
    | true => exact ⟨same.withMachine after, .none⟩
    | false => exact ⟨same.withMachine after, .some (.failed (located place errors))⟩
  | error cause after =>
    cases cause with
    | fault x => exact ⟨same.withMachine after, .some (.broken x)⟩
    | error nested => exact ⟨same.withMachine after, .some (.failed (located place nested))⟩

theorem perform_inStep (embeds : Embeds f p.commands cs) (takes : TakesAny p)
    (same : s.Mirrors f s') {c : Command} {i : Int} (stays : s.machine.here = some i)
    (uncounted : c.verb? ≠ some .skipNext) :
    InStep f (perform p s c) (perform (p.renumber f cs) s' c) := by
  have here := same.machine.here
  have place : s'.machine.here.getD 0 = moved f (s.machine.here.getD 0) := by
    rw [here, stays]
    rfl
  have executed : Mirrors f { s with steps := s.steps.push ⟨s.machine.here.getD 0, c⟩ }
      { s' with steps := s'.steps.push ⟨s'.machine.here.getD 0, c⟩ } :=
    { same with steps := by simp [same.steps, place, Step.renumber] }
  have out := mimics_dispatch embeds uncounted s.machine s'.machine same.machine
  unfold perform
  dsimp only
  generalize (Host.dispatch p c).run.run s.machine = r at out ⊢
  generalize (Host.dispatch (p.renumber f cs) c).run.run s'.machine = r' at out ⊢
  cases out with
  | ok result after =>
    cases result
    exact ⟨{ executed.withMachine after with lines := by rw [same.lines] }, .none⟩
  | error cause after =>
    cases cause with
    | fault x => exact ⟨executed.withMachine after, .some (.broken x)⟩
    | error errors =>
      have handled := handle_inStep embeds takes (executed.withMachine after) s.machine.here errors
      rw [← here] at handled
      exact handled

section

variable (embeds : Embeds f p.commands cs) [p.Fresh] (takes : TakesAny p)
  (uncounted : ∀ c ∈ p.commands, c.verb? ≠ some .skipNext)

include embeds takes uncounted

theorem step_inStep (same : s.Mirrors f s') : InStep f (s.step p) (s'.step (p.renumber f cs)) := by
  have out := mimics_next embeds s.machine s'.machine same.machine
  unfold step
  rcases fetched : (next p).run.run s.machine with ⟨x, m⟩
  rw [fetched] at out
  generalize (next (p.renumber f cs)).run.run s'.machine = r' at out ⊢
  cases out with
  | @ok x y _ m' result after =>
    obtain ⟨rfl, mem⟩ := result
    cases y with
    | some c =>
      obtain ⟨i, here, _⟩ := command_of_fetched fetched
      exact perform_inStep embeds takes (same.withMachine after) here (uncounted c (mem c rfl))
    | none =>
      refine ⟨same.withMachine after, .some ?_⟩
      rw [after.stopped]
      split
      · exact .stopped
      · exact .completed
  | error cause after =>
    cases cause with
    | fault x => exact ⟨same.withMachine after, .some (.broken x)⟩
    | error errors => exact ⟨same.withMachine after, .some (.failed errors)⟩

theorem runFor_inStep (limit : Nat) (same : s.Mirrors f s') :
    InStep f (s.runFor p limit) (s'.runFor (p.renumber f cs) limit) := by
  induction limit generalizing s s' with
  | zero => exact ⟨same, .none⟩
  | succ limit ih =>
    have out := step_inStep embeds takes uncounted same
    unfold runFor
    generalize s.step p = r at out ⊢
    generalize s'.step (p.renumber f cs) = r' at out ⊢
    obtain ⟨t, ending⟩ := r
    obtain ⟨t', ending'⟩ := r'
    obtain ⟨session, endings⟩ := out
    have endings : Option.Rel (Ending.Mirrors f) ending ending' := endings
    cases endings with
    | some same => exact ⟨session, .some same⟩
    | none => exact ih session

end

end Session

def Program.annotate (p : Program) (n : Notes) : Program :=
  { p with commands := n.insert p.commands }

theorem takesAny_of_outline {p : Program} [p.Faithful]
    (unfiltered : ∀ c ∈ p.commands, c.verb? = some .openCatch → c.target = "") : TakesAny p := by
  intro place name catchAt finallyAt last block
  have verb := (Outline.Spans.catchPart block p.found).verb
  obtain ⟨c, has, own⟩ := Option.bind_eq_some_iff.mp verb
  simp only [targetAt, has, Option.map_some, Option.getD_some]
  exact unfiltered c (List.mem_of_getElem? has) own

theorem Misnesting.error_mirrors (f : Nat ↪o Nat) (e : Misnesting) (cs ds : List Command) :
    (e.error cs).Mirrors f ((e.renumber f).error ds) := by
  have place : (e.renumber f).place = f e.place := by cases e <;> rfl
  refine ⟨rfl, ?_⟩
  show some (((e.renumber f).place : Nat) : Int) = some (moved f (e.place : Nat))
  rw [place, moved_natCast]

/-- Comments do not change behaviour. The outline of a script with comments, or what is wrong in it,
is that of the script without them at the new places, and a run of a script that neither counts
commands nor filters errors executes the same commands, shows the same lines, and comes to the same
end with the same variables. -/
theorem comments_unseen {p : Program} {n : Notes} (silent : n.Silent) (start : p.start = 0)
    (uncounted : ∀ c ∈ p.commands, c.verb? ≠ some .skipNext)
    (unfiltered : ∀ c ∈ p.commands, c.verb? = some .openCatch → c.target = "") :
    Outline.find (p.annotate n).commands =
      ((Outline.find p.commands).map (Outline.renumber n.places)).mapError
        (Misnesting.renumber n.places) ∧
    ∀ inputs limit,
      Session.InStep n.places (p.run inputs limit) ((p.annotate n).run inputs limit) := by
  have found := Outline.find_insert silent p.commands
  refine ⟨found, fun inputs limit => ?_⟩
  have embeds := Notes.embeds silent p.commands
  have fresh : Session.Mirrors n.places { machine := { vars := inputs } }
      { machine := { vars := inputs } } :=
    { machine := ⟨rfl, ⟨rfl, rfl, rfl, rfl, rfl, .nil, rfl⟩, .nil, rfl, nofun, rfl, rfl, rfl, rfl⟩
      steps := by simp
      lines := rfl }
  cases outline : Outline.find p.commands with
  | error e =>
    have refused : p.run inputs limit = ({ machine := { vars := inputs } },
        some (.outcome (.failed (e.error p.commands)))) := by
      simp only [Program.run, Program.outlined, Outline.ofCommands, outline]
      rfl
    rw [outline] at found
    have refused' : (p.annotate n).run inputs limit = ({ machine := { vars := inputs } },
        some (.outcome (.failed ((e.renumber n.places).error (n.insert p.commands))))) := by
      simp only [Program.run, Program.outlined, Outline.ofCommands, Program.annotate, found]
      rfl
    rw [refused, refused']
    exact ⟨fresh, .some (.failed (e.error_mirrors n.places _ _))⟩
  | ok o =>
    have run : p.run inputs limit = Session.runFor { p with outline := o } limit
        { machine := { vars := inputs } } := by
      simp only [Program.run, Program.outlined, Outline.ofCommands, outline]
      rfl
    rw [outline] at found
    have run' : (p.annotate n).run inputs limit =
        Session.runFor (Program.renumber { p with outline := o } n.places (n.insert p.commands))
        limit { machine := { vars := inputs } } := by
      simp only [Program.run, Program.outlined, Outline.ofCommands, Program.annotate, found]
      rfl
    rw [run, run']
    have : Program.Ready { p with outline := o } := { found := outline, start := start }
    exact Session.runFor_inStep (p := { p with outline := o }) embeds
      (takesAny_of_outline (p := { p with outline := o }) unfiltered) uncounted limit fresh

def retriedGuard : Program where
  commands :=
    [{ name := "storeEval", target := "0", value := "n" }, { name := "label", target := "again" },
     { name := "try" }, { name := "storeEval", target := "n + 1", value := "n" },
     { name := "if", target := "n < 2" }, { name := "throwError", target := "low" },
     { name := "endIf" }, { name := "catch" }, { name := "echo", target := "caught $\x7bn\x7d" },
     { name := "finally" }, { name := "echo", target := "tidy" }, { name := "endTry" },
     { name := "gotoIf", target := "n < 2", value := "again" }]

def remarks : Notes
  | 0 => [{ name := "remark", executable := false }]
  | 4 =>
    [{ name := "endTry", executable := false },
      { name := "skipNext", target := "5", executable := false }]
  | 13 => [{ name := "remark", executable := false }]
  | _ => []

theorem comments_unseen_retriedGuard :
    ((retriedGuard.annotate remarks).run [] 99).1.lines = #["caught 1", "tidy", "tidy"] ∧
      ((retriedGuard.annotate remarks).run [] 99).1.steps.map Step.index =
        #[1, 2, 3, 4, 7, 8, 10, 11, 12, 13, 14, 15, 2, 3, 4, 7, 9, 10, 12, 13, 14, 15] ∧
      ((retriedGuard.annotate remarks).run [] 99).2 = some (.outcome .completed) := by
  have silent : remarks.Silent := by
    intro i
    unfold remarks
    split <;> simp
  obtain ⟨_, runs⟩ := comments_unseen (p := retriedGuard) silent rfl (by decide +kernel)
    (by decide +kernel)
  obtain ⟨session, ending⟩ := runs [] 99
  refine ⟨?_, ?_, ?_⟩
  · rw [session.lines]
    decide +kernel
  · rw [session.steps, Array.map_map]
    decide +kernel
  · have completed : (retriedGuard.run [] 99).2 = some (.outcome .completed) := by decide +kernel
    rw [completed] at ending
    generalize ((retriedGuard.annotate remarks).run [] 99).2 = ends at ending ⊢
    cases ending with
    | some same =>
      cases same
      rfl

end Runbook
