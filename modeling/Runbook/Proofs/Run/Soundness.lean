import Runbook.Proofs.Run.Firm
import Runbook.Proofs.Run.Resolved

namespace Runbook

open Runbook.Action Control List

def Kind.MayWait (p : Program) (kind : Kind) : Prop :=
  kind.isFatal = false ∧ (kind = .jump → hasJump p.commands = true)

def Verb.branches : Verb → Bool
  | .elseIf | .orElse | .endIf => true
  | _ => false

/-- The failure of the command at the place `i` has nothing to do with blocks and calls, but for a
condition that was passed over and a jump that leads out of the script. A fault is one of the values
and files that the command reads. -/
structure Failure.Sound (p : Program) (i : Nat) (e : Failure) : Prop where
  scope : e.kind? = some .scope → hasJump p.commands = true ∧ ∃ v, p.Does i v ∧ v.branches = true
  jump : e.kind? = some .jump → hasJump p.commands = true
  fault : ∀ f, e = .fault f → f.arises (verbAt p.commands i) = true

def Lap.Honest (p : Program) (t : Lap) : Prop :=
  verbAt p.commands t.place = none →
    (∀ e, t.verdict.cause? = some e → (Failure.error e).Arises none) ∧ ∀ f, t.verdict = .broken f →
    f.arises none = true

structure Lap.Sound (p : Program) (t : Lap) : Prop where
  raised : ∀ e, t.verdict.cause? = some e → Failure.Sound p t.place (.error e)
  broken : ∀ f, t.verdict = .broken f → Failure.Sound p t.place (.fault f)
  astray : ∀ cause e, t.verdict = .astray cause e → OfFilter e
  branch : ∀ n, t.after.branch = some n → n < p.commands.length

section Blocks

variable {p : Program} {k k' : Control} {i owner : Nat} {v : Verb} {e : Failure} {form : Form}
  {jumps : Bool}

theorem Form.mayPass_of_part (part : (i, v) ∈ form.parts)
    (firm : v.branches = true → jumps = false) : form.mayPass jumps = false := by
  cases form with
  | cond elseIfs orElse =>
    apply firm
    cases orElse with
    | none =>
      rw [Form.parts, Option.map_none, Option.toList_none, append_nil] at part
      obtain ⟨_, _, same⟩ := mem_map.mp part
      cases same
      rfl
    | some j =>
      rcases mem_append.mp part with part | part
      · obtain ⟨_, _, same⟩ := mem_map.mp part
        cases same
        rfl
      · cases mem_singleton.mp part
        rfl
  | guard _ _ _ | loop _ => rfl
  | function _ _ => cases part

theorem Form.mayPass_of_closing (closing : form.closing = v) (asks : v.asks = true)
    (firm : v.branches = true → jumps = false) : form.mayPass jumps = false := by
  subst closing
  cases form with
  | cond _ _ => exact firm rfl
  | guard _ _ _ | loop _ => rfl
  | function _ _ => cases asks

theorem Verb.part_or_closing (asks : v.asks = true) : v.role = .part ∨ v.role = .closing := by
  cases v with
  | elseIf | orElse | openCatch | openFinally => exact .inl rfl
  | endIf | endTry | endLoop _ => exact .inr rfl
  | _ => cases asks

theorem Inside.asks_top [p.Faithful] (inside : Inside p k i) (verb : p.Does i v)
    (asks : v.asks = true) (owned : p.Links i owner)
    (firm : v.branches = true → hasJump p.commands = false) :
    ∃ s rest, k.Top s rest ∧ s.place = owner ∧ s.Fits p.outline := by
  rcases Verb.part_or_closing asks with part | closing
  · obtain ⟨form, last, block, mem, _, chain, _⟩ := owned_part verb part owned
    exact inside.owner_top block (Form.mayPass_of_part mem firm) chain
  · obtain ⟨form, block, same⟩ := owned_closing verb closing owned
    exact inside.owner_top block (Form.mayPass_of_closing same asks firm)
      (block.ended p.found).around

theorem Poised.around_of_returning (poised : Poised p k i) (returning : k.call.returning = true) :
    k.outer ≠ [] := by
  have chain := poised.chain
  cases poised.stance with
  | back _ _ _ own _ _ =>
    intro alone
    rw [alone] at chain
    cases chain with
    | bottom top => cases own.symm.trans top
  | inside _ going _ | round _ going _ _ _ | entry _ going _ _ _ | resume _ going _ _ _ =>
    cases going.symm.trans returning

theorem Verb.reach_of_exit (exit : v.role = .exit) : v.reach? = some .loop := by
  rcases role_exit exit with rfl | rfl <;> rfl

theorem Poised.sound [p.Faithful] (poised : Poised p k i) (firm : k.Firm (Kind.MayWait p) p)
    (verb : p.Does i v) (move : Move p i k.resuming { k with resume := none } v (.error e) k') :
    e.Sound p i := by
  have raises := move.raises (P := Kind.MayWait p) ⟨firm.here, firm.branch, firm.tiers⟩
  refine ⟨fun scope => ?_, fun jump => ?_, ?_⟩
  · cases raises with
    | excused excused =>
      obtain ⟨asks, owner, owned, stray⟩ := excused.scope scope
      by_contra sound
      have firm : v.branches = true → hasJump p.commands = false := by
        intro branches
        by_contra jumps
        exact sound ⟨by simpa using jumps, v, verb, branches⟩
      obtain ⟨s, rest, top, place, _⟩ :=
        (poised.inside_of_asks verb asks).asks_top verb asks owned firm
      exact stray s rest top place
    | again _ same may =>
      cases same.symm.trans scope
      cases may.1
    | stray which owned stray _ =>
      subst which
      obtain ⟨q, g, rest, _, _, _, owned', top, _⟩ :=
        (poised.inside_of_asks verb rfl).finally_top verb
      cases owned.symm.trans owned'
      exact absurd top (stray g rest)
    | noLoop exit none _ =>
      obtain ⟨s, mem, loop⟩ := poised.loop_open verb (Verb.reach_of_exit exit)
      cases (none s mem).symm.trans loop
    | noCall _ returning _ alone =>
      exact absurd (alone scope) (poised.around_of_returning returning)
  · cases raises with
    | excused excused => exact hasJump_of_verbAt verb (excused.jump jump)
    | again _ same may =>
      cases same.symm.trans jump
      exact may.2 rfl
    | stray _ _ _ scope | noLoop _ _ scope => cases scope.symm.trans jump
    | noCall _ _ fatal _ =>
      cases e with
      | error e =>
        have same : e.kind = .jump := Option.some.inj jump
        rw [Failure.isFatal, same] at fatal
        cases fatal
      | fault f => cases jump
  · rintro f rfl
    rw [verb]
    exact raises.fault

theorem Failure.Sound.locate (sound : e.Sound p i) {place : Option Int} :
    (e.locate place).Sound p i := by
  cases e with
  | error e => exact ⟨sound.scope, sound.jump, nofun⟩
  | fault f => exact sound

theorem sound_of_arises (arises : e.Arises none) (host : verbAt p.commands i = none) :
    e.Sound p i := by
  cases e with
  | error e =>
    exact ⟨fun same => absurd (Option.some.inj same) arises.2, fun same => absurd
      (Option.some.inj same) arises.1, nofun⟩
  | fault f =>
    refine ⟨nofun, nofun, ?_⟩
    rintro _ ⟨⟩
    rw [host]
    exact arises

end Blocks

section Turns

variable {p : Program} {m m' : Machine} {i : Nat} {c : Command} {v : Verdict} {laps : List Lap}
  {e : Failure}

theorem Dispatched.sound [p.Faithful] (poised : Poised p m.control i)
    (firm : m.control.Firm (Kind.MayWait p) p) (has : p.Has i c)
    (dispatched : Dispatched p c m (.error e) m')
    (honest : verbAt p.commands i = none → e.Arises none) : e.Sound p i := by
  cases dispatched.acted firm.fits poised.here has with
  | fails verb move located =>
    rw [located]
    exact (poised.sound firm verb move).locate
  | host silent _ => exact sound_of_arises (honest silent) silent

theorem filter_of_routed {o : Outline} {cause : Failure} {source : Int} {k k' : Control}
    (routed : Routed o cause source k (.error e) k') : OfFilter e := by
  cases routed with
  | offered _ _ _ _ taken =>
    cases taken with
    | broke _ _ filter => exact filter

theorem filter_locate (filter : OfFilter e) (place : Option Int) : OfFilter (e.locate place) := by
  rcases filter with kind | ⟨f, rfl, size⟩
  · exact .inl (by rw [kind?_locate]; exact kind)
  · exact .inr ⟨f, rfl, size⟩

theorem Turn.sound [p.Ready] (placed : Placed p m.control)
    (firm : m.control.Firm (Kind.MayWait p) p) (turn : Turn p m i v m')
    (honest : Lap.Honest p ⟨m, i, v, m'⟩) : Lap.Sound p ⟨m, i, v, m'⟩ := by
  have fails {c : Command} {m₁ m₂ : Machine} {e : Failure} (fetched : Fetched p m i c m₁)
      (dispatched : Dispatched p c m₁ (.error e) m₂)
      (honest : verbAt p.commands i = none → e.Arises none) : e.Sound p i := by
    obtain ⟨poised, has, _⟩ := fetched.poised placed
    exact dispatched.sound poised (fetched.firm firm) has honest
  have raised : ∀ e, v.cause? = some e → Failure.Sound p i (.error e) := by
    intro e cause
    cases turn with
    | done | broken => cases cause
    | @routed c m₁ m₂ _ e₀ taken fetched dispatched ran =>
      obtain rfl : e₀.locate m₁.here = e := by cases taken <;> exact Option.some.inj cause
      exact (fails fetched dispatched fun host => (honest host).1 (e₀.locate m₁.here) cause).locate
    | @astray c m₁ m₂ _ e₀ nested fetched dispatched ran =>
      cases cause
      exact (fails fetched dispatched fun host => (honest host).1 (e₀.locate m₁.here) rfl).locate
  have kept : m'.control.Firm (Kind.MayWait p) p := by
    refine turn.firm firm fun e cause mild => ⟨mild, fun jump => ?_⟩
    exact (raised e cause).jump (congrArg some jump)
  refine ⟨raised, ?_, ?_, kept.branch⟩
  · rintro f rfl
    generalize same : Verdict.broken f = v at turn
    cases turn with
    | broken fetched dispatched =>
      cases same
      exact fails fetched dispatched fun host => (honest host).2 f rfl
    | @routed _ _ _ _ _ taken => cases taken <;> cases same
    | done | astray => cases same
  · rintro cause e rfl
    generalize same : Verdict.astray cause e = v at turn
    cases turn with
    | astray fetched dispatched ran =>
      cases same
      have firm₂ := dispatched.firm (fetched.firm firm) fetched.here fetched.command
      exact filter_locate (filter_of_routed (ran_route firm₂.fits ran)) _
    | @routed _ _ _ _ _ taken => cases taken <;> cases same
    | done | broken => cases same

theorem Lap.Sound.firm [p.Faithful] (firm : m.control.Firm (Kind.MayWait p) p)
    (turn : Turn p m i v m') (sound : Lap.Sound p ⟨m, i, v, m'⟩) :
    m'.control.Firm (Kind.MayWait p) p := by
  refine turn.firm firm fun e cause mild => ⟨mild, fun jump => ?_⟩
  exact (sound.raised e cause).jump (congrArg some jump)

theorem Run.firm [p.Ready] (run : Run p laps m) (honest : ∀ t ∈ laps, t.Honest p) :
    m.control.Firm (Kind.MayWait p) p := by
  induction run with
  | start vars logs => exact firm_start
  | turn before turn _ ih =>
    obtain ⟨own, earlier⟩ := forall_mem_cons.mp honest
    have firm := ih earlier
    exact (turn.sound before.reached.placed firm own).firm firm turn

end Turns

namespace Session

variable {p : Program} {s : Session} {i : Nat} {v : Verdict} {m' : Machine}

theorem honest (fetches : Fetches p s.machine) (turn : s.turn? p = some (i, v, m')) :
    Lap.Honest p ⟨s.machine, i, v, m'⟩ := by
  intro host
  obtain ⟨c, m₁, fetched, turned⟩ := turned fetches turn
  have own : c.verb? = none := (verbAt_at fetched.command).symm.trans host
  have reads : Reads m₁.control (Failure.Arises none) (Host.dispatch p c) := by
    rw [show Host.dispatch p c = Host.perform p c from if_neg (by simp [own])]
    exact Host.reads_perform grants_arises
  cases turned with
  | done _ => exact ⟨nofun, nofun⟩
  | broken ran =>
    refine ⟨nofun, ?_⟩
    rintro f ⟨⟩
    exact reads.fails ran
  | routed ran _ verdict =>
    have cause := (congrArg Verdict.cause? verdict).trans Verdict.cause?_routed
    have arises := reads.fails ran
    constructor
    · intro e same
      cases cause.symm.trans same
      exact arises
    · rintro f rfl
      cases cause

theorem sound [p.Ready] (count : Nat) (reached : Reached p s.machine)
    (firm : s.machine.control.Firm (Kind.MayWait p) p) :
    (∀ t ∈ s.laps p count, t.Sound p) ∧
      ∀ ending, (s.runFor p count).2 = some ending →
        ending = .outcome .completed ∨ ending = .outcome .stopped ∨
          ∃ t ∈ s.laps p count, t.verdict.ending? = some ending := by
  have fetches (m : Machine) (state : Reached p m ∧ m.control.Firm (Kind.MayWait p) p) :
      Fetches p m :=
    state.1.placed.fetches
  refine laps_induction fetches (fun s i v m' state next turn => ?_) ⟨reached, firm⟩
  have sound := turn.sound state.1.placed state.2 (honest (fetches _ state) next)
  exact ⟨sound, fun further => ⟨.turn state.1 turn further, sound.firm state.2 turn⟩⟩

end Session

theorem Lap.Sound.ending {p : Program} {t : Lap} (sound : t.Sound p) :
    (∀ f, t.verdict.ending? = some (.broken f) → f.ofData = true) ∧
      (hasJump p.commands = false →
        ∀ e, t.verdict.ending? = some (.outcome (.failed e)) →
          e.kind ≠ .scope ∧ e.kind ≠ .jump) := by
  obtain ⟨before, place, verdict, after⟩ := t
  match verdict with
  | .done | .handled _ => exact ⟨nofun, nofun⟩
  | .unhandled cause =>
    refine ⟨nofun, ?_⟩
    rintro none e ⟨⟩
    have raised := sound.raised cause rfl
    constructor
    · intro scope
      cases none.symm.trans (raised.scope (congrArg some scope)).1
    · intro jump
      cases none.symm.trans (raised.jump (congrArg some jump))
  | .astray cause (.error nested) =>
    refine ⟨nofun, ?_⟩
    rintro _ e ⟨⟩
    rcases sound.astray cause _ rfl with kind | ⟨_, wrong, _⟩
    · have same : nested.kind = .eval := Option.some.inj kind
      rw [same]
      exact ⟨nofun, nofun⟩
    · cases wrong
  | .astray cause (.fault f) =>
    refine ⟨?_, nofun⟩
    rintro _ ⟨⟩
    rcases sound.astray cause _ rfl with kind | ⟨_, same, size⟩
    · cases kind
    · cases same
      exact Fault.ofData_of_topic size
  | .broken f =>
    refine ⟨?_, nofun⟩
    rintro _ ⟨⟩
    exact Fault.ofData_of_arises ((sound.broken f rfl).fault f rfl)

/-- The structure of a script holds at work, under any honest host and in the shell. Every command
finds the blocks and calls it belongs to and is sent to a command of the script, unless a jump has
passed over the condition of a branch or an end. -/
theorem structure_holds {q p : Program} (outlined : q.outlined = .ok p) (start : q.start = 0) :
    (∀ laps m i v m', Run p laps m → Turn p m i v m' →
      (∀ t ∈ ⟨m, i, v, m'⟩ :: laps, Lap.Honest p t) →
      Lap.Sound p ⟨m, i, v, m'⟩) ∧
    (∀ laps m x m', Run p laps m → Ran (next p) m x m' → ∃ c, x = .ok c) ∧
    ∀ inputs limit,
      (∀ t ∈ Session.laps p limit { machine := { vars := inputs } }, t.Sound p) ∧
      (∀ f, (q.run inputs limit).2 = some (.broken f) → f.ofData = true) ∧
      (hasJump p.commands = false →
        ∀ e, (q.run inputs limit).2 = some (.outcome (.failed e)) →
          e.kind ≠ .scope ∧ e.kind ≠ .jump) := by
  have := ready_of_outlined outlined start
  refine ⟨?_, ?_, ?_⟩
  · intro laps m i v m' run turn honest
    obtain ⟨own, earlier⟩ := forall_mem_cons.mp honest
    exact turn.sound run.reached.placed (run.firm earlier) own
  · intro laps m x m' run ran
    cases run.reached.placed.ahead ran with
    | stopped _ | command _ _ _ | ended _ _ _ _ => exact ⟨_, rfl⟩
  · intro inputs limit
    have run : q.run inputs limit = Session.runFor p limit { machine := { vars := inputs } } := by
      rw [Program.run, outlined]
    obtain ⟨sound, ends⟩ := @Session.sound p { machine := { vars := inputs } } _ limit
      (.start inputs #[]) firm_start
    rw [run]
    refine ⟨sound, fun f ended => ?_, fun none e ended => ?_⟩
    · rcases ends _ ended with wrong | wrong | ⟨t, mem, same⟩
      · cases wrong
      · cases wrong
      · exact (sound t mem).ending.1 f same
    · rcases ends _ ended with wrong | wrong | ⟨t, mem, same⟩
      · cases wrong
      · cases wrong
      · exact (sound t mem).ending.2 none e same

def deepFailure : Program := .ofCommands
  [{ name := "function", target := "descend" }, { name := "try" },
   { name := "if", target := "n > 1" }, { name := "call", target := "descend", value := "n=n-1" },
   { name := "else" }, { name := "throwError", target := "deep" }, { name := "endIf" },
   { name := "finally" }, { name := "echo", target := "left" }, { name := "endTry" },
   { name := "endFunction" }, { name := "call", target := "descend", value := "n=2" }]

theorem structure_holds_deepFailure :
    hasJump deepFailure.commands = false ∧ (deepFailure.run [] 40).1.lines = #["left", "left"] ∧
      (∀ t ∈ Session.laps deepFailure 40 {}, t.Sound deepFailure) ∧
      ∃ e, (deepFailure.run [] 40).2 = some (.outcome (.failed e)) ∧ e.kind ≠ .scope ∧
        e.kind ≠ .jump := by
  have ending : (deepFailure.run [] 40).2 =
      some (.outcome (.failed { kind := .command, message := "deep", index := some 5 })) := by
      decide +kernel
  have jumpless : hasJump deepFailure.commands = false := by decide +kernel
  obtain ⟨_, _, shell⟩ := structure_holds (q := deepFailure) rfl rfl
  obtain ⟨sound, _, calm⟩ := shell [] 40
  exact ⟨jumpless, by decide +kernel, sound, _, ending, calm jumpless _ ending⟩

def intoCondition : Program := .ofCommands
  [{ name := "goto", target := "inner" }, { name := "if", target := "true" },
   { name := "label", target := "inner" }, { name := "endIf" }]

example : (Session.laps intoCondition 9 {}).map
    (fun t => (t.place, t.verdict.cause?.map Error.kind)) =
    [(0, none), (2, none), (3, some .scope)] := by decide +kernel

end Runbook
