import Runbook.Proofs.Run.Branches
import Runbook.Proofs.Run.Resolved

namespace Runbook

open Runbook.Action Control List

section Trying

variable {p : Program} {m m' : Machine} {q last i : Nat} {elseIfs : List Nat} {orElse : Option Nat}
  {r : Reply Unit} {rest : List Spot} {left : List Nat}

theorem run_condHere {c : Cond} (here : m.Here i) (owned : p.Links i q)
    (top : m.control.Top ⟨q, .cond c⟩ rest) : (condHere p).run.run m = (.ok (q, c), m) := by
  obtain ⟨f, fs, blocks, spot, _⟩ := top_of_spots top
  obtain ⟨rfl, body⟩ := spot_cond spot
  unfold condHere
  simp only [run_bind, run_ownerHere here owned, run_expectTop blocks, body]
  rfl

theorem ran_elseIf {c : Command} [p.Faithful] (here : m.Here i)
    (block : p.Spans q (.cond elseIfs orElse) last) (owned : p.Links i q)
    (within : ∀ j ∈ left, j ∈ elseIfs) (top : m.control.Top ⟨q, .cond ⟨left, false⟩⟩ rest)
    (ran : Ran (elseIf p c) m r m') :
    Tried m.control q left orElse last rest (p.truth? c.target m.vars) r m'.control := by
  have ran := ran_bind_ok ran (run_condHere here owned top)
  exact ran_choose ran (by rw [← top, withBlocks_self]) block within

theorem ran_orElse_undecided {c : Cond} (here : m.Here i) (owned : p.Links i q)
    (top : m.control.Top ⟨q, .cond c⟩ rest) (undecided : c.decided = false)
    (ran : Ran (Action.orElse p) m r m') : r = .ok () ∧ m' = m := by
  have ran := ran_bind_ok ran (run_condHere here owned top)
  dsimp only at ran
  rw [undecided] at ran
  exact ran_pure ran

/-- The innermost block of the active call is a condition opened at a place, and none of its tests
held yet. -/
def Machine.asking (m : Machine) (place : Nat) : Bool :=
  match m.call.blocks with
  | ⟨q, _, .cond c⟩ :: _ => q = place && !c.decided
  | _ => false

theorem run_elseIf_silent {c : Command} (here : m.Here i) (owned : p.Links i q)
    (silent : m.asking q = false) (evaluator : Evaluator) :
    (elseIf { p with evaluator := evaluator } c).run.run m = (elseIf p c).run.run m := by
  unfold elseIf
  rw [run_bind, run_bind]
  have same : condHere { p with evaluator := evaluator } = condHere p := rfl
  rw [same]
  rcases out : (condHere p).run.run m with ⟨_ | ⟨owner, cond⟩, m₁⟩
  · rfl
  · have decided : cond.decided = true := by
      rcases ran_ownTop_bind here owned out with
        ⟨_, ⟨_, wrong, _⟩, _⟩ | ⟨⟨place, saved, body⟩, rest, blocks, rfl, ran⟩
      · cases wrong
      dsimp only at ran
      split at ran
      · cases (ran_pure ran).1
        simpa [Machine.asking, blocks] using silent
      · cases (Prod.mk.inj ran).1
    dsimp only
    rw [if_pos decided, if_pos decided]
    rfl

end Trying

/-- Whether the condition of a command is evaluated for the block at the height `d`: by the command
that opens the block, or by a further one unless a test held before. -/
def Lap.asks (p : Program) (d : Nat) (t : Lap) : Option Verb → Bool
  | some .openIf => t.before.frames.length = d
  | some .elseIf =>
    match p.outline.block? t.place with
    | some (.partner owner) => t.before.frames.length = d + 1 && t.before.asking owner
    | _ => false
  | _ => false

/-- The test of a condition that is made in the lap for the block at the height `d`: its place, and
what it gave. -/
def Lap.test? (p : Program) (d : Nat) (t : Lap) : Option (Nat × Option Bool) :=
  match p.commands[t.place]? with
  | some c => if t.asks p d c.verb? then some (t.place, p.truth? c.target t.before.vars) else none
  | none => none

/-- The command of the lap evaluates nothing: what it does is the same with every evaluator. -/
def Lap.Silent (p : Program) (t : Lap) : Prop :=
  ∀ c m, Fetched p t.before t.place c m →
    ∀ evaluator, (execute { p with evaluator := evaluator } c).run.run m = (execute p c).run.run m

theorem Lap.silent_of_untested {p : Program} {d q : Nat} {t : Lap}
    (verb : verbAt p.commands t.place = some .elseIf) (owned : p.Links t.place q)
    (height : t.before.frames.length = d + 1) (untested : t.test? p d = none) : t.Silent p := by
  intro c m fetched evaluator
  have command := fetched.command
  have verb := verb_of_at command verb
  have silent : m.asking q = false := by
    have same : m.asking q = t.before.asking q := by
      rw [Machine.asking, Machine.asking, (next_keeps fetched.ran).2.1]
    rw [same]
    simpa [Lap.test?, Lap.asks, command, verb, owned, height] using untested
  have same := run_elseIf_silent (m := { m with resume := none })
    (c := c) fetched.here owned silent evaluator
  unfold execute
  rw [verb]
  show (located (elseIf _ c)).run.run _ = (located (elseIf p c)).run.run _
  rw [run_located, run_located, same]

/-- How many blocks are open before a command that begins a branch of the block at the height
`d`. -/
def Verb.branchHeight (d : Nat) : Verb → Option Nat
  | .openIf => some d
  | .elseIf | .orElse => some (d + 1)
  | _ => none

/-- The branch of the block at the height `d` that control enters in the lap: it goes on right
behind the beginning. -/
def Lap.enters? (p : Program) (d : Nat) (t : Lap) : Option Nat :=
  if (verbAt p.commands t.place).bind (Verb.branchHeight d) = some t.before.frames.length ∧
      t.verdict = .done ∧ t.after.branch = none then
    some t.place
  else none

/-- A command of the branch that begins at the place `j` is executed, in the course of the call in
which the block at the height `d` is open. -/
def Lap.Visits (arms : List Nat) (last d j : Nat) (t : Lap) : Prop :=
  (t.before.outer.flatMap Call.blocks).length ≤ d ∧ t.before.call.returning = false ∧
    t.before.resume = none ∧ InArm arms last j t.place

/-- The branch at the place `j` is the one to enter: its test is the last one and holds, or it is
the one without a test and all tests were made and none holds. -/
def Chosen (conds : List Nat) (orElse : Option Nat) (tests : List (Nat × Option Bool)) (j : Nat) :
    Prop :=
  tests.getLast? = some (j, some true) ∨ (orElse = some j ∧ tests = conds.map (·, some false))

/-- The tests are made in order, up to the first that does not fail to hold, and the branch that is
entered is the one chosen. -/
structure Orderly (conds : List Nat) (orElse : Option Nat) (tests : List (Nat × Option Bool))
    (entered : List Nat) : Prop where
  ordered : tests.map Prod.fst <+: conds
  falsy : ∀ x ∈ tests.dropLast, x.2 = some false
  entered : entered = [] ∨ ∃ j, entered = [j] ∧ Chosen conds orElse tests j

section Lists

variable {conds before left entered : List Nat} {orElse : Option Nat}
  {tests : List (Nat × Option Bool)} {next j j' : Nat} {truth : Option Bool}

theorem getLast?_falsy : (before.map (·, some false)).getLast? ≠ some (j, some true) := by
  rw [getLast?_map]
  cases before.getLast? <;> simp

theorem Chosen.unique (chosen : Chosen conds orElse tests j)
    (chosen' : Chosen conds orElse tests j') : j = j' := by
  rcases chosen with last | ⟨last, same⟩ <;> rcases chosen' with last' | ⟨last', same'⟩
  · cases last.symm.trans last'
    rfl
  · exact absurd (same' ▸ last) getLast?_falsy
  · exact absurd (same ▸ last') getLast?_falsy
  · exact Option.some.inj (last.symm.trans last')

theorem Chosen.of_falsy (chosen : Chosen conds orElse (before.map (·, some false)) j) :
    orElse = some j ∧ before.length = conds.length := by
  rcases chosen with last | ⟨last, same⟩
  · exact absurd last getLast?_falsy
  · exact ⟨last, by simpa using congrArg List.length same⟩

theorem orderly_test (order : conds = before ++ next :: left)
    (enters : entered = [] ∨ (truth = some true ∧ entered = [next])) :
    Orderly conds orElse (before.map (·, some false) ++ [(next, truth)]) entered := by
  refine ⟨?_, ?_, ?_⟩
  · refine ⟨left, ?_⟩
    rw [order]
    simp [Function.comp_def]
  · intro x mem
    rw [dropLast_concat] at mem
    obtain ⟨_, _, rfl⟩ := mem_map.mp mem
    rfl
  · rcases enters with none | ⟨rfl, rfl⟩
    · exact .inl none
    · exact .inr ⟨next, rfl, .inl (by simp)⟩

theorem orderly_falsy (ordered : before <+: conds)
    (enters : entered = [] ∨ ∃ j, entered = [j] ∧ orElse = some j ∧ before = conds) :
    Orderly conds orElse (before.map (·, some false)) entered := by
  refine ⟨?_, ?_, enters.imp_right fun ⟨j, inside, last, all⟩ =>
    ⟨j, inside, .inr ⟨last, by rw [all]⟩⟩⟩
  · rwa [map_map, show Prod.fst ∘ (fun j => (j, some false)) = id from rfl, map_id]
  · intro x mem
    obtain ⟨_, _, rfl⟩ := mem_map.mp (dropLast_subset _ mem)
    rfl

end Lists

section Outcomes

variable {p : Program} {m m' : Machine} {i : Nat} {c : Command} {v : Verdict} {w : Verb}
  {r : Reply Unit}

structure Performs (p : Program) (m : Machine) (i : Nat) (w : Verb) (c : Command) (m₁ : Machine)
    (r : Except Failure Unit) (m₂ : Machine) : Prop where
  command : p.Has i c
  poised : Poised p m₁.control i
  control : m₁.control = m.control.fetched i
  vars : m₁.vars = m.vars
  ran : Ran (perform p c m₁.control.resuming w) { m₁ with resume := none } r m₂

theorem Performs.begins {m₁ m₂ : Machine} (performed : Performs p m i w c m₁ r m₂) :
    ({ m₁ with resume := none } : Machine).control =
      { m.control.fetched i with resume := none } := by
  show { m₁.control with resume := none } = _
  rw [performed.control]

theorem Turn.performs [p.Ready] (placed : Placed p m.control) (turn : Turn p m i v m')
    (verb : p.Does i w) :
    ∃ c m₁ r m₂, Performs p m i w c m₁ r m₂ ∧ Concludes p m₂.control m'.control v r := by
  obtain ⟨c, m₁, r, m₂, fetched, dispatched, concludes⟩ := turn.concludes placed
  obtain ⟨poised, command, control⟩ := fetched.poised placed
  have verb := verb_of_at command verb
  obtain ⟨r', rfl, performed⟩ := dispatched.performs verb
  refine ⟨c, m₁, r', m₂, ⟨command, poised, control, (next_keeps fetched.ran).1, performed⟩, ?_⟩
  cases r' with
  | ok _ => exact concludes
  | error e =>
    have concludes : Concludes p m₂.control m'.control v (.error (e.locate m₂.here)) := concludes
    cases concludes with
    | taken rooted routed => exact .taken rooted routed
    | ends ending left => exact .ends ending left

theorem routed_vacates {k k' : Control} {d : Nat} {s : Spot} {cause : Failure} {source : Int}
    (routed : Routed p.outline cause source k (.ok true) k') (opened : Open d s [] k)
    (cond : s.isCond = true) : k'.spots.length ≤ d := by
  have held : Held (fun _ => False) d s k := held_top opened
  obtain ⟨_, _, _, top'⟩ := routed.top
  refine (held.leave routed.leaves cond).resolve_left fun held => ?_
  obtain @⟨upper, lower, t, above, rest', tiers, blocks, _, inner, called⟩ := held
  rcases eq_nil_or_concat' upper with rfl | ⟨_, u, rfl⟩
  · obtain ⟨rfl, _⟩ := cons.inj tiers
    cases above with
    | nil =>
      obtain ⟨rfl, _⟩ := cons.inj (blocks.symm.trans top')
      cases cond
    | cons x above => exact inner x mem_cons_self
  · obtain ⟨_, _, impossible⟩ := called u (by simp)
    exact impossible

end Outcomes

/-- How far a condition at the height `d` has come, with the tests made and the branches entered so
far. It goes from test to test, then on without one, and then stays in a branch; in the end it is
left, or the run has ended. -/
inductive Stage (d q last : Nat) (elseIfs : List Nat) (orElse : Option Nat)
    (tests : List (Nat × Option Bool)) (entered : List Nat) (tested ended : Bool) (m : Machine) :
    Prop
  | asks {more left next} (told : tests = (q :: more).map (·, some false)) (outside : entered = [])
      (order : elseIfs = more ++ next :: left)
      (opened : Open d ⟨q, .cond ⟨left, false⟩⟩ [] m.control) (sent : m.branch = some next)
  | exhausted (told : tests = (q :: elseIfs).map (·, some false)) (outside : entered = [])
      (opened : Open d ⟨q, .cond ⟨[], false⟩⟩ [] m.control)
      (sent : m.branch = some (orElse.getD last)) (fresh : tested = true)
  | settled {j} {c : Cond} (orderly : Orderly (q :: elseIfs) orElse tests entered)
      (chosen : Chosen (q :: elseIfs) orElse tests j) (inside : entered = [j])
      (begins : j ∈ arms q elseIfs orElse)
      (own : c.decided = true ∨ ∀ r ∈ arms q elseIfs orElse, r ≤ j)
      (settled : Settled (arms q elseIfs orElse) last j d ⟨q, .cond c⟩ m.control)
  | closed (orderly : Orderly (q :: elseIfs) orElse tests entered)
      (complete : ∀ j, Chosen (q :: elseIfs) orElse tests j → entered = [j])
      (gone : ended = true ∨ m.control.spots.length ≤ d)

section Stages

variable {p : Program} {m m' : Machine} {d q last i j next : Nat} {elseIfs before left : List Nat}
  {orElse : Option Nat} {tests : List (Nat × Option Bool)} {entered : List Nat} {tested : Bool}
  {v : Verdict} {k k' : Control} {rest : List Spot} {truth : Option Bool} {r : Reply Unit}
  {c : Cond} {w : Verb} {t : Lap}

theorem settled_begin [p.Faithful] (block : p.Spans q (.cond elseIfs orElse) last)
    (begins : j ∈ arms q elseIfs orElse) (opened : Open d ⟨q, .cond c⟩ [] k)
    (started : k.started = true) (branch : k.branch = none) (here : k.Here j) :
    Settled (arms q elseIfs orElse) last j d ⟨q, .cond c⟩ k := by
  refine ⟨held_top opened, fun t _ _ _ _ comes => ?_⟩
  obtain rfl := At.eq_succ comes started branch here
  exact onArm_succ (Nat.le_refl j) (arm_verb block begins).2.1 fun _ _ below => below

theorem not_chosen {conds : List Nat} : ¬ Chosen conds orElse (tests ++ [(next, none)]) j := by
  rintro (last | ⟨_, same⟩)
  · simp at last
  · have mem : (next, none) ∈ conds.map (·, some false) := by rw [← same]; simp
    simp at mem

theorem stage_tried [p.Faithful] (block : p.Spans q (.cond elseIfs orElse) last)
    (order : q :: elseIfs = before ++ next :: left)
    (tried : Tried k q left orElse last rest truth r k') (started : k.started = true)
    (here : k.Here next) (branch : k.branch = none)
    (height : rest.length + (k.outer.flatMap Tier.blocks).length = d)
    (follows : Concludes p k' m'.control v r) :
    Stage d q last elseIfs orElse (before.map (·, some false) ++ [(next, truth)])
      (if v = .done ∧ m'.branch = none then [next] else []) true v.ending?.isSome m' := by
  cases tried with
  | fails e =>
    cases follows with
    | ends ending _ =>
      rw [if_neg (by rintro ⟨rfl, _⟩; cases ending)]
      exact .closed (orderly_test order (.inl rfl)) (fun _ chosen => absurd chosen not_chosen)
        (.inl ending)
    | taken _ routed =>
      rw [if_neg (by simp)]
      exact .closed (orderly_test order (.inl rfl)) (fun _ chosen => absurd chosen not_chosen)
        (.inr (routed_vacates routed ⟨rest, rfl, height⟩ rfl))
  | holds =>
    obtain ⟨same⟩ := follows
    rw [if_pos ⟨rfl, (congrArg Control.branch same).trans branch⟩]
    have begins : next ∈ arms q elseIfs orElse := by
      have mem : next ∈ q :: elseIfs := by rw [order]; simp
      simp only [arms, mem_cons, mem_append] at mem ⊢
      exact mem.imp_right .inl
    have settled :
        Settled (arms q elseIfs orElse) last next d ⟨q, .cond ⟨left, true⟩⟩ m'.control := by
      rw [same]
      exact settled_begin block begins ⟨rest, rfl, height⟩ started branch here
    exact .settled (orderly_test order (.inr ⟨rfl, rfl⟩)) (.inl (by simp)) rfl begins
      (.inl rfl) settled
  | @next first others more =>
    obtain ⟨same⟩ := follows
    have sent : m'.branch = some first := congrArg Control.branch same
    rw [if_neg (by simp [sent])]
    subst more
    have opened : Open d ⟨q, .cond ⟨others, false⟩⟩ [] m'.control := by
      rw [same]; exact ⟨rest, rfl, height⟩
    cases before with
    | nil =>
      obtain ⟨rfl, rfl⟩ := cons.inj order
      exact .asks rfl rfl (nil_append _).symm opened sent
    | cons b before =>
      obtain ⟨rfl, rfl⟩ := cons.inj order
      have behind :
          before.append (next :: first :: others) = (before ++ [next]) ++ first :: others := by simp
      exact .asks (by simp) rfl behind opened sent
  | last none =>
    obtain ⟨same⟩ := follows
    have sent : m'.branch = some (orElse.getD last) := congrArg Control.branch same
    rw [if_neg (by simp [sent])]
    subst none
    refine .exhausted ?_ rfl (by rw [same]; exact ⟨rest, rfl, height⟩) sent rfl
    rw [order]
    simp

theorem asking_top (top : m.control.Top ⟨q, .cond c⟩ rest) : m.asking q = !c.decided := by
  obtain ⟨⟨place, saved, body⟩, fs, blocks, spot, _⟩ := top_of_spots top
  obtain ⟨rfl, rfl⟩ := spot_cond spot
  simp [Machine.asking, blocks]

theorem top_of_asking (asking : m.asking q = true) :
    ∃ c rest, m.control.Top ⟨q, .cond c⟩ rest ∧ c.decided = false := by
  unfold Machine.asking at asking
  split at asking
  · rename_i place saved c fs blocks
    obtain ⟨rfl, undecided⟩ : place = q ∧ c.decided = false := by simpa using asking
    exact ⟨c, _, top_spot blocks, undecided⟩
  · cases asking

theorem frames_of_open {s : Spot} (opened : Open d s [] m.control) : m.frames.length = d + 1 := by
  obtain ⟨rest, top, height⟩ := opened
  rw [← frames_length, spots_eq, top, length_append, nil_append, length_cons]
  omega

theorem toList_enters? (verb : p.Does i w) (height : w.branchHeight d = some m.frames.length) :
    ((Lap.mk m i v m').enters? p d).toList = if v = .done ∧ m'.branch = none then [i] else [] := by
  simp only [Lap.enters?, verb, Option.bind_some, height, true_and]
  split <;> rfl

theorem stage_open [p.Ready] (placed : Placed p m.control) (turn : Turn p m q v m')
    (block : p.Spans q (.cond elseIfs orElse) last) (height : m.frames.length = d) :
    Stage d q last elseIfs orElse ((Lap.mk m q v m').test? p d).toList
      ((Lap.mk m q v m').enters? p d).toList
      ((Lap.mk m q v m').test? p d).isSome v.ending?.isSome m' := by
  have verb : p.Does q .openIf := (block.ended p.found).grown.opened
  obtain ⟨c, m₁, r, m₂, performed, follows⟩ := turn.performs placed verb
  have verb' := verb_of_at performed.command verb
  have tried := ran_openIf (m := { m₁ with resume := none }) performed.poised.here block
    performed.ran
  have spots : ({ m₁ with resume := none } : Machine).control.spots.length = d := by
    show m₁.control.spots.length = d
    rw [performed.control, ← height]
    exact frames_length m
  rw [spots_eq, length_append] at spots
  have stage := stage_tried block (nil_append _).symm tried performed.poised.started
    performed.poised.here performed.poised.branch spots follows
  have test : (Lap.mk m q v m').test? p d = some (q, p.truth? c.target m₁.vars) := by
    simp [Lap.test?, performed.command, verb', Lap.asks, height, performed.vars]
  rw [test, toList_enters? verb (by rw [Verb.branchHeight, height])]
  exact stage

theorem not_visits {arms : List Nat} (place : t.place ∈ arms ∨ t.place = last) :
    ¬ t.Visits arms last d j := by
  rintro ⟨_, _, _, arm⟩
  rcases place with begins | rfl
  · have := arm.latest _ begins (Nat.le_refl _)
    have := arm.behind
    omega
  · exact Nat.lt_irrefl _ arm.before

theorem Settled.visit {j' : Nat} [p.Ready] (placed : Placed p t.before.control)
    (turn : Turn p t.before t.place t.verdict t.after)
    (block : p.Spans q (.cond elseIfs orElse) last)
    (settled : Settled (arms q elseIfs orElse) last j d ⟨q, .cond c⟩ t.before.control)
    (begins : j ∈ arms q elseIfs orElse) (begins' : j' ∈ arms q elseIfs orElse)
    (visits : t.Visits (arms q elseIfs orElse) last d j') : j = j' := by
  obtain ⟨inner, going, idle, arm⟩ := visits
  obtain ⟨x, m₁, fetched⟩ := turn.fetched
  have comes := fetched.comes placed
  have low : (t.before.control.outer.flatMap Tier.blocks).length ≤ d := by
    simpa [Machine.control, Call.tier, flatMap_map, length_flatMap] using inner
  obtain ⟨above, opened, _⟩ := settled.held.opened low
  rcases settled.stands block comes opened idle going with ⟨_, other | ⟨mem, _⟩ | ends⟩ | other
  · exact other.unique arm begins begins'
  · exact absurd ⟨inner, going, idle, arm⟩ (not_visits (.inl mem))
  · exact absurd ⟨inner, going, idle, arm⟩ (not_visits (.inr ends))
  · exact other.unique arm begins begins'

variable [p.Ready] (placed : Placed p m.control) (turn : Turn p m i v m')
  (block : p.Spans q (.cond elseIfs orElse) last)

include placed turn block

theorem step_asks {more : List Nat} (order : elseIfs = more ++ next :: left)
    (opened : Open d ⟨q, .cond ⟨left, false⟩⟩ [] m.control) (sent : m.branch = some next) :
    i ∈ arms q elseIfs orElse ∧
      Stage d q last elseIfs orElse
        ((q :: more).map (·, some false) ++ ((Lap.mk m i v m').test? p d).toList)
        ((Lap.mk m i v m').enters? p d).toList ((Lap.mk m i v m').test? p d).isSome
          v.ending?.isSome m' := by
  have mem : next ∈ elseIfs := by rw [order]; simp
  have part : (next, Verb.elseIf) ∈ (Form.cond elseIfs orElse).parts := by simp [Form.parts, mem]
  obtain ⟨_, _, verb, _, owned⟩ := block.part p.found part
  have within : ∀ j ∈ left, j ∈ elseIfs := fun j inside => by rw [order]; simp [inside]
  obtain rfl := turn.place_of_branch placed sent verb
  refine ⟨mem_arms.mpr (.inr ⟨_, part⟩), ?_⟩
  have frames := frames_of_open opened
  obtain ⟨rest, top, height⟩ := opened
  obtain ⟨c, m₁, r, m₂, performed, follows⟩ := turn.performs placed verb
  have verb' := verb_of_at performed.command verb
  have tried := ran_elseIf (m := { m₁ with resume := none }) performed.poised.here block owned
    within (by rw [performed.begins]; exact top) performed.ran
  rw [performed.begins] at tried
  have stage := stage_tried block (show q :: elseIfs = (q :: more) ++ i :: left by rw [order]; rfl)
    tried rfl rfl rfl height follows
  have test : (Lap.mk m i v m').test? p d = some (i, p.truth? c.target m₁.vars) := by
    simp [Lap.test?, performed.command, verb', Lap.asks, owned, frames, asking_top top,
      performed.vars]
  rw [test, toList_enters? verb (by rw [Verb.branchHeight, frames])]
  exact stage

theorem step_orElse (least : orElse = some j) (opened : Open d ⟨q, .cond ⟨[], false⟩⟩ [] m.control)
    (sent : m.branch = some j) :
    i ∈ arms q elseIfs orElse ∧ (Lap.mk m i v m').test? p d = none ∧
      Stage d q last elseIfs orElse ((q :: elseIfs).map (·, some false))
        ((Lap.mk m i v m').enters? p d).toList tested
        v.ending?.isSome m' := by
  subst least
  have part : (j, Verb.orElse) ∈ (Form.cond elseIfs (some j)).parts := by simp [Form.parts]
  obtain ⟨_, _, verb, _, owned⟩ := block.part p.found part
  obtain rfl := turn.place_of_branch placed sent verb
  obtain ⟨c, m₁, r, m₂, performed, follows⟩ := turn.performs placed verb
  have verb' := verb_of_at performed.command verb
  obtain ⟨_, top, _⟩ := id opened
  obtain ⟨rfl, rfl⟩ := ran_orElse_undecided (m := { m₁ with resume := none })
    performed.poised.here owned (by rw [performed.begins]; exact top) rfl performed.ran
  obtain ⟨same⟩ := follows
  rw [performed.begins] at same
  have begins : i ∈ arms q elseIfs (some i) := mem_arms.mpr (.inr ⟨_, part⟩)
  have branch : m'.branch = none := congrArg Control.branch same
  have enters : (Lap.mk m i .done m').enters? p d = some i := by
    simp [Lap.enters?, verb, Verb.branchHeight, frames_of_open opened, branch]
  have settled : Settled (arms q elseIfs (some i)) last i d ⟨q, .cond ⟨[], false⟩⟩ m'.control := by
    rw [same]
    exact settled_begin block begins opened rfl rfl rfl
  refine ⟨begins, by simp [Lap.test?, performed.command, verb', Lap.asks], ?_⟩
  rw [enters]
  exact .settled (orderly_falsy prefix_rfl (.inr ⟨i, rfl, rfl, rfl⟩)) (.inr ⟨rfl, rfl⟩) rfl begins
    (.inr fun _ mem => le_orElse block rfl mem) settled

theorem step_end (least : orElse = none) (opened : Open d ⟨q, .cond ⟨[], false⟩⟩ [] m.control)
    (sent : m.branch = some last) :
    i = last ∧ (Lap.mk m i v m').test? p d = none ∧
      Stage d q last elseIfs orElse ((q :: elseIfs).map (·, some false))
        ((Lap.mk m i v m').enters? p d).toList tested
        v.ending?.isSome m' := by
  have verb : p.Does last .endIf := (block.ended p.found).closed
  obtain rfl := turn.place_of_branch placed sent verb
  obtain ⟨_, _, fetched⟩ := turn.fetched
  have verb' := verb_of_at fetched.command verb
  have enters : (Lap.mk m i v m').enters? p d = none := by
    simp [Lap.enters?, verb, Verb.branchHeight]
  refine ⟨rfl, by simp [Lap.test?, fetched.command, verb', Lap.asks], ?_⟩
  rw [enters]
  refine .closed (orderly_falsy prefix_rfl (.inl rfl))
    (fun j chosen => nomatch least.symm.trans chosen.of_falsy.1) ?_
  obtain ⟨r, k, _, acted, concludes⟩ := turn.acted placed
  cases acted with
  | host silent _ => cases silent.symm.trans verb
  | fails own move _ =>
    cases verb.symm.trans own
    cases concludes with
    | ends ending _ => exact .inl ending
    | taken _ routed =>
      cases move with
      | fail => exact .inr (routed_vacates routed opened rfl)
      | overjump other | noLoop other | lostBack other => cases other
  | moves own move =>
    cases verb.symm.trans own
    obtain ⟨same⟩ := concludes
    cases move with
    | endIf _ top' =>
      obtain ⟨rest, top, height⟩ := opened
      obtain ⟨_, rfl⟩ := cons.inj (top.symm.trans top')
      refine .inr (Nat.le_of_eq ?_)
      rw [same, spots_eq, length_append]
      exact height
    | _ => contradiction

theorem Settled.decided {owner : Nat} {c' : Cond}
    (own : c.decided = true ∨ ∀ r ∈ arms q elseIfs orElse, r ≤ j)
    (settled : Settled (arms q elseIfs orElse) last j d ⟨q, .cond c⟩ m.control) (verb : p.Does i w)
    (part : w.role = .part) (owned : p.Links i owner) (top : m.control.Top ⟨owner, .cond c'⟩ rest)
    (height : m.frames.length = d + 1) : c'.decided = true := by
  have height : rest.length + (m.control.outer.flatMap Tier.blocks).length = d := by
    rw [← frames_length, spots_eq, top, length_append, length_cons] at height
    omega
  have same : ⟨owner, .cond c'⟩ = (⟨q, .cond c⟩ : Spot) := settled.held.top ⟨rest, top, height⟩
  cases same
  obtain ⟨x, m₁, fetched⟩ := turn.fetched
  have comes := fetched.comes placed
  exact settled.not_part block comes own ⟨rest, top, height⟩ verb part owned

variable (lives : d < m.frames.length) (own : c.decided = true ∨ ∀ r ∈ arms q elseIfs orElse, r ≤ j)
  (settled : Settled (arms q elseIfs orElse) last j d ⟨q, .cond c⟩ m.control)

include lives own settled

theorem Settled.no_test : (Lap.mk m i v m').test? p d = none := by
  unfold Lap.test?
  split
  · rename_i x command
    refine if_neg fun asks => ?_
    unfold Lap.asks at asks
    split at asks
    · have height : m.frames.length = d := by simpa using asks
      omega
    · rename_i verb
      split at asks
      · rename_i owner owned
        obtain ⟨height, asking⟩ : m.frames.length = d + 1 ∧ m.asking owner = true := by
          simpa using asks
        obtain ⟨c', rest, top, undecided⟩ := top_of_asking asking
        have verb : p.Does i .elseIf := verbAt_of_at command verb
        cases undecided.symm.trans (settled.decided placed turn block own verb rfl owned top height)
      · cases asks
    · cases asks
  · rfl

theorem Settled.no_entry : (Lap.mk m i v m').enters? p d = none := by
  refine if_neg ?_
  rintro ⟨height, verdict, branch⟩
  obtain ⟨w, verb, height⟩ := Option.bind_eq_some_iff.mp height
  have height : w.branchHeight d = some m.frames.length := height
  obtain ⟨later, top⟩ : w.isBranch = true ∧ m.frames.length = d + 1 := by
    cases w <;> simp [Verb.branchHeight] at height <;> first | omega | simp [height, Verb.isBranch]
  have part : w.role = .part := by cases w <;> first | rfl | cases later
  obtain ⟨r, k, _, acted, concludes⟩ := turn.acted placed
  cases concludes with
  | ends ending _ => simp [show v = .done from verdict, Verdict.ending?] at ending
  | taken => cases verdict
  | done same =>
    have branch : k.branch = none := (congrArg Control.branch same).symm.trans branch
    cases acted with
    | host silent _ => cases silent.symm.trans verb
    | moves verb' move =>
      cases verb.symm.trans verb'
      cases move with
      | elseIf owned innermost undecided | orElse owned innermost undecided =>
        cases undecided.symm.trans
          (settled.decided placed turn block own verb part owned innermost top)
      | skip => cases branch
      | stay other | jump other | pass other | waitExit other | foreign other | waitBack other
      | giveBack other =>
        cases w <;> cases later <;> cases other
      | _ => cases later

omit lives own settled

theorem Stage.step (plain : hasJump p.commands = false) (lives : d < m.frames.length)
    (stage : Stage d q last elseIfs orElse tests entered tested false m) :
    Stage d q last elseIfs orElse (tests ++ ((Lap.mk m i v m').test? p d).toList)
        (entered ++ ((Lap.mk m i v m').enters? p d).toList) ((Lap.mk m i v m').test? p d).isSome
          v.ending?.isSome m' ∧
      (∀ j ∈ arms q elseIfs orElse, (Lap.mk m i v m').Visits (arms q elseIfs orElse) last d j →
        entered ++ ((Lap.mk m i v m').enters? p d).toList = [j]) ∧
      (entered ≠ [] → (Lap.mk m i v m').enters? p d = none) := by
  cases stage with
  | asks told outside order opened sent =>
    subst told outside
    obtain ⟨begins, stage⟩ := step_asks placed turn block order opened sent
    exact ⟨stage, fun j _ visits => absurd visits (not_visits (.inl begins)),
      fun some => absurd rfl some⟩
  | exhausted told outside opened sent _ =>
    subst told outside
    cases orElse with
    | some j =>
      obtain ⟨begins, test, stage⟩ := step_orElse placed turn block rfl opened sent
      rw [test, Option.toList_none, append_nil]
      exact ⟨stage, fun j _ visits => absurd visits (not_visits (.inl begins)),
        fun some => absurd rfl some⟩
    | none =>
      obtain ⟨ends, test, stage⟩ := step_end placed turn block rfl opened sent
      rw [test, Option.toList_none, append_nil]
      exact ⟨stage, fun j _ visits => absurd visits (not_visits (.inr ends)),
        fun some => absurd rfl some⟩
  | @settled j c orderly chosen inside begins own settled =>
    rw [settled.no_test placed turn block lives own, settled.no_entry placed turn block lives own,
      Option.toList_none, Option.toList_none, append_nil, append_nil]
    refine ⟨?_, fun j' begins' visits => ?_, fun _ => rfl⟩
    · cases ending : v.ending? with
      | some _ =>
        exact .closed orderly (fun j' chosen' => by rw [chosen'.unique chosen]; exact inside)
          (.inl rfl)
      | none =>
        have low := (arm_verb block begins).1
        rcases turn.settled plain placed block low own settled ending with settled | gone
        · exact .settled orderly chosen inside begins own settled
        · exact .closed orderly (fun j' chosen' => by rw [chosen'.unique chosen]; exact inside)
            (.inr gone)
    · rw [inside, Settled.visit placed turn block settled begins begins' visits]
  | closed _ _ gone =>
    rcases gone with wrong | gone
    · cases wrong
    · rw [frames_length] at gone
      omega

end Stages

/-- What the laps of a condition are like, from the one that opens it on: the tests are made in
order and once each, and the branch chosen is entered, or is next; the commands executed in a branch
are those of the branch that was entered. A further command of the condition that makes no test
evaluates nothing. -/
structure Exclusive (p : Program) (d q last : Nat) (elseIfs : List Nat) (orElse : Option Nat)
    (story : List Lap) (m : Machine) :
    Prop extends Orderly (q :: elseIfs) orElse (story.filterMap (Lap.test? p d))
      (story.filterMap (Lap.enters? p d)) where
  once : ((story.filterMap (Lap.test? p d)).map Prod.fst).Nodup
  complete : ∀ j, Chosen (q :: elseIfs) orElse (story.filterMap (Lap.test? p d)) j →
    story.filterMap (Lap.enters? p d) = [j] ∨
      (orElse = some j ∧ m.branch = some j ∧ ∃ t, story.getLast? = some t ∧
        (t.test? p d).isSome = true)
  visits : ∀ t ∈ story, ∀ j ∈ arms q elseIfs orElse, t.Visits (arms q elseIfs orElse) last d j →
    story.filterMap (Lap.enters? p d) = [j]
  silent : ∀ t ∈ story, t.place ∈ elseIfs → t.before.frames.length = d + 1 →
    t.test? p d = none → t.Silent p

section Lives

variable {p : Program} {m m' : Machine} {d q last i : Nat} {elseIfs : List Nat}
  {orElse : Option Nat} {story : List Lap} {ended : Bool} {v : Verdict}

structure Told (p : Program) (d q last : Nat) (elseIfs : List Nat) (orElse : Option Nat)
    (story : List Lap) (ended : Bool) (m : Machine) : Prop where
  stage : Stage d q last elseIfs orElse (story.filterMap (Lap.test? p d))
    (story.filterMap (Lap.enters? p d))
    (story.getLast?.bind (Lap.test? p d)).isSome ended m
  visits : ∀ t ∈ story, ∀ j ∈ arms q elseIfs orElse, t.Visits (arms q elseIfs orElse) last d j →
    story.filterMap (Lap.enters? p d) = [j]

theorem filterMap_singleton {α β : Type} (f : α → Option β) (x : α) :
    [x].filterMap f = (f x).toList := by
  cases out : f x <;> simp [out]

theorem Told.orderly (told : Told p d q last elseIfs orElse story ended m) :
    Orderly (q :: elseIfs) orElse (story.filterMap (Lap.test? p d))
      (story.filterMap (Lap.enters? p d)) := by
  cases told.stage with
  | @asks more left next said outside order =>
    rw [said, outside]
    exact orderly_falsy ⟨next :: left, by rw [order]; rfl⟩ (.inl rfl)
  | exhausted said outside =>
    rw [said, outside]
    exact orderly_falsy prefix_rfl (.inl rfl)
  | settled orderly => exact orderly
  | closed orderly => exact orderly

theorem Told.exclusive [p.Faithful] (block : p.Spans q (.cond elseIfs orElse) last)
    (told : Told p d q last elseIfs orElse story ended m) :
    Exclusive p d q last elseIfs orElse story m := by
  refine ⟨told.orderly, (nodup_tests block).sublist told.orderly.ordered.sublist,
    fun j chosen => ?_, told.visits, fun t _ further height untested => ?_⟩
  case refine_2 =>
    obtain ⟨_, _, verb, _, owned⟩ := block.part (i := t.place) (v := .elseIf) p.found
      (by simp [Form.parts, further])
    exact t.silent_of_untested verb owned height untested
  cases told.stage with
  | @asks more left next said _ order =>
    -- a test is still to be made
    rw [said] at chosen
    have all := chosen.of_falsy.2
    rw [order] at all
    simp at all
  | exhausted said _ _ sent fresh =>
    rw [said] at chosen
    obtain ⟨rfl, _⟩ := chosen.of_falsy
    obtain ⟨x, same⟩ := Option.isSome_iff_exists.mp fresh
    obtain ⟨t, latest, test⟩ := Option.bind_eq_some_iff.mp same
    exact .inr ⟨rfl, sent, t, latest, by rw [test]; rfl⟩
  | settled _ chosen' inside => exact .inl (by rw [inside, chosen.unique chosen'])
  | closed _ complete => exact .inl (complete j chosen)

theorem told_open [p.Ready] (placed : Placed p m.control) (turn : Turn p m q v m')
    (block : p.Spans q (.cond elseIfs orElse) last) (height : m.frames.length = d) :
    Told p d q last elseIfs orElse [⟨m, q, v, m'⟩] v.ending?.isSome m' := by
  refine ⟨?_, fun t mem j begins visits => ?_⟩
  · rw [filterMap_singleton, filterMap_singleton]
    exact stage_open placed turn block height
  · cases mem_singleton.mp mem
    exact absurd visits (not_visits (.inl mem_cons_self))

theorem Told.step [p.Ready] (plain : hasJump p.commands = false) (placed : Placed p m.control)
    (turn : Turn p m i v m') (lives : d < m.frames.length)
    (block : p.Spans q (.cond elseIfs orElse) last)
    (told : Told p d q last elseIfs orElse story false m) :
    Told p d q last elseIfs orElse (story ++ [⟨m, i, v, m'⟩]) v.ending?.isSome m' := by
  obtain ⟨stage, visits, same⟩ := told.stage.step placed turn block plain lives
  refine ⟨?_, fun t mem j begins visit => ?_⟩
  · rw [filterMap_append, filterMap_append, filterMap_singleton, filterMap_singleton,
      getLast?_concat]
    exact stage
  · rw [filterMap_append, filterMap_singleton]
    rcases mem_append.mp mem with earlier | latest
    · have inside := told.visits t earlier j begins visit
      rw [same (by rw [inside]; simp), inside]
      rfl
    · cases mem_singleton.mp latest
      exact visits j begins visit

theorem Run.told {inner earlier : List Lap} {opening : Lap} [p.Ready]
    (plain : hasJump p.commands = false) (block : p.Spans opening.place (.cond elseIfs orElse) last)
    (lives : ∀ t ∈ inner, opening.before.frames.length < t.before.frames.length)
    (run : Run p (inner ++ opening :: earlier) m) :
    Told p opening.before.frames.length opening.place last elseIfs orElse
      (inner ++ [opening]).reverse false m := by
  induction inner generalizing m with
  | nil =>
    cases run with
    | turn before turn further =>
      have told := told_open before.reached.placed turn block rfl
      rwa [further] at told
  | cons t inner ih =>
    cases run with
    | turn before turn further =>
      obtain ⟨high, lives⟩ := forall_mem_cons.mp lives
      have told := (ih lives before).step plain before.reached.placed turn high block
      rw [further] at told
      rwa [cons_append, reverse_cons]

end Lives

theorem Session.run_laps {p : Program} {s : Session} {past earlier later : List Lap} {t : Lap}
    {count : Nat} [p.Ready] (run : Run p past s.machine)
    (history : s.laps p count = earlier ++ t :: later) :
    Run p (earlier.reverse ++ past) t.before ∧ Turn p t.before t.place t.verdict t.after := by
  induction count generalizing s past earlier with
  | zero => simp [Session.laps] at history
  | succ count ih =>
    rcases step : s.step p with ⟨s', ending⟩
    rcases Session.step_turns run.reached.placed.fetches step with
      ⟨i, v, next, turn, goes⟩ | ⟨none, _, rfl⟩
    · simp only [Session.laps, next, step] at history
      cases earlier with
      | nil =>
        cases ending <;> cases (cons.inj history).1 <;> exact ⟨run, turn⟩
      | cons l earlier =>
        cases ending with
        | none =>
          obtain ⟨rfl, rest⟩ := cons.inj history
          rw [reverse_cons, append_assoc]
          exact ih (.turn run turn goes) rest
        | some _ =>
          have none := (cons.inj history).2
          simp at none
    · simp [Session.laps, none, step] at history

/-- The branches of a condition exclude each other, in every run of a script without jumps, whatever
runs inside of them. The laps from the opening of a condition on, as long as it is open, make its
tests in order, each once at most and none after one that holds. Control enters one branch at most:
the one behind the test that holds, or the one without a test just if all tests were made and none
holds; and only commands of this branch are executed. -/
theorem branches_exclusive {q p : Program} {laps inner earlier : List Lap} {opening : Lap}
    {m m' : Machine} {i : Nat} {v : Verdict} (outlined : q.outlined = .ok p) (start : q.start = 0)
    (plain : hasJump p.commands = false) (run : Run p laps m) (turn : Turn p m i v m')
    (split : ⟨m, i, v, m'⟩ :: laps = inner ++ opening :: earlier)
    (verb : verbAt p.commands opening.place = some .openIf)
    (lives : ∀ t ∈ inner, opening.before.frames.length < t.before.frames.length) :
    ∃ elseIfs orElse last,
      p.outline.block? opening.place = some (.opener (.cond elseIfs orElse) last) ∧
      Exclusive p opening.before.frames.length opening.place last elseIfs orElse
        (inner ++ [opening]).reverse m' := by
  have := ready_of_outlined outlined start
  have placed := run.reached.placed
  obtain ⟨form, last, block, opens⟩ := block?_opening p.found verb rfl
  cases form with
  | guard | loop | function => cases opens
  | cond elseIfs orElse =>
    refine ⟨elseIfs, orElse, last, block, ?_⟩
    cases inner with
    | nil =>
      obtain ⟨rfl, rfl⟩ := cons.inj split
      exact (told_open placed turn block rfl).exclusive block
    | cons t inner =>
      obtain ⟨rfl, rfl⟩ := cons.inj split
      obtain ⟨high, lives⟩ := forall_mem_cons.mp lives
      have told := (run.told plain block lives).step plain placed turn high block
      rw [cons_append, reverse_cons]
      exact told.exclusive block

def failureInBranch : Program := .ofCommands
  [{ name := "function", target := "f" }, { name := "if", target := "n > 1" },
   { name := "call", target := "f", value := "n=n-1" }, { name := "elseIf", target := "n > 0" },
   { name := "try" }, { name := "throwError", target := "boom" }, { name := "catch" },
   { name := "endTry" }, { name := "else" }, { name := "echo", target := "none" },
   { name := "endIf" }, { name := "endFunction" },
   { name := "call", target := "f", value := "n=2" }]

structure Account where
  place : Nat
  height : Nat
  test : Option (Nat × Option Bool)
  entry : Option Nat
  deriving DecidableEq

def Lap.account (t : Lap) : Account :=
  ⟨t.place, t.before.frames.length, t.test? failureInBranch 1, t.enters? failureInBranch 1⟩

theorem branches_exclusive_failureInBranch : ∃ laps m i v m' inner opening earlier,
    Run failureInBranch laps m ∧ Turn failureInBranch m i v m' ∧ ⟨m, i, v, m'⟩ :: laps = inner ++
      opening :: earlier ∧
    inner.length = 7 ∧
    (inner ++ [opening]).reverse.filterMap (Lap.test? failureInBranch 1) =
      [(1, some false), (3, some true)] ∧
    (inner ++ [opening]).reverse.filterMap (Lap.enters? failureInBranch 1) = [3] ∧
    Exclusive failureInBranch 1 1 10 [3] (some 8) (inner ++ [opening]).reverse m' := by
  have outlined : failureInBranch.outlined = .ok failureInBranch := rfl
  have := ready_of_outlined outlined rfl
  have accounts : (Session.laps failureInBranch 15 {}).map Lap.account =
      [⟨0, 0, none, none⟩, ⟨11, 0, none, none⟩, ⟨12, 0, none, none⟩, ⟨0, 0, none, none⟩,
      ⟨1, 0, none, none⟩, ⟨2, 1, none, none⟩, ⟨0, 1, none, none⟩] ++
      ⟨1, 1, some (1, some false), none⟩ ::
      ([⟨3, 2, some (3, some true), some 3⟩, ⟨4, 2, none, none⟩, ⟨5, 3, none, none⟩,
      ⟨6, 3, none, none⟩, ⟨7, 3, none, none⟩, ⟨8, 2, none, none⟩] ++ [⟨10, 2, none, none⟩]) := by
      decide +kernel
  have block : failureInBranch.outline.block? 1 = some (.opener (.cond [3] (some 8)) 10) := by
    decide +kernel
  obtain ⟨earlier, rest, history, _, accounts⟩ := map_eq_append_iff.mp accounts
  obtain ⟨opening, rest, rfl, opened, accounts⟩ := map_eq_cons_iff.mp accounts
  obtain ⟨between, rest, rfl, known, accounts⟩ := map_eq_append_iff.mp accounts
  obtain ⟨final, rest, rfl, ended, _⟩ := map_eq_cons_iff.mp accounts
  have history :
      Session.laps failureInBranch 15 {} = (earlier ++ opening :: between) ++ final :: rest := by
    rw [history]
    simp
  obtain ⟨run, turn⟩ := Session.run_laps (s := {}) (.start {} #[]) history
  have inside :
      (final :: between.reverse ++ [opening]).reverse = opening :: (between ++ [final]) := by simp
  have accounts : (opening :: (between ++ [final])).map Lap.account =
      ⟨1, 1, some (1, some false), none⟩ ::
      ([⟨3, 2, some (3, some true), some 3⟩, ⟨4, 2, none, none⟩, ⟨5, 3, none, none⟩,
      ⟨6, 3, none, none⟩, ⟨7, 3, none, none⟩, ⟨8, 2, none, none⟩] ++ [⟨10, 2, none, none⟩]) := by
    rw [map_cons, map_append, map_singleton, opened, known, ended]
  have place : opening.place = 1 := congrArg Account.place opened
  have height : opening.before.frames.length = 1 := congrArg Account.height opened
  have high :
      ∀ t ∈ final :: between.reverse, opening.before.frames.length < t.before.frames.length := by
    have all : ∀ a ∈ (between ++ [final]).map Lap.account, 1 < a.height := by
      rw [(cons.inj accounts).2]
      decide
    intro t mem
    rw [height]
    exact all t.account (mem_map_of_mem (by simpa [or_comm] using mem))
  have plain : hasJump failureInBranch.commands = false := by decide +kernel
  have verb : verbAt failureInBranch.commands opening.place = some .openIf := by
    rw [place]
    decide +kernel
  have split : final :: ((earlier ++ opening :: between).reverse ++ []) =
      final :: between.reverse ++ opening :: earlier.reverse := by simp
  obtain ⟨elseIfs, orElse, last, block', exclusive⟩ :=
    branches_exclusive outlined rfl plain run turn split verb high
  rw [place, block] at block'
  cases block'
  rw [place, height] at exclusive
  refine ⟨_, _, _, _, _, _, opening, _, run, turn, split, ?_, ?_, ?_, exclusive⟩
  · have count := congrArg List.length known
    simpa using count
  · rw [inside]
    exact (filterMap_map ..).symm.trans (congrArg (List.filterMap Account.test) accounts)
  · rw [inside]
    exact (filterMap_map ..).symm.trans (congrArg (List.filterMap Account.entry) accounts)

end Runbook
