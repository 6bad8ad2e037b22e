import Runbook.Proofs.Run.Returns

namespace Runbook

open Runbook.Action Control List

def Phase.rank : Phase → Nat
  | .trying => 0
  | .catching => 1
  | .finishing => 2

def Machine.phaseAt (m : Machine) (d : Nat) : Option Phase :=
  ((m.frameAt d).bind Frame.guard?).bind Guard.phase

/-- An error sends control to the catching segment at the place `c` of the block at the height
`d`. -/
def Lap.Catches (d c : Nat) (t : Lap) : Prop :=
  t.verdict.isHandled = true ∧ t.after.frames.length = d + 1 ∧ t.after.branch = some c

def Lap.Relapses (d c : Nat) (t : Lap) : Prop :=
  t.Catches d c ∧ t.before.phaseAt d = some .finishing

/-- The phases advance, an error is caught at most once and not after the last segment was begun,
and this segment is begun at most once. The last lap comes first. -/
structure Forward (d : Nat) (catchAt finallyAt : Option Nat) (laps : List Lap) : Prop where
  advances : ∀ t ∈ laps, (t.before.phaseAt d).elim 0 Phase.rank ≤
    (t.after.phaseAt d).elim 0 Phase.rank
  caughtOnce : ∀ c, catchAt = some c → laps.Pairwise fun later earlier =>
    ¬ (later.Catches d c ∧ earlier.Catches d c)
  begunOnce : ∀ j, finallyAt = some j → laps.Pairwise fun later earlier =>
    ¬ (later.Executes d j ∧ earlier.Executes d j)
  begunLast : ∀ c j, catchAt = some c → finallyAt = some j →
    laps.Pairwise fun later earlier => ¬ (later.Catches d c ∧ earlier.Executes d j)

section Laps

variable {p : Program} {m m' : Machine} {i d q c last : Nat} {v : Verdict} {g g' : Guard}
  {name : String} {finallyAt : Option Nat} {laps : List Lap}

theorem guard?_frameAt (lies : spotAt m.control.spots d = some ⟨q, .guard g⟩) :
    (m.frameAt d).bind Frame.guard? = some g := by
  rw [spotAt_control] at lies
  obtain ⟨⟨place, saved, body⟩, frame, spot⟩ := Option.map_eq_some_iff.mp lies
  rw [frame]
  cases body with
  | guard g' => cases spot; rfl
  | cond _ | loop _ => cases spot

theorem frameAt_of_guard? (lies : (m.frameAt d).bind Frame.guard? = some g) :
    ∃ f, m.frameAt d = some f ∧ f.body = .guard g := by
  obtain ⟨f, frame, body⟩ := Option.bind_eq_some_iff.mp lies
  refine ⟨f, frame, ?_⟩
  unfold Frame.guard? at body
  split at body
  · cases body; assumption
  · cases body

theorem phaseAt_eq (lies : spotAt m.control.spots d = some ⟨q, .guard g⟩) :
    m.phaseAt d = g.phase := by
  rw [Machine.phaseAt, guard?_frameAt lies, Option.bind_some]

theorem guard_of_phaseAt {phase : Phase} (lies : m.phaseAt d = some phase) :
    ∃ f g, m.frameAt d = some f ∧ f.body = .guard g ∧ g.phase = some phase := by
  obtain ⟨g, guard, same⟩ := Option.bind_eq_some_iff.mp lies
  obtain ⟨f, frame, body⟩ := frameAt_of_guard? guard
  exact ⟨f, g, frame, body, same⟩

theorem Life.lives (life : Life p d q laps m g) :
    ∀ t ∈ laps, (∃ earlier, Run p earlier t.before) ∧ Turn p t.before t.place t.verdict t.after ∧
      (∃ g₀, t.before.control.Lies d ⟨q, .guard g₀⟩) ∧
      ∃ g₁, t.after.control.Lies d ⟨q, .guard g₁⟩ := by
  induction life with
  | opened _ => simp
  | turn _ before turn _ lies lies' ih =>
    exact forall_mem_cons.mpr ⟨⟨⟨_, before⟩, turn, ⟨_, lies⟩, _, lies'⟩, ih⟩

section

variable [p.Ready] (placed : Placed p m.control) (turn : Turn p m i v m')
  (lies : m.control.Lies d ⟨q, .guard g⟩) (lies' : m'.control.Lies d ⟨q, .guard g'⟩)
  (block : p.Spans q (.guard name (some c) finallyAt) last)

include placed turn lies lies' block

theorem Turn.catches (catches : Lap.Catches d c ⟨m, i, v, m'⟩) :
    g' = g.catching ∧ g.caught = false := by
  obtain ⟨handled, top, sent⟩ := catches
  rw [← frames_length] at top
  obtain ⟨_, before, verb, _⟩ := block.catchPart p.found
  have sent : m'.branch = some c := sent
  rcases ((turn.stir placed).2 handled).fate lies with
    ⟨_, higher⟩ | ⟨g'', lies'', _, becomes, _⟩ | ⟨vacant, _⟩
  · have top : m'.control.spots.length = d + 1 := top
    omega
  · cases lies'.symm.trans lies''
    cases becomes with
    | holds _ other _ _ sent' =>
      cases block.symm.trans other
      cases sent.symm.trans sent'
      omega
    | @finishes _ _ _ j _ other _ sent' =>
      cases block.symm.trans other
      cases sent.symm.trans sent'
      cases verb.symm.trans (block.finallyPart p.found).verb
    | catches _ fresh _ _ => exact ⟨rfl, fresh⟩
  · have top : m'.control.spots.length = d + 1 := top
    omega

theorem Turn.catches_of_phase (before : g.phase ≠ some .catching)
    (after : g'.phase = some .catching) : Lap.Catches d c ⟨m, i, v, m'⟩ := by
  cases turn.onward placed lies lies' with
  | stays => exact absurd after before
  | executes _ _ _ _ => cases after
  | taken taken =>
    obtain ⟨top, becomes, _⟩ := taken
    cases becomes with
    | holds _ _ _ _ _ => exact absurd after before
    | finishes _ _ _ _ => cases after
    | catches other _ sent failed =>
      cases block.symm.trans other
      exact ⟨failed, (frames_length _).symm.trans top, sent⟩

end

theorem Life.caught [p.Ready] (life : Life p d q laps m g)
    (block : p.Spans q (.guard name (some c) finallyAt) last) :
    ((∃ t ∈ laps, t.Catches d c) → g.caught = true) ∧
      laps.Pairwise fun later earlier => ¬ (later.Catches d c ∧ earlier.Catches d c) := by
  induction life with
  | opened _ => simp
  | turn _ before turn _ lies lies' ih =>
    obtain ⟨caught, once⟩ := ih
    have placed := before.reached.placed
    have now := turn.catches placed lies lies' block
    constructor
    · rintro ⟨t, mem, catches⟩
      rcases mem_cons.mp mem with rfl | earlier
      · rw [(now catches).1]
        rfl
      · exact (turn.onward placed lies lies').keeps.1 (caught ⟨t, earlier, catches⟩)
    · refine pairwise_cons.mpr ⟨?_, once⟩
      rintro t earlier ⟨catches, catches'⟩
      have already := caught ⟨t, earlier, catches'⟩
      rw [(now catches).2] at already
      cases already

end Laps

section Calm

variable {p : Program} {m m' : Machine} {i d q last : Nat} {v : Verdict} {g g' : Guard}
  {name : String} {catchAt finallyAt : Option Nat} {laps : List Lap}

/-- A guard goes on to the same or to a later phase, and is in the last one once it counts as
finished. -/
structure Guard.Advances (g g' : Guard) : Prop where
  order : g.phase.elim 0 Phase.rank ≤ g'.phase.elim 0 Phase.rank
  listens : g.phase.isSome = true → g'.phase.isSome = true
  finishing : g'.finaled = true → g'.phase = some .finishing

theorem Guard.Ok.rank_le_one {function : Option Nat} (ok : g.Ok p function q)
    (owed : g.finaled = false) : g.phase.elim 0 Phase.rank ≤ 1 := by
  cases phase : g.phase with
  | none => exact Nat.zero_le 1
  | some phase' =>
    cases phase' with
    | trying => exact Nat.zero_le 1
    | catching => exact Nat.le_refl 1
    | finishing => cases owed.symm.trans (ok.finished phase)

theorem Phase.rank_le_two {phase : Option Phase} : phase.elim 0 Phase.rank ≤ 2 := by
  cases phase with
  | none => exact Nat.zero_le 2
  | some phase => cases phase <;> decide

section

variable [p.Ready] (placed : Placed p m.control) (turn : Turn p m i v m')
  (lies : m.control.Lies d ⟨q, .guard g⟩)

include placed turn lies

theorem Turn.guard_ok : ∃ function, g.Ok p function q := by
  obtain ⟨c, m₁, fetched⟩ := turn.fetched
  obtain ⟨poised, _, control⟩ := fetched.poised placed
  have spots : m₁.control.spots = m.control.spots := by rw [control]; rfl
  obtain ⟨function, ok⟩ := poised.ok _ (by rw [spots]; exact mem_of_spotAt lies)
  exact ⟨function, ok g rfl⟩

theorem Turn.advances (lies' : m'.control.Lies d ⟨q, .guard g'⟩)
    (block : p.Spans q (.guard name catchAt finallyAt) last)
    (finishing : g.finaled = true → g.phase = some .finishing)
    (steady : ∀ c, catchAt = some c → ¬ Lap.Relapses d c ⟨m, i, v, m'⟩) : g.Advances g' := by
  obtain ⟨function, ok⟩ := turn.guard_ok placed lies
  cases turn.onward placed lies lies' with
  | stays => exact ⟨Nat.le_refl _, id, finishing⟩
  | executes _ _ _ _ => exact ⟨Phase.rank_le_two, fun _ => rfl, fun _ => rfl⟩
  | taken taken =>
    obtain ⟨top, becomes, _⟩ := taken
    cases becomes with
    | holds _ _ _ _ _ => exact ⟨Nat.le_refl _, id, finishing⟩
    | finishes _ _ _ _ => exact ⟨Phase.rank_le_two, fun _ => rfl, fun _ => rfl⟩
    | catches other _ sent failed =>
      cases block.symm.trans other
      have owed : g.finaled = false := by
        by_contra finaled
        refine steady _ rfl ⟨⟨failed, ?_, sent⟩, ?_⟩
        · exact (frames_length _).symm.trans top
        · exact (phaseAt_eq lies).trans (finishing (Bool.not_eq_false _ ▸ finaled))
      exact ⟨ok.rank_le_one owed, fun _ => rfl, fun finaled => by cases owed.symm.trans finaled⟩

end

/-- What the laps of a guard tell of it as long as no error came back while it was finishing. -/
structure Calm (p : Program) (d : Nat) (catchAt finallyAt : Option Nat) (laps : List Lap)
    (m : Machine) (g : Guard) : Prop where
  finishing : g.finaled = true → g.phase = some .finishing
  advances : ∀ t ∈ laps, (t.before.phaseAt d).elim 0 Phase.rank ≤
    (t.after.phaseAt d).elim 0 Phase.rank
  begun : ∀ j, finallyAt = some j → (∃ t ∈ laps, t.Executes d j) →
    g.finaled = true ∧ ¬ (m.frames.length = d + 1 ∧ Heads p m j)
  begunOnce : ∀ j, finallyAt = some j → laps.Pairwise fun later earlier =>
    ¬ (later.Executes d j ∧ earlier.Executes d j)
  begunLast : ∀ c j, catchAt = some c → finallyAt = some j →
    laps.Pairwise fun later earlier => ¬ (later.Catches d c ∧ earlier.Executes d j)

theorem Calm.opened {given : String} :
    Calm p d catchAt finallyAt [] m (.opened given catchAt finallyAt) where
  finishing := nofun
  advances := by simp
  begun := by simp
  begunOnce := by simp
  begunLast := by simp

theorem Turn.begins {j : Nat} [p.Ready] (placed : Placed p m.control) (turn : Turn p m j v m')
    (lies : m.control.Lies d ⟨q, .guard g⟩) (lies' : m'.control.Lies d ⟨q, .guard g'⟩)
    (block : p.Spans q (.guard name catchAt (some j)) last) (advances : g.Advances g')
    (top : m.frames.length = d + 1) : g'.finaled = true ∧ ¬ Heads p m' j := by
  obtain ⟨function, ok⟩ := turn.guard_ok placed lies
  have verb := (block.finallyPart p.found).verb
  obtain ⟨lengths, next, q', g'', rest, stack, marked⟩ := turn.at_finally placed verb
  have height : rest.length = d := by
    rw [stack, frames_length, top, length_cons] at lengths
    omega
  have same : spotAt m'.control.spots d = some ⟨q', .guard g''⟩ := by
    rw [stack, ← height]
    exact spotAt_top
  cases lies'.symm.trans same
  constructor
  · have listens : g.phase.isSome = true := by
      simpa using ok.listens name catchAt (some j) last block
    rcases marked with none | finaled
    · exact absurd none (Option.isSome_iff_ne_none.mp (advances.listens listens))
    · exact finaled
  · rintro ⟨_, t, at_j, before, _⟩
    have := next t at_j
    omega

theorem Calm.turn [p.Ready] (placed : Placed p m.control) (turn : Turn p m i v m')
    (further : v.ending? = none) (lies : m.control.Lies d ⟨q, .guard g⟩)
    (lies' : m'.control.Lies d ⟨q, .guard g'⟩)
    (block : p.Spans q (.guard name catchAt finallyAt) last)
    (calm : Calm p d catchAt finallyAt laps m g)
    (steady : ∀ c, catchAt = some c → ¬ Lap.Relapses d c ⟨m, i, v, m'⟩) :
    Calm p d catchAt finallyAt (⟨m, i, v, m'⟩ :: laps) m' g' := by
  have advances := turn.advances placed lies lies' block calm.finishing steady
  have keeps := (turn.onward placed lies lies').keeps
  refine ⟨advances.finishing, forall_mem_cons.mpr ⟨?_, calm.advances⟩, ?_, ?_, ?_⟩
  · show (m.phaseAt d).elim 0 Phase.rank ≤ (m'.phaseAt d).elim 0 Phase.rank
    rw [phaseAt_eq lies, phaseAt_eq lies']
    exact advances.order
  · rintro j rfl ⟨t, mem, executes⟩
    rcases mem_cons.mp mem with rfl | earlier
    · obtain ⟨place, top⟩ := executes
      obtain rfl : i = j := place
      obtain ⟨finaled, gone⟩ := turn.begins placed lies lies' block advances top
      exact ⟨finaled, fun again => gone again.2⟩
    · obtain ⟨finaled, gone⟩ := calm.begun j rfl ⟨t, earlier, executes⟩
      refine ⟨keeps.2 finaled, fun ⟨top', heads'⟩ => ?_⟩
      obtain ⟨rfl, top⟩ := turn.no_return placed further lies (calm.finishing finaled) lies'
        (advances.finishing (keeps.2 finaled)) block ((frames_length m').trans top') heads'
      exact gone ⟨(frames_length m).symm.trans top, turn.heads placed⟩
  · rintro j rfl
    refine pairwise_cons.mpr ⟨?_, calm.begunOnce j rfl⟩
    rintro t earlier ⟨⟨place, top⟩, executes⟩
    obtain rfl : i = j := place
    exact (calm.begun i rfl ⟨t, earlier, executes⟩).2 ⟨top, turn.heads placed⟩
  · rintro c j rfl rfl
    refine pairwise_cons.mpr ⟨?_, calm.begunLast c j rfl rfl⟩
    rintro t earlier ⟨catches, executes⟩
    have finaled := (calm.begun j rfl ⟨t, earlier, executes⟩).1
    exact steady c rfl ⟨catches, (phaseAt_eq lies).trans (calm.finishing finaled)⟩

theorem Life.calm [p.Ready] (life : Life p d q laps m g)
    (block : p.Spans q (.guard name catchAt finallyAt) last)
    (steady : ∀ c, catchAt = some c → ∀ t ∈ laps, ¬ t.Relapses d c) :
    Calm p d catchAt finallyAt laps m g := by
  induction life with
  | opened other =>
    cases block.symm.trans other
    exact .opened
  | turn _ before turn further lies lies' ih =>
    have calm := ih fun c catches t mem => steady c catches t (mem_cons_of_mem _ mem)
    exact calm.turn before.reached.placed turn further lies lies' block fun c catches =>
      steady c catches _ mem_cons_self

theorem Turn.relapse_above {c : Nat} [p.Ready] (placed : Placed p m.control)
    (turn : Turn p m i v m') (lies : m.control.Lies d ⟨q, .guard g⟩)
    (lies' : m'.control.Lies d ⟨q, .guard g'⟩)
    (block : p.Spans q (.guard name (some c) finallyAt) last)
    (catches : Lap.Catches d c ⟨m, i, v, m'⟩) (finishing : g.phase = some .finishing) :
    ∃ e s, d < e ∧ m.control.Lies e s ∧ s.intercepts = true ∧ s.isSpent p.outline = false := by
  obtain ⟨rfl, _⟩ := turn.catches placed lies lies' block catches
  have changed : g.catching.phase ≠ g.phase := by
    rw [finishing]
    nofun
  generalize after : g.catching = g' at lies' changed
  cases turn.onward placed lies lies' with
  | stays => exact absurd rfl changed
  | executes _ _ _ _ => exact absurd finishing.symm changed
  | taken taken => exact taken.nested finishing changed

end Calm

section Simple

variable {p : Program} {k : Control} {t : Tier} {m : Machine} {i d e q j last : Nat} {s : Spot}
  {g : Guard} {name : String} {catchAt : Option Nat} {above rest stack : List Spot}
  {laps : List Lap}

theorem spotAt_above (lies : spotAt stack d = some s) (higher : d < e) {s' : Spot}
    (lies' : spotAt stack e = some s') : ∃ above rest, stack = above ++ s' :: rest ∧ s ∈ rest := by
  obtain ⟨bound, there⟩ := List.getElem?_eq_some_iff.mp lies'
  refine ⟨(stack.reverse.drop (e + 1)).reverse, (stack.reverse.take e).reverse, ?_, ?_⟩
  · have split := take_append_drop e stack.reverse
    rw [drop_eq_getElem_cons bound, there] at split
    have back := congrArg List.reverse split
    rw [reverse_reverse] at back
    simpa using back.symm
  · have lower : (stack.reverse.take e)[d]? = some s := by rwa [List.getElem?_take_of_lt higher]
    exact mem_reverse.mpr (mem_of_getElem? lower)

theorem Seated.in_last [p.Faithful] (seated : Seated p t i) (mem : ⟨q, .guard g⟩ ∈ t.blocks)
    (finishing : g.phase = some .finishing)
    (block : p.Spans q (.guard name catchAt (some j)) last) : j ≤ i ∧ i ≤ last := by
  obtain ⟨form, last', block', _, bound⟩ := (mem_opens_iff p.found).mp (seated.mem_opens mem)
  cases block.symm.trans block'
  exact ⟨(seated.sent _ mem g name catchAt j last rfl block).2 finishing, bound⟩

def Verb.nests : Verb → Bool
  | .openTry | .call => true
  | _ => false

/-- A last segment, from its first command to the end of the guard, holds another guard or a
call. -/
def Nests (p : Program) (j last : Nat) : Prop :=
  ∃ n v, j < n ∧ n < last ∧ p.Does n v ∧ v.nests = true

theorem nests_of_le {n : Nat} {v : Verb} [p.Faithful]
    (block : p.Spans q (.guard name catchAt (some j)) last) (after : j ≤ n) (bound : n ≤ last)
    (verb : p.Does n v) (nests : v.nests = true) : Nests p j last := by
  have ended := block.ended p.found
  have begins := (block.finallyPart p.found).verb
  have ends : p.Does last .endTry := ended.closed
  refine ⟨n, v, ?_, ?_, verb, nests⟩
  · refine Nat.lt_of_le_of_ne after ?_
    rintro rfl
    cases begins.symm.trans verb
    cases nests
  · refine Nat.lt_of_le_of_ne bound ?_
    rintro rfl
    cases ends.symm.trans verb
    cases nests

theorem Seated.nests_of_guard [p.Faithful] (seated : Seated p t i)
    (blocks : t.blocks = above ++ s :: rest) (listens : s.intercepts = true)
    (mem : ⟨q, .guard g⟩ ∈ rest) (finishing : g.phase = some .finishing)
    (block : p.Spans q (.guard name catchAt (some j)) last) : Nests p j last := by
  obtain ⟨after, bound⟩ := (seated.tail blocks).in_last mem finishing block
  have fits : s.Fits p.outline := seated.covers.fits s (by rw [blocks]; simp)
  cases fits with
  | cond _ _ | loop _ => cases listens
  | guard own => exact nests_of_le block after bound (own.ended p.found).grown.opened rfl

theorem Chain.nests_of_call {outer : List Tier} [p.Faithful] (chain : Chain p t outer)
    (mem : ⟨q, .guard g⟩ ∈ outer.flatMap Tier.blocks) (finishing : g.phase = some .finishing)
    (block : p.Spans q (.guard name catchAt (some j)) last) : Nests p j last := by
  induction chain with
  | bottom _ => cases mem
  | call _ _ verb _ seated _ ih =>
    rw [flatMap_cons] at mem
    rcases mem_append.mp mem with inside | outside
    · obtain ⟨after, bound⟩ := seated.in_last inside finishing block
      exact nests_of_le block after bound verb rfl
    · exact ih outside

theorem Going.nests [p.Faithful] (going : Going p k i) (lies : k.Lies d ⟨q, .guard g⟩)
    (higher : d < e) (lies' : k.Lies e s) (listens : s.intercepts = true)
    (finishing : g.phase = some .finishing)
    (block : p.Spans q (.guard name catchAt (some j)) last) : Nests p j last := by
  obtain ⟨above, rest, split, mem⟩ := spotAt_above lies higher lies'
  rw [spots_eq] at split
  rcases append_eq_append_iff.mp split with ⟨more, rfl, outer⟩ | ⟨more, blocks, tail⟩
  · refine going.chain.nests_of_call ?_ finishing block
    rw [outer]
    simp [mem]
  · cases more with
    | nil =>
      refine going.chain.nests_of_call ?_ finishing block
      rw [show k.outer.flatMap Tier.blocks = s :: rest from tail.symm]
      exact mem_cons_of_mem s mem
    | cons first more =>
      obtain ⟨rfl, rfl⟩ := cons.inj tail
      rcases mem_append.mp mem with inside | outside
      · cases going.stance with
        | inside _ _ seated | resume _ _ seated _ _ | back _ _ _ _ seated _ =>
          exact seated.nests_of_guard blocks listens inside finishing block
        | entry _ _ _ fresh _ => simp [fresh] at blocks
        | round _ _ top _ seated =>
          rw [top] at blocks
          cases above with
          | nil =>
            cases (cons.inj blocks).1
            cases listens
          | cons first above =>
            exact seated.nests_of_guard (cons.inj blocks).2 listens inside finishing block
      · exact going.chain.nests_of_call outside finishing block

theorem Life.unfinished [p.Ready] (life : Life p d q laps m g)
    (block : p.Spans q (.guard name catchAt none) last) : g.finaled = false := by
  induction life with
  | opened _ => rfl
  | turn _ before turn _ lies lies' ih =>
    cases turn.onward before.reached.placed lies lies' with
    | stays => exact ih
    | executes other _ _ _ => cases block.symm.trans other
    | taken taken =>
      cases taken.becomes with
      | holds _ _ _ _ _ | catches _ _ _ _ => exact ih
      | finishes _ other _ _ => cases block.symm.trans other

theorem Life.nests_of_relapse {t : Lap} {c : Nat} {finallyAt : Option Nat} [p.Ready]
    (life : Life p d q laps m g) (block : p.Spans q (.guard name (some c) finallyAt) last)
    (mem : t ∈ laps) (relapses : t.Relapses d c) :
    (∃ e f, d < e ∧ t.before.frameAt e = some f ∧ f.intercepts = true ∧ isSpent p f = .ok false) ∧
      ∃ j, finallyAt = some j ∧ Nests p j last := by
  obtain ⟨⟨earlier, before⟩, turn, ⟨g₀, lies₀⟩, g₁, lies₁⟩ := life.lives t mem
  obtain ⟨catches, finishing⟩ := relapses
  have finishing : g₀.phase = some .finishing := (phaseAt_eq lies₀).symm.trans finishing
  have placed := before.reached.placed
  obtain ⟨function, ok⟩ := turn.guard_ok placed lies₀
  obtain ⟨e, s, above, at_e, listens, unspent⟩ :=
    turn.relapse_above placed lies₀ lies₁ block catches finishing
  have going : ∃ k, Going p k t.place ∧ k.spots = t.before.control.spots := by
    obtain ⟨_, m₁, fetched⟩ := turn.fetched
    obtain ⟨poised, _, control⟩ := fetched.poised placed
    exact ⟨m₁.control, poised.toGoing, by rw [control]; rfl⟩
  obtain ⟨k, going, same⟩ := going
  constructor
  · have fits := going.fits s (by rw [same]; exact mem_of_spotAt at_e)
    rw [Control.Lies, spotAt_control] at at_e
    obtain ⟨f, frame, rfl⟩ := Option.map_eq_some_iff.mp at_e
    refine ⟨e, f, above, frame, ?_, ?_⟩
    · rwa [← intercepts_spot]
    · rw [isSpent_spot fits, unspent]
  · cases finallyAt with
    | none => cases ((before.life lies₀).unfinished block).symm.trans (ok.finished finishing)
    | some j =>
      rw [Control.Lies, ← same] at lies₀ at_e
      exact ⟨j, rfl, going.nests lies₀ above at_e listens finishing block⟩

end Simple

/-- The phases of a guard only move forward, an error is caught at most once and not after the last
segment was begun, and this segment is begun at most once, exactly as long as no error comes back to
the guard while it is finishing. An error is caught at most once in any case. It can come back only
out of another guard inside, one that listens and is not spent, and so only if the last segment
holds another guard or a call. -/
theorem phases_advance {p q : Program} {laps : List Lap} {m : Machine} {d last : Nat} {f : Frame}
    {g : Guard} {name : String} {catchAt finallyAt : Option Nat} (outlined : q.outlined = .ok p)
    (start : q.start = 0) (run : Run p laps m) (frame : m.frameAt d = some f)
    (guard : f.body = .guard g)
    (block : p.outline.block? f.place = some (.opener (.guard name catchAt finallyAt) last)) :
    (Forward d catchAt finallyAt (since d laps) ↔
      ∀ c, catchAt = some c → ∀ t ∈ since d laps, ¬ t.Relapses d c) ∧
    (∀ c, catchAt = some c →
      (since d laps).Pairwise fun later earlier => ¬ (later.Catches d c ∧ earlier.Catches d c)) ∧
    ∀ c, catchAt = some c → ∀ t ∈ since d laps, t.Relapses d c →
      (∃ e f', d < e ∧ t.before.frameAt e = some f' ∧ f'.intercepts = true ∧
        isSpent p f' = .ok false) ∧
      ∃ j, finallyAt = some j ∧ Nests p j last := by
  have := ready_of_outlined outlined start
  have life := run.life (spotAt_of_frameAt frame guard)
  have once : ∀ c, catchAt = some c →
      (since d laps).Pairwise fun later earlier => ¬ (later.Catches d c ∧ earlier.Catches d c) := by
    rintro c rfl
    exact (life.caught block).2
  refine ⟨⟨?_, fun steady => ?_⟩, once, ?_⟩
  · rintro forward c rfl t mem ⟨catches, finishing⟩
    -- the phase goes from the last one to the one before
    obtain ⟨⟨_, before⟩, turn, ⟨g₀, lies₀⟩, g₁, lies₁⟩ := life.lives t mem
    obtain ⟨rfl, _⟩ := turn.catches before.reached.placed lies₀ lies₁ block catches
    have order := forward.advances t mem
    rw [finishing, phaseAt_eq lies₁] at order
    exact absurd (show 2 ≤ 1 from order) (by decide)
  · have calm := life.calm block steady
    exact ⟨calm.advances, once, calm.begunOnce, calm.begunLast⟩
  · rintro c rfl t mem relapses
    exact life.nests_of_relapse block mem relapses

def guardInLastSegment : Program := .ofCommands
  [{ name := "try" }, { name := "echo", target := "body" }, { name := "catch" },
   { name := "echo", target := "outer catch" }, { name := "finally" },
   { name := "echo", target := "outer finally" }, { name := "try" },
   { name := "throwError", target := "boom" }, { name := "catch", target := "'other'" },
   { name := "endTry" }, { name := "endTry" }]

theorem phases_advance_guardInLastSegment :
    ∃ laps m, Run guardInLastSegment laps m ∧ (m.frameAt 0).map Frame.place = some 0 ∧
      m.phaseAt 0 = some .catching ∧ ¬ Forward 0 (some 2) (some 4) (since 0 laps) := by
  have outlined : guardInLastSegment.outlined = .ok guardInLastSegment := rfl
  have := ready_of_outlined outlined rfl
  have reached := Session.reached_runFor (p := guardInLastSegment) (s := {}) 6 (.start {} #[])
  have before : (({} : Session).runFor guardInLastSegment 6).2 = none ∧
      ((({} : Session).runFor guardInLastSegment 6).1.machine.frameAt 0).map Frame.place = some 0 ∧
      (({} : Session).runFor guardInLastSegment 6).1.machine.phaseAt 0 = some .finishing := by
    decide +kernel
  have after : ((({} : Session).runFor guardInLastSegment 6).1.step guardInLastSegment).2 = none ∧
      (((({} : Session).runFor guardInLastSegment 6).1.step guardInLastSegment).1.machine.frameAt
        0).map Frame.place = some 0 ∧
      ((({} : Session).runFor guardInLastSegment 6).1.step guardInLastSegment).1.machine.phaseAt 0 =
        some .catching := by
    decide +kernel
  have block :
      guardInLastSegment.outline.block? 0 = some (.opener (.guard "" (some 2) (some 4)) 10) := by
    decide +kernel
  generalize ({} : Session).runFor guardInLastSegment 6 = s at reached before after
  obtain ⟨further, place, finishing⟩ := before
  have reached := reached further
  have placed := reached.placed
  obtain ⟨laps, run⟩ := reached.run
  rcases step : s.1.step guardInLastSegment with ⟨s', ending⟩
  rw [step] at after
  obtain ⟨rfl, place', catching⟩ := after
  rcases Session.step_turn placed step with ⟨i, v, turn, going⟩ | ⟨_, ended⟩
  · obtain ⟨f, g, frame, guard, phase⟩ := guard_of_phaseAt finishing
    obtain ⟨f', g', frame', guard', phase'⟩ := guard_of_phaseAt catching
    have lies : spotAt s.1.machine.control.spots 0 = some ⟨0, .guard g⟩ := by
      rw [spotAt_of_frameAt frame guard, show f.place = 0 by simpa [frame] using place]
    have lies' : spotAt s'.machine.control.spots 0 = some ⟨0, .guard g'⟩ := by
      rw [spotAt_of_frameAt frame' guard', show f'.place = 0 by simpa [frame'] using place']
    have catches := turn.catches_of_phase placed lies lies' block (by rw [phase]; nofun) phase'
    have lives : 0 < s.1.machine.frames.length := by
      rw [← frames_length]
      exact lt_of_spotAt lies
    refine ⟨_, _, .turn run turn going, place', catching, fun forward => ?_⟩
    have place : f'.place = 0 := by simpa [frame'] using place'
    rw [← place] at block
    refine (phases_advance outlined rfl (.turn run turn going) frame' guard' block).1.mp
      forward 2 rfl _ ?_ ⟨catches, finishing⟩
    rw [since_lives lives]
    exact mem_cons_self
  · cases ended

end Runbook
