import Runbook.Proofs.Run.Departures
import Runbook.Proofs.Run.Phases

namespace Runbook

open Runbook.Action Control List

section Commands

variable {p : Program} {m m₁ m' : Machine} {i j : Nat} {c d : Command} {v : Verb}

theorem Fetched.unique {m₂ : Machine} (first : Fetched p m i c m₁) (second : Fetched p m j d m₂) :
    i = j ∧ c = d ∧ m₁ = m₂ := by
  obtain ⟨same, rfl⟩ := Prod.mk.inj (first.ran.symm.trans second.ran)
  cases same
  exact ⟨Int.ofNat.inj (Option.some.inj (first.here.symm.trans second.here)), rfl, rfl⟩

theorem Heads.fetched [p.Fresh] (heads : Heads p m j) (verb : p.Does j v) :
    ∃ c m₁, Fetched p m j c m₁ ∧ c.verb? = some v := by
  obtain ⟨running, t, arrives, after, silent⟩ := heads
  have bound := lt_length_of_verbAt verb
  obtain ⟨c, there⟩ : ∃ c, p.Has j c := ⟨_, List.getElem?_eq_getElem bound⟩
  have own : c.verb? = some v := verb_of_at there verb
  have executable := Command.executable_of_verb own
  rcases out : (next p).run.run m with ⟨x, m₁⟩
  rcases ran_next arrives out with
    ⟨stopped, _⟩ | ⟨_, n, d, low, there', executable', silent', rfl, control⟩ | ⟨_, silent', _⟩
  · cases stopped.symm.trans running
  · -- of two executable commands behind the same comments neither comes before the other
    obtain rfl := Nat.le_antisymm (silent'.le after there executable)
      (silent.le low there' executable')
    cases there'.symm.trans there
    exact ⟨c, m₁, ⟨out, congrArg Control.here control⟩, own⟩
  · exact absurd bound (Nat.not_lt.mpr (silent'.le after there executable))

theorem Turn.dispatched (turn : Turn p m i .done m') :
    ∃ c m₁, Fetched p m i c m₁ ∧ Dispatched p c m₁ (.ok ()) m' := by
  generalize same : Verdict.done = w at turn
  cases turn with
  | done fetched dispatched => exact ⟨_, _, fetched, dispatched⟩
  | @routed _ _ _ _ _ taken _ _ _ => cases taken <;> cases same
  | astray _ _ _ | broken _ _ => cases same

theorem Fetched.does {after : Machine → Prop} (fetched : Fetched p m i c m₁)
    (verb : c.verb? = some v)
    (does : ∀ r m', Ran (perform p c m₁.control.resuming v) { m₁ with resume := none } r m' →
      r = .ok () ∧ after m') :
    (∃ m', Turn p m i .done m') ∧ ∀ n w m', Turn p m n w m' → n = i ∧ w = .done ∧ after m' := by
  have good {r : Reply Unit} {m' : Machine} (dispatched : Dispatched p c m₁ r m') :
      r = .ok () ∧ after m' := by
    obtain ⟨r', rfl, performed⟩ := dispatched.performs verb
    obtain ⟨rfl, holds⟩ := does r' m' performed
    exact ⟨rfl, holds⟩
  constructor
  · have dispatched : Dispatched p c m₁ _ _ := .control (by rw [verb]; rfl)
      (rfl : Ran (execute p c) m₁ _ _)
    obtain ⟨done, _⟩ := good dispatched
    rw [done] at dispatched
    exact ⟨_, .done fetched dispatched⟩
  · intro n w m' turn
    cases turn with
    | done fetched' dispatched =>
      obtain ⟨rfl, rfl, rfl⟩ := fetched'.unique fetched
      exact ⟨rfl, rfl, (good dispatched).2⟩
    | routed fetched' dispatched _ =>
      obtain ⟨rfl, rfl, rfl⟩ := fetched'.unique fetched
      cases (good dispatched).1
    | astray fetched' dispatched _ =>
      obtain ⟨rfl, rfl, rfl⟩ := fetched'.unique fetched
      cases (good dispatched).1
    | broken fetched' dispatched =>
      obtain ⟨rfl, rfl, rfl⟩ := fetched'.unique fetched
      cases (good dispatched).1

end Commands

/-- The guards among some blocks that owe their last segments, innermost first, each with its height
and its place. The innermost of the blocks is the one below the height `top`. -/
def owing (o : Outline) : Nat → List Spot → List (Nat × Nat)
  | _, [] => []
  | top, s :: below =>
    if s.owesFinally o then (top - 1, s.place) :: owing o (top - 1) below
    else owing o (top - 1) below

/-- The guards that a command leaves and that owe their last segments. -/
def Control.owed (o : Outline) (k : Control) (reach : Reach) : List (Nat × Nat) :=
  owing o k.spots.length (k.leaves reach)

section Owed

variable {o : Outline} {reach : Reach} {k k' : Control} {gone below : List Spot} {s : Spot}
  {top : Nat}

theorem leaves_upper (k : Control) : ∃ rest, k.spots = k.leaves reach ++ rest := by
  cases reach with
  | run => exact ⟨[], (append_nil _).symm⟩
  | call => exact ⟨_, spots_eq⟩
  | loop =>
    refine ⟨(k.call.blocks.dropWhile fun s => !s.isLoop) ++ k.outer.flatMap Tier.blocks, ?_⟩
    rw [leaves, ← append_assoc, takeWhile_append_dropWhile, spots_eq]

theorem owing_paid (paid : ∀ s ∈ gone, Paid o s) :
    owing o (gone.length + top) (gone ++ below) = owing o top below := by
  induction gone with
  | nil => rw [length_nil, Nat.zero_add, nil_append]
  | cons s gone ih =>
    have free : s.owesFinally o = false := paid s mem_cons_self
    have height : (s :: gone).length + top - 1 = gone.length + top := by rw [length_cons]; omega
    rw [cons_append, owing, free, height]
    exact ih fun x mem => paid x (mem_cons_of_mem s mem)

theorem owed_eq_nil (paid : ∀ s ∈ k.leaves reach, Paid o s) : k.owed o reach = [] := by
  obtain ⟨rest, split⟩ := leaves_upper k
  have out := @owing_paid o (k.leaves reach) [] rest.length paid
  rw [append_nil] at out
  rw [Control.owed, split, length_append]
  exact out

theorem owed_congr (blocks : k'.call.blocks = k.call.blocks) (outer : k'.outer = k.outer) :
    k'.owed o reach = k.owed o reach := by
  obtain ⟨leaves, spots⟩ := leaves_congr blocks outer
  rw [Control.owed, Control.owed, leaves, spots]

theorem owed_guard (lowered : Lowered reach (gone ++ [s]) k k') (paid : ∀ s ∈ gone, Paid o s)
    (owes : s.owesFinally o = true) :
    k.owed o reach = (k'.spots.length, s.place) :: k'.owed o reach := by
  have height : k.spots.length = gone.length + (k'.spots.length + 1) := by
    rw [lowered.spots, length_append, length_append, length_singleton]
    omega
  rw [Control.owed, lowered.leaves, height, append_assoc, owing_paid paid]
  show owing o (k'.spots.length + 1) (s :: k'.leaves reach) = _
  rw [owing, owes, Nat.add_sub_cancel]
  rfl

theorem Control.Lowered.vacant (lowered : Lowered reach gone k k') (vacant : Vacant k reach) :
    Vacant k' reach := by
  intro s mem
  refine vacant s ?_
  rw [lowered.leaves]
  exact mem_append_right _ mem

end Owed

/-- Turns in which the block `s` at the height `d` stays as it is. The last lap comes first. -/
inductive Within (p : Program) (d : Nat) (s : Spot) (m : Machine) : List Lap → Machine → Prop
  | refl : Within p d s m [] m
  | turn {laps : List Lap} {m₁ m₂ : Machine} {i : Nat} {v : Verdict}
      (before : Within p d s m laps m₁) (turn : Turn p m₁ i v m₂) (further : v.ending? = none)
      (kept : spotAt m₂.control.spots d = some s) : Within p d s m (⟨m₁, i, v, m₂⟩ :: laps) m₂

/-- The last segment at the place `j` of the guard at the height `d` is begun in the first lap and
in no other. The guard catches nothing, and no block beneath it is innermost. -/
structure BegunOnce (d j : Nat) (catchAt : Option Nat) (laps : List Lap) : Prop where
  first : ∀ t, laps.getLast? = some t → t.Executes d j
  once : ∀ t ∈ laps.dropLast, ¬ t.Executes d j
  uncaught : ∀ c, catchAt = some c → ∀ t ∈ laps, ¬ t.Catches d c
  above : ∀ t ∈ laps, d < t.before.frames.length

/-- The command at the place `s` is executed again and completed, whatever expressions mean. -/
structure Resumes (p : Program) (v : Verb) (s : Nat) (k : Control) (m : Machine) : Prop where
  sent : m.branch = some s
  goes : ∃ m', Turn p m s .done m'
  completes : ∀ i w m', Turn p m i w m' → i = s ∧ w = .done ∧ Completed p k m'.control v ∧
    ∀ evaluator, Turn { p with evaluator := evaluator } m s .done m'

/-- The command at the place `s`, which was executed in the control `k`, waits on the first of the
guards that owe their last segments. The run is sent to this segment. As long as the guard stays as
it is, so does what is beneath, and the segment is begun once; at its end the guard is left, and the
command waits on the next of the guards, or goes on if there is none. -/
def Unwinds (p : Program) (v : Verb) (reach : Reach) (s : Nat) (k : Control) :
    List (Nat × Nat) → Machine → Prop
  | [], m => Resumes p v s k m
  | (d, q) :: owed, m => ∃ g name catchAt j last,
    p.outline.block? q = some (.opener (.guard name catchAt (some j)) last) ∧ m.branch = some j ∧
    m.frames.length = d + 1 ∧ spotAt m.control.spots d = some ⟨q, .guard g⟩ ∧
    g.phase = some .finishing ∧
    g.pending = some (.command (some (s : Int)) reach.ceiling reach.crosses) ∧
    ∀ laps m₁, Within p d ⟨q, .guard g⟩ m laps m₁ →
      BegunOnce d j catchAt laps ∧ (∀ e < d, spotAt m₁.control.spots e = spotAt k.spots e) ∧
      (m₁.frames.length = d + 1 → Heads p m₁ last →
        (∃ m₂, Turn p m₁ last .done m₂) ∧
        ∀ i w m₂, Turn p m₁ i w m₂ → i = last ∧ w = .done ∧ Unwinds p v reach s k owed m₂)

section Segments

variable {p : Program} {m m' : Machine} {d q j last : Nat} {g : Guard} {name : String}
  {catchAt : Option Nat} {laps : List Lap} {rest : List Spot} {s : Spot}

theorem Within.reached (reached : Reached p m) (within : Within p d s m laps m') :
    Reached p m' := by
  induction within with
  | refl => exact reached
  | turn _ turn further _ ih => exact .turn ih turn further

theorem Within.kept (lies : m.control.Lies d s) (within : Within p d s m laps m') :
    m'.control.Lies d s := by
  cases within with
  | refl => exact lies
  | turn _ _ _ kept => exact kept

theorem Within.rests [p.Ready] (reached : Reached p m) (top : m.control.Top ⟨q, .guard g⟩ rest)
    (within : Within p (m.control.withBlocks rest).spots.length ⟨q, .guard g⟩ m laps m') :
    m.control.spots <:+ m'.control.spots ∧ Rests m'.control m.control.call m.control.outer := by
  have spots := spots_cons top
  induction within with
  | refl => exact ⟨suffix_refl _, [], m.control.call, [], rfl, rfl, rfl, rfl⟩
  | turn before turn further kept ih =>
    have placed := (before.reached reached).placed
    obtain ⟨on, rests⟩ := ih
    rw [spots] at on
    have on' := (turn.stir placed).1.suffix on kept
    rw [← spots] at on'
    refine ⟨on', rests.step (turn.steps placed further) (by rw [top]; nofun) ?_⟩
    rwa [← spots_eq]

theorem Within.begunOnce [p.Ready] (reached : Reached p m)
    (block : p.Spans q (.guard name catchAt (some j)) last) (branch : m.branch = some j)
    (height : m.frames.length = d + 1) (lies : m.control.Lies d ⟨q, .guard g⟩)
    (finishing : g.phase = some .finishing) (within : Within p d ⟨q, .guard g⟩ m laps m') :
    BegunOnce d j catchAt laps := by
  have verb := (block.finallyPart p.found).verb
  -- a lap leads away from the beginning of the segment
  have gone {m₁ m₂ : Machine} {i : Nat} {w : Verdict} {laps : List Lap}
      (before : Within p d ⟨q, .guard g⟩ m laps m₁) (turn : Turn p m₁ i w m₂)
      (further : w.ending? = none) (kept : m₂.control.Lies d ⟨q, .guard g⟩)
      (height : m₂.frames.length = d + 1) (heads : Heads p m₂ j) : False := by
    have placed := (before.reached reached).placed
    obtain ⟨rfl, _⟩ := turn.no_return placed further (before.kept lies) finishing kept
      finishing block ((frames_length m₂).trans height) heads
    obtain ⟨_, t, next, bound, _⟩ := heads
    have := (turn.at_finally placed verb).2.1 t next
    omega
  induction within with
  | refl => exact ⟨by simp, by simp, by simp, by simp⟩
  | @turn laps m₁ m₂ i w before turn further kept ih =>
    have placed := (before.reached reached).placed
    have stays := before.kept lies
    refine ⟨?_, ?_, ?_, forall_mem_cons.mpr ⟨?_, ih.above⟩⟩
    · cases before with
      | refl =>
        intro t same
        cases same
        exact ⟨turn.place_of_branch placed branch verb, height⟩
      | turn _ _ _ _ =>
        rw [getLast?_cons_cons]
        exact ih.first
    · cases before with
      | refl => simp
      | turn before turn' further' kept' =>
        rw [dropLast_cons_cons]
        refine forall_mem_cons.mpr ⟨?_, ih.once⟩
        rintro ⟨rfl, height⟩
        exact gone before turn' further' kept' height (turn.heads placed)
    · rintro c rfl
      refine forall_mem_cons.mpr ⟨fun catches => ?_, ih.uncaught c rfl⟩
      obtain ⟨same, _⟩ := turn.catches placed stays kept block catches
      rw [same] at finishing
      cases finishing
    · rw [← frames_length]
      exact lt_of_spotAt stays

theorem Within.ends [p.Ready] (reached : Reached p m)
    (top : m.control.call.blocks = ⟨q, .guard g⟩ :: rest)
    (within : Within p (m.control.withBlocks rest).spots.length ⟨q, .guard g⟩ m laps m')
    (height : m'.frames.length = (m.control.withBlocks rest).spots.length + 1)
    (some : m'.control.call.blocks ≠ []) :
    m'.control.call.function = m.control.call.function ∧ m'.control.call.back =
      m.control.call.back ∧
      m'.control.outer = m.control.outer ∧ m'.control.call.blocks = ⟨q, .guard g⟩ :: rest := by
  obtain ⟨on, passed, t, above, tiers, function, back, blocks⟩ := within.rests reached top
  have same : m.control.spots = m'.control.spots :=
    on.eq_of_length (by rw [frames_length m', height, spots_cons top]; rfl)
  have size := congrArg List.length same
  have nonempty := length_pos_iff.mpr some
  rw [spots_eq, Control.spots, tiers] at size
  simp only [flatMap_append, flatMap_cons, length_append, blocks] at size
  cases passed with
  | cons first passed =>
    obtain ⟨rfl, _⟩ := cons.inj tiers
    simp only [flatMap_cons, length_append] at size
    omega
  | nil =>
    obtain ⟨rfl, outer⟩ := cons.inj tiers
    obtain rfl : above = [] := by
      refine eq_nil_of_length_eq_zero ?_
      simp only [flatMap_nil, length_nil] at size
      omega
    exact ⟨function, back, outer, by rw [blocks, top]; rfl⟩

end Segments

section Going

variable {p : Program} {k : Control} {m m₁ : Machine} {s : Nat} {c : Command} {v : Verb}
  {reach : Reach}

theorem Chain.back {t : Tier} {outer : List Tier} {f : Nat} (chain : Chain p t outer)
    (own : t.function = some f) : ∃ b : Nat, t.back = some (b : Int) ∧ b < p.commands.length := by
  cases chain with
  | bottom top => rw [top] at own; cases own
  | call _ back verb _ _ _ => exact ⟨_, back, lt_length_of_verbAt verb⟩

theorem Verb.exit_of_reach (near : v.reach? = some .loop) : v.role = .exit := by
  cases v <;> first | rfl | cases near

theorem Verb.giveBack_of_reach (near : v.reach? = some .call) : v = .giveBack := by
  cases v <;> first | rfl | cases near

theorem Verb.recurs_of_reach (far : v.reach? = some reach) : v.recurs = false := by
  cases v <;> first | rfl | cases far

theorem Leaving.reaches {function : Option Nat} {q : Nat} {ceiling crosses : Bool}
    (leaving : Leaving p function q (some (s : Int)) ceiling crosses) (verb : p.Does s v)
    (far : v.reach? = some reach) : ceiling = reach.ceiling ∧ crosses = reach.crosses := by
  rcases leaving.kinds verb with ⟨rfl, rfl, which, _⟩ | ⟨rfl, rfl, which, _⟩ | ⟨rfl, rfl, rfl⟩
  · cases v <;> cases which <;> cases far <;> exact ⟨rfl, rfl⟩
  · cases v <;> cases which <;> cases far
    exact ⟨rfl, rfl⟩
  · cases far
    exact ⟨rfl, rfl⟩

theorem Poised.loop_open [p.Faithful] (poised : Poised p k s) (verb : p.Does s v)
    (near : v.reach? = some .loop) : ∃ x ∈ k.call.blocks, x.isLoop = true := by
  rcases poised.course verb (Verb.recurs_of_reach near) with
    inside | ⟨q, ceiling, crosses, _, seated, leaving, _⟩
  · exact inside.seated.loop_open (inside.leaving_exit verb (Verb.exit_of_reach near))
  · obtain ⟨rfl, rfl⟩ := leaving.reaches verb near
    exact seated.loop_open leaving

theorem Poised.departs {r : Reply Unit} {m' : Machine} [p.Faithful] (poised : Poised p m.control s)
    (verb : p.Does s v) (far : v.reach? = some reach)
    (own : v = .giveBack → ∃ f, p.Links s f ∧ m.control.call.function = some f)
    (goes : m.control.resuming = false → c.Goes p m.vars v)
    (ran : Ran (perform p c m.control.resuming v) { m with resume := none } r m') :
    r = .ok () ∧ ((m.control.resuming = false ∧
        Waits p.outline { m.control with resume := none } (some (s : Int)) reach.ceiling
          reach.crosses m'.control) ∨
      ((m.control.resuming = false →
        Clear p.outline reach.ceiling (m.control.wayOut reach.crosses)) ∧
        Completed p m.control m'.control v)) := by
  have here : m.Here s := poised.here
  have loop (near : reach = .loop) : ∃ x ∈ m.control.call.blocks, x.isLoop = true :=
    poised.loop_open verb (near ▸ far)
  have back (near : reach = .call) :
      ∃ b : Nat, m.control.call.back = some (b : Int) ∧ b < p.commands.length := by
    obtain ⟨f, _, function⟩ := own (Verb.giveBack_of_reach (near ▸ far))
    exact poised.chain.back function
  have out := @ran_depart p { m with resume := none } m' s c v reach m.control.resuming r _
    poised.toGoing.fits here far loop (fun near => own (Verb.giveBack_of_reach (near ▸ far)))
    back goes ran
  obtain ⟨rfl, ⟨fresh, waits⟩ | ⟨clear, completed⟩⟩ := out
  · refine ⟨rfl, .inl ⟨fresh, ?_⟩⟩
    rw [← here]
    exact waits
  · refine ⟨rfl, .inr ⟨clear, ?_⟩⟩
    cases completed with
    | again blocks inner function outer top next =>
      exact .again blocks inner function outer top next
    | leave blocks inner block function outer top next =>
      exact .leave blocks inner block function outer top next
    | giveBack source function outer returning next =>
      exact .giveBack source function outer returning next
    | exitTest stopped => exact .exitTest stopped

theorem execute_resuming {r : Reply Unit} {m' : Machine} (verb : c.verb? = some v)
    (far : v.reach? = some reach) (resuming : m.control.resuming = true)
    (ran : Ran (execute p c) m r m') {evaluator : Evaluator} :
    Ran (execute { p with evaluator := evaluator } c) m r m' := by
  have out (p : Program) : (execute p c).run.run m = (located (perform p c true v)).run.run
      { m with resume := none } := by
    rw [show perform p c true v = perform p c m.control.resuming v by rw [resuming]]
    unfold execute
    rw [verb]
    rfl
  have same : perform { p with evaluator := evaluator } c true v = perform p c true v := by
    cases v with
    | again | leave | giveBack | exitTest => rfl
    | _ => cases far
  rw [Ran, out] at ran ⊢
  rwa [same]

theorem seek_evaluator (evaluator : Evaluator) (count : Nat) (place : Int) :
    seek { p with evaluator := evaluator } count place = seek p count place := by
  induction count generalizing place with
  | zero => rfl
  | succ count ih => simp only [seek, ih, commandFrom]

theorem Fetched.evaluator (fetched : Fetched p m s c m₁) {evaluator : Evaluator} :
    Fetched { p with evaluator := evaluator } m s c m₁ := by
  refine ⟨?_, fetched.here⟩
  have same : next { p with evaluator := evaluator } = next p := by
    unfold Action.next
    simp only [seek_evaluator]
    rfl
  rw [same]
  exact fetched.ran

theorem resumes_next [p.Ready] (reached : Reached p m) (verb : p.Does s v)
    (far : v.reach? = some reach) (branch : m.branch = some s) (marked : m.resume = some (s : Int))
    (running : m.stopped = false) (started : m.started = true) {gone : List Spot}
    (lowered : Lowered reach gone k m.control) : Resumes p v s k m := by
  have placed := reached.placed
  have heads : Heads p m s :=
    ⟨running, s, .branch started branch, Nat.le_refl s, fun j low below => by omega⟩
  obtain ⟨c, m₁, fetched, own⟩ := heads.fetched verb
  obtain ⟨poised, has, control⟩ := fetched.poised placed
  have resuming : m₁.control.resuming = true := by
    rw [control]
    show decide (m.resume.isSome ∧ m.resume = some (s : Int)) = true
    simp [marked]
  have backward (same : v = .giveBack) :
      ∃ f, p.Links s f ∧ m₁.control.call.function = some f := by
    subst same
    obtain ⟨f, owned, _⟩ := block?_giveBack p.found verb
    exact ⟨f, owned, (poised.mayWait resuming verb).2 f owned rfl⟩
  have lowered : Lowered reach gone k m₁.control :=
    lowered.congr (by rw [control]; rfl) (by rw [control]; rfl) (by rw [control]; rfl)
      (by rw [control]; rfl)
  have completes (r : Reply Unit) (m' : Machine)
      (ran : Ran (perform p c m₁.control.resuming v) { m₁ with resume := none } r m') :
      r = .ok () ∧ Completed p k m'.control v := by
    have fresh (not : m₁.control.resuming = false) : c.Goes p m₁.vars v := by
      rw [resuming] at not; cases not
    obtain ⟨rfl, ⟨not, _⟩ | ⟨_, completed⟩⟩ := poised.departs verb far backward fresh ran
    · rw [resuming] at not; cases not
    · exact ⟨rfl, completed.lowered far lowered⟩
  obtain ⟨goes, all⟩ := fetched.does own completes
  refine ⟨branch, goes, fun i w m' turn => ?_⟩
  obtain ⟨rfl, rfl, completed⟩ := all i w m' turn
  refine ⟨rfl, rfl, completed, fun evaluator => ?_⟩
  obtain ⟨_, _, fetched', dispatched⟩ := turn.dispatched
  obtain ⟨_, rfl, rfl⟩ := fetched'.unique fetched
  cases dispatched with
  | host none _ => rw [own] at none; cases none
  | control some ran =>
    exact .done fetched.evaluator (.control some (execute_resuming own far resuming ran))

end Going

/-- How far the command at the place `s`, executed in the control `k`, has come: it waits on a guard
with others still to come, or goes on next. -/
inductive Underway (o : Outline) (reach : Reach) (s : Nat) (k : Control) :
    List (Nat × Nat) → Control → Prop
  | waits {k' : Control} {gone rest place j last} {g : Guard} {name catchAt}
      (lowered : Lowered reach gone k (k'.withBlocks rest))
      (block : o.Spans place (.guard name catchAt (some j)) last)
      (top : k'.Top ⟨place, .guard g⟩ rest) (finishing : g.phase = some .finishing)
      (pending : g.pending = some (.command (some (s : Int)) reach.ceiling reach.crosses))
      (sent : k'.branch = some j) :
      Underway o reach s k
        (((k'.withBlocks rest).spots.length, place) :: (k'.withBlocks rest).owed o reach) k'
  | goes {k' : Control} {gone} (lowered : Lowered reach gone k k') (sent : k'.branch = some s)
      (marked : k'.resume = some (s : Int)) (running : k'.stopped = false)
      (started : k'.started = true) : Underway o reach s k [] k'

section Ways

variable {p : Program} {k k₁ k₂ : Control} {m m' : Machine} {s q last : Nat} {v : Verb}
  {reach : Reach} {gone rest : List Spot} {g : Guard} {owed : List (Nat × Nat)}

theorem Control.Waits.underway
    (waits : Waits p.outline k₁ (some (s : Int)) reach.ceiling reach.crosses k₂)
    (vacant : Vacant k reach) (lowered : Lowered reach gone k k₁) :
    Underway p.outline reach s k (k₁.owed p.outline reach) k₂ ∧ k₁.owed p.outline reach ≠ [] := by
  obtain ⟨_, _, _, _, _, _, _, _, down, paid, owes, block, top, sent, _⟩ :=
    waits.owed (lowered.vacant vacant)
  rw [owed_guard down paid owes]
  exact ⟨.waits (lowered.trans down) block top rfl rfl sent, by nofun⟩

theorem Poised.nothing_owed [p.Faithful] (poised : Poised p k s) (verb : p.Does s v)
    (far : v.reach? = some reach) (resuming : k.resuming = true) : k.owed p.outline reach = [] := by
  rcases poised.course verb (Verb.recurs_of_reach far) with inside | ⟨_, _, _, _, _, leaving, clear⟩
  · simp [Control.resuming, inside.idle] at resuming
  · obtain ⟨rfl, rfl⟩ := leaving.reaches verb far
    exact owed_eq_nil clear.nothing_owed

theorem Inside.fits_below {b : Spot} (inside : Inside p k last) (top : k.Top b rest) :
    (k.withBlocks rest).Fits p.outline := by
  refine fits_withBlocks inside.rooted.fits fun x mem => ?_
  rw [top]
  exact mem_cons_of_mem _ mem

theorem Inside.goes_on {r : Reply Unit} [p.Faithful] (inside : Inside p m.control last)
    (owned : p.Links last q) (top : m.control.Top ⟨q, .guard g⟩ rest)
    (pending : g.pending = some (.command (some (s : Int)) reach.ceiling reach.crosses))
    (bound : s < p.commands.length) (vacant : Vacant k reach)
    (lowered : Lowered reach gone k (m.control.withBlocks rest)) (ran : Ran (endTry p) m r m') :
    r = .ok () ∧ Underway p.outline reach s k ((m.control.withBlocks rest).owed p.outline reach)
      m'.control := by
  obtain ⟨n, control, ran⟩ := ran_endTry inside.here owned top ran
  rw [pending] at ran
  have fits : n.control.Fits p.outline := by
    rw [control]
    exact inside.fits_below top
  rw [← control] at lowered ⊢
  rcases ran_release_command fits ran with
    ⟨rfl, waits⟩ | ⟨clear, ⟨_, source, _, rfl, on⟩ | ⟨nowhere, _⟩⟩
  · exact ⟨rfl, (waits.underway vacant lowered).1⟩
  · cases Int.ofNat.inj (Option.some.inj source)
    rw [owed_eq_nil clear.nothing_owed]
    refine ⟨rfl, .goes (lowered.congr ?_ ?_ ?_ ?_) ?_ ?_ ?_ ?_⟩
    all_goals rw [on]
    all_goals try rfl
    · show n.control.stopped = false
      rw [control]
      exact inside.running
    · show n.control.started = true
      rw [control]
      exact inside.started
  · exact absurd (nowhere s rfl) (by omega)

theorem Underway.unwinds [p.Ready] (verb : p.Does s v) (far : v.reach? = some reach)
    (vacant : Vacant k reach) (reached : Reached p m)
    (underway : Underway p.outline reach s k owed m.control) : Unwinds p v reach s k owed m := by
  induction owed generalizing m with
  | nil =>
    generalize none_left : ([] : List (Nat × Nat)) = owed at underway
    cases underway with
    | waits => cases none_left
    | goes lowered sent marked running started =>
      exact resumes_next reached verb far sent marked running started lowered
  | cons first owed ih =>
    generalize more : first :: owed = all at underway
    cases underway with
    | goes => cases more
    | @waits _ gone rest place j last g name catchAt lowered block top finishing pending sent =>
      obtain ⟨rfl, rfl⟩ := cons.inj more
      have spots := spots_cons top
      have height : m.frames.length = (m.control.withBlocks rest).spots.length + 1 := by
        rw [← frames_length, spots]
        rfl
      have lies : spotAt m.control.spots (m.control.withBlocks rest).spots.length =
          some ⟨place, .guard g⟩ := by
        rw [spots]
        exact spotAt_top
      refine ⟨g, name, catchAt, j, last, block, sent, height, lies, finishing, pending,
        fun laps m₁ within => ?_⟩
      refine ⟨within.begunOnce reached block sent height lies finishing, fun e low => ?_,
        fun back heads => ?_⟩
      · obtain ⟨above, on⟩ := (within.rests reached top).1
        rw [← on, spots, lowered.spots, append_cons, spotAt_below low, spotAt_below low]
      · have ended := block.ended p.found
        have reached₁ := within.reached reached
        obtain ⟨c, m₂, fetched, own⟩ := heads.fetched ended.closed
        obtain ⟨poised, _, control⟩ := fetched.poised reached₁.placed
        have inside := poised.inside_of_asks ended.closed rfl
        have held : m₁.control.call.blocks ≠ [] := by
          obtain ⟨_, _, top⟩ := inside.guard_top block ended.around
          rw [control] at top
          rw [show m₁.control.call.blocks = _ from top]
          nofun
        obtain ⟨function, back', outer, top'⟩ := within.ends reached top back held
        have down : Lowered reach gone k (m₂.control.withBlocks rest) := by
          rw [control]
          exact lowered.congr function back' rfl outer
        have left : (m₂.control.withBlocks rest).owed p.outline reach =
            (m.control.withBlocks rest).owed p.outline reach := by
          rw [control]
          exact owed_congr rfl outer
        have ends (r : Reply Unit) (m' : Machine)
            (ran : Ran (perform p c m₂.control.resuming .endTry) { m₂ with resume := none } r m') :
            r = .ok () ∧ Underway p.outline reach s k
            ((m.control.withBlocks rest).owed p.outline reach) m'.control := by
          have idle : { m₂ with resume := none } = m₂ := by
            rw [← show m₂.resume = none from inside.idle]
          rw [idle] at ran
          rw [← left]
          refine inside.goes_on ((block?_iff p.found _ _).mpr ended.linked) ?_ pending
            (lt_length_of_verbAt verb) vacant down ran
          rw [control]
          exact top'
        obtain ⟨goes, all⟩ := fetched.does own ends
        refine ⟨goes, fun i w m' turn => ?_⟩
        obtain ⟨rfl, rfl, underway⟩ := all i w m' turn
        exact ⟨rfl, rfl, ih (.turn reached₁ turn rfl) underway⟩

/-- A command that leaves blocks runs the last segments that their guards owe, innermost first and
each once. Then it is executed again, without a look at its condition or value, and completed. -/
theorem departure_unwinds {o : Program} {m₁ : Machine} {c : Command} (outlined : o.outlined = .ok p)
    (start : o.start = 0) (reached : Reached p m) (fetched : Fetched p m s c m₁)
    (verb : c.verb? = some v) (far : v.reach? = some reach)
    (own : v = .giveBack → ∃ f, p.outline.block? s = some (.partner f) ∧ m₁.call.function = some f)
    (goes : m₁.control.resuming = false → c.Goes p m₁.vars v) (vacant : m.control.Vacant reach) :
    (∃ m', Turn p m s .done m') ∧ ∀ i w m', Turn p m i w m' → i = s ∧ w = .done ∧
      (m.control.owed p.outline reach = [] → Completed p m.control m'.control v) ∧
      (m.control.owed p.outline reach ≠ [] →
        Unwinds p v reach s m.control (m.control.owed p.outline reach) m') := by
  have := ready_of_outlined outlined start
  obtain ⟨poised, has, control⟩ := fetched.poised reached.placed
  have at_verb := verbAt_of_at has verb
  have does (r : Except Failure Unit) (m' : Machine)
      (ran : Ran (perform p c m₁.control.resuming v) { m₁ with resume := none } r m') :
      r = .ok () ∧ (m.control.owed p.outline reach = [] ∧ Completed p m.control m'.control v ∨
        Underway p.outline reach s m.control (m.control.owed p.outline reach) m'.control ∧
          m.control.owed p.outline reach ≠ []) := by
    have same : Lowered reach [] m.control m₁.control := by
      rw [control]
      exact Lowered.refl.congr rfl rfl rfl rfl
    have left : m₁.control.owed p.outline reach = m.control.owed p.outline reach := by
      rw [control]
      exact owed_congr rfl rfl
    obtain ⟨rfl, ⟨fresh, waits⟩ | ⟨clear, completed⟩⟩ := poised.departs at_verb far own goes ran
    · refine ⟨rfl, .inr ?_⟩
      rw [← left]
      exact waits.underway vacant (same.congr rfl rfl rfl rfl)
    · refine ⟨rfl, .inl ⟨?_, completed.lowered far same⟩⟩
      rw [← left]
      cases resuming : m₁.control.resuming with
      | false => exact owed_eq_nil (clear resuming).nothing_owed
      | true => exact poised.nothing_owed at_verb far resuming
  obtain ⟨turns, all⟩ := fetched.does verb does
  refine ⟨turns, fun i w m' turn => ?_⟩
  obtain ⟨rfl, rfl, ⟨none, completed⟩ | ⟨underway, more⟩⟩ := all i w m' turn
  · exact ⟨rfl, rfl, fun _ => completed, fun some => absurd none some⟩
  · refine ⟨rfl, rfl, fun none => absurd none more, fun _ => ?_⟩
    exact underway.unwinds at_verb far vacant (.turn reached turn rfl)

end Ways

def stopInCall : Program := .ofCommands
  [{ name := "function", target := "f" }, { name := "try" }, { name := "exitTest" },
   { name := "finally" }, { name := "echo", target := "inner" }, { name := "endTry" },
   { name := "endFunction" }, { name := "try" }, { name := "call", target := "f" },
   { name := "finally" }, { name := "echo", target := "outer" }, { name := "endTry" }]

theorem departure_unwinds_stopInCall :
    ∃ m m', Reached stopInCall m ∧ m.control.owed stopInCall.outline .run = [(1, 1), (0, 7)] ∧
      Turn stopInCall m 2 .done m' ∧
        Unwinds stopInCall .exitTest .run 2 m.control [(1, 1), (0, 7)] m' := by
  have outlined : stopInCall.outlined = .ok stopInCall := rfl
  have := ready_of_outlined outlined rfl
  have reached := Session.reached_runFor (p := stopInCall) (s := {}) 6 (.start {} #[])
  have before : (({} : Session).runFor stopInCall 6).2 = none ∧
      (({} : Session).runFor stopInCall 6).1.machine.stopped = false ∧
      (({} : Session).runFor stopInCall 6).1.machine.started = true ∧
      (({} : Session).runFor stopInCall 6).1.machine.branch = none ∧
      (({} : Session).runFor stopInCall 6).1.machine.here = some 1 ∧
      (({} : Session).runFor stopInCall 6).1.machine.control.owed stopInCall.outline .run =
      [(1, 1), (0, 7)] ∧
      (({} : Session).runFor stopInCall 6).1.machine.control.spots.all fun s =>
        s.guard?.all fun g => g.pending.isNone := by decide +kernel
  generalize ({} : Session).runFor stopInCall 6 = s at reached before
  obtain ⟨further, running, started, straight, here, owed, idle⟩ := before
  have reached := reached further
  have heads : Heads stopInCall s.1.machine 2 :=
    ⟨running, 2, .after started straight here, Nat.le_refl 2, fun j low below => by omega⟩
  obtain ⟨c, m₁, fetched, verb⟩ :=
    heads.fetched (by decide +kernel : verbAt stopInCall.commands 2 = some .exitTest)
  have vacant : s.1.machine.control.Vacant .run := by
    rintro ⟨place, mark⟩ mem g rfl ⟨_, occupied⟩
    have free : g.pending.isNone = true := all_eq_true.mp idle _ mem
    rw [Option.isNone_iff_eq_none.mp free] at occupied
    cases occupied
  obtain ⟨⟨m', turn⟩, all⟩ := departure_unwinds outlined rfl reached fetched verb rfl nofun
    (fun _ => trivial) vacant
  rw [owed] at all
  exact ⟨_, m', reached, owed, turn, (all 2 .done m' turn).2.2.2 (by nofun)⟩

end Runbook
