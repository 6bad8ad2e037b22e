import Runbook.Proofs.Run.Unwinding

namespace Runbook

open Runbook.Action Control List

def Spot.pending? (s : Spot) : Option Bubble := s.guard?.bind Guard.pending

/-- If an error waits on the block, it does not wait for the last segment. -/
def Spot.Free (o : Outline) (s : Spot) : Prop :=
  ∀ cause source, s.pending? = some (.failure cause source) → s.toll o = none

def Spot.Sourced (p : Program) (s : Spot) : Prop :=
  ∀ source ceiling crosses, s.pending? = some (.command source ceiling crosses) →
    ∃ n v, source = some ((n : Nat) : Int) ∧ p.Does n v ∧ v.reach?.isSome = true

/-- What a command that succeeds does to the stack of blocks. -/
inductive Flow (p : Program) : List Spot → List Spot → Prop
  | leaves {gone new rest} (free : ∀ s ∈ gone, s.Free p.outline)
      (blank : ∀ s ∈ new, s.pending? = none) : Flow p (gone ++ rest) (new ++ rest)
  | finishes {rest q} {g : Guard} : Flow p (⟨q, .guard g⟩ :: rest) (⟨q, .guard g.finishing⟩ :: rest)
  | waits {gone rest q} {n : Nat} {g} {g' : Guard} {v : Verb} {ceiling crosses}
      (free : ∀ s ∈ gone, s.Free p.outline) (finishing : g'.phase = some .finishing)
      (pending : g'.pending = some (.command (some (n : Int)) ceiling crosses)) (verb : p.Does n v)
      (leaves : v.reach?.isSome = true) :
      Flow p (gone ++ ⟨q, .guard g⟩ :: rest) (⟨q, .guard g'⟩ :: rest)

section Moving

variable {p : Program} {k k' : Control} {i : Nat} {v : Verb} {pre : List Spot} {o : Outline}
  {ceiling crosses : Bool} {s : Spot} {source : Option Int} {rest : List Spot}

theorem Flow.refl {stack : List Spot} : Flow p stack stack :=
  @Flow.leaves p [] [] stack (by simp) (by simp)

theorem free_of_passes (passes : s.Passes o ceiling) : s.Free o :=
  fun _ _ _ => passes.2

theorem free_of_blank (blank : s.pending? = none) : s.Free o := by
  intro cause source pending
  rw [blank] at pending
  cases pending

theorem free_of_command (pending : s.pending? = some (.command source ceiling crosses)) :
    s.Free o := by
  intro cause source pending'
  cases pending.symm.trans pending'

theorem blank_of_cond (cond : s.isCond = true) : s.pending? = none := by
  rw [Spot.pending?, plain_of_cond cond]
  rfl

theorem flow_withBlocks {gone new : List Spot} (blocks : k.call.blocks = gone ++ rest)
    (free : ∀ s ∈ gone, s.Free p.outline) (blank : ∀ s ∈ new, s.pending? = none) :
    Flow p k.spots (k.withBlocks (new ++ rest)).spots := by
  rw [spots_eq, blocks, append_assoc, spots_eq]
  show Flow p (gone ++ (rest ++ _)) ((new ++ rest) ++ k.outer.flatMap Tier.blocks)
  rw [append_assoc]
  exact .leaves free blank

theorem flow_push (blank : s.pending? = none) : Flow p k.spots (k.push s).spots :=
  @flow_withBlocks p k k.call.blocks [] [s] rfl (by simp) (forall_mem_singleton.mpr blank)

theorem flow_pop (top : k.Top s rest) (free : s.Free p.outline) :
    Flow p k.spots (k.withBlocks rest).spots :=
  @flow_withBlocks p k rest [s] [] top (forall_mem_singleton.mpr free) (by simp)

theorem flow_swap {s' : Spot} (top : k.Top s rest) (free : s.pending? = none)
    (blank : s'.pending? = none) : Flow p k.spots (k.withBlocks (s' :: rest)).spots :=
  @flow_withBlocks p k rest [s] [s'] top (forall_mem_singleton.mpr (free_of_blank free))
    (forall_mem_singleton.mpr blank)

theorem Chooses.flow {place : Nat} {c : Cond} {r : Reply Unit}
    (chooses : Chooses p.outline k place c rest r k')
    (flow : ∀ c', Flow p k.spots (k.withBlocks (⟨place, .cond c'⟩ :: rest)).spots) :
    Flow p k.spots k'.spots := by
  cases chooses with
  | fail _ | holds | next _ | last _ _ => exact flow _

theorem Waits.flow {n : Nat} {w : Verb} (waits : Waits p.outline k source ceiling crosses k')
    (free : ∀ s ∈ pre, s.Free p.outline) (same : source = some (n : Int)) (verb : p.Does n w)
    (leaves : w.reach?.isSome = true) : Flow p (pre ++ k.spots) k'.spots := by
  subst same
  obtain ⟨tiers, blocks, _, left, gone, detains⟩ := waits
  rw [spots_split tiers blocks, ← append_assoc]
  have free := forall_mem_append.mpr
    ⟨free, fun s mem => free_of_passes (passes_above left gone s mem)⟩
  cases detains with
  | replaces _ running _ => exact .waits free running rfl verb leaves
  | finishes _ _ => exact .waits free rfl rfl verb leaves

theorem Control.Waits.some_block (waits : Waits p.outline k source ceiling crosses k')
    (inner : crosses = false) : k.call.blocks ≠ [] := by
  obtain ⟨tiers, blocks, inside⟩ := waits
  rw [inside inner] at tiers
  obtain ⟨rfl, _⟩ := cons.inj tiers
  rw [blocks]
  simp

theorem Inside.function_end {owner : Nat} {word : FunctionWord} [p.Faithful] (inside : Inside p k i)
    (verb : p.Does i (.endFunction word)) (owned : p.Links i owner)
    (own : k.call.function = some owner) : k.call.blocks = [] := by
  obtain ⟨form, block, _⟩ := owned_closing verb rfl owned
  have covers := inside.seated.covers
  rw [(block.ended p.found).around, own, within_self] at covers
  generalize k.call.blocks = blocks at covers
  cases covers
  rfl

theorem Poised.flows [p.Faithful] (poised : Poised p k i) (verb : p.Does i v)
    (sourced : ∀ s ∈ k.spots, s.Sourced p)
    (move : Move p i k.resuming { k with resume := none } v (.ok ()) k') :
    Flow p k.spots k'.spots := by
  have here : k.Here i := poised.here
  have round {above rest : List Spot} {place : Nat} {kind : LoopKind} {complete complete' : Bool}
      (passes : ∀ s ∈ above, s.Passes p.outline true)
      (blocks : k.call.blocks = above ++ ⟨place, .loop kind complete⟩ :: rest) :
      Flow p k.spots (k.withBlocks (⟨place, .loop kind complete'⟩ :: rest)).spots := by
    rw [append_cons] at blocks
    refine @flow_withBlocks p k rest _ [⟨place, .loop kind complete'⟩] blocks ?_
      (forall_mem_singleton.mpr rfl)
    exact forall_mem_append.mpr
      ⟨fun s mem => free_of_passes (passes s mem), forall_mem_singleton.mpr (free_of_blank rfl)⟩
  change Flow p { k with resume := none : Control }.spots k'.spots
  cases move with
  | stay | skip | orElse | openCatch | passCatch | keepFinally | nextRound | loopBack | pass
  | enterFunction | skipFunction | foreign | giveBack | enterCall | stop => exact .refl
  | jump plain region blocks gone =>
    exact @flow_withBlocks p { k with resume := none } _ _ [] blocks
      (fun s mem => free_of_blank (blank_of_cond (gone s mem).1)) (by simp)
  | openIf block chooses => exact Chooses.flow chooses fun c' => flow_push rfl
  | elseIf owned top _ chooses => exact Chooses.flow chooses fun c' => flow_swap top rfl rfl
  | endIf owned top => exact flow_pop top (free_of_blank rfl)
  | openTry block => exact flow_push rfl
  | @openFinally owner g rest owned top fresh owed =>
    rw [spots_cons top]
    exact .finishes
  | endTry owned top quiet => exact flow_pop top (free_of_blank quiet)
  | @rewait _ owner g rest source ceiling crosses owned top pending waits =>
    rw [spots_cons top]
    obtain ⟨n, w, rfl, verb, leaves⟩ :=
      sourced ⟨owner, .guard g⟩ (by rw [spots_cons (k := k) top]; exact mem_cons_self) source
        ceiling crosses pending
    exact @Waits.flow p _ _ [⟨owner, .guard g⟩] _ _ _ _ _ waits
      (forall_mem_singleton.mpr (free_of_command pending)) rfl verb leaves
  | @resume owner source g rest ceiling crosses owned top pending _ _ =>
    exact flow_pop top (free_of_command pending)
  | enterLoop _ _ _ | skipLoop _ _ => exact flow_push rfl
  | lastRound block top => exact flow_swap top rfl rfl
  | endLoop owned top => exact flow_pop top (free_of_blank rfl)
  | @waitExit _ _ exit _ waits =>
    refine @Waits.flow p _ _ [] _ _ _ _ _ waits (by simp) here verb ?_
    rcases role_exit exit with rfl | rfl <;> rfl
  | again clear blocks inner | leave clear blocks inner =>
    exact round (poised.passes_inner verb rfl clear blocks inner) blocks
  | leaveCall around returning back =>
    rw [spots_call around]
    exact @Flow.leaves p _ [] _ (fun s mem => free_of_passes (poised.passes_back returning s mem))
      (by simp)
  | @waitBack _ _ owner gives owned own fresh waits =>
    cases v with
    | giveBack => exact @Waits.flow p _ _ [] _ _ _ _ _ waits (by simp) here verb rfl
    | endFunction word =>
      -- at its end no block of the function is open, so there is nothing to wait on
      rcases poised.course verb rfl with inside | ⟨_, _, _, resuming, _⟩
      · exact absurd (inside.function_end verb owned own) (waits.some_block rfl)
      · rw [resuming] at fresh
        cases fresh
    | _ => cases gives
  | waitExitTest _ waits => exact @Waits.flow p _ _ [] _ _ _ _ _ waits (by simp) here verb rfl

end Moving

section Stacks

variable {p : Program} {stack stack' : List Spot} {d q : Nat} {g : Guard} {b : Bubble}
  {cause : Failure} {source : Int}

theorem not_free {o : Outline} (finishing : g.phase = some .finishing)
    (pending : g.pending = some (.failure cause source)) : ¬ Spot.Free o ⟨q, .guard g⟩ := by
  intro free
  have toll := free cause source pending
  simp [Spot.toll, finishing, pending] at toll

theorem Flow.after (flow : Flow p stack stack') (lies : spotAt stack d = some ⟨q, .guard g⟩)
    (finishing : g.phase = some .finishing) (pending : g.pending = some (.failure cause source)) :
    ∃ g', spotAt stack' d = some ⟨q, .guard g'⟩ ∧ (g'.pending = g.pending ∨ ∃ n v ceiling crosses,
      g'.pending = some (.command (some ((n : Nat) : Int)) ceiling crosses) ∧ p.Does n v ∧
        v.reach?.isSome = true) := by
  cases flow with
  | leaves free blank =>
    rcases spotAt_split lies with stays | ⟨_, mem⟩
    · exact ⟨g, spotAt_append stays, .inl rfl⟩
    · exact absurd (free _ mem) (not_free finishing pending)
  | @finishes rest q' g' =>
    rcases spotAt_cases lies with stays | ⟨rfl, same⟩
    · exact ⟨g, spotAt_cons stays, .inl rfl⟩
    · cases same
      exact ⟨g.finishing, spotAt_top, .inl rfl⟩
  | @waits gone rest q' n g₁ g₂ v ceiling crosses free running held verb leaves =>
    rcases spotAt_split lies with stays | ⟨_, mem⟩
    · rcases spotAt_cases stays with below | ⟨rfl, same⟩
      · exact ⟨g, spotAt_cons below, .inl rfl⟩
      · cases same
        exact ⟨g₂, spotAt_top, .inr ⟨n, v, ceiling, crosses, held, verb, leaves⟩⟩
    · exact absurd (free _ mem) (not_free finishing pending)

theorem Flow.before (flow : Flow p stack stack') (lies : spotAt stack' d = some ⟨q, .guard g⟩)
    (pending : g.pending = some b) :
    (∃ g₀, spotAt stack d = some ⟨q, .guard g₀⟩ ∧ g₀.pending = some b ∧
      (g₀.phase = some .finishing → g.phase = some .finishing)) ∨
    ∃ n v ceiling crosses, b = .command (some ((n : Nat) : Int)) ceiling crosses ∧ p.Does n v ∧
      v.reach?.isSome = true := by
  cases flow with
  | leaves free blank =>
    rcases spotAt_split lies with stays | ⟨_, mem⟩
    · exact .inl ⟨g, spotAt_append stays, pending, id⟩
    · cases (blank _ mem).symm.trans pending
  | @finishes rest q' g' =>
    rcases spotAt_cases lies with stays | ⟨rfl, same⟩
    · exact .inl ⟨g, spotAt_cons stays, pending, id⟩
    · cases same
      exact .inl ⟨g', spotAt_top, pending, fun _ => rfl⟩
  | @waits gone rest q' n g₁ g₂ v ceiling crosses free running held verb leaves =>
    rcases spotAt_cases lies with stays | ⟨_, same⟩
    · exact .inl ⟨g, spotAt_append (spotAt_cons stays), pending, id⟩
    · cases same
      exact .inr ⟨n, v, ceiling, crosses, Option.some.inj (pending.symm.trans held), verb, leaves⟩

end Stacks

/-- What becomes of the guard at the place `q` that a failure comes to; the run goes on at
`next`. -/
inductive Guard.Receives (o : Outline) (q : Nat) (cause : Failure) (source : Int)
    (next : Option Nat) (g : Guard) : Guard → Prop
  | catches {name finallyAt j last} (block : o.Spans q (.guard name (some j) finallyAt) last)
      (sent : next = some j) : Receives o q cause source next g g.catching
  | finishes : Receives o q cause source next g (g.finishing.holding (.failure cause source))
  | ends {name catchAt finallyAt last} (block : o.Spans q (.guard name catchAt finallyAt) last)
      (sent : next = some last) :
      Receives o q cause source next g (g.holding (.failure cause source))

theorem Control.Falls.stopped {free : Spot → Prop} {k k' : Control} (falls : Falls free k k') :
    k'.stopped = k.stopped := by
  induction falls with
  | refl => rfl
  | block _ _ _ ih => exact ih
  | call _ _ _ ih => exact ih

theorem Control.Routed.receives {o : Outline} {cause : Failure} {source : Int} {k k' : Control}
    (routed : Routed o cause source k (.ok true) k') :
    ∃ gone q g g' rest, k.spots = gone ++ ⟨q, .guard g⟩ :: rest ∧
      k'.spots = ⟨q, .guard g'⟩ :: rest ∧
      g.Receives o q cause source k'.branch g' ∧ k'.stopped = k.stopped := by
  have whole {free free' : Spot → Prop} {k₁ k₂ : Control} {s : Spot} {rest : List Spot}
      (first : Falls free k k₁) (second : Falls free' k₁ k₂) (top : k₂.Top s rest) :
      ∃ gone, k.spots = gone ++ s :: (k₂.withBlocks rest).spots := by
    obtain ⟨gone, split, _⟩ := Falls.spots first
    obtain ⟨more, split', _⟩ := Falls.spots second
    exact ⟨gone ++ more, by rw [split, split', spots_cons top, append_assoc]⟩
  cases routed with
  | @spent k₁ place last g rest name catchAt finallyAt _ falls top listens spent block =>
    obtain ⟨gone, split⟩ := whole falls (@Falls.refl (fun _ => True) k₁) top
    exact ⟨gone, place, g, _, _, split, rfl, .ends block rfl, falls.stopped⟩
  | offered _ falls _ _ taken =>
    generalize same : Except.ok true = x at taken
    cases taken with
    | caught further top block fresh =>
      obtain ⟨gone, split⟩ := whole falls further top
      exact ⟨gone, _, _, _, _, split, rfl, .catches block rfl, further.stopped.trans falls.stopped⟩
    | held further top block owed =>
      obtain ⟨gone, split⟩ := whole falls further top
      exact ⟨gone, _, _, _, _, split, rfl, .finishes, further.stopped.trans falls.stopped⟩
    | lost | broke => cases same

section Ends

variable {p : Program} {m m' : Machine} {i : Nat} {c : Command} {r : Reply Unit}

theorem Poised.at_end [p.Faithful] (poised : Poised p m.control i) (has : p.Has i c)
    (verb : c.verb? = some .endTry) (sourced : ∀ s ∈ m.control.spots, s.Sourced p)
    (dispatched : Dispatched p c m r m') :
    ∃ q g rest, m.control.Top ⟨q, .guard g⟩ rest ∧
      (∀ cause source, g.pending = some (.failure cause source) →
        r = .error (cause.locate m.here) ∧ m'.control.spots = (m.control.withBlocks rest).spots) ∧
      ((∀ cause source, g.pending ≠ some (.failure cause source)) → r = .ok ()) := by
  have at_verb := verbAt_of_at has verb
  have inside := poised.inside_of_asks at_verb rfl
  obtain ⟨q, form, owned, block, closing⟩ := block?_closing p.found at_verb rfl
  have ended := block.ended p.found
  cases form with
  | cond _ _ | loop _ | function _ _ => cases closing
  | guard name catchAt finallyAt =>
    obtain ⟨g, rest, top⟩ := inside.guard_top block ended.around
    refine ⟨q, g, rest, top, ?_⟩
    obtain ⟨r', rfl, performed⟩ := dispatched.performs verb
    have idle : { m with resume := none } = m := by rw [← show m.resume = none from inside.idle]
    rw [idle] at performed
    obtain ⟨n, control, ran⟩ := ran_endTry inside.here owned top performed
    constructor
    · intro cause source pending
      rw [pending] at ran
      obtain ⟨rfl, rfl⟩ := ran_throw (ran_log_bind ran)
      refine ⟨?_, congrArg Control.spots control⟩
      rw [← show n.here = m.here from congrArg Control.here control]
      rfl
    · intro calm
      cases pending : g.pending with
      | none =>
        rw [pending] at ran
        obtain ⟨rfl, rfl⟩ := ran_pure ran
        rfl
      | some b =>
        cases b with
        | failure cause source => exact absurd pending (calm cause source)
        | command source ceiling crosses =>
          rw [pending] at ran
          have mem : ⟨q, .guard g⟩ ∈ m.control.spots := by rw [spots_cons top]; exact mem_cons_self
          obtain ⟨s, _, rfl, leaves, _⟩ := sourced _ mem source ceiling crosses pending
          have bound := lt_length_of_verbAt leaves
          have fits : n.control.Fits p.outline := by rw [control]; exact inside.fits_below top
          rcases ran_release_command fits ran with ⟨rfl, _⟩ | ⟨_, ⟨_, _, _, rfl, _⟩ | ⟨nowhere, _⟩⟩
          · rfl
          · rfl
          · exact absurd (nowhere s rfl) (by omega)

end Ends

def AtEnd (p : Program) (k : Control) (d q : Nat) : Prop :=
  k.spots.length = d + 1 ∧ k.stopped = false ∧ ∃ name catchAt finallyAt last,
    p.Spans q (.guard name catchAt finallyAt) last ∧ k.branch = some last

/-- Commands that wait are such that leave blocks, and errors wait for the end of a last segment or
are about to go on. -/
structure Steady (p : Program) (k : Control) : Prop where
  sourced : ∀ s ∈ k.spots, s.Sourced p
  waiting : ∀ d q g cause source, spotAt k.spots d = some ⟨q, .guard g⟩ →
    g.pending = some (.failure cause source) →
    g.phase = some .finishing ∨ AtEnd p k d q

section Turns

variable {p : Program} {m m₁ m₂ m' : Machine} {i d q : Nat} {c : Command} {v : Verdict}
  {r : Reply Unit} {g : Guard} {cause : Failure} {source : Int}

theorem Fetched.at_end [p.Ready] (placed : Placed p m.control) (steady : Steady p m.control)
    (fetched : Fetched p m i c m₁) (dispatched : Dispatched p c m₁ r m₂)
    (lies : spotAt m.control.spots d = some ⟨q, .guard g⟩)
    (pending : g.pending = some (.failure cause source)) (top : m.control.spots.length = d + 1)
    (verb : p.Does i .endTry) :
    r = .error (cause.locate m₁.here) ∧ m₂.control.spots.length = d := by
  obtain ⟨poised, there, control⟩ := fetched.poised placed
  have own : c.verb? = some .endTry := verb_of_at there verb
  have same : m₁.control.spots = m.control.spots := by rw [control]; rfl
  obtain ⟨q', g', rest, blocks, rethrown, _⟩ := poised.at_end there own
    (by rw [same]; exact steady.sourced) dispatched
  have spots := spots_cons blocks
  rw [← same, spots] at lies top
  obtain rfl : d = (m₁.control.withBlocks rest).spots.length := by rw [length_cons] at top; omega
  cases Option.some.inj (spotAt_top.symm.trans lies)
  obtain ⟨rfl, left⟩ := rethrown cause source pending
  exact ⟨rfl, by rw [left]⟩

theorem AtEnd.verb [p.Ready] (placed : Placed p m.control) (fetched : Fetched p m i c m₁)
    (ends : AtEnd p m.control d q) : p.Does i .endTry := by
  obtain ⟨_, _, _, _, _, last, block, branch⟩ := ends
  have closed : p.Does last .endTry := (block.ended p.found).closed
  rwa [fetched.branch placed branch closed]

section

variable [p.Ready] (placed : Placed p m.control) (steady : Steady p m.control)
  (fetched : Fetched p m i c m₁) (dispatched : Dispatched p c m₁ (.ok ()) m₂)

include placed steady fetched dispatched

theorem Fetched.finishing (lies : m.control.Lies d ⟨q, .guard g⟩)
    (pending : g.pending = some (.failure cause source)) : g.phase = some .finishing := by
  rcases steady.waiting d q g cause source lies pending with finishing | ends
  · exact finishing
  · have verb := ends.verb placed fetched
    cases (fetched.at_end placed steady dispatched lies pending ends.1 verb).1

theorem Fetched.flow : Flow p m.control.spots m₂.control.spots := by
  obtain ⟨poised, there, control⟩ := fetched.poised placed
  have same : m₁.control.spots = m.control.spots := by rw [control]; rfl
  rw [← same]
  cases dispatched.acted poised.toGoing.fits poised.here there with
  | host _ unchanged => rw [unchanged]; exact .refl
  | moves verb move => exact poised.flows verb (by rw [same]; exact steady.sourced) move

end

theorem sourced_iff {k : Control} : (∀ s ∈ k.spots, s.Sourced p) ↔ ∀ d q g source ceiling crosses,
    spotAt k.spots d = some ⟨q, .guard g⟩ → g.pending = some (.command source ceiling crosses) →
    ∃ n v, source = some ((n : Nat) : Int) ∧ p.Does n v ∧ v.reach?.isSome = true := by
  constructor
  · intro sourced d q g source ceiling crosses lies pending
    exact sourced _ (mem_of_spotAt lies) source ceiling crosses pending
  · rintro known ⟨q, mark⟩ mem source ceiling crosses pending
    obtain ⟨d, _, lies⟩ := @exists_spotAt k.spots [] ⟨q, mark⟩ mem
    rw [append_nil] at lies
    cases mark with
    | guard g => exact known d q g source ceiling crosses lies pending
    | cond _ | loop _ _ => cases pending

theorem Turn.steady [p.Ready] (placed : Placed p m.control) (steady : Steady p m.control)
    (turn : Turn p m i v m') (further : v.ending? = none) : Steady p m'.control := by
  have known := sourced_iff.mp steady.sourced
  obtain ⟨c, m₁, r, m₂, fetched, dispatched, concludes⟩ := turn.concludes placed
  cases concludes with
  | ends ending _ => simp [further] at ending
  | done same =>
    rw [same]
    have flow := fetched.flow placed steady dispatched
    refine ⟨sourced_iff.mpr fun d q g source ceiling crosses lies pending => ?_,
      fun d q g cause source lies pending => .inl ?_⟩
    · rcases flow.before lies pending with
        ⟨g₀, lies₀, pending₀, _⟩ | ⟨n, w, _, _, same, verb, leaves⟩
      · exact known d q g₀ source ceiling crosses lies₀ pending₀
      · cases same
        exact ⟨n, w, rfl, verb, leaves⟩
    · rcases flow.before lies pending with ⟨g₀, lies₀, pending₀, keeps⟩ | ⟨_, _, _, _, wrong, _⟩
      · exact keeps (fetched.finishing placed steady dispatched lies₀ pending₀)
      · cases wrong
  | taken rooted routed =>
    obtain ⟨poised, there, control⟩ := fetched.poised placed
    have same : m₁.control.spots = m.control.spots := by rw [control]; rfl
    have slip : Slip p.outline m₁.control.spots m₂.control.spots := dispatched.stirs poised there
    obtain ⟨gone, q', g₁, g₂, rest, before, after, receives, stopped⟩ := routed.receives
    -- the guards below the one that takes the error were there before the turn
    have below {d q : Nat} {g : Guard} (stays : spotAt rest d = some ⟨q, .guard g⟩) :
        spotAt m₂.control.spots d = some ⟨q, .guard g⟩ ∧
        spotAt m.control.spots d = some ⟨q, .guard g⟩ := by
      have lies₂ : spotAt m₂.control.spots d = some ⟨q, .guard g⟩ := by
        rw [before]
        exact spotAt_append (spotAt_cons stays)
      exact ⟨lies₂, by rw [← same]; exact slip.spotAt_before lies₂⟩
    refine ⟨sourced_iff.mpr fun d q g source ceiling crosses lies pending => ?_,
      fun d q g cause source lies pending => ?_⟩
    · rw [after] at lies
      rcases spotAt_cases lies with stays | ⟨_, head⟩
      · exact known d q g source ceiling crosses (below stays).2 pending
      · cases head
        cases receives <;> cases pending
    · rw [after] at lies
      rcases spotAt_cases lies with stays | ⟨rfl, head⟩
      · obtain ⟨lies₂, lies₀⟩ := below stays
        rcases steady.waiting d q g cause source lies₀ pending with finishing | ends
        · exact .inl finishing
        · have gone := (fetched.at_end placed steady dispatched lies₀ pending ends.1
            (ends.verb placed fetched)).2
          have := lt_of_spotAt lies₂
          omega
      · cases head
        cases receives with
        | catches _ _ => cases pending
        | finishes => exact .inl rfl
        | ends block sent =>
          refine .inr ⟨?_, stopped.trans rooted.running, _, _, _, _, block, sent⟩
          rw [after]
          rfl

theorem Reached.steady [p.Ready] (reached : Reached p m) : Steady p m.control := by
  induction reached with
  | start vars logs =>
    exact ⟨fun s mem => absurd mem not_mem_nil,
      fun d q g cause source lies _ => absurd (lt_of_spotAt lies) (Nat.not_lt_zero d)⟩
  | turn before turn further ih => exact turn.steady before.placed ih further

end Turns

end Runbook
