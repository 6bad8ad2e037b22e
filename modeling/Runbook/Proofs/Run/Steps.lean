import Runbook.Proofs.Run.Placed

namespace Runbook

open Control List

section Waiting

variable {p : Program} {k k' : Control} {q : Nat} {source : Option Int} {ceiling crosses : Bool}
  {s : Spot} {place last j : Nat} {rest : List Spot} {function catchAt finallyAt : Option Nat}
  {g : Guard} {name : String}

theorem fits_isLoop {o : Outline} {kind : LoopKind} (fits : s.Fits o) (same : s.place = place)
    (block : o.Spans place (.loop kind) last) : s.isLoop = true := by
  subst same
  cases fits with
  | cond other _ => cases block.symm.trans other
  | loop _ => rfl
  | guard other => cases block.symm.trans other

theorem Leaving.outward [p.Faithful] {passed outer : List Tier} {t : Tier} {above : List Spot}
    (seated : Seated p k.call q) (leaving : Leaving p k.call.function q source ceiling crosses)
    (tiers : k.tiers = passed ++ t :: outer) (inside : crosses = false → passed = [])
    (blocks : t.blocks = above ++ s :: rest) (guard : s.isLoop = false)
    (gone : ∀ x ∈ above, ceiling = true → x.isLoop = false) :
    Leaving p t.function s.place source ceiling crosses := by
  cases leaving with
  | @exit n l last v kind verb exit mem loop =>
    obtain rfl := inside rfl
    obtain ⟨rfl, _⟩ := cons.inj tiers
    obtain ⟨x, present, same⟩ := seated.covers.mem mem loop rfl
    have is_loop := fits_isLoop (seated.covers.fits x present) same loop
    -- the loop is open, and it is neither the guard nor inside of it
    have outside : x ∈ rest := by
      rw [blocks] at present
      rcases mem_append.mp present with above_it | below
      · rw [gone x above_it rfl] at is_loop
        cases is_loop
      · rcases mem_cons.mp below with rfl | below
        · rw [guard] at is_loop
          cases is_loop
        · exact below
    have tail := seated.tail blocks
    refine .exit verb exit ?_ loop
    rw [← same]
    exact tail.mem_within outside
  | back verb which own owned =>
    obtain rfl := inside rfl
    obtain ⟨rfl, _⟩ := cons.inj tiers
    exact .back verb which own owned
  | exitTest verb => exact .exitTest verb

theorem Guard.Ok.holding (ok : g.Ok p function q)
    (leaving : Leaving p function q source ceiling crosses) :
    (g.holding (.command source ceiling crosses)).Ok p function q := by
  refine ⟨ok.listens, ok.finished, ?_⟩
  intro source' ceiling' crosses' same
  cases same
  exact leaving

theorem Guard.Ok.failing (ok : g.Ok p function q) {cause : Failure} {source : Int} :
    (g.holding (.failure cause source)).Ok p function q :=
  ⟨ok.listens, ok.finished, fun _ _ _ same => by cases same⟩

theorem Guard.Ok.finishing (ok : g.Ok p function q)
    (block : p.Spans q (.guard name catchAt (some j)) last) : g.finishing.Ok p function q := by
  refine ⟨?_, fun _ => rfl, ok.leaving⟩
  intro name' catchAt' finallyAt' last' other
  cases block.symm.trans other
  simp [Guard.finishing]

theorem Guard.Ok.catching (block : p.Spans q (.guard name (some j) finallyAt) last) :
    g.catching.Ok p function q := by
  refine ⟨?_, nofun, nofun⟩
  intro name' catchAt' finallyAt' last' other
  cases block.symm.trans other
  simp [Guard.catching]

theorem spot_ok (ok : g.Ok p function place) : Spot.Ok p function ⟨place, .guard g⟩ := by
  intro g' same
  cases same
  exact ok

theorem sent_of_finaled {i : Nat} (block : p.Spans place (.guard name catchAt finallyAt) last)
    (finaled : g.finaled = true) (late : ∀ j, finallyAt = some j → j ≤ i) :
    Spot.Sent p i ⟨place, .guard g⟩ := by
  intro g' _ _ j _ same other
  cases same
  cases block.symm.trans other
  exact ⟨fun _ => finaled, fun _ => late j rfl⟩

theorem finally_le [p.Faithful] (block : p.Spans place (.guard name catchAt finallyAt) last) :
    ∀ j, finallyAt = some j → j ≤ last := by
  rintro j rfl
  exact Nat.le_of_lt (block.finallyPart p.found).before

theorem Rooted.branch {g' : Guard} [p.Faithful] (rooted : Rooted p k)
    (top : k.Top ⟨place, .guard g⟩ rest)
    (block : p.Spans place (.guard name catchAt finallyAt) last)
    (chain : opens p.commands j = place :: opens p.commands place) (bound : j ≤ last)
    (becomes : g.Ok p k.call.function place → g'.Ok p k.call.function place ∧
      Spot.Sent p j ⟨place, .guard g'⟩) :
    Placed p ((k.withBlocks (⟨place, .guard g'⟩ :: rest)).goto j) := by
  obtain ⟨q, seated⟩ := rooted.seated
  obtain ⟨ok, sent⟩ := becomes (seated.sound ⟨place, .guard g⟩ top.mem g rfl)
  have tail := seated.tail (show _ = [] ++ ⟨place, .guard g⟩ :: rest from top)
  have limit := (block.ended p.found).bound
  exact ((rooted.toAlive.withBlocks _).goto j).branch rfl (by omega)
    (@Seated.inside p _ last _ rest j ⟨place, .guard g'⟩ _ tail block chain (by omega)
      (.guard block) (spot_ok ok) sent)

theorem Waits.placed [p.Faithful] (alive : Alive p k) (seated : Seated p k.call q)
    (leaving : Leaving p k.call.function q source ceiling crosses)
    (waits : Waits p.outline k source ceiling crosses k') : Placed p k' := by
  obtain ⟨tiers, blocks, inside, left, gone, detains⟩ := waits
  have rooted := Rooted.falls ⟨alive, q, seated⟩ (falls_unwound tiers blocks left gone)
  have leaving := leaving.outward seated tiers inside blocks rfl fun x mem bounded =>
    (gone x mem).1 bounded
  cases detains with
  | replaces block running _ =>
    exact rooted.branch rfl block (block.ended p.found).around (Nat.le_refl _) fun ok =>
      ⟨ok.holding leaving, sent_of_finaled block (ok.finished running) (finally_le block)⟩
  | finishes block _ =>
    obtain ⟨_, before, _, chain, _⟩ := block.finallyPart p.found
    exact rooted.branch rfl block chain (Nat.le_of_lt before) fun ok =>
      ⟨(ok.finishing block).holding leaving, sent_of_finaled block rfl (by simp)⟩

end Waiting

section Failing

variable {p : Program} {k k' : Control} {cause : Failure} {source : Int}

theorem sent_of_paid {place last : Nat} {g g' : Guard} {name : String}
    {catchAt finallyAt : Option Nat} [p.Faithful]
    (block : p.Spans place (.guard name catchAt finallyAt) last)
    (paid : Paid p.outline ⟨place, .guard g⟩) (kept : g'.finaled = g.finaled) :
    Spot.Sent p last ⟨place, .guard g'⟩ := by
  intro g'' _ _ j _ same other
  cases same
  cases block.symm.trans other
  refine ⟨fun _ => ?_, fun _ => finally_le block j rfl⟩
  rw [kept]
  simpa [Paid, Spot.owesFinally, block] using paid

theorem Taken.placed [p.Faithful] (rooted : Rooted p k)
    (taken : Taken p.outline cause source k (.ok true) k') : Placed p k' := by
  cases taken with
  | @caught k₁ place last j g rest name finallyAt falls top block fresh =>
    obtain ⟨_, before, _, chain, _⟩ := block.catchPart p.found
    refine (rooted.falls falls).branch top block chain (by omega) fun _ => ⟨.catching block, ?_⟩
    intro g' name' catchAt' n last' mark other
    cases mark
    refine ⟨fun earlier => ?_, nofun⟩
    -- the last segment begins behind the catching one
    cases block.symm.trans other
    have ordered := (block.ended p.found).grown.ordered
    simp only [Form.parts, Option.map_some, Option.toList_some, cons_append, nil_append, map_cons,
      map_nil, pairwise_cons, mem_cons] at ordered
    have := ordered.1 n (.inl rfl)
    omega
  | @held k₁ place last j g rest name catchAt falls top block owed =>
    obtain ⟨_, before, _, chain, _⟩ := block.finallyPart p.found
    exact (rooted.falls falls).branch top block chain (by omega) fun ok =>
      ⟨(ok.finishing block).failing, sent_of_finaled block rfl (by simp)⟩

theorem Routed.placed [p.Faithful] (rooted : Rooted p k)
    (routed : Routed p.outline cause source k (.ok true) k') : Placed p k' := by
  cases routed with
  | @spent k₁ place last g rest name catchAt finallyAt mild falls top listens spent block =>
    have paid : Paid p.outline ⟨place, .guard g⟩ := by
      simp only [Spot.isSpent, Bool.and_eq_true, Bool.not_eq_true'] at spent
      exact spent.2
    exact (rooted.falls falls).branch top block (block.ended p.found).around
      (Nat.le_refl last) fun ok =>
      ⟨ok.failing, sent_of_paid block paid rfl⟩
  | offered mild falls listens unspent taken => exact Taken.placed (rooted.falls falls) taken

end Failing

def Lands (p : Program) (r : Except Failure Unit) (k : Control) : Prop :=
  match r with
  | .ok _ => Placed p k
  | .error e => e.isFatal = false → Rooted p k

section Moving

variable {p : Program} {k k' : Control} {i : Nat} {v : Verb} {r : Reply Unit}

theorem forget_resume (idle : k.resume = none) : { k with resume := none } = k := by
  rw [← idle]

theorem resuming_of_idle (idle : k.resume = none) : k.resuming = false := by
  simp [Control.resuming, idle]

theorem role_exit (exit : v.role = .exit) : v = .again ∨ v = .leave := by
  cases v <;> simp_all [Verb.role]

structure Inside (p : Program) (k : Control) (i : Nat) : Prop extends Alive p k where
  here : k.here = some (i : Int)
  branch : k.branch = none
  seated : Seated p k.call i

theorem Inside.rooted (inside : Inside p k i) : Rooted p k := ⟨inside.toAlive, i, inside.seated⟩

theorem Poised.inside (poised : Poised p k i) (idle : k.resume = none)
    (going : k.call.returning = false) (seated : Seated p k.call i) : Inside p k i :=
  ⟨⟨poised.running, poised.started, idle, going, poised.chain⟩, poised.here, poised.branch, seated⟩

theorem Poised.inside_of_host [p.Faithful] (poised : Poised p k i)
    (host : verbAt p.commands i = none) : Inside p k i := by
  cases poised.stance with
  | inside idle going seated => exact poised.inside idle going seated
  | round _ _ _ fits _ =>
    cases fits with
    | loop block => cases host.symm.trans (block.ended p.found).grown.opened
  | entry _ _ _ _ block => cases host.symm.trans (block.ended p.found).grown.opened
  | resume _ _ _ leaving _ =>
    obtain ⟨v, verb⟩ := leaving.verb
    cases host.symm.trans verb
  | back _ _ source own _ _ => cases host.symm.trans (poised.chain.verb_back own source)

section Conditions

variable {place last : Nat} {c : Cond} {rest : List Spot} {elseIfs : List Nat} {orElse : Option Nat}

theorem sent_cond : Spot.Sent p i ⟨place, .cond c⟩ := by
  intro g _ _ _ _ mark
  cases mark

theorem ok_cond {function : Option Nat} : Spot.Ok p function ⟨place, .cond c⟩ := by
  intro g mark
  cases mark

theorem Chooses.lands [p.Faithful] (alive : Alive p k) (here : k.Here i) (branch : k.branch = none)
    (bound : i < p.commands.length) (block : p.Spans place (.cond elseIfs orElse) last)
    (left : ∀ j ∈ c.left, j ∈ elseIfs) (tail : Seated p { k.call with blocks := rest } place)
    (next : opens p.commands (i + 1) = place :: opens p.commands place) (within_block : i ≤ last)
    (chooses : Chooses p.outline k place c rest r k') : Lands p r k' := by
  have ended := block.ended p.found
  have limit := ended.bound
  have seat {j : Nat} {c' : Cond} (chain : opens p.commands j = place :: opens p.commands place)
      (inner : j ≤ last + 1) (fewer : ∀ n ∈ c'.left, n ∈ elseIfs) :
      Seated p { k.call with blocks := ⟨place, .cond c'⟩ :: rest } j :=
    @Seated.inside p k.call last _ rest j ⟨place, .cond c'⟩ _ tail block chain inner
      (.cond block fewer) ok_cond sent_cond
  have part {j : Nat} {w : Verb} (mem : (j, w) ∈ (Form.cond elseIfs orElse).parts) :
      opens p.commands j = place :: opens p.commands place ∧ j < last := by
    obtain ⟨_, before, _, chain, _⟩ := block.part p.found mem
    exact ⟨chain, before⟩
  cases chooses with
  | fail e => exact fun _ => ⟨alive.withBlocks _, i + 1, seat next (by omega) left⟩
  | holds => exact (alive.withBlocks _).next here branch bound (seat next (by omega) left)
  | @next first others split =>
    have mem : first ∈ elseIfs := left first (by rw [split]; exact mem_cons_self)
    obtain ⟨chain, before⟩ := part (j := first) (w := .elseIf) (by simp [Form.parts, mem])
    exact ((alive.withBlocks _).goto first).branch rfl (by omega)
      (seat chain (by omega) fun n inside =>
        left n (by rw [split]; exact mem_cons_of_mem first inside))
  | last none other =>
    cases block.symm.trans other
    cases orElse with
    | none =>
      exact ((alive.withBlocks _).goto last).branch rfl limit (seat ended.around (by omega) left)
    | some j =>
      obtain ⟨chain, before⟩ := part (j := j) (w := .orElse) (by simp [Form.parts])
      exact ((alive.withBlocks _).goto j).branch rfl (by omega) (seat chain (by omega) left)

end Conditions

end Moving

end Runbook
