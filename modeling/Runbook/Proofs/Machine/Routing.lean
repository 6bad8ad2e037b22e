import Runbook.Proofs.Machine.Bubbling
import Runbook.Proofs.Machine.Verbs

namespace Runbook

open List

namespace Control

/-- Blocks that are free to go are left, innermost first, and a call once it has none. -/
inductive Falls (free : Spot → Prop) : Control → Control → Prop
  | refl {k} : Falls free k k
  | block {k : Control} {k' s rest} (top : k.Top s rest) (goes : free s)
      (next : Falls free (k.withBlocks rest) k') : Falls free k k'
  | call {k : Control} {k' below outer} (empty : k.call.blocks = [])
      (around : k.outer = below :: outer)
      (next : Falls free { k with call := below, outer := outer } k') : Falls free k k'

variable {free : Spot → Prop} {k : Control} {rest : List Spot}

theorem Falls.trans {k₁ k₂ k₃ : Control} (first : Falls free k₁ k₂) (second : Falls free k₂ k₃) :
    Falls free k₁ k₃ := by
  induction first with
  | refl => exact second
  | block top goes _ ih => exact .block top goes (ih second)
  | call empty around _ ih => exact .call empty around (ih second)

theorem Falls.mono {free' : Spot → Prop} (weaker : ∀ s, free s → free' s) {k' : Control}
    (falls : Falls free k k') : Falls free' k k' := by
  induction falls with
  | refl => exact .refl
  | block top goes _ ih => exact .block top (weaker _ goes) ih
  | call empty around _ ih => exact .call empty around ih

theorem falls_blocks {gone : List Spot} (blocks : k.call.blocks = gone ++ rest)
    (goes : ∀ s ∈ gone, free s) : Falls free k (k.withBlocks rest) := by
  induction gone generalizing k with
  | nil =>
    rw [nil_append] at blocks
    rw [← blocks, withBlocks_self]
    exact .refl
  | cons s gone ih =>
    have next := @ih (k.withBlocks (gone ++ rest)) rfl fun x mem => goes x (mem_cons_of_mem s mem)
    exact .block blocks (goes s mem_cons_self) next

theorem spots_cons {s : Spot} (top : k.Top s rest) : k.spots = s :: (k.withBlocks rest).spots := by
  simp [spots, tiers, withBlocks, top]

theorem spots_call {below : Tier} {outer : List Tier} (around : k.outer = below :: outer) :
    k.spots = k.call.blocks ++ { k with call := below, outer := outer : Control }.spots := by
  simp [spots, tiers, around]

def Listens (k : Control) (s : Spot) : Prop := (∃ rest, k.Top s rest) ∧ s.intercepts = true

/-- A guard that was asked by a failure and neither caught it nor had a last segment to run is
left. -/
def Paid (o : Outline) (s : Spot) : Prop := s.owesFinally o = false

def Deaf (s : Spot) : Prop := s.intercepts = false

inductive Taken (o : Outline) (cause : Failure) (source : Int) (k : Control) :
    Except Failure Bool → Control → Prop
  | caught {k₁ : Control} {place last j} {g : Guard} {rest name finallyAt}
      (falls : Falls (Paid o) k k₁) (top : k₁.call.blocks = ⟨place, .guard g⟩ :: rest)
      (block : o.Spans place (.guard name (some j) finallyAt) last) (fresh : g.caught = false) :
      Taken o cause source k (.ok true)
        ((k₁.withBlocks (⟨place, .guard g.catching⟩ :: rest)).goto j)
  | held {k₁ : Control} {place last j} {g : Guard} {rest name catchAt} (falls : Falls (Paid o) k k₁)
      (top : k₁.call.blocks = ⟨place, .guard g⟩ :: rest)
      (block : o.Spans place (.guard name catchAt (some j)) last) (owed : g.finaled = false) :
      Taken o cause source k (.ok true)
        ((k₁.withBlocks
          (⟨place, .guard (g.finishing.holding (.failure cause source))⟩ :: rest)).goto j)
  | lost {k₁ : Control} (falls : Falls (Paid o) k k₁) (empty : k₁.call.blocks = [])
      (bottom : k₁.outer = []) : Taken o cause source k (.ok false) k₁
  | broke {k₁} (falls : Falls (Paid o) k k₁) (e : Failure) (filter : OfFilter e) :
      Taken o cause source k (.error e) k₁

inductive Routed (o : Outline) (cause : Failure) (source : Int) (k : Control) :
    Except Failure Bool → Control → Prop
  | fatal (fatal : cause.isFatal = true) : Routed o cause source k (.ok false) k
  | unguarded (mild : cause.isFatal = false) (none : ∀ s ∈ k.spots, Deaf s) :
      Routed o cause source k (.ok false) k
  | spent {k₁ : Control} {place last} {g : Guard} {rest name catchAt finallyAt}
      (mild : cause.isFatal = false) (falls : Falls Deaf k k₁)
      (top : k₁.call.blocks = ⟨place, .guard g⟩ :: rest) (listens : g.phase.isSome = true)
      (spent : Spot.isSpent o ⟨place, .guard g⟩ = true)
      (block : o.Spans place (.guard name catchAt finallyAt) last) :
      Routed o cause source k (.ok true)
        ((k₁.withBlocks (⟨place, .guard (g.holding (.failure cause source))⟩ :: rest)).goto last)
  | offered {k₁ k₂} {s : Spot} {r} (mild : cause.isFatal = false) (falls : Falls Deaf k k₁)
      (listens : Listens k₁ s) (unspent : s.isSpent o = false)
      (taken : Taken o cause source k₁ r k₂) : Routed o cause source k r k₂

end Control

section Layers

open Runbook.Action Control

variable {p : Program} {m m' : Machine} {gone : List StackLayer} {f : Frame} {text : String}

theorem Machine.Drops.falls {free : Spot → Prop} (drops : m.Drops gone m')
    (goes : ∀ f, .block f ∈ gone → free f.spot) : Falls free m.control m'.control := by
  induction gone generalizing m with
  | nil =>
    obtain ⟨call, outer⟩ := cons.inj (calls_of_layers drops.layers)
    have control : m'.control = m.control := by
      simp only [Machine.control, call, outer, drops.here, drops.started, drops.branch,
        drops.stopped, drops.resume]
    rw [control]
    exact .refl
  | cons x gone ih =>
    have further {n : Machine} (first : m.Drops [x] n) : Falls free n.control m'.control :=
      ih (first.cancel drops) fun f mem => goes f (mem_cons_of_mem x mem)
    have whole := drops.layers
    cases top : m.call.blocks with
    | cons f rest =>
      obtain ⟨rfl, _⟩ := cons.inj ((layers_block top).symm.trans whole)
      exact .block (top_spot top) (goes f mem_cons_self) (further (.block top m.vars))
    | nil =>
      have bare : m.call.layers = [.call { m.call with blocks := [] }] := by
        rw [Call.layers, top]; rfl
      cases around : m.outer with
      | nil =>
        rw [layers_alone around, bare] at whole
        exact absurd (append_eq_nil_iff.mp (cons.inj whole).2.symm).2 layers_ne_nil
      | cons next outer =>
        have first := Machine.Drops.call around m.vars
        rw [bare] at first
        obtain ⟨rfl, _⟩ := cons.inj (first.layers.symm.trans whole)
        have around : m.control.outer = next.tier :: outer.map Call.tier := by
          rw [control_outer, around]; rfl
        exact .call (by rw [control_blocks, top]; rfl) around (further first)

theorem owesFinally_iff : f.spot.owesFinally p.outline = (f.finally? p).isSome := by
  obtain ⟨place, saved, body⟩ := f
  cases body with
  | cond c | loop l => rfl
  | guard g =>
    unfold Spot.owesFinally Frame.finally? Frame.spot Body.mark
    cases p.outline.block? place with
    | none => rfl
    | some b =>
      cases b with
      | partner owner => rfl
      | opener form last =>
        cases form with
        | guard name catchAt finallyAt =>
          cases finallyAt <;> cases finaled : g.finaled <;> simp [finaled]
        | _ => rfl

theorem paid_of_passed {vars vars' : Env} (passed : Passed p text gone vars vars') :
    ∀ f, .block f ∈ gone → Paid p.outline f.spot := by
  intro f mem
  induction passed with
  | nil => cases mem
  | block _ paid _ ih =>
    rcases mem_cons.mp mem with same | mem
    · cases same
      rw [Paid, owesFinally_iff, paid]
      rfl
    · exact ih mem
  | call _ ih =>
    rcases mem_cons.mp mem with same | mem
    · cases same
    · exact ih mem

theorem Machine.Passes.falls (passes : m.Passes p text gone m') :
    Falls (Paid p.outline) m.control m'.control :=
  passes.toDrops.falls (paid_of_passed passes.vars)

theorem Offered.taken {cause : Failure} {source : Int} {x : Reply Bool}
    (offered : Offered p cause source m x m') (strays : Strays p cause m x m') :
    Taken p.outline cause source m.control x m'.control := by
  cases offered with
  | caught passes top guard owed judged logs =>
    obtain ⟨g, name, finallyAt, last, body, fresh, block⟩ := catch?_eq_some owed
    cases guard.symm.trans body
    exact .caught passes.falls (by rw [top_spot top, Frame.spot, body]; rfl) block fresh
  | held passes top guard declines owed logs =>
    obtain ⟨g, name, catchAt, last, body, fresh, block⟩ := finally?_eq_some owed
    cases guard.symm.trans body
    exact .held passes.falls (by rw [top_spot top, Frame.spot, body]; rfl) block fresh
  | lost passes bottom empty =>
    exact .lost passes.falls (by rw [control_blocks, empty]; rfl)
      (by rw [control_outer, bottom]; rfl)
  | raised passes top owed raises =>
    obtain ⟨filter, gone, m₁, passes, control⟩ := strays _ rfl
    rw [control]
    exact .broke passes.falls _ filter

theorem Control.Fits.grounded (fits : m.control.Fits p.outline) : m.Grounded p := by
  intro f mem guard
  have fit : f.spot.Fits p.outline := by
    apply fits
    rw [Machine.spots_control]
    exact mem_map_of_mem mem
  obtain ⟨place, saved, body⟩ := f
  cases body with
  | cond c | loop l => cases guard
  | guard g =>
    cases fit with
    | guard block => exact ⟨_, _, _, _, block⟩

end Layers

namespace Action

open Control

variable {p : Program} {m m' : Machine} {failure : Failure} {x : Reply Bool}

theorem isFatal_locate (e : Failure) (place : Option Int) :
    (e.locate place).isFatal = e.isFatal := by
  cases e <;> rfl

theorem ran_route_fatal (fatal : failure.isFatal = true) (ran : Ran (route p failure) m x m') :
    x = .ok false ∧ m'.control = m.control := by
  have ran := ran_get_bind ran
  dsimp only at ran
  rw [if_pos (by rw [isFatal_locate]; exact fatal)] at ran
  obtain ⟨rfl, rfl⟩ := Prod.mk.inj ran
  exact ⟨rfl, rfl⟩

theorem ran_route [p.Faithful] (fits : m.control.Fits p.outline)
    (ran : Ran (route p failure) m x m') :
    Routed p.outline (failure.locate m.here) (m.here.getD (-1)) m.control x m'.control := by
  have grounded := fits.grounded
  rcases ran_route_parts grounded ran with ⟨logs, rfl, rfl, fatal | ⟨mild, unheard⟩⟩ |
    ⟨mild, gone, m₀, f, g, rest, unwound, deaf, top, guard, listens, which⟩
  · exact .fatal fatal
  · refine .unguarded mild fun s mem => ?_
    rw [Machine.spots_control] at mem
    obtain ⟨f, inside, rfl⟩ := mem_map.mp mem
    rw [Deaf, intercepts_spot]
    exact unheard _ (mem_frames_iff_layers.mp inside)
  have falls : Falls Deaf m.control m₀.control := unwound.toDrops.falls fun f mem => by
    rw [Deaf, intercepts_spot]
    exact deaf _ mem
  have grounded₀ := unwound.grounded grounded
  have spots : m₀.control.call.blocks = ⟨f.place, .guard g⟩ :: rest.map Frame.spot := by
    rw [top_spot top, Frame.spot, guard]
    rfl
  have spent : Spot.isSpent p.outline ⟨f.place, .guard g⟩ =
      (decide (g.phase ≠ some .trying) && !(f.finally? p).isSome) := by
    rw [← owesFinally_iff, Frame.spot, guard]
    rfl
  rcases which with ⟨late, paid, last, logs, ends, rfl, rfl⟩ | ⟨live, m₁, logs, asked, rfl⟩
  · obtain ⟨name, catchAt, finallyAt, last', block⟩ :=
      (forall_frames.mp grounded₀).1 f (top ▸ mem_cons_self) (by simp [Frame.guard?, guard])
    rw [Frame.last?, block] at ends
    cases ends
    exact .spent mild falls spots listens (by simp [spent, late, paid]) block
  · obtain ⟨offered, strays⟩ := ran_offerCalls asked rfl grounded₀
    have taken := offered.taken strays
    refine .offered mild falls ⟨⟨_, spots⟩, listens⟩ ?_ taken
    rw [spent]
    rcases live with trying | owes
    · simp [trying]
    · simp [owes]

end Action

end Runbook
