import Runbook.Proofs.Run.Jumping

/-!
How a run stands between its commands. Every call waits at the place of a call, with its blocks
open; the active one goes on at the next place, or enters a function, begins another round, goes
back, or takes up a command that waited.
-/

namespace Runbook

open Control List

inductive Chain (p : Program) : Tier → List Tier → Prop
  | bottom {t : Tier} (top : t.function = none) : Chain p t []
  | call {t below : Tier} {outer f} {b : Nat} (own : t.function = some f)
      (back : t.back = some (b : Int)) (verb : p.Does b .call) (going : below.returning = false)
      (seated : Seated p below b) (rest : Chain p below outer) : Chain p t (below :: outer)

theorem Chain.congr {p : Program} {t t' : Tier} {outer : List Tier} (chain : Chain p t outer)
    (function : t'.function = t.function) (back : t'.back = t.back) : Chain p t' outer := by
  cases chain with
  | bottom top => exact .bottom (function.trans top)
  | call own returns verb going seated rest =>
    exact .call (function.trans own) (back.trans returns) verb going seated rest

/-- How the active call stands to the place of the next command. -/
inductive Stance (p : Program) (k : Control) : Nat → Prop
  | inside {i} (idle : k.resume = none) (going : k.call.returning = false)
      (seated : Seated p k.call i) : Stance p k i
  | round {i kind complete rest} (idle : k.resume = none) (going : k.call.returning = false)
      (top : k.Top ⟨i, .loop kind complete⟩ rest)
      (fits : Spot.Fits p.outline ⟨i, .loop kind complete⟩)
      (seated : Seated p { k.call with blocks := rest } i) : Stance p k i
  | entry {f last word name} (idle : k.resume = none) (going : k.call.returning = false)
      (own : k.call.function = some f) (fresh : k.call.blocks = [])
      (block : p.Spans f (.function word name) last) : Stance p k f
  | resume {n : Nat} {q ceiling crosses} (marked : k.resume = some (n : Int))
      (going : k.call.returning = false) (seated : Seated p k.call q)
      (leaving : Leaving p k.call.function q (some (n : Int)) ceiling crosses)
      (clear : Clear p.outline ceiling (k.wayOut crosses)) : Stance p k n
  | back {b : Nat} {f q} (idle : k.resume = none) (returning : k.call.returning = true)
      (source : k.call.back = some (b : Int)) (own : k.call.function = some f)
      (seated : Seated p k.call q) (clear : Clear p.outline false [k.call.blocks]) : Stance p k b

structure Going (p : Program) (k : Control) (i : Nat) : Prop where
  running : k.stopped = false
  chain : Chain p k.call k.outer
  stance : Stance p k i

inductive Placed (p : Program) (k : Control) : Prop
  | going {i} (next : k.At i) (bound : i ≤ p.commands.length) (going : Going p k i)
  | stopped {q} (stopped : k.stopped = true) (chain : Chain p k.call k.outer)
      (seated : Seated p k.call q) (clear : Clear p.outline false (k.tiers.map Tier.blocks))

structure Alive (p : Program) (k : Control) : Prop where
  running : k.stopped = false
  started : k.started = true
  idle : k.resume = none
  going : k.call.returning = false
  chain : Chain p k.call k.outer

structure Rooted (p : Program) (k : Control) : Prop extends Alive p k where
  seated : ∃ q, Seated p k.call q

section Roots

variable {p : Program} {k k' : Control} {i : Nat} {t : Tier} {outer : List Tier}
  {free : Spot → Prop}

theorem Chain.fits (chain : Chain p t outer) : ∀ d ∈ outer, ∀ s ∈ d.blocks, s.Fits p.outline := by
  induction chain with
  | bottom _ => simp
  | call _ _ _ _ seated _ ih => exact forall_mem_cons.mpr ⟨seated.covers.fits, ih⟩

theorem fits_of_chain (chain : Chain p k.call k.outer)
    (active : ∀ s ∈ k.call.blocks, s.Fits p.outline) : k.Fits p.outline := by
  intro s mem
  obtain ⟨t, inside, present⟩ := mem_flatMap.mp mem
  rcases mem_cons.mp inside with rfl | outer
  · exact active s present
  · exact chain.fits t outer s present

theorem Going.fits (going : Going p k i) : k.Fits p.outline := by
  refine fits_of_chain going.chain ?_
  cases going.stance with
  | inside _ _ seated => exact seated.covers.fits
  | round _ _ top fits seated =>
    rw [top]
    exact forall_mem_cons.mpr ⟨fits, seated.covers.fits⟩
  | entry _ _ _ fresh _ => simp [fresh]
  | resume _ _ seated _ _ => exact seated.covers.fits
  | back _ _ _ _ seated _ => exact seated.covers.fits

theorem Alive.withBlocks (alive : Alive p k) (blocks : List Spot) : Alive p (k.withBlocks blocks) :=
  ⟨alive.running, alive.started, alive.idle, alive.going, alive.chain.congr rfl rfl⟩

theorem Alive.goto (alive : Alive p k) (place : Nat) : Alive p (k.goto place) :=
  ⟨alive.running, alive.started, alive.idle, alive.going, alive.chain⟩

theorem Alive.next (alive : Alive p k) (here : k.Here i) (branch : k.branch = none)
    (bound : i < p.commands.length) (seated : Seated p k.call (i + 1)) : Placed p k :=
  .going (.after alive.started branch here) bound
    ⟨alive.running, alive.chain, .inside alive.idle alive.going seated⟩

theorem Alive.branch (alive : Alive p k) (branch : k.branch = some i)
    (bound : i < p.commands.length) (seated : Seated p k.call i) : Placed p k :=
  .going (.branch alive.started branch) (Nat.le_of_lt bound)
    ⟨alive.running, alive.chain, .inside alive.idle alive.going seated⟩

theorem Rooted.fits (rooted : Rooted p k) : k.Fits p.outline := by
  obtain ⟨q, seated⟩ := rooted.seated
  exact fits_of_chain rooted.chain seated.covers.fits

theorem Rooted.falls [p.Faithful] (rooted : Rooted p k) (falls : Falls free k k') :
    Rooted p k' := by
  induction falls with
  | refl => exact rooted
  | @block k k' s rest top _ _ ih =>
    obtain ⟨q, seated⟩ := rooted.seated
    exact ih
      ⟨rooted.toAlive.withBlocks rest, s.place, seated.tail (show _ = [] ++ s :: rest from top)⟩
  | @call k k' below outer _ around _ ih =>
    have chain := rooted.chain
    rw [around] at chain
    cases chain with
    | call _ _ _ going seated rest =>
      exact ih ⟨⟨rooted.running, rooted.started, rooted.idle, going, rest⟩, _, seated⟩

theorem falls_unwound {passed : List Tier} {above rest : List Spot}
    (tiers : k.tiers = passed ++ t :: outer) (blocks : t.blocks = above ++ rest)
    (left : ∀ d ∈ passed, ∀ s ∈ d.blocks, free s) (gone : ∀ s ∈ above, free s) :
    Falls free k (k.unwound t rest outer) := by
  induction passed generalizing k with
  | nil =>
    obtain ⟨rfl, rfl⟩ := cons.inj tiers
    exact falls_blocks blocks gone
  | cons d passed ih =>
    obtain ⟨rfl, around⟩ := cons.inj tiers
    have emptied : Falls free k (k.withBlocks []) :=
      falls_blocks (by rw [append_nil]) (left k.call mem_cons_self)
    refine emptied.trans ?_
    cases outer_split : k.outer with
    | nil => rw [outer_split] at around; simp at around
    | cons below others =>
      have next := @ih { k with call := below, outer := others } (outer_split.symm.trans around)
        fun d mem => left d (mem_cons_of_mem _ mem)
      exact .call rfl outer_split next

end Roots

section Steps

variable {p : Program} {k : Control} {i : Nat}

structure Poised (p : Program) (k : Control) (i : Nat) : Prop extends Going p k i where
  here : k.here = some (i : Int)
  started : k.started = true
  branch : k.branch = none

def Verb.mayWait : Verb → Bool
  | .again | .leave | .giveBack | .endFunction _ | .exitTest => true
  | _ => false

theorem Verb.mayWait_of_isFree {v : Verb} (free : v.isFree = true) : v.mayWait = false := by
  cases v <;> first | rfl | cases free

section

variable {function : Option Nat} {q n : Nat} {ceiling crosses : Bool} {v : Verb}
  (leaving : Leaving p function q (some (n : Int)) ceiling crosses)

include leaving

theorem Leaving.verb : ∃ v, p.Does n v := by
  generalize source : some (n : Int) = s at leaving
  cases leaving with
  | exit verb | back verb | exitTest verb =>
    obtain rfl := Int.ofNat.inj (Option.some.inj source)
    exact ⟨_, verb⟩

theorem Leaving.kinds (verb : p.Does n v) :
    (ceiling = true ∧ crosses = false ∧ v.role = .exit ∧
        ∃ l kind last, l ∈ within function (opens p.commands q) ∧ p.Spans l (.loop kind) last) ∨
      (ceiling = false ∧ crosses = false ∧ v.givesBack = true ∧ ∃ f, function = some f ∧
        p.Links n f) ∨
      (ceiling = false ∧ crosses = true ∧ v = .exitTest) := by
  generalize source : some (n : Int) = s at leaving
  have same {m : Nat} (source : some (n : Int) = some (m : Int)) : n = m :=
    Int.ofNat.inj (Option.some.inj source)
  cases leaving with
  | exit other exit inside loop =>
    cases same source
    cases verb.symm.trans other
    exact .inl ⟨rfl, rfl, exit, _, _, _, inside, loop⟩
  | back other gives own owned =>
    cases same source
    cases verb.symm.trans other
    exact .inr (.inl ⟨rfl, rfl, gives, _, own, owned⟩)
  | exitTest other =>
    cases same source
    cases verb.symm.trans other
    exact .inr (.inr ⟨rfl, rfl, rfl⟩)

theorem Leaving.mayWait (verb : p.Does n v) : v.mayWait = true := by
  rcases leaving.kinds verb with ⟨_, _, exit, _⟩ | ⟨_, _, gives, _⟩ | ⟨_, _, rfl⟩
  · cases v <;> first | rfl | cases exit
  · cases v <;> first | rfl | cases gives
  · rfl

end

theorem Chain.verb_back {t : Tier} {outer : List Tier} {f b : Nat} (chain : Chain p t outer)
    (own : t.function = some f) (back : t.back = some (b : Int)) : p.Does b .call := by
  cases chain with
  | bottom top => rw [top] at own; cases own
  | call _ back' verb _ _ _ =>
    cases back.symm.trans back'
    exact verb

theorem Going.fetched {t : Nat} [p.Faithful] (going : Going p k t) (silent : Silent p.commands t i)
    (after : t ≤ i) : Poised p (k.fetched i) i := by
  have at_verb {v : Verb} (verb : p.Does t v) : i = t :=
    Nat.le_antisymm (le_of_silent silent (Nat.le_refl t) verb) after
  have stance : Stance p (k.fetched i) i := by
    cases going.stance with
    | inside idle active seated => exact .inside idle active (seated.silent silent after)
    | round idle active top fits seated =>
      cases fits with
      | loop block =>
        obtain rfl := at_verb (block.ended p.found).grown.opened
        exact .round idle active top (.loop block) seated
    | entry idle active own fresh block =>
      obtain rfl := at_verb (block.ended p.found).grown.opened
      exact .entry idle active own fresh block
    | resume marked active seated leaving clear =>
      obtain ⟨v, verb⟩ := leaving.verb
      obtain rfl := at_verb verb
      exact .resume marked active seated leaving clear
    | back idle returning source own seated clear =>
      obtain rfl := at_verb (going.chain.verb_back own source)
      exact .back idle returning source own seated clear
  exact ⟨⟨going.running, going.chain, stance⟩, rfl, rfl, rfl⟩

end Steps

end Runbook
