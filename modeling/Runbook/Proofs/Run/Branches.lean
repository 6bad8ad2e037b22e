import Runbook.Proofs.Run.Beneath

namespace Runbook

open Runbook.Action Control List

def arms (q : Nat) (elseIfs : List Nat) (orElse : Option Nat) : List Nat :=
  q :: (elseIfs ++ orElse.toList)

/-- The place `x` lies in the branch that begins at the place `j`. -/
structure InArm (arms : List Nat) (last j x : Nat) : Prop where
  behind : j < x
  before : x < last
  latest : ∀ r ∈ arms, r ≤ x → r ≤ j

/-- The place `x` lies in the branch that begins at the place `j`, or where this branch is left: at
the beginning of a later one, or at the end of the condition. -/
def OnArm (arms : List Nat) (last j x : Nat) : Prop :=
  InArm arms last j x ∨ (x ∈ arms ∧ j < x) ∨ x = last

section Places

variable {p : Program} {q last i j r x y : Nat} {elseIfs : List Nat} {orElse : Option Nat}

theorem mem_arms :
    r ∈ arms q elseIfs orElse ↔ r = q ∨ ∃ v, (r, v) ∈ (Form.cond elseIfs orElse).parts := by
  cases orElse <;> simp [arms, Form.parts, exists_or]

theorem onArm_succ {arms : List Nat} (low : j ≤ i) (before : i < last)
    (latest : ∀ r ∈ arms, r ≤ i → r ≤ j) : OnArm arms last j (i + 1) := by
  by_cases ends : i + 1 = last
  · exact .inr (.inr ends)
  by_cases begins : i + 1 ∈ arms
  · exact .inr (.inl ⟨begins, by omega⟩)
  refine .inl ⟨by omega, by omega, fun r mem below => latest r mem ?_⟩
  have other : r ≠ i + 1 := fun same => begins (same ▸ mem)
  omega

theorem InArm.succ {arms : List Nat} (arm : InArm arms last j i) : OnArm arms last j (i + 1) :=
  onArm_succ (Nat.le_of_lt arm.behind) arm.before arm.latest

theorem InArm.unique {arms : List Nat} {j' : Nat} (arm : InArm arms last j x)
    (arm' : InArm arms last j' x) (begins : j ∈ arms) (begins' : j' ∈ arms) : j = j' :=
  Nat.le_antisymm (arm'.latest j begins (Nat.le_of_lt arm.behind))
    (arm.latest j' begins' (Nat.le_of_lt arm'.behind))

variable [p.Faithful] (block : p.Spans q (.cond elseIfs orElse) last)

include block

theorem arm_verb (mem : r ∈ arms q elseIfs orElse) :
    q ≤ r ∧ r < last ∧ ∃ v, p.Does r v ∧ (r = q ∨ v.role = .part) := by
  have ended := block.ended p.found
  rcases mem_arms.mp mem with rfl | ⟨v, part⟩
  · exact ⟨Nat.le_refl r, ended.grown.begins, _, ended.grown.opened, .inl rfl⟩
  · obtain ⟨after, before, verb, _⟩ := block.part p.found part
    exact ⟨Nat.le_of_lt after, before, v, verb, .inr (Form.role_of_mem_parts part)⟩

theorem nodup_tests : (q :: elseIfs).Nodup := by
  have ended := block.ended p.found
  have ordered := ended.grown.ordered
  simp only [Form.parts, map_append, map_map, pairwise_append] at ordered
  have rising : elseIfs.Pairwise (· < ·) := by simpa [Function.comp_def] using ordered.1
  refine nodup_cons.mpr ⟨fun mem => ?_, rising.imp Nat.ne_of_lt⟩
  exact Nat.lt_irrefl q (ended.grown.parts (q, .elseIf) (by simp [Form.parts, mem])).1

theorem le_orElse (least : orElse = some j) (mem : r ∈ arms q elseIfs orElse) : r ≤ j := by
  subst least
  have ended := block.ended p.found
  have after : q < j := (ended.grown.parts (j, .orElse) (by simp [Form.parts])).1
  have ordered := ended.grown.ordered
  simp only [Form.parts, Option.map_some, Option.toList_some, map_append, map_map,
    pairwise_append] at ordered
  simp only [arms, Option.toList_some, mem_cons, mem_append, not_mem_nil, or_false] at mem
  rcases mem with rfl | inside | rfl
  · exact Nat.le_of_lt after
  · exact Nat.le_of_lt (ordered.2.2 r (mem_map.mpr ⟨r, inside, rfl⟩) j (by simp))
  · exact Nat.le_refl r

theorem InArm.of_block {b ends : Nat} {form : Form} (inner : p.Spans b form ends)
    (around : q ∈ opens p.commands b) (arm : InArm (arms q elseIfs orElse) last j b) (after : b ≤ y)
    (bound : y ≤ ends) : InArm (arms q elseIfs orElse) last j y := by
  have ended := inner.ended p.found
  have closes : ends < last := by
    have around' : q ∈ opens p.commands (ends + 1) := by rwa [ended.after]
    obtain ⟨_, _, same, _, within⟩ := (mem_opens_iff p.found).mp around'
    cases block.symm.trans same
    exact within
  refine ⟨Nat.lt_of_lt_of_le arm.behind after, by omega, fun r mem below => arm.latest r mem ?_⟩
  rcases mem_arms.mp mem with rfl | ⟨v, part⟩
  · exact Nat.le_of_lt (lt_of_mem_opens p.found around)
  · exact Nat.le_of_lt (part_before inner around block part (by omega))

theorem OnArm.silent (on : OnArm (arms q elseIfs orElse) last j x) (silent : Silent p.commands x i)
    (after : x ≤ i) : OnArm (arms q elseIfs orElse) last j i := by
  have stops {y : Nat} {v : Verb} : x ≤ y → p.Does y v → i ≤ y := le_of_silent silent
  have ended := block.ended p.found
  rcases on with arm | ⟨begins, later⟩ | rfl
  · have before := stops (Nat.le_of_lt arm.before) ended.closed
    by_cases ends : i = last
    · exact .inr (.inr ends)
    by_cases begins : i ∈ arms q elseIfs orElse
    · exact .inr (.inl ⟨begins, Nat.lt_of_lt_of_le arm.behind after⟩)
    refine .inl ⟨Nat.lt_of_lt_of_le arm.behind after, by omega, fun r mem below => ?_⟩
    rcases Nat.lt_or_ge x r with beyond | within
    · obtain ⟨_, _, v, verb, _⟩ := arm_verb block mem
      have same : i = r := Nat.le_antisymm (stops (Nat.le_of_lt beyond) verb) below
      exact absurd (same ▸ mem) begins
    · exact arm.latest r mem within
  · obtain ⟨_, _, v, verb, _⟩ := arm_verb block begins
    rw [Nat.le_antisymm (stops (Nat.le_refl x) verb) after]
    exact .inr (.inl ⟨begins, later⟩)
  · rw [Nat.le_antisymm (stops (Nat.le_refl x) ended.closed) after]
    exact .inr (.inr rfl)

theorem OnArm.inArm (low : q ≤ j) (on : OnArm (arms q elseIfs orElse) last j i)
    (other : ∀ v, p.Does i v → v.role ≠ .part ∧ v ≠ .endIf) :
    InArm (arms q elseIfs orElse) last j i := by
  rcases on with arm | ⟨begins, later⟩ | rfl
  · exact arm
  · obtain ⟨_, _, v, verb, same | part⟩ := arm_verb block begins
    · omega
    · exact absurd part (other v verb).1
  · exact absurd rfl (other _ (block.ended p.found).closed).2

end Places

namespace Control

theorem Leaves.spots_length {k k' : Control} (leaves : Leaves k k') :
    k'.spots.length ≤ k.spots.length := by
  obtain ⟨keeps, split, retop⟩ := leaves
  rw [spots_eq, Control.spots, keeps.tiers, flatMap_append, flatMap_cons, split]
  simp only [length_append, retop.length_eq]
  omega

theorem Routed.top {k k' : Control} {o : Outline} {cause : Failure} {source : Int}
    (routed : Routed o cause source k (.ok true) k') :
    ∃ place g rest, k'.Top ⟨place, .guard g⟩ rest := by
  cases routed with
  | spent => exact ⟨_, _, _, rfl⟩
  | offered _ _ _ _ taken => cases taken <;> exact ⟨_, _, _, rfl⟩

/-- The block `s` is open at the height `d`. The blocks opened in its call since then, and the call
that was made from there, lie at places of a kind. -/
inductive Held (kind : Nat → Prop) (d : Nat) (s : Spot) (k : Control) : Prop
  | mk {upper lower : List Tier} {t : Tier} {above} {rest : List Spot}
      (tiers : k.tiers = upper ++ t :: lower) (blocks : t.blocks = above ++ s :: rest)
      (height : rest.length + (lower.flatMap Tier.blocks).length = d)
      (inner : ∀ x ∈ above, kind x.place)
      (called : ∀ u, upper.getLast? = some u → ∃ b : Nat, u.back = some (b : Int) ∧ kind b)

/-- The block `s` at the height `d` is open in the active call, with the blocks `above` inside. -/
def Open (d : Nat) (s : Spot) (above : List Spot) (k : Control) : Prop :=
  ∃ rest, k.call.blocks = above ++ s :: rest ∧
    rest.length + (k.outer.flatMap Tier.blocks).length = d

section Holds

variable {p : Program} {k k' : Control} {i d : Nat} {s : Spot} {kind : Nat → Prop}
  {above rest : List Spot} {upper passed more lower : List Tier} {t : Tier}

theorem retop_split {gone blocks blocks' : List Spot} (split : above ++ s :: rest = gone ++ blocks)
    (retop : Retop blocks blocks') (cond : s.isCond = true) (inner : ∀ x ∈ above, kind x.place) :
    (∃ above', blocks' = above' ++ s :: rest ∧ ∀ x ∈ above', kind x.place) ∨
      blocks'.length ≤ rest.length := by
  have stays {above' : List Spot} (same : blocks = above' ++ s :: rest)
      (inner : ∀ x ∈ above', kind x.place) :
      ∃ above', blocks' = above' ++ s :: rest ∧ ∀ x ∈ above', kind x.place := by
    cases retop with
    | same => exact ⟨above', same, inner⟩
    | @mark x x' others place other =>
      cases above' with
      | nil =>
        obtain ⟨rfl, _⟩ := cons.inj same
        cases cond.symm.trans other
      | cons y above' =>
        obtain ⟨rfl, rfl⟩ := cons.inj same
        obtain ⟨first, inner⟩ := forall_mem_cons.mp inner
        exact ⟨x' :: above', rfl, forall_mem_cons.mpr ⟨place ▸ first, inner⟩⟩
  rcases append_eq_append_iff.mp split with ⟨more, rfl, tail⟩ | ⟨more, rfl, tail⟩
  · cases more with
    | nil => exact .inl (stays (tail.symm.trans (nil_append _).symm) (by simp))
    | cons x more =>
      have below : rest = more ++ blocks := (cons.inj tail).2
      refine .inr ?_
      rw [retop.length_eq, below, length_append]
      omega
  · exact .inl (stays tail fun x mem => inner x (mem_append_right gone mem))

theorem called_of_keeps {u : Tier} (whole : upper = passed ++ t :: more)
    (called : ∀ u, upper.getLast? = some u → ∃ b : Nat, u.back = some (b : Int) ∧ kind b)
    (back : k'.call.back = t.back) (last : (k'.call :: more).getLast? = some u) :
    ∃ b : Nat, u.back = some (b : Int) ∧ kind b := by
  cases more with
  | nil =>
    cases last
    obtain ⟨b, same, fine⟩ := called t (by rw [whole]; simp)
    exact ⟨b, back.trans same, fine⟩
  | cons v more => exact called u (by rw [whole]; simpa using last)

theorem held_active (blocks : k.call.blocks = above ++ s :: rest) (outer : k.outer = lower)
    (height : rest.length + (lower.flatMap Tier.blocks).length = d)
    (inner : ∀ x ∈ above, kind x.place) : Held kind d s k :=
  @Held.mk _ _ _ k [] lower _ _ _ (by rw [Control.tiers, outer]; rfl) blocks height inner (by simp)

theorem held_top (opened : Open d s [] k) : Held kind d s k := by
  obtain ⟨rest, blocks, height⟩ := opened
  exact held_active blocks rfl height (by simp)

theorem held_beneath {t' : Tier} (around : k'.outer = more ++ t :: lower)
    (back : k'.call.back = t'.back) (whole : upper = passed ++ t' :: more)
    (blocks : t.blocks = above ++ s :: rest)
    (height : rest.length + (lower.flatMap Tier.blocks).length = d)
    (inner : ∀ x ∈ above, kind x.place)
    (called : ∀ u, upper.getLast? = some u → ∃ b : Nat, u.back = some (b : Int) ∧ kind b) :
    Held kind d s k' :=
  @Held.mk _ _ _ k' (k'.call :: more) lower _ _ _ (by rw [Control.tiers, around]; rfl) blocks
    height inner fun _ last => called_of_keeps whole called back last

theorem Held.leave (held : Held kind d s k) (leaves : Leaves k k') (cond : s.isCond = true) :
    Held kind d s k' ∨ k'.spots.length ≤ d := by
  obtain @⟨upper, lower, t', above, rest, tiers, blocks', height, inner, called⟩ := held
  obtain @⟨passed, t, gone, blocks, keeps, split, retop⟩ := leaves
  have both : upper ++ t' :: lower = passed ++ t :: k'.outer := tiers.symm.trans keeps.tiers
  rcases cut_cases both with ⟨rfl, rfl, outer⟩ | ⟨more, rfl, below⟩ | ⟨more, whole, around⟩
  · rcases retop_split (blocks'.symm.trans split) retop cond inner with
      ⟨above', stays, inner⟩ | left
    · exact .inl (held_active stays outer.symm height inner)
    · refine .inr ?_
      rw [spots_eq, length_append, ← outer]
      omega
  · -- the call of the block is left
    have size : k'.call.blocks.length ≤ t.blocks.length := by
      rw [retop.length_eq, split, length_append]
      omega
    rw [below, flatMap_append, flatMap_cons, length_append, length_append] at height
    refine .inr ?_
    rw [spots_eq, length_append]
    omega
  · exact .inl (held_beneath around keeps.back whole blocks' height inner called)

theorem Held.still (held : Held kind d s k) (keeps : Keeps k k' [] k.call) :
    Held kind d s k' ∨ ∃ above, Open d s above k ∧ k'.outer = k.outer ∧
      ∀ x ∈ above, kind x.place := by
  obtain @⟨upper, lower, t, above, rest, tiers, blocks, height, inner, called⟩ := held
  have outer : k'.outer = k.outer := (cons.inj keeps.tiers).2.symm
  cases upper with
  | nil =>
    obtain ⟨rfl, rfl⟩ := cons.inj tiers
    exact .inr ⟨above, ⟨rest, blocks, height⟩, outer, inner⟩
  | cons first upper =>
    obtain ⟨rfl, around⟩ := cons.inj tiers
    exact .inl
      (held_beneath (outer.trans around) keeps.back (nil_append _).symm blocks height inner called)

theorem Held.shift {r : Reply Unit} (held : Held kind d s k) (shift : Shift p i k k' r)
    (cond : s.isCond = true) (inside : ∀ above, Open d s above k → Extends p i k → kind i)
    (other : ∀ c, Open d s [] k → p.Does i .elseIf → s.mark = .cond c → c.decided = false →
      p.outline.block? i ≠ some (.partner s.place)) :
    Held kind d s k' ∨ k'.spots.length ≤ d := by
  cases shift with
  | leave leaves => exact held.leave leaves cond
  | @ask _ owner c c' others verb owned top undecided top' keeps =>
    rcases held.still keeps with held | ⟨above, ⟨rest, blocks, height⟩, outer, inner⟩
    · exact .inl held
    cases above with
    | nil =>
      have same : s = ⟨owner, .cond c⟩ := (cons.inj (blocks.symm.trans top)).1
      subst same
      exact absurd owned (other c ⟨rest, blocks, height⟩ verb rfl undecided)
    | cons x above =>
      obtain ⟨rfl, rfl⟩ := cons.inj (blocks.symm.trans top)
      obtain ⟨first, inner⟩ := forall_mem_cons.mp inner
      have inner' : ∀ x ∈ ⟨owner, .cond c'⟩ :: above, kind x.place := forall_mem_cons.mpr
        ⟨first, inner⟩
      exact .inl (held_active top' outer height inner')
  | @push _ x grows place pushed keeps =>
    rcases held.still keeps with held | ⟨above, ⟨rest, blocks, height⟩, outer, inner⟩
    · exact .inl held
    have stack : k'.call.blocks = (x :: above) ++ s :: rest := by rw [pushed, blocks]; rfl
    have first : kind x.place := place ▸ inside above ⟨rest, blocks, height⟩ grows
    exact .inl (held_active stack outer height (forall_mem_cons.mpr ⟨first, inner⟩))
  | enter grows around back =>
    obtain @⟨upper, lower, t, above, rest, tiers, blocks, height, inner, called⟩ := held
    have whole : k'.tiers = (k'.call :: upper) ++ t :: lower := by
      rw [Control.tiers, around, tiers]; rfl
    refine .inl (.mk whole blocks height inner fun u last => ?_)
    cases upper with
    | nil =>
      obtain ⟨rfl, rfl⟩ := cons.inj tiers
      cases last
      exact ⟨i, back, inside above ⟨rest, blocks, height⟩ grows⟩
    | cons first upper => exact called u (by simpa using last)

theorem Held.opened (held : Held kind d s k) (low : (k.outer.flatMap Tier.blocks).length ≤ d) :
    ∃ above, Open d s above k ∧ ∀ x ∈ above, kind x.place := by
  obtain @⟨upper, lower, t, above, rest, tiers, blocks, height, inner, _⟩ := held
  cases upper with
  | nil =>
    obtain ⟨rfl, rfl⟩ := cons.inj tiers
    exact ⟨above, ⟨rest, blocks, height⟩, inner⟩
  | cons first upper =>
    have around : k.outer = upper ++ t :: lower := (cons.inj tiers).2
    rw [around, flatMap_append, flatMap_cons, blocks] at low
    simp only [length_append, length_cons] at low
    omega

theorem Open.unique {s' : Spot} {above' : List Spot} (opened : Open d s above k)
    (opened' : Open d s' above' k) : above = above' ∧ s = s' := by
  obtain ⟨rest, blocks, height⟩ := opened
  obtain ⟨rest', blocks', height'⟩ := opened'
  have same := append_inj' (blocks.symm.trans blocks') (by simp only [length_cons]; omega)
  exact ⟨same.1, (cons.inj same.2).1⟩

theorem Open.low (opened : Open d s above k) : (k.outer.flatMap Tier.blocks).length ≤ d := by
  obtain ⟨rest, _, height⟩ := opened
  omega

theorem Held.inner (held : Held kind d s k) (opened : Open d s above k) :
    ∀ x ∈ above, kind x.place := by
  obtain ⟨above', opened', inner⟩ := held.opened opened.low
  rw [(opened.unique opened').1]
  exact inner

theorem Held.top {x : Spot} (held : Held kind d s k) (opened : Open d x [] k) : x = s := by
  obtain ⟨above, opened', _⟩ := held.opened opened.low
  exact (opened.unique opened').2

theorem Held.high (held : Held kind d s k) : d < k.spots.length := by
  obtain @⟨upper, lower, t, above, rest, tiers, blocks, height, _, _⟩ := held
  rw [Control.spots, tiers, flatMap_append, flatMap_cons, blocks]
  simp only [length_append, length_cons]
  omega

theorem Held.back {next : Tier} {outer : List Tier} (held : Held kind d s k)
    (around : k.outer = next :: outer) (top : next.blocks = s :: rest)
    (height : rest.length + (outer.flatMap Tier.blocks).length = d) :
    ∃ b : Nat, k.call.back = some (b : Int) ∧ kind b := by
  obtain @⟨upper, lower, t, above, rest', tiers, blocks, height', _, called⟩ := held
  rw [Control.tiers, around] at tiers
  rcases upper with _ | ⟨u, _ | ⟨u', upper⟩⟩
  · obtain ⟨_, rfl⟩ := cons.inj tiers
    rw [flatMap_cons, top] at height'
    simp only [length_append, length_cons] at height'
    omega
  · obtain ⟨rfl, _⟩ := cons.inj tiers
    exact called _ rfl
  · have outer_eq : outer = upper ++ t :: lower := (cons.inj (cons.inj tiers).2).2
    rw [outer_eq, flatMap_append, flatMap_cons, blocks] at height
    simp only [length_append, length_cons] at height
    omega

end Holds

end Control

/-- The run is in the branch that begins at the place `j` of the condition `s` at the height `d`. -/
structure Settled (arms : List Nat) (last j d : Nat) (s : Spot) (k : Control) : Prop where
  held : Held (InArm arms last j) d s k
  place : ∀ t, Open d s [] k → k.stopped = false → k.resume = none → k.call.returning = false →
    k.At t → OnArm arms last j t

section Staying

variable {p : Program} {k k' : Control} {q last i j d : Nat} {elseIfs : List Nat}
  {orElse : Option Nat} {c : Cond} {v : Verb} {above : List Spot}

theorem Poised.around {rest : List Spot} (poised : Poised p k i) (top : k.Top ⟨q, .cond c⟩ rest)
    (idle : k.resume = none) (going : k.call.returning = false) : q ∈ opens p.commands i := by
  cases poised.stance with
  | inside _ _ seated => exact seated.mem_opens (s := ⟨q, .cond c⟩) top.mem
  | round _ _ other => cases top.symm.trans other
  | entry _ _ _ fresh => cases top.symm.trans fresh
  | resume marked => cases idle.symm.trans marked
  | back _ returning => cases going.symm.trans returning

/-- The command at the place `i` comes next, with nothing to execute before it. -/
structure Comes (p : Program) (k : Control) (i : Nat) : Prop extends Poised p (k.fetched i) i where
  ahead : ∃ t, k.At t ∧ t ≤ i ∧ Silent p.commands t i

theorem Fetched.comes {m m₁ : Machine} {c : Command} [p.Ready] (placed : Placed p m.control)
    (fetched : Fetched p m i c m₁) : Comes p m.control i := by
  obtain ⟨poised, _, control⟩ := fetched.poised placed
  rw [control] at poised
  exact ⟨poised, fetched.arrives placed⟩

theorem Control.Held.not_pushed {kind : Nat → Prop} {s x : Spot} (held : Held kind d s k)
    (opened : Open d s [] k') (blocks : k'.Top x k.call.blocks) (outer : k'.outer = k.outer) :
    False := by
  obtain ⟨rest, top, height⟩ := opened
  obtain ⟨_, rfl⟩ := cons.inj (blocks.symm.trans top)
  have high := held.high
  rw [spots_eq, length_append] at high
  rw [outer] at height
  omega

variable [p.Faithful] (block : p.Spans q (.cond elseIfs orElse) last)
  (settled : Settled (arms q elseIfs orElse) last j d ⟨q, .cond c⟩ k) (comes : Comes p k i)

include block settled comes

theorem Settled.stands (opened : Open d ⟨q, .cond c⟩ above k) (idle : k.resume = none)
    (going : k.call.returning = false) :
    (above = [] ∧ OnArm (arms q elseIfs orElse) last j i) ∨
      InArm (arms q elseIfs orElse) last j i := by
  have inner := settled.held.inner opened
  by_cases none : above = []
  · subst none
    obtain ⟨t, arrives, after, silent⟩ := comes.ahead
    exact .inl
      ⟨rfl, (settled.place t opened comes.running idle going arrives).silent block silent after⟩
  refine .inr ?_
  obtain ⟨rest, blocks, _⟩ := opened
  have blocks : (k.fetched i).call.blocks = above ++ ⟨q, .cond c⟩ :: rest := blocks
  cases comes.stance with
  | inside _ _ seated =>
    -- the outermost block inside the condition holds the place
    obtain ⟨above, b, rfl⟩ := (eq_nil_or_concat' above).resolve_left none
    have blocks : (k.fetched i).call.blocks = above ++ b :: ⟨q, .cond c⟩ :: rest := by
      rw [blocks]; simp
    have mem : b ∈ (k.fetched i).call.blocks := by rw [blocks]; simp
    obtain ⟨form, ends, inside, low, bound⟩ := (mem_opens_iff p.found).mp (seated.mem_opens mem)
    have around := (seated.tail blocks).mem_opens mem_cons_self
    exact (inner b (by simp)).of_block block inside around (Nat.le_of_lt low) bound
  | round _ _ top _ _ =>
    cases above with
    | nil => exact absurd rfl none
    | cons x above =>
      obtain ⟨rfl, _⟩ := cons.inj (blocks.symm.trans top)
      exact inner _ mem_cons_self
  | entry _ _ _ fresh _ => simp [fresh] at blocks
  | resume marked _ _ _ _ => cases idle.symm.trans marked
  | back _ returning _ _ _ _ => cases going.symm.trans returning

theorem Settled.inArm (low : q ≤ j) (opened : Open d ⟨q, .cond c⟩ above k) (idle : k.resume = none)
    (going : k.call.returning = false) (plain : ∀ w, p.Does i w → w.role ≠ .part ∧ w ≠ .endIf) :
    InArm (arms q elseIfs orElse) last j i := by
  rcases settled.stands block comes opened idle going with ⟨_, on⟩ | arm
  · exact on.inArm block low plain
  · exact arm

theorem Settled.extends (low : q ≤ j) (opened : Open d ⟨q, .cond c⟩ above k)
    (grows : Extends p i (k.fetched i)) : InArm (arms q elseIfs orElse) last j i := by
  obtain ⟨v, verb, which⟩ := grows
  have still : v.mayWait = false ∧ v.role ≠ .part ∧ v ≠ .endIf := by
    rcases which with opening | ⟨rfl, _⟩
    · cases v <;> simp_all [Verb.role, Verb.mayWait]
    · decide
  obtain ⟨idle, going⟩ := comes.active verb (comes.fresh verb still.1) fun call => by
    rcases which with opening | ⟨_, fresh⟩
    · rw [call] at opening
      cases opening
    · exact fresh
  refine settled.inArm block comes low opened idle going fun w other => ?_
  cases verb.symm.trans other
  exact still.2

theorem Settled.not_part (own : c.decided = true ∨ ∀ r ∈ arms q elseIfs orElse, r ≤ j)
    (opened : Open d ⟨q, .cond c⟩ [] k) (verb : p.Does i v) (part : v.role = .part)
    (owned : p.Links i q) : c.decided = true := by
  obtain ⟨_, _, other, mem, before, _⟩ := owned_part verb part owned
  cases block.symm.trans other
  have begins : i ∈ arms q elseIfs orElse := mem_arms.mpr (.inr ⟨v, mem⟩)
  have still : v.mayWait = false ∧ v ≠ .call := by cases v <;> simp_all [Verb.role, Verb.mayWait]
  obtain ⟨idle, going⟩ := comes.active verb (comes.fresh verb still.1) fun call =>
    absurd call still.2
  refine own.resolve_right fun none => ?_
  have low := none i begins
  rcases settled.stands block comes opened idle going with
    ⟨_, ⟨behind, _⟩ | ⟨_, later⟩ | ends⟩ | ⟨behind, _⟩ <;> omega

theorem Settled.not_elseIf {owner : Nat} {c' : Cond} {rest : List Spot} {r : Reply Unit}
    (own : c.decided = true ∨ ∀ r ∈ arms q elseIfs orElse, r ≤ j) (verb : p.Does i .elseIf)
    (owned : p.Links i owner) (top : k.Top ⟨owner, .cond c'⟩ rest) (undecided : c'.decided = false)
    (chooses : Chooses p.outline { k.fetched i with resume := none } owner c' rest r k')
    (opened : Open d ⟨q, .cond c⟩ [] k') : False := by
  obtain ⟨low, blocks, height⟩ := opened
  have same : k'.call.blocks.length = rest.length + 1 ∧ k'.outer = k.outer := by
    cases chooses <;> exact ⟨rfl, rfl⟩
  rw [same.2] at height
  have height : rest.length + (k.outer.flatMap Tier.blocks).length = d := by
    have := congrArg List.length blocks
    simp only [nil_append, length_cons] at this
    omega
  have innermost : ⟨owner, .cond c'⟩ = (⟨q, .cond c⟩ : Spot) :=
    settled.held.top ⟨rest, top, height⟩
  cases innermost
  cases undecided.symm.trans (settled.not_part block comes own ⟨rest, top, height⟩ verb rfl owned)

theorem Settled.inArm_end {b : Spot} {rest : List Spot} (verb : p.Does i v)
    (still : v.mayWait = false) (other : v ≠ .call) (top : k.Top b rest)
    (opened : Open d ⟨q, .cond c⟩ [] (k.withBlocks rest)) :
    InArm (arms q elseIfs orElse) last j i := by
  obtain ⟨low, blocks, height⟩ := opened
  have blocks : rest = ⟨q, .cond c⟩ :: low := blocks
  have within : Open d ⟨q, .cond c⟩ [b] k := ⟨low, by rw [top, blocks]; rfl, height⟩
  obtain ⟨idle, going⟩ := comes.active verb (comes.fresh verb still) fun call => absurd call other
  exact (settled.stands block comes within idle going).resolve_left fun wrong => nomatch wrong.1

theorem Settled.lands (plain : hasJump p.commands = false) (low : q ≤ j)
    (own : c.decided = true ∨ ∀ r ∈ arms q elseIfs orElse, r ≤ j) (verb : p.Does i v)
    (move : Move p i (k.fetched i).resuming { k.fetched i with resume := none } v (.ok ()) k')
    (opened : Open d ⟨q, .cond c⟩ [] k') (running : k'.stopped = false) (idle : k'.resume = none)
    (going : k'.call.returning = false) {n : Nat} (next : k'.At n) :
    OnArm (arms q elseIfs orElse) last j n := by
  -- a command that belongs to no block
  have onward (fresh : (k.fetched i).resuming = false) (other : v ≠ .call)
      (role : v.role ≠ .part ∧ v ≠ .endIf) (opened : Open d ⟨q, .cond c⟩ [] k) :
      InArm (arms q elseIfs orElse) last j i := by
    obtain ⟨idle, going⟩ := comes.active verb fresh fun call => absurd call other
    exact settled.inArm block comes low opened idle going fun w same => by
      cases verb.symm.trans same; exact role
  have started : (k.fetched i).started = true := comes.started
  have branch : (k.fetched i).branch = none := comes.branch
  have here : (k.fetched i).here = some (i : Int) := comes.here
  have succ {k' : Control} (next : k'.At n) (started : k'.started = true)
      (branch : k'.branch = none) (here : k'.Here i)
      (arm : InArm (arms q elseIfs orElse) last j i) :
      OnArm (arms q elseIfs orElse) last j n := by
    obtain rfl := At.eq_succ next started branch here
    exact arm.succ
  have ⟨rest, top, height⟩ := opened
  cases move with
  | stay free =>
    have role := Verb.role_of_isFree free
    have fresh := comes.fresh verb (Verb.mayWait_of_isFree free)
    exact succ next started branch here
      (onward fresh (by rintro rfl; cases free) ⟨by simp [role], by rintro rfl; cases free⟩ opened)
  | jump jumps => cases plain.symm.trans (hasJump_of_verbAt verb jumps)
  | openIf _ chooses => cases chooses <;> exact (settled.held.not_pushed opened rfl rfl).elim
  | elseIf owned top' undecided chooses =>
    exact (settled.not_elseIf block comes own verb owned top' undecided chooses opened).elim
  | @skip _ owner ends form c' rest' which owned top' decided block' =>
    obtain ⟨same, _⟩ := cons.inj (top.symm.trans top')
    cases same
    cases block.symm.trans block'
    exact .inr (.inr (At.eq_branch next rfl).symm)
  | orElse owned top' undecided =>
    obtain ⟨same, _⟩ := cons.inj (top.symm.trans top')
    cases same
    cases undecided.symm.trans (settled.not_part block comes own opened verb rfl owned)
  | endIf _ top' | endTry _ top' _ | endLoop _ top' =>
    exact succ next started branch here
      (settled.inArm_end block comes verb rfl nofun top' ⟨_, top, height⟩)
  | openTry _ | enterLoop _ _ _ | skipLoop _ _ =>
    exact (settled.held.not_pushed opened rfl rfl).elim
  | openCatch _ top' _ | passCatch _ top' _ _ | keepFinally _ top' _ | nextRound top'
  | loopBack _ top' =>
    cases top.symm.trans top'
  | openFinally _ _ _ _ | lastRound _ _ | again _ _ _ | leave _ _ _ _ => cases top
  | rewait _ _ _ waits | waitExit _ _ waits | waitBack _ _ _ _ waits | waitExitTest _ waits =>
    cases waits; cases top
  | resume => cases idle
  | pass exit free =>
    exact succ next started branch here
      (onward free (by rintro rfl; cases exit) ⟨by simp [exit], by rintro rfl; cases exit⟩ opened)
  | enterCall => cases top
  | leaveCall around _ back =>
    obtain ⟨b, source, arm⟩ := settled.held.back around top height
    obtain rfl := Int.ofNat.inj (Option.some.inj (source.symm.trans (Eq.trans back here)))
    exact succ next started branch here arm
  | enterFunction _ =>
    exact succ next started branch here (onward (comes.fresh verb rfl) nofun ⟨nofun, nofun⟩ opened)
  | skipFunction _ block' =>
    obtain rfl := At.eq_branch next rfl
    have arm := onward (comes.fresh verb rfl) nofun ⟨nofun, nofun⟩ opened
    have begins := (block'.ended p.found).grown.begins
    obtain ⟨idle, going⟩ := comes.active verb (comes.fresh verb rfl) nofun
    have around : q ∈ opens p.commands i := comes.around top idle going
    exact .inl (arm.of_block block block' around (Nat.le_of_lt begins) (Nat.le_refl _))
  | foreign which owned different =>
    have fresh := comes.fresh_of_foreign verb owned which different
    have other : v ≠ .call ∧ v.role ≠ .part ∧ v ≠ .endIf := by
      cases v <;> cases which <;> exact ⟨nofun, nofun, nofun⟩
    exact succ next started branch here (onward fresh other.1 other.2 opened)
  | giveBack => cases going
  | stop => cases running

theorem Settled.shift {resuming : Bool} {r : Reply Unit} (low : q ≤ j)
    (own : c.decided = true ∨ ∀ r ∈ arms q elseIfs orElse, r ≤ j) (verb : p.Does i v)
    (move : Move p i resuming { k.fetched i with resume := none } v r k') :
    Held (InArm (arms q elseIfs orElse) last j) d ⟨q, .cond c⟩ k' ∨ k'.spots.length ≤ d := by
  have held : Held (InArm (arms q elseIfs orElse) last j) d ⟨q, .cond c⟩
      { k.fetched i with resume := none } := by
    obtain ⟨tiers, blocks, height, inner, called⟩ := settled.held
    exact .mk tiers blocks height inner called
  refine held.shift (Move.shift move verb comes.here) rfl ?_ ?_
  · intro above opened grows
    exact settled.extends block comes low opened grows
  · intro c' opened verb' same undecided owned
    cases same
    cases undecided.symm.trans (settled.not_part block comes own opened verb' rfl owned)

end Staying

theorem Turn.settled {p : Program} {m m' : Machine} {q last i j d : Nat} {elseIfs : List Nat}
    {orElse : Option Nat} {c : Cond} {v : Verdict} [p.Ready] (plain : hasJump p.commands = false)
    (placed : Placed p m.control) (block : p.Spans q (.cond elseIfs orElse) last) (low : q ≤ j)
    (own : c.decided = true ∨ ∀ r ∈ arms q elseIfs orElse, r ≤ j)
    (settled : Settled (arms q elseIfs orElse) last j d ⟨q, .cond c⟩ m.control)
    (turn : Turn p m i v m') (further : v.ending? = none) :
    Settled (arms q elseIfs orElse) last j d ⟨q, .cond c⟩ m'.control ∨
      m'.control.spots.length ≤ d := by
  obtain ⟨_, _, fetched⟩ := turn.fetched
  have comes := fetched.comes placed
  obtain ⟨r, k, _, acted, concludes⟩ := turn.acted placed
  -- before the guards are asked
  have held :
      Held (InArm (arms q elseIfs orElse) last j) d ⟨q, .cond c⟩ k ∨ k.spots.length ≤ d := by
    cases acted with
    | host _ same =>
      obtain ⟨tiers, blocks, height, inner, called⟩ := settled.held
      rw [same]
      exact .inl (.mk tiers blocks height inner called)
    | moves verb move | fails verb move _ => exact settled.shift block comes low own verb move
  cases concludes with
  | ends ending _ => simp [further] at ending
  | done same =>
    rw [same]
    refine held.imp_left fun held => ⟨held, fun n opened running idle going next => ?_⟩
    cases acted with
    | host silent same =>
      rw [same] at opened idle going next
      obtain rfl := At.eq_succ next comes.started comes.branch comes.here
      exact (settled.inArm block comes low opened idle going (by simp [Program.Does, silent])).succ
    | moves verb move =>
      exact settled.lands block comes plain low own verb move opened running idle going next
  | taken _ routed =>
    obtain ⟨_, _, _, top⟩ := routed.top
    have left : Held (InArm (arms q elseIfs orElse) last j) d ⟨q, .cond c⟩ m'.control ∨
        m'.control.spots.length ≤ d := by
      rcases held with held | gone
      · exact held.leave routed.leaves rfl
      · exact .inr (Nat.le_trans routed.leaves.spots_length gone)
    -- a guard is innermost, so the condition is not
    exact left.imp_left fun held => ⟨held, fun _ opened => by
      obtain ⟨_, other, _⟩ := opened
      cases top.symm.trans other⟩

end Runbook
