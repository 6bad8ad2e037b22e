import Runbook.Proofs.Run.Standing

namespace Runbook

open Runbook.Action Control List

inductive Slip (o : Outline) : List Spot → List Spot → Prop
  | leave {gone rest} (paid : ∀ s ∈ gone, Paid o s) : Slip o (gone ++ rest) rest
  | push {s : Spot} {rest} (plain : s.guard? = none) : Slip o rest (s :: rest)
  | swap {gone rest} {s s' : Spot} (paid : ∀ s ∈ gone, Paid o s) (plain : s.guard? = none)
      (plain' : s'.guard? = none) (place : s'.place = s.place) :
      Slip o (gone ++ s :: rest) (s' :: rest)

/-- What becomes of the guard at the place `q` that takes an error, or a command that has to wait;
the run goes on at `next`. -/
inductive Guard.Becomes (o : Outline) (q : Nat) (next : Option Nat) (error : Bool) (g : Guard) :
    Guard → Prop
  | holds (b : Bubble) {name catchAt finallyAt last}
      (block : o.Spans q (.guard name catchAt finallyAt) last) (spent : g.phase ≠ some .trying)
      (paid : Paid o ⟨q, .guard g⟩) (sent : next = some last) :
      Becomes o q next error g (g.holding b)
  | finishes (b : Bubble) {name catchAt j last}
      (block : o.Spans q (.guard name catchAt (some j)) last) (owed : g.finaled = false)
      (sent : next = some j) : Becomes o q next error g (g.finishing.holding b)
  | catches {name finallyAt j last} (block : o.Spans q (.guard name (some j) finallyAt) last)
      (fresh : g.caught = false) (sent : next = some j) (failed : error = true) :
      Becomes o q next error g g.catching

/-- A guard takes an error or a command, and is on top then. An error comes to a guard that is
finishing only out of another guard inside. -/
inductive Grip (o : Outline) (next : Option Nat) (error : Bool) : List Spot → List Spot → Prop
  | takes {stack gone rest q} {g g' : Guard} (slip : Slip o stack (gone ++ ⟨q, .guard g⟩ :: rest))
      (paid : ∀ s ∈ gone, Paid o s) (becomes : g.Becomes o q next error g')
      (nested : g.phase = some .finishing → g'.phase ≠ g.phase → ∃ s ∈ gone, s.intercepts = true ∧
        s.isSpent o = false) :
      Grip o next error stack (⟨q, .guard g'⟩ :: rest)

def Verdict.isHandled : Verdict → Bool
  | .handled _ => true
  | _ => false

/-- The stack before and after a turn that executes the command at the place `i`. -/
inductive Stir (o : Outline) (i : Nat) (next : Option Nat) (error : Bool) :
    List Spot → List Spot → Prop
  | slips {stack stack'} (slip : Slip o stack stack') : Stir o i next error stack stack'
  | opens {stack name given catchAt finallyAt last}
      (block : o.Spans i (.guard name catchAt finallyAt) last) :
      Stir o i next error stack (⟨i, .guard (.opened given catchAt finallyAt)⟩ :: stack)
  | executes {rest q last} {g : Guard} {name catchAt}
      (block : o.Spans q (.guard name catchAt (some i)) last) (owed : g.finaled = false) :
      Stir o i next error (⟨q, .guard g⟩ :: rest) (⟨q, .guard g.finishing⟩ :: rest)
  | fails {stack gone rest} (slip : Slip o stack (gone ++ rest)) (paid : ∀ s ∈ gone, Paid o s) :
      Stir o i next error stack rest
  | takes {stack stack'} (grip : Grip o next error stack stack') : Stir o i next error stack stack'

def spotAt (stack : List Spot) (d : Nat) : Option Spot := stack.reverse[d]?

abbrev Control.Lies (k : Control) (d : Nat) (s : Spot) : Prop := spotAt k.spots d = some s

section Heights

variable {o : Outline} {i d q : Nat} {next : Option Nat} {error : Bool}
  {stack stack' gone rest : List Spot} {s t : Spot} {g g' : Guard}

theorem lt_of_spotAt (lies : spotAt stack d = some s) : d < stack.length := by
  have bound := (List.getElem?_eq_some_iff.mp lies).1
  rwa [length_reverse] at bound

theorem mem_of_spotAt (lies : spotAt stack d = some s) : s ∈ stack :=
  mem_reverse.mp (mem_of_getElem? lies)

theorem spotAt_below (low : d < rest.length) : spotAt (gone ++ rest) d = spotAt rest d := by
  rw [spotAt, reverse_append, List.getElem?_append_left (by rwa [length_reverse]), spotAt]

theorem spotAt_top : spotAt (s :: rest) rest.length = some s := by
  rw [spotAt, reverse_cons, List.getElem?_append_right (by simp), length_reverse, Nat.sub_self]
  rfl

theorem mem_of_spotAt_above (lies : spotAt (gone ++ rest) d = some s) (high : rest.length ≤ d) :
    s ∈ gone := by
  rw [spotAt, reverse_append, List.getElem?_append_right (by rwa [length_reverse])] at lies
  exact mem_reverse.mp (mem_of_getElem? lies)

theorem spotAt_split (lies : spotAt (gone ++ rest) d = some s) :
    (spotAt rest d = some s) ∨ (rest.length ≤ d ∧ s ∈ gone) := by
  rcases Nat.lt_or_ge d rest.length with low | high
  · exact .inl (by rwa [spotAt_below low] at lies)
  · exact .inr ⟨high, mem_of_spotAt_above lies high⟩

theorem spotAt_cons (lies : spotAt rest d = some s) : spotAt (t :: rest) d = some s := by
  rw [show t :: rest = [t] ++ rest from rfl, spotAt_below (lt_of_spotAt lies)]
  exact lies

theorem spotAt_cases (lies : spotAt (t :: rest) d = some s) :
    spotAt rest d = some s ∨ (d = rest.length ∧ t = s) := by
  rcases @spotAt_split d [t] rest s lies with below | ⟨high, same⟩
  · exact .inl below
  · exact .inr ⟨Nat.le_antisymm (Nat.le_of_lt_succ (lt_of_spotAt lies)) high,
      (mem_singleton.mp same).symm⟩

theorem Slip.refl : Slip o stack stack := @Slip.leave o [] stack (by simp)

theorem Slip.spotAt_guard (slip : Slip o stack stack')
    (lies : spotAt stack d = some ⟨q, .guard g⟩) :
    spotAt stack' d = some ⟨q, .guard g⟩ ∨ (stack'.length ≤ d ∧ Paid o ⟨q, .guard g⟩) := by
  cases slip with
  | leave paid =>
    rcases spotAt_split lies with stays | ⟨high, mem⟩
    · exact .inl stays
    · exact .inr ⟨high, paid _ mem⟩
  | push plain => exact .inl (spotAt_cons lies)
  | swap paid plain plain' place =>
    rcases spotAt_split lies with stays | ⟨high, mem⟩
    · rcases spotAt_cases stays with stays | ⟨_, rfl⟩
      · exact .inl (spotAt_cons stays)
      · cases plain
    · exact .inr ⟨high, paid _ mem⟩

theorem spotAt_append (lies : spotAt rest d = some s) : spotAt (gone ++ rest) d = some s := by
  rw [spotAt_below (lt_of_spotAt lies)]
  exact lies

theorem exists_spotAt (mem : s ∈ gone) :
    ∃ e, rest.length ≤ e ∧ spotAt (gone ++ rest) e = some s := by
  obtain ⟨n, lies⟩ := mem_iff_getElem?.mp (mem_reverse.mpr mem)
  refine ⟨rest.length + n, by omega, ?_⟩
  rw [spotAt, reverse_append, List.getElem?_append_right (by simp), length_reverse,
    Nat.add_sub_cancel_left]
  exact lies

theorem Slip.spotAt_before (slip : Slip o stack stack')
    (lies : spotAt stack' d = some ⟨q, .guard g⟩) : spotAt stack d = some ⟨q, .guard g⟩ := by
  cases slip with
  | leave paid => exact spotAt_append lies
  | push plain =>
    rcases spotAt_cases lies with stays | ⟨_, rfl⟩
    · exact stays
    · cases plain
  | swap paid plain plain' place =>
    rcases spotAt_cases lies with stays | ⟨_, rfl⟩
    · exact spotAt_append (spotAt_cons stays)
    · cases plain'

theorem eq_guard_of_intercepts (listens : s.intercepts = true) : ∃ q g, s = ⟨q, .guard g⟩ := by
  obtain ⟨q, mark⟩ := s
  cases mark with
  | guard g => exact ⟨q, g, rfl⟩
  | cond _ | loop _ _ => cases listens

/-- The guard `g` at the height `d` takes an error or a command, and is on top then. -/
structure Guard.Taken (o : Outline) (q : Nat) (next : Option Nat) (error : Bool)
    (stack stack' : List Spot) (d : Nat) (g g' : Guard) : Prop where
  top : stack'.length = d + 1
  becomes : g.Becomes o q next error g'
  nested : g.phase = some .finishing → g'.phase ≠ g.phase →
    ∃ e s, d < e ∧ spotAt stack e = some s ∧ s.intercepts = true ∧ s.isSpent o = false

inductive Guard.Onward (o : Outline) (q i : Nat) (next : Option Nat) (error : Bool)
    (stack stack' : List Spot) (d : Nat) (g : Guard) : Guard → Prop
  | stays : Onward o q i next error stack stack' d g g
  | executes {name catchAt last} (block : o.Spans q (.guard name catchAt (some i)) last)
      (owed : g.finaled = false) (top : stack.length = d + 1) (top' : stack'.length = d + 1) :
      Onward o q i next error stack stack' d g g.finishing
  | taken {g' : Guard} (taken : g.Taken o q next error stack stack' d g') :
      Onward o q i next error stack stack' d g g'

theorem Grip.fate (grip : Grip o next error stack stack')
    (lies : spotAt stack d = some ⟨q, .guard g⟩) :
    (spotAt stack' d = some ⟨q, .guard g⟩ ∧ d + 1 < stack'.length) ∨
      (∃ g', spotAt stack' d = some ⟨q, .guard g'⟩ ∧ g.Taken o q next error stack stack' d g') ∨
      (stack'.length ≤ d ∧ Paid o ⟨q, .guard g⟩) := by
  cases grip with
  | @takes gone rest q' g₁ g₂ slip paid becomes nested =>
    rcases slip.spotAt_guard lies with stays | ⟨high, done⟩
    · rcases spotAt_split stays with stays | ⟨high, mem⟩
      · rcases spotAt_cases stays with below | ⟨rfl, same⟩
        · exact .inl ⟨spotAt_cons below, Nat.succ_lt_succ (lt_of_spotAt below)⟩
        · cases same
          refine .inr (.inl ⟨g₂, spotAt_top, rfl, becomes, ?_⟩)
          intro finishing changed
          obtain ⟨s, mem, listens, unspent⟩ := nested finishing changed
          obtain ⟨e, above, at_e⟩ := @exists_spotAt gone (⟨q, .guard g⟩ :: rest) s mem
          obtain ⟨q'', g'', rfl⟩ := eq_guard_of_intercepts listens
          exact ⟨e, _, above, slip.spotAt_before at_e, listens, unspent⟩
      · exact .inr (.inr ⟨high, paid _ mem⟩)
    · rw [length_append, length_cons] at high
      exact .inr (.inr ⟨by rw [length_cons]; omega, done⟩)

theorem Stir.fate (stir : Stir o i next error stack stack')
    (lies : spotAt stack d = some ⟨q, .guard g⟩) :
    (∃ g', spotAt stack' d = some ⟨q, .guard g'⟩ ∧ g.Onward o q i next error stack stack' d g') ∨
      (stack'.length ≤ d ∧ Paid o ⟨q, .guard g⟩) := by
  cases stir with
  | slips slip =>
    rcases slip.spotAt_guard lies with stays | left
    · exact .inl ⟨g, stays, .stays⟩
    · exact .inr left
  | opens block => exact .inl ⟨g, spotAt_cons lies, .stays⟩
  | @executes rest q' last g' name catchAt block owed =>
    rcases spotAt_cases lies with below | ⟨rfl, same⟩
    · exact .inl ⟨g, spotAt_cons below, .stays⟩
    · cases same
      exact .inl ⟨_, spotAt_top, .executes block owed rfl rfl⟩
  | @fails _ gone _ slip paid =>
    rcases slip.spotAt_guard lies with stays | ⟨high, done⟩
    · rcases spotAt_split stays with stays | ⟨high, mem⟩
      · exact .inl ⟨g, stays, .stays⟩
      · exact .inr ⟨high, paid _ mem⟩
    · rw [length_append] at high
      exact .inr ⟨by omega, done⟩
  | takes grip =>
    rcases grip.fate lies with ⟨stays, _⟩ | ⟨g', lies', taken⟩ | left
    · exact .inl ⟨g, stays, .stays⟩
    · exact .inl ⟨g', lies', .taken taken⟩
    · exact .inr left

theorem Guard.Becomes.keeps (becomes : g.Becomes o q next error g') :
    (g.caught = true → g'.caught = true) ∧ (g.finaled = true → g'.finaled = true) := by
  cases becomes with
  | holds _ _ _ _ _ => exact ⟨id, id⟩
  | finishes _ _ _ _ => exact ⟨id, fun _ => rfl⟩
  | catches _ _ _ _ => exact ⟨fun _ => rfl, id⟩

theorem Guard.Onward.keeps (onward : g.Onward o q i next error stack stack' d g') :
    (g.caught = true → g'.caught = true) ∧ (g.finaled = true → g'.finaled = true) := by
  cases onward with
  | stays => exact ⟨id, id⟩
  | executes _ _ _ _ => exact ⟨id, fun _ => rfl⟩
  | taken taken => exact taken.becomes.keeps

theorem Stir.spotAt_new (stir : Stir o i next error stack stack') (vacant : stack.length ≤ d)
    (lies : spotAt stack' d = some ⟨q, .guard g⟩) :
    q = i ∧ stack' = ⟨q, .guard g⟩ :: stack ∧ ∃ name given catchAt finallyAt last,
      o.Spans q (.guard name catchAt finallyAt) last ∧ g = .opened given catchAt finallyAt := by
  have absent {s : Spot} (before : spotAt stack d = some s) : False := by
    have := lt_of_spotAt before
    omega
  cases stir with
  | slips slip => exact (absent (slip.spotAt_before lies)).elim
  | @opens _ name given catchAt finallyAt last block =>
    rcases spotAt_cases lies with stays | ⟨_, same⟩
    · exact (absent stays).elim
    · cases same
      exact ⟨rfl, rfl, name, given, catchAt, finallyAt, last, block, rfl⟩
  | @executes rest q' last g' name catchAt block owed =>
    have high := lt_of_spotAt lies
    rw [length_cons] at vacant high
    omega
  | @fails _ gone _ slip paid => exact (absent (slip.spotAt_before (spotAt_append lies))).elim
  | takes grip =>
    obtain @⟨gone, rest, q', g₁, g₂, slip, paid, becomes, nested⟩ := grip
    have top : spotAt (gone ++ ⟨q', .guard g₁⟩ :: rest) rest.length = some ⟨q', .guard g₁⟩ :=
      spotAt_append spotAt_top
    have low := lt_of_spotAt (slip.spotAt_before top)
    have high := lt_of_spotAt lies
    rw [length_cons] at high
    omega

end Heights

section Moving

variable {p : Program} {k k' : Control} {i : Nat} {v : Verb} {r : Reply Unit} {stack : List Spot}
  {o : Outline} {ceiling : Bool} {s s' : Spot} {place owner : Nat} {g : Guard} {passed : List Tier}
  {above rest gone : List Spot} {levels : List (List Spot)}

theorem spots_eq : k.spots = k.call.blocks ++ k.outer.flatMap Tier.blocks := by
  rw [Control.spots, Control.tiers, flatMap_cons]

theorem Falls.spots {free : Spot → Prop} (falls : Falls free k k') :
    ∃ gone, k.spots = gone ++ k'.spots ∧ ∀ s ∈ gone, free s := by
  induction falls with
  | refl => exact ⟨[], rfl, by simp⟩
  | @block k k' s rest top goes _ ih =>
    obtain ⟨gone, split, out⟩ := ih
    refine ⟨s :: gone, ?_, forall_mem_cons.mpr ⟨goes, out⟩⟩
    rw [spots_cons top, split]
    rfl
  | call empty around _ ih =>
    obtain ⟨gone, split, out⟩ := ih
    exact ⟨gone, by rw [spots_call around, empty]; exact split, out⟩

theorem paid_of_passes (passes : s.Passes o ceiling) : Paid o s := by
  obtain ⟨place, mark⟩ := s
  cases mark with
  | cond _ | loop _ _ => rfl
  | guard g =>
    have free := passes.2
    simp only [Spot.toll] at free
    split at free
    · cases free
    · split at free
      · cases free
      · rename_i owes
        simpa [Paid] using owes

theorem paid_of_plain (plain : s.guard? = none) : Paid o s := by
  obtain ⟨place, mark⟩ := s
  cases mark with
  | cond _ | loop _ _ => rfl
  | guard g => cases plain

theorem paid_of_finaled (finaled : g.finaled = true) : Paid o ⟨place, .guard g⟩ := by
  unfold Paid Spot.owesFinally
  split
  · rename_i same _
    cases same
    rw [finaled]
    rfl
  · rfl

theorem ok_of_chain (chain : Chain p k.call k.outer)
    (active : ∀ s ∈ k.call.blocks, s.Ok p k.call.function) :
    ∀ s ∈ k.spots, ∃ function, s.Ok p function := by
  intro s mem
  rw [spots_eq] at mem
  rcases mem_append.mp mem with inside | outside
  · exact ⟨_, active s inside⟩
  · have calls : ∀ {t : Tier} {outer : List Tier}, Chain p t outer →
        ∀ s ∈ outer.flatMap Tier.blocks, ∃ function, s.Ok p function := by
      intro t outer chain
      induction chain with
      | bottom _ => simp
      | call _ _ _ _ seated _ ih =>
        intro s mem
        rw [flatMap_cons] at mem
        rcases mem_append.mp mem with inside | outside
        · exact ⟨_, seated.sound s inside⟩
        · exact ih s outside
    exact calls chain s outside

theorem Poised.ok (poised : Poised p k i) : ∀ s ∈ k.spots, ∃ function, s.Ok p function := by
  refine ok_of_chain poised.chain ?_
  cases poised.stance with
  | inside _ _ seated => exact seated.sound
  | round _ _ top fits seated =>
    rw [top]
    exact forall_mem_cons.mpr ⟨ok_loop, seated.sound⟩
  | entry _ _ _ fresh _ => simp [fresh]
  | resume _ _ seated _ _ => exact seated.sound
  | back _ _ _ _ seated _ => exact seated.sound

theorem spots_split {outer : List Tier} {t : Tier} (tiers : k.tiers = passed ++ t :: outer)
    (blocks : t.blocks = above ++ rest) :
    k.spots = (passed.flatMap Tier.blocks ++ above) ++ (rest ++ outer.flatMap Tier.blocks) := by
  rw [Control.spots, tiers, flatMap_append, flatMap_cons, blocks]
  simp

theorem passes_above (left : ∀ d ∈ passed, ∀ x ∈ d.blocks, x.Passes o ceiling)
    (gone : ∀ x ∈ above, x.Passes o ceiling) :
    ∀ s ∈ passed.flatMap Tier.blocks ++ above, s.Passes o ceiling := by
  intro s mem
  rcases mem_append.mp mem with inside | inside
  · obtain ⟨d, present, inside⟩ := mem_flatMap.mp inside
    exact left d present s inside
  · exact gone s inside

theorem Waits.grip {source : Option Int} {crosses : Bool}
    (ok : ∀ s ∈ k.spots, ∃ function, s.Ok p function)
    (waits : Waits p.outline k source ceiling crosses k') (slip : Slip p.outline stack k.spots) :
    Grip p.outline k'.branch false stack k'.spots := by
  obtain @⟨passed, outer, t, above, rest, place, n, g, g', tiers, blocks, inside, left, gone,
    detains⟩ := waits
  have whole := spots_split tiers blocks
  have paid := fun s mem => paid_of_passes (passes_above left gone s mem)
  rw [whole] at slip
  cases detains with
  | replaces block running _ =>
    obtain ⟨function, ok⟩ := ok ⟨place, .guard g⟩ (by rw [whole]; simp)
    have finaled := (ok g rfl).finished running
    exact .takes slip paid (.holds _ block (by rw [running]; nofun) (paid_of_finaled finaled) rfl)
      fun _ changed => absurd rfl changed
  | finishes block owed =>
    exact .takes slip paid (.finishes _ block owed rfl) fun finishing changed =>
      absurd finishing.symm changed

theorem Clear.passes (clear : Clear o false levels) :
    ∀ blocks ∈ levels, ∀ s ∈ blocks, s.Passes o false := by
  generalize same : false = ceiling at clear
  induction clear with
  | nil => simp
  | reached bounded _ _ => rw [bounded] at same; cases same
  | through passed _ ih => exact forall_mem_cons.mpr ⟨passed, ih⟩

theorem Clear.passes_inner (clear : Clear o ceiling [above ++ rest])
    (inner : ∀ s ∈ above, s.isLoop = false) : ∀ s ∈ above, s.Passes o ceiling := by
  generalize same : above ++ rest = blocks at clear
  generalize levels : [blocks] = all at clear
  cases clear with
  | nil => cases levels
  | @reached above' rest' loop more bounded passed is_loop =>
    obtain ⟨rfl, _⟩ := cons.inj levels
    rcases append_eq_append_iff.mp same with ⟨more, rfl, _⟩ | ⟨more, rfl, split⟩
    · exact fun s mem => passed s (mem_append_left _ mem)
    · cases more with
      | nil => exact fun s mem => passed s (by simpa using mem)
      | cons s more =>
        obtain ⟨rfl, _⟩ := cons.inj split
        rw [inner loop (by simp)] at is_loop
        cases is_loop
  | through passed _ =>
    obtain ⟨rfl, _⟩ := cons.inj levels
    subst same
    exact fun s mem => passed s (mem_append_left _ mem)

theorem Clear.paid (clear : Clear o false levels) : ∀ blocks ∈ levels, ∀ s ∈ blocks, Paid o s :=
  fun blocks inside s mem => paid_of_passes (Clear.passes clear blocks inside s mem)

theorem Clear.paid_inner (clear : Clear o ceiling [above ++ rest])
    (inner : ∀ s ∈ above, s.isLoop = false) : ∀ s ∈ above, Paid o s :=
  fun s mem => paid_of_passes (Clear.passes_inner clear inner s mem)

theorem Poised.clear_exit (poised : Poised p k i) (verb : p.Does i v) (exit : v.role = .exit)
    (clear : k.resuming = false → Clear p.outline true [k.call.blocks]) :
    Clear p.outline true [k.call.blocks] := by
  cases poised.stance with
  | inside idle _ _ | round idle _ _ _ _ | entry idle _ _ _ _ | back idle _ _ _ _ _ =>
    exact clear (resuming_of_idle idle)
  | resume _ _ _ leaving cleared =>
    rcases leaving.kinds verb with ⟨rfl, rfl, _⟩ | ⟨_, _, gives, _⟩ | ⟨_, _, rfl⟩
    · exact cleared
    · cases v <;> cases gives <;> cases exit
    · cases exit

theorem Poised.passes_inner (poised : Poised p k i) (verb : p.Does i v) (exit : v.role = .exit)
    (clear : k.resuming = false → Clear p.outline true [k.call.blocks])
    (blocks : k.call.blocks = above ++ rest) (inner : ∀ s ∈ above, s.isLoop = false) :
    ∀ s ∈ above, s.Passes p.outline true := by
  have clear := poised.clear_exit verb exit clear
  rw [blocks] at clear
  exact Clear.passes_inner clear inner

theorem slip_withBlocks (blocks : k.call.blocks = gone ++ rest) (paid : ∀ s ∈ gone, Paid o s) :
    Slip o k.spots (k.withBlocks rest).spots := by
  rw [spots_eq, blocks, append_assoc]
  exact .leave paid

theorem slip_pop (top : k.Top s rest) (paid : Paid o s) :
    Slip o k.spots (k.withBlocks rest).spots :=
  slip_withBlocks (show _ = [s] ++ rest from top) (forall_mem_singleton.mpr paid)

theorem slip_swap (blocks : k.call.blocks = gone ++ s :: rest)
    (passes : ∀ s ∈ gone, s.Passes o true) (plain : s.guard? = none) (plain' : s'.guard? = none)
    (place : s'.place = s.place) : Slip o k.spots (k.withBlocks (s' :: rest)).spots := by
  rw [spots_eq, blocks, append_assoc]
  exact .swap (fun s mem => paid_of_passes (passes s mem)) plain plain' place

theorem slip_top (top : k.Top s rest) (plain : s.guard? = none) (plain' : s'.guard? = none)
    (place : s'.place = s.place) : Slip o k.spots (k.withBlocks (s' :: rest)).spots :=
  slip_swap (show _ = [] ++ s :: rest from top) (by simp) plain plain' place

def Stirs (o : Outline) (i : Nat) (r : Except Failure Unit) (k k' : Control) : Prop :=
  match r with
  | .ok _ => Stir o i k'.branch false k.spots k'.spots
  | .error _ => Slip o k.spots k'.spots

theorem stirs_of_slip (slip : Slip o k.spots k'.spots) : Stirs o i r k k' := by
  cases r with
  | ok _ => exact .slips slip
  | error _ => exact slip

theorem Chooses.stirs {c : Cond} (chooses : Chooses o k place c rest r k')
    (slip : ∀ c', Slip o k.spots (k.withBlocks (⟨place, .cond c'⟩ :: rest)).spots) :
    Stirs o i r k k' := by
  cases chooses with
  | fail e => exact slip _
  | holds | next _ | last _ _ => exact .slips (slip _)

theorem Inside.paid_end [p.Faithful] (inside : Inside p k i) (verb : p.Does i .endTry)
    (owned : p.Links i owner) (top : k.Top ⟨owner, .guard g⟩ rest) :
    Paid p.outline ⟨owner, .guard g⟩ := by
  obtain ⟨form, block, closing⟩ := owned_closing verb rfl owned
  cases form with
  | guard name catchAt finallyAt =>
    cases finallyAt with
    | none => simp [Paid, Spot.owesFinally, block]
    | some j =>
      have sent := inside.seated.sent ⟨owner, .guard g⟩ top.mem
      exact paid_of_finaled
        ((sent g name catchAt j i rfl block).1 (block.finallyPart p.found).before)
  | cond _ _ | loop _ | function _ _ => cases closing

/-- Commands that a run may come to other than from the place before: for another round, in a call,
and when it is over. -/
def Verb.recurs : Verb → Bool
  | .openLoop _ | .openFunction _ | .call => true
  | _ => false

theorem Poised.course [p.Faithful] (poised : Poised p k i) (verb : p.Does i v)
    (once : v.recurs = false) :
    Inside p k i ∨ ∃ q ceiling crosses, k.resuming = true ∧ Seated p k.call q ∧
      Leaving p k.call.function q (some (i : Int)) ceiling crosses ∧
        Clear p.outline ceiling (k.wayOut crosses) := by
  cases poised.stance with
  | inside idle going seated => exact .inl (poised.inside idle going seated)
  | round _ _ _ fits _ =>
    cases fits with
    | loop block =>
      cases verb.symm.trans (block.ended p.found).grown.opened
      cases once
  | entry _ _ _ _ block =>
    cases verb.symm.trans (block.ended p.found).grown.opened
    cases once
  | resume marked _ seated leaving clear =>
    exact .inr ⟨_, _, _, by simp [Control.resuming, marked, poised.here], seated, leaving, clear⟩
  | back _ _ source own _ _ =>
    cases verb.symm.trans (poised.chain.verb_back own source)
    cases once

theorem Poised.inside_of_once [p.Faithful] (poised : Poised p k i) (verb : p.Does i v)
    (once : v.recurs = false) (stays : v.mayWait = false) : Inside p k i := by
  rcases poised.course verb once with inside | ⟨_, _, _, _, _, leaving, _⟩
  · exact inside
  · cases stays.symm.trans (leaving.mayWait verb)

theorem Poised.inside_of_asks [p.Faithful] (poised : Poised p k i) (verb : p.Does i v)
    (asks : v.asks = true) : Inside p k i :=
  poised.inside_of_once verb (by cases v <;> first | rfl | cases asks)
    (by cases v <;> first | rfl | cases asks)

theorem finally_part [p.Faithful] (verb : p.Does i .openFinally) (owned : p.Links i owner) :
    ∃ name catchAt last, p.Spans owner (.guard name catchAt (some i)) last := by
  obtain ⟨form, last, block, part, _⟩ := owned_part verb rfl owned
  cases form with
  | guard name catchAt finallyAt =>
    obtain rfl : finallyAt = some i := by cases catchAt <;> cases finallyAt <;>
      simp_all [Form.parts]
    exact ⟨name, catchAt, last, block⟩
  | cond elseIfs orElse => cases orElse <;> simp_all [Form.parts]
  | loop _ | function _ _ => simp [Form.parts] at part

theorem plain_of_cond (cond : s.isCond = true) : s.guard? = none := by
  obtain ⟨place, mark⟩ := s
  cases mark with
  | cond _ | loop _ _ => rfl
  | guard _ => cases cond

theorem Poised.passes_back (poised : Poised p k i) (returning : k.call.returning = true) :
    ∀ s ∈ k.call.blocks, s.Passes p.outline false := by
  cases poised.stance with
  | inside _ going _ | round _ going _ _ _ | entry _ going _ _ _ | resume _ going _ _ _ =>
    rw [going] at returning
    cases returning
  | back _ _ _ _ _ clear => exact Clear.passes clear _ (mem_singleton.mpr rfl)

theorem Poised.stirs [p.Faithful] (poised : Poised p k i) (verb : p.Does i v)
    (move : Move p i k.resuming { k with resume := none } v r k') : Stirs p.outline i r k k' := by
  have ok : ∀ s ∈ { k with resume := none : Control }.spots, ∃ function,
    s.Ok p function := poised.ok
  have paid_guard {owner : Nat} {g : Guard} {rest : List Spot} (same : v = .endTry)
      (owned : p.Links i owner) (top : k.Top ⟨owner, .guard g⟩ rest) :
      Paid p.outline ⟨owner, .guard g⟩ := by
    subst same
    exact (poised.inside_of_asks verb rfl).paid_end verb owned top
  change Stirs p.outline i r { k with resume := none } k'
  cases move with
  | fail | stay | skip | orElse | openCatch | passCatch | keepFinally | strayFinally | nextRound
  | loopBack | pass
  | enterFunction | skipFunction | foreign | giveBack | lostBack | lostCall | stop =>
    exact stirs_of_slip Slip.refl
  | jump plain region blocks gone =>
    exact .slips (slip_withBlocks blocks fun s mem => paid_of_plain (plain_of_cond (gone s mem).1))
  | overjump plain region blocks gone =>
    exact slip_withBlocks blocks fun s mem => paid_of_plain (plain_of_cond (gone s mem).1)
  | openIf block chooses => exact Chooses.stirs chooses fun c' => .push rfl
  | elseIf owned top _ chooses =>
    exact Chooses.stirs chooses fun c' => slip_top top rfl rfl rfl
  | endIf owned top => exact .slips (slip_pop top rfl)
  | openTry block => exact .opens block
  | @openFinally owner g rest owned top fresh owed =>
    obtain ⟨name, catchAt, last, block⟩ := finally_part verb owned
    have stir : Stir p.outline i k.branch false
      (⟨owner, .guard g⟩ :: (rest ++ k.outer.flatMap Tier.blocks))
      (⟨owner, .guard g.finishing⟩ :: (rest ++ k.outer.flatMap Tier.blocks)) := .executes block owed
    rw [← cons_append, ← show k.call.blocks = _ from top, ← spots_eq] at stir
    exact stir
  | endTry owned top _ => exact .slips (slip_pop top (paid_guard rfl owned top))
  | rethrow owned top _ => exact slip_pop top (paid_guard rfl owned top)
  | rewait owned top _ waits =>
    have slip := @slip_pop { k with resume := none } p.outline _ _ top (paid_guard rfl owned top)
    refine .takes (Waits.grip ?_ waits slip)
    intro s mem
    refine ok s ?_
    rw [spots_cons top]
    exact mem_cons_of_mem _ mem
  | resume owned top _ _ _ => exact .slips (slip_pop top (paid_guard rfl owned top))
  | strand owned top _ _ e => exact slip_pop top (paid_guard rfl owned top)
  | enterLoop _ _ _ | skipLoop _ _ => exact stirs_of_slip (.push rfl)
  | lastRound block top => exact .slips (slip_top top rfl rfl rfl)
  | endLoop owned top => exact .slips (slip_pop top rfl)
  | waitExit _ _ waits => exact .takes (Waits.grip ok waits (.refl))
  | again clear blocks inner | leave clear blocks inner =>
    exact .slips (slip_swap blocks (poised.passes_inner verb rfl clear blocks inner) rfl rfl rfl)
  | noLoop exit clear none e =>
    have passes := poised.passes_inner verb exit clear (append_nil _).symm none
    exact slip_withBlocks (append_nil _).symm fun s mem => paid_of_passes (passes s mem)
  | enterCall block fresh => exact stirs_of_slip (.refl)
  | leaveCall around returning back =>
    refine .slips ?_
    rw [spots_call around]
    exact .leave fun s mem => paid_of_passes (poised.passes_back returning s mem)
  | waitBack _ _ _ _ waits => exact .takes (Waits.grip ok waits (.refl))
  | waitExitTest _ waits => exact .takes (Waits.grip ok waits (.refl))

end Moving

section Failing

variable {p : Program} {k k' : Control} {i : Nat} {stack stack' : List Spot} {s : Spot}
  {function : Option Nat}

theorem ok_of_plain (plain : s.guard? = none) : s.Ok p function := by
  intro g mark
  rw [Spot.guard?, mark] at plain
  cases plain

theorem Slip.ok (slip : Slip p.outline stack stack')
    (ok : ∀ s ∈ stack, ∃ function, s.Ok p function) :
    ∀ s ∈ stack', ∃ function, s.Ok p function := by
  cases slip with
  | leave _ => exact fun s mem => ok s (mem_append_right _ mem)
  | push plain => exact forall_mem_cons.mpr ⟨⟨none, ok_of_plain plain⟩, ok⟩
  | swap _ _ plain _ =>
    refine forall_mem_cons.mpr ⟨⟨none, ok_of_plain plain⟩, fun s mem => ok s ?_⟩
    exact mem_append_right _ (mem_cons_of_mem _ mem)

theorem paid_of_deaf (ok : s.Ok p function) (deaf : Deaf s) : Paid p.outline s := by
  obtain ⟨place, mark⟩ := s
  cases mark with
  | cond _ | loop _ _ => rfl
  | guard g =>
    unfold Paid Spot.owesFinally
    split
    · rename_i _ _ _ _ j _ same block
      cases same
      have listens := (ok g rfl).listens _ _ _ _ block
      have silent : g.phase.isSome = false := deaf
      rw [silent] at listens
      simp at listens
    · rfl

theorem Routed.grip_or_stir {cause : Failure} {source : Int} {x : Reply Bool}
    (ok : ∀ s ∈ k.spots, ∃ function, s.Ok p function)
    (routed : Routed p.outline cause source k x k') (slip : Slip p.outline stack k.spots) :
    (x = .ok true ∧ Grip p.outline k'.branch true stack k'.spots) ∨
      (x ≠ .ok true ∧ Stir p.outline i k'.branch false stack k'.spots) := by
  have deaf {gone rest : List Spot} (whole : k.spots = gone ++ rest) (out : ∀ s ∈ gone, Deaf s) :
      ∀ s ∈ gone, Paid p.outline s := by
    intro s mem
    obtain ⟨function, known⟩ := ok s (by rw [whole]; exact mem_append_left _ mem)
    exact paid_of_deaf known (out s mem)
  cases routed with
  | fatal _ | unguarded _ _ => exact .inr ⟨by rintro ⟨⟩, .slips slip⟩
  | @spent k₁ place last g rest name catchAt finallyAt _ falls top listens spent block =>
    obtain ⟨gone, whole, out⟩ := Falls.spots falls
    have paid := deaf whole out
    rw [whole, spots_cons top] at slip
    simp only [Spot.isSpent, Bool.and_eq_true, decide_eq_true_eq, Bool.not_eq_true'] at spent
    exact .inl ⟨rfl, .takes slip paid (.holds _ block spent.1 spent.2 rfl) fun _ changed =>
      absurd rfl changed⟩
  | @offered k₁ k₂ s r _ falls listens unspent taken =>
    obtain ⟨gone, whole, out⟩ := Falls.spots falls
    have paid := deaf whole out
    rw [whole] at slip
    have join {more rest : List Spot} (split : k₁.spots = more ++ rest)
        (free : ∀ s ∈ more, Paid p.outline s) :
        Slip p.outline stack ((gone ++ more) ++ rest) ∧ ∀ s ∈ gone ++ more, Paid p.outline s := by
      rw [append_assoc, ← split]
      exact ⟨slip, forall_mem_append.mpr ⟨paid, free⟩⟩
    cases taken with
    | @caught k₃ place last j g rest name finallyAt further top block fresh =>
      obtain ⟨more, split, free⟩ := Falls.spots further
      obtain ⟨slip, paid⟩ := join split free
      rw [spots_cons top] at slip
      refine .inl ⟨rfl, .takes slip paid (.catches block fresh rfl rfl) ?_⟩
      intro finishing _
      -- the guard that was asked first is another one: this one has nothing left to run
      obtain ⟨⟨first, head⟩, intercepts⟩ := listens
      rw [spots_cons head, spots_cons top] at split
      cases more with
      | nil =>
        obtain ⟨rfl, _⟩ := cons.inj split
        obtain ⟨function, known⟩ := ok ⟨place, .guard g⟩ (by rw [whole, spots_cons head]; simp)
        have done := @paid_of_finaled p.outline place g ((known g rfl).finished finishing)
        simp [Spot.isSpent, finishing, Paid] at unspent done
        rw [done] at unspent
        cases unspent
      | cons t more =>
        obtain ⟨rfl, _⟩ := cons.inj split
        exact ⟨s, by simp, intercepts, unspent⟩
    | held further top block owed =>
      obtain ⟨more, split, free⟩ := Falls.spots further
      obtain ⟨slip, paid⟩ := join split free
      rw [spots_cons top] at slip
      exact .inl ⟨rfl, .takes slip paid (.finishes _ block owed rfl) fun finishing changed =>
        absurd finishing.symm changed⟩
    | lost further _ _ =>
      obtain ⟨more, split, free⟩ := Falls.spots further
      obtain ⟨slip, paid⟩ := join split free
      exact .inr ⟨by rintro ⟨⟩, .fails slip paid⟩
    | broke further e =>
      obtain ⟨more, split, free⟩ := Falls.spots further
      obtain ⟨slip, paid⟩ := join split free
      exact .inr ⟨by rintro ⟨⟩, .fails slip paid⟩

theorem Dispatched.stirs {m m' : Machine} {c : Command} {r : Reply Unit} [p.Faithful]
    (poised : Poised p m.control i) (has : p.Has i c) (dispatched : Dispatched p c m r m') :
    Stirs p.outline i r m.control m'.control := by
  cases dispatched.acted poised.toGoing.fits poised.here has with
  | moves verb move => exact poised.stirs verb move
  | fails verb move _ =>
    have slip := poised.stirs verb move
    exact slip
  | host _ same =>
    rw [same]
    exact stirs_of_slip (.refl)

theorem Turn.stir {m m' : Machine} {v : Verdict} [p.Ready] (placed : Placed p m.control)
    (turn : Turn p m i v m') :
    Stir p.outline i m'.branch v.isHandled m.control.spots m'.control.spots ∧
      (v.isHandled = true → Grip p.outline m'.branch true m.control.spots m'.control.spots) := by
  obtain ⟨c, m₁, r, m₂, fetched, dispatched, concludes⟩ := turn.concludes placed
  obtain ⟨poised, has, control⟩ := fetched.poised placed
  have stirs := dispatched.stirs poised has
  have same : m₁.control.spots = m.control.spots := by rw [control]; rfl
  show Stir p.outline i m'.control.branch v.isHandled _ _ ∧ _
  rw [← same]
  cases concludes with
  | done alike =>
    rw [alike]
    exact ⟨stirs, nofun⟩
  | taken _ routed =>
    rcases Routed.grip_or_stir (i := i) (Slip.ok stirs poised.ok) routed stirs with
      ⟨_, grip⟩ | ⟨wrong, _⟩
    · exact ⟨.takes grip, fun _ => grip⟩
    · exact absurd rfl wrong
  | ends ending left =>
    have unhandled : v.isHandled = false := by cases v <;> first | rfl | cases ending
    rw [unhandled]
    refine ⟨?_, nofun⟩
    rcases left with alike | ⟨_, _, _, other, routed⟩
    · rw [alike]
      exact .slips stirs
    · rcases Routed.grip_or_stir (Slip.ok stirs poised.ok) routed stirs with ⟨wrong, _⟩ | ⟨_, stir⟩
      · exact absurd wrong other
      · exact stir

end Failing

end Runbook
