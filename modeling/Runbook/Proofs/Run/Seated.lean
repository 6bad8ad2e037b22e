import Runbook.Proofs.Run.Turns

namespace Runbook

open Control List

def within (function : Option Nat) (chain : List Nat) : List Nat :=
  match function with
  | none => chain
  | some f => chain.takeWhile (· ≠ f)

def Form.passable : Form → Bool
  | .cond _ _ | .function _ _ => true
  | .loop _ | .guard _ _ _ => false

def Form.mayPass (jumps : Bool) : Form → Bool
  | .cond _ _ => jumps
  | .function _ _ => true
  | .loop _ | .guard _ _ _ => false

theorem Form.mayPass_of_firm {form : Form} {jumps : Bool} (firm : form.passable = false) :
    form.mayPass jumps = false := by
  cases form <;> first | rfl | cases firm

/-- The open blocks run along a chain of blocks of the text, both innermost first. -/
inductive Covers (jumps : Bool) (o : Outline) : List Nat → List Spot → Prop
  | nil : Covers jumps o [] []
  | keep {chain} {s : Spot} {rest} (fits : s.Fits o) (below : Covers jumps o chain rest) :
      Covers jumps o (s.place :: chain) (s :: rest)
  | skip {chain q last} {form : Form} {spots} (block : o.Spans q form last)
      (passable : form.mayPass jumps = true) (below : Covers jumps o chain spots) :
      Covers jumps o (q :: chain) spots

section Chains

variable {function : Option Nat} {chain inner outer : List Nat} {q : Nat}

theorem mem_of_mem_within (mem : q ∈ within function chain) : q ∈ chain := by
  cases function with
  | none => exact mem
  | some f => exact (takeWhile_sublist _).subset mem

theorem ne_of_mem_within (mem : q ∈ within function chain) : function ≠ some q := by
  rintro rfl
  have passed := all_eq_true.mp (all_takeWhile (p := (· ≠ q)) (l := chain)) q mem
  simp at passed

theorem within_cons (other : function ≠ some q) :
    within function (q :: chain) = q :: within function chain := by
  cases function with
  | none => rfl
  | some f =>
    have : q ≠ f := fun same => other (by rw [same])
    simp [within, this]

theorem within_self (chain : List Nat) (f : Nat) : within (some f) (f :: chain) = [] := by
  simp [within]

theorem within_append (mem : q ∈ within function (inner ++ q :: outer)) (fresh : q ∉ inner) :
    within function (inner ++ q :: outer) = inner ++ q :: within function outer ∧
      ∀ f, function = some f → f ∉ inner := by
  induction inner with
  | nil =>
    exact ⟨within_cons (ne_of_mem_within mem), fun f _ => not_mem_nil⟩
  | cons r inner ih =>
    have other : function ≠ some r := by
      rintro rfl
      rw [cons_append, within_self] at mem
      cases mem
    rw [cons_append, within_cons other] at mem ⊢
    have further : q ∈ within function (inner ++ q :: outer) := by
      rcases mem_cons.mp mem with same | further
      · exact absurd (by rw [same]; exact mem_cons_self) fresh
      · exact further
    obtain ⟨split, outside⟩ := ih further fun mem => fresh (mem_cons_of_mem r mem)
    refine ⟨by rw [split]; rfl, fun f same mem => ?_⟩
    rcases mem_cons.mp mem with rfl | mem
    · exact other same
    · exact outside f same mem

end Chains

section Covered

variable {jumps : Bool} {o : Outline} {chain : List Nat} {spots above below : List Spot}

theorem Covers.fits (covers : Covers jumps o chain spots) : ∀ s ∈ spots, s.Fits o := by
  induction covers with
  | nil => simp
  | keep fits _ ih => exact forall_mem_cons.mpr ⟨fits, ih⟩
  | skip _ _ _ ih => exact ih

theorem Covers.places (covers : Covers jumps o chain spots) :
    (spots.map Spot.place).Sublist chain := by
  induction covers with
  | nil => exact List.Sublist.slnil
  | keep _ _ ih => exact ih.cons_cons _
  | skip _ _ _ ih => exact ih.cons _

theorem Covers.append {upper lower : List Nat} (first : Covers jumps o upper above)
    (second : Covers jumps o lower below) : Covers jumps o (upper ++ lower) (above ++ below) := by
  induction first with
  | nil => exact second
  | keep fits _ ih => exact .keep fits ih
  | skip block passable _ ih => exact .skip block passable ih

theorem Covers.split (covers : Covers jumps o chain (above ++ below)) :
    ∃ upper lower, chain = upper ++ lower ∧ Covers jumps o upper above ∧
      Covers jumps o lower below := by
  generalize whole : above ++ below = spots at covers
  induction covers generalizing above with
  | nil =>
    obtain ⟨rfl, rfl⟩ := append_eq_nil_iff.mp whole
    exact ⟨[], [], rfl, .nil, .nil⟩
  | @keep chain s rest fits tail ih =>
    cases above with
    | nil =>
      rw [nil_append] at whole
      exact ⟨[], _, rfl, .nil, by rw [whole]; exact .keep fits tail⟩
    | cons s' above =>
      obtain ⟨rfl, rest_eq⟩ := cons.inj whole
      obtain ⟨upper, lower, rfl, first, second⟩ := ih rest_eq
      exact ⟨s'.place :: upper, lower, rfl, .keep fits first, second⟩
  | @skip chain q last form spots block passable tail ih =>
    obtain ⟨upper, lower, rfl, first, second⟩ := ih whole
    exact ⟨q :: upper, lower, rfl, .skip block passable first, second⟩

theorem Covers.uncons {s : Spot} {rest : List Spot} (covers : Covers jumps o chain (s :: rest)) :
    ∃ skipped lower, chain = skipped ++ s.place :: lower ∧ Covers jumps o skipped [] ∧ s.Fits o ∧
      Covers jumps o lower rest := by
  generalize whole : s :: rest = spots at covers
  induction covers with
  | nil => cases whole
  | @keep chain s' rest' fits tail _ =>
    obtain ⟨rfl, rfl⟩ := cons.inj whole
    exact ⟨[], chain, rfl, .nil, fits, tail⟩
  | @skip chain q last form spots block passable tail ih =>
    obtain ⟨skipped, lower, rfl, passed, fits, below⟩ := ih whole
    exact ⟨q :: skipped, lower, rfl, .skip block passable passed, fits, below⟩

theorem Covers.mem {q last : Nat} {form : Form} (covers : Covers jumps o chain spots)
    (mem : q ∈ chain) (block : o.Spans q form last) (firm : form.mayPass jumps = false) :
    ∃ s ∈ spots, s.place = q := by
  induction covers with
  | nil => cases mem
  | keep fits _ ih =>
    rcases mem_cons.mp mem with rfl | mem
    · exact ⟨_, mem_cons_self, rfl⟩
    · obtain ⟨s, inside, same⟩ := ih mem
      exact ⟨s, mem_cons_of_mem _ inside, same⟩
  | skip other passable _ ih =>
    rcases mem_cons.mp mem with rfl | mem
    · cases block.symm.trans other
      rw [firm] at passable
      cases passable
    · exact ih mem

end Covered

/-- A command that waits on the guard at the place `q` can go on once that guard is left. -/
inductive Leaving (p : Program) (function : Option Nat) (q : Nat) : Option Int → Bool → Bool → Prop
  | exit {n : Nat} {l last} {v : Verb} {kind} (verb : p.Does n v) (exit : v.role = .exit)
      (inside : l ∈ within function (opens p.commands q)) (loop : p.Spans l (.loop kind) last) :
      Leaving p function q (some (n : Int)) true false
  | back {n : Nat} {f} {v : Verb} (verb : p.Does n v) (gives : v.givesBack = true)
      (own : function = some f) (owned : p.Links n f) :
      Leaving p function q (some (n : Int)) false false
  | exitTest {n : Nat} (verb : p.Does n .exitTest) :
      Leaving p function q (some (n : Int)) false true

structure Guard.Ok (p : Program) (function : Option Nat) (q : Nat) (g : Guard) : Prop where
  listens : ∀ name catchAt finallyAt last, p.Spans q (.guard name catchAt finallyAt) last →
    g.phase.isSome = (catchAt.isSome || finallyAt.isSome)
  finished : g.phase = some .finishing → g.finaled = true
  leaving : ∀ source ceiling crosses, g.pending = some (.command source ceiling crosses) →
    Leaving p function q source ceiling crosses

def Spot.Ok (p : Program) (function : Option Nat) (s : Spot) : Prop :=
  ∀ g, s.mark = .guard g → g.Ok p function s.place

/-- Control was sent to the last segment of a guard before the run came behind where this segment
begins, and a guard that is finishing has come there. -/
def Spot.Sent (p : Program) (now : Nat) (s : Spot) : Prop :=
  ∀ g name catchAt j last, s.mark = .guard g →
    p.Spans s.place (.guard name catchAt (some j)) last →
    (j < now → g.finaled = true) ∧ (g.phase = some .finishing → j ≤ now)

/-- A call goes on at a place: its open blocks are those around it. -/
structure Seated (p : Program) (t : Tier) (now : Nat) : Prop where
  function : ∀ f, t.function = some f → f ∈ opens p.commands now ∧
    ∃ word name last, p.Spans f (.function word name) last
  covers : Covers (hasJump p.commands) p.outline (within t.function (opens p.commands now)) t.blocks
  sound : ∀ s ∈ t.blocks, s.Ok p t.function
  sent : ∀ s ∈ t.blocks, s.Sent p now

section Seats

variable {p : Program} {t : Tier} {i q last : Nat} {form : Form} {rest : List Spot} {j : Nat}
  {s : Spot}

theorem part_before {r ends : Nat} {v : Verb} {around : Form} [p.Faithful]
    (block : p.Spans q form last) (outer : r ∈ opens p.commands q) (holder : p.Spans r around ends)
    (part : (j, v) ∈ around.parts) (bound : j ≤ last) : j < q := by
  have ended := holder.ended p.found
  obtain ⟨_, _, verb, chain, _⟩ := holder.part p.found part
  have opened := (block.ended p.found).grown.opened
  have r_lt := lt_of_mem_opens p.found outer
  by_contra not_before
  have other : j ≠ q := by
    rintro rfl
    have same : some v = some form.opening := verb.symm.trans opened
    have roles := congrArg (Option.map Verb.role) same
    simp [Form.role_of_mem_parts part] at roles
  have inside : q ∈ opens p.commands j := mem_opens_within p.found block (by omega) bound
  have chain : opens p.commands j = r :: opens p.commands r := chain
  rw [chain] at inside
  rcases mem_cons.mp inside with rfl | deeper
  · omega
  · have := lt_of_mem_opens p.found deeper
    omega

theorem sent_around [p.Faithful] (block : p.Spans q form last)
    (inside : ∀ s ∈ rest, s.place ∈ opens p.commands q) (sent : ∀ s ∈ rest, s.Sent p q)
    (after : q ≤ j) (bound : j ≤ last + 1) : ∀ s ∈ rest, s.Sent p j := by
  intro s mem g name catchAt k ends mark holder
  obtain ⟨finaled, late⟩ := sent s mem g name catchAt k ends mark holder
  refine ⟨fun before => finaled ?_, fun finishing => Nat.le_trans (late finishing) after⟩
  exact part_before block (inside s mem) holder (v := .openFinally)
    (by simp [Form.parts]) (by omega)

theorem Seated.mem_within (seated : Seated p t i) (mem : s ∈ t.blocks) :
    s.place ∈ within t.function (opens p.commands i) :=
  seated.covers.places.subset (mem_map_of_mem mem)

theorem Seated.mem_opens (seated : Seated p t i) (mem : s ∈ t.blocks) :
    s.place ∈ opens p.commands i :=
  mem_of_mem_within (seated.mem_within mem)

theorem within_opens [p.Faithful] {function : Option Nat}
    (mem : q ∈ within function (opens p.commands i)) :
    ∃ inner, opens p.commands i = inner ++ q :: opens p.commands q ∧ q ∉ inner ∧
      within function (opens p.commands i) = inner ++ q :: within function (opens p.commands q) ∧
      ∀ f, function = some f → f ∈ opens p.commands i → f ∈ opens p.commands q := by
  obtain ⟨inner, split⟩ := opens_split p.found (mem_of_mem_within mem)
  have sorted := (opens_sorted p.found i).1
  rw [split] at sorted mem
  have fresh : q ∉ inner := by
    intro inside
    exact Nat.lt_irrefl q ((pairwise_append.mp sorted).2.2 q inside q mem_cons_self)
  obtain ⟨parted, outside⟩ := within_append mem fresh
  refine ⟨inner, split, fresh, by rw [split]; exact parted, ?_⟩
  rintro f rfl inside
  rw [split] at inside
  rcases mem_append.mp inside with above | below
  · exact absurd above (outside f rfl)
  · rcases mem_cons.mp below with same | below
    · exact absurd (by rw [same]) (ne_of_mem_within mem)
    · exact below

theorem Seated.tail [p.Faithful] (seated : Seated p t i) {above : List Spot}
    (blocks : t.blocks = above ++ s :: rest) : Seated p { t with blocks := rest } s.place := by
  have mem : s ∈ t.blocks := by rw [blocks]; simp
  have fewer {x : Spot} (inside : x ∈ rest) : x ∈ t.blocks := by rw [blocks]; simp [inside]
  obtain ⟨inner, split, fresh, parted, further⟩ := within_opens (seated.mem_within mem)
  have covers := seated.covers
  rw [blocks, parted] at covers
  obtain ⟨upper, lower, chain, first, second⟩ := covers.split
  obtain ⟨skipped, lower', rfl, passed, fits, below⟩ := second.uncons
  have same : lower' = within t.function (opens p.commands s.place) := by
    have outside : s.place ∉ within t.function (opens p.commands s.place) := fun inside =>
      Nat.lt_irrefl _ (lt_of_mem_opens p.found (mem_of_mem_within inside))
    rw [← append_assoc] at chain
    exact ((append_cons_inj_of_notMem fresh outside).mp chain).2.2.symm
  rw [same] at below
  refine ⟨?_, below, fun x inside => seated.sound x (fewer inside), ?_⟩
  · intro f own
    obtain ⟨inside, function⟩ := seated.function f own
    exact ⟨further f own inside, function⟩
  · intro x inside g name catchAt k ends mark holder
    obtain ⟨finaled, late⟩ := seated.sent x (fewer inside) g name catchAt k ends mark holder
    obtain ⟨form, last, block, begins, bound⟩ := (mem_opens_iff p.found).mp (seated.mem_opens mem)
    refine ⟨fun before => finaled (by omega), fun finishing => ?_⟩
    have around : x.place ∈ opens p.commands s.place :=
      mem_of_mem_within (below.places.subset (mem_map_of_mem inside))
    have := late finishing
    exact Nat.le_of_lt
      (part_before block around holder (v := .openFinally) (by simp [Form.parts]) (by omega))

theorem Seated.move (seated : Seated p t i) (same : opens p.commands j = opens p.commands i)
    (sent : ∀ s ∈ t.blocks, s.Sent p j) : Seated p t j :=
  ⟨by rw [same]; exact seated.function, by rw [same]; exact seated.covers, seated.sound, sent⟩

theorem Seated.beyond [p.Faithful] (seated : Seated p t q) (block : p.Spans q form last) :
    Seated p t (last + 1) :=
  seated.move (block.ended p.found).after
    (sent_around block (fun _ mem => seated.mem_opens mem) seated.sent
      (by have := (block.ended p.found).grown.begins; omega) (Nat.le_refl _))

theorem Seated.inside [p.Faithful] (seated : Seated p { t with blocks := rest } s.place)
    (block : p.Spans s.place form last)
    (chain : opens p.commands j = s.place :: opens p.commands s.place) (bound : j ≤ last + 1)
    (fits : s.Fits p.outline) (ok : s.Ok p t.function) (sent : s.Sent p j) :
    Seated p { t with blocks := s :: rest } j := by
  have other : t.function ≠ some s.place := fun own =>
    Nat.lt_irrefl _ (lt_of_mem_opens p.found (seated.function s.place own).1)
  refine ⟨?_, ?_, forall_mem_cons.mpr ⟨ok, seated.sound⟩, forall_mem_cons.mpr ⟨sent, ?_⟩⟩
  · intro f own
    obtain ⟨inside, function⟩ := seated.function f own
    exact ⟨by rw [chain]; exact mem_cons_of_mem _ inside, function⟩
  · show Covers (hasJump p.commands) p.outline (within t.function (opens p.commands j)) (s :: rest)
    rw [chain, within_cons other]
    exact .keep fits seated.covers
  · have after : s.place < j := lt_of_mem_opens p.found (by rw [chain]; exact mem_cons_self)
    exact sent_around block (fun _ mem => seated.mem_opens mem) seated.sent
      (Nat.le_of_lt after) bound

theorem Seated.pass [p.Faithful] (seated : Seated p t q) (block : p.Spans q form last)
    (passable : form.mayPass (hasJump p.commands) = true)
    (chain : opens p.commands j = q :: opens p.commands q) (bound : j ≤ last + 1) :
    Seated p t j := by
  have other : t.function ≠ some q := fun own => Nat.lt_irrefl _
    (lt_of_mem_opens p.found (seated.function q own).1)
  refine ⟨?_, ?_, seated.sound, ?_⟩
  · intro f own
    obtain ⟨inside, function⟩ := seated.function f own
    exact ⟨by rw [chain]; exact mem_cons_of_mem _ inside, function⟩
  · rw [chain, within_cons other]
    exact .skip block passable seated.covers
  · have after : q < j := lt_of_mem_opens p.found (by rw [chain]; exact mem_cons_self)
    exact sent_around block (fun _ mem => seated.mem_opens mem) seated.sent
      (Nat.le_of_lt after) bound

theorem Spot.Sent.succ [p.Faithful] (sent : s.Sent p i)
    (other : verbAt p.commands i ≠ some .openFinally) : s.Sent p (i + 1) := by
  intro g name catchAt j ends mark holder
  obtain ⟨finaled, late⟩ := sent g name catchAt j ends mark holder
  refine ⟨fun before => finaled ?_, fun finishing => Nat.le_succ_of_le (late finishing)⟩
  rcases Nat.lt_succ_iff_lt_or_eq.mp before with before | rfl
  · exact before
  · exact absurd (holder.finallyPart p.found).verb other

theorem Seated.succ [p.Faithful] (seated : Seated p t i)
    (still : ∀ v, verbAt p.commands i = some v → v.role ≠ .opening ∧ v.role ≠ .closing)
    (other : verbAt p.commands i ≠ some .openFinally) : Seated p t (i + 1) :=
  seated.move (opens_same p.found still) fun s mem => (seated.sent s mem).succ other

theorem verbAt_of_silent {cs : List Command} {a b : Nat} (silent : Silent cs a b) (after : a ≤ j)
    (before : j < b) : verbAt cs j = none := by
  unfold verbAt
  cases has : cs[j]? with
  | none => rfl
  | some c => simp [Command.verb?, silent j after before c has]

theorem le_of_silent {cs : List Command} {a b : Nat} {v : Verb} (silent : Silent cs a b)
    (after : a ≤ j) (verb : verbAt cs j = some v) : b ≤ j := by
  by_contra before
  cases verb.symm.trans (verbAt_of_silent silent after (by omega))

theorem Seated.silent [p.Faithful] (seated : Seated p t i) (silent : Silent p.commands i j)
    (after : i ≤ j) : Seated p t j := by
  induction j, after using Nat.le_induction with
  | base => exact seated
  | succ j after ih =>
    have none := verbAt_of_silent silent after (Nat.lt_succ_self j)
    have seated := ih fun k low below => silent k low (by omega)
    exact seated.succ (by simp [none]) (by simp [none])

theorem Seated.opened [p.Faithful] (seated : Seated p t i) (block : p.Spans i form last)
    (place : s.place = i) (fits : s.Fits p.outline) (ok : s.Ok p t.function)
    (fresh : ∀ g, s.mark = .guard g → g.phase ≠ some .finishing) :
    Seated p { t with blocks := s :: t.blocks } (i + 1) := by
  have ended := block.ended p.found
  have begins := ended.grown.begins
  subst place
  refine Seated.inside seated block (opens_opening p.found ended.grown.opened (by simp))
    (by omega) fits ok ?_
  intro g name catchAt j ends mark holder
  have after := (holder.finallyPart p.found).after
  exact ⟨fun before => by omega, fun finishing => absurd finishing (fresh g mark)⟩

end Seats

end Runbook
