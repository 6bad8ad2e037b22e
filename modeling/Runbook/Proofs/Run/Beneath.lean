import Runbook.Proofs.Run.Returns

namespace Runbook

open Runbook.Action Control List

section Blocks

variable {o : Outline} {i q : Nat} {next : Option Nat} {error : Bool} {g : Guard} {s : Spot}
  {stack stack' low gone rest : List Spot}

theorem suffix_of_append (on : low <:+ gone ++ rest) (bound : low.length ≤ rest.length) :
    low <:+ rest :=
  suffix_of_suffix_length_le on (suffix_append gone rest) bound

theorem eq_of_suffix {t : Spot} (on : t :: low <:+ gone ++ s :: rest)
    (height : low.length = rest.length) : t = s ∧ low = rest := by
  have whole : s :: rest <:+ gone ++ s :: rest := suffix_append gone (s :: rest)
  have inside := suffix_of_suffix_length_le on whole (by simp [height])
  exact cons.inj (inside.eq_of_length (by simp [height]))

theorem Slip.suffix (slip : Slip o stack stack') (on : ⟨q, .guard g⟩ :: low <:+ stack)
    (high : low.length < stack'.length) : ⟨q, .guard g⟩ :: low <:+ stack' := by
  cases slip with
  | leave _ => exact suffix_of_append on high
  | push _ => exact on.trans (suffix_cons _ _)
  | @swap gone rest s s' _ plain _ _ =>
    rcases Nat.lt_or_eq_of_le (Nat.le_of_lt_succ high) with lower | height
    · have on : ⟨q, .guard g⟩ :: low <:+ (gone ++ [s]) ++ rest := by simpa using on
      exact (suffix_of_append on lower).trans (suffix_cons _ _)
    · obtain ⟨rfl, _⟩ := eq_of_suffix on height
      cases plain

theorem Stir.suffix (stir : Stir o i next error stack stack') (on : ⟨q, .guard g⟩ :: low <:+ stack)
    (kept : spotAt stack' low.length = some ⟨q, .guard g⟩) : ⟨q, .guard g⟩ :: low <:+ stack' := by
  have high := lt_of_spotAt kept
  -- a guard that is changed is on top, so what is beneath it is the rest of the stack
  have changed {q' : Nat} {g' : Guard} {gone rest : List Spot} {t : Spot}
      (on : ⟨q, .guard g⟩ :: low <:+ gone ++ t :: rest)
      (kept : spotAt (⟨q', .guard g'⟩ :: rest) low.length = some ⟨q, .guard g⟩) :
      ⟨q, .guard g⟩ :: low <:+ ⟨q', .guard g'⟩ :: rest := by
    rcases Nat.lt_or_eq_of_le (Nat.le_of_lt_succ (lt_of_spotAt kept)) with lower | height
    · have on : ⟨q, .guard g⟩ :: low <:+ (gone ++ [t]) ++ rest := by simpa using on
      exact (suffix_of_append on lower).trans (suffix_cons _ _)
    · rw [height, spotAt_top] at kept
      have same : ⟨q', .guard g'⟩ :: rest = ⟨q, .guard g⟩ :: low := by
        rw [Option.some.inj kept, (eq_of_suffix on height).2]
      exact ⟨[], same.symm⟩
  cases stir with
  | slips slip => exact slip.suffix on high
  | opens _ => exact on.trans (suffix_cons _ _)
  | @executes rest _ _ g' _ _ _ _ => exact @changed _ _ [] rest _ on kept
  | @fails _ gone rest slip _ =>
    exact suffix_of_append (slip.suffix on (by rw [length_append]; omega)) high
  | takes grip =>
    obtain @⟨gone, rest, q', g₁, g₂, slip, _, _, _⟩ := grip
    refine changed (slip.suffix on ?_) kept
    rw [length_append, length_cons]
    rw [length_cons] at high
    omega

end Blocks

theorem cut_cases {α : Type} {x x' : α} {above above' below below' : List α}
    (same : above ++ x :: below = above' ++ x' :: below') :
    (above = above' ∧ x = x' ∧ below = below') ∨
      (∃ more, above' = above ++ x :: more ∧ below = more ++ x' :: below') ∨
      ∃ more, above = above' ++ x' :: more ∧ below' = more ++ x :: below := by
  rcases append_eq_append_iff.mp same with
    ⟨_ | ⟨first, more⟩, rfl, tail⟩ | ⟨_ | ⟨first, more⟩, rfl, tail⟩
  · obtain ⟨rfl, rfl⟩ := cons.inj tail
    exact .inl ⟨(append_nil _).symm, rfl, rfl⟩
  · obtain ⟨rfl, rest⟩ := cons.inj tail
    exact .inr (.inl ⟨more, rfl, rest⟩)
  · obtain ⟨rfl, rfl⟩ := cons.inj tail
    exact .inl ⟨append_nil _, rfl, rfl⟩
  · obtain ⟨rfl, rest⟩ := cons.inj tail
    exact .inr (.inr ⟨more, rfl, rest⟩)

namespace Control

/-- What is left of the calls: the active call is one of those before, with no more blocks unless it
was active already. -/
structure Keeps (k k' : Control) (passed : List Tier) (t : Tier) : Prop where
  tiers : k.tiers = passed ++ t :: k'.outer
  function : k'.call.function = t.function
  back : k'.call.back = t.back
  lower : passed ≠ [] → k'.call.blocks.length ≤ t.blocks.length

inductive Steps (k k' : Control) : Prop
  | enter (around : k'.outer = k.tiers)
  | keep {passed t} (keeps : Keeps k k' passed t)

/-- At most the innermost block is changed, and it is no condition. -/
inductive Retop : List Spot → List Spot → Prop
  | same (blocks : List Spot) : Retop blocks blocks
  | mark {s s' : Spot} {rest} (place : s'.place = s.place) (other : s.isCond = false) :
      Retop (s :: rest) (s' :: rest)

theorem Retop.length_eq {blocks blocks' : List Spot} (retop : Retop blocks blocks') :
    blocks'.length = blocks.length := by
  cases retop <;> rfl

/-- Blocks and calls are left, and none comes anew. -/
inductive Leaves (k k' : Control) : Prop
  | mk {passed : List Tier} {t : Tier} {gone blocks : List Spot} (keeps : Keeps k k' passed t)
      (split : t.blocks = gone ++ blocks) (retop : Retop blocks k'.call.blocks)

def Extends (p : Program) (i : Nat) (k : Control) : Prop :=
  ∃ v, p.Does i v ∧
    (v.role = .opening ∨ (v = .call ∧ ¬ (k.call.returning = true ∧ k.call.back = k.here)))

/-- What the command at the place `i` does to the blocks and calls: it leaves some, tries a further
branch of a condition, opens a block, or enters a call. -/
inductive Shift (p : Program) (i : Nat) (k k' : Control) : Except Failure Unit → Prop
  | leave {r} (leaves : Leaves k k') : Shift p i k k' r
  | ask {r owner} {c : Cond} {c' rest} (verb : p.Does i .elseIf) (owned : p.Links i owner)
      (top : k.Top ⟨owner, .cond c⟩ rest) (undecided : c.decided = false)
      (top' : k'.Top ⟨owner, .cond c'⟩ rest) (keeps : Keeps k k' [] k.call) : Shift p i k k' r
  | push {r} {s : Spot} (grows : Extends p i k) (place : s.place = i)
      (blocks : k'.call.blocks = s :: k.call.blocks) (keeps : Keeps k k' [] k.call) :
      Shift p i k k' r
  | enter (grows : Extends p i k) (around : k'.outer = k.tiers)
      (back : k'.call.back = some (i : Int)) : Shift p i k k' (.ok ())

section Calls

variable {p : Program} {k k' k'' : Control} {passed outer : List Tier} {t : Tier} {i : Nat}
  {v : Verb} {r : Reply Unit} {s : Spot} {o : Outline}

theorem keeps_active (function : k'.call.function = k.call.function)
    (back : k'.call.back = k.call.back) (outer : k'.outer = k.outer) : Keeps k k' [] k.call :=
  ⟨by rw [outer]; rfl, function, back, fun some => absurd rfl some⟩

theorem Keeps.pop {rest gone blocks : List Spot} (keeps : Keeps (k.withBlocks rest) k' passed t)
    (top : k.Top s rest) (split : t.blocks = gone ++ blocks) :
    ∃ passed' t' gone', Keeps k k' passed' t' ∧ t'.blocks = gone' ++ blocks := by
  have tiers := keeps.tiers
  cases passed with
  | nil =>
    obtain ⟨rfl, outer⟩ := cons.inj tiers
    refine ⟨[], k.call, s :: gone, keeps_active keeps.function keeps.back outer.symm, ?_⟩
    rw [top, cons_append, ← split]
    rfl
  | cons first passed =>
    obtain ⟨_, outer⟩ := cons.inj tiers
    refine ⟨k.call :: passed, t, gone, ⟨?_, keeps.function, keeps.back, fun _ => keeps.lower nofun⟩,
      split⟩
    rw [Control.tiers, show k.outer = _ from outer]
    rfl

theorem Falls.leaves {free : Spot → Prop} (falls : Falls free k k') :
    ∃ passed t gone, Keeps k k' passed t ∧ t.blocks = gone ++ k'.call.blocks := by
  induction falls with
  | refl => exact ⟨[], _, [], keeps_active rfl rfl rfl, rfl⟩
  | block top _ _ ih =>
    obtain ⟨passed, t, gone, keeps, split⟩ := ih
    exact keeps.pop top split
  | @call k k' below outer _ around _ ih =>
    obtain ⟨passed, t, gone, keeps, split⟩ := ih
    have tiers : below :: outer = passed ++ t :: k'.outer := keeps.tiers
    refine ⟨k.call :: passed, t, gone, ⟨?_, keeps.function, keeps.back, fun _ => ?_⟩, split⟩
    · rw [Control.tiers, around, tiers]
      rfl
    · rw [split, length_append]
      omega

theorem Waits.leaves {source : Option Int} {ceiling crosses : Bool}
    (waits : Waits o k source ceiling crosses k') : Leaves k k' := by
  obtain ⟨tiers, blocks⟩ := waits
  exact .mk ⟨tiers, rfl, rfl, fun _ => by rw [blocks]; simp [unwound, Control.goto]⟩ blocks
    (.mark rfl rfl)

theorem Routed.leaves {cause : Failure} {source : Int} {x : Reply Bool}
    (routed : Routed o cause source k x k') : Leaves k k' := by
  have taken {free : Spot → Prop} {k₁ : Control} {place j : Nat} {g g' : Guard} {rest : List Spot}
      (falls : Falls free k k₁) (top : k₁.Top ⟨place, .guard g⟩ rest) :
      Leaves k ((k₁.withBlocks (⟨place, .guard g'⟩ :: rest)).goto j) := by
    obtain ⟨passed, t, gone, keeps, split⟩ := falls.leaves
    rw [top] at split
    refine .mk ⟨keeps.tiers, keeps.function, keeps.back, fun _ => ?_⟩ split (.mark rfl rfl)
    rw [split]
    simp [Control.goto]
  have left {free : Spot → Prop} {k₁ : Control} (falls : Falls free k k₁) : Leaves k k₁ := by
    obtain ⟨passed, t, gone, keeps, split⟩ := falls.leaves
    exact .mk keeps split (.same _)
  cases routed with
  | fatal _ | unguarded _ _ => exact left (@Falls.refl (fun _ => True) k)
  | spent _ falls top _ _ _ => exact taken falls top
  | offered _ falls _ _ further =>
    have falls : Falls (fun _ => True) _ _ := falls.mono fun _ _ => trivial
    cases further with
    | caught further top | held further top =>
      exact taken (falls.trans (further.mono fun _ _ => trivial)) top
    | lost further | broke further => exact left (falls.trans (further.mono fun _ _ => trivial))

theorem shift_pop (top : k.Top s k'.call.blocks) (keeps : Keeps k k' [] k.call) :
    Shift p i k k' r := .leave (.mk keeps (top.trans (singleton_append).symm) (.same _))

theorem shift_mark {s' : Spot} {rest : List Spot} (top : k.Top s rest) (top' : k'.Top s' rest)
    (place : s'.place = s.place) (other : s.isCond = false) (keeps : Keeps k k' [] k.call) :
    Shift p i k k' r :=
  .leave (.mk keeps (top.trans (nil_append _).symm) (by rw [top']; exact .mark place other))

theorem Move.shift {resuming : Bool} (move : Move p i resuming k v r k') (verb : p.Does i v)
    (here : k.Here i) : Shift p i k k' r := by
  have active {k' : Control} (function : k'.call.function = k.call.function)
      (back : k'.call.back = k.call.back) (outer : k'.outer = k.outer) : Keeps k k' [] k.call :=
    keeps_active function back outer
  cases move with
  | jump _ _ blocks | overjump _ _ blocks =>
    exact .leave (.mk (active rfl rfl rfl) blocks (.same _))
  | openIf _ chooses =>
    cases chooses <;> exact .push ⟨_, verb, .inl rfl⟩ rfl rfl (active rfl rfl rfl)
  | elseIf owned top undecided chooses =>
    cases chooses <;> exact .ask verb owned top undecided rfl (active rfl rfl rfl)
  | endIf _ top | endTry _ top | endLoop _ top | rethrow _ top | resume _ top | strand _ top =>
    exact shift_pop top (active rfl rfl rfl)
  | openTry _ | enterLoop _ _ _ | skipLoop _ _ =>
    exact .push ⟨_, verb, .inl rfl⟩ rfl rfl (active rfl rfl rfl)
  | openFinally _ top | lastRound _ top => exact shift_mark top rfl rfl rfl (active rfl rfl rfl)
  | rewait _ top _ waits =>
    obtain ⟨keeps, split, retop⟩ := waits.leaves
    obtain ⟨_, _, _, keeps, split⟩ := keeps.pop top split
    exact .leave (.mk keeps split retop)
  | waitExit _ _ waits | waitBack _ _ _ _ waits | waitExitTest _ waits => exact .leave waits.leaves
  | again _ blocks | leave _ blocks =>
    exact .leave (.mk (active rfl rfl rfl) blocks (.mark rfl rfl))
  | noLoop => exact .leave (.mk (active rfl rfl rfl) (append_nil _).symm (.same _))
  | enterCall _ fresh => exact .enter ⟨_, verb, .inr ⟨rfl, fresh⟩⟩ rfl here
  | @leaveCall next outer around =>
    have tiers : k.tiers = [k.call] ++ next :: outer := by rw [Control.tiers, around]; rfl
    exact .leave (.mk ⟨tiers, rfl, rfl, fun _ => Nat.le_refl _⟩ (nil_append _).symm (.same _))
  | _ => exact .leave (.mk (active rfl rfl rfl) (nil_append _).symm (.same _))

theorem Shift.keeps {e : Failure} (shift : Shift p i k k' (.error e)) :
    ∃ passed t, Keeps k k' passed t := by
  cases shift with
  | leave leaves =>
    obtain ⟨keeps, _, _⟩ := leaves
    exact ⟨_, _, keeps⟩
  | ask _ _ _ _ _ keeps | push _ _ _ keeps => exact ⟨_, _, keeps⟩

theorem Shift.steps (shift : Shift p i k k' (.ok ())) : Steps k k' := by
  cases shift with
  | leave leaves =>
    obtain ⟨keeps, _, _⟩ := leaves
    exact .keep keeps
  | ask _ _ _ _ _ keeps | push _ _ _ keeps => exact .keep keeps
  | enter _ around _ => exact .enter around

theorem Keeps.steps (keeps : Keeps k k' passed t) (leaves : Leaves k' k'') : Steps k k'' := by
  obtain @⟨passed', t', gone, blocks, further, split, retop⟩ := leaves
  have fewer : k''.call.blocks.length ≤ t'.blocks.length := by
    rw [retop.length_eq, split, length_append]
    omega
  have tiers := further.tiers
  cases passed' with
  | nil =>
    obtain ⟨rfl, outer⟩ := cons.inj tiers
    have tiers : k.tiers = passed ++ t :: k''.outer := by
      rw [keeps.tiers, show k'.outer = k''.outer from outer]
    refine .keep ⟨tiers, further.function.trans keeps.function, further.back.trans keeps.back,
      fun some => ?_⟩
    exact Nat.le_trans fewer (keeps.lower some)
  | cons first passed' =>
    obtain ⟨_, outer⟩ := cons.inj tiers
    have tiers : k.tiers = (passed ++ t :: passed') ++ t' :: k''.outer := by
      rw [keeps.tiers, show k'.outer = passed' ++ t' :: k''.outer from outer]
      simp
    exact .keep ⟨tiers, further.function, further.back, fun _ => fewer⟩

/-- The call `t` is open over the calls `outer`, with its blocks beneath those that it opened
since. -/
def Rests (k : Control) (t : Tier) (outer : List Tier) : Prop :=
  ∃ passed t' above, k.tiers = passed ++ t' :: outer ∧ t'.function = t.function ∧ t'.back = t.back ∧
    t'.blocks = above ++ t.blocks

theorem Rests.step (rests : Rests k t outer) (steps : Steps k k') (some : t.blocks ≠ [])
    (on : t.blocks ++ outer.flatMap Tier.blocks <:+ k'.spots) : Rests k' t outer := by
  obtain ⟨passed, t', above, tiers, function, back, blocks⟩ := rests
  cases steps with
  | enter around =>
    refine ⟨k'.call :: passed, t', above, ?_, function, back, blocks⟩
    rw [Control.tiers, around, tiers]
    rfl
  | @keep passed' t'' keeps =>
    have both : passed ++ t' :: outer = passed' ++ t'' :: k'.outer := tiers.symm.trans keeps.tiers
    rcases cut_cases both with ⟨rfl, rfl, rfl⟩ | ⟨more, rfl, around⟩ | ⟨more, rfl, around⟩
    · obtain ⟨above', whole⟩ := on
      rw [spots_eq, ← append_assoc] at whole
      exact ⟨[], k'.call, above', rfl, keeps.function.trans function, keeps.back.trans back,
        (append_cancel_right whole).symm⟩
    · -- the call would be left, and its blocks with it
      have size := on.length_le
      have lower := keeps.lower (by simp)
      have nonempty := length_pos_iff.mpr some
      simp only [around, spots_eq, length_append, flatMap_append, flatMap_cons] at size
      omega
    · refine ⟨k'.call :: more, t', above, ?_, function, back, blocks⟩
      rw [Control.tiers, around]
      rfl

end Calls

end Control

theorem Turn.steps {p : Program} {m m' : Machine} {i : Nat} {v : Verdict} [p.Ready]
    (placed : Placed p m.control) (turn : Turn p m i v m') (further : v.ending? = none) :
    Steps m.control m'.control := by
  obtain ⟨r, k, poised, acted, concludes⟩ := turn.acted placed
  have still (same : k = m.control.fetched i) : Keeps m.control k [] m.control.call :=
    keeps_active (by rw [same]; rfl) (by rw [same]; rfl) (by rw [same]; rfl)
  cases concludes with
  | ends ending _ => simp [further] at ending
  | done same =>
    rw [same]
    cases acted with
    | host _ same => exact .keep (still same)
    | moves verb move =>
      cases (Move.shift move verb poised.here).steps with
      | enter around => exact .enter around
      | keep keeps => exact .keep ⟨keeps.tiers, keeps.function, keeps.back, keeps.lower⟩
  | taken _ routed =>
    cases acted with
    | host _ same => exact (still same).steps routed.leaves
    | fails verb move _ =>
      obtain ⟨passed, t, keeps⟩ := (Move.shift move verb poised.here).keeps
      have keeps : Keeps m.control k passed t :=
        ⟨keeps.tiers, keeps.function, keeps.back, keeps.lower⟩
      exact keeps.steps routed.leaves

end Runbook
