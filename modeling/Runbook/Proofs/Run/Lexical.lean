import Runbook.Proofs.Run.Standing

namespace Runbook

open Runbook.Action Control List

/-- The block opened at the place `q` holds the place `i`, inside the function that runs. -/
def Encloses (o : Outline) (function : Option Nat) (i q : Nat) (form : Form) : Prop :=
  ∃ last, o.block? q = some (.opener form last) ∧ q < i ∧ i ≤ last ∧ ∀ f, function = some f → f < q

def Body.IsOf : Body → Form → Prop
  | .cond _, .cond _ _ => True
  | .guard _, .guard _ _ _ => True
  | .loop l, .loop kind => l.kind = kind
  | _, _ => False

/-- Conditions apart, the open blocks are just those around a place; all of them are in the order of
the text. -/
structure Nested (o : Outline) (function : Option Nat) (blocks : List Frame) (i : Nat) : Prop where
  ordered : blocks.Pairwise fun inner outer => outer.place < inner.place
  around : ∀ f ∈ blocks, ∃ form, Encloses o function i f.place form ∧ f.body.IsOf form
  complete : ∀ q form, Encloses o function i q form → form.passable = false →
    ∃ f ∈ blocks, f.place = q

/-- The calls that wait, each at the place where the one above it was called. -/
def Suspended (o : Outline) : Call → List Call → Prop
  | _, [] => True
  | upper, lower :: rest =>
    (∃ b : Nat, upper.back = some (b : Int) ∧ Nested o lower.function lower.blocks b) ∧
      Suspended o lower rest

section Nesting

variable {p : Program} {c : Call} {i : Nat}

theorem mem_within_iff [p.Faithful] {function : Option Nat}
    (inside : ∀ f, function = some f → f ∈ opens p.commands i) {q : Nat} :
    q ∈ within function (opens p.commands i) ↔ q ∈ opens p.commands i ∧ ∀ f, function = some f →
      f < q := by
  cases function with
  | none => simp [within]
  | some f =>
    obtain ⟨inner, split⟩ := opens_split p.found (inside f rfl)
    have sorted := (opens_sorted p.found i).1
    rw [split] at sorted ⊢
    have later : ∀ r ∈ inner, f < r := fun r mem => (pairwise_append.mp sorted).2.2 r mem f
      mem_cons_self
    have chain : within (some f) (inner ++ f :: opens p.commands f) = inner := by
      rw [within_append_left, within_self, append_nil]
      intro g same mem
      cases same
      exact Nat.lt_irrefl _ (later f mem)
    rw [chain]
    constructor
    · exact fun mem => ⟨mem_append_left _ mem, fun g same => by cases same; exact later q mem⟩
    · rintro ⟨mem, after⟩
      have after := after f rfl
      rcases mem_append.mp mem with above | below
      · exact above
      · rcases mem_cons.mp below with rfl | below
        · omega
        · have := lt_of_mem_opens p.found below
          omega

theorem Spot.Fits.isOf {o : Outline} {f : Frame} {form : Form} {last : Nat} (fits : f.spot.Fits o)
    (block : o.Spans f.place form last) : f.body.IsOf form := by
  obtain ⟨place, saved, body⟩ := f
  cases body with
  | cond c =>
    cases fits with
    | cond other _ => cases block.symm.trans other; trivial
  | loop l =>
    cases fits with
    | loop other => cases block.symm.trans other; rfl
  | guard g =>
    cases fits with
    | guard other => cases block.symm.trans other; trivial

theorem Seated.nested [p.Faithful] (seated : Seated p c.tier i) :
    Nested p.outline c.function c.blocks i := by
  have inside : ∀ f, c.function = some f → f ∈ opens p.commands i :=
    fun f own => (seated.function f own).1
  have places : (c.blocks.map Frame.place).Sublist (within c.function (opens p.commands i)) := by
    have places := seated.covers.places
    rwa [show c.tier.blocks.map Spot.place = c.blocks.map Frame.place by simp [Call.tier]] at places
  refine ⟨?_, ?_, ?_⟩
  · have sorted : (within c.function (opens p.commands i)).Pairwise (· > ·) := by
      cases c.function with
      | none => exact (opens_sorted p.found i).1
      | some f => exact (opens_sorted p.found i).1.sublist (takeWhile_sublist _)
    exact pairwise_map.mp (sorted.sublist places)
  · intro f mem
    have chain := places.subset (mem_map_of_mem mem)
    obtain ⟨opened, later⟩ := (mem_within_iff inside).mp chain
    obtain ⟨form, last, block, begins, ends⟩ := (mem_opens_iff p.found).mp opened
    have fits := seated.covers.fits f.spot (mem_map_of_mem mem)
    exact ⟨form, ⟨last, block, begins, ends, later⟩, fits.isOf block⟩
  · rintro q form ⟨last, block, begins, ends, later⟩ firm
    have opened := (mem_opens_iff p.found).mpr ⟨form, last, block, begins, ends⟩
    have chain := (mem_within_iff inside).mpr ⟨opened, later⟩
    obtain ⟨s, mem, rfl⟩ := seated.covers.mem chain block (Form.mayPass_of_firm firm)
    obtain ⟨f, present, rfl⟩ := mem_map.mp mem
    exact ⟨f, present, rfl⟩

theorem Chain.suspended {calls : List Call} [p.Faithful]
    (chain : Chain p c.tier (calls.map Call.tier)) : Suspended p.outline c calls := by
  induction calls generalizing c with
  | nil => trivial
  | cons lower rest ih =>
    cases chain with
    | @call _ _ _ f b own back verb going seated further =>
      exact ⟨⟨b, back, seated.nested⟩, ih further⟩

end Nesting

theorem Poised.nested {p : Program} {m : Machine} {i : Nat} [p.Faithful]
    (poised : Poised p m.control i) (fresh : m.resume ≠ m.here)
    (onward : ¬ (m.call.returning = true ∧ m.call.back = m.here)) :
    Nested p.outline m.call.function m.call.blocks i ∨
      ∃ f rest form, m.Top f rest ∧ f.place = i ∧ f.isLoop = true ∧
        (∃ last, p.Spans i form last) ∧ f.body.IsOf form ∧
        Nested p.outline m.call.function rest i := by
  have here : m.Here i := poised.here
  cases poised.stance with
  | inside _ _ seated => exact .inl seated.nested
  | round _ _ top fits seated =>
    obtain ⟨⟨place, saved, body⟩, rest, blocks, spot, rfl⟩ := map_eq_cons_iff.mp top
    have nested := @Seated.nested p { m.call with blocks := rest } i _ seated
    cases body with
    | loop l =>
      cases spot
      cases fits with
      | loop block => exact .inr ⟨_, rest, _, blocks, rfl, rfl, ⟨_, block⟩, rfl, nested⟩
    | cond _ | guard _ => cases spot
  | entry _ _ own clean _ =>
    have own : m.call.function = some i := own
    have clean : m.call.blocks = [] := map_eq_nil_iff.mp clean
    rw [own, clean]
    refine .inl ⟨.nil, by simp, ?_⟩
    rintro q form ⟨_, _, before, _, after⟩ _
    have := after i rfl
    omega
  | resume marked _ _ _ _ => exact absurd (Eq.trans marked here.symm) fresh
  | back _ returning source _ _ _ => exact absurd ⟨returning, Eq.trans source here.symm⟩ onward

/-- Whenever a command of a run is about to be executed, the open blocks are those around it: all
loops and guards, in the order of the text, inside the function that runs, and on top of them the
loop that begins its next round. A command that waited and a call on its way back apart, for which
the calls that wait still stand in their places. At the end of the script no block and no function
is open. -/
theorem lexical_blocks {p q : Program} {m : Machine} (outlined : q.outlined = .ok p)
    (start : q.start = 0) (reached : Reached p m) :
    (∀ c m', Ran (next p) m (.ok (some c)) m' → ∃ i : Nat, m'.here = some (i : Int) ∧
      p.commands[i]? = some c ∧ Suspended p.outline m'.call m'.outer ∧
      (m'.resume ≠ m'.here → ¬ (m'.call.returning = true ∧ m'.call.back = m'.here) →
        Nested p.outline m'.call.function m'.call.blocks i ∨
        ∃ f rest form, m'.call.blocks = f :: rest ∧ f.place = i ∧ f.isLoop = true ∧
          (∃ last, p.outline.block? i = some (.opener form last)) ∧ f.body.IsOf form ∧
          Nested p.outline m'.call.function rest i)) ∧
    (∀ m', Ran (next p) m (.ok none) m' → m'.stopped = false →
      m'.outer = [] ∧ m'.call.function = none ∧ m'.call.blocks = []) := by
  have := ready_of_outlined outlined start
  have placed := reached.placed
  constructor
  · intro c m' ran
    cases placed.ahead ran with
    | command has _ poised => exact ⟨_, poised.here, has, poised.chain.suspended, poised.nested⟩
  · intro m' ran running
    cases placed.ahead ran with
    | stopped stopped => rw [stopped] at running; cases running
    | ended _ outer function blocks => exact ⟨outer, function, blocks⟩

def callInLoop : Program := .ofCommands
  [{ name := "try" }, { name := "while", target := "true" }, { name := "call", target := "f" },
   { name := "endWhile" }, { name := "finally" }, { name := "endTry" },
   { name := "function", target := "f" }, { name := "if", target := "true" },
   { name := "echo", target := "text" }, { name := "endIf" }, { name := "endFunction" }]

theorem lexical_blocks_callInLoop :
    ∃ m m', Reached callInLoop m ∧ Ran (next callInLoop) m
      (.ok (some { name := "echo", target := "text" })) m' ∧
      m'.call.blocks.map Frame.place = [7] ∧ m'.outer.map (·.blocks.map Frame.place) = [[1, 0]] ∧
      Suspended callInLoop.outline m'.call m'.outer ∧
      (Nested callInLoop.outline m'.call.function m'.call.blocks 8 ∨
        ∃ f rest form, m'.call.blocks = f :: rest ∧ f.place = 8 ∧ f.isLoop = true ∧
          (∃ last, callInLoop.outline.block? 8 = some (.opener form last)) ∧ f.body.IsOf form ∧
          Nested callInLoop.outline m'.call.function rest 8) := by
  have outlined : callInLoop.outlined = .ok callInLoop := rfl
  have := ready_of_outlined outlined rfl
  have reached := Session.reached_runFor (p := callInLoop) (s := {}) 5 (.start {} #[])
  have run : (({} : Session).runFor callInLoop 5).2 = none ∧
      ((next callInLoop).run.run (({} : Session).runFor callInLoop 5).1.machine).1 =
        .ok (some { name := "echo", target := "text" }) := by decide +kernel
  have stands : ((next callInLoop).run.run (({} : Session).runFor callInLoop 5).1.machine).2.here =
    some 8 ∧ ((next callInLoop).run.run (({} : Session).runFor callInLoop 5).1.machine).2.resume =
    none ∧
    ((next callInLoop).run.run (({} : Session).runFor callInLoop 5).1.machine).2.call.returning =
    false ∧
    ((next callInLoop).run.run (({} : Session).runFor callInLoop 5).1.machine).2.call.blocks.map
    Frame.place = [7] ∧
    ((next callInLoop).run.run (({} : Session).runFor callInLoop 5).1.machine).2.outer.map
    (·.blocks.map Frame.place) = [[1, 0]] := by decide +kernel
  generalize ({} : Session).runFor callInLoop 5 = s at reached run stands
  have ran := (ran_iff (next callInLoop) s.1.machine _ _).mpr ⟨run.2, rfl⟩
  generalize ((next callInLoop).run.run s.1.machine).2 = m' at ran stands
  obtain ⟨here, idle, going, inner, outer⟩ := stands
  obtain ⟨i, place, _, suspended, nested⟩ :=
    (lexical_blocks outlined rfl (reached run.1)).1 _ m' ran
  obtain rfl : i = 8 := Int.ofNat.inj (Option.some.inj (place.symm.trans here))
  exact ⟨_, m', reached run.1, ran, inner, outer, suspended, nested (by simp [idle, here])
    (by simp [going])⟩

end Runbook
