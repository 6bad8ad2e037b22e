import Mathlib.Data.List.Forall2
import Runbook.Proofs.Comments.Renumber
import Runbook.Proofs.Machine.Control

/-!
Two machines that run a script without and with comments. The second one mirrors the first: it has
the same variables, calls and open blocks, at the new places. One action mimics another if the two
take such machines to such machines and give the same result.
-/

namespace Runbook

section Mirrors

variable (f : Nat ↪o Nat)

/-- The same error at its new place; its message may show other places. -/
structure Error.Mirrors (e e' : Error) : Prop where
  kind : e'.kind = e.kind
  index : e'.index = e.index.map (moved f)

inductive Failure.Mirrors : Failure → Failure → Prop
  | error {e e' : Error} (same : e.Mirrors f e') : Mirrors (.error e) (.error e')
  | fault (x : Fault) : Mirrors (.fault x) (.fault x)

inductive Bubble.Mirrors : Bubble → Bubble → Prop
  | failure {cause cause' : Failure} (same : cause.Mirrors f cause') (source : Int) :
      Mirrors (.failure cause source) (.failure cause' (moved f source))
  | command (source : Option Int) (ceiling crosses : Bool) :
      Mirrors (.command source ceiling crosses) (.command (source.map (moved f)) ceiling crosses)

def Cond.renumber (c : Cond) : Cond := { c with left := c.left.map f }

structure Guard.Mirrors (g g' : Guard) : Prop where
  name : g'.name = g.name
  phase : g'.phase = g.phase
  caught : g'.caught = g.caught
  finaled : g'.finaled = g.finaled
  pending : Option.Rel (Bubble.Mirrors f) g.pending g'.pending

inductive Body.Mirrors : Body → Body → Prop
  | cond (c : Cond) : Mirrors (.cond c) (.cond (c.renumber f))
  | loop (l : Loop) : Mirrors (.loop l) (.loop l)
  | guard {g g' : Guard} (same : g.Mirrors f g') : Mirrors (.guard g) (.guard g')

structure Frame.Mirrors (x y : Frame) : Prop where
  place : y.place = f x.place
  saved : y.saved = x.saved
  body : x.body.Mirrors f y.body

structure Call.Mirrors (c c' : Call) : Prop where
  function : c'.function = c.function.map f
  name : c'.name = c.name
  args : c'.args = c.args
  back : c'.back = c.back.map (moved f)
  saved : c'.saved = c.saved
  blocks : List.Forall₂ (Frame.Mirrors f) c.blocks c'.blocks
  returning : c'.returning = c.returning

structure Machine.Mirrors (m m' : Machine) : Prop where
  vars : m'.vars = m.vars
  call : m.call.Mirrors f m'.call
  outer : List.Forall₂ (Call.Mirrors f) m.outer m'.outer
  here : m'.here = m.here.map (moved f)
  /-- The current command is one of the script, or none before the first. -/
  placed : ∀ i, m.here = some i → 0 ≤ i
  started : m'.started = m.started
  branch : m'.branch = m.branch.map f
  stopped : m'.stopped = m.stopped
  resume : m'.resume = m.resume.map (moved f)

end Mirrors

section Facts

variable {f : Nat ↪o Nat} {e e' : Failure} {x y : Frame} {m m' : Machine}

theorem Failure.Mirrors.locate (same : e.Mirrors f e') (place : Option Int) :
    (e.locate place).Mirrors f (e'.locate (place.map (moved f))) := by
  cases same with
  | fault x => exact .fault x
  | @error e e' same =>
    refine .error ⟨same.kind, ?_⟩
    simp only [Error.locate, same.index]
    cases e.index <;> rfl

theorem Failure.Mirrors.isFatal (same : e.Mirrors f e') : e'.isFatal = e.isFatal := by
  cases same with
  | fault x => rfl
  | error same => simp only [Failure.isFatal, same.kind]

theorem Frame.Mirrors.kinds {motive : ∀ x y, x.Mirrors f y → Prop} (same : x.Mirrors f y)
    (cond : ∀ place saved c, motive ⟨place, saved, .cond c⟩ ⟨f place, saved, .cond (c.renumber f)⟩
      ⟨rfl, rfl, .cond c⟩)
    (loop : ∀ place saved l, motive ⟨place, saved, .loop l⟩ ⟨f place, saved, .loop l⟩
      ⟨rfl, rfl, .loop l⟩)
    (guard : ∀ place saved g g' (guards : g.Mirrors f g'),
      motive ⟨place, saved, .guard g⟩ ⟨f place, saved, .guard g'⟩ ⟨rfl, rfl, .guard guards⟩) :
    motive x y same := by
  obtain ⟨place, saved, body⟩ := x
  obtain ⟨place', saved', body'⟩ := y
  obtain ⟨places, saves, bodies⟩ := same
  cases places
  cases saves
  have bodies : body.Mirrors f body' := bodies
  cases bodies with
  | cond c => exact cond _ _ c
  | loop l => exact loop _ _ l
  | guard guards => exact guard _ _ _ _ guards

theorem Frame.Mirrors.isLoop (same : x.Mirrors f y) : y.isLoop = x.isLoop := by
  cases same using Frame.Mirrors.kinds <;> rfl

theorem Frame.Mirrors.intercepts (same : x.Mirrors f y) : y.intercepts = x.intercepts := by
  cases same using Frame.Mirrors.kinds with
  | cond | loop => rfl
  | guard _ _ _ _ guards => simp only [Frame.intercepts, guards.phase]

theorem Frame.Mirrors.pending? (same : x.Mirrors f y) :
    Option.Rel (Bubble.Mirrors f) x.pending? y.pending? := by
  cases same using Frame.Mirrors.kinds with
  | cond | loop => exact .none
  | guard _ _ _ _ guards => exact guards.pending

theorem restore_mirrors {bs bs' : List Frame} (same : List.Forall₂ (Frame.Mirrors f) bs bs')
    (vars : Env) :
    bs'.foldl (fun env f => env.restore f.saved) vars = bs.foldl (fun env f => env.restore f.saved)
      vars := by
  induction same generalizing vars with
  | nil => rfl
  | cons top _ ih =>
    simp only [List.foldl_cons, top.saved]
    exact ih _

theorem Call.Mirrors.release {c c' : Call} (same : c.Mirrors f c') (vars : Env) :
    c'.release vars = c.release vars := by
  simp only [Call.release, restore_mirrors same.blocks, same.saved]

theorem Machine.Mirrors.calls (same : m.Mirrors f m') :
    List.Forall₂ (Call.Mirrors f) m.calls m'.calls := .cons same.call same.outer

theorem Machine.Mirrors.isGuarded (same : m.Mirrors f m') : m'.isGuarded = m.isGuarded := by
  have frames : List.Forall₂ (Frame.Mirrors f) m.frames m'.frames :=
    List.rel_flatMap same.calls fun _ _ call => call.blocks
  have guards : List.Forall₂ (Frame.Mirrors f) (m.frames.filter (·.intercepts))
      (m'.frames.filter (·.intercepts)) := by
    apply List.rel_filter _ frames
    intro x y top
    show x.intercepts = true ↔ y.intercepts = true
    rw [top.intercepts]
  have depth : m'.guardDepth = m.guardDepth := guards.length_eq.symm
  simp only [Machine.isGuarded, depth]

end Facts

namespace Action

inductive Agree {α β : Type} (f : Nat ↪o Nat) (R : α → β → Prop) :
    Except Failure α × Machine → Except Failure β × Machine → Prop
  | ok {x y} {m : Machine} {m'} (result : R x y) (after : m.Mirrors f m') :
      Agree f R (.ok x, m) (.ok y, m')
  | error {e : Failure} {e'} {m : Machine} {m'} (cause : e.Mirrors f e') (after : m.Mirrors f m') :
      Agree f R (.error e, m) (.error e', m')

def Mimics {α β : Type} (f : Nat ↪o Nat) (R : α → β → Prop) (a : Action α) (b : Action β) : Prop :=
  ∀ m m', m.Mirrors f m' → Agree f R (a.run.run m) (b.run.run m')

section Mimics

variable {α β γ δ : Type} {f : Nat ↪o Nat} {R : α → β → Prop} {S : γ → δ → Prop} {a : Action α}
  {b : Action β} {k : α → Action γ} {x : Except Fault α}

theorem mimics_pure {x : α} {y : β} (result : R x y) : Mimics f R (pure x) (pure y) :=
  fun _ _ same => .ok result same

theorem mimics_throw {e e' : Failure} (cause : e.Mirrors f e') : Mimics f R (throw e) (throw e') :=
  fun _ _ same => .error cause same

theorem mimics_bind {l : β → Action δ} (first : Mimics f R a b)
    (rest : ∀ x y, R x y → Mimics f S (k x) (l y)) : Mimics f S (a >>= k) (b >>= l) := by
  intro m m' same
  rw [run_bind, run_bind]
  have out := first m m' same
  generalize a.run.run m = r at out ⊢
  generalize b.run.run m' = r' at out ⊢
  cases out with
  | ok result after => exact rest _ _ result _ _ after
  | error cause after => exact .error cause after

theorem mimics_seq {b : Action α} {l : α → Action δ} (first : Mimics f Eq a b)
    (rest : ∀ x, Mimics f S (k x) (l x)) : Mimics f S (a >>= k) (b >>= l) := by
  apply mimics_bind first
  rintro x _ rfl
  exact rest x

theorem mimics_ite {P Q : Prop} [Decidable P] [Decidable Q] {a' : Action α} {b' : Action β}
    (same : Q ↔ P) (yes : P → Mimics f R a b) (no : ¬ P → Mimics f R a' b') :
    Mimics f R (if P then a else a') (if Q then b else b') := by
  by_cases holds : P
  · rw [if_pos holds, if_pos (same.mpr holds)]
    exact yes holds
  · rw [if_neg holds, if_neg fun other => holds (same.mp other)]
    exact no holds

theorem mimics_get : Mimics f (Machine.Mirrors f) get get := fun _ _ same => .ok same same

theorem mimics_set {n n' : Machine} (same : n.Mirrors f n') :
    Mimics f Eq (set n : Action PUnit) (set n') :=
  fun _ _ _ => .ok rfl same

theorem mimics_modify {how how' : Machine → Machine}
    (keeps : ∀ m m', m.Mirrors f m' → (how m).Mirrors f (how' m')) :
    Mimics f Eq (modify how : Action PUnit) (modify how') :=
  fun m m' same => .ok rfl (keeps m m' same)

theorem mimics_fault {x : Fault} : Mimics f R (fault x) (fault x) := mimics_throw (.fault x)

theorem mimics_orFault {g : α → β} : Mimics f (g · = ·) (orFault x) (orFault (x.map g)) := by
  cases x with
  | ok a => exact mimics_pure rfl
  | error x => exact mimics_fault

theorem mimics_orFault_eq : Mimics f Eq (orFault x) (orFault x) := by
  cases x with
  | ok a => exact mimics_pure rfl
  | error x => exact mimics_fault

theorem mimics_logEvent {level level' : Level} {topic topic' : Topic} {text text' : String}
    {locals locals' : Option (List String)} {depth depth' : Option Nat} :
    Mimics f Eq (logEvent level topic text locals depth)
      (logEvent level' topic' text' locals' depth') :=
  mimics_modify fun _ _ same => { same with }

theorem mimics_assign (values : List (String × Value)) :
    Mimics f Eq (assign values) (assign values) :=
  mimics_modify fun _ _ same => { same with vars := by rw [same.vars] }

end Mimics

section Blocks

variable {f : Nat ↪o Nat} {bs bs' : List Frame} {wanted wanted' : Frame → Except Fault Bool}

theorem mimics_blocks : Mimics f (List.Forall₂ (Frame.Mirrors f)) blocks blocks :=
  mimics_bind mimics_get fun _ _ same => mimics_pure same.call.blocks

theorem mimics_setBlocks (same : List.Forall₂ (Frame.Mirrors f) bs bs') :
    Mimics f Eq (setBlocks bs) (setBlocks bs') :=
  mimics_modify fun _ _ machines => { machines with call := { machines.call with blocks := same } }

theorem mimics_push {x y : Frame} (same : x.Mirrors f y) : Mimics f Eq (push x) (push y) :=
  mimics_bind mimics_blocks fun _ _ rest => mimics_setBlocks (.cons same rest)

theorem mimics_change {how how' : Frame → Frame}
    (keeps : ∀ x y, x.Mirrors f y → (how x).Mirrors f (how' y)) :
    Mimics f Eq (change how) (change how') := by
  apply mimics_bind mimics_blocks
  intro bs bs' same
  cases same with
  | nil => exact mimics_pure rfl
  | cons top rest => exact mimics_setBlocks (.cons (keeps _ _ top) rest)

theorem mimics_changeGuard {how how' : Guard → Guard}
    (keeps : ∀ g g', g.Mirrors f g' → (how g).Mirrors f (how' g')) :
    Mimics f Eq (changeGuard how) (changeGuard how') := by
  apply mimics_change
  intro x y same
  cases same using Frame.Mirrors.kinds with
  | cond _ _ c => exact ⟨rfl, rfl, .cond c⟩
  | loop _ _ l => exact ⟨rfl, rfl, .loop l⟩
  | guard _ _ _ _ guards => exact ⟨rfl, rfl, .guard (keeps _ _ guards)⟩

theorem mimics_changeLoop {how : Loop → Loop} : Mimics f Eq (changeLoop how) (changeLoop how) := by
  apply mimics_change
  intro x y same
  cases same using Frame.Mirrors.kinds with
  | cond _ _ c => exact ⟨rfl, rfl, .cond c⟩
  | loop _ _ l => exact ⟨rfl, rfl, .loop (how l)⟩
  | guard _ _ _ _ guards => exact ⟨rfl, rfl, .guard guards⟩

theorem mimics_changeCond {how how' : Cond → Cond}
    (keeps : ∀ c, how' (c.renumber f) = (how c).renumber f) :
    Mimics f Eq (changeCond how) (changeCond how') := by
  apply mimics_change
  intro x y same
  cases same using Frame.Mirrors.kinds with
  | cond _ _ c =>
    refine ⟨rfl, rfl, ?_⟩
    show (Body.cond (how c)).Mirrors f (.cond (how' (c.renumber f)))
    rw [keeps]
    exact .cond (how c)
  | loop _ _ l => exact ⟨rfl, rfl, .loop l⟩
  | guard _ _ _ _ guards => exact ⟨rfl, rfl, .guard guards⟩

theorem mimics_pop : Mimics f (Frame.Mirrors f) pop pop := by
  apply mimics_bind mimics_blocks
  intro bs bs' same
  cases same with
  | nil => exact mimics_fault
  | @cons x y _ _ top rest =>
    have restores : Mimics f Eq
      (modify fun m => { m with vars := m.vars.restore x.saved } : Action PUnit)
      (modify fun m => { m with vars := m.vars.restore y.saved }) :=
      mimics_modify fun _ _ same => { same with vars := by rw [same.vars, top.saved] }
    exact mimics_seq (mimics_setBlocks rest) fun _ => mimics_seq restores fun _ => mimics_pure top

theorem mimics_unwindFrom (agree : ∀ x y, x.Mirrors f y → wanted' y = wanted x)
    (same : List.Forall₂ (Frame.Mirrors f) bs bs') :
    Mimics f (Option.Rel (Frame.Mirrors f)) (unwindFrom wanted bs) (unwindFrom wanted' bs') := by
  induction same with
  | nil => exact mimics_pure .none
  | @cons x y _ _ top _ ih =>
    unfold unwindFrom
    rw [agree x y top]
    apply mimics_seq mimics_orFault_eq
    intro found
    split
    · exact mimics_pure (.some top)
    · exact mimics_bind mimics_pop fun _ _ _ => ih

theorem mimics_unwind (agree : ∀ x y, x.Mirrors f y → wanted' y = wanted x) :
    Mimics f (Option.Rel (Frame.Mirrors f)) (unwind wanted) (unwind wanted') :=
  mimics_bind mimics_blocks fun _ _ same => mimics_unwindFrom agree same

end Blocks

end Action

/-- The program with comments: its commands are others, and its outline is renumbered. -/
def Program.renumber (p : Program) (f : Nat → Nat) (cs : List Command) : Program :=
  { p with commands := cs, outline := p.outline.renumber f }

namespace Action

variable {α β : Type} {f : Nat ↪o Nat} {R : α → β → Prop} {p : Program} {cs : List Command}
  {x y : Frame}

theorem mimics_complain {kind : Kind} {text text' : String} :
    Mimics f R (complain p kind text) (complain (p.renumber f cs) kind text') :=
  mimics_bind mimics_get fun _ _ same => mimics_throw (.error ⟨rfl, same.here⟩)

theorem mimics_eval (text : String) : Mimics f Eq (eval p text) (eval (p.renumber f cs) text) := by
  apply mimics_bind mimics_get
  intro m m' same
  have evaluator : (p.renumber f cs).evaluator = p.evaluator := rfl
  rw [same.vars, evaluator]
  generalize p.evaluator text m.vars = out
  obtain ⟨result, vars⟩ := out
  have sets :
      Mimics f Eq (set { m with vars := vars } : Action PUnit) (set { m' with vars := vars }) :=
    mimics_set { same with vars := rfl }
  apply mimics_seq sets
  intro _
  match result with
  | .ok v => exact mimics_pure rfl
  | .error (.error message) => exact mimics_throw (.error ⟨rfl, same.here⟩)
  | .error (.foreign _ message) => exact mimics_throw (.error ⟨rfl, same.here⟩)

theorem mimics_textOf (v : Value) : Mimics f Eq (textOf p v) (textOf (p.renumber f cs) v) :=
  mimics_orFault_eq

theorem mimics_holds (text : String) : Mimics f Eq (holds p text) (holds (p.renumber f cs) text) :=
  mimics_seq (mimics_eval text) fun _ => mimics_pure rfl

theorem mimics_expectTop {place : Nat} :
    Mimics f (Frame.Mirrors f) (expectTop p place) (expectTop (p.renumber f cs) (f place)) := by
  apply mimics_bind mimics_blocks
  intro bs bs' same
  cases same with
  | nil => exact mimics_complain
  | cons top rest =>
    exact mimics_ite (by rw [top.place, f.injective.eq_iff]) (fun _ => mimics_pure top) fun _ =>
      mimics_complain

theorem mimics_pushCall {c c' : Call} (same : c.Mirrors f c') :
    Mimics f Eq (pushCall c) (pushCall c') :=
  mimics_modify fun _ _ machines => { machines with call := same, outer := machines.calls }

theorem mimics_popCall : Mimics f (Call.Mirrors f) (popCall p) (popCall (p.renumber f cs)) := by
  apply mimics_bind mimics_get
  intro m m' same
  have outer := same.outer
  generalize m.outer = around, m'.outer = around' at outer
  cases outer with
  | nil => exact mimics_complain
  | @cons c c' outer outer' next rest =>
    apply mimics_bind mimics_get
    intro n n' same
    have leaves : Mimics f Eq
        (modify fun k => { k with call := c, outer := outer, vars := n.call.release k.vars } :
        Action PUnit)
        (modify fun k => { k with call := c', outer := outer', vars := n'.call.release k.vars }) :=
      mimics_modify fun _ _ machines => { machines with
        call := next
        outer := rest
        vars := by rw [machines.vars, same.call.release] }
    exact mimics_seq leaves fun _ => mimics_pure same.call

theorem blockAt?_renumber (place : Option Int) :
    blockAt? (p.renumber f cs) (place.map (moved f)) =
      (blockAt? p place).map (Block.renumber f) := by
  cases place with
  | none => rfl
  | some i =>
    simp only [Option.map_some, blockAt?, moved_neg_iff]
    split
    · rfl
    · rename_i inside
      have place : (moved f i).toNat = f i.toNat := by simp [moved, inside]
      rw [place]
      exact Outline.block?_renumber f p.outline

theorem mimics_openerHere :
    Mimics f (fun x y => y = (f x.1, x.2.1.renumber f, f x.2.2)) (openerHere p)
    (openerHere (p.renumber f cs)) := by
  apply mimics_bind mimics_get
  intro m m' same
  dsimp only
  rw [same.here, blockAt?_renumber]
  cases here : m.here with
  | none => exact mimics_fault
  | some i =>
    match block : blockAt? p (some i) with
    | none => exact mimics_fault
    | some (.partner owner) => exact mimics_fault
    | some (.opener form last) =>
      have inside : ¬ i < 0 := by have := same.placed i here; omega
      apply mimics_pure
      simp [moved, inside]

theorem mimics_ownerHere : Mimics f (f · = ·) (ownerHere p) (ownerHere (p.renumber f cs)) := by
  apply mimics_bind mimics_get
  intro m m' same
  rw [same.here, blockAt?_renumber]
  match blockAt? p m.here with
  | none => exact mimics_fault
  | some (.partner owner) => exact mimics_pure rfl
  | some (.opener form last) => exact mimics_fault

theorem lastOf_renumber (place : Nat) :
    lastOf (p.renumber f cs) (f place) = (lastOf p place).map f := by
  simp only [lastOf, Program.renumber, Outline.block?_renumber]
  match p.outline.block? place with
  | none => rfl
  | some (.partner owner) => rfl
  | some (.opener form last) => rfl

def Segments.renumber (f : Nat → Nat) (s : Segments) : Segments :=
  ⟨s.catchAt.map f, s.finallyAt.map f, f s.last⟩

theorem segmentsOf_renumber (place : Nat) :
    segmentsOf (p.renumber f cs) (f place) = (segmentsOf p place).map (Segments.renumber f) := by
  simp only [segmentsOf, Program.renumber, Outline.block?_renumber]
  match p.outline.block? place with
  | none => rfl
  | some (.partner owner) => rfl
  | some (.opener form last) => cases form <;> rfl

theorem mimics_segmentsOf (same : x.Mirrors f y) :
    Mimics f (Segments.renumber f · = ·) (orFault (segmentsOf p x.place))
      (orFault (segmentsOf (p.renumber f cs) y.place)) := by
  rw [same.place, segmentsOf_renumber]
  exact mimics_orFault

theorem mimics_lastOf (same : x.Mirrors f y) :
    Mimics f (f · = ·) (orFault (lastOf p x.place))
      (orFault (lastOf (p.renumber f cs) y.place)) := by
  rw [same.place, lastOf_renumber]
  exact mimics_orFault

theorem owesCatch_renumber (same : x.Mirrors f y) :
    owesCatch (p.renumber f cs) y = owesCatch p x := by
  cases same using Frame.Mirrors.kinds with
  | cond | loop => rfl
  | guard place _ _ _ guards =>
    simp only [owesCatch, segmentsOf_renumber, guards.caught]
    cases segmentsOf p place with
    | error x => rfl
    | ok s => simp [Except.map, bind, Except.bind, Segments.renumber]

theorem owesFinally_renumber (same : x.Mirrors f y) :
    owesFinally (p.renumber f cs) y = owesFinally p x := by
  cases same using Frame.Mirrors.kinds with
  | cond | loop => rfl
  | guard place _ _ _ guards =>
    simp only [owesFinally, segmentsOf_renumber, guards.finaled]
    cases segmentsOf p place with
    | error x => rfl
    | ok s => simp [Except.map, bind, Except.bind, Segments.renumber]

section Next

variable (embeds : Embeds f p.commands cs)

include embeds

theorem mimics_branchTo (place : Int) :
    Mimics f Eq (branchTo p place) (branchTo (p.renumber f cs) (moved f place)) := by
  have bounds : (0 ≤ moved f place ∧ moved f place < (p.renumber f cs).commands.length) ↔
      (0 ≤ place ∧ place < p.commands.length) := by
    have low := moved_neg_iff f place
    have high := moved_lt_iff f place p.commands.length
    rw [embeds.size] at high
    show (0 ≤ moved f place ∧ moved f place < (cs.length : Int)) ↔ _
    omega
  refine mimics_ite bounds (fun inside => ?_) fun _ => mimics_complain
  apply mimics_modify
  intro m m' same
  have place : (moved f place).toNat = f place.toNat := by simp [moved, show ¬ place < 0 by omega]
  exact { same with branch := by rw [place]; rfl }

theorem mimics_branchTo_nat (place : Nat) :
    Mimics f Eq (branchTo p (place : Int)) (branchTo (p.renumber f cs) (f place : Int)) := by
  have branch := mimics_branchTo embeds (place : Int)
  rwa [moved_natCast] at branch

theorem mimics_branchBack {place : Option Int} :
    Mimics f Eq (branchBack p place) (branchBack (p.renumber f cs) (place.map (moved f))) := by
  cases place with
  | none => exact mimics_fault
  | some place => exact mimics_branchTo embeds place

theorem mimics_branchBack_nat {place : Option Nat} :
    Mimics f Eq (branchBack p (place.map Int.ofNat))
      (branchBack (p.renumber f cs) ((place.map f).map Int.ofNat)) := by
  cases place with
  | none => exact mimics_fault
  | some place => exact mimics_branchTo_nat embeds place

end Next

end Action

end Runbook
