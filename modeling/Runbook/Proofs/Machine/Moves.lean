import Runbook.Proofs.Machine.Reading

namespace Runbook

inductive Spot.Fits (o : Outline) : Spot → Prop
  | cond {place last} {c : Cond} {elseIfs orElse}
      (block : o.Spans place (.cond elseIfs orElse) last) (within : ∀ j ∈ c.left, j ∈ elseIfs) :
      Fits o ⟨place, .cond c⟩
  | loop {place last kind complete} (block : o.Spans place (.loop kind) last) :
      Fits o ⟨place, .loop kind complete⟩
  | guard {place last g name catchAt finallyAt}
      (block : o.Spans place (.guard name catchAt finallyAt) last) : Fits o ⟨place, .guard g⟩

namespace Guard

def opened (name : String) (catchAt finallyAt : Option Nat) : Guard :=
  { name := name, phase := if catchAt.isSome || finallyAt.isSome then some .trying else none }

def holding (g : Guard) (b : Bubble) : Guard := { g with pending := some b }

def finishing (g : Guard) : Guard := { g with phase := some .finishing, finaled := true }

def catching (g : Guard) : Guard :=
  { g with caught := true, phase := some .catching, pending := none }

end Guard

namespace Spot

def isLoop (s : Spot) : Bool :=
  match s.mark with
  | .loop _ _ => true
  | _ => false

def isCond (s : Spot) : Bool :=
  match s.mark with
  | .cond _ => true
  | _ => false

def guard? (s : Spot) : Option Guard :=
  match s.mark with
  | .guard g => some g
  | _ => none

def intercepts (s : Spot) : Bool :=
  match s.mark with
  | .guard g => g.phase.isSome
  | _ => false

/-- Whether a guard has a last segment that control was not sent to yet. -/
def owesFinally (o : Outline) (s : Spot) : Bool :=
  match s.mark, o.block? s.place with
  | .guard g, some (.opener (.guard _ _ (some _)) _) => !g.finaled
  | _, _ => false

def toll (o : Outline) (s : Spot) : Option Action.Toll :=
  match s.mark with
  | .guard g =>
    if g.phase = some .finishing ∧ g.pending.isSome then some .replace
    else if s.owesFinally o then some .finish
    else none
  | _ => none

def Passes (o : Outline) (ceiling : Bool) (s : Spot) : Prop :=
  (ceiling = true → s.isLoop = false) ∧ s.toll o = none

/-- A failure on its way goes past this guard once the guard does not catch it. -/
def isSpent (o : Outline) (s : Spot) : Bool :=
  match s.mark with
  | .guard g => g.phase ≠ some .trying && !s.owesFinally o
  | _ => false

end Spot

namespace Control

def Fits (o : Outline) (k : Control) : Prop := ∀ s ∈ k.spots, s.Fits o

/-- Nothing on the way of a command asks for anything: it reaches the loop it stops at, or leaves
all these blocks. -/
inductive Clear (o : Outline) (ceiling : Bool) : List (List Spot) → Prop
  | nil : Clear o ceiling []
  | reached {above rest} {s : Spot} {more} (bounded : ceiling = true)
      (passed : ∀ x ∈ above, x.Passes o ceiling) (loop : s.isLoop = true) :
      Clear o ceiling ((above ++ s :: rest) :: more)
  | through {blocks more} (passed : ∀ x ∈ blocks, x.Passes o ceiling)
      (rest : Clear o ceiling more) : Clear o ceiling (blocks :: more)

def wayOut (k : Control) (crosses : Bool) : List (List Spot) :=
  if crosses then k.tiers.map Tier.blocks else [k.call.blocks]

/-- What becomes of a guard that something waits on, and where the run goes on. -/
inductive Detains (o : Outline) (place : Nat) (b : Bubble) (g : Guard) : Guard → Nat → Prop
  | replaces {last name catchAt finallyAt}
      (block : o.Spans place (.guard name catchAt finallyAt) last)
      (running : g.phase = some .finishing) (occupied : g.pending.isSome = true) :
      Detains o place b g (g.holding b) last
  | finishes {last finallyAt name catchAt}
      (block : o.Spans place (.guard name catchAt (some finallyAt)) last)
      (owed : g.finaled = false) : Detains o place b g (g.finishing.holding b) finallyAt

/-- A command waits on the first guard that asks for it; what is inside this guard is left. -/
inductive Waits (o : Outline) (k : Control) (source : Option Int) (ceiling crosses : Bool) :
    Control → Prop
  | on {passed outer} {t : Tier} {above rest place n g g'} (tiers : k.tiers = passed ++ t :: outer)
      (blocks : t.blocks = above ++ ⟨place, .guard g⟩ :: rest)
      (inside : crosses = false → passed = [])
      (left : ∀ d ∈ passed, ∀ x ∈ d.blocks, x.Passes o ceiling)
      (gone : ∀ x ∈ above, x.Passes o ceiling)
      (detains : Detains o place (.command source ceiling crosses) g g' n) :
      Waits o k source ceiling crosses ((k.unwound t (⟨place, .guard g'⟩ :: rest) outer).goto n)

inductive Chooses (o : Outline) (k : Control) (place : Nat) (c : Cond) (rest : List Spot) :
    Except Failure Unit → Control → Prop
  | fail (e : Failure) (evaluating : e.kind? = some .eval) :
      Chooses o k place c rest (.error e) (k.withBlocks (⟨place, .cond c⟩ :: rest))
  | holds : Chooses o k place c rest (.ok ())
      (k.withBlocks (⟨place, .cond { c with decided := true }⟩ :: rest))
  | next {first others} (left : c.left = first :: others) :
      Chooses o k place c rest (.ok ())
        ((k.withBlocks (⟨place, .cond { c with left := others }⟩ :: rest)).goto first)
  | last {elseIfs} {orElse : Option Nat} {last} (left : c.left = [])
      (block : o.Spans place (.cond elseIfs orElse) last) :
      Chooses o k place c rest (.ok ())
        ((k.withBlocks (⟨place, .cond c⟩ :: rest)).goto (orElse.getD last))

end Control

open Control

def Verb.isFree : Verb → Bool
  | .label | .goto | .gotoIf | .skipNext | .load _ => true
  | _ => false

section

variable {v : Verb} {p : Program} {i : Nat} {k : Control} {e : Failure}

theorem Verb.isFree_of_jumps (jumps : v.jumps = true) : v.isFree = true := by
  cases v <;> first | rfl | cases jumps

theorem Verb.role_of_isFree (free : v.isFree = true) : v.role = .plain := by
  cases v <;> first | rfl | cases free

def Verb.asks : Verb → Bool
  | .elseIf | .orElse | .endIf | .openCatch | .openFinally | .endTry | .endLoop _ => true
  | _ => false

def Verb.isBranch : Verb → Bool
  | .elseIf | .orElse => true
  | _ => false

def Verb.givesBack : Verb → Bool
  | .giveBack | .endFunction _ => true
  | _ => false

/-- How the command at the place `i` may fail: with a fault of values or files only if it reads
them, for the way it goes only if it jumps, and for the blocks that are open only if the one it
belongs to is not innermost. -/
structure Excused (p : Program) (i : Nat) (v : Verb) (k : Control) (e : Failure) : Prop where
  fault : ∀ f, e = .fault f → f.arises (some v) = true
  jump : e.kind? = some .jump → v.jumps = true
  scope : e.kind? = some .scope → v.asks = true ∧ ∃ owner, p.Links i owner ∧
    ∀ s rest, k.Top s rest → s.place ≠ owner

theorem excused_of_arises (arises : e.Arises (some v)) : Excused p i v k e := by
  cases e with
  | error e =>
    exact ⟨nofun, fun same => absurd (Option.some.inj same) arises.1, fun same => absurd
      (Option.some.inj same) arises.2⟩
  | fault f =>
    refine ⟨fun f' same => ?_, nofun, nofun⟩
    cases same
    exact arises

theorem excused_of_kind {kind : Kind} (same : e.kind? = some kind)
    (other : kind ≠ .jump ∧ kind ≠ .scope) : Excused p i v k e := by
  refine ⟨?_, ?_, ?_⟩
  · rintro f rfl
    cases same
  · exact fun wrong => absurd (Option.some.inj (same.symm.trans wrong)) other.1
  · exact fun wrong => absurd (Option.some.inj (same.symm.trans wrong)) other.2

theorem excused_of_jump (jumps : v.jumps = true) (same : e.kind? = some .jump) :
    Excused p i v k e := by
  refine ⟨?_, fun _ => jumps, ?_⟩
  · rintro f rfl
    cases same
  · intro wrong
    cases same.symm.trans wrong

theorem excused_of_stray {owner : Nat} (asks : v.asks = true) (scope : e.kind? = some .scope)
    (owned : p.Links i owner) (stray : ∀ s rest, k.Top s rest → s.place ≠ owner) :
    Excused p i v k e := by
  refine ⟨?_, ?_, fun _ => ⟨asks, owner, owned, stray⟩⟩
  · rintro f rfl
    cases scope
  · intro wrong
    cases scope.symm.trans wrong

end

inductive Move (p : Program) (i : Nat) (resuming : Bool) (k : Control) :
    Verb → Reply Unit → Control → Prop
  /-- A command may fail before it does anything. The start of a last segment and a call on its way
  back are apart. -/
  | fail {v} (other : v ≠ .openFinally)
      (fresh : v = .call → ¬ (k.call.returning = true ∧ k.call.back = k.here)) (e : Failure)
      (excused : Excused p i v k e) : Move p i resuming k v (.error e) k
  | stay {v : Verb} (plain : v.isFree = true) : Move p i resuming k v (.ok ()) k
  | jump {v : Verb} {dest : Nat} {left} {rest : List Spot} (jumps : v.jumps = true)
      (region : p.outline.region? i = p.outline.region? dest)
      (blocks : k.call.blocks = left ++ rest)
      (gone : ∀ s ∈ left, s.isCond = true ∧ s.place ∉ opens p.commands dest)
      (kept : ∀ s, rest.head? = some s → s.isCond = true → s.place ∈ opens p.commands dest)
      (bound : dest < p.commands.length)
      (named : dest ≤ i → ∃ w, p.Does dest w ∧ w.declares = true) :
      Move p i resuming k v (.ok ()) ((k.withBlocks rest).goto dest)
  | overjump {v : Verb} {dest : Nat} {left rest} (jumps : v.jumps = true)
      (region : p.outline.region? i = p.outline.region? dest)
      (blocks : k.call.blocks = left ++ rest)
      (gone : ∀ s ∈ left, s.isCond = true ∧ s.place ∉ opens p.commands dest)
      (beyond : p.commands.length ≤ dest) (e : Failure) (kind : e.kind? = some .jump) :
      Move p i resuming k v (.error e) (k.withBlocks rest)
  | openIf {k' elseIfs orElse last r}
      (block : p.Spans i (.cond elseIfs orElse) last)
      (chooses : Chooses p.outline k i { left := elseIfs } k.call.blocks r k') :
      Move p i resuming k .openIf r k'
  | elseIf {k' owner} {c : Cond} {rest r}
      (owned : p.Links i owner) (top : k.Top ⟨owner, .cond c⟩ rest)
      (undecided : c.decided = false) (chooses : Chooses p.outline k owner c rest r k') :
      Move p i resuming k .elseIf r k'
  | skip {v : Verb} {owner last form} {c : Cond} {rest}
      (branch : v.isBranch = true) (owned : p.Links i owner)
      (top : k.Top ⟨owner, .cond c⟩ rest) (decided : c.decided = true)
      (block : p.Spans owner form last) : Move p i resuming k v (.ok ()) (k.goto last)
  | orElse {owner} {c : Cond} {rest}
      (owned : p.Links i owner) (top : k.Top ⟨owner, .cond c⟩ rest)
      (undecided : c.decided = false) : Move p i resuming k .orElse (.ok ()) k
  | endIf {owner c rest}
      (owned : p.Links i owner) (top : k.Top ⟨owner, .cond c⟩ rest) :
      Move p i resuming k .endIf (.ok ()) (k.withBlocks rest)
  | openTry {name given catchAt finallyAt last}
      (block : p.Spans i (.guard name catchAt finallyAt) last) :
      Move p i resuming k .openTry (.ok ()) (k.push ⟨i, .guard (.opened given catchAt finallyAt)⟩)
  | openCatch {owner} {g : Guard} {rest}
      (owned : p.Links i owner) (top : k.Top ⟨owner, .guard g⟩ rest)
      (entered : g.phase = some .catching) : Move p i resuming k .openCatch (.ok ()) k
  | passCatch {owner last} {g : Guard} {rest name catchAt} {finallyAt : Option Nat}
      (owned : p.Links i owner) (top : k.Top ⟨owner, .guard g⟩ rest)
      (passing : g.phase ≠ some .catching)
      (block : p.Spans owner (.guard name catchAt finallyAt) last) :
      Move p i resuming k .openCatch (.ok ()) (k.goto (finallyAt.getD last))
  | openFinally {owner} {g : Guard} {rest}
      (owned : p.Links i owner) (top : k.Top ⟨owner, .guard g⟩ rest)
      (fresh : g.phase.isSome = true) (owed : g.finaled = false) :
      Move p i resuming k .openFinally (.ok ())
        (k.withBlocks (⟨owner, .guard g.finishing⟩ :: rest))
  | keepFinally {owner} {g : Guard} {rest}
      (owned : p.Links i owner) (top : k.Top ⟨owner, .guard g⟩ rest)
      (old : g.phase = none ∨ g.finaled = true) : Move p i resuming k .openFinally (.ok ()) k
  | strayFinally {owner} (owned : p.Links i owner)
      (stray : ∀ g rest, k.call.blocks ≠ ⟨owner, .guard g⟩ :: rest)
      (e : Failure) (kind : e.kind? = some .scope) :
      Move p i resuming k .openFinally (.error e) k
  | endTry {owner} {g : Guard} {rest}
      (owned : p.Links i owner) (top : k.Top ⟨owner, .guard g⟩ rest)
      (quiet : g.pending = none) : Move p i resuming k .endTry (.ok ()) (k.withBlocks rest)
  | rethrow {owner} {g : Guard} {rest cause} {source : Int}
      (owned : p.Links i owner) (top : k.Top ⟨owner, .guard g⟩ rest)
      (pending : g.pending = some (.failure cause source)) :
      Move p i resuming k .endTry (.error cause) (k.withBlocks rest)
  | rewait {k' owner} {g : Guard} {rest} {source : Option Int} {ceiling crosses}
      (owned : p.Links i owner) (top : k.Top ⟨owner, .guard g⟩ rest)
      (pending : g.pending = some (.command source ceiling crosses))
      (waits : Waits p.outline (k.withBlocks rest) source ceiling crosses k') :
      Move p i resuming k .endTry (.ok ()) k'
  | resume {owner} {source : Nat} {g : Guard} {rest ceiling crosses}
      (owned : p.Links i owner) (top : k.Top ⟨owner, .guard g⟩ rest)
      (pending : g.pending = some (.command (some source) ceiling crosses))
      (clear : Clear p.outline ceiling ((k.withBlocks rest).wayOut crosses))
      (bound : source < p.commands.length) :
      Move p i resuming k .endTry (.ok ())
        ({ k.withBlocks rest with resume := some (source : Int) }.goto source)
  | strand {owner} {g : Guard} {rest} {source : Option Int} {ceiling crosses}
      (owned : p.Links i owner) (top : k.Top ⟨owner, .guard g⟩ rest)
      (pending : g.pending = some (.command source ceiling crosses))
      (nowhere : ∀ place : Nat, source = some (place : Int) → p.commands.length ≤ place)
      (e : Failure) :
      Move p i resuming k .endTry (.error e) { k.withBlocks rest with resume := source }
  | enterLoop {kind last} (r : Except Failure Unit)
      (block : p.Spans i (.loop kind) last)
      (fresh : ∀ s, k.call.blocks.head? = some s → s.place ≠ i)
      (arises : ∀ e, r = .error e → e.Arises (some (.openLoop kind))) :
      Move p i resuming k (.openLoop kind) r (k.push ⟨i, .loop kind false⟩)
  | skipLoop {kind last}
      (block : p.Spans i (.loop kind) last)
      (fresh : ∀ s, k.call.blocks.head? = some s → s.place ≠ i) :
      Move p i resuming k (.openLoop kind) (.ok ()) ((k.push ⟨i, .loop kind true⟩).goto last)
  | nextRound {kind complete rest}
      (top : k.Top ⟨i, .loop kind complete⟩ rest) : Move p i resuming k (.openLoop kind) (.ok ()) k
  | lastRound {kind complete last rest}
      (block : p.Spans i (.loop kind) last)
      (top : k.Top ⟨i, .loop kind complete⟩ rest) :
      Move p i resuming k (.openLoop kind)
        (.ok ()) ((k.withBlocks (⟨i, .loop kind true⟩ :: rest)).goto last)
  | endLoop {kind owner rest}
      (owned : p.Links i owner) (top : k.Top ⟨owner, .loop kind true⟩ rest) :
      Move p i resuming k (.endLoop kind) (.ok ()) (k.withBlocks rest)
  | loopBack {kind owner rest}
      (owned : p.Links i owner) (top : k.Top ⟨owner, .loop kind false⟩ rest) :
      Move p i resuming k (.endLoop kind) (.ok ()) (k.goto owner)
  | pass {v : Verb} (exit : v.role = .exit) (free : resuming = false) : Move p i resuming k
      v (.ok ()) k
  | waitExit {v : Verb} {k'} (exit : v.role = .exit) (free : resuming = false)
      (waits : Waits p.outline k k.here true false k') : Move p i resuming k v (.ok ()) k'
  | again {above rest place kind complete}
      (clear : resuming = false → Clear p.outline true [k.call.blocks])
      (blocks : k.call.blocks = above ++ ⟨place, .loop kind complete⟩ :: rest)
      (inner : ∀ s ∈ above, s.isLoop = false) :
      Move p i resuming k .again (.ok ())
        ((k.withBlocks (⟨place, .loop kind complete⟩ :: rest)).goto place)
  | leave {above rest place last kind complete}
      (clear : resuming = false → Clear p.outline true [k.call.blocks])
      (blocks : k.call.blocks = above ++ ⟨place, .loop kind complete⟩ :: rest)
      (inner : ∀ s ∈ above, s.isLoop = false)
      (block : p.Spans place (.loop kind) last) :
      Move p i resuming k .leave (.ok ())
        ((k.withBlocks (⟨place, .loop kind true⟩ :: rest)).goto last)
  | noLoop {v : Verb} (exit : v.role = .exit)
      (clear : resuming = false → Clear p.outline true [k.call.blocks])
      (none : ∀ s ∈ k.call.blocks, s.isLoop = false) (e : Failure) (scope : e.kind? = some .scope) :
      Move p i resuming k v (.error e) (k.withBlocks [])
  | enterCall {place last word name}
      (block : p.Spans place (.function word name) last)
      (fresh : ¬ (k.call.returning = true ∧ k.call.back = k.here)) :
      Move p i resuming k .call (.ok ())
        ({ k with call := { function := some place, back := k.here }, outer := k.call ::
          k.outer }.goto place)
  | lostCall (returning : k.call.returning = true) (back : k.call.back = k.here) (e : Failure)
      (fatal : e.isFatal = true) (alone : e.kind? = some .scope → k.outer = []) : Move p i resuming
        k .call (.error e) k
  | leaveCall {next outer} (around : k.outer = next :: outer)
      (returning : k.call.returning = true) (back : k.call.back = k.here) :
      Move p i resuming k .call (.ok ()) { k with call := next, outer := outer }
  | enterFunction {word} (own : k.call.function = some i) :
      Move p i resuming k (.openFunction word) (.ok ()) k
  | skipFunction {word form last} (other : k.call.function ≠ some i)
      (block : p.Spans i form last) :
      Move p i resuming k (.openFunction word) (.ok ()) (k.goto last)
  | foreign {v : Verb} {owner} (gives : v.givesBack = true)
      (owned : p.Links i owner) (other : k.call.function ≠ some owner) :
      Move p i resuming k v (.ok ()) k
  | waitBack {v : Verb} {k' owner} (gives : v.givesBack = true)
      (owned : p.Links i owner) (own : k.call.function = some owner)
      (free : resuming = false) (waits : Waits p.outline k k.here false false k') :
      Move p i resuming k v (.ok ()) k'
  | giveBack {v : Verb} {owner} {back : Nat} (gives : v.givesBack = true)
      (owned : p.Links i owner) (own : k.call.function = some owner)
      (clear : resuming = false → Clear p.outline false [k.call.blocks])
      (source : k.call.back = some (back : Int)) (bound : back < p.commands.length) :
      Move p i resuming k v (.ok ())
        ({ k with call := { k.call with returning := true } }.goto back)
  | lostBack {v : Verb} {owner} (gives : v.givesBack = true)
      (owned : p.Links i owner) (own : k.call.function = some owner)
      (nowhere : ∀ place : Nat, k.call.back = some (place : Int) → p.commands.length ≤ place)
      (e : Failure) :
      Move p i resuming k v (.error e) { k with call := { k.call with returning := true } }
  | waitExitTest {k'} (free : resuming = false) (waits : Waits p.outline k k.here false true k') :
      Move p i resuming k .exitTest (.ok ()) k'
  | stop (clear : resuming = false → Clear p.outline false (k.tiers.map Tier.blocks)) :
      Move p i resuming k .exitTest (.ok ()) { k with stopped := true }

end Runbook
