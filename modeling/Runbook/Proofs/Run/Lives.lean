import Runbook.Proofs.Run.Stir

namespace Runbook

open Runbook.Action Control List

structure Lap where
  before : Machine
  place : Nat
  verdict : Verdict
  after : Machine

/-- A run under any host, with its laps, the last one first. -/
inductive Run (p : Program) : List Lap → Machine → Prop
  | start (vars : Env) (logs : Array Log) : Run p [] { vars := vars, logs := logs }
  | turn {laps : List Lap} {m m' : Machine} {i : Nat} {v : Verdict} (before : Run p laps m)
      (turn : Turn p m i v m') (further : v.ending? = none) : Run p (⟨m, i, v, m'⟩ :: laps) m'

/-- The laps since the block at the height `d` was opened. -/
def since (d : Nat) (laps : List Lap) : List Lap :=
  laps.takeWhile fun t => d < t.before.frames.length

/-- The block at a height, counted from the bottom of the outermost call. -/
def Machine.frameAt (m : Machine) (d : Nat) : Option Frame := m.frames.reverse[d]?

/-- The command at the place `j` is executed while the block at the height `d` is innermost. -/
def Lap.Executes (d j : Nat) (t : Lap) : Prop := t.place = j ∧ t.before.frames.length = d + 1

section Laps

variable {p : Program} {m m' : Machine} {i d q : Nat} {laps : List Lap} {v : Verdict} {g : Guard}
  {t : Lap}

theorem Run.reached (run : Run p laps m) : Reached p m := by
  induction run with
  | start vars logs => exact .start vars logs
  | turn _ turn further ih => exact .turn ih turn further

theorem Reached.run (reached : Reached p m) : ∃ laps, Run p laps m := by
  induction reached with
  | start vars logs => exact ⟨[], .start vars logs⟩
  | turn _ turn further ih =>
    obtain ⟨laps, run⟩ := ih
    exact ⟨_, .turn run turn further⟩

theorem frames_length (m : Machine) : m.control.spots.length = m.frames.length := by
  rw [m.spots_control, length_map]

theorem spotAt_control (m : Machine) (d : Nat) :
    spotAt m.control.spots d = (m.frameAt d).map Frame.spot := by
  rw [spotAt, m.spots_control, ← map_reverse, List.getElem?_map]
  rfl

theorem spotAt_of_frameAt {f : Frame} (frame : m.frameAt d = some f) (guard : f.body = .guard g) :
    spotAt m.control.spots d = some ⟨f.place, .guard g⟩ := by
  rw [spotAt_control, frame, Option.map_some, Frame.spot, guard]
  rfl

theorem since_lives (lives : d < t.before.frames.length) :
    since d (t :: laps) = t :: since d laps := by
  simp [since, lives]

theorem since_opened (vacant : t.before.frames.length ≤ d) : since d (t :: laps) = [] := by
  simp [since, Nat.not_lt.mpr vacant]

theorem Stir.spotAt_back {o : Outline} {next : Option Nat} {error : Bool} {stack stack' : List Spot}
    (stir : Stir o i next error stack stack') (lies : spotAt stack' d = some ⟨q, .guard g⟩)
    (low : d < stack.length) : ∃ g', spotAt stack d = some ⟨q, .guard g'⟩ := by
  cases stir with
  | slips slip => exact ⟨g, slip.spotAt_before lies⟩
  | @opens _ name given catchAt finallyAt last block =>
    rcases spotAt_cases lies with below | ⟨high, _⟩
    · exact ⟨g, below⟩
    · omega
  | @executes rest q' last g' name catchAt block owed =>
    rcases spotAt_cases lies with below | ⟨rfl, same⟩
    · exact ⟨g, spotAt_cons below⟩
    · cases same
      exact ⟨g', spotAt_top⟩
  | @fails _ gone _ slip paid => exact ⟨g, slip.spotAt_before (spotAt_append lies)⟩
  | takes grip =>
    obtain @⟨gone, rest, q', g₁, g₂, slip, paid, becomes, nested⟩ := grip
    rcases spotAt_cases lies with below | ⟨rfl, same⟩
    · exact ⟨g, slip.spotAt_before (spotAt_append (spotAt_cons below))⟩
    · cases same
      exact ⟨g₁, slip.spotAt_before (spotAt_append spotAt_top)⟩

theorem Turn.onward {g' : Guard} [p.Ready] (placed : Placed p m.control) (turn : Turn p m i v m')
    (lies : m.control.Lies d ⟨q, .guard g⟩) (lies' : m'.control.Lies d ⟨q, .guard g'⟩) :
    g.Onward p.outline q i m'.branch v.isHandled m.control.spots m'.control.spots d g' := by
  rcases (turn.stir placed).1.fate lies with ⟨g'', same, onward⟩ | ⟨vacant, _⟩
  · cases lies'.symm.trans same
    exact onward
  · have := lt_of_spotAt lies'
    omega

/-- The life of the guard at a height: it is opened, and goes from turn to turn. -/
inductive Life (p : Program) (d q : Nat) : List Lap → Machine → Guard → Prop
  | opened {m name given catchAt finallyAt last}
      (block : p.Spans q (.guard name catchAt finallyAt) last) :
      Life p d q [] m (.opened given catchAt finallyAt)
  | turn {earlier laps} {m m' : Machine} {i} {v : Verdict} {g g'} (life : Life p d q laps m g)
      (before : Run p earlier m) (turn : Turn p m i v m') (further : v.ending? = none)
      (lies : m.control.Lies d ⟨q, .guard g⟩) (lies' : m'.control.Lies d ⟨q, .guard g'⟩) :
      Life p d q (⟨m, i, v, m'⟩ :: laps) m' g'

theorem Run.life [p.Ready] (run : Run p laps m) (lies : m.control.Lies d ⟨q, .guard g⟩) :
    Life p d q (since d laps) m g := by
  induction run generalizing g with
  | start vars logs => cases lt_of_spotAt lies
  | @turn _ m _ _ _ before turn further ih =>
    obtain ⟨stir, _⟩ := turn.stir before.reached.placed
    rcases Nat.lt_or_ge d m.control.spots.length with lives | vacant
    · rw [since_lives (by rwa [frames_length] at lives)]
      obtain ⟨g₀, lies₀⟩ := stir.spotAt_back lies lives
      exact .turn (ih lies₀) before turn further lies₀ lies
    · rw [since_opened (by rwa [frames_length] at vacant)]
      obtain ⟨_, _, _, _, _, _, _, block, rfl⟩ := stir.spotAt_new vacant lies
      exact .opened block

end Laps

section Finally

variable {p : Program} {m m' m₁ : Machine} {k : Control} {i j : Nat} {c : Command} {v : Verdict}
  {w : Verb}

theorem At.eq_succ (next : k.At j) (started : k.started = true) (none : k.branch = none)
    (here : k.Here i) : j = i + 1 := by
  cases next with
  | start fresh _ => rw [started] at fresh; cases fresh
  | branch _ branch => rw [none] at branch; cases branch
  | after _ _ other =>
    obtain rfl := Int.ofNat.inj (Option.some.inj (other.symm.trans here))
    rfl

theorem At.eq_branch {dest : Nat} (next : k.At j) (branch : k.branch = some dest) : dest = j := by
  cases next with
  | start _ none | after _ none _ => rw [none] at branch; cases branch
  | branch _ other => exact Option.some.inj (branch.symm.trans other)

theorem Fetched.arrives [p.Ready] (placed : Placed p m.control) (fetched : Fetched p m i c m₁) :
    ∃ t, m.control.At t ∧ t ≤ i ∧ Silent p.commands t i := by
  cases placed with
  | stopped stopped chain seated clear =>
    cases (Placed.stopped stopped chain seated clear).ahead fetched.ran with
    | command _ control poised =>
      have running := poised.running
      rw [control] at running
      cases stopped.symm.trans running
  | going next bound going =>
    rcases ran_next next fetched.ran with
      ⟨_, wrong, _⟩ | ⟨_, n, d, after, has, _, silent, _, control⟩ | ⟨_, _, wrong, _⟩
    · cases wrong
    · have here : m₁.Here n := congrArg Control.here control
      obtain rfl : n = i := Int.ofNat.inj (Option.some.inj (here.symm.trans fetched.here))
      exact ⟨_, next, after, silent⟩
    · cases wrong

theorem Fetched.branch [p.Ready] (placed : Placed p m.control) (fetched : Fetched p m i c m₁)
    (branch : m.branch = some j) (verb : p.Does j w) : i = j := by
  obtain ⟨t, comes, after, silent⟩ := fetched.arrives placed
  obtain rfl := At.eq_branch comes branch
  exact Nat.le_antisymm (le_of_silent silent (Nat.le_refl j) verb) after

theorem Turn.fetched (turn : Turn p m i v m') : ∃ c m₁, Fetched p m i c m₁ := by
  cases turn with
  | done fetched _ | routed fetched _ _ | astray fetched _ _ | broken fetched _ =>
    exact ⟨_, _, fetched⟩

theorem Turn.place_of_branch [p.Ready] (placed : Placed p m.control) (turn : Turn p m i v m')
    (branch : m.branch = some j) (verb : p.Does j w) : i = j := by
  obtain ⟨c, m₁, fetched⟩ := turn.fetched
  exact fetched.branch placed branch verb

theorem Inside.owner_top {q last : Nat} {form : Form} (inside : Inside p k i)
    (block : p.Spans q form last) (firm : form.mayPass (hasJump p.commands) = false)
    (chain : opens p.commands i = q :: opens p.commands q) :
    ∃ s rest, k.Top s rest ∧ s.place = q ∧ s.Fits p.outline := by
  have other : k.call.function ≠ some q := by
    intro own
    obtain ⟨_, _, _, _, function⟩ := inside.seated.function q own
    cases block.symm.trans function
    cases firm
  have covers := inside.seated.covers
  rw [chain, within_cons other] at covers
  generalize blocks : k.call.blocks = spots at covers
  generalize places : q :: Runbook.within k.call.function (opens p.commands q) = all at covers
  cases covers with
  | nil => cases places
  | @keep _ s rest fits below => exact ⟨s, rest, blocks, (cons.inj places).1.symm, fits⟩
  | skip same passable _ =>
    obtain ⟨rfl, _⟩ := cons.inj places
    cases block.symm.trans same
    cases firm.symm.trans passable

theorem Inside.guard_top {q last : Nat} {name : String} {catchAt finallyAt : Option Nat}
    (inside : Inside p k i) (block : p.Spans q (.guard name catchAt finallyAt) last)
    (chain : opens p.commands i = q :: opens p.commands q) :
    ∃ g rest, k.Top ⟨q, .guard g⟩ rest := by
  obtain ⟨s, rest, top, rfl, fits⟩ := inside.owner_top block rfl chain
  cases fits with
  | cond same _ => cases block.symm.trans same
  | loop same => cases block.symm.trans same
  | guard _ => exact ⟨_, rest, top⟩

theorem Inside.finally_top [p.Faithful] (inside : Inside p k i) (verb : p.Does i .openFinally) :
    ∃ q g rest name catchAt last, p.Links i q ∧ k.Top ⟨q, .guard g⟩ rest ∧
      p.Spans q (.guard name catchAt (some i)) last := by
  obtain ⟨q, _, _, owned, _, _⟩ := block?_part p.found verb rfl
  obtain ⟨name, catchAt, last, block⟩ := finally_part verb owned
  obtain ⟨_, _, _, _, _, chain, _⟩ := owned_part verb rfl owned
  obtain ⟨g, rest, top⟩ := inside.guard_top block chain
  exact ⟨q, g, rest, name, catchAt, last, owned, top, block⟩

theorem Turn.at_finally [p.Ready] (placed : Placed p m.control) (turn : Turn p m i v m')
    (verb : p.Does i .openFinally) :
    m'.control.spots.length = m.control.spots.length ∧ (∀ t, m'.control.At t → t = i + 1) ∧
      ∃ q g rest, m'.control.spots = ⟨q, .guard g⟩ :: rest ∧
        (g.phase = none ∨ g.finaled = true) := by
  obtain ⟨r, k, poised, acted, concludes⟩ := turn.acted placed
  obtain ⟨q, g, rest, _, _, _, owned, top, _⟩ := (poised.inside_of_asks verb rfl).finally_top verb
  cases acted with
  | host silent _ => cases silent.symm.trans verb
  | fails verb' move _ =>
    -- the guard is innermost, so nothing can fail
    cases verb.symm.trans verb'
    cases move with
    | fail other => exact absurd rfl other
    | strayFinally owned' stray =>
      cases owned.symm.trans owned'
      exact absurd top (stray g rest)
    | overjump other | noLoop other | lostBack other => cases other
  | moves verb' move =>
    cases verb.symm.trans verb'
    cases concludes with
    | done same =>
      rw [same]
      cases move with
      | openFinally _ top' =>
        have lengths := congrArg List.length (show m.control.call.blocks = _ from top')
        refine ⟨?_, fun t comes => At.eq_succ comes poised.started poised.branch poised.here, _, _,
          _, spots_eq, .inr rfl⟩
        rw [spots_eq, spots_eq, length_append, length_append, lengths]
        rfl
      | keepFinally _ top' old =>
        exact ⟨rfl, fun t comes => At.eq_succ comes poised.started poised.branch poised.here, _, _,
          _, spots_cons top', old⟩
      | _ => contradiction

end Finally

end Runbook
