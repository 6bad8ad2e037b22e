import Runbook.Proofs.Run.Lives

namespace Runbook

open Runbook.Action Control List

section Returns

variable {p : Program} {k k' : Control} {i j q last : Nat} {v : Verb} {g : Guard} {rest : List Spot}
  {name : String} {catchAt : Option Nat}

theorem Poised.sent (poised : Poised p k i) (fresh : k.resuming = false) (verb : p.Does i v)
    (other : v ≠ .call) : ∀ s ∈ k.call.blocks, s.Sent p i := by
  cases poised.stance with
  | inside _ _ seated => exact seated.sent
  | round _ _ top _ seated =>
    rw [top]
    exact forall_mem_cons.mpr ⟨sent_loop, seated.sent⟩
  | entry _ _ _ clean _ => simp [clean]
  | resume marked _ _ _ _ =>
    rw [Control.resuming, marked, poised.here] at fresh
    simp at fresh
  | back _ _ source own _ _ =>
    cases verb.symm.trans (poised.chain.verb_back own source)
    exact absurd rfl other

theorem Poised.mayWait (poised : Poised p k i) (resuming : k.resuming = true) (verb : p.Does i v) :
    v.mayWait = true ∧ ∀ f, p.Links i f → v.givesBack = true → k.call.function = some f := by
  cases poised.stance with
  | inside idle _ _ | round idle _ _ _ _ | entry idle _ _ _ _ | back idle _ _ _ _ _ =>
    rw [resuming_of_idle idle] at resuming
    cases resuming
  | resume _ _ _ leaving _ =>
    refine ⟨leaving.mayWait verb, fun f owned' gives => ?_⟩
    rcases leaving.kinds verb with ⟨_, _, exit, _⟩ | ⟨_, _, _, f, own, owned⟩ | ⟨_, _, rfl⟩
    · cases v <;> cases gives <;> cases exit
    · cases owned.symm.trans owned'
      exact own
    · cases gives

theorem Poised.fresh (poised : Poised p k i) (verb : p.Does i v) (still : v.mayWait = false) :
    k.resuming = false := by
  cases resuming : k.resuming with
  | false => rfl
  | true => cases still.symm.trans (poised.mayWait resuming verb).1

theorem Poised.fresh_of_foreign {owner : Nat} (poised : Poised p k i) (verb : p.Does i v)
    (owned : p.Links i owner) (gives : v.givesBack = true)
    (different : k.call.function ≠ some owner) : k.resuming = false := by
  cases resuming : k.resuming with
  | false => rfl
  | true => exact absurd ((poised.mayWait resuming verb).2 _ owned gives) different

theorem Poised.active (poised : Poised p k i) (verb : p.Does i v) (fresh : k.resuming = false)
    (going : v = .call → ¬ (k.call.returning = true ∧ k.call.back = k.here)) :
    k.resume = none ∧ k.call.returning = false := by
  cases poised.stance with
  | inside idle going _ | round idle going _ _ _ | entry idle going _ _ _ => exact ⟨idle, going⟩
  | resume marked _ _ _ _ => simp [Control.resuming, marked, poised.here] at fresh
  | back _ returning source own _ _ =>
    cases verb.symm.trans (poised.chain.verb_back own source)
    exact absurd ⟨returning, source.trans poised.here.symm⟩ (going rfl)

theorem Leaving.not_finally {function : Option Nat} {place n : Nat} {ceiling crosses : Bool}
    (leaving : Leaving p function place (some (n : Int)) ceiling crosses) :
    verbAt p.commands n ≠ some .openFinally := by
  intro verb
  cases leaving.mayWait verb

theorem finally_own [p.Faithful] (block : p.Spans q (.guard name catchAt (some j)) last)
    (verb : p.Does i .openFinally) (owned : p.Links i q) : i = j := by
  obtain ⟨_, _, _, own⟩ := finally_part verb owned
  cases block.symm.trans own
  rfl

theorem not_closed_finally [p.Faithful] (block : p.Spans q (.guard name catchAt (some j)) last)
    {opener : Nat} {form : Form} (other : p.Spans opener form j) : False := by
  obtain ⟨_, _, segment, _⟩ := block.finallyPart p.found
  have closing := Form.role_closing form
  rw [Option.some.inj ((other.ended p.found).closed.symm.trans segment)] at closing
  cases closing

section Finishing

variable (block : p.Spans q (.guard name catchAt (some j)) last)
  (finishing : g.phase = some .finishing) (poised : Poised p k i) (verb : p.Does i v)
  (free : v ≠ .call) (fresh : k.resuming = false) (mem : ⟨q, .guard g⟩ ∈ k.call.blocks)

include block finishing poised

theorem Poised.back_before {upper : Tier} {outer : List Tier} (around : k.outer = upper :: outer)
    (back : k.call.back = k.here) (top : upper.blocks = ⟨q, .guard g⟩ :: rest) : j ≤ i := by
  have chain := poised.chain
  rw [around] at chain
  cases chain with
  | call _ source _ _ seated _ =>
    obtain rfl := Int.ofNat.inj (Option.some.inj (source.symm.trans (back.trans poised.here)))
    exact (seated.sent _ (by rw [top]; exact mem_cons_self) g name catchAt j last rfl block).2
      finishing

include verb free fresh mem

/-- A finishing guard among the open blocks stands behind the beginning of its last segment. -/
theorem Poised.begun : j ≤ i :=
  (poised.sent fresh verb free _ mem g name catchAt j last rfl block).2 finishing

theorem Poised.not_straight (next : k'.At j) (same : k'.here = k.here)
    (started : k'.started = k.started) (branch : k'.branch = k.branch) : False := by
  have begun := poised.begun block finishing verb free fresh mem
  have := At.eq_succ next (started.trans poised.started) (branch.trans poised.branch)
    (same.trans poised.here)
  omega

theorem Poised.not_named [p.Faithful] (named : j ≤ i → ∃ w, p.Does j w ∧ w.declares = true) :
    False := by
  obtain ⟨_, _, segment, _⟩ := block.finallyPart p.found
  obtain ⟨w, named, declares⟩ := named (poised.begun block finishing verb free fresh mem)
  cases segment.symm.trans named
  cases declares

theorem Poised.not_catch [p.Faithful] (own : p.Does i .openCatch) (owned : p.Links i q) :
    False := by
  obtain ⟨_, _, same, part, _⟩ := owned_part own rfl owned
  cases block.symm.trans same
  have ordered := (block.ended p.found).grown.ordered
  have earlier : i < j := by
    cases catchAt <;> simp_all [Form.parts]
  have := poised.begun block finishing verb free fresh mem
  omega

end Finishing

theorem Poised.no_return [p.Faithful] (poised : Poised p k i) (verb : p.Does i v)
    (move : Move p i k.resuming { k with resume := none } v (.ok ()) k')
    (running : k'.stopped = false) (next : k'.At j) (top : k'.Top ⟨q, .guard g⟩ rest)
    (finishing : g.phase = some .finishing) (block : p.Spans q (.guard name catchAt (some j)) last)
    (other : i ≠ j) :
    ∃ k₀ source ceiling crosses, Waits p.outline k₀ source ceiling crosses k' ∧
      Slip p.outline k.spots k₀.spots ∧ ∀ s ∈ k₀.spots, s ∈ k.spots := by
  obtain ⟨_, _, segment, _⟩ := block.finallyPart p.found
  have kept (same : k.call.blocks = k'.call.blocks) : ⟨q, .guard g⟩ ∈ k.call.blocks := by
    rw [same, top]
    exact mem_cons_self
  have below {s : Spot} {spots : List Spot} (top' : k.Top s spots) (same : spots = k'.call.blocks) :
      ⟨q, .guard g⟩ ∈ k.call.blocks := by
    rw [top', same, top]
    exact mem_cons_of_mem _ mem_cons_self
  -- a guard that was finishing before is past the beginning, to which no command goes back but one
  -- that waits again
  cases move with
  | stay plain =>
    have fresh := poised.fresh verb (Verb.mayWait_of_isFree plain)
    exact (poised.not_straight block finishing verb (by rintro rfl; cases plain) fresh
      (kept rfl) next rfl rfl rfl).elim
  | @jump _ dest left rest' jumps region blocks gone stays bound named =>
    have fresh := poised.fresh verb (Verb.mayWait_of_isFree (Verb.isFree_of_jumps jumps))
    have mem : ⟨q, .guard g⟩ ∈ k.call.blocks := by
      rw [show k.call.blocks = _ from blocks, show rest' = _ from top]
      simp
    obtain rfl := At.eq_branch next rfl
    exact (poised.not_named block finishing verb (by rintro rfl; cases jumps) fresh mem named).elim
  | openIf _ chooses | elseIf _ _ _ chooses => cases chooses <;> cases top
  | skip _ _ top' | orElse _ top' | nextRound top' | loopBack _ top' => cases top.symm.trans top'
  | endIf _ top' | endTry _ top' | endLoop _ top' =>
    exact (poised.not_straight block finishing verb nofun
      (poised.fresh verb rfl) (below top' rfl) next rfl rfl rfl).elim
  | openTry _ =>
    obtain ⟨same, _⟩ := cons.inj top
    cases same
    exact absurd finishing opened_fresh
  | openCatch | enterFunction =>
    exact (poised.not_straight block finishing verb nofun
      (poised.fresh verb rfl) (kept rfl) next rfl rfl rfl).elim
  | passCatch owned top' _ _ =>
    have mem := kept rfl
    obtain ⟨same, _⟩ := cons.inj (top.symm.trans top')
    cases same
    exact (poised.not_catch block finishing verb nofun (poised.fresh verb rfl) mem verb owned).elim
  | openFinally owned top' _ _ =>
    obtain ⟨same, _⟩ := cons.inj top
    cases same
    exact absurd (finally_own block verb owned) other
  | keepFinally owned top' _ =>
    obtain ⟨same, _⟩ := cons.inj (top.symm.trans top')
    cases same
    exact absurd (finally_own block verb owned) other
  | rewait owned top' _ waits =>
    have paid := (poised.inside_of_asks verb rfl).paid_end verb owned top'
    refine ⟨_, _, _, _, waits, @slip_pop { k with resume := none } _ _ _ top' paid, fun s mem => ?_⟩
    have spots : k.spots = _ := @spots_cons { k with resume := none } _ _ top'
    rw [spots]
    exact mem_cons_of_mem _ mem
  | resume owned top' pending _ _ =>
    obtain rfl := At.eq_branch next rfl
    have inside := poised.inside_of_asks verb rfl
    exact absurd segment ((inside.guard_ok top').leaving _ _ _ pending).not_finally
  | enterLoop | skipLoop | lastRound | again | leave | enterCall => cases top
  | pass exit free =>
    exact (poised.not_straight block finishing verb (by rintro rfl; cases exit) free
      (kept rfl) next rfl rfl rfl).elim
  | waitExit _ _ waits | waitBack _ _ _ _ waits | waitExitTest _ waits =>
    exact ⟨_, _, _, _, waits, .refl, fun _ mem => mem⟩
  | leaveCall around returning back =>
    have begun := poised.back_before block finishing around back top
    have := At.eq_succ next poised.started poised.branch poised.here
    omega
  | skipFunction _ block' =>
    obtain rfl := At.eq_branch next rfl
    exact (not_closed_finally block block').elim
  | foreign which owned different =>
    have fresh := poised.fresh_of_foreign verb owned which different
    exact (poised.not_straight block finishing verb (by rintro rfl; cases which) fresh
      (kept rfl) next rfl rfl rfl).elim
  | giveBack _ _ own _ source _ =>
    obtain rfl := At.eq_branch next rfl
    cases segment.symm.trans (poised.chain.verb_back own source)
  | stop _ => cases running

end Returns

def Heads (p : Program) (m : Machine) (j : Nat) : Prop :=
  m.stopped = false ∧ ∃ t, m.control.At t ∧ t ≤ j ∧ Silent p.commands t j

section Turns

variable {p : Program} {m m' : Machine} {i j d q last : Nat} {v : Verdict} {g g' : Guard}
  {name : String} {catchAt : Option Nat}

theorem Turn.heads [p.Ready] (placed : Placed p m.control) (turn : Turn p m i v m') :
    Heads p m i := by
  obtain ⟨c, m₁, fetched⟩ := turn.fetched
  obtain ⟨t, has, after, silent⟩ := fetched.arrives placed
  obtain ⟨poised, _, control⟩ := fetched.poised placed
  have running := poised.running
  rw [control] at running
  exact ⟨running, t, has, after, silent⟩

theorem Heads.top [p.Faithful] (placed : Placed p m.control) (heads : Heads p m j)
    (verb : p.Does j .openFinally) :
    ∃ q g rest name catchAt last, m.control.Top ⟨q, .guard g⟩ rest ∧
      p.Spans q (.guard name catchAt (some j)) last ∧
      (g.phase = some .finishing → m.control.At j) := by
  obtain ⟨running, t, arrives, after, silent⟩ := heads
  cases placed with
  | stopped stopped => cases stopped.symm.trans running
  | @going t' next bound going =>
    have same : t' = t := by
      cases arrives with
      | start fresh none =>
        cases next with
        | start => rfl
        | branch started _ | after started _ _ => cases fresh.symm.trans started
      | branch _ branch => exact (At.eq_branch next branch).symm
      | after started none here => exact At.eq_succ next started none here
    subst same
    have poised := going.fetched silent after
    obtain ⟨q, g, rest, name, catchAt, last, owned, top, block⟩ :=
      (poised.inside_of_asks verb rfl).finally_top verb
    refine ⟨q, g, rest, name, catchAt, last, top, block, fun finishing => ?_⟩
    rcases Nat.eq_or_lt_of_le after with rfl | comments
    · exact arrives
    · -- a comment comes first, and there the guard would not be finishing yet
      have first := verbAt_of_silent silent (Nat.le_refl t') comments
      have there := @Going.fetched p m.control t' t' _ going (by intro j low below; omega)
        (Nat.le_refl t')
      have inside := there.inside_of_host first
      have mem : ⟨q, .guard g⟩ ∈ (m.control.fetched t').call.blocks := by
        rw [show (m.control.fetched t').call.blocks = _ from top]
        exact mem_cons_self
      have late := (inside.seated.sent _ mem g name catchAt j last rfl block).2 finishing
      omega

theorem Grip.sent_to_end {o : Outline} {next : Option Nat} {error : Bool} {stack stack' : List Spot}
    (grip : Grip o next error stack stack') (lies : spotAt stack d = some ⟨q, .guard g⟩)
    (finaled : g.finaled = true) (lies' : spotAt stack' d = some ⟨q, .guard g'⟩)
    (finishing : g'.phase = some .finishing) (top : stack'.length = d + 1)
    (block : o.Spans q (.guard name catchAt (some j)) last) : next = some last := by
  rcases grip.fate lies with ⟨_, higher⟩ | ⟨g'', lies'', _, becomes, _⟩ | ⟨vacant, _⟩
  · omega
  · cases lies'.symm.trans lies''
    cases becomes with
    | holds _ other _ _ sent => cases block.symm.trans other; exact sent
    | finishes _ _ owed _ => cases owed.symm.trans finaled
    | catches _ _ _ _ => cases finishing
  · omega

theorem Turn.no_return [p.Ready] (placed : Placed p m.control) (turn : Turn p m i v m')
    (further : v.ending? = none) (lies : m.control.Lies d ⟨q, .guard g⟩)
    (finishing : g.phase = some .finishing) (lies' : m'.control.Lies d ⟨q, .guard g'⟩)
    (finishing' : g'.phase = some .finishing)
    (block : p.Spans q (.guard name catchAt (some j)) last) (top : m'.control.spots.length = d + 1)
    (heads : Heads p m' j) : i = j ∧ m.control.spots.length = d + 1 := by
  obtain ⟨_, before, verb, _⟩ := block.finallyPart p.found
  by_cases same : i = j
  · subst same
    obtain ⟨lengths, _⟩ := turn.at_finally placed verb
    exact ⟨rfl, by omega⟩
  exfalso
  have placed' := turn.placed placed further
  obtain ⟨q', g'', rest, _, _, _, blocks, block', next⟩ := heads.top placed' verb
  -- the guard before its last segment is the one we look at
  have height : d = (rest ++ m'.control.outer.flatMap Tier.blocks).length := by
    rw [spots_eq, blocks, cons_append, length_cons] at top
    omega
  have at_top : spotAt m'.control.spots d = some ⟨q', .guard g''⟩ := by
    rw [spots_eq, blocks, cons_append, height]
    exact spotAt_top
  cases lies'.symm.trans at_top
  have next := next finishing'
  have not_end (sent : m'.branch = some last) : False := by
    have := At.eq_branch next sent
    omega
  have grip := (turn.stir placed).2
  obtain ⟨r, k, poised, acted, concludes⟩ := turn.acted placed
  have finaled : g.finaled = true := by
    obtain ⟨function, ok⟩ := poised.ok _ (mem_of_spotAt lies)
    exact (ok g rfl).finished finishing
  cases concludes with
  | ends ending _ => simp [further] at ending
  | taken _ _ => exact not_end ((grip rfl).sent_to_end lies finaled lies' finishing' top block)
  | done alike =>
    rw [← alike] at acted
    cases acted with
    | host silent alike =>
      have inside := poised.inside_of_host silent
      rw [alike] at next blocks
      have late := (inside.seated.sent _ (by rw [blocks]; exact mem_cons_self) g' name catchAt j
        last rfl block).2 finishing'
      have := At.eq_succ next poised.started poised.branch poised.here
      omega
    | moves own move =>
      obtain ⟨k₀, source, ceiling, crosses, waits, slip, fewer⟩ :=
        poised.no_return own move heads.1 next blocks finishing' block same
      have grip := Waits.grip (fun s mem => poised.ok s (fewer s mem)) waits slip
      exact not_end (grip.sent_to_end lies finaled lies' finishing' top block)

end Turns

end Runbook
