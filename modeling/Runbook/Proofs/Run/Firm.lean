import Runbook.Proofs.Run.Turns

namespace Runbook

open Runbook.Action Control List

def Bubble.Firm (P : Kind → Prop) (p : Program) : Bubble → Prop
  | .failure cause _ => ∃ kind, cause.kind? = some kind ∧ P kind
  | .command source _ _ => ∃ n : Nat, source = some (n : Int) ∧ n < p.commands.length

structure Spot.Firm (P : Kind → Prop) (p : Program) (s : Spot) : Prop where
  fits : s.Fits p.outline
  waiting : ∀ g b, s.mark = .guard g → g.pending = some b → b.Firm P p

structure Tier.Firm (P : Kind → Prop) (p : Program) (t : Tier) : Prop where
  back : ∀ f, t.function = some f → ∃ b : Nat, t.back = some (b : Int) ∧ b < p.commands.length
  blocks : ∀ s ∈ t.blocks, s.Firm P p

structure Control.Firm (P : Kind → Prop) (p : Program) (k : Control) : Prop where
  here : k.started = true → ∃ i : Nat, k.here = some (i : Int)
  branch : ∀ n, k.branch = some n → n < p.commands.length
  tiers : ∀ t ∈ k.tiers, t.Firm P p

section Keeping

variable {P : Kind → Prop} {p : Program} {k k' : Control} {i place last : Nat} {v : Verb}
  {g g' : Guard} {rest : List Spot} {c : Cond} {name : String} {catchAt finallyAt : Option Nat}
  {b : Bubble} {r : Reply Unit} {resuming : Bool} {cause : Failure} {source : Int} {x : Reply Bool}
  {kind : Kind}

theorem firm_start {vars : Env} {logs : Array Log} :
    Control.Firm P p { vars := vars, logs := logs : Machine }.control :=
  ⟨nofun, nofun, forall_mem_singleton.mpr ⟨nofun, by simp [Machine.control, Call.tier]⟩⟩

namespace Control.Firm

variable {above : List Spot}

theorem fits (firm : k.Firm P p) : k.Fits p.outline := by
  intro s mem
  obtain ⟨t, inside, present⟩ := mem_flatMap.mp mem
  exact ((firm.tiers t inside).blocks s present).fits

section

variable (firm : k.Firm P p)

include firm

theorem call : k.call.Firm P p := firm.tiers k.call mem_cons_self

theorem outer : ∀ t ∈ k.outer, t.Firm P p := fun t mem => firm.tiers t (mem_cons_of_mem _ mem)

theorem goto (bound : place < p.commands.length) : (k.goto place).Firm P p := by
  refine ⟨firm.here, ?_, firm.tiers⟩
  rintro n ⟨⟩
  exact bound

theorem withBlocks {blocks : List Spot} (blocks_firm : ∀ s ∈ blocks, s.Firm P p) :
    (k.withBlocks blocks).Firm P p :=
  ⟨firm.here, firm.branch, forall_mem_cons.mpr ⟨⟨firm.call.back, blocks_firm⟩, firm.outer⟩⟩

theorem push {s : Spot} (s_firm : s.Firm P p) : (k.push s).Firm P p :=
  firm.withBlocks (forall_mem_cons.mpr ⟨s_firm, firm.call.blocks⟩)

theorem suffix (blocks : k.call.blocks = above ++ rest) : ∀ s ∈ rest, s.Firm P p := by
  intro s mem
  apply firm.call.blocks
  rw [blocks]
  exact mem_append_right above mem

theorem pop (blocks : k.call.blocks = above ++ rest) : (k.withBlocks rest).Firm P p :=
  firm.withBlocks (firm.suffix blocks)

theorem swap {s s' : Spot} (blocks : k.call.blocks = above ++ s :: rest) (s_firm : s'.Firm P p) :
    (k.withBlocks (s' :: rest)).Firm P p :=
  firm.withBlocks (forall_mem_cons.mpr ⟨s_firm, (forall_mem_cons.mp (firm.suffix blocks)).2⟩)

end

end Control.Firm

theorem firm_cond (fits : Spot.Fits p.outline ⟨place, .cond c⟩) : Spot.Firm P p ⟨place, .cond c⟩ :=
  ⟨fits, by rintro _ _ ⟨⟩⟩

theorem firm_loop {kind : LoopKind} {complete : Bool} (block : p.Spans place (.loop kind) last) :
    Spot.Firm P p ⟨place, .loop kind complete⟩ :=
  ⟨.loop block, by rintro _ _ ⟨⟩⟩

theorem firm_guard (block : p.Spans place (.guard name catchAt finallyAt) last)
    (waiting : ∀ b, g.pending = some b → b.Firm P p) : Spot.Firm P p ⟨place, .guard g⟩ := by
  refine ⟨.guard block, ?_⟩
  rintro _ b ⟨⟩ pending
  exact waiting b pending

theorem firm_holding (block : p.Spans place (.guard name catchAt finallyAt) last)
    (firm : b.Firm P p) : Spot.Firm P p ⟨place, .guard (g.holding b)⟩ := by
  apply firm_guard block
  rintro _ ⟨⟩
  exact firm

theorem Spot.Firm.pending (firm : Spot.Firm P p ⟨place, .guard g⟩) (pending : g.pending = some b) :
    b.Firm P p :=
  firm.waiting g b rfl pending

theorem Spot.Firm.guard (firm : Spot.Firm P p ⟨place, .guard g⟩) (same : g'.pending = g.pending) :
    Spot.Firm P p ⟨place, .guard g'⟩ := by
  cases firm.fits with
  | guard block =>
    apply firm_guard block
    intro b pending
    exact firm.pending (same.symm.trans pending)

theorem Control.Firm.unwound {passed outer : List Tier} {t : Tier} {above : List Spot} {s s' : Spot}
    (firm : k.Firm P p) (tiers : k.tiers = passed ++ t :: outer)
    (blocks : t.blocks = above ++ s :: rest) (s_firm : s'.Firm P p) :
    (k.unwound t (s' :: rest) outer).Firm P p := by
  have all := firm.tiers
  rw [tiers] at all
  obtain ⟨t_firm, outer_firm⟩ := forall_mem_cons.mp (forall_mem_append.mp all).2
  have inner := t_firm.blocks
  rw [blocks] at inner
  have rest_firm := (forall_mem_cons.mp (forall_mem_append.mp inner).2).2
  exact ⟨firm.here, firm.branch, forall_mem_cons.mpr
    ⟨⟨t_firm.back, forall_mem_cons.mpr ⟨s_firm, rest_firm⟩⟩, outer_firm⟩⟩

theorem Control.Waits.firm {source : Option Int} {ceiling crosses : Bool} [p.Faithful]
    (waits : Waits p.outline k source ceiling crosses k') (firm : k.Firm P p)
    (known : ∃ n : Nat, source = some (n : Int) ∧ n < p.commands.length) : k'.Firm P p := by
  have bubble : Bubble.Firm P p (.command source ceiling crosses) := known
  obtain ⟨tiers, blocks, _, _, _, detains⟩ := waits
  cases detains with
  | replaces block _ _ =>
    exact (firm.unwound tiers blocks (firm_holding block bubble)).goto (block.ended p.found).bound
  | finishes block _ =>
    exact (firm.unwound tiers blocks (firm_holding block bubble)).goto
      (block.finallyPart p.found).bound

theorem Control.Chooses.firm [p.Faithful] (chooses : Chooses p.outline k place c rest r k')
    (firm : k.Firm P p) (fits : Spot.Fits p.outline ⟨place, .cond c⟩)
    (rest_firm : ∀ s ∈ rest, s.Firm P p) : k'.Firm P p := by
  have keeps {c' : Cond} (fewer : ∀ j ∈ c'.left, j ∈ c.left) :
      (k.withBlocks (⟨place, .cond c'⟩ :: rest)).Firm P p := by
    cases fits with
    | cond block within =>
      exact firm.withBlocks (forall_mem_cons.mpr
        ⟨firm_cond (.cond block fun j mem => within j (fewer j mem)), rest_firm⟩)
  cases chooses with
  | fail _ _ | holds => exact keeps fun _ mem => mem
  | @last elseIfs orElse last _ block =>
    refine (keeps fun _ mem => mem).goto ?_
    cases orElse with
    | none => exact (block.ended p.found).bound
    | some j => exact (block.part p.found (by simp [Form.parts] : (j, .orElse) ∈ _)).bound
  | @next first others left =>
    refine (@keeps { c with left := others } fun j mem => ?_).goto ?_
    · rw [left]
      exact mem_cons_of_mem _ mem
    · cases fits with
      | cond block within =>
        have mem := within first (by rw [left]; exact mem_cons_self)
        exact (block.part p.found (by simp [Form.parts, mem] : (_, .elseIf) ∈ _)).bound

theorem Move.firm [p.Faithful] (move : Move p i resuming k v r k') (firm : k.Firm P p)
    (here : k.Here i) (bound : i < p.commands.length) : k'.Firm P p := by
  have own : ∃ n : Nat, k.Here n ∧ n < p.commands.length := ⟨i, here, bound⟩
  cases move with
  | fail | stay | orElse | openCatch | keepFinally | strayFinally | nextRound | pass | lostCall
  | enterFunction | foreign
  | stop => exact ⟨firm.here, firm.branch, firm.tiers⟩
  | skip _ _ _ _ block | skipFunction _ block => exact firm.goto (block.ended p.found).bound
  | @passCatch owner last g rest name catchAt finallyAt _ _ _ block =>
    cases finallyAt with
    | none => exact firm.goto (block.ended p.found).bound
    | some j => exact firm.goto (block.finallyPart p.found).bound
  | @loopBack kind owner rest _ top =>
    exact firm.goto (place_lt_of_fits (firm.call.blocks ⟨owner, _⟩ top.mem).fits)
  | jump _ _ blocks _ _ bound _ => exact (firm.pop blocks).goto bound
  | overjump _ _ blocks _ _ _ _ => exact firm.pop blocks
  | openIf block chooses => exact chooses.firm firm (.cond block fun _ mem => mem) firm.call.blocks
  | elseIf _ top _ chooses =>
    have all := firm.call.blocks
    rw [top] at all
    obtain ⟨top_firm, rest_firm⟩ := forall_mem_cons.mp all
    exact chooses.firm firm top_firm.fits rest_firm
  | endIf _ top => exact @Control.Firm.pop P p k _ [_] firm top
  | openTry block => exact firm.push (firm_guard block nofun)
  | openFinally _ top _ _ =>
    have all := firm.call.blocks
    rw [top] at all
    exact @Control.Firm.swap P p k _ [] firm _ _ top ((forall_mem_cons.mp all).1.guard rfl)
  | endTry _ top _ | rethrow _ top _ => exact @Control.Firm.pop P p k _ [_] firm top
  | @rewait _ owner g rest source ceiling crosses _ top pending waits =>
    have known := (firm.call.blocks ⟨owner, .guard g⟩ top.mem).pending pending
    exact waits.firm (@Control.Firm.pop P p k _ [_] firm top) known
  | resume _ top _ _ bound =>
    have left := (@Control.Firm.pop P p k _ [_] firm top).goto bound
    exact ⟨left.here, left.branch, left.tiers⟩
  | strand _ top _ _ _ =>
    have left := @Control.Firm.pop P p k _ [_] firm top
    exact ⟨left.here, left.branch, left.tiers⟩
  | enterLoop _ block _ _ => exact firm.push (firm_loop block)
  | skipLoop block _ => exact (firm.push (firm_loop block)).goto (block.ended p.found).bound
  | lastRound block top =>
    exact (@Control.Firm.swap P p k _ [] firm _ _ top (firm_loop block)).goto
      (block.ended p.found).bound
  | endLoop _ top => exact @Control.Firm.pop P p k _ [_] firm top
  | waitExit _ _ waits | waitBack _ _ _ _ waits | waitExitTest _ waits => exact waits.firm firm own
  | @again above rest place kind complete _ blocks _ =>
    have left := firm.pop blocks
    exact left.goto (place_lt_of_fits (left.call.blocks ⟨place, _⟩ mem_cons_self).fits)
  | leave _ blocks _ block =>
    exact (firm.swap blocks (firm_loop block)).goto (block.ended p.found).bound
  | noLoop _ _ _ _ _ => exact firm.withBlocks (by simp)
  | enterCall block _ =>
    have ended := block.ended p.found
    have limit := ended.bound
    refine Control.Firm.goto
      ⟨firm.here, firm.branch, forall_mem_cons.mpr ⟨⟨fun _ _ => own, ?_⟩, firm.tiers⟩⟩
      (Nat.lt_trans ended.grown.begins limit)
    intro s mem
    cases mem
  | leaveCall around _ _ =>
    have outer := firm.outer
    rw [around] at outer
    exact ⟨firm.here, firm.branch, outer⟩
  | giveBack _ _ _ _ _ limit =>
    exact Control.Firm.goto
      ⟨firm.here, firm.branch, forall_mem_cons.mpr ⟨⟨firm.call.back, firm.call.blocks⟩, firm.outer⟩⟩
      limit
  | lostBack _ _ _ _ _ =>
    exact ⟨firm.here, firm.branch, forall_mem_cons.mpr
      ⟨⟨firm.call.back, firm.call.blocks⟩, firm.outer⟩⟩

inductive Raises (P : Kind → Prop) (p : Program) (i : Nat) (v : Verb) (k : Control) (e : Failure) :
    Prop
  | excused (excused : Excused p i v k e)
  | again {kind : Kind} (verb : v = .endTry) (same : e.kind? = some kind) (may : P kind)
  | stray {owner : Nat} (verb : v = .openFinally) (owned : p.Links i owner)
      (stray : ∀ g rest, k.call.blocks ≠ ⟨owner, .guard g⟩ :: rest) (scope : e.kind? = some .scope)
  | noLoop (exit : v.role = .exit) (none : ∀ s ∈ k.call.blocks, s.isLoop = false)
      (scope : e.kind? = some .scope)
  | noCall (verb : v = .call) (returning : k.call.returning = true) (fatal : e.isFatal = true)
      (alone : e.kind? = some .scope → k.outer = [])

theorem Move.raises {e : Failure} (move : Move p i resuming k v (.error e) k') (firm : k.Firm P p) :
    Raises P p i v k e := by
  have held {owner : Nat} {g : Guard} {rest : List Spot} {b : Bubble}
      (top : k.Top ⟨owner, .guard g⟩ rest) (pending : g.pending = some b) : b.Firm P p :=
    (firm.call.blocks ⟨owner, .guard g⟩ top.mem).pending pending
  cases move with
  | fail _ _ _ excused => exact .excused excused
  | overjump jumps _ _ _ _ _ kind => exact .excused (excused_of_jump jumps kind)
  | openIf _ chooses | elseIf _ _ _ chooses =>
    cases chooses with
    | fail _ evaluating => exact .excused (excused_of_kind evaluating (by decide))
  | strayFinally owned stray _ kind => exact .stray rfl owned stray kind
  | rethrow _ top pending =>
    obtain ⟨kind, same, may⟩ := held top pending
    exact .again rfl same may
  | strand _ top pending nowhere _ =>
    obtain ⟨n, source, bound⟩ := held top pending
    exact absurd bound (Nat.not_lt.mpr (nowhere n source))
  | enterLoop _ _ _ arises => exact .excused (excused_of_arises (arises _ rfl))
  | noLoop exit _ none _ scope => exact .noLoop exit none scope
  | lostCall returning _ _ fatal alone => exact .noCall rfl returning fatal alone
  | lostBack _ _ own nowhere _ =>
    obtain ⟨b, back, bound⟩ := firm.call.back _ own
    exact absurd bound (Nat.not_lt.mpr (nowhere b back))

theorem Raises.fault {f : Fault} (raises : Raises P p i v k (.fault f)) :
    f.arises (some v) = true := by
  cases raises with
  | excused excused => exact excused.fault f rfl
  | again _ kind _ => cases kind
  | stray _ _ _ kind => cases kind
  | noLoop _ _ kind => cases kind
  | noCall _ _ fatal _ => cases fatal

theorem Control.Falls.firm {free : Spot → Prop} (falls : Falls free k k') (firm : k.Firm P p) :
    k'.Firm P p := by
  induction falls with
  | refl => exact firm
  | @block k _ s rest top _ _ ih => exact ih (@Control.Firm.pop P p k _ [s] firm top)
  | @call k _ below outer _ around _ ih =>
    have outer := firm.outer
    rw [around] at outer
    exact ih ⟨firm.here, firm.branch, outer⟩

theorem Control.Taken.firm [p.Faithful] (taken : Taken p.outline cause source k x k')
    (firm : k.Firm P p) (same : cause.kind? = some kind) (may : P kind) : k'.Firm P p := by
  cases taken with
  | @caught k₁ _ _ _ _ _ _ _ falls top block _ =>
    refine (@Control.Firm.swap P p k₁ _ [] (falls.firm firm) _ _ top (firm_guard block ?_)).goto
      (block.catchPart p.found).bound
    rintro b ⟨⟩
  | @held k₁ _ _ _ _ _ _ _ falls top block _ =>
    have bubble : Bubble.Firm P p (.failure cause source) := ⟨kind, same, may⟩
    exact (@Control.Firm.swap P p k₁ _ [] (falls.firm firm) _ _ top
      (firm_holding block bubble)).goto (block.finallyPart p.found).bound
  | lost falls _ _ => exact falls.firm firm
  | broke falls _ _ => exact falls.firm firm

theorem Control.Routed.firm [p.Faithful] (routed : Routed p.outline cause source k x k')
    (firm : k.Firm P p) (same : cause.kind? = some kind) (may : kind.isFatal = false → P kind) :
    k'.Firm P p := by
  have mild (mild : cause.isFatal = false) : P kind := by
    cases cause with
    | error e =>
      cases same
      exact may mild
    | fault f => cases same
  cases routed with
  | fatal _ | unguarded _ _ => exact firm
  | @spent k₁ _ _ _ _ _ _ _ calm falls top _ _ block =>
    have bubble : Bubble.Firm P p (.failure cause source) := ⟨kind, same, mild calm⟩
    exact (@Control.Firm.swap P p k₁ _ [] (falls.firm firm) _ _ top
      (firm_holding block bubble)).goto (block.ended p.found).bound
  | offered calm falls _ _ taken => exact taken.firm (falls.firm firm) same (mild calm)

end Keeping

section Turns

variable {P : Kind → Prop} {p : Program} {m m' : Machine} {i : Nat} {c : Command} {v : Verdict}

theorem kind?_locate (e : Failure) (place : Option Int) : (e.locate place).kind? = e.kind? := by
  cases e <;> rfl

theorem Fetched.firm (fetched : Fetched p m i c m') (firm : m.control.Firm P p) :
    m'.control.Firm P p := by
  obtain ⟨_, call, outer, branch⟩ := next_keeps fetched.ran
  refine ⟨fun _ => ⟨i, fetched.here⟩, fun n sent => firm.branch n (branch n sent), ?_⟩
  have same : m'.control.tiers = m.control.tiers := by
    simp only [tiers, Machine.control, call, outer]
  rw [same]
  exact firm.tiers

theorem Dispatched.firm {r : Reply Unit} [p.Faithful] (firm : m.control.Firm P p) (here : m.Here i)
    (has : p.Has i c) (dispatched : Dispatched p c m r m') : m'.control.Firm P p := by
  cases dispatched.acted firm.fits here has with
  | moves _ move | fails _ move _ =>
    have bound := has.lt
    exact move.firm ⟨firm.here, firm.branch, firm.tiers⟩ here bound
  | host _ same => rwa [same]

theorem Turn.firm [p.Faithful] (firm : m.control.Firm P p) (turn : Turn p m i v m')
    (raised : ∀ e, v.cause? = some e → e.kind.isFatal = false → P e.kind) :
    m'.control.Firm P p := by
  cases turn with
  | done fetched dispatched | broken fetched dispatched =>
    exact dispatched.firm (fetched.firm firm) fetched.here fetched.command
  | @routed c m₁ m₂ _ e taken fetched dispatched ran =>
    have firm₂ := dispatched.firm (fetched.firm firm) fetched.here fetched.command
    refine (ran_route firm₂.fits ran).firm firm₂ rfl (raised (e.locate m₁.here) ?_)
    cases taken <;> rfl
  | @astray c m₁ m₂ _ e nested fetched dispatched ran =>
    have firm₂ := dispatched.firm (fetched.firm firm) fetched.here fetched.command
    exact (ran_route firm₂.fits ran).firm firm₂ rfl (raised (e.locate m₁.here) rfl)

end Turns

end Runbook
