import Runbook.Proofs.Run.Steps

namespace Runbook

open Control List

section Owners

variable {p : Program} {i owner : Nat} {v : Verb}

theorem owned_part [p.Faithful] (verb : p.Does i v) (part : v.role = .part)
    (owned : p.Links i owner) :
    ∃ form last, p.Spans owner form last ∧ (i, v) ∈ form.parts ∧ i < last ∧
      opens p.commands i = owner :: opens p.commands owner ∧
      opens p.commands (i + 1) = owner :: opens p.commands owner := by
  obtain ⟨place, form, last, other, block, mem⟩ := block?_part p.found verb part
  cases owned.symm.trans other
  obtain ⟨_, before, _, chain, _⟩ := block.part p.found mem
  refine ⟨form, last, block, mem, before, chain, ?_⟩
  rw [← chain]
  exact opens_same p.found fun w other => by cases verb.symm.trans other; simp [part]

theorem owned_closing [p.Faithful] (verb : p.Does i v) (closing : v.role = .closing)
    (owned : p.Links i owner) : ∃ form, p.Spans owner form i ∧ form.closing = v := by
  obtain ⟨place, form, other, block, same⟩ := block?_closing p.found verb closing
  cases owned.symm.trans other
  exact ⟨form, block, same⟩

end Owners

section Landing

variable {p : Program} {k k' : Control} {i owner last : Nat} {v : Verb} {r : Reply Unit}
  {form : Form} {s s' : Spot} {rest : List Spot} {t : Tier} {crosses ceiling complete : Bool}
  {word : FunctionWord} {name given : String} {left : List Spot} {g : Guard}
  {catchAt finallyAt function : Option Nat} {kind : LoopKind} {q : Nat}

namespace Inside

theorem tail [p.Faithful] (inside : Inside p k i) (top : k.Top s rest) :
    Seated p { k.call with blocks := rest } s.place :=
  inside.seated.tail (show _ = [] ++ s :: rest from top)

theorem fits_head (inside : Inside p k i) (top : k.Top s rest) : s.Fits p.outline :=
  inside.seated.covers.fits s top.mem

theorem guard_ok (inside : Inside p k i) (top : k.Top ⟨owner, .guard g⟩ rest) :
    g.Ok p k.call.function owner :=
  inside.seated.sound _ top.mem g rfl

theorem still [p.Faithful] (inside : Inside p k i) (verb : p.Does i v)
    (still : v.role ≠ .opening ∧ v.role ≠ .closing) (other : v ≠ .openFinally) : Placed p k := by
  refine inside.toAlive.next inside.here inside.branch (lt_length_of_verbAt verb)
    (inside.seated.succ ?_ ?_)
  · intro w same
    cases verb.symm.trans same
    exact still
  · intro same
    cases verb.symm.trans same
    exact other rfl

theorem close [p.Faithful] (inside : Inside p k i) (block : p.Spans s.place form i)
    (top : k.Top s rest) : Placed p (k.withBlocks rest) :=
  (inside.toAlive.withBlocks rest).next inside.here inside.branch (block.ended p.found).bound
    ((inside.tail top).beyond block)

variable {j place : Nat} {above : List Spot} {kind : LoopKind} {complete : Bool}

theorem within [p.Faithful] (inside : Inside p k i) (top : k.Top s rest)
    (place : s'.place = s.place) (block : p.Spans s.place form last)
    (chain : opens p.commands j = s.place :: opens p.commands s.place) (bound : j ≤ last)
    (fits : s'.Fits p.outline) (ok : s'.Ok p k.call.function) (sent : s'.Sent p j) :
    Seated p { k.call with blocks := s' :: rest } j := by
  have tail := inside.tail top
  rw [← place] at tail block chain
  exact tail.inside block chain (by omega) fits ok sent

theorem goto_within [p.Faithful] (inside : Inside p k i) (top : k.Top s rest)
    (place : s'.place = s.place) (block : p.Spans s.place form last)
    (chain : opens p.commands j = s.place :: opens p.commands s.place) (bound : j ≤ last)
    (fits : s'.Fits p.outline) (ok : s'.Ok p k.call.function) (sent : s'.Sent p j) :
    Placed p ((k.withBlocks (s' :: rest)).goto j) := by
  have limit := (block.ended p.found).bound
  exact ((inside.toAlive.withBlocks _).goto j).branch rfl (by omega)
    (inside.within top place block chain bound fits ok sent)

section

variable [p.Faithful] (alive : Alive p k) (seated : Seated p k.call i)
  (blocks : k.call.blocks = above ++ ⟨place, .loop kind complete⟩ :: rest)

include alive seated blocks

theorem round : Placed p ((k.withBlocks (⟨place, .loop kind complete⟩ :: rest)).goto place) := by
  have fits := seated.covers.fits ⟨place, .loop kind complete⟩ (by rw [blocks]; simp)
  have tail := seated.tail blocks
  have bound := Action.place_lt_of_fits fits
  exact .going (.branch alive.started rfl) (Nat.le_of_lt bound)
    ⟨alive.running, alive.chain.congr rfl rfl, .round alive.idle alive.going rfl fits tail⟩

theorem endOfLoop {complete' : Bool} (block : p.Spans place (.loop kind) last) :
    Placed p ((k.withBlocks (⟨place, .loop kind complete'⟩ :: rest)).goto last) := by
  have tail := seated.tail blocks
  have ended := block.ended p.found
  have bound := ended.bound
  refine ((alive.withBlocks _).goto last).branch rfl bound ?_
  refine @Seated.inside p k.call last _ rest last ⟨place, .loop kind complete'⟩ _ tail block
    ended.around (by omega) (.loop block) ?_ ?_
  · intro g mark
    cases mark
  · intro g _ _ _ _ mark
    cases mark

end

theorem leaving_exit [p.Faithful] (inside : Inside p k i) (verb : p.Does i v)
    (exit : v.role = .exit) : Leaving p k.call.function i (some (i : Int)) true false := by
  obtain ⟨place, _, inner, outer, w, split, opened, ⟨kind, rfl⟩, between⟩ :=
    block?_exit p.found verb exit
  have mem : place ∈ opens p.commands i := by rw [split]; simp
  obtain ⟨form, last, block⟩ := opening_of_mem_opens p.found mem
  have form_eq : form = .loop kind := by
    have same := (block.ended p.found).grown.opened.symm.trans opened
    cases form <;> simp_all [Form.opening]
  subst form_eq
  refine .exit verb exit ?_ block
  have function_verb {f : Nat} (own : k.call.function = some f) :
      ∃ word, p.Does f (.openFunction word) := by
    obtain ⟨_, word, _, _, function⟩ := inside.seated.function f own
    exact ⟨word, (function.ended p.found).grown.opened⟩
  rw [split, within_append_left, within_cons]
  · simp
  · intro own
    obtain ⟨word, function⟩ := function_verb own
    cases opened.symm.trans function
  · intro f own above
    obtain ⟨word, function⟩ := function_verb own
    exact (between f above _ function).2 ⟨word, rfl⟩

end Inside

theorem Seated.loop_open {n : Option Int} (seated : Seated p t i)
    (leaving : Leaving p t.function i n true crosses) : ∃ s ∈ t.blocks, s.isLoop = true := by
  cases leaving with
  | exit _ _ mem loop =>
    obtain ⟨s, present, same⟩ := seated.covers.mem mem loop rfl
    exact ⟨s, present, fits_isLoop (seated.covers.fits s present) same loop⟩

theorem Seated.leave_function [p.Faithful] (seated : Seated p t i)
    (block : p.Spans owner (.function word name) i) (other : t.function ≠ some owner) :
    Seated p t (i + 1) := by
  have ended := block.ended p.found
  have covers := seated.covers
  rw [ended.around, within_cons other] at covers
  refine ⟨?_, ?_, seated.sound, ?_⟩
  · intro f own
    obtain ⟨mem, function⟩ := seated.function f own
    rw [ended.around] at mem
    rw [ended.after]
    rcases mem_cons.mp mem with rfl | mem
    · exact absurd own other
    · exact ⟨mem, function⟩
  · rw [ended.after]
    generalize blocks : t.blocks = spots at covers ⊢
    cases covers with
    | keep fits below =>
      cases fits with
      | cond same _ => cases block.symm.trans same
      | loop same => cases block.symm.trans same
      | guard same => cases block.symm.trans same
    | skip _ _ below => exact below
  · refine fun s mem => (seated.sent s mem).succ ?_
    rw [ended.closed]
    nofun

section

variable [p.Faithful] (inside : Inside p k i)

include inside

theorem Inside.lands_jump {dest : Nat} (verb : p.Does i v) (jumps : v.jumps = true)
    (region : p.outline.region? i = p.outline.region? dest) (blocks : k.call.blocks = left ++ rest)
    (gone : ∀ s ∈ left, s.isCond = true ∧ s.place ∉ opens p.commands dest)
    (kept : ∀ s, rest.head? = some s → s.isCond = true → s.place ∈ opens p.commands dest)
    (bound : dest < p.commands.length) : Placed p ((k.withBlocks rest).goto dest) := by
  refine ((inside.toAlive.withBlocks rest).goto dest).branch rfl bound ?_
  refine inside.seated.jump (hasJump_of_verbAt verb jumps) ?_ region blocks gone kept
  intro same
  cases verb.symm.trans same
  cases jumps

theorem Inside.rooted_suffix (blocks : k.call.blocks = left ++ rest) :
    Rooted p (k.withBlocks rest) := by
  have falls : Falls (fun _ => True) k (k.withBlocks rest) := falls_blocks blocks fun _ _ => trivial
  exact inside.rooted.falls falls

theorem Inside.lands_passCatch (top : k.Top ⟨owner, .guard g⟩ rest)
    (block : p.Spans owner (.guard name catchAt finallyAt) last) :
    Placed p (k.goto (finallyAt.getD last)) := by
  have ended := block.ended p.found
  have ok := inside.guard_ok top
  have same : k.goto (finallyAt.getD last) =
      (k.withBlocks (⟨owner, .guard g⟩ :: rest)).goto (finallyAt.getD last) := by
    rw [← top, withBlocks_self]
  rw [same]
  cases finallyAt with
  | none =>
    refine inside.goto_within top rfl block ended.around (Nat.le_refl last) (.guard block)
      (spot_ok ok) ?_
    intro _ _ _ _ _ _ other
    cases block.symm.trans other
  | some j =>
    obtain ⟨_, before, _, chain, _⟩ := block.finallyPart p.found
    refine inside.goto_within top rfl block chain (Nat.le_of_lt before) (.guard block)
      (spot_ok ok) ?_
    intro _ _ _ n _ _ other
    cases block.symm.trans other
    exact ⟨fun earlier => absurd earlier (Nat.lt_irrefl _), fun _ => Nat.le_refl _⟩

theorem Inside.lands_finally {g' : Guard} (verb : p.Does i .openFinally) (owned : p.Links i owner)
    (top : k.Top ⟨owner, .guard g⟩ rest) (finaled : g'.finaled = true)
    (ok : ∀ name catchAt j last, p.Spans owner (.guard name catchAt (some j)) last →
      g'.Ok p k.call.function owner) :
    Placed p (k.withBlocks (⟨owner, .guard g'⟩ :: rest)) := by
  obtain ⟨form, last, block, part, before, _, next⟩ := owned_part verb rfl owned
  obtain ⟨name, catchAt, rfl⟩ : ∃ name catchAt, form = .guard name catchAt (some i) := by
    cases form with
    | guard name catchAt finallyAt =>
      cases finallyAt with
      | none => cases catchAt <;> simp [Form.parts] at part
      | some j =>
        have same : i = j := by cases catchAt <;> simpa [Form.parts] using part
        exact ⟨name, catchAt, by rw [same]⟩
    | cond elseIfs orElse => cases orElse <;> simp [Form.parts] at part
    | loop kind | function word name => simp [Form.parts] at part
  refine (inside.toAlive.withBlocks _).next inside.here inside.branch (lt_length_of_verbAt verb) ?_
  exact inside.within top rfl block next before (.guard block) (spot_ok (ok _ _ _ _ block))
    (sent_of_finaled block finaled (by simp))

end

theorem opened_fresh : (Guard.opened given catchAt finallyAt).phase ≠ some .finishing := by
  unfold Guard.opened
  split <;> nofun

theorem opened_ok (block : p.Spans i (.guard name catchAt finallyAt) last) :
    (Guard.opened given catchAt finallyAt).Ok p function i := by
  refine ⟨?_, ?_, nofun⟩
  · intro name' catchAt' finallyAt' last' other
    cases block.symm.trans other
    cases catchAt <;> cases finallyAt <;> rfl
  · exact fun finishing => absurd finishing opened_fresh

theorem Inside.lands_resume {source : Nat} [p.Faithful] (inside : Inside p k i)
    (top : k.Top ⟨owner, .guard g⟩ rest)
    (pending : g.pending = some (.command (some (source : Int)) ceiling crosses))
    (clear : Clear p.outline ceiling ((k.withBlocks rest).wayOut crosses))
    (bound : source < p.commands.length) :
    Placed p ({ k.withBlocks rest with resume := some (source : Int) }.goto source) := by
  have leaving := (inside.guard_ok top).leaving _ _ _ pending
  have tail := inside.tail top
  exact .going (.branch inside.started rfl) (Nat.le_of_lt bound)
    ⟨inside.running, inside.chain.congr rfl rfl, .resume rfl inside.going tail leaving clear⟩

theorem ok_loop : Spot.Ok p function ⟨i, .loop kind complete⟩ := by
  intro g mark
  cases mark

theorem sent_loop {now : Nat} : Spot.Sent p now ⟨i, .loop kind complete⟩ := by
  intro g _ _ _ _ mark
  cases mark

section

variable [p.Faithful] (inside : Inside p k i)

include inside

theorem Inside.enterLoop (block : p.Spans i (.loop kind) last) :
    Lands p r (k.push ⟨i, .loop kind false⟩) := by
  have seated := @Seated.opened p k.call i last _ ⟨i, .loop kind false⟩ _ inside.seated block rfl
    (.loop block) ok_loop (fun _ mark => by cases mark)
  have bound := lt_length_of_verbAt (block.ended p.found).grown.opened
  cases r with
  | ok _ => exact (inside.toAlive.withBlocks _).next inside.here inside.branch bound seated
  | error e => exact fun _ => ⟨inside.toAlive.withBlocks _, _, seated⟩

theorem Inside.skipLoop (block : p.Spans i (.loop kind) last) :
    Placed p ((k.push ⟨i, .loop kind true⟩).goto last) := by
  have ended := block.ended p.found
  have bound := ended.bound
  refine ((inside.toAlive.withBlocks _).goto last).branch rfl bound ?_
  exact @Seated.inside p k.call last _ k.call.blocks last ⟨i, .loop kind true⟩ _ inside.seated block
    ended.around (by omega) (.loop block) ok_loop sent_loop

theorem Inside.not_top {mark : Mark} : k.call.blocks ≠ ⟨i, mark⟩ :: rest := by
  intro top
  have mem : (⟨i, mark⟩ : Spot) ∈ k.call.blocks := Top.mem top
  exact Nat.lt_irrefl _ (lt_of_mem_opens p.found (inside.seated.mem_opens mem))

theorem Inside.enterCall {place : Nat} (verb : p.Does i .call)
    (block : p.Spans place (.function word name) last) :
    Placed p ({ k with
      call := { function := some place, back := k.here }
      outer := k.call :: k.outer }.goto place) := by
  have bound := lt_length_of_verbAt (block.ended p.found).grown.opened
  have chain : Chain p { function := some place, back := k.here } (k.call :: k.outer) :=
    .call rfl inside.here verb inside.going inside.seated inside.chain
  exact .going (.branch inside.started rfl) (Nat.le_of_lt bound)
    ⟨inside.running, chain, .entry inside.idle rfl rfl rfl block⟩

end

theorem Alive.giveBack {back : Nat} (alive : Alive p k) (seated : Seated p k.call q)
    (own : k.call.function = some owner) (source : k.call.back = some (back : Int))
    (clear : Clear p.outline false [k.call.blocks]) (bound : back < p.commands.length) :
    Placed p ({ k with call := { k.call with returning := true } }.goto back) :=
  .going (.branch alive.started rfl) (Nat.le_of_lt bound)
    ⟨alive.running, alive.chain.congr rfl rfl,
      .back alive.idle rfl source own
      ⟨seated.function, seated.covers, seated.sound, seated.sent⟩ clear⟩

theorem Chain.not_nowhere {outer : List Tier} (chain : Chain p t outer)
    (own : t.function = some owner)
    (nowhere : ∀ place : Nat, t.back = some (place : Int) → p.commands.length ≤ place) : False := by
  cases chain with
  | bottom top => rw [top] at own; cases own
  | @call _ _ _ _ b _ back verb _ _ _ =>
    have := nowhere b back
    have := lt_length_of_verbAt verb
    omega

theorem mayPass_of_opening {jumps : Bool}
    (opening : some form.opening = some (.openFunction word)) : form.mayPass jumps = true := by
  cases form <;> first | rfl | cases opening

theorem function_of_closing (closing : form.closing = .endFunction word) :
    ∃ name, form = .function word name := by
  cases form with
  | function word' name => cases closing; exact ⟨name, rfl⟩
  | cond _ _ | loop _ | guard _ _ _ => cases closing

theorem Inside.not_stranded {source : Option Int} (inside : Inside p k i)
    (top : k.Top ⟨owner, .guard g⟩ rest)
    (pending : g.pending = some (.command source ceiling crosses))
    (nowhere : ∀ place : Nat, source = some (place : Int) → p.commands.length ≤ place) : False := by
  cases (inside.guard_ok top).leaving _ _ _ pending with
  | exit verb _ _ _ | back verb _ _ _ | exitTest verb =>
    have := nowhere _ rfl
    have := lt_length_of_verbAt verb
    omega

section Cases

variable [p.Faithful] (inside : Inside p k i) (verb : p.Does i v)

include inside

theorem Inside.lands_elseIf {c : Cond} (verb : p.Does i .elseIf) (owned : p.Links i owner)
    (top : k.Top ⟨owner, .cond c⟩ rest) (chooses : Chooses p.outline k owner c rest r k') :
    Lands p r k' := by
  obtain ⟨form, last, block, _, before, _, next⟩ := owned_part verb rfl owned
  cases inside.fits_head top with
  | cond other left =>
    cases block.symm.trans other
    exact Chooses.lands inside.toAlive inside.here inside.branch (lt_length_of_verbAt verb) block
      left (inside.tail top) next (by omega) chooses

theorem Inside.lands_openTry (verb : p.Does i .openTry)
    (block : p.Spans i (.guard name catchAt finallyAt) last) :
    Placed p (k.push ⟨i, .guard (.opened given catchAt finallyAt)⟩) := by
  have seated := @Seated.opened p k.call i last _ ⟨i, .guard (.opened given catchAt finallyAt)⟩ _
    inside.seated block rfl (.guard block) (spot_ok (opened_ok block))
    (by rintro g ⟨⟩; exact opened_fresh)
  exact (inside.toAlive.withBlocks _).next inside.here inside.branch
    (lt_length_of_verbAt verb) seated

/-- A guard that has a last segment listens from the start, so that a deaf one does not come to this
segment. -/
theorem Inside.finaled (verb : p.Does i .openFinally) (owned : p.Links i owner)
    (top : k.Top ⟨owner, .guard g⟩ rest) (old : g.phase = none ∨ g.finaled = true) :
    g.finaled = true := by
  rcases old with deaf | finaled
  · obtain ⟨form, last, block, part, _⟩ := owned_part verb rfl owned
    cases inside.fits_head top with
    | guard other =>
      cases block.symm.trans other
      have listens := (inside.guard_ok top).listens _ _ _ _ block
      rw [deaf] at listens
      rename_i catchAt finallyAt
      cases catchAt <;> cases finallyAt <;> simp [Form.parts] at part listens
  · exact finaled

theorem Inside.lands_skipFunction (verb : p.Does i (.openFunction word))
    (block : p.Spans i form last) : Placed p (k.goto last) := by
  have ended := block.ended p.found
  have opening := ended.grown.opened.symm.trans verb
  exact (inside.toAlive.goto _).branch rfl ended.bound
    (inside.seated.pass block (mayPass_of_opening opening) ended.around (by omega))

include verb

theorem Inside.close_owned (closing : v.role = .closing) (owned : p.Links i s.place)
    (top : k.Top s rest) : Placed p (k.withBlocks rest) := by
  obtain ⟨form, block, _⟩ := owned_closing verb closing owned
  exact inside.close block top

theorem Inside.loop_open (exit : v.role = .exit) (none : ∀ s ∈ k.call.blocks, s.isLoop = false) :
    False := by
  obtain ⟨s, mem, loop⟩ := inside.seated.loop_open (inside.leaving_exit verb exit)
  rw [none s mem] at loop
  cases loop

theorem Inside.lands_foreign (gives : v.givesBack = true) (owned : p.Links i owner)
    (other : k.call.function ≠ some owner) : Placed p k := by
  cases v with
  | giveBack => exact inside.still verb (by simp [Verb.role]) (by rintro ⟨⟩)
  | endFunction word =>
    obtain ⟨form, block, closing⟩ := owned_closing verb rfl owned
    obtain ⟨name, rfl⟩ := function_of_closing closing
    exact inside.toAlive.next inside.here inside.branch (lt_length_of_verbAt verb)
      (inside.seated.leave_function block other)
  | _ => cases gives

end Cases

theorem Inside.lands [p.Faithful] (inside : Inside p k i) (verb : p.Does i v)
    (move : Move p i false k v r k') : Lands p r k' := by
  have alive := inside.toAlive
  have seated := inside.seated
  have bound := lt_length_of_verbAt verb
  cases move with
  | fail _ _ e => exact fun _ => inside.rooted
  | stay plain =>
    exact inside.still verb (by simp [v.role_of_isFree plain]) (by rintro rfl; cases plain)
  | jump jumps region blocks gone kept bound _ =>
    exact inside.lands_jump verb jumps region blocks gone kept bound
  | overjump jumps region blocks gone beyond e => exact fun _ => inside.rooted_suffix blocks
  | openIf block chooses =>
    have ended := block.ended p.found
    have begins := ended.grown.begins
    exact Chooses.lands alive inside.here inside.branch bound block (fun _ mem => mem) seated
      (opens_opening p.found verb rfl) (by omega) chooses
  | elseIf owned top undecided chooses => exact inside.lands_elseIf verb owned top chooses
  | skip which owned top decided block =>
    have ended := block.ended p.found
    rw [← withBlocks_self k, top]
    exact inside.goto_within top rfl block ended.around (Nat.le_refl _)
      (inside.fits_head top) ok_cond sent_cond
  | orElse => exact inside.still verb (by simp [Verb.role]) (by rintro ⟨⟩)
  | endIf owned top => exact inside.close_owned verb rfl owned top
  | openTry block => exact inside.lands_openTry verb block
  | openCatch => exact inside.still verb (by simp [Verb.role]) (by rintro ⟨⟩)
  | passCatch owned top passing block => exact inside.lands_passCatch top block
  | openFinally owned top fresh owed =>
    exact inside.lands_finally verb owned top rfl fun _ _ _ _ block =>
      (inside.guard_ok top).finishing block
  | keepFinally owned top old =>
    have finaled := inside.finaled verb owned top old
    rw [← withBlocks_self k, top]
    exact inside.lands_finally verb owned top finaled fun _ _ _ _ _ => inside.guard_ok top
  | strayFinally => exact fun _ => inside.rooted
  | endTry owned top quiet => exact inside.close_owned verb rfl owned top
  | @rethrow owner g rest cause source owned top pending =>
    exact fun _ => @Inside.rooted_suffix p k i rest [⟨owner, .guard g⟩] _ inside top
  | rewait owned top pending waits =>
    exact Waits.placed (alive.withBlocks _) (inside.tail top)
      ((inside.guard_ok top).leaving _ _ _ pending) waits
  | resume owned top pending clear bound => exact inside.lands_resume top pending clear bound
  | strand owned top pending nowhere e => exact (inside.not_stranded top pending nowhere).elim
  | enterLoop r block fresh => exact inside.enterLoop block
  | skipLoop block fresh => exact inside.skipLoop block
  | nextRound top => exact absurd top inside.not_top
  | lastRound block top => exact absurd top inside.not_top
  | endLoop owned top => exact inside.close_owned verb rfl owned top
  | @loopBack kind owner rest owned top =>
    rw [← withBlocks_self k, top]
    exact Inside.round alive seated (show _ = [] ++ ⟨owner, .loop kind false⟩ :: rest from top)
  | pass exit free => exact inside.still verb (by simp [exit]) (by rintro rfl; cases exit)
  | waitExit exit free waits =>
    rw [inside.here] at waits
    exact Waits.placed alive seated (inside.leaving_exit verb exit) waits
  | again clear blocks inner => exact Inside.round alive seated blocks
  | leave clear blocks inner block => exact Inside.endOfLoop alive seated blocks block
  | noLoop exit clear none e => exact (inside.loop_open verb exit none).elim
  | enterCall block fresh => exact inside.enterCall verb block
  | lostCall returning => rw [inside.going] at returning; cases returning
  | leaveCall around returning => rw [inside.going] at returning; cases returning
  | enterFunction own =>
    exact absurd (lt_of_mem_opens p.found (seated.function i own).1) (Nat.lt_irrefl i)
  | skipFunction other block => exact inside.lands_skipFunction verb block
  | foreign gives owned other => exact inside.lands_foreign verb gives owned other
  | waitBack which owned own free waits =>
    rw [inside.here] at waits
    exact Waits.placed alive seated (.back verb which own owned) waits
  | giveBack which owned own clear source bound =>
    exact alive.giveBack seated own source (clear rfl) bound
  | lostBack which owned own nowhere e => exact (inside.chain.not_nowhere own nowhere).elim
  | waitExitTest free waits =>
    rw [inside.here] at waits
    exact Waits.placed alive seated (.exitTest verb) waits
  | stop clear => exact .stopped rfl inside.chain seated (clear rfl)

theorem lands_round [p.Faithful] (alive : Alive p k) (here : k.Here i) (branch : k.branch = none)
    (top : k.Top ⟨i, .loop kind complete⟩ rest) (block : p.Spans i (.loop kind) last)
    (seated : Seated p { k.call with blocks := rest } i)
    (move : Move p i false k (.openLoop kind) r k') : Lands p r k' := by
  have ended := block.ended p.found
  have bound := ended.bound
  have begins := ended.grown.begins
  have opened : Seated p k.call (i + 1) := by
    have opened := @Seated.opened p { k.call with blocks := rest } i last _
      ⟨i, .loop kind complete⟩ _ seated block rfl (.loop block) ok_loop
      (fun _ mark => by cases mark)
    rw [← top] at opened
    exact opened
  cases move with
  | fail _ _ e => exact fun _ => ⟨alive, i + 1, opened⟩
  | enterLoop r _ fresh => exact absurd rfl (fresh _ (by rw [top]; rfl))
  | skipLoop _ fresh => exact absurd rfl (fresh _ (by rw [top]; rfl))
  | nextRound => exact alive.next here branch (by omega) opened
  | @lastRound _ complete' last' rest' other top' =>
    cases block.symm.trans other
    obtain ⟨_, rfl⟩ := cons.inj (top.symm.trans top')
    exact ((alive.withBlocks _).goto last).branch rfl bound
      (@Seated.inside p k.call last _ rest last ⟨i, .loop kind true⟩ _ seated block ended.around
        (by omega) (.loop block) ok_loop sent_loop)
  | _ => contradiction

theorem lands_entry [p.Faithful] (alive : Alive p k) (here : k.Here i) (branch : k.branch = none)
    (own : k.call.function = some i) (fresh : k.call.blocks = [])
    (block : p.Spans i (.function word name) last)
    (move : Move p i false k (.openFunction word) r k') : Lands p r k' := by
  have ended := block.ended p.found
  have bound := ended.bound
  have begins := ended.grown.begins
  have seated : Seated p k.call (i + 1) := by
    have chain := opens_opening p.found ended.grown.opened (by simp)
    refine ⟨?_, ?_, by simp [fresh], by simp [fresh]⟩
    · intro f same
      cases own.symm.trans same
      exact ⟨by rw [chain]; exact mem_cons_self, word, name, last, block⟩
    · rw [chain, own, within_self, fresh]
      exact .nil
  cases move with
  | fail _ _ e => exact fun _ => ⟨alive, i + 1, seated⟩
  | enterFunction => exact alive.next here branch (by omega) seated
  | skipFunction other => exact absurd own other
  | _ => contradiction

theorem lands_resume [p.Faithful] (alive : Alive p k) (seated : Seated p k.call q)
    (verb : p.Does i v) (leaving : Leaving p k.call.function q (some (i : Int)) ceiling crosses)
    (clear : Clear p.outline ceiling (k.wayOut crosses)) (move : Move p i true k v r k') :
    Lands p r k' := by
  have rooted : Rooted p k := ⟨alive, q, seated⟩
  rcases leaving.kinds verb with
    ⟨rfl, rfl, exit, _⟩ | ⟨rfl, rfl, gives, f, own, owned⟩ | ⟨rfl, rfl, rfl⟩
  · obtain ⟨s, mem, is_loop⟩ := seated.loop_open leaving
    cases move with
    | fail _ _ e => exact fun _ => rooted
    | again _ blocks inner => exact Inside.round alive seated blocks
    | leave _ blocks inner block => exact Inside.endOfLoop alive seated blocks block
    | noLoop _ _ none e => rw [none s mem] at is_loop; cases is_loop
    | pass _ free | waitExit _ free => cases free
    | stay other | jump other | overjump other | skip other | foreign other | waitBack other
    | giveBack other
    | lostBack other => cases v <;> cases exit <;> cases other
    | _ => cases exit
  · cases move with
    | fail _ _ e => exact fun _ => rooted
    | giveBack _ _ _ _ source bound => exact alive.giveBack seated own source clear bound
    | lostBack _ _ _ nowhere e => exact (alive.chain.not_nowhere own nowhere).elim
    | foreign _ owned' different => cases owned.symm.trans owned'; exact absurd own different
    | waitBack _ _ _ free => cases free
    | stay other | jump other | overjump other | skip other | pass other | waitExit other
    | noLoop other =>
      cases v <;> cases gives <;> cases other
    | _ => cases gives
  · cases move with
    | fail _ _ e => exact fun _ => rooted
    | stop => exact .stopped rfl alive.chain seated clear
    | waitExitTest free => cases free
    | _ => contradiction

theorem lands_back [p.Faithful] (running : k.stopped = false) (started : k.started = true)
    (idle : k.resume = none) (chain : Chain p k.call k.outer) (here : k.Here i)
    (branch : k.branch = none) (returning : k.call.returning = true)
    (source : k.call.back = some (i : Int)) (move : Move p i false k .call r k') :
    Lands p r k' := by
  have at_call : k.call.returning = true ∧ k.call.back = k.here := ⟨returning, by rw [source, here]⟩
  cases move with
  | fail _ fresh e => exact absurd at_call (fresh rfl)
  | enterCall _ fresh => exact absurd at_call fresh
  | lostCall _ _ e fatal => exact fun mild => by rw [fatal] at mild; cases mild
  | @leaveCall next outer around _ _ =>
    rw [around] at chain
    cases chain with
    | call _ back verb going seated rest =>
      cases source.symm.trans back
      have alive : Alive p { k with call := next, outer := outer } :=
        ⟨running, started, idle, going, rest⟩
      have still : ∀ v, p.Does i v → v.role ≠ .opening ∧ v.role ≠ .closing := by
        intro v same
        cases verb.symm.trans same
        exact ⟨nofun, nofun⟩
      exact alive.next here branch (lt_length_of_verbAt verb)
        (seated.succ still (by rw [verb]; nofun))
  | _ => contradiction

theorem Poised.lands [p.Faithful] (poised : Poised p k i) (verb : p.Does i v)
    (move : Move p i k.resuming { k with resume := none } v r k') : Lands p r k' := by
  cases poised.stance with
  | inside idle going seated =>
    rw [forget_resume idle, resuming_of_idle idle] at move
    exact (poised.inside idle going seated).lands verb move
  | round idle going top fits seated =>
    rw [forget_resume idle, resuming_of_idle idle] at move
    cases fits with
    | loop block =>
      cases verb.symm.trans (block.ended p.found).grown.opened
      exact lands_round ⟨poised.running, poised.started, idle, going, poised.chain⟩ poised.here
        poised.branch top block seated move
  | entry idle going own fresh block =>
    rw [forget_resume idle, resuming_of_idle idle] at move
    cases verb.symm.trans (block.ended p.found).grown.opened
    exact lands_entry ⟨poised.running, poised.started, idle, going, poised.chain⟩ poised.here
      poised.branch own fresh block move
  | resume marked going seated leaving clear =>
    have resuming : k.resuming = true := by simp [Control.resuming, marked, poised.here]
    rw [resuming] at move
    have alive : Alive p { k with resume := none } :=
      ⟨poised.running, poised.started, rfl, going, poised.chain⟩
    exact lands_resume alive seated verb leaving clear move
  | back idle returning source own seated clear =>
    rw [forget_resume idle, resuming_of_idle idle] at move
    cases verb.symm.trans (poised.chain.verb_back own source)
    exact lands_back poised.running poised.started idle poised.chain poised.here poised.branch
      returning source move

end Landing

end Runbook
