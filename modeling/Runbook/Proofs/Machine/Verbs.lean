import Runbook.Proofs.Machine.Transfers

namespace Runbook

open List

section Forms

variable {o : Outline} {s : Spot} {form : Form} {last i : Nat} {v : Verb}

section

variable (fits : s.Fits o) (block : o.Spans s.place form last)

include fits block

theorem Spot.Fits.cond_of_closing (closing : form.closing = .endIf) :
    ∃ c, s = ⟨s.place, .cond c⟩ := by
  cases fits with
  | cond other _ | loop other | guard other =>
    cases block.symm.trans other; cases closing <;> exact ⟨_, rfl⟩

theorem Spot.Fits.guard_of_closing (closing : form.closing = .endTry) :
    ∃ g, s = ⟨s.place, .guard g⟩ := by
  cases fits with
  | cond other _ | loop other | guard other =>
    cases block.symm.trans other; cases closing <;> exact ⟨_, rfl⟩

theorem Spot.Fits.loop_of_closing {kind : LoopKind} (closing : form.closing = .endLoop kind) :
    ∃ complete, s = ⟨s.place, .loop kind complete⟩ := by
  cases fits with
  | cond other _ | loop other | guard other =>
    cases block.symm.trans other; cases closing <;> exact ⟨_, rfl⟩

theorem Spot.Fits.cond_of_part (part : (i, v) ∈ form.parts) (branch : v.isBranch = true) :
    ∃ c, s = ⟨s.place, .cond c⟩ := by
  cases fits with
  | cond _ _ => exact ⟨_, rfl⟩
  | loop other | guard other =>
    cases block.symm.trans other
    cases v <;> cases branch <;> simp [Form.parts] at part

theorem Spot.Fits.guard_of_part (part : (i, v) ∈ form.parts)
    (which : v = .openCatch ∨ v = .openFinally) : ∃ g, s = ⟨s.place, .guard g⟩ := by
  cases fits with
  | cond other _ | loop other =>
    cases block.symm.trans other
    rcases which with rfl | rfl <;> simp [Form.parts] at part
  | guard _ => exact ⟨_, rfl⟩

end

end Forms

def Program.truth? (p : Program) (text : String) (vars : Env) : Option Bool :=
  match (p.evaluator text vars).1 with
  | .ok v => some v.truthy
  | .error _ => none

/-- What the test at the place `next` makes of a condition that is innermost and has the tests
`left` behind it. -/
inductive Tried (k : Control) (q : Nat) (left : List Nat) (orElse : Option Nat) (last : Nat)
    (rest : List Spot) : Option Bool → Except Failure Unit → Control → Prop
  | fails (e : Failure) (evaluating : e.kind? = some .eval) :
      Tried k q left orElse last rest none (.error e)
        (k.withBlocks (⟨q, .cond ⟨left, false⟩⟩ :: rest))
  | holds : Tried k q left orElse last rest (some true) (.ok ())
      (k.withBlocks (⟨q, .cond ⟨left, true⟩⟩ :: rest))
  | next {first others} (more : left = first :: others) :
      Tried k q left orElse last rest (some false) (.ok ())
        ((k.withBlocks (⟨q, .cond ⟨others, false⟩⟩ :: rest)).goto first)
  | last (none : left = []) :
      Tried k q left orElse last rest (some false) (.ok ())
        ((k.withBlocks (⟨q, .cond ⟨[], false⟩⟩ :: rest)).goto (orElse.getD last))

theorem Tried.chooses {o : Outline} {k k' : Control} {q last : Nat} {left elseIfs : List Nat}
    {orElse : Option Nat} {rest : List Spot} {truth : Option Bool} {r : Reply Unit}
    (tried : Tried k q left orElse last rest truth r k')
    (block : o.Spans q (.cond elseIfs orElse) last) :
    Control.Chooses o k q ⟨left, false⟩ rest r k' := by
  cases tried with
  | fails e evaluating => exact .fail e evaluating
  | holds => exact .holds
  | next more => exact .next more
  | last none =>
    cases none
    exact .last rfl block

namespace Action

open Control

variable {p : Program} {m m' : Machine} {i : Nat} {r : Reply Unit} {s : Spot} {rest : List Spot}
  {k : Control} {o : Outline} {owner last : Nat} {f : Frame} {elseIfs : List Nat} {c : Command}
  {resuming : Bool} {v : Verb} {g : Guard}

theorem top_of_spots (top : m.control.call.blocks = s :: rest) :
    ∃ f fs, m.call.blocks = f :: fs ∧ f.spot = s ∧ fs.map Frame.spot = rest := by
  rw [control_blocks] at top
  exact map_eq_cons_iff.mp top

theorem fits_top (fits : k.Fits o) (top : k.Top s rest) : s.Fits o :=
  fits s (mem_flatMap.mpr ⟨k.call, mem_cons_self, top.mem⟩)

theorem ran_ownTop_bind {α : Type} {f : Nat → Frame → Action α} {x : Reply α}
    (here : m.Here i) (owned : p.Links i owner)
    (ran : Ran (do
      let o ← ownerHere p
      let t ← expectTop p o
      f o t) m x m') :
    (m' = m ∧ (∃ e, x = .error e ∧ e.kind? = some .scope) ∧ ∀ t rest, m.Top t rest →
      t.place ≠ owner) ∨ ∃ t rest, m.Top t rest ∧ t.place = owner ∧ Ran (f owner t) m x m' := by
  have ran := ran_bind_ok ran (run_ownerHere here owned)
  rcases ran_bind ran with ⟨e, rfl, failed⟩ | ⟨t, m₂, expected, after⟩
  · obtain ⟨rfl, ⟨⟨_, same, scope⟩, stray⟩ | ⟨_, _, wrong, _⟩⟩ := ran_expectTop failed
    · cases same
      exact .inl ⟨rfl, ⟨e, rfl, scope⟩, stray⟩
    · cases wrong
  obtain ⟨rfl, ⟨⟨_, wrong, _⟩, _⟩ | ⟨t', rest, same, top, at_place⟩⟩ := ran_expectTop expected
  · cases wrong
  cases same
  exact .inr ⟨t, rest, top, at_place, after⟩

theorem top_spot {rest : List Frame} (top : m.Top f rest) :
    m.control.call.blocks = f.spot :: rest.map Frame.spot := by rw [control_blocks, top, map_cons]

theorem ran_holds {text : String} {b : Reply Bool} (ran : Ran (holds p text) m b m') :
    m' = { m with vars := (p.evaluator text m.vars).2 } ∧
      ((∃ e, b = .error e ∧ e.kind? = some .eval ∧ p.truth? text m.vars = none) ∨
        ∃ x, b = .ok x ∧ p.truth? text m.vars = some x) := by
  rcases ran_bind ran with ⟨e, rfl, failed⟩ | ⟨v, m₁, evaluated, ran⟩
  · obtain ⟨same, value, kind⟩ := ran_eval failed
    obtain ⟨message, rfl⟩ := kind e rfl
    refine ⟨same, .inl ⟨_, rfl, rfl, ?_⟩⟩
    unfold Program.truth?
    cases out : (p.evaluator text m.vars).1 with
    | ok v => cases (value v).mpr out
    | error _ => rfl
  · obtain ⟨rfl, value, _⟩ := ran_eval evaluated
    obtain ⟨rfl, rfl⟩ := ran_pure ran
    refine ⟨rfl, .inr ⟨v.truthy, rfl, ?_⟩⟩
    rw [Program.truth?, (value v).mp rfl]

theorem ran_choose {place : Nat} {condition : String} {left : List Nat} {orElse : Option Nat}
    [p.Faithful] (ran : Ran (choose p place condition) m r m')
    (start : m.control = k.withBlocks (⟨place, .cond ⟨left, false⟩⟩ :: rest))
    (block : p.Spans place (.cond elseIfs orElse) last) (within : ∀ j ∈ left, j ∈ elseIfs) :
    Tried k place left orElse last rest (p.truth? condition m.vars) r m'.control := by
  have ended := block.ended p.found
  have bound := ended.bound
  have inside (j : Nat) (v : Verb) (mem : (j, v) ∈ (Form.cond elseIfs orElse).parts) :
      j < p.commands.length := by
    have := (ended.grown.parts (j, v) mem).2.1
    omega
  obtain ⟨f, fs, top, spot, rfl⟩ := top_of_spots (by rw [start]; rfl)
  obtain ⟨rfl, body⟩ := spot_cond spot
  -- whatever was innermost, the rest of the control is that of `k`
  have others (bs : List Spot) : k.withBlocks bs = m.control.withBlocks bs := by
    rw [start, withBlocks_withBlocks]
  rcases ran_bind ran with ⟨e, rfl, failed⟩ | ⟨held, m₁, tested, ran⟩
  · obtain ⟨rfl, ⟨_, same, evaluating, truth⟩ | ⟨_, wrong, _⟩⟩ := ran_holds failed
    · cases same
      have tried := @Tried.fails k f.place left orElse last (fs.map Frame.spot) e evaluating
      rw [← start] at tried
      rw [truth]
      exact tried
    · cases wrong
  obtain ⟨rfl, ⟨_, wrong, _⟩ | ⟨_, same, truth⟩⟩ := ran_holds tested
  · cases wrong
  cases same
  rw [truth]
  cases held with
  | true =>
    obtain ⟨rfl, rfl⟩ := ran_done ran (run_changeCond top body)
    have tried := @Tried.holds k f.place left orElse last (fs.map Frame.spot)
    rw [others] at tried
    exact tried
  | false =>
    have ran := ran_bind_ok ran (run_expectTop top)
    have branches : condAt p f.place = .ok (orElse, last) := by simp [condAt, block]
    rw [branches] at ran
    have ran := ran_bind_ok ran rfl
    rw [body] at ran
    cases left with
    | nil =>
      have inner : orElse.getD last < p.commands.length := by
        cases orElse with
        | none => exact bound
        | some j => exact inside j .orElse (by simp [Form.parts])
      obtain ⟨rfl, rfl⟩ := ran_done ran (run_branchTo inner)
      have tried := @Tried.last k f.place [] orElse last (fs.map Frame.spot) rfl
      rw [← start] at tried
      exact tried
    | cons first more =>
      have inner := inside first .elseIf (by simp [Form.parts, within first mem_cons_self])
      have ran := ran_bind_ok ran (run_changeCond top body)
      obtain ⟨rfl, rfl⟩ := ran_done ran (run_branchTo inner)
      have tried := @Tried.next k f.place _ orElse last (fs.map Frame.spot) first more rfl
      rw [others] at tried
      exact tried

theorem ran_openIf {orElse : Option Nat} [p.Faithful] (here : m.Here i)
    (block : p.Spans i (.cond elseIfs orElse) last) (ran : Ran (openIf p c) m r m') :
    Tried m.control i elseIfs orElse last m.control.call.blocks (p.truth? c.target m.vars) r
      m'.control := by
  have ran := ran_bind_ok ran (run_openerHere here block)
  have ran : Ran (choose p i c.target)
      { m with call := { m.call with blocks := _ :: m.call.blocks } } r m' := ran
  have tried := ran_choose (k := m.control) ran rfl block fun _ mem => mem
  exact tried

theorem openIf_move [p.Faithful] (here : m.Here i) (verb : p.Does i .openIf)
    (ran : Ran (openIf p c) m r m') : Move p i resuming m.control .openIf r m'.control := by
  obtain ⟨form, last, block, same⟩ := block?_opening p.found verb rfl
  cases form with
  | cond elseIfs orElse => exact .openIf block ((ran_openIf here block ran).chooses block)
  | guard name catchAt finallyAt | loop kind | function word name => cases same

theorem excused_stray {e : Failure} (asks : v.asks = true) (scope : e.kind? = some .scope)
    (owned : p.Links i owner) (stray : ∀ f rest, m.Top f rest → f.place ≠ owner) :
    Excused p i v m.control e := by
  refine excused_of_stray asks scope owned fun s rest top => ?_
  obtain ⟨f, fs, blocks, rfl, _⟩ := top_of_spots top
  exact stray f fs blocks

section

variable [p.Faithful] (fits : m.control.Fits p.outline) (here : m.Here i)

include fits here

theorem ran_condHere_bind {f : Nat × Cond → Action Unit} (verb : p.Does i v)
    (branch : v.isBranch = true)
    (ran : Ran (condHere p >>= fun x => if x.2.decided then skipBranches p x.1 else f x) m r m') :
    Move p i resuming m.control v r m'.control ∨ ∃ owner c rest, p.Links i owner ∧
      m.control.Top ⟨owner, .cond c⟩ rest ∧
      c.decided = false ∧ Ran (f (owner, c)) m r m' := by
  have kinds : v.role = .part ∧ v.asks = true := by cases v <;> cases branch <;> exact ⟨rfl, rfl⟩
  obtain ⟨owner, form, last, owned, block, part⟩ := block?_part p.found verb kinds.1
  rw [condHere, bind_assoc] at ran
  simp only [bind_assoc] at ran
  rcases ran_ownTop_bind here owned ran with
    ⟨rfl, ⟨e, rfl, scope⟩, stray⟩ | ⟨t, rest, top, rfl, after⟩
  · exact .inl (.fail (by rintro rfl; cases branch) (by rintro rfl; cases branch) e
      (excused_stray kinds.2 scope owned stray))
  have spots := top_spot top
  obtain ⟨c, spot⟩ := (fits_top fits spots).cond_of_part block part branch
  rw [(spot_cond spot).2] at after
  rw [spot] at spots
  change Ran (if c.decided then skipBranches p t.place else f (t.place, c)) m r m' at after
  split at after
  · rename_i decided
    have ends : lastOf p t.place = .ok last := by simp [lastOf, block]
    unfold skipBranches at after
    rw [ends] at after
    obtain ⟨rfl, rfl⟩ := ran_done after (run_branchTo (block.ended p.found).bound)
    exact .inl (.skip branch owned spots decided block)
  · rename_i undecided
    exact .inr ⟨_, c, _, owned, spots, by simpa using undecided, after⟩

theorem elseIf_move (verb : p.Does i .elseIf) (ran : Ran (elseIf p c) m r m') :
    Move p i resuming m.control .elseIf r m'.control := by
  have ran : Ran (condHere p >>= fun x =>
      if x.2.decided then skipBranches p x.1 else choose p x.1 c.target) m r m' := ran
  rcases ran_condHere_bind fits here verb rfl ran with
    move | ⟨owner, ⟨left, decided⟩, rest, owned, top, undecided, ran⟩
  · exact move
  obtain rfl : decided = false := undecided
  cases fits_top fits top with
  | cond block within =>
    have tried := ran_choose ran (by rw [← top, withBlocks_self]) block within
    exact .elseIf owned top rfl (tried.chooses block)

theorem orElse_move (verb : p.Does i .orElse) (ran : Ran (orElse p) m r m') :
    Move p i resuming m.control .orElse r m'.control := by
  have ran :
      Ran (condHere p >>= fun x => if x.2.decided then skipBranches p x.1 else pure ()) m r m' :=
    ran
  rcases ran_condHere_bind fits here verb rfl ran with
    move | ⟨owner, cond, rest, owned, top, undecided, ran⟩
  · exact move
  obtain ⟨rfl, rfl⟩ := ran_pure ran
  exact .orElse owned top undecided

theorem endIf_move (verb : p.Does i .endIf) (ran : Ran (endIf p) m r m') :
    Move p i resuming m.control .endIf r m'.control := by
  obtain ⟨owner, form, owned, block, closing⟩ := block?_closing p.found verb rfl
  rcases ran_ownTop_bind here owned ran with
    ⟨rfl, ⟨e, rfl, scope⟩, stray⟩ | ⟨f, rest, top, rfl, after⟩
  · exact .fail (by nofun) (by nofun) e (excused_stray rfl scope owned stray)
  have after := ran_bind_ok after (run_pop_top top)
  obtain ⟨rfl, rfl⟩ := ran_pure after
  have spots := top_spot top
  obtain ⟨c, spot⟩ := (fits_top fits spots).cond_of_closing block closing
  rw [spot] at spots
  exact .endIf owned spots

end

theorem ran_tryNow {rest : List Frame} (ran : Ran startTrying m r m') (top : m.Top f rest)
    (body : f.body = .guard g) :
    r = .ok () ∧ m'.control =
      m.control.withBlocks
        (⟨f.place, .guard { g with phase := some .trying }⟩ :: rest.map Frame.spot) := by
  have ran := ran_bind_ok ran (run_changeGuard top body)
  obtain ⟨rfl, rfl⟩ := Prod.mk.inj ran
  exact ⟨rfl, rfl⟩

theorem ran_openTry [p.Faithful] (here : m.Here i) (verb : p.Does i .openTry)
    (ran : Ran (openTry p c) m r m') :
    r = .ok () ∧ ∃ name catchAt finallyAt last, p.Spans i (.guard name catchAt finallyAt) last ∧
      m'.control = m.control.push ⟨i, .guard (.opened c.target catchAt finallyAt)⟩ := by
  obtain ⟨form, last, block, opening⟩ := block?_opening p.found verb rfl
  cases form with
  | guard name catchAt finallyAt =>
    have ran := ran_get_bind ran
    simp only [here, blockAt?_nat, block, Option.getD_some, Int.toNat_natCast] at ran
    have opened : r = .ok () ∧
        m'.control = m.control.push ⟨i, .guard (.opened c.target catchAt finallyAt)⟩ := by
      cases catchAt with
      | some place => exact ran_tryNow (ran_log_bind (ran_bind_ok ran rfl)) rfl rfl
      | none =>
        cases finallyAt with
        | none =>
          obtain ⟨rfl, rfl⟩ := Prod.mk.inj ran
          exact ⟨rfl, rfl⟩
        | some place => exact ran_tryNow (ran_bind_ok ran rfl) rfl rfl
    exact ⟨opened.1, _, _, _, _, block, opened.2⟩
  | cond elseIfs orElse | loop kind | function word name => cases opening

theorem openTry_move [p.Faithful] (here : m.Here i) (verb : p.Does i .openTry)
    (ran : Ran (openTry p c) m r m') : Move p i resuming m.control .openTry r m'.control := by
  obtain ⟨rfl, _, _, _, _, block, control⟩ := ran_openTry here verb ran
  rw [control]
  exact .openTry block

section

variable [p.Faithful] (fits : m.control.Fits p.outline)

include fits

theorem ran_guardHere_bind {x : Nat × Guard → Action Unit} (here : m.Here i) (verb : p.Does i v)
    (which : v = .openCatch ∨ v = .openFinally) (ran : Ran (guardHere p >>= x) m r m') :
    ∃ owner, p.Links i owner ∧
      ((m' = m ∧ (∃ e, r = .error e ∧ e.kind? = some .scope) ∧ ∀ f rest, m.Top f rest →
        f.place ≠ owner) ∨
        ∃ f rest g, m.Top f rest ∧ f.body = .guard g ∧ f.place = owner ∧
          m.control.Top ⟨owner, .guard g⟩ (rest.map Frame.spot) ∧ Ran (x (owner, g)) m r m') := by
  obtain ⟨owner, form, last, owned, block, part⟩ := block?_part p.found verb
    (by rcases which with rfl | rfl <;> rfl)
  rw [guardHere, bind_assoc] at ran
  simp only [bind_assoc] at ran
  refine ⟨owner, owned, (ran_ownTop_bind here owned ran).imp_right ?_⟩
  rintro ⟨f, rest, top, rfl, after⟩
  have spots := top_spot top
  obtain ⟨g, spot⟩ := (fits_top fits spots).guard_of_part block part which
  have body := (spot_guard spot).2
  rw [body] at after
  rw [spot] at spots
  exact ⟨f, rest, g, top, body, rfl, spots, after⟩

theorem openCatch_move (here : m.Here i) (verb : p.Does i .openCatch)
    (ran : Ran (openCatch p) m r m') : Move p i resuming m.control .openCatch r m'.control := by
  obtain ⟨owner, owned, ⟨rfl, ⟨e, rfl, scope⟩, stray⟩ | ⟨f, rest, g, _, _, _, spots, ran⟩⟩ :=
    ran_guardHere_bind fits here verb (.inl rfl) ran
  · exact .fail (by nofun) (by nofun) e (excused_stray rfl scope owned stray)
  dsimp only at ran
  split at ran
  · rename_i passing
    cases fits_top fits spots with
    | @guard _ stop _ _ catchAt finallyAt block =>
      have ended := block.ended p.found
      have bound := ended.bound
      rw [segmentsOf_guard block] at ran
      have inner : finallyAt.getD stop < p.commands.length := by
        cases finallyAt with
        | none => exact bound
        | some j =>
          have := (ended.grown.parts (j, .openFinally) (by simp [Form.parts])).2.1
          simp only [Option.getD_some]
          omega
      obtain ⟨rfl, rfl⟩ := ran_done ran (run_branchTo inner)
      exact .passCatch owned spots passing block
  · rename_i entered
    obtain ⟨rfl, rfl⟩ := ran_pure ran
    exact .openCatch owned spots (by simpa using entered)

theorem openFinally_move (here : m.Here i) (verb : p.Does i .openFinally)
    (ran : Ran (openFinally p) m r m') : Move p i resuming m.control .openFinally r m'.control := by
  obtain ⟨owner, owned, ⟨rfl, ⟨e, rfl, scope⟩, stray⟩ | ⟨f, rest, g, top, body, rfl, spots, ran⟩⟩ :=
    ran_guardHere_bind fits here verb (.inr rfl) ran
  · refine .strayFinally owned (fun g rest top => ?_) e scope
    obtain ⟨f, fs, blocks, spot, _⟩ := top_of_spots top
    exact stray f fs blocks (spot_guard spot).1
  dsimp only at ran
  split at ran
  · rename_i fresh
    have ran := ran_bind_ok ran (run_changeGuard top body)
    obtain ⟨rfl, rfl⟩ := ran_modify ran
    exact .openFinally owned spots fresh.1 (by simpa using fresh.2)
  · rename_i old
    obtain ⟨rfl, rfl⟩ := ran_modify ran
    refine .keepFinally owned spots ?_
    cases phase : g.phase with
    | none => exact .inl rfl
    | some _ => exact .inr (by simpa [phase] using old)

theorem ran_release_command {source : Option Int} {ceiling crosses : Bool}
    (ran : Ran (release p (.command source ceiling crosses)) m r m') :
    (r = .ok () ∧ Waits p.outline m.control source ceiling crosses m'.control) ∨
    (Clear p.outline ceiling (m.control.wayOut crosses) ∧
      ((∃ n : Nat, source = some (n : Int) ∧ n < p.commands.length ∧ r = .ok () ∧
          m'.control = { m.control with resume := source }.goto n) ∨
        ((∀ n : Nat, source = some (n : Int) → p.commands.length ≤ n) ∧ (∃ e, r = .error e) ∧
          m'.control = { m.control with resume := source }))) := by
  rcases ran_bind ran with ⟨e, _, failed⟩ | ⟨waited, m₁, left, ran⟩
  · rcases ran_bubbleCommand fits failed with ⟨wrong, _⟩ | ⟨wrong, _⟩ <;> cases wrong
  rcases ran_bubbleCommand fits left with ⟨same, rfl, clear⟩ | ⟨same, waits⟩
  · cases same
    have ran : Ran (branchBack p source) { m₁ with resume := source, logs := _ } r m' := ran
    exact .inr ⟨clear, ran_branchBack ran⟩
  · cases same
    obtain ⟨rfl, rfl⟩ := ran_pure ran
    exact .inl ⟨rfl, waits⟩

end

theorem release_move {b : Bubble} [p.Faithful] (owned : p.Links i owner)
    (top : k.Top ⟨owner, .guard g⟩ rest) (pending : g.pending = some b)
    (start : m.control = k.withBlocks rest) (fits : m.control.Fits p.outline)
    (ran : Ran (release p b) m r m') : Move p i resuming k .endTry r m'.control := by
  cases b with
  | failure cause source =>
    obtain ⟨rfl, rfl⟩ := ran_throw (ran_log_bind ran)
    have thrown : Move p i resuming k .endTry (.error cause) (k.withBlocks rest) :=
      .rethrow owned top pending
    rw [← start] at thrown
    exact thrown
  | command source ceiling crosses =>
    rcases ran_release_command fits ran with
      ⟨rfl, waits⟩ | ⟨clear, ⟨place, rfl, bound, rfl, after⟩ | ⟨nowhere, ⟨e, rfl⟩, after⟩⟩
    · rw [start] at waits
      exact .rewait owned top pending waits
    · rw [start] at clear
      rw [after, start]
      exact .resume owned top pending clear bound
    · rw [after, start]
      exact .strand owned top pending nowhere e

theorem fits_withBlocks {blocks : List Spot} (fits : k.Fits o)
    (fewer : ∀ s ∈ blocks, s ∈ k.call.blocks) : (k.withBlocks blocks).Fits o := by
  intro s mem
  obtain ⟨t, inside, present⟩ := mem_flatMap.mp mem
  rcases mem_cons.mp inside with rfl | outer
  · exact fits s (mem_flatMap.mpr ⟨k.call, mem_cons_self, fewer s present⟩)
  · exact fits s (mem_flatMap.mpr ⟨t, mem_cons_of_mem _ outer, present⟩)

theorem ran_endTry (here : m.Here i) (owned : p.Links i owner)
    (spots : m.control.Top ⟨owner, .guard g⟩ rest) (ran : Ran (endTry p) m r m') :
    ∃ n, n.control = m.control.withBlocks rest ∧ Ran (match g.pending with
      | none => return
      | some bubble => release p bubble) n r m' := by
  obtain ⟨f, fs, blocks, spot, below⟩ := top_of_spots spots
  obtain ⟨place, body⟩ := spot_guard spot
  rcases ran_ownTop_bind here owned ran with ⟨_, _, stray⟩ | ⟨f', fs', top, _, after⟩
  · exact absurd place (stray f fs blocks)
  cases blocks.symm.trans top
  have after := ran_bind_ok after (run_pop_top top)
  rw [body] at after
  rw [← below]
  dsimp only at after
  split at after
  · have after := ran_bind_ok after rfl
    exact ⟨_, rfl, ran_log_bind after⟩
  · exact ⟨_, rfl, ran_log_bind after⟩

theorem endTry_move [p.Faithful] (fits : m.control.Fits p.outline) (here : m.Here i)
    (verb : p.Does i .endTry) (ran : Ran (endTry p) m r m') :
    Move p i resuming m.control .endTry r m'.control := by
  obtain ⟨owner, form, owned, block, closing⟩ := block?_closing p.found verb rfl
  rcases ran_ownTop_bind here owned ran with ⟨rfl, ⟨e, rfl, scope⟩, stray⟩ | ⟨f, rest, top, rfl, _⟩
  · exact .fail (by nofun) (by nofun) e (excused_stray rfl scope owned stray)
  obtain ⟨g, spot⟩ := (fits_top fits (top_spot top)).guard_of_closing block closing
  have spots := top_spot top
  rw [spot] at spots
  obtain ⟨n, start, after⟩ := ran_endTry here owned spots ran
  cases pending : g.pending with
  | none =>
    rw [pending] at after
    obtain ⟨rfl, rfl⟩ := ran_pure after
    rw [start]
    exact .endTry owned spots pending
  | some b =>
    rw [pending] at after
    refine release_move owned spots pending start ?_ after
    rw [start]
    exact fits_withBlocks fits fun s mem => by rw [spots]; exact mem_cons_of_mem _ mem

end Action

end Runbook
