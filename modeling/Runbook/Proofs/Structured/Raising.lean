import Runbook.Proofs.Structured.Laps

namespace Runbook

open Runbook.Action Point List

def Call.push (c : Call) (f : Frame) : Call := { c with blocks := f :: c.blocks }

def Guard.frame (g : Guard) (place : Nat) : Frame := { place := place, body := .guard g }

namespace Action

variable {p : Program} {e : Error} {vars : Env} {c next : Call} {f : Frame} {outer : List Call}
  {place : Nat} {source : Int} {wanted : Frame → Except Fault Bool} {taken : Machine}
  {rest : List Frame}

theorem alike_unwind (other : wanted f = .ok false) :
    Alike (unwind wanted) (still vars (c.push f) outer place) (unwind wanted)
      (still (vars.restore f.saved) c outer place) := by
  intro logs
  refine ⟨logs, ?_⟩
  show (orFault (wanted f) >>= fun found =>
    if found then pure (some f) else pop >>= fun _ => unwindFrom wanted c.blocks).run.run _ = _
  rw [other]
  rfl

theorem alike_unwindCalls (other : wanted f = .ok false) :
    Alike (unwindCalls p wanted outer) (still vars (c.push f) outer place)
      (unwindCalls p wanted outer)
      (still (vars.restore f.saved) c outer place) := by
  cases outer with
  | nil => exact alike_unwind other
  | cons _ _ => exact (alike_unwind other).bind _

theorem yields_unwind (own : wanted f = .ok true) :
    Yields (unwind wanted) (still vars (c.push f) outer place) (.ok (some f))
      (still vars (c.push f) outer place) := by
  intro logs
  refine ⟨logs, ?_⟩
  show (orFault (wanted f) >>= fun found =>
    if found then pure (some f) else pop >>= fun _ => unwindFrom wanted c.blocks).run.run _ = _
  rw [own]
  rfl

theorem yields_unwindCalls (own : wanted f = .ok true) :
    Yields (unwindCalls p wanted outer) (still vars (c.push f) outer place) (.ok (some f))
      (still vars (c.push f) outer place) := by
  cases outer with
  | nil => exact yields_unwind own
  | cons _ _ => exact (yields_unwind own).bind yields_pure

theorem yields_popCall_bare (bare : c.blocks = []) :
    Yields (popCall p) (still vars c (next :: outer) place) (.ok c)
      (still (vars.restore c.saved) next outer place) := by
  have popped := @yields_popCall p (still vars c (next :: outer) place) next outer rfl
  have released : c.release vars = vars.restore c.saved := by rw [Call.release, bare]; rfl
  have same : (still vars c (next :: outer) place).call.release
    (still vars c (next :: outer) place).vars = vars.restore c.saved := released
  rw [same] at popped
  exact popped

theorem alike_unwindCalls_call (bare : c.blocks = []) :
    Alike (unwindCalls p wanted (next :: outer)) (still vars c (next :: outer) place)
      (unwindCalls p wanted outer)
      (still (vars.restore c.saved) next outer place) := by
  have nowhere : Yields (unwind wanted) (still vars c (next :: outer) place) (.ok none)
      (still vars c (next :: outer) place) := by
    intro logs
    refine ⟨logs, ?_⟩
    show (unwindFrom wanted c.blocks).run.run _ = _
    rw [bare]
    rfl
  exact (nowhere.alike.trans (yields_popCall_bare bare).alike).trans yields_log.alike

variable {m : Machine}

theorem yields_route_fatal (fatal : e.kind.isFatal = true) :
    Yields (route p (.error e)) m (.ok false) m := by
  refine .get fun logs => ?_
  have fatal : ((Failure.error e).locate m.here).isFatal = true := fatal
  dsimp only
  rw [if_pos fatal]
  exact .after_log yields_pure

theorem yields_route_unguarded (common : e.kind.isFatal = false) (bare : m.isGuarded = false) :
    Yields (route p (.error e)) m (.ok false) m := by
  refine .get fun logs => ?_
  have common : ((Failure.error e).locate m.here).isFatal = false := common
  have bare : ({ m with logs := logs } : Machine).isGuarded = false := bare
  dsimp only
  rw [if_neg (by rw [common]; simp), bare]
  exact yields_pure

theorem run_route (common : e.kind.isFatal = false) (placed : e.index.isSome = true)
    (guarded : m.isGuarded = true) :
    (route p (.error e)).run.run m =
      (unwindCalls p (fun f => .ok f.intercepts) m.outer >>= settle p (.error e)
        (m.here.getD (-1))).run.run m := by
  unfold route
  rw [run_bind, run_get]
  have located : (Failure.error e).locate m.here = .error e := congrArg Failure.error
    (locate_eq placed)
  have common : (Failure.error e).isFatal = false := common
  dsimp only
  rw [located, if_neg (by rw [common]; simp), if_neg (by rw [guarded]; simp)]

theorem alike_route {n : Machine} (common : e.kind.isFatal = false) (placed : e.index.isSome = true)
    (guarded : m.isGuarded = true) (guarded' : n.isGuarded = true) (here : m.here = n.here)
    (alike : Alike (unwindCalls p (fun f => .ok f.intercepts) m.outer) m
      (unwindCalls p (fun f => .ok f.intercepts) n.outer) n) :
    Alike (route p (.error e)) m (route p (.error e)) n := by
  intro logs
  obtain ⟨logs', same⟩ := alike.bind (settle p (.error e) (m.here.getD (-1))) logs
  refine ⟨logs', ?_⟩
  rw [@run_route p e { m with logs := logs } common placed guarded, @run_route p e
    { n with logs := logs' } common placed guarded']
  dsimp only
  rw [same, here]

def Refuses (p : Program) (e : Error) (f : Frame) : Prop :=
  ∀ source m, Yields (tryCatch p (.error e) source f) m (.ok false) m

theorem refuses_of_owesCatch (paid : owesCatch p f = .ok false) : Refuses p e f := by
  intro source m
  unfold tryCatch
  rw [paid]
  exact (yields_orFault false m).bind yields_pure

theorem yields_tryFinally_not (paid : owesFinally p f = .ok false) :
    Yields (tryFinally p (.error e) source f) m (.ok false) m := by
  unfold tryFinally
  rw [paid]
  exact (yields_orFault false m).bind yields_pure

section Guards

variable {g : Guard} {q last n : Nat} {name filter : String} {catchAt finallyAt : Option Nat}

theorem owesCatch_frame (block : p.Spans q (.guard name catchAt finallyAt) last) :
    owesCatch p (g.frame q) = .ok (catchAt.isSome && !g.caught) := by
  unfold owesCatch
  dsimp only [Guard.frame]
  rw [segmentsOf_guard block]
  rfl

theorem owesFinally_frame (block : p.Spans q (.guard name catchAt finallyAt) last) :
    owesFinally p (g.frame q) = .ok (finallyAt.isSome && !g.finaled) := by
  unfold owesFinally
  dsimp only [Guard.frame]
  rw [segmentsOf_guard block]
  rfl

theorem evaluate_literal {patterns : Matcher} {v : Value}
    (literal : literal? patterns filter = some v) :
    (∀ env, evaluate patterns filter env = (.ok v, env)) ∧
      ((∃ s, v = .text s) ∨ ∃ q, v = .pattern q) := by
  unfold literal? at literal
  split at literal
  · cases literal
  · rename_i filled
    split at literal
    · rename_i s read
      cases literal
      exact ⟨fun env => by rw [evaluate, if_neg filled, read]; rfl, .inl ⟨s, rfl⟩⟩
    · rename_i q read
      cases literal
      exact ⟨fun env => by rw [evaluate, if_neg filled, read]; rfl, .inr ⟨q, rfl⟩⟩
    · cases literal

theorem yields_catches (evaluator : p.evaluator = evaluate p.patterns)
    (literal : IsLiteral p.patterns filter) :
    Yields (catches p (.error e) filter) m (.ok (takes p.patterns filter e.message)) m := by
  unfold catches takes
  rcases literal with rfl | literal
  · exact yields_pure
  · obtain ⟨v, literal⟩ := Option.isSome_iff_exists.mp literal
    obtain ⟨value, form⟩ := evaluate_literal literal
    by_cases empty : filter.isEmpty = true
    · rw [if_pos empty, empty]
      exact yields_pure
    · rw [if_neg empty, literal]
      have evaluated : Yields (eval p filter) m (.ok v) m := by
        intro logs
        refine ⟨logs, ?_⟩
        unfold eval Ran
        simp only [run_bind, run_get, run_set, evaluator, value]
        rfl
      have filled : filter.isEmpty = false := by simpa using empty
      rw [filled]
      refine evaluated.bind ?_
      rcases form with ⟨s, rfl⟩ | ⟨q, rfl⟩
      · exact yields_pure
      · exact yields_pure

theorem refuses_guard (evaluator : p.evaluator = evaluate p.patterns)
    (block : p.Spans q (.guard name catchAt finallyAt) last)
    (refuses : ∀ n, catchAt = some n → g.caught = true ∨ IsLiteral p.patterns (targetAt p n) ∧
      takes p.patterns (targetAt p n) e.message = false) :
    Refuses p e (g.frame q) := by
  have owed := owesCatch_frame (g := g) block
  cases catchAt with
  | none => exact refuses_of_owesCatch owed
  | some n =>
    cases fresh : g.caught with
    | true =>
      rw [fresh] at owed
      exact refuses_of_owesCatch owed
    | false =>
      obtain ⟨literal, other⟩ := (refuses n rfl).resolve_left (by simp [fresh])
      have segments : segmentsOf p (g.frame q).place = .ok ⟨some n, finallyAt, last⟩ :=
        segmentsOf_guard block
      intro source m
      unfold tryCatch
      rw [owed, fresh]
      refine (yields_orFault true m).bind ?_
      rw [if_pos rfl, segments]
      refine (yields_orFault _ m).bind ((yields_catches evaluator literal).bind ?_)
      rw [other]
      exact yields_pure

theorem yields_changeGuard (how : Guard → Guard) :
    Yields (changeGuard how) (still vars (c.push (g.frame q)) outer place) (.ok ())
      (still vars (c.push ((how g).frame q)) outer place) :=
  yields_change (f := g.frame q) rfl

theorem yields_tryCatch (evaluator : p.evaluator = evaluate p.patterns)
    (block : p.Spans q (.guard name (some n) finallyAt) last) (fresh : g.caught = false)
    (literal : IsLiteral p.patterns (targetAt p n))
    (accepts : takes p.patterns (targetAt p n) e.message = true) (bound : n < p.commands.length) :
    Yields (tryCatch p (.error e) source (g.frame q)) (still vars (c.push (g.frame q)) outer place)
      (.ok true)
      { still vars (c.push (g.catching.frame q)) outer place with branch := some n } := by
  have owed := owesCatch_frame (g := g) block
  have segments : segmentsOf p (g.frame q).place = .ok ⟨some n, finallyAt, last⟩ :=
    segmentsOf_guard block
  unfold tryCatch
  rw [owed, fresh]
  refine (yields_orFault true _).bind ?_
  rw [if_pos rfl, segments]
  refine (yields_orFault _ _).bind ((yields_catches evaluator literal).bind ?_)
  rw [accepts]
  exact .after_log ((yields_changeGuard _).bind ((yields_branchTo bound).bind yields_pure))

theorem yields_tryFinally (block : p.Spans q (.guard name catchAt (some n)) last)
    (fresh : g.finaled = false) (bound : n < p.commands.length) :
    Yields (tryFinally p (.error e) source (g.frame q))
      (still vars (c.push (g.frame q)) outer place) (.ok true)
      { still vars (c.push ((g.finishing.holding (.failure (.error e) source)).frame q)) outer place
        with branch := some n } := by
  have owed := owesFinally_frame (g := g) block
  have segments : segmentsOf p (g.frame q).place = .ok ⟨catchAt, some n, last⟩ :=
    segmentsOf_guard block
  unfold tryFinally
  rw [owed, fresh]
  refine (yields_orFault true _).bind ?_
  rw [if_pos rfl]
  refine .after_log ((yields_changeGuard _).bind ?_)
  rw [segments]
  exact (yields_orFault _ _).bind ((yields_branchTo bound).bind yields_pure)

end Guards

theorem alike_offer (refuses : Refuses p e f) (paid : owesFinally p f = .ok false) :
    Alike (blocks >>= offer p (.error e) source) (still vars (c.push f) outer place)
      (blocks >>= offer p (.error e) source) (still (vars.restore f.saved) c outer place) := by
  have popped : Yields pop (still vars (c.push f) outer place) (.ok f)
      (still (vars.restore f.saved) c outer place) :=
    yields_pop rfl
  refine yields_blocks.alike.trans ?_
  have first : Alike (offer p (.error e) source (f :: c.blocks)) (still vars (c.push f) outer place)
      (offer p (.error e) source c.blocks) (still (vars.restore f.saved) c outer place) :=
    ((refuses source _).alike.trans (yields_tryFinally_not paid).alike).trans popped.alike
  exact first.trans fun logs => ⟨logs, rfl⟩

theorem alike_offerCalls (refuses : Refuses p e f) (paid : owesFinally p f = .ok false) :
    Alike (offerCalls p (.error e) source outer) (still vars (c.push f) outer place)
      (offerCalls p (.error e) source outer) (still (vars.restore f.saved) c outer place) := by
  cases outer with
  | nil => exact alike_offer refuses paid
  | cons _ _ => exact (alike_offer refuses paid).bind _

theorem yields_offerCalls
    (yields : Yields (blocks >>= offer p (.error e) source) m (.ok true) taken) :
    Yields (offerCalls p (.error e) source outer) m (.ok true) taken := by
  cases outer with
  | nil => exact yields
  | cons _ _ => exact yields.bind yields_pure

theorem yields_offer_caught (top : m.Top f rest)
    (yields : Yields (tryCatch p (.error e) source f) m (.ok true) taken) :
    Yields (offerCalls p (.error e) source outer) m (.ok true) taken := by
  refine yields_offerCalls (yields_blocks.bind ?_)
  rw [top]
  exact yields.bind yields_pure

theorem yields_offer_suspended (top : m.Top f rest) (refuses : Refuses p e f)
    (yields : Yields (tryFinally p (.error e) source f) m (.ok true) taken) :
    Yields (offerCalls p (.error e) source outer) m (.ok true) taken := by
  refine yields_offerCalls (yields_blocks.bind ?_)
  rw [top]
  exact (refuses source m).bind (yields.bind yields_pure)

theorem alike_offerCalls_call (bare : c.blocks = []) :
    Alike (offerCalls p (.error e) source (next :: outer)) (still vars c (next :: outer) place)
      (offerCalls p (.error e) source outer) (still (vars.restore c.saved) next outer place) := by
  have nowhere : Yields (blocks >>= offer p (.error e) source) (still vars c (next :: outer) place)
      (.ok false) (still vars c (next :: outer) place) := by
    refine yields_blocks.bind ?_
    have empty : (still vars c (next :: outer) place).call.blocks = [] := bare
    rw [empty]
    exact yields_pure
  exact (nowhere.alike.trans (yields_popCall_bare bare).alike).trans yields_log.alike

end Action

namespace Point

structure Offered (p : Program) (u : Point) (e : Error) (source : Int) (m : Machine)
    (lines : Array String) : Prop where
  taken : ∀ m', Yields (offerCalls p (.error e) source m.outer) m (.ok true) m' → u.Shows m' lines
  refused : ∀ m', Yields (offerCalls p (.error e) source m.outer) m (.ok false) m' →
    u.Over (.outcome (.failed e)) lines

/-- A lap that ends with an error, which has come out of all blocks but those of `call` and of the
calls around. It is on its way to the first guard, or was refused by one already; the latter is
excluded if `tight`. -/
structure Raising (p : Program) (tight : Bool) (u : Point) (e : Error) (call : Call)
    (outer : List Call) (w : World) : Prop where
  common : e.kind.isFatal = false
  placed : e.index.isSome = true
  way : ∃ place, Thrown p u e (still w.vars call outer place) w.lines ∨
    tight = false ∧ ∃ source, Offered p u e source (still w.vars call outer place) w.lines

variable {p : Program} {u : Point} {tight : Bool} {e : Error} {vars : Env} {lines : Array String}
  {f : Frame} {call next : Call} {outer : List Call} {w : World} {place : Nat} {source : Int}

theorem Offered.congr {m n : Machine}
    (alike : Alike (offerCalls p (.error e) source m.outer) m
      (offerCalls p (.error e) source n.outer) n)
    (offered : Offered p u e source m lines) : Offered p u e source n lines where
  taken _ yields := offered.taken _ (alike.yields yields)
  refused _ yields := offered.refused _ (alike.yields yields)

theorem Thrown.congr {m n : Machine} (common : e.kind.isFatal = false)
    (same : m.isGuarded = n.isGuarded)
    (alike : n.isGuarded = true → Alike (route p (.error e)) m (route p (.error e)) n)
    (thrown : Thrown p u e m lines) : Thrown p u e n lines := by
  cases guarded : n.isGuarded with
  | true =>
    have alike := alike guarded
    exact ⟨fun _ yields => thrown.taken _ (alike.yields yields), fun _ yields => thrown.refused _
      (alike.yields yields)⟩
  | false =>
    -- without a guard nothing is left and nothing is taken
    refine ⟨fun _ yields => ?_, fun _ _ => ?_⟩
    · cases yields.unique (yields_route_unguarded common guarded)
    · exact thrown.refused _ (yields_route_unguarded common (same.trans guarded))

theorem isGuarded_push (quiet : f.intercepts = false) :
    (still vars (call.push f) outer place).isGuarded =
      (still (vars.restore f.saved) call outer place).isGuarded := by
  simp only [Machine.isGuarded, Machine.guardDepth, Machine.frames, Machine.calls, still, Call.push,
    flatMap_cons, cons_append, filter_cons, quiet, Bool.false_eq_true, if_false]

theorem isGuarded_frame (loud : f.intercepts = true) :
    (still vars (call.push f) outer place).isGuarded = true := by
  simp [Machine.isGuarded, Machine.guardDepth, Machine.frames, Machine.calls, still,
    Call.push, loud]

theorem isGuarded_call (bare : call.blocks = []) :
    (still vars call (next :: outer) place).isGuarded =
      (still (vars.restore call.saved) next outer place).isGuarded := by
  simp only [Machine.isGuarded, Machine.guardDepth, Machine.frames, Machine.calls, still,
    flatMap_cons, bare, nil_append]

theorem Raising.shed (quiet : f.intercepts = false) (refuses : Refuses p e f)
    (paid : owesFinally p f = .ok false) (raising : Raising p tight u e (call.push f) outer w) :
    Raising p tight u e call outer { w with vars := w.vars.restore f.saved } := by
  obtain ⟨common, placed, place, way⟩ := raising
  refine ⟨common, placed, place, ?_⟩
  rcases way with thrown | ⟨loose, source, offered⟩
  · refine .inl (thrown.congr common (isGuarded_push quiet) fun guarded => ?_)
    exact alike_route common placed ((isGuarded_push quiet).trans guarded) guarded rfl
      (alike_unwindCalls (by rw [quiet]))
  · exact .inr ⟨loose, source, offered.congr (alike_offerCalls refuses paid)⟩

theorem Raising.shed_call (bare : call.blocks = [])
    (raising : Raising p tight u e call (next :: outer) w) :
    Raising p tight u e next outer { w with vars := w.vars.restore call.saved } := by
  obtain ⟨common, placed, place, way⟩ := raising
  refine ⟨common, placed, place, ?_⟩
  rcases way with thrown | ⟨loose, source, offered⟩
  · refine .inl (thrown.congr common (isGuarded_call bare) fun guarded => ?_)
    exact alike_route common placed ((isGuarded_call bare).trans guarded) guarded rfl
      (alike_unwindCalls_call bare)
  · exact .inr ⟨loose, source, offered.congr (alike_offerCalls_call bare)⟩

theorem Raising.unhandled (bare : call.blocks = []) (raising : Raising p tight u e call [] w) :
    u.Over (.outcome (.failed e)) w.lines := by
  obtain ⟨common, placed, place, way⟩ := raising
  rcases way with thrown | ⟨loose, source, offered⟩
  · refine thrown.refused _ (yields_route_unguarded common ?_)
    simp [Machine.isGuarded, Machine.guardDepth, Machine.frames, Machine.calls, still, bare]
  · refine offered.refused (still w.vars call [] place) (yields_blocks.bind ?_)
    have empty : (still w.vars call [] place).call.blocks = [] := bare
    rw [empty]
    exact yields_pure

section Guards

variable {g : Guard} {q last n : Nat} {name : String} {catchAt finallyAt : Option Nat}

theorem yields_route {r : Reply Bool} {m' : Machine} (loud : f.intercepts = true)
    (common : e.kind.isFatal = false) (placed : e.index.isSome = true)
    (settled : Yields (settle p (.error e) place (some f))
      (still vars (call.push f) outer place) r m') :
    Yields (route p (.error e)) (still vars (call.push f) outer place) r m' := by
  have found := @yields_unwindCalls p vars call f outer place (fun f => .ok f.intercepts)
    (congrArg Except.ok loud)
  have guarded : (still vars (call.push f) outer place).isGuarded = true := isGuarded_frame loud
  intro logs
  obtain ⟨logs', ran⟩ := found.bind settled logs
  have run := @run_route p e { still vars (call.push f) outer place with logs := logs } common
    placed guarded
  exact ⟨logs', run.trans ran⟩

theorem Thrown.offered (loud : g.phase.isSome = true) (common : e.kind.isFatal = false)
    (placed : e.index.isSome = true) (fresh : isSpent p (g.frame q) = .ok false)
    (thrown : Thrown p u e (still vars (call.push (g.frame q)) outer place) lines) :
    Offered p u e place (still vars (call.push (g.frame q)) outer place) lines := by
  have routed {taken : Bool} {m' : Machine}
      (yields : Yields (offerCalls p (.error e) place outer)
      (still vars (call.push (g.frame q)) outer place) (.ok taken) m') :
      Yields (route p (.error e)) (still vars (call.push (g.frame q)) outer place)
      (.ok taken) m' := by
    have settled : Yields (settle p (.error e) place (some (g.frame q)))
        (still vars (call.push (g.frame q)) outer place) (.ok taken) m' := by
      refine .after_log ?_
      rw [fresh]
      refine (yields_orFault false _).bind (.get fun logs => yields.bind ?_)
      cases taken with
      | true => exact yields_pure
      | false => exact .after_log yields_pure
    exact yields_route loud common placed settled
  exact ⟨fun _ yields => thrown.taken _ (routed yields), fun _ yields => thrown.refused _
    (routed yields)⟩

theorem isSpent_trying (trying : g.phase = some .trying) : isSpent p (g.frame q) = .ok false := by
  unfold isSpent
  dsimp only [Guard.frame]
  rw [if_pos trying]

theorem isSpent_frame (other : g.phase ≠ some .trying)
    (block : p.Spans q (.guard name catchAt finallyAt) last) :
    isSpent p (g.frame q) = .ok !(finallyAt.isSome && !g.finaled) := by
  have owed := owesFinally_frame (g := g) block
  dsimp only [Guard.frame] at owed
  unfold isSpent
  dsimp only [Guard.frame]
  rw [if_neg other, owed]
  rfl

variable (raising : Raising p tight u e (call.push (g.frame q)) outer w)

include raising

theorem Raising.offered (loud : g.phase.isSome = true) (fresh : isSpent p (g.frame q) = .ok false) :
    ∃ place source, Offered p u e source (still w.vars (call.push (g.frame q)) outer place)
      w.lines := by
  obtain ⟨common, placed, place, way⟩ := raising
  rcases way with thrown | ⟨_, source, offered⟩
  · exact ⟨place, place, thrown.offered loud common placed fresh⟩
  · exact ⟨place, source, offered⟩

theorem Raising.caught (evaluator : p.evaluator = evaluate p.patterns)
    (trying : g.phase = some .trying) (fresh : g.caught = false)
    (block : p.Spans q (.guard name (some n) finallyAt) last) (bound : n < p.commands.length)
    (literal : IsLiteral p.patterns (targetAt p n))
    (accepts : takes p.patterns (targetAt p n) e.message = true) :
    Stands p u n (call.push (g.catching.frame q)) outer w := by
  obtain ⟨place, source, offered⟩ := raising.offered (by rw [trying]; rfl) (isSpent_trying trying)
  exact (offered.taken _ (yields_offer_caught rfl
    (yields_tryCatch evaluator block fresh literal accepts bound))).stands_branch

theorem Raising.suspended (loud : g.phase = some .trying ∨ g.phase = some .catching)
    (fresh : g.finaled = false) (block : p.Spans q (.guard name catchAt (some n)) last)
    (bound : n < p.commands.length) (refuses : Refuses p e (g.frame q)) :
    ∃ source, Stands p u n (call.push ((g.finishing.holding (.failure (.error e) source)).frame q))
      outer w := by
  have unspent : isSpent p (g.frame q) = .ok false := by
    rcases loud with trying | catching
    · exact isSpent_trying trying
    · rw [isSpent_frame (by rw [catching]; simp) block, fresh]
      rfl
  obtain ⟨place, source, offered⟩ :=
    raising.offered (by rcases loud with phase | phase <;> rw [phase] <;> rfl) unspent
  exact ⟨source, (offered.taken _
    (yields_offer_suspended rfl refuses (yields_tryFinally block fresh bound))).stands_branch⟩

theorem Raising.refused (trying : g.phase = some .trying) (refuses : Refuses p e (g.frame q))
    (paid : owesFinally p (g.frame q) = .ok false) : Raising p false u e call outer w := by
  obtain ⟨place, source, offered⟩ := raising.offered (by rw [trying]; rfl) (isSpent_trying trying)
  exact ⟨raising.common, raising.placed, place,
    .inr ⟨rfl, source, offered.congr (alike_offerCalls refuses paid)⟩⟩

theorem Raising.spent (loud : g.phase.isSome = true) (other : g.phase ≠ some .trying)
    (bound : last < p.commands.length) (block : p.Spans q (.guard name catchAt finallyAt) last)
    (paid : (finallyAt.isSome && !g.finaled) = false) :
    (∃ source, Stands p u last (call.push ((g.holding (.failure (.error e) source)).frame q))
      outer w) ∨
      tight = false ∧ (Refuses p e (g.frame q) → Raising p false u e call outer w) := by
  obtain ⟨common, placed, place, way⟩ := raising
  rcases way with thrown | ⟨loose, source, offered⟩
  · have settled : Yields (settle p (.error e) place (some (g.frame q)))
        (still w.vars (call.push (g.frame q)) outer place) (.ok true)
        { still w.vars (call.push ((g.holding (.failure (.error e) place)).frame q)) outer place
          with branch := some last } := by
      refine .after_log ?_
      rw [isSpent_frame other block, paid]
      refine (yields_orFault true _).bind (.after_log ((yields_changeGuard _).bind ?_))
      have ends : lastOf p (g.frame q).place = .ok last := by
        unfold lastOf
        dsimp only [Guard.frame]
        rw [block]
      rw [ends]
      exact (yields_orFault last _).bind ((yields_branchTo bound).bind yields_pure)
    exact .inl ⟨place, (thrown.taken _ (yields_route loud common placed settled)).stands_branch⟩
  · refine .inr ⟨loose, fun refuses =>
      ⟨common, placed, place, .inr ⟨rfl, source, offered.congr (alike_offerCalls refuses ?_)⟩⟩⟩
    rw [owesFinally_frame block, paid]

end Guards

end Point

end Runbook
