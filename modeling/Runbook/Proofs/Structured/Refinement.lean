import Runbook.Proofs.Structured.Calls
import Runbook.Proofs.Structured.Guards

namespace Runbook

open Runbook.Action Point List

variable {p : Program}

def Flat (p : Program) (a b : Nat) : Prop :=
  ∀ i, a ≤ i → i < b → verbAt p.commands i ≠ some .openTry ∧ verbAt p.commands i ≠ some .call

theorem Flat.part {a b i j : Nat} (flat : Flat p a b) (low : a ≤ i) (upTo : j ≤ b) : Flat p i j :=
  fun k after before => flat k (by omega) (by omega)

/-- Scripts in which the meaning of a tree is that of the run: filters are literals, and no last
segment of a guard holds another guard or a call. -/
structure Tame (p : Program) : Prop where
  filters : ∀ (i : Nat) (c : Command), p.Has i c → c.verb? = some .openCatch →
    IsLiteral p.patterns c.target
  finals : ∀ q name catchAt j last,
    p.outline.block? q = some (.opener (.guard name catchAt (some j)) last) →
    Flat p (j + 1) last

instance (patterns : Matcher) (filter : String) : Decidable (IsLiteral patterns filter) :=
  inferInstanceAs (Decidable (_ ∨ _ = true))

def Program.isTame (p : Program) : Bool :=
  (p.commands.all fun c => c.verb? ≠ some .openCatch || decide (IsLiteral p.patterns c.target)) &&
    p.outline.blocks.all fun entry =>
      match entry.2 with
      | .opener (.guard _ _ (some j)) last => (List.range last).all fun i =>
        i ≤ j || verbAt p.commands i ≠ some .openTry && verbAt p.commands i ≠ some .call
      | _ => true

theorem tame_of_isTame [p.Faithful] (check : p.isTame = true) : Tame p := by
  obtain ⟨filters, finals⟩ := Bool.and_eq_true_iff.mp check
  constructor
  · intro i c has verb
    have own := all_eq_true.mp filters c (mem_of_getElem? has)
    simpa [verb] using own
  · intro q name catchAt j last block i after before
    have own := all_eq_true.mp finals _ ((block?_iff p.found q _).mp block)
    have passed := all_eq_true.mp own i (mem_range.mpr before)
    have later : ¬ i ≤ j := by omega
    simpa [later] using passed

namespace Point

variable {p : Program} {x : Scope} {tight : Bool} {fuel less : Nat} {call : Call}
  {outer : List Call} {i j k m n q last : Nat} {u v : Point} {w : World}
  {callee : String → Option (World → Result)} {t body handler others : Tree} {c : Command}

/-- Runs from before a part of a script that begins at `i` and ends at `j` come to what the part
results in. Inside the last segment of a guard the part has to be flat. -/
def Realizes (p : Program) (x : Scope) (fuel i j : Nat) (part : World → Result) : Prop :=
  ∀ tight call outer u w, (tight = true → Flat p i j) → Context x i call →
    Stands p u i call outer w → Follows p x tight fuel call outer j u (part w)

def Realized (p : Program) (fuel : Nat) (callee : String → Option (World → Result)) : Prop :=
  ∀ name, callee name = none ∧ function? p name = none ∨
    ∃ q last word t body, callee name = some body ∧ function? p name = some q ∧
    FunctionAt p q last word t ∧ Realizes p { loop := false, function := some q } fuel
    (q + 1) last body

/-- What a part of a tree means for runs through it. The branches of a condition are met with the
condition open and not decided, a segment of a guard behind its first command. -/
def Meets (p : Program) (callee : String → Option (World → Result)) (fuel : Nat) (t : Tree)
    (x : Scope) (i j : Nat) : Layer → Prop
  | .items => Realizes p x fuel i j (t.runWith p callee fuel)
  | .branches q left orElse => ∀ tight call outer u w elseIfs, (tight = true → Flat p i j) →
      p.Spans q (.cond elseIfs orElse) j → p.Does j .endIf →
      p.Links j q → q < i → Context x i call →
      Stands p u i (call.push ({ left := left.tail : Cond }.frame q)) outer w →
      Follows p x tight fuel call outer (j + 1) u (t.runWith p callee fuel w)
  | .segment _ _ place =>
    place.isSome = true → Realizes p x fuel (i + 1) j (t.runWith p callee fuel)

theorem Realizes.after {rest : Tree} {result : Result}
    (further : Realizes p x fuel n j (rest.runWith p callee fuel)) (after : i ≤ n)
    (flat : tight = true → Flat p i j) (context : Context x i call)
    (follows : Follows p x tight fuel call outer n u result) :
    Follows p x tight fuel call outer j u (result.andThen (rest.runWith p callee fuel)) :=
  follows.andThen fun v w stands =>
    further tight call outer v w (fun tight => (flat tight).part after (Nat.le_refl j))
      (context.later after) stands

theorem follows_single {rest : Tree} [p.Fresh] (functions : Realized p less callee)
    (enough : fuel ≤ less + 1) (has : p.Has i c)
    (alone : ∀ v, c.verb? = some v → v.standsIn x.around = true)
    (owned : c.verb? = some .giveBack → ∃ f, x.function = some f ∧ p.Links i f) (after : i + 1 ≤ j)
    (further : Realizes p x fuel (i + 1) j (rest.runWith p callee fuel)) :
    Realizes p x fuel i j ((Tree.single i c rest).runWith p callee fuel) := by
  intro tight call outer u w flat context stands
  have first :
      Follows p x tight fuel call outer (i + 1) u (Tree.command p i c (callee c.target) w) := by
    by_cases calls : c.verb? = some .call
    · have loose : tight = false := by
        cases tight with
        | false => rfl
        | true => exact absurd (verbAt_of_at has calls) (flat rfl i (Nat.le_refl i) (by omega)).2
      subst loose
      unfold Tree.command
      rw [calls]
      rcases functions c.target with
        ⟨absent, unknown⟩ | ⟨q, last, word, t, body, present, known, text, inner⟩
      · rw [absent]
        exact follows_undefined has calls unknown stands
      · rw [present]
        exact follows_call context.fresh has calls known text
          (fun call outer v w context stands => inner false call outer v w nofun context stands)
          enough stands
    · exact follows_command context stands has alone owned calls
  exact further.after (Nat.le_succ i) flat context first

theorem finishing_done (r : Result) : (r.finishing fun w => some (.normal, w)) = r := by
  match r with
  | none | some (.normal, _) | some (.jump _, _) | some (.failed _, _) | some (.aborted _, _) => rfl

theorem follows_guarded {name : String} {catchAt finallyAt : Option Nat} [p.Fresh]
    (evaluator : p.evaluator = evaluate p.patterns) (tame : Tame p) (has : p.Has i c)
    (opens : c.verb? = some .openTry) (block : p.Spans i (.guard name catchAt finallyAt) k)
    (inner : Realizes p x fuel (i + 1) m (body.runWith p callee fuel))
    (handles : Laid p (.segment .openCatch i catchAt) x m n handler)
    (handled : Meets p callee fuel handler x m n (.segment .openCatch i catchAt)) (before : i < m)
    (after : finallyAt.getD k = n) (bound : n < p.commands.length) (context : Context x i call)
    (stands : Stands p u i call outer w) :
    ∃ g : Guard, Ready catchAt finallyAt g ∧
      Follows p x false fuel (call.push (g.frame i)) outer n u
        ((body.runWith p callee fuel w).catching p.patterns handler.filter?
          (handler.runWith p callee fuel)) ∧
      ∀ e w', (body.runWith p callee fuel w).catching p.patterns handler.filter?
        (handler.runWith p callee fuel) = some (.failed e, w') →
        Refuses p e (g.frame i) := by
  have opened := stands.open_guard has opens block
  have first := inner false _ _ _ _ nofun (context.push (Nat.lt_succ_self i) (Nat.le_succ i)) opened
  cases handles with
  | noSegment =>
    refine ⟨_, ready_entered c none finallyAt, ?_, fun e w' _ =>
      refuses_guard evaluator block nofun⟩
    rw [show Tree.done.filter? = none from rfl, catching_none]
    exact first.of_tick
  | @segment _ _ _ _ _ d _ there verb linked _ =>
    have catches : ∀ (g : Guard) v w, Stands p v (m + 1) (call.push (g.frame i)) outer w →
        Follows p x false fuel (call.push (g.frame i)) outer n v
        (Tree.runWith p callee fuel (.segment m d _) w) :=
      fun g v w stands => handled rfl false _ _ _ _ nofun
        (context.push (show i < m + 1 by omega) (by omega)) stands
    obtain ⟨g, ready, followed, refuses⟩ := follows_handle evaluator block there verb linked
      (tame.filters m d there verb) after bound catches first
    exact ⟨g, ready, followed.of_tick, refuses⟩

section Parts

variable {rest last : Tree} {left elseIfs : List Nat} {orElse catchAt finallyAt : Option Nat}
  {name : String}

theorem follows_decide [p.Fresh] (block : p.Spans q (.cond elseIfs orElse) n)
    (closes : p.Does n .endIf) (linked : p.Links n q) (inner : i + 1 ≤ m)
    (branches : Laid p (.branches q left orElse) x m n others)
    (first : Realizes p x fuel (i + 1) m (body.runWith p callee fuel))
    (second : Meets p callee fuel others x m n (.branches q left orElse))
    (flat : tight = true → Flat p i n) (before : q < i + 1) (context : Context x i call)
    (doing : Doing p u i (choose p q c.target)
      (still w.vars (call.push ({ left := left : Cond }.frame q)) outer i) w.lines) :
    Follows p x tight fuel call outer (n + 1) u (w.act i (holds p c.target) fun holds w =>
      if holds then body.runWith p callee fuel w else others.runWith p callee fuel w) := by
  have upTo := branches.le
  have bound := lt_length_of_verbAt closes
  refine follows_choose block bound branches doing (fun w stands => ?_) fun w stands => ?_
  · have body := first tight _ _ _ _ (fun tight => (flat tight).part (Nat.le_succ i) upTo)
      (context.push before (Nat.le_succ i)) stands
    exact body.close_branch closes linked fun v w stands => stands.skip_branches block bound
      rfl branches
  · exact second tight call outer _ w elseIfs
      (fun tight => (flat tight).part (by omega) (Nat.le_refl n)) block closes linked (by omega)
      (context.later (by omega)) stands

theorem realizes_cond [p.Fresh] (has : p.Has i c) (opens : c.verb? = some .openIf)
    (block : p.Spans i (.cond elseIfs orElse) n) (inner : i + 1 ≤ m)
    (branches : Laid p (.branches i elseIfs orElse) x m n others) (closes : p.Does n .endIf)
    (linked : p.Links n i) (upTo : n + 1 ≤ j)
    (first : Realizes p x fuel (i + 1) m (body.runWith p callee fuel))
    (second : Meets p callee fuel others x m n (.branches i elseIfs orElse))
    (third : Realizes p x fuel (n + 1) j (rest.runWith p callee fuel)) :
    Realizes p x fuel i j ((Tree.cond i c body others rest).runWith p callee fuel) := by
  intro tight call outer u w flat context stands
  have le := branches.le
  have chosen : Tree.chosen p c = holds p c.target := if_neg (by rw [opens]; simp)
  refine third.after (by omega) flat context ?_
  rw [chosen]
  exact .of_tick (follows_decide block closes linked inner branches first second
    (fun tight => (flat tight).part (Nat.le_refl i) (by omega)) (Nat.lt_succ_self i) context
    (stands.open_cond has opens block))

theorem meets_elseIf [p.Fresh] (has : p.Has i c) (verb : c.verb? = some .elseIf)
    (linked : p.Links i q) (inner : i + 1 ≤ m)
    (branches : Laid p (.branches q left orElse) x m n others)
    (first : Realizes p x fuel (i + 1) m (body.runWith p callee fuel))
    (second : Meets p callee fuel others x m n (.branches q left orElse)) :
    Meets p callee fuel (.branch i c body others) x i n (.branches q (i :: left) orElse) := by
  intro tight call outer u w elseIfs flat block closes ended before context stands
  have chosen : Tree.chosen p c = holds p c.target := if_neg (by rw [verb]; simp)
  show Follows p x tight fuel call outer (n + 1) u (w.act i (Tree.chosen p c) _)
  rw [chosen]
  exact .of_tick (follows_decide block closes ended inner branches first second flat
    (Nat.lt_succ_of_lt before) context (stands.try_branch has verb linked rfl))

theorem meets_orElse [p.Fresh] (has : p.Has i c) (verb : c.verb? = some .orElse)
    (linked : p.Links i q) (first : Realizes p x fuel (i + 1) n (body.runWith p callee fuel)) :
    Meets p callee fuel (.branch i c body .done) x i n (.branches q [] (some i)) := by
  intro tight call outer u w elseIfs flat block closes ended before context stands
  have chosen : Tree.chosen p c = pure true := if_pos verb
  show Follows p x tight fuel call outer (n + 1) u (w.act i (Tree.chosen p c) _)
  rw [chosen]
  have body := first tight _ _ _ _ (fun tight => (flat tight).part (Nat.le_succ i) (Nat.le_refl n))
    (context.push (Nat.lt_succ_of_lt before) (Nat.le_succ i)) (stands.take_else has verb linked rfl)
  exact .of_tick (body.close_branch closes ended fun v w stands => ⟨v, .refl, stands⟩)

theorem realizes_loop {kind : LoopKind} [p.Fresh] (has : p.Has i c)
    (opens : c.verb? = some (.openLoop kind)) (block : p.Spans i (.loop kind) n) (inner : i + 1 ≤ n)
    (closes : p.Does n (.endLoop kind)) (linked : p.Links n i) (upTo : n + 1 ≤ j)
    (first : Realizes p { x with loop := true } fuel (i + 1) n (body.runWith p callee fuel))
    (second : Realizes p x fuel (n + 1) j (rest.runWith p callee fuel)) :
    Realizes p x fuel i j ((Tree.loop i kind c body rest).runWith p callee fuel) := by
  intro tight call outer u w flat context stands
  refine second.after (by omega) flat context ?_
  refine follows_loop has opens block closes linked context.blocks stands
    fun saved cursor v w stands => ?_
  have within := context.push (f := { kind := kind, cursor := cursor : Loop }.frame i saved)
    (Nat.lt_succ_self i) (Nat.le_succ i)
  exact first tight _ _ _ _ (fun tight => (flat tight).part (Nat.le_succ i) (by omega))
    ⟨within.fresh, within.function, within.blocks, within.before⟩ stands

theorem realizes_guard [p.Fresh] (evaluator : p.evaluator = evaluate p.patterns) (tame : Tame p)
    (opens : p.Does i .openTry) (block : p.Spans i (.guard name catchAt finallyAt) k)
    (inner : i + 1 ≤ m) (handles : Laid p (.segment .openCatch i catchAt) x m n handler)
    (finishes : Laid p (.segment .openFinally i finallyAt) x n k last) (closes : p.Does k .endTry)
    (linked : p.Links k i) (upTo : k + 1 ≤ j)
    (first : Realizes p x fuel (i + 1) m (body.runWith p callee fuel))
    (second : Meets p callee fuel handler x m n (.segment .openCatch i catchAt))
    (third : Meets p callee fuel last x n k (.segment .openFinally i finallyAt))
    (fourth : Realizes p x fuel (k + 1) j (rest.runWith p callee fuel)) :
    Realizes p x fuel i j ((Tree.guard i body handler last rest).runWith p callee fuel) := by
  intro tight call outer u w flat context stands
  have le₂ := handles.le
  have le₃ := finishes.le
  have loose : tight = false := by
    cases tight with
    | false => rfl
    | true => exact absurd opens (flat rfl i (Nat.le_refl i) (by omega)).1
  subst loose
  obtain ⟨c, has, verb⟩ := Option.bind_eq_some_iff.mp opens
  have bound := lt_length_of_verbAt closes
  have after : finallyAt.getD k = n := by cases finishes <;> rfl
  obtain ⟨g, ready, followed, refuses⟩ := follows_guarded evaluator tame has verb block first
    handles second (by omega) after (by omega) context stands
  refine fourth.after (by omega) flat context ?_
  cases finishes with
  | noSegment =>
    rw [show Tree.runWith p callee fuel .done = fun w => some (.normal, w) from rfl, finishing_done]
    exact follows_unfinished block closes linked ready followed refuses
  | @segment _ _ _ _ _ d body there verb' owned final =>
    refine follows_finish block there verb' owned closes linked (fun g v w stands => ?_) ready
      followed refuses
    exact third rfl true _ _ _ _ (fun _ => tame.finals i name catchAt n k block)
      (context.push (show i < n + 1 by omega) (by omega)) stands

theorem realizes_function {word : FunctionWord} [p.Fresh] (has : p.Has i c)
    (opens : c.verb? = some (.openFunction word)) (block : p.Spans i (.function word c.target) n)
    (inner : i + 1 ≤ n) (closes : p.Does n (.endFunction word)) (linked : p.Links n i)
    (second : Realizes p x fuel (n + 1) j (rest.runWith p callee fuel)) :
    Realizes p x fuel i j ((Tree.function i c.target body rest).runWith p callee fuel) := by
  intro tight call outer u w flat context stands
  have other : call.function ≠ some i := fun own => Nat.lt_irrefl i
    (context.before i (context.function.symm.trans own))
  refine .of_tick (.of_tick ?_)
  exact second tight call outer _ w (fun tight => (flat tight).part (by omega) (Nat.le_refl j))
    (context.later (by omega))
    (stands.pass_function (verbAt_of_at has opens) block closes linked other)

theorem meets_of_laid {layer : Layer} [p.Fresh] (evaluator : p.evaluator = evaluate p.patterns)
    (tame : Tame p) (functions : Realized p less callee) (enough : fuel ≤ less + 1)
    (laid : Laid p layer x i j t) : Meets p callee fuel t x i j layer := by
  induction laid with
  | done => exact fun _ _ _ _ _ _ _ stands => stands.follows
  | single has alone owned further ih =>
    exact follows_single functions enough has alone owned further.le ih
  | noBranch =>
    intro tight call outer u w elseIfs _ _ closes linked _ _ stands
    exact .of_tick (stands.close_cond closes linked).follows
  | cond has opens block inner branches closes linked further first second third =>
    exact realizes_cond has opens block inner.le branches closes linked further.le first
      second third
  | elseIf has verb linked inner branches first second =>
    exact meets_elseIf has verb linked inner.le branches first second
  | orElse has verb linked _ first => exact meets_orElse has verb linked first
  | loop has opens block inner closes linked further first second =>
    exact realizes_loop has opens block inner.le closes linked further.le first second
  | guard opens block inner handles finishes closes linked further first second third fourth =>
    exact realizes_guard evaluator tame opens block inner.le handles finishes closes linked
      further.le first second third fourth
  | noSegment => exact nofun
  | segment _ _ _ _ ih => exact fun _ => ih
  | function has opens block inner closes linked _ _ second =>
    exact realizes_function has opens block inner.le closes linked second

end Parts

theorem realized_of_reads {run : Tree → World → Result} [p.Faithful]
    (reads : Reads p.commands .items {} 0 p.commands.length t)
    (texts : ∀ q last body, Laid p .items { loop := false, function := some q } (q + 1) last body →
      Realizes p { loop := false, function := some q } fuel (q + 1) last (run body)) :
    Realized p fuel fun name => (t.function? name).map run := by
  intro name
  rcases reads.function?_eq with ⟨absent, unknown⟩ | ⟨body, q, last, word, present, known, text⟩
  · exact .inl ⟨congrArg (Option.map run) absent, unknown⟩
  · exact .inr ⟨q, last, word, body, run body, congrArg (Option.map run) present, known, text,
      texts q last body text.inner⟩

theorem realizes_run (evaluator : p.evaluator = evaluate p.patterns) (tame : Tame p) [p.Ready]
    (reads : Reads p.commands .items {} 0 p.commands.length t) (fuel : Nat) {s : Tree}
    (laid : Laid p .items x i j s) : Realizes p x fuel i j (Tree.run p t fuel s) := by
  induction fuel generalizing x i j s with
  | zero =>
    have functions := @realized_of_reads p 0 t
      (fun _ _ => none) _ reads fun _ _ _ _ _ _ _ v _ _ _ _ => lasts_zero
    exact meets_of_laid evaluator tame functions (Nat.zero_le _) laid
  | succ fuel ih =>
    have functions := realized_of_reads reads fun _ _ _ text => ih text
    exact meets_of_laid evaluator tame functions (Nat.le_refl _) laid

/-- A run that is over agrees with how its tree completed: it ended in the same way and showed the
same lines, and if it came to the end of the script it left the same variables. -/
structure Agrees (s : Session) (how : Ending) (c : Completion) (w : World) : Prop where
  ending : how = c.ending
  lines : s.lines = w.lines
  vars : how = .outcome .completed → s.machine.vars = w.vars

theorem Follows.finished {c : Completion} [p.Fresh]
    (follows : Follows p {} tight fuel {} [] p.commands.length u (some (c, w))) :
    ∃ v, Leads p u v ∧ v.2 = some c.ending ∧ Agrees v.1 c.ending c w := by
  match c with
  | .normal =>
    obtain ⟨v, leads, stands⟩ := follows
    obtain ⟨⟨ending, lines⟩, vars⟩ := stands.completes
    exact ⟨tick p v, leads.trans leads_tick, ending, rfl, lines, fun _ => vars⟩
  | .jump .again | .jump .leave | .jump .back => cases follows.1
  | .jump .exit =>
    obtain ⟨_, v, n, cmd, leads, leaving⟩ := follows
    obtain ⟨⟨s, e⟩, more, rfl, stopped, lines⟩ := leaving.free rfl
    obtain ⟨ending, same⟩ := @stops p s stopped
    exact ⟨tick p (s, none), (leads.trans more).trans leads_tick, ending, rfl, same.trans lines,
      fun same => by cases same⟩
  | .failed e =>
    obtain ⟨v, leads, raising⟩ := follows
    obtain ⟨ending, lines⟩ := raising.unhandled rfl
    exact ⟨v, leads, ending, rfl, lines, fun same => by cases same⟩
  | .aborted ending =>
    obtain ⟨other, v, leads, ended, lines⟩ := follows
    exact ⟨v, leads, ended, rfl, lines, fun same => absurd same other⟩

theorem Leads.unique {v' : Point} {e e' : Ending} (first : Leads p u v) (ended : v.2 = some e)
    (second : Leads p u v') (ended' : v'.2 = some e') : v = v' := by
  obtain ⟨a, rfl⟩ := first
  obtain ⟨b, rfl⟩ := second
  rcases Nat.le_total a b with less | less
  · obtain ⟨d, rfl⟩ := Nat.exists_eq_add_of_le less
    rw [Nat.add_comm, Function.iterate_add_apply, Function.iterate_fixed (tick_over ended)]
  · obtain ⟨d, rfl⟩ := Nat.exists_eq_add_of_le less
    rw [Nat.add_comm, Function.iterate_add_apply, Function.iterate_fixed (tick_over ended')]

theorem stands_start {vars : Env} :
    Stands p ({ machine := { vars := vars } }, none) 0 {} [] { vars := vars } where
  going := rfl
  heads :=
    ⟨rfl, 0, .start rfl rfl, Nat.le_refl 0, fun j _ below => absurd below (Nat.not_lt_zero j)⟩
  vars := rfl
  call := rfl
  outer := rfl
  idle := rfl
  lines := rfl

end Point

theorem eq_of_outlined {q : Program} (outlined : q.outlined = .ok p) :
    p = { q with outline := p.outline } := by
  unfold Program.outlined at outlined
  cases out : Outline.ofCommands q.commands with
  | error e => rw [out] at outlined; cases outlined
  | ok o => rw [out] at outlined; cases outlined; rfl

/-- However a loop or a call is left, each of its names has the value it had before, or none if it
had none. -/
structure Restores (p : Program) : Prop where
  loop {place fuel : Nat} {kind : LoopKind} {c : Command} {body : World → Result} {w w' : World}
    {how : Completion}
    {names : List String} {cursor : Cursor} {vars : Env} :
    effect (Loop.plan p c kind) place w.vars = (.ok (names, cursor), vars) →
    Loop.run p place kind c body fuel w = some (how, w') →
      ∀ name ∈ names, w'.vars.get? name = vars.get? name
  call {place : Nat} {c : Command} {body : World → Result} {w w' : World} {how : Completion}
    {args : Record Value}
    {vars : Env} :
    effect (arguments p c.value) place w.vars = (.ok args, vars) →
    Tree.call p place c (some body) w = some (how, w') →
      ∀ name ∈ args.names, w'.vars.get? name = vars.get? name

theorem get?_of_restoring {r : Result} {names : List String} {before : Env} {how : Completion}
    {w : World} {name : String} (result : r.restoring names before = some (how, w))
    (listed : name ∈ names) : w.vars.get? name = before.get? name := by
  obtain ⟨⟨_, inner⟩, _, same⟩ := Option.map_eq_some_iff.mp result
  cases same
  rw [Env.get?_putBack, if_pos listed]

theorem restores (p : Program) : Restores p where
  loop planned result name listed := by
    unfold Loop.run World.act at result
    rw [planned] at result
    exact get?_of_restoring result listed
  call given result name listed := by
    unfold Tree.call World.act at result
    rw [given] at result
    exact get?_of_restoring result listed

/-- A script that has an outline and no jumps reads as a tree, and what the tree means is what a run
does: one comes to an end if and only if the other does, with the same status and error, the same
lines shown and, at the end of the script, the same variables. In the tree, loops and calls put
their names back. -/
theorem run_iff_meaning {q p : Program} (outlined : q.outlined = .ok p) (start : q.start = 0)
    (evaluator : q.evaluator = evaluate q.patterns)
    (straight : ∀ c ∈ q.commands, ∀ v, c.verb? = some v → v.jumps = false) (tame : Tame p)
    (inputs : Env) :
    Restores p ∧ (∃ t, Reads q.commands .items {} 0 q.commands.length t) ∧
      ∀ t, Reads q.commands .items {} 0 q.commands.length t →
        (∀ limit s ending, q.run inputs limit = (s, some ending) →
          ∃ fuel c w, Tree.run p t fuel t { vars := inputs } = some (c, w) ∧ Agrees s ending c w) ∧
        ∀ fuel c w, Tree.run p t fuel t { vars := inputs } = some (c, w) →
          ∃ limit s ending, q.run inputs limit = (s, some ending) ∧ Agrees s ending c w := by
  have := ready_of_outlined outlined start
  have same := eq_of_outlined outlined
  have commands : p.commands = q.commands := by rw [same]
  have evaluator : p.evaluator = evaluate p.patterns := by rw [same]; exact evaluator
  have run (limit : Nat) :
      q.run inputs limit = (tick p)^[limit] ({ machine := { vars := inputs } }, none) := by
    rw [Program.run, outlined]
    exact runFor_eq _
  rw [← commands] at straight ⊢
  refine ⟨restores p, reads_of_outline p.found straight, fun t reads => ?_⟩
  have follows (fuel : Nat) : Follows p {} false fuel {} [] p.commands.length
      ({ machine := { vars := inputs } }, none) (Tree.run p t fuel t { vars := inputs }) :=
    realizes_run evaluator tame reads fuel reads.laid false {} [] _ _ nofun
      ⟨rfl, rfl, fun _ mem => absurd mem not_mem_nil, nofun⟩ stands_start
  constructor
  · intro limit s ending ended
    have followed := follows (limit + 1)
    rw [run] at ended
    cases result : Tree.run p t (limit + 1) t { vars := inputs } with
    | none =>
      -- a tree that is out of fuel leaves the run going for longer than it did
      rw [result] at followed
      have going := followed limit (Nat.lt_succ_self limit)
      rw [ended] at going
      cases going
    | some out =>
      obtain ⟨c, w⟩ := out
      rw [result] at followed
      obtain ⟨v, leads, finished, agrees⟩ := followed.finished
      obtain rfl := leads.unique finished ⟨limit, ended⟩ rfl
      cases finished
      exact ⟨limit + 1, c, w, result, agrees⟩
  · intro fuel c w result
    have followed := follows fuel
    rw [result] at followed
    obtain ⟨⟨s, e⟩, ⟨limit, ended⟩, rfl, agrees⟩ := followed.finished
    exact ⟨limit, s, c.ending, (run limit).trans ended, agrees⟩

/-- A function with a loop, each round of which catches an error and is left through a last segment.
The names of the loop and of the call are shown inside and behind them. -/
def catchInRounds : Program := .ofCommands
  [{ name := "function", target := "f" }, { name := "foreach", target := "x", value := "1, 2" },
   { name := "try" }, { name := "throwError", target := "boom" },
   { name := "catch", target := "/(?i)^B(o)\\1m/" },
   { name := "echo", target := "caught $\x7bx\x7d $\x7by\x7d" }, { name := "continue" },
   { name := "finally" }, { name := "echo", target := "last" }, { name := "endTry" },
   { name := "endForeach" }, { name := "endFunction" },
   { name := "call", target := "f", value := "y = 5" },
   { name := "echo", target := "$\x7bx\x7d $\x7by\x7d" }]

theorem run_iff_meaning_catchInRounds :
    ∃ t s fuel c w, Reads catchInRounds.commands .items {} 0 14 t ∧
      catchInRounds.run [("x", .int 9)] 40 = (s, some (.outcome .completed)) ∧
      s.lines = #["caught 1 5", "last", "caught 2 5", "last", "9 $\x7by\x7d"] ∧
      Tree.run catchInRounds t fuel t { vars := [("x", .int 9)] } = some (c, w) ∧
        Agrees s (.outcome .completed) c w ∧
      Restores catchInRounds := by
  have outlined : catchInRounds.outlined = .ok catchInRounds := rfl
  have straight : ∀ c ∈ catchInRounds.commands, ∀ v, c.verb? = some v → v.jumps = false := by
    intro c mem v verb
    have all : ∀ c ∈ catchInRounds.commands, (c.verb?.all fun v => !v.jumps) = true := by
      decide +kernel
    simpa [verb] using all c mem
  have tame : Tame catchInRounds := @tame_of_isTame _ (faithful_of_outlined outlined).1
    (by decide +kernel)
  obtain ⟨restores, ⟨t, reads⟩, meaning⟩ := run_iff_meaning outlined rfl rfl straight tame
    [("x", .int 9)]
  have ended : (catchInRounds.run [("x", .int 9)] 40).2 = some (.outcome .completed) ∧
      (catchInRounds.run [("x", .int 9)] 40).1.lines =
        #["caught 1 5", "last", "caught 2 5", "last", "9 $\x7by\x7d"] := by decide +kernel
  have agreed := (meaning t reads).1 40
  generalize catchInRounds.run [("x", .int 9)] 40 = out at ended agreed ⊢
  obtain ⟨s, how⟩ := out
  obtain ⟨rfl, lines⟩ := ended
  obtain ⟨fuel, c, w, result, agrees⟩ := agreed s _ rfl
  exact ⟨t, s, fuel, c, w, reads, rfl, lines, result, agrees, restores⟩

end Runbook
