import Runbook.Proofs.Comments.Blocks
import Runbook.Proofs.Machine.Reading

namespace Runbook

/-- The same result of a check, or the same error at its new place. -/
inductive Checked {α : Type} (f : Nat ↪o Nat) : Except Error α → Except Error α → Prop
  | ok (x : α) : Checked f (.ok x) (.ok x)
  | error {e : Error} {e'} (same : e.Mirrors f e') : Checked f (.error e) (.error e')

section Checks

variable {f : Nat ↪o Nat}

theorem Failure.Mirrors.of_unplaced {e : Failure} (unplaced : e.At none) : e.Mirrors f e := by
  cases e with
  | fault x => exact .fault x
  | error e =>
    have index : e.index = none := (unplaced e rfl).elim id id
    exact .error ⟨rfl, by rw [index]; rfl⟩

theorem Checked.of_unplaced {α : Type} {x : Except Error α}
    (unplaced : ∀ e, x = .error e → e.At none) : Checked f x x := by
  cases x with
  | ok x => exact .ok x
  | error e =>
    have index : e.index = none := (unplaced e rfl).elim id id
    exact .error ⟨rfl, by rw [index]; rfl⟩

theorem checked_validate (what : String) (here : Option Int) (name : String) :
    Checked f (Name.validate what here name) (Name.validate what (here.map (moved f)) name) := by
  unfold Name.validate
  split
  · exact .ok name
  · exact .error ⟨rfl, rfl⟩

theorem checked_validateAll (what : String) (here : Option Int) (names : List String) :
    Checked f (Name.validateAll what here names)
      (Name.validateAll what (here.map (moved f)) names) := by
  induction names with
  | nil => exact .ok []
  | cons name rest ih =>
    have first := checked_validate (f := f) what here name
    unfold Name.validateAll
    generalize Name.validate what here name = x, Name.validate what (here.map (moved f)) name =
      y at first ⊢
    generalize Name.validateAll what here rest = xs,
      Name.validateAll what (here.map (moved f)) rest = ys at ih ⊢
    cases first with
    | error same => exact .error same
    | ok name =>
      cases ih with
      | error same => exact .error same
      | ok names => exact .ok (name :: names)

end Checks

namespace Action

variable {f : Nat ↪o Nat} {p : Program} {cs : List Command} {text : String} {c : Command}
  {format : Format} {kind : LoopKind} {place : Nat}

theorem mimics_orError {α : Type} {x y : Except Error α} (same : Checked f x y) :
    Mimics f Eq (orError x) (orError y) := by
  cases same with
  | ok x => exact mimics_pure rfl
  | error errors => exact mimics_throw (.error errors)

theorem mimics_require {field : String} :
    Mimics f Eq (require p field text) (require (p.renumber f cs) field text) :=
  mimics_ite Iff.rfl (fun _ => mimics_complain) fun _ => mimics_pure rfl

theorem mimics_setCursor (cursor : Cursor) : Mimics f Eq (setCursor cursor) (setCursor cursor) :=
  mimics_changeLoop

theorem mimics_loopTop : Mimics f Eq loopTop loopTop := by
  apply mimics_bind mimics_blocks
  intro bs bs' same
  cases same with
  | nil => exact mimics_fault
  | @cons x y _ _ top _ =>
    cases top using Frame.Mirrors.kinds with
    | cond | guard => exact mimics_fault
    | loop => exact mimics_pure rfl

structure Rounds.Mimics (f : Nat ↪o Nat) (r r' : Rounds) : Prop where
  prepare : Action.Mimics f Eq r.prepare r'.prepare
  start : Action.Mimics f Eq r.start r'.start
  advance : Action.Mimics f Eq r.advance r'.advance
  goesOn : Action.Mimics f Eq r.goesOn r'.goesOn

theorem mimics_conditionRounds (c : Command) :
    (conditionRounds p c).Mimics f (conditionRounds (p.renumber f cs) c) where
  prepare := mimics_seq mimics_require fun _ => mimics_pure rfl
  start := mimics_pure rfl
  advance := mimics_pure rfl
  goesOn := mimics_holds c.target

theorem mimics_namesAssigned :
    Mimics f Eq (namesAssigned p text) (namesAssigned (p.renumber f cs) text) := by
  refine mimics_ite Iff.rfl (fun _ => ?_) fun _ => mimics_fault
  have same : (p.renumber f cs).patterns = p.patterns := rfl
  rw [same]
  split
  · exact mimics_pure rfl
  · exact mimics_throw (.error ⟨rfl, rfl⟩)
  · exact mimics_fault

theorem mimics_prepareCounter (c : Command) :
    Mimics f Eq (prepareCounter p c) (prepareCounter (p.renumber f cs) c) := by
  apply mimics_seq mimics_require
  intro _
  split
  · rename_i start condition step _
    have names (given : List String) : Mimics f Eq
        (do return addNew given (← namesAssigned p start))
        (do return addNew given (← namesAssigned (p.renumber f cs) start)) :=
      mimics_seq mimics_namesAssigned fun _ => mimics_pure rfl
    apply mimics_seq (mimics_setCursor _)
    intro _
    refine mimics_ite Iff.rfl (fun _ => mimics_seq (mimics_pure rfl) names) fun _ => ?_
    apply mimics_bind mimics_get
    intro m m' same
    rw [same.here]
    exact mimics_seq (mimics_orError (checked_validateAll _ _ _)) names
  · exact mimics_complain

theorem mimics_counter (key : String) (part : String → String → String → String) :
    Mimics f Eq (counter key part) (counter key part) := by
  apply mimics_seq mimics_loopTop
  intro l
  split
  · exact mimics_pure rfl
  · exact mimics_fault

theorem mimics_counterRounds (c : Command) :
    (counterRounds p c).Mimics f (counterRounds (p.renumber f cs) c) where
  prepare := mimics_prepareCounter c
  start := mimics_seq (mimics_counter _ _) fun text => mimics_seq (mimics_eval text) fun _ =>
    mimics_pure rfl
  advance := mimics_seq (mimics_counter _ _) fun text => mimics_seq (mimics_eval text) fun _ =>
    mimics_pure rfl
  goesOn := mimics_seq (mimics_counter _ _) mimics_holds

theorem mimics_prepareItems (c : Command) :
    Mimics f Eq (prepareItems p c) (prepareItems (p.renumber f cs) c) := by
  apply mimics_seq mimics_require
  intro _
  apply mimics_seq mimics_require
  intro _
  apply mimics_bind mimics_get
  intro m m' same
  rw [same.here]
  apply mimics_seq (mimics_orError (checked_validate _ _ _))
  intro _
  apply mimics_seq (mimics_eval _)
  intro found
  apply mimics_seq mimics_orFault_eq
  intro source
  exact mimics_seq (mimics_setCursor _) fun _ => mimics_pure rfl

theorem mimics_items : Mimics f Eq items items := by
  apply mimics_seq mimics_loopTop
  intro l
  split
  · exact mimics_pure rfl
  · exact mimics_fault

theorem mimics_itemIndex : Mimics f Eq itemIndex itemIndex := by
  apply mimics_seq mimics_loopTop
  intro l
  split
  · exact mimics_pure rfl
  · exact mimics_fault

theorem mimics_takeItem {i : Nat} : Mimics f Eq (takeItem c i) (takeItem c i) := by
  apply mimics_seq mimics_items
  intro source
  apply mimics_seq mimics_orFault_eq
  intro count
  refine mimics_ite Iff.rfl (fun _ => ?_) fun _ => mimics_pure rfl
  exact mimics_seq mimics_orFault_eq fun _ => mimics_assign _

theorem mimics_itemRounds (c : Command) :
    (itemRounds p c).Mimics f (itemRounds (p.renumber f cs) c) where
  prepare := mimics_prepareItems c
  start := mimics_seq mimics_items fun _ => mimics_seq (mimics_setCursor _) fun _ => mimics_takeItem
  advance := mimics_seq mimics_itemIndex fun _ => mimics_seq mimics_items fun _ =>
    mimics_seq (mimics_setCursor _) fun _ => mimics_takeItem
  goesOn := mimics_seq mimics_itemIndex fun _ => mimics_seq (mimics_assign _) fun _ =>
    mimics_seq mimics_items fun _ => mimics_seq mimics_orFault_eq fun _ => mimics_pure rfl

theorem mimics_loaded {α : Type} {target : String} (x : List String → α) :
    Mimics f Eq (match ((Reader.empty format).load p.limits p.files p.base target).1 with
      | .ok names => pure (x names)
      | .error failure => throw failure : Action α)
      (match ((Reader.empty format).load p.limits p.files p.base target).1 with
      | .ok names => pure (x names)
      | .error failure => throw failure) := by
  cases out : ((Reader.empty format).load p.limits p.files p.base target).1 with
  | ok names => exact mimics_pure rfl
  | error failure => exact mimics_throw (.of_unplaced ((unreadable_at none format).load out))

theorem mimics_prepareData (format : Format) (c : Command) :
    Mimics f Eq (prepareData p format c) (prepareData (p.renumber f cs) format c) := by
  apply mimics_seq mimics_require
  intro _
  exact mimics_seq (mimics_setCursor _) fun _ => mimics_loaded id

theorem mimics_reader : Mimics f Eq reader reader := by
  apply mimics_seq mimics_loopTop
  intro l
  split
  · exact mimics_pure rfl
  · exact mimics_fault

theorem mimics_dataRounds :
    (dataRounds p format c).Mimics f (dataRounds (p.renumber f cs) format c) where
  prepare := mimics_prepareData format c
  start := mimics_pure rfl
  advance := mimics_pure rfl
  goesOn := by
    apply mimics_seq mimics_reader
    intro r
    refine mimics_ite Iff.rfl (fun _ => mimics_pure rfl) fun _ => ?_
    apply mimics_seq
      (mimics_orError (.of_unplaced fun _ failed => (unreadable_at none .json).next failed _ rfl))
    intro taken
    exact mimics_seq (mimics_setCursor _) fun _ => mimics_seq (mimics_assign _) fun _ =>
      mimics_pure rfl

theorem mimics_rounds (c : Command) :
    (rounds p c kind).Mimics f (rounds (p.renumber f cs) c kind) := by
  cases kind with
  | condition => exact mimics_conditionRounds c
  | counter => exact mimics_counterRounds c
  | items => exact mimics_itemRounds c
  | json | xml => exact mimics_dataRounds

theorem mimics_isTop : Mimics f Eq (isTop place) (isTop (f place)) := by
  apply mimics_bind mimics_blocks
  intro bs bs' same
  cases same with
  | nil => exact mimics_pure rfl
  | cons top _ =>
    apply mimics_pure
    simp only [top.place, f.injective.eq_iff]

theorem mimics_enterLoop {r r' : Rounds} (mimics : r.Mimics f r') :
    Mimics f Eq (enterLoop place kind r) (enterLoop (f place) kind r') := by
  have opened : (Frame.mk place [] (.loop { kind := kind })).Mirrors f
      (Frame.mk (f place) [] (.loop { kind := kind })) :=
    ⟨rfl, rfl, .loop _⟩
  apply mimics_seq (mimics_push opened)
  intro _
  apply mimics_seq mimics.prepare
  intro names
  apply mimics_bind mimics_get
  intro m m' same
  rw [same.vars]
  have saves : Mimics f Eq (change fun x => { x with saved := m.vars.capture names })
      (change fun x => { x with saved := m.vars.capture names }) :=
    mimics_change fun _ _ frames => { frames with saved := rfl }
  have declares : Mimics f Eq
    (modify fun m => { m with vars := m.vars.declare names } : Action PUnit)
    (modify fun m => { m with vars := m.vars.declare names }) :=
    mimics_modify fun _ _ machines => { machines with vars := by rw [machines.vars] }
  apply mimics_seq saves
  intro _
  apply mimics_seq declares
  intro _
  exact mimics_seq mimics.start fun _ => mimics_logEvent

theorem mimics_endLoop (embeds : Embeds f p.commands cs) :
    Mimics f Eq (endLoop p) (endLoop (p.renumber f cs)) := by
  apply mimics_bind mimics_ownerHere
  rintro owner _ rfl
  apply mimics_bind mimics_expectTop
  intro x y same
  cases same using Frame.Mirrors.kinds with
  | cond | guard => exact mimics_fault
  | loop =>
    refine mimics_ite Iff.rfl (fun _ => ?_) fun _ => mimics_branchTo_nat embeds owner
    exact mimics_bind mimics_pop fun _ _ _ => mimics_logEvent

section Loops

variable (embeds : Embeds f p.commands cs) {resuming : Bool}

include embeds

theorem mimics_openLoop {r r' : Rounds} (mimics : r.Mimics f r') :
    Mimics f Eq (openLoop p r) (openLoop (p.renumber f cs) r') := by
  apply mimics_bind mimics_openerHere
  rintro ⟨place, form, last⟩ _ rfl
  apply mimics_seq mimics_isTop
  intro top
  have rest : Mimics f Eq (tryRound p r last) (tryRound (p.renumber f cs) r' (f last)) := by
    apply mimics_seq mimics.goesOn
    intro goes
    refine mimics_ite Iff.rfl (fun _ => ?_) fun _ => mimics_pure rfl
    exact mimics_seq mimics_changeLoop fun _ => mimics_branchTo_nat embeds last
  refine mimics_ite Iff.rfl (fun _ => mimics_seq mimics.advance fun _ => rest) fun _ => ?_
  cases form with
  | loop kind => exact mimics_seq (mimics_enterLoop mimics) fun _ => rest
  | cond elseIfs orElse | guard name catchAt finallyAt | function word name =>
    exact mimics_seq mimics_fault fun _ => rest

theorem mimics_dropToLoop {c : Command} :
    Mimics f (Option.Rel (Frame.Mirrors f)) (dropToLoop p c resuming)
      (dropToLoop (p.renumber f cs) c resuming) := by
  have drops : Mimics f (Option.Rel (Frame.Mirrors f)) (unwindToLoop p)
      (unwindToLoop (p.renumber f cs)) := by
    have loops (x y : Frame) (top : x.Mirrors f y) :
        (Except.ok y.isLoop : Except Fault Bool) = .ok x.isLoop := by
      rw [top.isLoop]
    apply mimics_bind (mimics_unwind loops)
    intro found found' frames
    cases frames with
    | none => exact mimics_complain
    | some top => exact mimics_pure (.some top)
  have waits :
      Mimics f (Option.Rel (Frame.Mirrors f)) (leaveRound p) (leaveRound (p.renumber f cs)) := by
    apply mimics_seq (mimics_transfer embeds)
    intro waits
    exact mimics_ite Iff.rfl (fun _ => mimics_pure .none) fun _ => drops
  refine mimics_ite Iff.rfl (fun _ => drops) fun _ => ?_
  refine mimics_ite Iff.rfl (fun _ => waits) fun _ => ?_
  apply mimics_seq (mimics_holds c.target)
  intro holds
  exact mimics_ite Iff.rfl (fun _ => waits) fun _ => mimics_pure .none

theorem mimics_again (c : Command) :
    Mimics f Eq (again p c resuming) (again (p.renumber f cs) c resuming) := by
  apply mimics_bind (mimics_dropToLoop embeds)
  intro found found' frames
  cases frames with
  | none => exact mimics_pure rfl
  | some top =>
    dsimp only
    rw [top.place]
    exact mimics_branchTo_nat embeds _

theorem mimics_leave (c : Command) :
    Mimics f Eq (leave p c resuming) (leave (p.renumber f cs) c resuming) := by
  apply mimics_bind (mimics_dropToLoop embeds)
  intro found found' frames
  cases frames with
  | none => exact mimics_pure rfl
  | some top =>
    apply mimics_seq mimics_changeLoop
    intro _
    apply mimics_bind (mimics_lastOf top)
    rintro last _ rfl
    exact mimics_branchTo_nat embeds last

end Loops

theorem mimics_loadReader {target : String} :
    Mimics f Eq (loadReader p format target) (loadReader (p.renumber f cs) format target) :=
  mimics_loaded fun names => (names, ((Reader.empty format).load p.limits p.files p.base target).2)

theorem mimics_takeVarset {r : Reader} : Mimics f Eq (takeVarset r) (takeVarset r) :=
  mimics_seq
    (mimics_orError (.of_unplaced fun _ failed => (unreadable_at none .json).next failed _ rfl))
    fun _ =>
    mimics_seq (mimics_assign _) fun _ => mimics_pure rfl

theorem mimics_seekVarset {selector : String} (count : Nat) (r : Reader) :
    Mimics f Eq (seekVarset p selector count r)
      (seekVarset (p.renumber f cs) selector count r) := by
  induction count generalizing r with
  | zero => exact mimics_pure rfl
  | succ count ih =>
    refine mimics_ite Iff.rfl (fun _ => mimics_pure rfl) fun _ => ?_
    apply mimics_seq mimics_takeVarset
    intro after
    apply mimics_seq (mimics_holds selector)
    intro holds
    exact mimics_ite Iff.rfl (fun _ => mimics_pure rfl) fun _ => ih after

theorem mimics_loadSelected (c : Command) (r : Reader) :
    Mimics f Eq (loadSelected p c r) (loadSelected (p.renumber f cs) c r) := by
  apply mimics_seq (mimics_eval c.value)
  intro v
  split
  · exact mimics_pure rfl
  · apply mimics_seq (mimics_seekVarset _ r)
    intro found
    exact mimics_ite Iff.rfl (fun _ => mimics_complain) fun _ => mimics_pure rfl
  · exact mimics_complain

theorem mimics_loadVars :
    Mimics f Eq (loadVars p format c) (loadVars (p.renumber f cs) format c) := by
  apply mimics_seq mimics_require
  intro _
  apply mimics_seq mimics_loadReader
  intro loaded
  apply mimics_seq mimics_takeVarset
  intro r
  refine mimics_ite Iff.rfl (fun _ => ?_) fun _ => mimics_loadSelected c r
  exact mimics_ite Iff.rfl (fun _ => mimics_complain) fun _ => mimics_pure rfl

theorem mimics_argument (text : String) :
    Mimics f Eq (argument p text) (argument (p.renumber f cs) text) := by
  apply mimics_bind mimics_get
  intro m m' same
  dsimp only
  rw [same.here]
  rcases Text.cutOnce? '=' text.toList with _ | ⟨before, body⟩
  all_goals
    dsimp only
    generalize String.ofList (Text.trim _) = name
    have valid := checked_validate (f := f) "parameter" m.here name
    generalize Name.validate "parameter" m.here name = x,
    Name.validate "parameter" (m.here.map (moved f)) name = y at valid ⊢
    rcases valid with _ | errors
  · exact mimics_complain
  · exact mimics_throw (.error errors)
  · exact mimics_seq (mimics_eval (String.ofList body)) fun _ => mimics_pure rfl
  · exact mimics_throw (.error errors)

theorem mimics_argumentsFrom (found : Record Value) (texts : List String) :
    Mimics f Eq (argumentsFrom p found texts) (argumentsFrom (p.renumber f cs) found texts) := by
  induction texts generalizing found with
  | nil => exact mimics_pure rfl
  | cons text rest ih =>
    exact mimics_seq (mimics_argument text) fun entry => ih (found.set entry.1 entry.2)

theorem mimics_arguments : Mimics f Eq (arguments p text) (arguments (p.renumber f cs) text) :=
  mimics_argumentsFrom [] _

theorem function?_renumber (name : String) :
    function? (p.renumber f cs) name = (function? p name).map f := by
  simp only [function?, Program.renumber, Outline.symbols_renumber]
  cases p.outline.symbols.get? name with
  | none => rfl
  | some place =>
    simp only [Option.map_some, Outline.block?_renumber]
    rcases p.outline.block? place with _ | ⟨form, last⟩ | owner
    · rfl
    · cases form <;> rfl
    · rfl

theorem passedName_renumber (form : Form) : passedName (form.renumber f) = passedName form := by
  cases form <;> rfl

section Calls

variable (embeds : Embeds f p.commands cs) {resuming : Bool}

include embeds

theorem mimics_call (c : Command) : Mimics f Eq (call p c) (call (p.renumber f cs) c) := by
  unfold call
  rw [function?_renumber]
  cases function? p c.target with
  | none => exact mimics_complain
  | some place =>
    apply mimics_bind mimics_get
    intro m m' same
    have returns : m'.call.returning = true ∧ m'.call.back = m'.here ↔ m.call.returning = true ∧
        m.call.back = m.here := by
      rw [same.call.returning, same.call.back, same.here,
        (Option.map_injective (moved_injective f)).eq_iff]
    refine mimics_ite returns (fun _ => mimics_bind mimics_popCall fun _ _ _ => mimics_logEvent)
      fun _ => ?_
    apply mimics_seq mimics_arguments
    intro args
    apply mimics_bind mimics_get
    intro n n' machines
    rw [machines.vars]
    apply mimics_seq (mimics_assign args)
    intro _
    have entered :
        (Call.mk (some place) c.target args m.here (n.vars.capture args.names) [] false).Mirrors f
        (Call.mk (some (f place)) c.target args m'.here (n.vars.capture args.names) [] false) :=
      ⟨rfl, rfl, rfl, same.here, rfl, .nil, rfl⟩
    apply mimics_seq (mimics_pushCall entered)
    intro _
    apply mimics_bind mimics_get
    intro _ _ _
    exact mimics_seq mimics_logEvent fun _ => mimics_branchTo_nat embeds place

theorem mimics_openFunction : Mimics f Eq (openFunction p) (openFunction (p.renumber f cs)) := by
  apply mimics_bind mimics_openerHere
  rintro ⟨place, form, last⟩ _ rfl
  apply mimics_bind mimics_get
  intro m m' same
  have called : m'.call.function = some (f place) ↔ m.call.function = some place := by
    rw [same.call.function]
    exact (Option.map_injective f.injective).eq_iff (b := some place)
  refine mimics_ite called (fun _ => ?_) fun _ => ?_
  · rw [same.call.args]
    exact mimics_assign m.call.args
  · dsimp only
    rw [passedName_renumber]
    apply mimics_seq mimics_orFault_eq
    intro name
    exact mimics_seq mimics_logEvent fun _ => mimics_branchTo_nat embeds last

theorem mimics_giveBack {expression : String} :
    Mimics f Eq (giveBack p expression resuming)
      (giveBack (p.renumber f cs) expression resuming) := by
  apply mimics_bind mimics_ownerHere
  rintro owner _ rfl
  apply mimics_bind mimics_get
  intro m m' same
  have strange : m'.call.function ≠ some (f owner) ↔ m.call.function ≠ some owner := by
    rw [same.call.function]
    exact not_congr ((Option.map_injective f.injective).eq_iff (b := some owner))
  refine mimics_ite strange (fun _ => mimics_pure rfl) fun _ => ?_
  have goes : Mimics f Eq (goBack p) (goBack (p.renumber f cs)) := by
    have marks : Mimics f Eq (modify fun m => { m with call := { m.call with returning := true } } :
      Action PUnit) (modify fun m => { m with call := { m.call with returning := true } }) :=
      mimics_modify fun _ _ machines =>
        { machines with call := { machines.call with returning := rfl } }
    apply mimics_seq marks
    intro _
    apply mimics_bind mimics_get
    intro n n' machines
    rw [machines.call.back]
    exact mimics_branchBack embeds
  have waits : Mimics f Eq (turnBack p) (turnBack (p.renumber f cs)) := by
    apply mimics_seq (mimics_transfer embeds)
    intro waits
    exact mimics_ite Iff.rfl (fun _ => mimics_pure rfl) fun _ => goes
  refine mimics_ite Iff.rfl (fun _ => goes) fun _ => ?_
  refine mimics_ite Iff.rfl (fun _ => waits) fun _ => ?_
  exact mimics_seq (mimics_eval expression) fun _ => mimics_seq (mimics_assign _) fun _ => waits

theorem mimics_exitTest :
    Mimics f Eq (exitTest p resuming) (exitTest (p.renumber f cs) resuming) := by
  have stops : Mimics f Eq endRun endRun :=
    mimics_seq mimics_logEvent fun _ => mimics_modify fun _ _ machines =>
      { machines with stopped := rfl }
  refine mimics_ite Iff.rfl (fun _ => ?_) fun _ => stops
  apply mimics_seq (mimics_transfer embeds)
  intro waits
  exact mimics_ite Iff.rfl (fun _ => mimics_pure rfl) fun _ => stops

end Calls

end Action

namespace Host

open Runbook.Action

variable {f : Nat ↪o Nat} {p : Program} {cs : List Command} {text : String}

theorem mimics_fill : Mimics f Eq (fill p text) (fill (p.renumber f cs) text) := by
  apply mimics_bind mimics_get
  intro m m' same
  rw [same.vars]
  exact mimics_orFault_eq

theorem mimics_showLine : Mimics f Eq (showLine p text) (showLine (p.renumber f cs) text) :=
  mimics_ite Iff.rfl (fun _ => mimics_pure rfl) fun _ => mimics_fault

theorem mimics_failWith {α : Type} {message : String} :
    Mimics f Eq (failWith message : Action α) (failWith message) :=
  mimics_throw (.error ⟨rfl, rfl⟩)

theorem mimics_storeName {c : Command} : Mimics f Eq (storeName c) (storeName c) :=
  mimics_orError (checked_validate "variable" none c.value)

theorem mimics_assertEval (c : Command) :
    Mimics f Eq (assertEval p c) (assertEval (p.renumber f cs) c) := by
  apply mimics_seq (mimics_eval c.target)
  intro v
  apply mimics_seq (mimics_textOf v)
  intro actual
  apply mimics_seq mimics_fill
  intro expected
  exact mimics_ite Iff.rfl (fun _ => mimics_failWith) fun _ => mimics_pure rfl

theorem mimics_echo :
    Mimics f Eq (modify fun m => { m with logs := m.logs.push (.echo text) } : Action PUnit)
      (modify fun m => { m with logs := m.logs.push (.echo text) }) :=
  mimics_modify fun _ _ machines => { machines with }

theorem mimics_perform (c : Command) : Mimics f Eq (perform p c) (perform (p.renumber f cs) c) := by
  unfold perform
  split
  · exact mimics_seq
      (mimics_seq mimics_storeName fun _ => mimics_seq mimics_fill fun _ => mimics_assign _)
      fun _ => mimics_pure rfl
  · exact mimics_seq (mimics_seq mimics_storeName fun _ => mimics_seq
      (mimics_eval c.target) fun _ => mimics_assign _) fun _ => mimics_pure rfl
  · exact mimics_seq (mimics_eval c.target) fun _ => mimics_pure rfl
  · exact mimics_seq (mimics_assertEval c) fun _ => mimics_pure rfl
  · exact mimics_seq (mimics_seq mimics_fill fun _ => mimics_failWith) fun _ => mimics_pure rfl
  · exact mimics_seq mimics_fill fun text => mimics_seq mimics_showLine fun _ =>
      mimics_seq mimics_echo fun _ => mimics_pure rfl
  · exact mimics_failWith

end Host

end Runbook
