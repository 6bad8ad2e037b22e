import Runbook.Proofs.Data.Readers
import Runbook.Proofs.Machine.Powers

/-!
Actions that read. They evaluate expressions and look up names and files, and may write variables,
logs and the cursor of the innermost loop, but leave the control as it is. They fail with an error
of a kind that their failures are known by, or with one of a few faults. All that a loop does in its
rounds is of this kind.
-/

namespace Runbook

open List

def Failure.kind? : Failure → Option Kind
  | .error e => some e.kind
  | .fault _ => none

inductive Fault.Topic
  | size
  | pattern
  | file
  | length
  | slot
  | output
  deriving DecidableEq, Repr

def Fault.topic? : Fault → Option Topic
  | .tooManyDigits | .tooDeep => some .size
  | .troubled _ => some .pattern
  | .badEncoding | .nameTooLong | .denied => some .file
  | .noLength _ => some .length
  | .noSuchKey _ => some .slot
  | .unshown => some .output
  | _ => none

def faultTopics : Option Verb → List Fault.Topic
  | none => [.size, .output]
  | some (.openLoop .counter) => [.size, .pattern, .slot]
  | some (.openLoop .items) => [.length, .slot]
  | some (.openLoop .json) => [.size, .file, .slot]
  | some (.openLoop .xml) => [.file, .slot]
  | some (.load .json) => [.size, .file]
  | some (.load _) => [.file]
  | some _ => []

def Fault.arises (f : Fault) (v : Option Verb) : Bool := f.topic?.any (faultTopics v).contains

def Fault.ofData (f : Fault) : Bool := f.topic?.isSome

theorem Fault.ofData_of_topic {f : Fault} {t : Fault.Topic} (about : f.topic? = some t) :
    f.ofData = true := by
  rw [Fault.ofData, about]
  rfl

theorem Fault.ofData_of_arises {f : Fault} {v : Option Verb} (arises : f.arises v = true) :
    f.ofData = true := by
  rw [Fault.arises] at arises
  cases topic : f.topic? with
  | none => rw [topic] at arises; cases arises
  | some t => exact Fault.ofData_of_topic topic

theorem Fault.arises_of_mem {f : Fault} {v : Option Verb} {t : Fault.Topic}
    (about : f.topic? = some t) (mem : t ∈ faultTopics v) : f.arises v = true := by
  rw [arises, about]
  simpa using mem

def Failure.Arises (v : Option Verb) : Failure → Prop
  | .error e => e.kind ≠ .jump ∧ e.kind ≠ .scope
  | .fault f => f.arises v = true

namespace Action

variable {α β : Type} {k : Control} {E : Failure → Prop} {m m' : Machine} {p : Program}
  {c : Command} {format : Format} {kind : Kind} {v : Option Verb} {f : Fault} {a : Action α}
  {e : Failure} {text what : String} {index : Option Int} {files : Files} {limits : Limits}
  {path : Path} {r : Reader} {cursor : Cursor}

/-- A predicate of failures that all errors of a kind have, if they may come from the current
command. -/
def Admits (k : Control) (E : Failure → Prop) (kind : Kind) : Prop :=
  ∀ e : Error, e.kind = kind → e.At k.here → E (.error e)

def Grants (k : Control) (E : Failure → Prop) (v : Option Verb) : Prop :=
  ∀ f : Failure, f.Arises v → f.At k.here → E f

theorem admits_self : Admits k (fun e => e.kind? = some kind) kind :=
  fun _ same _ => congrArg some same

theorem grants_arises : Grants k (Failure.Arises v) v := fun _ arises _ => arises

theorem Grants.admits (grants : Grants k E v) (other : kind ≠ .jump ∧ kind ≠ .scope) :
    Admits k E kind := by
  rintro e rfl blames
  exact grants _ other (at_error blames)

theorem Grants.faults {t : Fault.Topic} (grants : Grants k E v) (mem : t ∈ faultTopics v)
    (f : Fault) (about : f.topic? = some t) : E (.fault f) :=
  grants _ (Fault.arises_of_mem about mem) at_fault

def Reading (m n : Machine) : Prop := n.control = m.control ∧ m.Works { leaves := False } n

def Reads (k : Control) (E : Failure → Prop) (a : Action α) : Prop :=
  ∀ m, m.control = k → ActsOn Reading E a m

theorem Reads.still {r : Reply α} (reads : Reads m.control E a) (ran : Ran a m r m') :
    m'.control = m.control := by
  have same := (reads m rfl).1.1
  rw [Ran] at ran
  rwa [ran] at same

theorem Reads.fails (reads : Reads m.control E a) (ran : Ran a m (.error e) m') : E e :=
  (reads m rfl).2 e (congrArg Prod.fst ran)

theorem reads_pure {x : α} : Reads k E (pure x : Action α) := fun _ _ => ⟨⟨rfl, .refl⟩, nofun⟩

theorem reads_throw (admits : E e) : Reads k E (throw e : Action α) := by
  intro m _
  refine ⟨⟨rfl, .refl⟩, fun f same => ?_⟩
  cases same
  exact admits

theorem reads_fault (admits : E (.fault f)) : Reads k E (fault f : Action α) := reads_throw admits

theorem reads_bind {f : α → Action β} (first : Reads k E a) (rest : ∀ x, Reads k E (f x)) :
    Reads k E (a >>= f) := by
  intro m same
  refine actsOn_bind (first m same) (fun x n reading => rest x n (reading.1.trans same))
    (fun _ reading => reading) ?_
  rintro x y ⟨first, works⟩ ⟨second, further⟩
  exact ⟨second.trans first, works.trans further⟩

theorem reads_get_bind {f : Machine → Action β} (rest : ∀ m, m.control = k → Reads k E (f m)) :
    Reads k E (get >>= f) :=
  fun m same => rest m same m same

theorem reads_orFault {x : Except Fault α} (admits : ∀ f, x = .error f → E (.fault f)) :
    Reads k E (orFault x) := by
  cases x with
  | ok a => exact reads_pure
  | error f => exact reads_fault (admits f rfl)

theorem reads_orError {x : Except Error α} (admits : ∀ e, x = .error e → E (.error e)) :
    Reads k E (orError x) := by
  cases x with
  | ok a => exact reads_pure
  | error e => exact reads_throw (admits e rfl)

theorem here_of_control (same : m'.control = m.control) : m'.here = m.here :=
  congrArg Control.here same

theorem reads_complain (admits : Admits k E kind) : Reads k E (complain p kind text : Action α) :=
  reads_get_bind fun _ same => reads_throw (admits _ rfl (.inr (congrArg Control.here same)))

theorem reads_modify {how : Machine → Machine} (control : ∀ m, (how m).control = m.control)
    (calls : ∀ m, (how m).calls = m.calls) : Reads k E (modify how : Action PUnit) :=
  fun m _ =>
    have same := control m
    ⟨⟨same, .single (.still (calls m) ⟨here_of_control same, congrArg Control.started same⟩
      (Powers.keeps _ _))⟩, nofun⟩

theorem reads_assign {values : List (String × Value)} : Reads k E (assign values) :=
  reads_modify (fun _ => rfl) fun _ => rfl

theorem ran_eval {r : Reply Value} (ran : Ran (eval p text) m r m') :
    m' = { m with vars := (p.evaluator text m.vars).2 } ∧
      (∀ v, r = .ok v ↔ (p.evaluator text m.vars).1 = .ok v) ∧
      ∀ e, r = .error e →
        ∃ message, e = .error { kind := .eval, message := message, index := m.here } := by
  unfold eval at ran
  have ran := ran_get_bind ran
  dsimp only at ran
  rcases ran_bind ran with ⟨e, _, failed⟩ | ⟨_, m₁, done, ran⟩
  · cases (ran_set failed).1
  obtain ⟨_, rfl⟩ := ran_set done
  split at ran
  · rename_i v given
    obtain ⟨rfl, rfl⟩ := ran_pure ran
    exact ⟨rfl, fun u => by rw [given]; simp, nofun⟩
  all_goals
    rename_i given
    obtain ⟨rfl, rfl⟩ := ran_throw ran
    refine ⟨rfl, fun u => by rw [given]; simp, fun e same => ?_⟩
    cases same
    exact ⟨_, rfl⟩

theorem reads_eval (evals : Admits k E .eval) (p : Program) (text : String) :
    Reads k E (eval p text) := by
  intro m same
  obtain ⟨control, _, errors⟩ := ran_eval (ran_self (eval p text) m)
  refine ⟨by rw [control]; exact ⟨rfl, .single (.still rfl ⟨rfl, rfl⟩ (Powers.keeps _ _))⟩,
    fun e failed => ?_⟩
  obtain ⟨message, rfl⟩ := errors e failed
  exact evals _ rfl (.inr (congrArg Control.here same))

theorem reads_holds (evals : Admits k E .eval) (p : Program) (text : String) :
    Reads k E (holds p text) :=
  reads_bind (reads_eval evals p text) fun _ => reads_pure

theorem size_of_spell {limits : Limits} {v : Value} (failed : limits.spell v = .error f) :
    f.topic? = some .size := by
  unfold Limits.spell at failed
  split at failed
  · cases failed
  · split at failed
    · cases text : v.toText <;> rw [text] at failed <;> cases failed
      rfl
    · cases failed
      rfl

theorem reads_textOf (size : ∀ f, f.topic? = some .size → E (.fault f)) {v : Value} :
    Reads k E (textOf p v) :=
  reads_orFault fun f failed => size f (size_of_spell failed)

theorem reads_require (engine : Admits k E .engine) {field : String} :
    Reads k E (require p field text) := by
  unfold require
  split
  · exact reads_complain engine
  · exact reads_pure

theorem error_of_validate {name : String} {e : Error}
    (refused : Name.validate what index name = .error e) : e.kind = .eval ∧ e.index = index := by
  unfold Name.validate at refused
  split at refused
  · cases refused
  · cases refused
    exact ⟨rfl, rfl⟩

theorem error_of_validateAll {names : List String} {e : Error}
    (refused : Name.validateAll what index names = .error e) :
    e.kind = .eval ∧ e.index = index := by
  induction names with
  | nil => cases refused
  | cons name rest ih =>
    unfold Name.validateAll at refused
    cases first : Name.validate what index name with
    | error cause =>
      rw [first] at refused
      cases refused
      exact error_of_validate first
    | ok valid =>
      rw [first] at refused
      cases others : Name.validateAll what index rest with
      | error cause =>
        rw [others] at refused
        cases refused
        exact ih others
      | ok valids =>
        rw [others] at refused
        cases refused

theorem Admits.refused (evals : Admits k E .eval) {e : Error} (same : m.control = k)
    (error : e.kind = .eval ∧ e.index = m.here) : E (.error e) :=
  evals e error.1 (.inr (error.2.trans (congrArg Control.here same)))

theorem reads_argument (evals : Admits k E .eval) (p : Program) (text : String) :
    Reads k E (argument p text) := by
  refine reads_get_bind fun m same => ?_
  split
  dsimp only
  split
  · rename_i refused _
    exact reads_throw (evals.refused same (error_of_validate refused))
  · exact reads_complain evals
  · exact reads_bind (reads_eval evals p _) fun _ => reads_pure

theorem reads_argumentsFrom (evals : Admits k E .eval) (p : Program) (found : Record Value)
    (texts : List String) : Reads k E (argumentsFrom p found texts) := by
  induction texts generalizing found with
  | nil => exact reads_pure
  | cons text rest ih => exact reads_bind (reads_argument evals p text) fun _ => ih _

theorem reads_skipCount (evals : Admits k E .eval) : Reads k E (skipCount p text) := by
  have rest (n : Int) : Reads k E (do
      if n < 0 then complain p .eval " Requires a number >= 0"
      return n.toNat) := by
    split
    · exact reads_bind (reads_complain evals) fun _ => reads_pure
    · exact reads_pure
  unfold skipCount
  dsimp only
  split
  · exact reads_pure
  · refine reads_bind (reads_eval evals p _) fun v => ?_
    split
    · exact reads_complain evals
    · split
      · exact reads_bind (reads_complain evals) fun _ => rest _
      · exact rest _

theorem topic_of_assignedNames {patterns : Matcher} {message : String}
    (failed : assignedNames patterns text = .error (.foreign f message)) :
    f.topic? = some .size ∨ f.topic? = some .pattern := by
  unfold assignedNames at failed
  split at failed
  · cases failed
  cases read : Statement.readNamed patterns text with
  | ok s => rw [read] at failed; cases failed
  | error e =>
    rw [read] at failed
    cases failed
    unfold Statement.readNamed at read
    split at read <;> cases read
    · exact .inl rfl
    · exact .inr rfl

theorem reads_namesAssigned (size : ∀ f, f.topic? = some .size → E (.fault f))
    (trouble : ∀ f, f.topic? = some .pattern → E (.fault f)) (evals : Admits k E .eval) :
    Reads k E (namesAssigned p text) := by
  unfold namesAssigned
  split
  · split
    · exact reads_pure
    · exact reads_throw (evals _ rfl (.inl rfl))
    · rename_i f _ failed
      exact reads_fault ((topic_of_assignedNames failed).elim (size f) (trouble f))
  · exact reads_fault (size _ rfl)

/-- Failures of a data file: it is not as it has to be, cannot be read as text, or has something too
large to be read. -/
structure Unreadable (E : Failure → Prop) (format : Format) : Prop where
  data : ∀ message, E (.error (dataError message))
  file : ∀ f : Fault, f.topic? = some .file → E (.fault f)
  size : format = .json → ∀ f : Fault, f.topic? = some .size → E (.fault f)

theorem unreadable_at (place : Option Int) (format : Format) :
    Unreadable (Failure.At place) format :=
  ⟨fun _ => at_error (.inl rfl), fun _ _ => at_fault, fun _ _ _ => at_fault⟩

theorem file_of_bytes? (failed : files.bytes? path = .error f) : f.topic? = some .file := by
  unfold Files.bytes? at failed
  split at failed
  · cases failed
    rfl
  · split at failed <;> cases failed
    rfl

theorem file_of_text? (failed : files.text? path = .error f) : f.topic? = some .file := by
  unfold Files.text? at failed
  cases found : files.bytes? path with
  | error f' =>
    rw [found] at failed
    cases failed
    exact file_of_bytes? found
  | ok bytes =>
    rw [found] at failed
    cases bytes with
    | none => cases failed
    | some bytes =>
      cases decoded : Files.decode bytes with
      | ok text =>
        simp only [bind, Except.bind, decoded] at failed
        cases failed
      | error f' =>
        simp only [bind, Except.bind, decoded] at failed
        cases failed
        unfold Files.decode at decoded
        split at decoded <;> cases decoded
        rfl

section

variable (unreadable : Unreadable E format)

include unreadable

theorem Unreadable.ofText (failed : Varset.ofText limits format path text = .error e) : E e := by
  cases format with
  | json =>
    change Varset.ofJson limits path text.toList = .error e at failed
    unfold Varset.ofJson at failed
    split at failed
    · cases failed
    split at failed
    · cases failed
      exact unreadable.size rfl _ rfl
    split at failed
    · cases failed
      exact unreadable.data _
    · cases failed
      exact unreadable.size rfl _ rfl
    · cases failed
    · split at failed
      · cases failed
      · cases failed
        exact unreadable.data _
    · cases failed
      exact unreadable.data _
  | xml =>
    change Varset.ofXml path text.toList = .error e at failed
    unfold Varset.ofXml at failed
    split at failed
    · cases failed
      exact unreadable.data _
    · cases failed

theorem Unreadable.load {base : Option Path} {target : String}
    (failed : ((Reader.empty format).load limits files base target).1 = .error e) : E e := by
  unfold Reader.load at failed
  split at failed
  · cases failed
    exact unreadable.data _
  · dsimp only at failed
    split at failed
    · rename_i text
      cases failed
      exact unreadable.file _ (file_of_text? text)
    · cases failed
      exact unreadable.data _
    · split at failed
      · rename_i read
        cases failed
        exact unreadable.ofText read
      · rename_i varsets read
        cases varsets with
        | nil =>
          cases failed
          exact unreadable.data _
        | cons first rest => cases failed

theorem Unreadable.next {e : Error} (failed : r.next = .error e) : E (.error e) := by
  unfold Reader.next at failed
  split at failed
  · cases failed
    exact unreadable.data _
  · split at failed
    · cases failed
      exact unreadable.data _
    · split at failed
      · cases failed
        exact unreadable.data _
      · cases failed

theorem reads_takeVarset : Reads k E (takeVarset r) :=
  reads_bind (reads_orError fun _ => unreadable.next) fun _ =>
    reads_bind reads_assign fun _ => reads_pure

theorem reads_seekVarset (evals : Admits k E .eval) (p : Program) (selector : String) (count : Nat)
    (r : Reader) : Reads k E (seekVarset p selector count r) := by
  induction count generalizing r with
  | zero => exact reads_pure
  | succ count ih =>
    unfold seekVarset
    split
    · exact reads_pure
    · refine reads_bind (reads_takeVarset unreadable) fun _ => reads_bind
        (reads_holds evals p _) fun _ => ?_
      split
      · exact reads_pure
      · exact ih _

end

theorem reads_loadVars {word : LoadWord} (grants : Grants k E (some (.load word)))
    (unreadable : Unreadable E format) (p : Program) (c : Command) :
    Reads k E (loadVars p format c) := by
  have evals : Admits k E .eval := grants.admits (by decide)
  have data : Admits k E .datafile := grants.admits (by decide)
  have loaded : Reads k E (loadReader p format c.target) := by
    unfold loadReader
    split
    rename_i out
    split
    · exact reads_pure
    · exact reads_throw (unreadable.load (congrArg Prod.fst out))
  refine reads_bind (reads_require (grants.admits (by decide))) fun _ =>
    reads_bind loaded fun _ => ?_
  refine reads_bind (reads_takeVarset unreadable) fun _ => ?_
  split
  · unfold loadOnly
    split
    · exact reads_complain data
    · exact reads_pure
  · refine reads_bind (reads_eval evals p _) fun _ => ?_
    split
    · exact reads_pure
    · refine reads_bind (reads_seekVarset unreadable evals p _ _ _) fun _ => ?_
      split
      · exact reads_complain data
      · exact reads_pure
    · exact reads_complain evals

theorem control_top {place : Nat} {saved saved' : Snapshot} {l : Loop} {rest : List Frame}
    (top : m.Top ⟨place, saved, .loop l⟩ rest) :
    { m with call := { m.call with blocks := ⟨place, saved', .loop { l with cursor := cursor }⟩ ::
      rest } : Machine }.control =
      m.control := by
  simp [Machine.control, Call.tier, top, Frame.spot, Body.mark]

theorem reads_setCursor (plain : ∀ r, cursor ≠ .data r) : Reads k E (setCursor cursor) := by
  intro m _
  rw [ActsOn, setCursor, changeLoop, run_change]
  cases top : m.call.blocks with
  | nil => exact ⟨⟨rfl, .refl⟩, by rintro _ ⟨⟩⟩
  | cons f rest =>
    obtain ⟨place, saved, body⟩ := f
    cases body with
    | cond _ | guard _ =>
      refine ⟨⟨?_, .single (.change top (.refl))⟩, by rintro _ ⟨⟩⟩
      simp [Machine.control, Call.tier, top]
    | loop l =>
      have none : cursor.names ⊆ [] := by
        cases cursor with
        | data r => exact absurd rfl (plain r)
        | _ => exact List.Subset.refl _
      have later :
          Frame.Later ⟨place, saved, .loop l⟩ ⟨place, saved, .loop { l with cursor := cursor }⟩ :=
        ⟨rfl, rfl, rfl, rfl, List.Subset.trans none (List.nil_subset _)⟩
      exact ⟨⟨control_top top, .single (.change top later)⟩, by rintro _ ⟨⟩⟩

def AtLoop (k : Control) : Prop :=
  ∃ kind complete, k.call.blocks.head?.map Spot.mark = some (.loop kind complete)

/-- A value of which the number of items is not known, or a map, which has no first item. -/
structure Countless (E : Failure → Prop) : Prop where
  length : ∀ type, E (.fault (.noLength type))
  key : ∀ key, E (.fault (.noSuchKey key))

theorem itemCount_fails {v : Value} (countless : Countless E) (failed : itemCount v = .error f) :
    E (.fault f) := by
  cases v with
  | list _ | text _ | map _ => cases failed
  | null | bool _ | pattern _ =>
    cases failed
    exact countless.length _
  | number n =>
    cases n with
    | int _ | float _ =>
      cases failed
      exact countless.length _

theorem itemAt_fails {v : Value} {i count : Nat} (countless : Countless E)
    (counted : itemCount v = .ok count) (within : i < count) (failed : itemAt v i = .error f) :
    E (.fault f) := by
  cases v with
  | list items =>
    cases counted
    simp [itemAt, List.getElem?_eq_getElem within] at failed
  | text s =>
    cases counted
    have within : i < s.toList.length := by rwa [String.length_toList]
    simp [itemAt, List.getElem?_eq_getElem within] at failed
  | map _ | null | bool _ | pattern _ | number _ =>
    cases failed
    exact countless.key _

theorem unfoldItems_fails {v : Value} (countless : Countless E)
    (failed : unfoldItems v = .error f) : E (.fault f) := by
  unfold unfoldItems at failed
  cases counted : itemCount v with
  | error fault =>
    rw [counted] at failed
    cases failed
    exact itemCount_fails countless counted
  | ok count =>
    rw [counted] at failed
    change (if count = 1 then _ else _) = _ at failed
    split at failed
    · rename_i one
      cases first : itemAt v 0 with
      | error fault =>
        rw [first] at failed
        cases failed
        exact itemAt_fails countless counted (by omega) first
      | ok item =>
        rw [first] at failed
        cases item <;> cases failed
    · cases failed

/-- What a loop does that is innermost, and has no snapshot yet: if it comes to know names, it tells
them. -/
structure Prepared (E : Failure → Prop) (m : Machine) (r : Except Failure (List String))
    (m' : Machine) : Prop where
  control : m'.control = m.control
  fails : ∀ e, r = .error e → E e ∧ m.Works { leaves := False } m'
  tells : ∀ names, r = .ok names → ∃ x place l l' rest, m.Works { leaves := False } x ∧
    x.call.blocks = ⟨place, [], .loop l⟩ :: rest ∧ l'.cursor.names ⊆ names ∧
    m' = { x with call := { x.call with blocks := ⟨place, [], .loop l'⟩ :: rest } }

def Prepares (k : Control) (E : Failure → Prop) (a : Action (List String)) : Prop :=
  ∀ m r m' place kind rest, m.control = k → m.call.blocks = ⟨place, [], .loop { kind := kind }⟩ ::
    rest → Ran a m r m' → Prepared E m r m'

theorem Reads.prepares {a : Action (List String)} (reads : Reads k E a) : Prepares k E a := by
  intro m r m' place kind rest same top ran
  obtain ⟨⟨control, works⟩, fails⟩ := reads m same
  rw [Ran] at ran
  rw [ran] at control works fails
  refine ⟨control, fun e failed => ⟨fails e failed, works⟩, fun names _ => ?_⟩
  obtain ⟨⟨place', saved, body⟩, top', later⟩ := works.top nofun id id top
  cases body with
  | cond _ | guard _ => cases later.loop
  | loop l =>
    cases later.saved
    exact ⟨m', place', l, l, rest, works, top', List.Subset.trans later.names
      (List.nil_subset _), by rw [← top']⟩

/-- What a kind of loop does besides opening and closing its block. -/
structure Rounds.Reads (k : Control) (E : Failure → Prop) (rounds : Rounds) : Prop where
  prepare : Prepares k E rounds.prepare
  start : Action.Reads k E rounds.start
  advance : Action.Reads k E rounds.advance
  goesOn : Action.Reads k E rounds.goesOn

section Rounds

variable (inside : AtLoop k ∨ E (.fault .noBlock)) (slots : ∀ key, E (.fault (.noSuchKey key)))

include inside in
theorem reads_loopTop {f : Loop → Action α} (rest : ∀ l, Reads k E (f l)) :
    Reads k E (loopTop >>= f) := by
  refine reads_bind (fun m same => ?_) rest
  rw [ActsOn, loopTop, run_bind, show blocks.run.run m = (.ok m.call.blocks, m) from rfl]
  dsimp only
  rcases inside with ⟨kind, complete, top⟩ | admits
  · rw [← same] at top
    cases blocks : m.call.blocks with
    | nil => simp [Machine.control, Call.tier, blocks] at top
    | cons f rest =>
      obtain ⟨place, saved, body⟩ := f
      cases body with
      | loop l => exact reads_pure m same
      | cond _ | guard _ => simp [Machine.control, Call.tier, blocks, Frame.spot, Body.mark] at top
  · split
    · exact reads_pure m same
    · exact reads_fault admits m same

theorem ran_loopTop {r : Reply Loop} (ran : Ran loopTop m r m') :
    m' = m ∧ ∀ l, r = .ok l → ∃ place saved rest, m.Top ⟨place, saved, .loop l⟩ rest := by
  have ran := ran_blocks_bind ran
  split at ran
  · rename_i place saved l rest top
    obtain ⟨rfl, rfl⟩ := ran_pure ran
    refine ⟨rfl, fun l' same => ?_⟩
    cases same
    exact ⟨place, saved, rest, top⟩
  · obtain ⟨rfl, rfl⟩ := ran_throw ran
    exact ⟨rfl, nofun⟩

theorem ran_reader {r : Reply Reader} (ran : Ran reader m r m') :
    m' = m ∧ ∀ source, r = .ok source → ∃ place saved l rest, m.Top ⟨place, saved, .loop l⟩ rest ∧
      l.cursor = .data source := by
  rcases ran_bind ran with ⟨e, rfl, failed⟩ | ⟨l, m₁, found, further⟩
  · exact ⟨(ran_loopTop failed).1, nofun⟩
  obtain ⟨rfl, given⟩ := ran_loopTop found
  obtain ⟨place, saved, rest, top⟩ := given l rfl
  split at further
  · rename_i source cursor
    obtain ⟨rfl, rfl⟩ := ran_pure further
    refine ⟨rfl, fun r same => ?_⟩
    cases same
    exact ⟨place, saved, l, rest, top, cursor⟩
  · obtain ⟨rfl, rfl⟩ := ran_throw further
    exact ⟨rfl, nofun⟩

theorem ran_prepareData {r : Reply (List String)} {place : Nat} {saved : Snapshot} {l : Loop}
    {rest : List Frame} (top : m.Top ⟨place, saved, .loop l⟩ rest)
    (ran : Ran (prepareData p format c) m r m') :
    (∃ e, r = .error (.error e) ∧ e.kind = .engine ∧ e.index = m.here ∧ m' = m) ∨
    ∃ reader, (Reader.empty format).load p.limits p.files p.base c.target = (r, reader) ∧
      m' = { m with call :=
        { m.call with blocks := ⟨place, saved, .loop { l with cursor := .data reader }⟩ :: rest }
        } := by
  unfold prepareData require at ran
  split at ran
  · obtain ⟨rfl, rfl⟩ := Prod.mk.inj ran
    exact .inl ⟨_, rfl, rfl, rfl, rfl⟩
  · have ran := ran_bind_ok ran run_pure
    rcases loaded : (Reader.empty format).load p.limits p.files p.base c.target with
      ⟨result, reader⟩
    rw [loaded] at ran
    have ran := ran_bind_ok ran (run_changeLoop top rfl)
    refine .inr ⟨reader, ?_⟩
    cases result with
    | ok names =>
      obtain ⟨rfl, rfl⟩ := ran_pure ran
      exact ⟨rfl, rfl⟩
    | error e =>
      obtain ⟨rfl, rfl⟩ := ran_throw ran
      exact ⟨rfl, rfl⟩

include inside slots

theorem reads_counter {key : String} {part : String → String → String → String} :
    Reads k E (counter key part) := by
  refine reads_loopTop inside fun _ => ?_
  split
  · exact reads_pure
  · exact reads_fault (slots _)

theorem reads_items : Reads k E items := by
  refine reads_loopTop inside fun _ => ?_
  split
  · exact reads_pure
  · exact reads_fault (slots _)

theorem reads_itemIndex : Reads k E itemIndex := by
  refine reads_loopTop inside fun _ => ?_
  split
  · exact reads_pure
  · exact reads_fault (slots _)

theorem reads_reader : Reads k E reader := by
  refine reads_loopTop inside fun _ => ?_
  split
  · exact reads_pure
  · exact reads_fault (slots _)

theorem counterRounds_reads (size : ∀ f, f.topic? = some .size → E (.fault f))
    (trouble : ∀ f, f.topic? = some .pattern → E (.fault f)) (engine : Admits k E .engine)
    (evals : Admits k E .eval) (p : Program) (c : Command) : (counterRounds p c).Reads k E := by
  have step (key : String) (part : String → String → String → String) :
      Reads k E (do let _ ← eval p (← counter key part)) :=
    reads_bind (reads_counter inside slots) fun _ => reads_bind
      (reads_eval evals p _) fun _ => reads_pure
  refine ⟨Reads.prepares ?_, step _ _, step _ _, reads_bind (reads_counter inside slots) fun _ =>
    reads_holds evals p _⟩
  refine reads_bind (reads_require engine) fun _ => ?_
  split
  · rename_i start _ _ _
    have names (given : List String) :
        Reads k E (do return addNew given (← namesAssigned p start)) :=
      reads_bind (reads_namesAssigned size trouble evals) fun _ => reads_pure
    refine reads_bind (reads_setCursor nofun) fun _ => ?_
    dsimp only
    split
    · exact reads_bind reads_pure fun _ => names _
    · refine reads_get_bind fun _ same => reads_bind (reads_orError fun _ refused => ?_) fun _ =>
        names _
      exact evals.refused same (error_of_validateAll refused)
  · exact reads_complain engine

theorem itemRounds_reads (countless : Countless E) (engine : Admits k E .engine)
    (evals : Admits k E .eval) (p : Program) (c : Command) : (itemRounds p c).Reads k E := by
  have take (i : Nat) : Reads k E (takeItem c i) := by
    refine reads_bind (reads_items inside slots) fun source => ?_
    cases counted : itemCount source with
    | error f => exact reads_fault (itemCount_fails countless counted)
    | ok count =>
      show Reads k E (if i < count then _ else _)
      split
      · rename_i within
        exact reads_bind (reads_orFault fun f => itemAt_fails countless counted within) fun _ =>
          reads_assign
      · exact reads_pure
  refine ⟨Reads.prepares ?_, ?_, ?_, ?_⟩
  · refine reads_bind (reads_require engine) fun _ => reads_bind (reads_require engine) fun _ => ?_
    refine reads_get_bind fun _ same => reads_bind (reads_orError fun _ refused => ?_) fun _ => ?_
    · exact evals.refused same (error_of_validate refused)
    · refine reads_bind (reads_eval evals p _) fun _ => reads_bind
        (reads_orFault fun _ => unfoldItems_fails countless) fun _ => ?_
      exact reads_bind (reads_setCursor nofun) fun _ => reads_pure
  · exact reads_bind (reads_items inside slots) fun _ => reads_bind
      (reads_setCursor nofun) fun _ => take 0
  · refine reads_bind (reads_itemIndex inside slots) fun i => reads_bind
      (reads_items inside slots) fun _ => ?_
    exact reads_bind (reads_setCursor nofun) fun _ => take (i + 1)
  · refine reads_bind (reads_itemIndex inside slots) fun _ => reads_bind reads_assign fun _ => ?_
    refine reads_bind (reads_items inside slots) fun _ => ?_
    exact reads_bind (reads_orFault fun _ => itemCount_fails countless) fun _ => reads_pure

theorem ran_dataGoesOn (unreadable : Unreadable E format) (p : Program) (c : Command)
    (same : m.control = k) {r : Reply Bool} (ran : Ran (dataRounds p format c).goesOn m r m') :
    (∀ e, r = .error e → E e) ∧
    (m' = m ∨ ∃ place saved l rest reader varset after, m.Top ⟨place, saved, .loop l⟩ rest ∧
      l.cursor = .data reader ∧ reader.next = .ok (varset, after) ∧
      m' = { m with
        vars := m.vars.assign varset
        call := { m.call with
          blocks := ⟨place, saved, .loop { l with cursor := .data after }⟩ :: rest } }) := by
  rcases ran_bind ran with ⟨e, rfl, failed⟩ | ⟨reader, m₁, found, further⟩
  · subst same
    refine ⟨fun f failed' => ?_, .inl (ran_reader failed).1⟩
    cases failed'
    exact (reads_reader inside slots).fails failed
  obtain ⟨rfl, given⟩ := ran_reader found
  obtain ⟨place, saved, l, rest, top, cursor⟩ := given reader rfl
  split at further
  · obtain ⟨rfl, rfl⟩ := ran_pure further
    exact ⟨nofun, .inl rfl⟩
  cases next : reader.next with
  | error e =>
    rw [next] at further
    obtain ⟨rfl, rfl⟩ := Prod.mk.inj further
    refine ⟨fun f failed => ?_, .inl rfl⟩
    cases failed
    exact unreadable.next next
  | ok out =>
    obtain ⟨varset, after⟩ := out
    rw [next] at further
    have further := ran_bind_ok (ran_bind_ok further run_pure) (run_changeLoop top rfl)
    obtain ⟨rfl, rfl⟩ := Prod.mk.inj further
    exact ⟨nofun, .inr ⟨place, saved, l, rest, reader, varset, after, top, cursor, next, rfl⟩⟩

theorem dataRounds_reads (engine : Admits k E .engine) (unreadable : Unreadable E format) :
    (dataRounds p format c).Reads k E := by
  refine ⟨fun m r m' place kind rest same top ran => ?_, reads_pure, reads_pure, fun m same => ?_⟩
  · rcases ran_prepareData top ran with ⟨e, rfl, engines, index, rfl⟩ | ⟨reader, loaded, rfl⟩
    · refine ⟨rfl, fun f failed => ⟨?_, .refl⟩, nofun⟩
      cases failed
      exact engine e engines (.inr (index.trans (congrArg Control.here same)))
    · have known := Reader.names_of_load loaded
      refine ⟨control_top top, fun e failed => ?_, fun names told => ?_⟩
      · subst failed
        have none : reader.names ⊆ [] := known ▸ List.Subset.refl _
        have later : Frame.Later ⟨place, [], .loop { kind := kind }⟩
            ⟨place, [], .loop { kind := kind, cursor := .data reader }⟩ :=
          ⟨rfl, rfl, rfl, rfl, none⟩
        exact ⟨unreadable.load (congrArg Prod.fst loaded), .single (.change top later)⟩
      · subst told
        have told : reader.names ⊆ names := known ▸ List.Subset.refl _
        exact ⟨m, place, _, { kind := kind, cursor := .data reader }, rest, .refl, top, told, rfl⟩
  · obtain ⟨fails,
      same | ⟨place, saved, l, rest, reader, varset, after, top, cursor, next, moved⟩⟩ :=
      ran_dataGoesOn inside slots unreadable p c same (ran_self _ m)
    · exact ⟨⟨by rw [same], by rw [same]⟩, fails⟩
    · have known : after.names ⊆ l.cursor.names := by
        rw [(Reader.names_next next).2, cursor]
        exact List.Subset.refl _
      have later : Frame.Later ⟨place, saved, .loop l⟩
          ⟨place, saved, .loop { l with cursor := .data after }⟩ :=
        ⟨rfl, rfl, rfl, rfl, known⟩
      refine ⟨?_, fails⟩
      rw [moved]
      exact ⟨control_top top, .tail (.single (.change top later))
        (.still rfl ⟨rfl, rfl⟩ (Powers.keeps _ _))⟩

end Rounds

theorem rounds_reads {kind : LoopKind} (grants : Grants k E (some (.openLoop kind)))
    (inside : AtLoop k ∨ E (.fault .noBlock)) : (rounds p c kind).Reads k E := by
  have engine : Admits k E .engine := grants.admits (by decide)
  have evals : Admits k E .eval := grants.admits (by decide)
  have data (message : String) : E (.error (dataError message)) :=
    (grants.admits (by decide) : Admits k E .datafile) _ rfl (.inl rfl)
  have slots (known : .slot ∈ faultTopics (some (.openLoop kind))) (key : String) :
      E (.fault (.noSuchKey key)) :=
    grants.faults known _ rfl
  cases kind with
  | condition =>
    refine ⟨Reads.prepares ?_, reads_pure, reads_pure, reads_holds evals p _⟩
    exact reads_bind (reads_require engine) fun _ => reads_pure
  | counter =>
    exact counterRounds_reads inside (slots (by decide)) (grants.faults (by decide))
      (grants.faults (by decide)) engine evals p c
  | items =>
    have countless : Countless E :=
      ⟨fun _ => grants.faults (by decide : .length ∈ _) _ rfl, slots (by decide)⟩
    exact itemRounds_reads inside (slots (by decide)) countless engine evals p c
  | json =>
    have unreadable : Unreadable E .json :=
      ⟨data, grants.faults (by decide), fun _ => grants.faults (by decide)⟩
    exact dataRounds_reads inside (slots (by decide)) engine unreadable
  | xml =>
    have unreadable : Unreadable E .xml := ⟨data, grants.faults (by decide), nofun⟩
    exact dataRounds_reads inside (slots (by decide)) engine unreadable

end Action

namespace Host

open Runbook.Action

variable {k : Control} {E : Failure → Prop}

theorem size_of_fillFrom {limits : Limits} {env : Env} {skip : Nat} {cs : List Char} {f : Fault}
    (failed : Placeholder.fillFrom limits env skip cs = .error f) : f.topic? = some .size := by
  fun_induction Placeholder.fillFrom limits env skip cs with
  | case1 => cases failed
  | case2 _ _ _ ih => exact ih failed
  | case3 c rest v size found ih =>
    cases spelled : limits.spell v with
    | error f' =>
      rw [spelled] at failed
      cases failed
      exact size_of_spell spelled
    | ok text =>
      rw [spelled] at failed
      cases others : Placeholder.fillFrom limits env (size - 1) rest with
      | error f' =>
        rw [others] at failed
        cases failed
        exact ih others
      | ok more =>
        rw [others] at failed
        cases failed
  | case4 c rest _ ih =>
    cases others : Placeholder.fillFrom limits env 0 rest with
    | error f' =>
      rw [others] at failed
      cases failed
      exact ih others
    | ok more =>
      rw [others] at failed
      cases failed

theorem size_of_fill {limits : Limits} {env : Env} {text : String} {f : Fault}
    (failed : Placeholder.fill limits env text = .error f) : f.topic? = some .size := by
  unfold Placeholder.fill at failed
  cases filled : Placeholder.fillFrom limits env 0 text.toList with
  | error f' =>
    rw [filled] at failed
    cases failed
    exact size_of_fillFrom filled
  | ok cs =>
    rw [filled] at failed
    cases failed

theorem reads_fill {p : Program} (size : ∀ f, f.topic? = some .size → E (.fault f))
    {text : String} : Reads k E (fill p text) :=
  reads_get_bind fun _ _ => reads_orFault fun f failed => size f (size_of_fill failed)

theorem reads_perform (grants : Grants k E none) {p : Program} {c : Command} :
    Reads k E (perform p c) := by
  have evals : Admits k E .eval := grants.admits (by decide)
  have size : ∀ f, f.topic? = some .size → E (.fault f) := grants.faults (by decide)
  have failing {α : Type} (message : String) : Reads k E (failWith message : Action α) :=
    reads_throw ((grants.admits (by decide) : Admits k E .command) _ rfl (.inl rfl))
  have name : Reads k E (storeName c) := by
    refine reads_orError fun e refused => ?_
    obtain ⟨kind, index⟩ := error_of_validate refused
    exact evals e kind (.inl index)
  unfold perform
  split
  · refine reads_bind (reads_bind name fun _ => ?_) fun _ => reads_pure
    exact reads_bind (reads_fill size) fun _ => reads_assign
  · refine reads_bind (reads_bind name fun _ => ?_) fun _ => reads_pure
    exact reads_bind (reads_eval evals p _) fun _ => reads_assign
  · exact reads_bind (reads_eval evals p _) fun _ => reads_pure
  · refine reads_bind (reads_bind (reads_eval evals p _) fun _ => ?_) fun _ => reads_pure
    refine reads_bind (reads_textOf size) fun _ => reads_bind (reads_fill size) fun _ => ?_
    split
    · exact failing _
    · exact reads_pure
  · exact reads_bind (reads_bind (reads_fill size) fun _ => failing _) fun _ => reads_pure
  · refine reads_bind (reads_fill size) fun text => ?_
    have shown : Reads k E (showLine p text) := by
      unfold showLine
      split
      · exact reads_pure
      · exact reads_fault (grants.faults (by decide : .output ∈ _) _ rfl)
    exact reads_bind shown fun _ => reads_bind (reads_modify (fun _ => rfl) fun _ => rfl) fun _ =>
      reads_pure
  · exact failing _

end Host

end Runbook
