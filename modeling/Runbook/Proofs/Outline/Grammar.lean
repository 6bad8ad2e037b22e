import Runbook.Proofs.Outline.Opens

/-!
The grammar of scripts. A script has an outline exactly if its commands derive from the grammar of
nested blocks. The scan is a machine with a stack of open blocks; what is left of a script completes
such a stack.
-/

namespace Runbook

open List

/-- What stands around a command: a loop inside the innermost function, and a function. -/
structure Around where
  loop : Bool := false
  function : Bool := false
  deriving DecidableEq, Repr

/-- The kinds of phrases: items, the branches of a condition behind the first, and a segment of a
guard that may be missing. -/
inductive Phrase
  | items
  | branches
  | segment (v : Verb)
  deriving DecidableEq, Repr

def Command.Closes (d : Command) (name : String) : Prop := d.target = "" ∨ d.target = name

/-- The grammar. A loop does not reach into the functions inside it, and nothing but a function lets
a script return. -/
inductive Derives : Phrase → Around → List Command → Prop
  | done {x : Around} : Derives .items x []
  | plain {x : Around} {c : Command} {rest : List Command}
      (plain : ∀ v, c.verb? = some v → v.role = .plain) (further : Derives .items x rest) :
      Derives .items x (c :: rest)
  | exit {x : Around} {c : Command} {rest : List Command}
      (verb : c.verb? = some .again ∨ c.verb? = some .leave) (inside : x.loop = true)
      (further : Derives .items x rest) : Derives .items x (c :: rest)
  | giveBack {x : Around} {c : Command} {rest : List Command} (verb : c.verb? = some .giveBack)
      (inside : x.function = true) (further : Derives .items x rest) : Derives .items x (c :: rest)
  | cond {x : Around} {c d : Command} {body others rest : List Command}
      (opens : c.verb? = some .openIf) (inner : Derives .items x body)
      (branches : Derives .branches x others) (closes : d.verb? = some .endIf)
      (further : Derives .items x rest) : Derives .items x (c :: (body ++ (others ++ d :: rest)))
  | noBranch {x : Around} : Derives .branches x []
  | elseIf {x : Around} {c : Command} {body others : List Command} (verb : c.verb? = some .elseIf)
      (inner : Derives .items x body) (branches : Derives .branches x others) :
      Derives .branches x (c :: (body ++ others))
  | orElse {x : Around} {c : Command} {body : List Command} (verb : c.verb? = some .orElse)
      (inner : Derives .items x body) : Derives .branches x (c :: body)
  | guard {x : Around} {c d : Command} {body handler last rest : List Command}
      (opens : c.verb? = some .openTry) (inner : Derives .items x body)
      (handles : Derives (.segment .openCatch) x handler)
      (finishes : Derives (.segment .openFinally) x last) (closes : d.verb? = some .endTry)
      (repeats : d.Closes c.target) (further : Derives .items x rest) :
      Derives .items x (c :: (body ++ (handler ++ (last ++ d :: rest))))
  | noSegment {x : Around} {v : Verb} : Derives (.segment v) x []
  | segment {x : Around} {v : Verb} {c : Command} {body : List Command} (verb : c.verb? = some v)
      (inner : Derives .items x body) : Derives (.segment v) x (c :: body)
  | loop {x : Around} {c d : Command} {kind : LoopKind} {body rest : List Command}
      (opens : c.verb? = some (.openLoop kind))
      (inner : Derives .items { x with loop := true } body)
      (closes : d.verb? = some (.endLoop kind)) (further : Derives .items x rest) :
      Derives .items x (c :: (body ++ d :: rest))
  | function {x : Around} {c d : Command} {word : FunctionWord} {body rest : List Command}
      (opens : c.verb? = some (.openFunction word)) (named : c.target ≠ "")
      (inner : Derives .items { loop := false, function := true } body)
      (closes : d.verb? = some (.endFunction word)) (repeats : d.Closes c.target)
      (further : Derives .items x rest) : Derives .items x (c :: (body ++ d :: rest))

variable {x : Around} {cs : List Command}

theorem Derives.append {a b : List Command} (first : Derives .items x a)
    (second : Derives .items x b) : Derives .items x (a ++ b) := by
  generalize phrase : Phrase.items = kind at first
  induction first with
  | done => exact second
  | plain plain _ ih => exact .plain plain (ih second phrase)
  | exit verb inside _ ih => exact .exit verb inside (ih second phrase)
  | giveBack verb inside _ ih => exact .giveBack verb inside (ih second phrase)
  | cond opens inner branches closes _ _ _ ih =>
    simpa using Derives.cond opens inner branches closes (ih second phrase)
  | guard opens inner handles finishes closes repeats _ _ _ _ ih =>
    simpa using Derives.guard opens inner handles finishes closes repeats (ih second phrase)
  | loop opens inner closes _ _ ih => simpa using Derives.loop opens inner closes (ih second phrase)
  | function opens named inner closes repeats _ _ ih =>
    simpa using Derives.function opens named inner closes repeats (ih second phrase)
  | _ => cases phrase

theorem Derives.filter {phrase : Phrase} (derives : Derives phrase x cs) :
    Derives phrase x (cs.filter Command.executable) := by
  induction derives with
  | done => exact .done
  | @plain _ c _ plain _ ih =>
    rw [filter_cons]
    split
    · exact .plain plain ih
    · exact ih
  | exit verb inside _ ih =>
    rw [filter_cons_of_pos
      (by rcases verb with verb | verb <;> exact Command.executable_of_verb verb)]
    exact .exit verb inside ih
  | giveBack verb inside _ ih =>
    rw [filter_cons_of_pos (Command.executable_of_verb verb)]
    exact .giveBack verb inside ih
  | cond opens _ _ closes _ body others rest =>
    rw [filter_cons_of_pos (Command.executable_of_verb opens), filter_append, filter_append,
      filter_cons_of_pos (Command.executable_of_verb closes)]
    exact .cond opens body others closes rest
  | noBranch => exact .noBranch
  | elseIf verb _ _ body others =>
    rw [filter_cons_of_pos (Command.executable_of_verb verb), filter_append]
    exact .elseIf verb body others
  | orElse verb _ body =>
    rw [filter_cons_of_pos (Command.executable_of_verb verb)]
    exact .orElse verb body
  | guard opens _ _ _ closes named _ body handler last rest =>
    rw [filter_cons_of_pos (Command.executable_of_verb opens), filter_append, filter_append,
      filter_append, filter_cons_of_pos (Command.executable_of_verb closes)]
    exact .guard opens body handler last closes named rest
  | noSegment => exact .noSegment
  | segment verb _ body =>
    rw [filter_cons_of_pos (Command.executable_of_verb verb)]
    exact .segment verb body
  | loop opens _ closes _ body rest =>
    rw [filter_cons_of_pos (Command.executable_of_verb opens), filter_append, filter_cons_of_pos
      (Command.executable_of_verb closes)]
    exact .loop opens body closes rest
  | function opens named _ closes repeats _ body rest =>
    rw [filter_cons_of_pos (Command.executable_of_verb opens), filter_append, filter_cons_of_pos
      (Command.executable_of_verb closes)]
    exact .function opens named body closes repeats rest

inductive Slot
  | cond (closed : Bool)
  | guard (name : String) (caught finished : Bool)
  | loop (kind : LoopKind)
  | function (word : FunctionWord) (name : String)
  deriving DecidableEq, Repr

def Form.slot : Form → Slot
  | .cond _ orElse => .cond orElse.isSome
  | .guard name catchAt finallyAt => .guard name catchAt.isSome finallyAt.isSome
  | .loop kind => .loop kind
  | .function word name => .function word name

def Scan.slots (s : Scan) : List Slot := s.pending.map fun top => top.form.slot

def around : List Slot → Around
  | [] => {}
  | .loop _ :: rest => { around rest with loop := true }
  | .function _ _ :: _ => { loop := false, function := true }
  | .cond _ :: rest | .guard _ _ _ :: rest => around rest

inductive Slot.OpenedBy (c : Command) : Slot → Prop
  | cond (verb : c.verb? = some .openIf) : OpenedBy c (.cond false)
  | guard (verb : c.verb? = some .openTry) : OpenedBy c (.guard c.target false false)
  | loop {kind : LoopKind} (verb : c.verb? = some (.openLoop kind)) : OpenedBy c (.loop kind)
  | function {word : FunctionWord} (verb : c.verb? = some (.openFunction word))
      (named : c.target ≠ "") : OpenedBy c (.function word c.target)

/-- The command is the next part of the innermost block, which stays open, or its end. -/
inductive Slot.Meets (c : Command) : Slot → Option Slot → Prop
  | elseIf (verb : c.verb? = some .elseIf) : Meets c (.cond false) (some (.cond false))
  | orElse (verb : c.verb? = some .orElse) : Meets c (.cond false) (some (.cond true))
  | endIf {closed : Bool} (verb : c.verb? = some .endIf) : Meets c (.cond closed) none
  | openCatch {name : String} (verb : c.verb? = some .openCatch) :
      Meets c (.guard name false false) (some (.guard name true false))
  | openFinally {name : String} {caught : Bool} (verb : c.verb? = some .openFinally) :
      Meets c (.guard name caught false) (some (.guard name caught true))
  | endTry {name : String} {caught finished : Bool} (verb : c.verb? = some .endTry)
      (repeats : c.Closes name) : Meets c (.guard name caught finished) none
  | endLoop {kind : LoopKind} (verb : c.verb? = some (.endLoop kind)) : Meets c (.loop kind) none
  | endFunction {word : FunctionWord} {name : String} (verb : c.verb? = some (.endFunction word))
      (repeats : c.Closes name) : Meets c (.function word name) none

inductive Shifts (c : Command) : List Slot → List Slot → Prop
  | plain {stack : List Slot} (plain : ∀ v, c.verb? = some v → v.role = .plain) :
      Shifts c stack stack
  | exit {stack : List Slot} (verb : c.verb? = some .again ∨ c.verb? = some .leave)
      (inside : (around stack).loop = true) : Shifts c stack stack
  | giveBack {stack : List Slot} (verb : c.verb? = some .giveBack)
      (inside : (around stack).function = true) : Shifts c stack stack
  | opens {stack : List Slot} {slot : Slot} (opened : slot.OpenedBy c) :
      Shifts c stack (slot :: stack)
  | meets {stack : List Slot} {slot : Slot} {next : Option Slot} (meets : slot.Meets c next) :
      Shifts c (slot :: stack) (next.toList ++ stack)

/-- The commands are what is left of a script in which the blocks of a stack are open. -/
inductive Completes : List Slot → List Command → Prop
  | done {cs : List Command} (items : Derives .items {} cs) : Completes [] cs
  | next {slot : Slot} {stack : List Slot} {next : Option Slot} {c : Command}
      {body cs : List Command} (items : Derives .items (around (slot :: stack)) body)
      (meets : slot.Meets c next) (tail : Completes (next.toList ++ stack) cs) :
      Completes (slot :: stack) (body ++ c :: cs)

section Stacks

variable {c d : Command} {stack stack' : List Slot} {slot : Slot} {next : Option Slot}
  {body others handler last cs : List Command} {name : String} {caught : Bool}

theorem Completes.meets (meets : slot.Meets c next) (tail : Completes (next.toList ++ stack) cs) :
    Completes (slot :: stack) (c :: cs) :=
  @Completes.next slot stack next c [] cs .done meets tail

theorem Completes.prepend (items : Derives .items (around stack) body)
    (completes : Completes stack cs) : Completes stack (body ++ cs) := by
  cases completes with
  | done rest => exact .done (items.append rest)
  | next inner meets tail =>
    rw [← append_assoc]
    exact .next (items.append inner) meets tail

theorem completes_branches (branches : Derives .branches (around stack) others)
    (closes : d.verb? = some .endIf) (completes : Completes stack cs) :
    Completes (.cond false :: stack) (others ++ d :: cs) := by
  generalize phrase : Phrase.branches = kind at branches
  generalize same : around stack = x at branches
  induction branches with
  | noBranch => exact .meets (.endIf closes) completes
  | elseIf verb inner _ _ ih =>
    have tail := ih phrase same
    subst same
    have within : Derives .items (around (.cond false :: stack)) _ := inner
    rw [cons_append, append_assoc]
    exact .meets (.elseIf verb) (tail.prepend within)
  | orElse verb inner _ =>
    subst same
    have within : Derives .items (around (.cond true :: stack)) _ := inner
    exact .meets (.orElse verb) (.next within (.endIf closes) completes)
  | _ => cases phrase

theorem completes_last (finishes : Derives (.segment .openFinally) (around stack) last)
    (closes : d.verb? = some .endTry) (repeats : d.Closes name) (completes : Completes stack cs) :
    Completes (.guard name caught false :: stack) (last ++ d :: cs) := by
  cases finishes with
  | noSegment => exact .meets (.endTry closes repeats) completes
  | segment verb inner =>
    have within : Derives .items (around (.guard name caught true :: stack)) _ := inner
    exact .meets (.openFinally verb) (.next within (.endTry closes repeats) completes)

theorem completes_handler (handles : Derives (.segment .openCatch) (around stack) handler)
    (finishes : Derives (.segment .openFinally) (around stack) last)
    (closes : d.verb? = some .endTry) (repeats : d.Closes name) (completes : Completes stack cs) :
    Completes (.guard name false false :: stack) (handler ++ (last ++ d :: cs)) := by
  cases handles with
  | noSegment => exact completes_last finishes closes repeats completes
  | segment verb inner =>
    have tail : Completes (.guard name true false :: stack) (last ++ d :: cs) :=
      completes_last finishes closes repeats completes
    have within : Derives .items (around (.guard name true false :: stack)) _ := inner
    exact .meets (.openCatch verb) (tail.prepend within)

theorem Derives.shifts (items : Derives .items (around stack) (c :: body))
    (completes : Completes stack cs) :
    ∃ stack', Shifts c stack stack' ∧ Completes stack' (body ++ cs) := by
  cases items with
  | plain plain further => exact ⟨stack, .plain plain, completes.prepend further⟩
  | exit verb inside further => exact ⟨stack, .exit verb inside, completes.prepend further⟩
  | giveBack verb inside further => exact ⟨stack, .giveBack verb inside, completes.prepend further⟩
  | cond opens inner branches closes further =>
    have tail := completes_branches branches closes (completes.prepend further)
    have within : Derives .items (around (.cond false :: stack)) _ := inner
    exact ⟨_, .opens (.cond opens), by simpa using tail.prepend within⟩
  | guard opens inner handles finishes closes repeats further =>
    have tail := completes_handler handles finishes closes repeats (completes.prepend further)
    have within : Derives .items (around (.guard c.target false false :: stack)) _ := inner
    exact ⟨_, .opens (.guard opens), by simpa using tail.prepend within⟩
  | @loop _ _ _ kind _ _ opens inner closes further =>
    have within : Derives .items (around (.loop kind :: stack)) _ := inner
    have tail := Completes.next within (.endLoop closes) (completes.prepend further)
    exact ⟨_, .opens (.loop opens), by simpa using tail⟩
  | @function _ _ _ word _ _ opens named inner closes repeats further =>
    have within : Derives .items (around (.function word c.target :: stack)) _ := inner
    have tail := Completes.next within (.endFunction closes repeats) (completes.prepend further)
    exact ⟨_, .opens (.function opens named), by simpa using tail⟩

theorem Completes.shifts (completes : Completes stack (c :: cs)) :
    ∃ stack', Shifts c stack stack' ∧ Completes stack' cs := by
  generalize whole : c :: cs = all at completes
  cases completes with
  | done items =>
    subst whole
    have items : Derives .items (around []) (c :: cs) := items
    simpa using items.shifts (.done .done)
  | @next slot stack next d body rest items meets tail =>
    cases body with
    | nil =>
      obtain ⟨rfl, rfl⟩ := cons.inj whole
      exact ⟨_, .meets meets, tail⟩
    | cons first body =>
      obtain ⟨rfl, rfl⟩ := cons.inj whole
      exact items.shifts (.meets meets tail)

theorem Completes.split_cond {closed : Bool} (completes : Completes (.cond closed :: stack) cs) :
    ∃ body others d rest, cs = body ++ (others ++ d :: rest) ∧ Derives .items (around stack) body ∧
      Derives .branches (around stack) others ∧ (closed = true → others = []) ∧
        d.verb? = some .endIf ∧
      Completes stack rest := by
  generalize whole : Slot.cond closed :: stack = all at completes
  induction completes generalizing closed with
  | done => cases whole
  | @next slot stack' next c body rest items meets tail ih =>
    obtain ⟨rfl, rfl⟩ := cons.inj whole
    cases meets with
    | endIf verb => exact ⟨body, [], c, rest, rfl, items, .noBranch, fun _ => rfl, verb, tail⟩
    | elseIf verb =>
      obtain ⟨inner, others, d, rest, rfl, derives, branches, _, closes, after⟩ := ih rfl
      exact ⟨body, c :: (inner ++ others), d, rest, by simp, items, .elseIf verb derives branches,
        nofun, closes, after⟩
    | orElse verb =>
      obtain ⟨inner, others, d, rest, rfl, derives, _, none, closes, after⟩ := ih rfl
      obtain rfl := none rfl
      exact ⟨body, c :: inner, d, rest, by simp, items, .orElse verb derives, nofun, closes, after⟩

theorem Completes.split_guard {finished : Bool}
    (completes : Completes (.guard name caught finished :: stack) cs) :
    ∃ body handler last d rest, cs = body ++ (handler ++ (last ++ d :: rest)) ∧
      Derives .items (around stack) body ∧
      Derives (.segment .openCatch) (around stack) handler ∧ Derives (.segment .openFinally)
        (around stack) last ∧
      (caught = true ∨ finished = true → handler = []) ∧ (finished = true → last = []) ∧
        d.verb? = some .endTry ∧
      d.Closes name ∧ Completes stack rest := by
  generalize whole : Slot.guard name caught finished :: stack = all at completes
  induction completes generalizing caught finished with
  | done => cases whole
  | @next slot stack' next c body rest items meets tail ih =>
    obtain ⟨rfl, rfl⟩ := cons.inj whole
    cases meets with
    | endTry verb repeats =>
      exact ⟨body, [], [], c, rest, rfl, items, .noSegment, .noSegment, fun _ => rfl, fun _ => rfl,
        verb, repeats, tail⟩
    | openCatch verb =>
      obtain ⟨inner, handler, last, d, rest, rfl, derives, _, finishes, none, _, closes, repeats,
        after⟩ := ih rfl
      obtain rfl := none (.inl rfl)
      exact ⟨body, c :: inner, last, d, rest, by simp, items, .segment verb derives, finishes, by
        simp, nofun, closes, repeats, after⟩
    | openFinally verb =>
      obtain ⟨inner, handler, last, d, rest, rfl, derives, _, _, none, none', closes, repeats,
        after⟩ := ih rfl
      obtain rfl := none (.inr rfl)
      obtain rfl := none' rfl
      exact ⟨body, [], c :: inner, d, rest, by simp, items, .noSegment, .segment verb derives,
        fun _ => rfl, nofun, closes, repeats, after⟩

theorem Completes.opened (opened : slot.OpenedBy c) (completes : Completes (slot :: stack) cs) :
    ∃ item rest, c :: cs = item ++ rest ∧ Derives .items (around stack) item ∧
      Completes stack rest := by
  cases opened with
  | cond verb =>
    obtain ⟨body, others, d, rest, rfl, items, branches, _, closes, tail⟩ := completes.split_cond
    exact ⟨c :: (body ++ (others ++ [d])), rest, by simp, .cond verb items branches closes .done,
      tail⟩
  | guard verb =>
    obtain ⟨body, handler, last, d, rest, rfl, items, handles, finishes, _, _, closes,
      repeats, tail⟩ :=
      completes.split_guard
    exact ⟨c :: (body ++ (handler ++ (last ++ [d]))), rest, by simp,
      .guard verb items handles finishes closes repeats .done, tail⟩
  | loop verb =>
    cases completes with
    | @next _ _ _ d body rest items meets tail =>
      cases meets with
      | endLoop closes =>
        exact ⟨c :: (body ++ [d]), rest, by simp, .loop verb items closes .done, tail⟩
  | function verb named =>
    cases completes with
    | @next _ _ _ d body rest items meets tail =>
      cases meets with
      | endFunction closes repeats =>
        exact ⟨c :: (body ++ [d]), rest, by simp, .function verb named items closes repeats .done,
          tail⟩

theorem Completes.cons (shifts : Shifts c stack stack') (completes : Completes stack' cs) :
    Completes stack (c :: cs) := by
  cases shifts with
  | plain plain => exact completes.prepend (.plain plain .done)
  | exit verb inside => exact completes.prepend (.exit verb inside .done)
  | giveBack verb inside => exact completes.prepend (.giveBack verb inside .done)
  | opens opened =>
    obtain ⟨item, rest, split, items, tail⟩ := completes.opened opened
    rw [split]
    exact tail.prepend items
  | meets meets => exact .meets meets completes

end Stacks

namespace Scan

variable {s t : Scan} {i : Nat} {c : Command} {stack : List Slot} {slot : Slot}

theorem slots_cons {top : Opener} {rest : List Opener} (was : s.pending = top :: rest) :
    s.slots = top.form.slot :: rest.map fun top => top.form.slot := by
  rw [slots, was]
  rfl

theorem loop?_isSome (pending : List Opener) :
    (loop? pending).isSome = (around (pending.map fun top => top.form.slot)).loop := by
  induction pending with
  | nil => rfl
  | cons top rest ih =>
    obtain ⟨place, form⟩ := top
    cases form with
    | loop _ | function _ _ => rfl
    | cond _ _ | guard _ _ _ => exact ih

theorem function?_isSome (pending : List Opener) :
    (function? pending).isSome = (around (pending.map fun top => top.form.slot)).function := by
  induction pending with
  | nil => rfl
  | cons top rest ih =>
    obtain ⟨place, form⟩ := top
    cases form with
    | loop _ => exact ih
    | function _ _ => rfl
    | cond _ _ | guard _ _ _ => exact ih

theorem closesName_iff {name : String} : closesName c name = true ↔ c.Closes name := by
  simp [closesName, Command.Closes]

theorem Shift.slots {v : Option Verb} (shift : Shift s i c v t) (verb : c.verb? = v) :
    Shifts c s.slots t.slots := by
  cases shift with
  | pass plain pending _ =>
    have same : t.slots = s.slots := by rw [Scan.slots, Scan.slots, pending]
    rw [same]
    exact .plain (by rwa [verb])
  | enter fresh pending _ =>
    rw [slots_cons pending]
    cases fresh with
    | cond => exact .opens (.cond verb)
    | guard => exact .opens (.guard verb)
    | loop => exact .opens (.loop verb)
    | function _ named => exact .opens (.function verb named)
  | extend was grows =>
    rw [slots_cons was]
    cases grows with
    | elseIf => exact .meets (.elseIf verb)
    | orElse => exact .meets (.orElse verb)
    | openCatch => exact .meets (.openCatch verb)
    | openFinally => exact .meets (.openFinally verb)
  | @close _ _ form was closes =>
    rw [slots_cons was]
    cases form with
    | cond => exact .meets (.endIf verb)
    | guard => exact .meets (.endTry verb (closesName_iff.mp closes))
    | loop => exact .meets (.endLoop verb)
    | function => exact .meets (.endFunction verb (closesName_iff.mp closes))
  | leave exits inner =>
    refine .exit (by simpa [verb] using exits) ?_
    rw [Scan.slots, ← loop?_isSome, inner]
    rfl
  | giveBack inner =>
    refine .giveBack verb ?_
    rw [Scan.slots, ← function?_isSome, inner]
    rfl

theorem pending_of_slots {rest : List Slot} (slots : s.slots = slot :: rest) :
    ∃ place form below, s.pending = ⟨place, form⟩ :: below ∧ form.slot = slot ∧
      below.map (fun top => top.form.slot) = rest := by
  obtain ⟨top, below, was, first, others⟩ := map_eq_cons_iff.mp slots
  exact ⟨top.place, top.form, below, was, first, others⟩

theorem fresh_of_opened (opened : slot.OpenedBy c) :
    ∃ form : Form, form.Fresh c ∧ c.verb? = some form.opening ∧ form.slot = slot := by
  cases opened with
  | cond verb => exact ⟨_, .cond, verb, rfl⟩
  | guard verb => exact ⟨_, .guard, verb, rfl⟩
  | loop verb => exact ⟨_, .loop _, verb, rfl⟩
  | function verb named => exact ⟨_, .function _ named, verb, rfl⟩

theorem form_of_meets {form : Form} {next : Option Slot} (meets : slot.Meets c next)
    (own : form.slot = slot) (i : Nat) :
    (∃ v form', c.verb? = some v ∧ Form.Grows i v form form' ∧ next = some form'.slot) ∨
      c.verb? = some form.closing ∧ form.ClosedBy c ∧ next = none := by
  cases meets with
  | elseIf verb =>
    obtain ⟨elseIfs, rfl⟩ : ∃ elseIfs, form = .cond elseIfs none := by
      cases form <;> simp_all [Form.slot]
    exact .inl ⟨_, _, verb, .elseIf elseIfs, rfl⟩
  | orElse verb =>
    obtain ⟨elseIfs, rfl⟩ : ∃ elseIfs, form = .cond elseIfs none := by
      cases form <;> simp_all [Form.slot]
    exact .inl ⟨_, _, verb, .orElse elseIfs, rfl⟩
  | endIf verb =>
    obtain ⟨elseIfs, orElse, rfl⟩ : ∃ elseIfs orElse, form = .cond elseIfs orElse := by
      cases form <;> simp_all [Form.slot]
    exact .inr ⟨verb, trivial, rfl⟩
  | @openCatch name verb =>
    obtain rfl : form = .guard name none none := by cases form <;> simp_all [Form.slot]
    exact .inl ⟨_, _, verb, .openCatch name, rfl⟩
  | @openFinally name caught verb =>
    obtain ⟨catchAt, rfl, rfl⟩ :
        ∃ catchAt : Option Nat, form = .guard name catchAt none ∧ catchAt.isSome = caught := by
      cases form <;> simp_all [Form.slot]
    exact .inl ⟨_, _, verb, .openFinally name catchAt, rfl⟩
  | @endTry name _ _ verb repeats =>
    obtain ⟨catchAt, finallyAt, rfl⟩ :
        ∃ catchAt finallyAt, form = .guard name catchAt finallyAt := by
      cases form <;> simp_all [Form.slot]
    exact .inr ⟨verb, closesName_iff.mpr repeats, rfl⟩
  | @endLoop kind verb =>
    obtain rfl : form = .loop kind := by cases form <;> simp_all [Form.slot]
    exact .inr ⟨verb, trivial, rfl⟩
  | @endFunction word name verb repeats =>
    obtain rfl : form = .function word name := by cases form <;> simp_all [Form.slot]
    exact .inr ⟨verb, closesName_iff.mpr repeats, rfl⟩

theorem verb_of_shifts {v : Verb} (verb : c.verb? = some v) (shifts : Shifts c s.slots stack) :
    ∃ t, s.verb i c v = .ok t ∧ t.slots = stack := by
  generalize before : s.slots = whole at shifts
  cases shifts with
  | plain plain =>
    have role := plain v verb
    subst before
    cases v with
    | label | goto | gotoIf | skipNext | call | exitTest | load => exact ⟨_, rfl, rfl⟩
    | _ => cases role
  | exit given inside =>
    subst before
    rw [slots, ← loop?_isSome] at inside
    obtain ⟨top, inner⟩ := Option.isSome_iff_exists.mp inside
    have jumps : s.jump i = .ok (s.link i top.place) := by simp [jump, inner]
    rcases given with given | given <;>
    · cases verb.symm.trans given
      exact ⟨_, jumps, rfl⟩
  | giveBack given inside =>
    subst before
    cases verb.symm.trans given
    rw [slots, ← function?_isSome] at inside
    obtain ⟨top, inner⟩ := Option.isSome_iff_exists.mp inside
    have returns : s.giveBack i = .ok (s.link i top.place) := by simp [giveBack, inner]
    exact ⟨_, returns, rfl⟩
  | opens opened =>
    subst before
    obtain ⟨form, fresh, given, rfl⟩ := fresh_of_opened opened
    cases verb.symm.trans given
    obtain ⟨t, done, pending⟩ := verb_enter fresh
    exact ⟨t, done, slots_cons pending⟩
  | meets meets =>
    obtain ⟨place, form, below, was, own, rfl⟩ := pending_of_slots before
    rcases form_of_meets meets own i with ⟨w, form', given, grows, rfl⟩ | ⟨given, closes, rfl⟩
    · cases verb.symm.trans given
      exact ⟨_, verb_extend was grows, rfl⟩
    · cases verb.symm.trans given
      exact ⟨_, verb_close was closes, rfl⟩

theorem step_iff : (∃ t, s.step i c = .ok t ∧ t.slots = stack) ↔
    (c.verb?.isSome = true → c.waits = false) ∧ Shifts c s.slots stack := by
  unfold step
  cases verb : c.verb? with
  | none =>
    constructor
    · rintro ⟨t, done, rfl⟩
      cases done
      exact ⟨nofun, .plain (by simp [verb])⟩
    · rintro ⟨_, shifts⟩
      refine ⟨s, rfl, ?_⟩
      generalize s.slots = whole at shifts
      cases shifts with
      | plain _ | exit _ _ | giveBack _ _ => rfl
      | opens opened => cases opened <;> simp_all
      | meets meets => cases meets <;> simp_all
  | some v =>
    constructor
    · rintro ⟨t, done, rfl⟩
      dsimp only at done
      split at done
      · cases done
      · rename_i goes
        exact ⟨fun _ => by simpa using goes, (shift_verb done).slots verb⟩
    · rintro ⟨goes, shifts⟩
      rw [goes rfl]
      exact verb_of_shifts verb shifts

theorem run_iff (s : Scan) (i : Nat) (cs : List Command) :
    (∃ t, s.run i cs = .ok t ∧ t.pending = []) ↔
    (∀ c ∈ cs, c.verb?.isSome = true → c.waits = false) ∧ Completes s.slots cs := by
  induction cs generalizing s i with
  | nil =>
    constructor
    · rintro ⟨t, done, closed⟩
      cases done
      rw [slots, closed]
      exact ⟨by simp, .done .done⟩
    · rintro ⟨_, completes⟩
      refine ⟨s, rfl, ?_⟩
      generalize before : s.slots = whole at completes
      generalize left : ([] : List Command) = rest at completes
      cases completes with
      | done _ => exact map_eq_nil_iff.mp before
      | next => simp at left
  | cons c rest ih =>
    have unfolded : s.run i (c :: rest) = (s.step i c).bind fun t => t.run (i + 1) rest := rfl
    rw [unfolded]
    constructor
    · rintro ⟨t, done, closed⟩
      cases first : s.step i c with
      | error e => rw [first] at done; cases done
      | ok s' =>
        rw [first] at done
        obtain ⟨goes, shifts⟩ := step_iff.mp ⟨s', first, rfl⟩
        obtain ⟨others, completes⟩ := (ih s' (i + 1)).mp ⟨t, done, closed⟩
        exact ⟨forall_mem_cons.mpr ⟨goes, others⟩, completes.cons shifts⟩
    · rintro ⟨goes, completes⟩
      obtain ⟨first, others⟩ := forall_mem_cons.mp goes
      obtain ⟨stack, shifts, completes⟩ := completes.shifts
      obtain ⟨s', done, rfl⟩ := step_iff.mpr ⟨first, shifts⟩
      rw [done]
      exact (ih s' (i + 1)).mpr ⟨others, completes⟩

end Scan

theorem Completes.of_filter {stack : List Slot}
    (completes : Completes stack (cs.filter Command.executable)) : Completes stack cs := by
  induction cs generalizing stack with
  | nil => exact completes
  | cons c rest ih =>
    rw [filter_cons] at completes
    split at completes
    · obtain ⟨stack', shifts, tail⟩ := completes.shifts
      exact (ih tail).cons shifts
    · rename_i comment
      refine (ih completes).cons (.plain fun v verb => ?_)
      exact absurd (Command.executable_of_verb verb) comment

theorem derives_filter_iff :
    Derives .items {} (cs.filter Command.executable) ↔ Derives .items {} cs := by
  refine ⟨fun items => ?_, Derives.filter⟩
  cases Completes.of_filter (.done items) with
  | done items => exact items

theorem find_ok_iff (cs : List Command) :
    (∃ o, Outline.find cs = .ok o) ↔ ∃ t, Scan.run {} 0 cs = .ok t ∧ t.pending = [] := by
  constructor
  · rintro ⟨o, found⟩
    exact ⟨⟨[], o⟩, scan_of_find found, rfl⟩
  · rintro ⟨t, done, closed⟩
    refine ⟨t.outline, ?_⟩
    simp only [Outline.find, done, bind, Except.bind, closed]
    rfl

/-- A script is well nested if no control command waits and its commands derive from the grammar. -/
def WellNested (cs : List Command) : Prop :=
  (∀ c ∈ cs, c.verb?.isSome = true → c.waits = false) ∧ Derives .items {} cs

theorem find_iff_wellNested (cs : List Command) :
    (∃ o, Outline.find cs = .ok o) ↔ WellNested cs := by
  rw [find_ok_iff, Scan.run_iff]
  refine and_congr_right fun _ => ⟨fun completes => ?_, .done⟩
  generalize empty : ({} : Scan).slots = stack at completes
  cases completes with
  | done items => exact items
  | next => cases empty

theorem wellNested_filter_iff : WellNested (cs.filter Command.executable) ↔ WellNested cs := by
  refine and_congr ⟨fun goes c mem control => ?_, fun goes c mem => goes c (mem_of_mem_filter mem)⟩
    derives_filter_iff
  obtain ⟨v, verb⟩ := Option.isSome_iff_exists.mp control
  exact goes c (mem_filter.mpr ⟨mem, Command.executable_of_verb verb⟩) control

/-- A script has an outline exactly if it is well nested, comments left out; any other is refused as
misnested. -/
theorem outline_iff_wellNested (cs : List Command) :
    ((∃ o, Outline.ofCommands cs = .ok o) ↔ WellNested (cs.filter Command.executable)) ∧
    ((∃ e, Outline.ofCommands cs = .error e ∧ e.kind = .structural) ↔
      ¬ WellNested (cs.filter Command.executable)) := by
  rw [wellNested_filter_iff, ← find_iff_wellNested]
  unfold Outline.ofCommands
  cases Outline.find cs with
  | ok o => exact ⟨⟨fun _ => ⟨o, rfl⟩, fun _ => ⟨o, rfl⟩⟩, nofun, fun none => absurd ⟨o, rfl⟩ none⟩
  | error m => exact ⟨⟨nofun, nofun⟩, fun _ => nofun, fun _ => ⟨m.error cs, rfl, rfl⟩⟩

end Runbook
