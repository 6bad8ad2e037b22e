import Mathlib.Data.List.Basic
import Runbook.Outline.Scan

/-!
The blocks that are open at a place. One command of a script opens a block, closes the innermost
one, adds a part to it, or leaves all of them as they are; a block that is open somewhere was opened
where just the blocks around it were open.
-/

namespace Runbook

open List

def verbAt (cs : List Command) (i : Nat) : Option Verb := cs[i]?.bind Command.verb?

section

variable {cs : List Command} {c : Command} {i : Nat} {v : Verb} (has : cs[i]? = some c)

include has

theorem verbAt_at : verbAt cs i = c.verb? := by rw [verbAt, has, Option.bind_some]

theorem verbAt_of_at (verb : c.verb? = some v) : verbAt cs i = some v := (verbAt_at has).trans verb

theorem verb_of_at (verb : verbAt cs i = some v) : c.verb? = some v :=
  (verbAt_at has).symm.trans verb

end

theorem Command.executable_of_verb {c : Command} {v : Verb} (verb : c.verb? = some v) :
    c.executable = true := by
  unfold Command.verb? at verb
  split at verb
  · assumption
  · cases verb

inductive Role
  | plain
  | opening
  | part
  | closing
  | exit
  | giveBack
  deriving DecidableEq, Repr

def Verb.role : Verb → Role
  | .label | .goto | .gotoIf | .skipNext | .call | .exitTest | .load _ => .plain
  | .openIf | .openTry | .openLoop _ | .openFunction _ => .opening
  | .elseIf | .orElse | .openCatch | .openFinally => .part
  | .endIf | .endTry | .endLoop _ | .endFunction _ => .closing
  | .again | .leave => .exit
  | .giveBack => .giveBack

/-- The commands that go somewhere without regard to blocks. -/
def Verb.jumps : Verb → Bool
  | .goto | .gotoIf | .skipNext => true
  | _ => false

def hasJump (cs : List Command) : Bool := cs.any fun c => c.verb?.any Verb.jumps

theorem hasJump_of_verbAt {cs : List Command} {i : Nat} {v : Verb} (verb : verbAt cs i = some v)
    (jumps : v.jumps = true) : hasJump cs = true := by
  obtain ⟨c, has, verb⟩ := Option.bind_eq_some_iff.mp verb
  exact any_eq_true.mpr ⟨c, mem_of_getElem? has, by simp [verb, jumps]⟩

namespace Form

def opening : Form → Verb
  | .cond _ _ => .openIf
  | .guard _ _ _ => .openTry
  | .loop kind => .openLoop kind
  | .function word _ => .openFunction word

def closing : Form → Verb
  | .cond _ _ => .endIf
  | .guard _ _ _ => .endTry
  | .loop kind => .endLoop kind
  | .function word _ => .endFunction word

def parts : Form → List (Nat × Verb)
  | .cond elseIfs orElse => elseIfs.map (·, .elseIf) ++ (orElse.map (·, .orElse)).toList
  | .guard _ catchAt finallyAt =>
    (catchAt.map (·, .openCatch)).toList ++ (finallyAt.map (·, .openFinally)).toList
  | _ => []

@[simp] theorem role_opening {form : Form} : form.opening.role = .opening := by cases form <;> rfl

@[simp] theorem role_closing (form : Form) : form.closing.role = .closing := by cases form <;> rfl

theorem role_of_mem_parts {form : Form} {i : Nat} {v : Verb} (mem : (i, v) ∈ form.parts) :
    v.role = .part := by
  cases form with
  | cond elseIfs orElse =>
    simp only [parts, mem_append, mem_map, Option.mem_toList, Option.map_eq_some_iff] at mem
    rcases mem with ⟨_, _, same⟩ | ⟨_, _, same⟩ <;> cases same <;> rfl
  | guard name catchAt finallyAt =>
    simp only [parts, mem_append, Option.mem_toList, Option.map_eq_some_iff] at mem
    rcases mem with ⟨_, _, same⟩ | ⟨_, _, same⟩ <;> cases same <;> rfl
  | loop | function => cases mem

theorem isLoop_iff (form : Form) : form.isLoop = true ↔ ∃ kind, form.opening = .openLoop kind := by
  cases form <;> simp [isLoop, opening]

theorem isFunction_iff (form : Form) :
    form.isFunction = true ↔ ∃ word, form.opening = .openFunction word := by
  cases form <;> simp [isFunction, opening]

end Form

inductive Form.Fresh (c : Command) : Form → Prop
  | cond : Fresh c (.cond [] none)
  | guard : Fresh c (.guard c.target none none)
  | loop (kind : LoopKind) : Fresh c (.loop kind)
  | function (word : FunctionWord) (named : c.target ≠ "") : Fresh c (.function word c.target)

inductive Form.Grows (i : Nat) : Verb → Form → Form → Prop
  | elseIf (elseIfs : List Nat) : Grows i .elseIf (.cond elseIfs none) (.cond (elseIfs ++ [i]) none)
  | orElse (elseIfs : List Nat) : Grows i .orElse (.cond elseIfs none) (.cond elseIfs (some i))
  | openCatch (name : String) :
      Grows i .openCatch (.guard name none none) (.guard name (some i) none)
  | openFinally (name : String) (catchAt : Option Nat) :
      Grows i .openFinally (.guard name catchAt none) (.guard name catchAt (some i))

def Form.ClosedBy (c : Command) : Form → Prop
  | .guard name _ _ | .function _ name => Scan.closesName c name = true
  | _ => True

section Forms

variable {c : Command} {i : Nat} {v : Verb} {form form' : Form}

theorem Form.Fresh.parts (fresh : form.Fresh c) : form.parts = [] := by cases fresh <;> rfl

theorem Form.Grows.opening (grows : Form.Grows i v form form') : form'.opening = form.opening := by
  cases grows <;> rfl

theorem Form.Grows.role (grows : Form.Grows i v form form') : v.role = .part := by
  cases grows <;> rfl

theorem Form.Grows.parts (grows : Form.Grows i v form form') :
    form'.parts = form.parts ++ [(i, v)] := by
  cases grows <;> simp [Form.parts]

end Forms

namespace Scan

/-- What one command does to the open blocks and to the table. -/
inductive Shift (s : Scan) (i : Nat) (c : Command) : Option Verb → Scan → Prop
  | pass {v} {t : Scan} (plain : ∀ w, v = some w → w.role = .plain)
      (pending : t.pending = s.pending) (blocks : t.outline.blocks = s.outline.blocks) :
      Shift s i c v t
  | enter {form : Form} {t : Scan} (fresh : form.Fresh c)
      (pending : t.pending = ⟨i, form⟩ :: s.pending)
      (blocks : t.outline.blocks = s.outline.blocks) : Shift s i c (some form.opening) t
  | extend {place rest form form' v} (was : s.pending = ⟨place, form⟩ :: rest)
      (grows : Form.Grows i v form form') :
      Shift s i c (some v) (s.extend i ⟨place, form⟩ form' rest)
  | close {place rest} {form : Form} (was : s.pending = ⟨place, form⟩ :: rest)
      (closes : form.ClosedBy c) : Shift s i c (some form.closing) (s.close i ⟨place, form⟩ rest)
  | leave {top : Opener} {v} (exits : v = .again ∨ v = .leave)
      (inner : loop? s.pending = some top) : Shift s i c (some v) (s.link i top.place)
  | giveBack {top : Opener} (inner : function? s.pending = some top) :
      Shift s i c (some .giveBack) (s.link i top.place)

section Steps

variable {s t : Scan} {i : Nat} {c : Command} {v : Verb} {word : FunctionWord} {form : Form}
  {place : Nat} {rest : List Opener}

theorem shift_elseIf (done : s.elseIf i = .ok t) : Shift s i c (some .elseIf) t := by
  obtain ⟨pending, o⟩ := s
  match pending with
  | [] => cases done
  | ⟨place, .cond elseIfs none⟩ :: rest => cases done; exact .extend rfl (.elseIf elseIfs)
  | ⟨_, .cond _ (some _)⟩ :: _ | ⟨_, .guard _ _ _⟩ :: _ | ⟨_, .loop _⟩ :: _
  | ⟨_, .function _ _⟩ :: _ => cases done

theorem shift_orElse (done : s.orElse i = .ok t) : Shift s i c (some .orElse) t := by
  obtain ⟨pending, o⟩ := s
  match pending with
  | [] => cases done
  | ⟨place, .cond elseIfs none⟩ :: rest => cases done; exact .extend rfl (.orElse elseIfs)
  | ⟨_, .cond _ (some _)⟩ :: _ | ⟨_, .guard _ _ _⟩ :: _ | ⟨_, .loop _⟩ :: _
  | ⟨_, .function _ _⟩ :: _ => cases done

theorem shift_endIf (done : s.endIf i = .ok t) : Shift s i c (some .endIf) t := by
  obtain ⟨pending, o⟩ := s
  match pending with
  | [] => cases done
  | ⟨place, .cond elseIfs orElse⟩ :: rest =>
    cases done; exact @Shift.close _ _ _ place rest (.cond elseIfs orElse) rfl trivial
  | ⟨_, .guard _ _ _⟩ :: _ | ⟨_, .loop _⟩ :: _ | ⟨_, .function _ _⟩ :: _ => cases done

theorem shift_openCatch (done : s.openCatch i = .ok t) : Shift s i c (some .openCatch) t := by
  obtain ⟨pending, o⟩ := s
  match pending with
  | [] => cases done
  | ⟨place, .guard name none none⟩ :: rest => cases done; exact .extend rfl (.openCatch name)
  | ⟨_, .guard _ (some _) _⟩ :: _ | ⟨_, .guard _ none (some _)⟩ :: _ | ⟨_, .cond _ _⟩ :: _
  | ⟨_, .loop _⟩ :: _
  | ⟨_, .function _ _⟩ :: _ => cases done

theorem shift_openFinally (done : s.openFinally i = .ok t) : Shift s i c (some .openFinally) t := by
  obtain ⟨pending, o⟩ := s
  match pending with
  | [] => cases done
  | ⟨place, .guard name catchAt none⟩ :: rest =>
    cases done; exact .extend rfl (.openFinally name catchAt)
  | ⟨_, .guard _ _ (some _)⟩ :: _ | ⟨_, .cond _ _⟩ :: _ | ⟨_, .loop _⟩ :: _
  | ⟨_, .function _ _⟩ :: _ => cases done

theorem shift_endTry (done : s.endTry i c = .ok t) : Shift s i c (some .endTry) t := by
  obtain ⟨pending, o⟩ := s
  match pending with
  | [] => cases done
  | ⟨place, .guard name catchAt finallyAt⟩ :: rest =>
    change (if closesName c name = true then _ else _) = _ at done
    split at done
    · rename_i repeats
      cases done
      exact @Shift.close _ _ _ place rest (.guard name catchAt finallyAt) rfl repeats
    · cases done
  | ⟨_, .cond _ _⟩ :: _ | ⟨_, .loop _⟩ :: _ | ⟨_, .function _ _⟩ :: _ => cases done

theorem shift_endLoop {kind : LoopKind} (done : s.endLoop i kind = .ok t) :
    Shift s i c (some (.endLoop kind)) t := by
  unfold endLoop at done
  split at done
  · cases done
  · rename_i top rest was
    obtain ⟨place, form⟩ := top
    split at done
    · rename_i same
      cases same
      cases done
      exact @Shift.close _ _ _ place rest (.loop kind) was trivial
    · cases done

theorem shift_jump (exits : v = .again ∨ v = .leave) (done : s.jump i = .ok t) :
    Shift s i c (some v) t := by
  unfold jump at done
  split at done
  · rename_i top inner
    cases done
    exact .leave exits inner
  · cases done

theorem shift_openFunction (done : s.openFunction i c word = .ok t) :
    Shift s i c (some (.openFunction word)) t := by
  unfold openFunction at done
  split at done
  · cases done
  · rename_i named
    cases done
    exact @Shift.enter _ _ _ (.function word c.target) _
      (.function word (by simpa using named)) rfl rfl

theorem shift_giveBack (done : s.giveBack i = .ok t) : Shift s i c (some .giveBack) t := by
  unfold giveBack at done
  split at done
  · rename_i top inner
    cases done
    exact .giveBack inner
  · cases done

theorem shift_endFunction (done : s.endFunction i c word = .ok t) :
    Shift s i c (some (.endFunction word)) t := by
  obtain ⟨pending, o⟩ := s
  match pending with
  | [] => cases done
  | ⟨place, .function opened name⟩ :: rest =>
    change (if opened = word ∧ closesName c name = true then _ else _) = _ at done
    split at done
    · rename_i same
      obtain ⟨rfl, repeats⟩ := same
      cases done
      exact @Shift.close _ _ _ place rest (.function opened name) rfl repeats
    · cases done
  | ⟨_, .cond _ _⟩ :: _ | ⟨_, .guard _ _ _⟩ :: _ | ⟨_, .loop _⟩ :: _ => cases done

theorem shift_verb (done : s.verb i c v = .ok t) : Shift s i c (some v) t := by
  have pass {w : Verb} (plain : w.role = .plain) (pending : t.pending = s.pending)
      (blocks : t.outline.blocks = s.outline.blocks) : Shift s i c (some w) t := by
    refine .pass ?_ pending blocks
    rintro _ ⟨⟩
    exact plain
  cases v with
  | label | goto | gotoIf | skipNext | call | exitTest | load => cases done; exact pass rfl rfl rfl
  | openIf => cases done; exact @Shift.enter _ _ _ (.cond [] none) _ .cond rfl rfl
  | elseIf => exact shift_elseIf done
  | orElse => exact shift_orElse done
  | endIf => exact shift_endIf done
  | openTry => cases done; exact @Shift.enter _ _ _ (.guard c.target none none) _ .guard rfl rfl
  | openCatch => exact shift_openCatch done
  | openFinally => exact shift_openFinally done
  | endTry => exact shift_endTry done
  | openLoop kind => cases done; exact @Shift.enter _ _ _ (.loop kind) _ (.loop kind) rfl rfl
  | endLoop kind => exact shift_endLoop done
  | again => exact shift_jump (.inl rfl) done
  | leave => exact shift_jump (.inr rfl) done
  | openFunction word => exact shift_openFunction done
  | giveBack => exact shift_giveBack done
  | endFunction word => exact shift_endFunction done

theorem shift_step (done : s.step i c = .ok t) : Shift s i c c.verb? t := by
  unfold step at done
  split at done
  · rename_i none
    cases done
    rw [none]
    exact .pass nofun rfl rfl
  · rename_i v some
    rw [some]
    split at done
    · cases done
    · exact shift_verb done

theorem verb_enter (fresh : form.Fresh c) :
    ∃ t, s.verb i c form.opening = .ok t ∧ t.pending = ⟨i, form⟩ :: s.pending := by
  cases fresh with
  | cond | guard | loop => exact ⟨_, rfl, rfl⟩
  | function word named =>
    have opens : s.openFunction i c word = .ok
        ((s.declare c.target i).enter i (.function word c.target)) := by
      simp [openFunction, named]
    exact ⟨_, opens, rfl⟩

theorem verb_extend {form' : Form} (was : s.pending = ⟨place, form⟩ :: rest)
    (grows : Form.Grows i v form form') :
    s.verb i c v = .ok (s.extend i ⟨place, form⟩ form' rest) := by
  cases grows <;> simp [verb, elseIf, orElse, openCatch, openFinally, was]

theorem verb_close (was : s.pending = ⟨place, form⟩ :: rest) (closes : form.ClosedBy c) :
    s.verb i c form.closing = .ok (s.close i ⟨place, form⟩ rest) := by
  cases form <;> simp_all [verb, Form.closing, Form.ClosedBy, endIf, endTry, endLoop, endFunction]

end Steps

theorem run_append (s : Scan) (i : Nat) (xs ys : List Command) :
    s.run i (xs ++ ys) = (s.run i xs).bind fun t => t.run (i + xs.length) ys := by
  induction xs generalizing s i with
  | nil => rfl
  | cons c rest ih =>
    have place : i + (c :: rest).length = i + 1 + rest.length := by simp only [length_cons]; omega
    rw [place]
    simp only [cons_append, run]
    cases s.step i c with
    | error e => rfl
    | ok t => exact ih t (i + 1)

def before (cs : List Command) (i : Nat) : Except Misnesting Scan := run {} 0 (cs.take i)

theorem before_succ {cs : List Command} {i : Nat} {c : Command} (given : cs[i]? = some c) :
    before cs (i + 1) = (before cs i).bind fun s => s.step i c := by
  have bound : i < cs.length := (List.getElem?_eq_some_iff.mp given).1
  have last : cs.take (i + 1) = cs.take i ++ [c] := by
    rw [take_add_one, given]
    rfl
  have size : (cs.take i).length = i := by
    rw [length_take]
    omega
  rw [before, last, run_append, size, Nat.zero_add, ← before]
  cases before cs i with
  | error e => rfl
  | ok s =>
    simp only [Except.bind, run]
    cases s.step i c <;> rfl

end Scan

def opens (cs : List Command) (i : Nat) : List Nat :=
  match Scan.before cs i with
  | .ok s => s.pending.map Opener.place
  | .error _ => []

theorem opens_zero (cs : List Command) : opens cs 0 = [] := rfl

section Found

variable {cs : List Command} {o : Outline} {i q : Nat} {s : Scan} {v : Verb}

section

variable (found : Outline.find cs = .ok o)

include found

theorem scan_of_find : Scan.run {} 0 cs = .ok ⟨[], o⟩ := by
  unfold Outline.find at found
  cases whole : Scan.run {} 0 cs with
  | error e => rw [whole] at found; cases found
  | ok s =>
    rw [whole] at found
    obtain ⟨pending, outline⟩ := s
    cases pending with
    | nil => cases found; rfl
    | cons top rest => cases found

theorem before_ok (i : Nat) : ∃ s, Scan.before cs i = .ok s := by
  have whole := scan_of_find found
  rw [← take_append_drop i cs, Scan.run_append] at whole
  cases part : Scan.run {} 0 (cs.take i) with
  | error e => rw [part] at whole; cases whole
  | ok s => exact ⟨s, part⟩

theorem before_end (beyond : cs.length ≤ i) : Scan.before cs i = .ok ⟨[], o⟩ := by
  rw [Scan.before, take_of_length_le beyond]
  exact scan_of_find found

theorem opens_end (beyond : cs.length ≤ i) : opens cs i = [] := by
  rw [opens, before_end found beyond]
  rfl

end

theorem opens_of_before (scanned : Scan.before cs i = .ok s) :
    opens cs i = s.pending.map Opener.place := by
  rw [opens, scanned]

theorem shift_at (found : Outline.find cs = .ok o) (bound : i < cs.length) :
    ∃ s t, Scan.before cs i = .ok s ∧ Scan.before cs (i + 1) = .ok t ∧
      Scan.Shift s i cs[i] (verbAt cs i) t := by
  obtain ⟨s, scanned⟩ := before_ok found i
  obtain ⟨t, next⟩ := before_ok found (i + 1)
  have given : cs[i]? = some cs[i] := List.getElem?_eq_getElem bound
  refine ⟨s, t, scanned, next, ?_⟩
  rw [Scan.before_succ given, scanned] at next
  have verb : verbAt cs i = (cs[i]).verb? := by rw [verbAt, given]; rfl
  rw [verb]
  exact Scan.shift_step next

theorem lt_length_of_verbAt (verb : verbAt cs i = some v) : i < cs.length := by
  by_contra beyond
  rw [verbAt, List.getElem?_eq_none (by omega)] at verb
  cases verb

theorem opens_shift {c : Command} {t : Scan} {v : Option Verb} (shift : Scan.Shift s i c v t)
    (scanned : Scan.before cs i = .ok s) (next : Scan.before cs (i + 1) = .ok t) :
    (v.map Verb.role = some .opening ∧ opens cs (i + 1) = i :: opens cs i) ∨
    (v.map Verb.role = some .closing ∧ ∃ q, opens cs i = q :: opens cs (i + 1)) ∨
    (v.map Verb.role ≠ some .opening ∧ v.map Verb.role ≠ some .closing ∧
      opens cs (i + 1) = opens cs i) := by
  rw [opens_of_before scanned, opens_of_before next]
  cases shift with
  | pass plain pending blocks =>
    refine .inr (.inr ⟨?_, ?_, by rw [pending]⟩) <;>
    · cases v with
      | none => simp
      | some w => simp [plain w rfl]
  | enter fresh pending blocks => exact .inl ⟨by simp, by rw [pending]; rfl⟩
  | extend was grows =>
    have part := grows.role
    exact .inr (.inr ⟨by simp [part], by simp [part], by rw [was]; rfl⟩)
  | close was _ => exact .inr (.inl ⟨by simp, _, by rw [was]; rfl⟩)
  | leave exits inner =>
    refine .inr (.inr ?_)
    rcases exits with rfl | rfl <;> exact ⟨by simp [Verb.role], by simp [Verb.role], rfl⟩
  | giveBack inner => exact .inr (.inr ⟨by simp [Verb.role], by simp [Verb.role], rfl⟩)

section

variable (found : Outline.find cs = .ok o)

include found

theorem opens_opening (verb : verbAt cs i = some v) (opening : v.role = .opening) :
    opens cs (i + 1) = i :: opens cs i := by
  obtain ⟨s, t, scanned, next, shift⟩ := shift_at found (lt_length_of_verbAt verb)
  rw [verb] at shift
  rcases opens_shift shift scanned next with ⟨_, enters⟩ | ⟨closing, _⟩ | ⟨other, _, _⟩
  · exact enters
  · simp [opening] at closing
  · simp [opening] at other

theorem opens_same (inside : ∀ v, verbAt cs i = some v → v.role ≠ .opening ∧ v.role ≠ .closing) :
    opens cs (i + 1) = opens cs i := by
  by_cases bound : i < cs.length
  · obtain ⟨s, t, scanned, next, shift⟩ := shift_at found bound
    cases verb : verbAt cs i with
    | none =>
      rw [verb] at shift
      rcases opens_shift shift scanned next with ⟨opening, _⟩ | ⟨closing, _⟩ | ⟨_, _, same⟩
      · cases opening
      · cases closing
      · exact same
    | some v =>
      rw [verb] at shift
      rcases opens_shift shift scanned next with ⟨opening, _⟩ | ⟨closing, _⟩ | ⟨_, _, same⟩
      · exact absurd (Option.some.inj opening) (inside v verb).1
      · exact absurd (Option.some.inj closing) (inside v verb).2
      · exact same
  · rw [opens_end found (by omega), opens_end found (by omega)]

theorem opens_succ :
    opens cs (i + 1) = i :: opens cs i ∨ (∃ q, opens cs i = q :: opens cs (i + 1)) ∨
      opens cs (i + 1) = opens cs i := by
  by_cases bound : i < cs.length
  · obtain ⟨s, t, scanned, next, shift⟩ := shift_at found bound
    rcases opens_shift shift scanned next with ⟨_, enters⟩ | ⟨_, leaves⟩ | ⟨_, _, same⟩
    · exact .inl enters
    · exact .inr (.inl leaves)
    · exact .inr (.inr same)
  · exact .inr (.inr (by rw [opens_end found (by omega), opens_end found (by omega)]))

theorem opens_sorted (i : Nat) : (opens cs i).Pairwise (· > ·) ∧ ∀ q ∈ opens cs i, q < i := by
  induction i with
  | zero => simp [opens_zero]
  | succ i ih =>
    obtain ⟨sorted, below⟩ := ih
    rcases opens_succ found with enters | ⟨q, leaves⟩ | same
    · rw [enters]
      refine ⟨pairwise_cons.mpr ⟨below, sorted⟩, ?_⟩
      intro q mem
      rcases mem_cons.mp mem with rfl | mem
      · omega
      · have := below q mem
        omega
    · rw [leaves] at sorted below
      refine ⟨(pairwise_cons.mp sorted).2, ?_⟩
      intro r mem
      have := below r (mem_cons_of_mem q mem)
      omega
    · rw [same]
      refine ⟨sorted, ?_⟩
      intro q mem
      have := below q mem
      omega

theorem lt_of_mem_opens (mem : q ∈ opens cs i) : q < i :=
  (opens_sorted found i).2 q mem

theorem opens_split (mem : q ∈ opens cs i) : ∃ inner, opens cs i = inner ++ q :: opens cs q := by
  induction i with
  | zero => cases mem
  | succ i ih =>
    rcases opens_succ found with enters | ⟨r, leaves⟩ | same
    · rw [enters] at mem ⊢
      rcases mem_cons.mp mem with rfl | mem
      · exact ⟨[], rfl⟩
      · obtain ⟨inner, split⟩ := ih mem
        exact ⟨i :: inner, by rw [split]; rfl⟩
    · have later : q ∈ opens cs i := by rw [leaves]; exact mem_cons_of_mem r mem
      obtain ⟨inner, split⟩ := ih later
      cases inner with
      | nil =>
        -- the block that ends here would be open behind its own end
        have sorted := (opens_sorted found i).1
        rw [leaves] at sorted split
        have same : r = q := (cons.inj split).1
        have := (pairwise_cons.mp sorted).1 q mem
        omega
      | cons top inner =>
        rw [leaves] at split
        exact ⟨inner, (cons.inj split).2⟩
    · rw [same] at mem ⊢
      exact ih mem

theorem opens_tail {rest : List Nat} (top : opens cs i = q :: rest) : rest = opens cs q := by
  have mem : q ∈ opens cs i := by rw [top]; exact mem_cons_self
  obtain ⟨inner, split⟩ := opens_split found mem
  cases inner with
  | nil => rw [top] at split; exact (cons.inj split).2
  | cons first inner =>
    have sorted := (opens_sorted found i).1
    rw [top] at split sorted
    have same : q = first := (cons.inj split).1
    have later : q ∈ rest := by rw [(cons.inj split).2]; simp
    have := (pairwise_cons.mp sorted).1 q later
    omega

end

end Found

end Runbook
