import Mathlib.Order.Hom.Basic
import Runbook.Outline.Region
import Runbook.Outline.Scan

namespace Runbook

open List

/-- Comments to put into a script: those at `i` come before the command at the place `i`, and those
at the end of the script behind all commands. -/
abbrev Notes := Nat → List Command

namespace Notes

def after (n : Notes) : Notes := fun i => n (i + 1)

def insert (n : Notes) : List Command → List Command
  | [] => n 0
  | c :: rest => n 0 ++ c :: insert n.after rest

def shift (n : Notes) : Nat → Nat
  | 0 => (n 0).length
  | i + 1 => (n 0).length + 1 + shift n.after i

theorem shift_lt_succ (n : Notes) (i : Nat) : n.shift i < n.shift (i + 1) := by
  induction i generalizing n with
  | zero => simp only [shift]; omega
  | succ i ih =>
    have later := ih n.after
    simp only [shift] at later ⊢
    omega

def places (n : Notes) : Nat ↪o Nat :=
  .ofStrictMono n.shift (strictMono_nat_of_lt_succ n.shift_lt_succ)

def Silent (n : Notes) : Prop := ∀ i, ∀ c ∈ n i, c.executable = false

theorem Silent.after {n : Notes} (silent : n.Silent) : n.after.Silent := fun i => silent (i + 1)

end Notes

/-- The commands of the first script stand in the second one at the places `f`, among comments. -/
structure Embeds (f : Nat ↪o Nat) (cs ds : List Command) : Prop where
  keeps : ∀ i c, cs[i]? = some c → ds[f i]? = some c
  only : ∀ j c, ds[j]? = some c → c.executable = true → ∃ i, cs[i]? = some c ∧ f i = j
  size : f cs.length = ds.length

namespace Notes

theorem getElem?_insert (n : Notes) (cs : List Command) (i : Nat) (bound : i < cs.length) :
    (n.insert cs)[n.shift i]? = cs[i]? := by
  induction cs generalizing n i with
  | nil => simp at bound
  | cons c rest ih =>
    cases i with
    | zero => simp [insert, shift]
    | succ i =>
      have inner := ih n.after i (by simpa using bound)
      have beyond : (n 0).length ≤ n.shift (i + 1) := by simp only [shift]; omega
      have place : n.shift (i + 1) - (n 0).length = n.after.shift i + 1 := by
        simp only [shift]; omega
      rw [insert, List.getElem?_append_right beyond, place]
      simpa using inner

theorem executable_insert {n : Notes} (silent : n.Silent) (cs : List Command) (j : Nat)
    (c : Command) (has : (n.insert cs)[j]? = some c) (executable : c.executable = true) :
    ∃ i, cs[i]? = some c ∧ n.shift i = j := by
  induction cs generalizing n j with
  | nil =>
    have comment := silent 0 c (mem_of_getElem? has)
    rw [executable] at comment
    cases comment
  | cons d rest ih =>
    rw [insert] at has
    rcases Nat.lt_or_ge j (n 0).length with before | behind
    · rw [List.getElem?_append_left before] at has
      have comment := silent 0 c (mem_of_getElem? has)
      rw [executable] at comment
      cases comment
    · rw [List.getElem?_append_right behind] at has
      cases gap : j - (n 0).length with
      | zero =>
        rw [gap] at has
        exact ⟨0, has, by simp only [shift]; omega⟩
      | succ k =>
        rw [gap] at has
        obtain ⟨i, there, place⟩ := ih silent.after k has
        exact ⟨i + 1, there, by simp only [shift]; omega⟩

theorem shift_length (n : Notes) (cs : List Command) :
    n.shift cs.length = (n.insert cs).length := by
  induction cs generalizing n with
  | nil => rfl
  | cons c rest ih =>
    have inner := ih n.after
    simp only [length_cons, shift, insert, length_append] at inner ⊢
    omega

theorem embeds {n : Notes} (silent : n.Silent) (cs : List Command) :
    Embeds n.places cs (n.insert cs) where
  keeps := by
    intro i c has
    obtain ⟨bound, _⟩ := List.getElem?_eq_some_iff.mp has
    exact (n.getElem?_insert cs i bound).trans has
  only := executable_insert silent cs
  size := n.shift_length cs

end Notes

section Renumber

variable (f : Nat → Nat)

def Form.renumber : Form → Form
  | .cond elseIfs orElse => .cond (elseIfs.map f) (orElse.map f)
  | .guard name catchAt finallyAt => .guard name (catchAt.map f) (finallyAt.map f)
  | .loop kind => .loop kind
  | .function word name => .function word name

def Block.renumber : Block → Block
  | .opener form last => .opener (form.renumber f) (f last)
  | .partner owner => .partner (f owner)

def Outline.renumber (o : Outline) : Outline where
  blocks := o.blocks.map (Prod.map f (Block.renumber f))
  symbols := o.symbols.map (Prod.map id f)

def Misnesting.renumber : Misnesting → Misnesting
  | waits p => waits (f p)
  | unnamed p => unnamed (f p)
  | unopened p word => unopened (f p) word
  | outsideFunction p => outsideFunction (f p)
  | outsideIf p => outsideIf (f p)
  | outsideTry p => outsideTry (f p)
  | outsideLoop p => outsideLoop (f p)
  | mismatch p opener => mismatch (f p) (f opener)
  | elseIfAfterElse p orElse => elseIfAfterElse (f p) (f orElse)
  | secondElse p first => secondElse (f p) (f first)
  | secondCatch p first => secondCatch (f p) (f first)
  | catchAfterFinally p finallyAt => catchAfterFinally (f p) (f finallyAt)
  | secondFinally p first => secondFinally (f p) (f first)
  | unclosed p word => unclosed (f p) word

def Opener.renumber (o : Opener) : Opener := ⟨f o.place, o.form.renumber f⟩

def Scan.renumber (s : Scan) : Scan := ⟨s.pending.map (Opener.renumber f), s.outline.renumber f⟩

end Renumber

def moved (f : Nat → Nat) (i : Int) : Int := if i < 0 then i else f i.toNat

section Moved

variable (f : Nat ↪o Nat)

@[simp] theorem moved_natCast (i : Nat) : moved f (i : Int) = (f i : Int) := by
  have inside : ¬ (i : Int) < 0 := by omega
  simp [moved, inside]

theorem moved_neg_iff (i : Int) : moved f i < 0 ↔ i < 0 := by
  unfold moved
  split <;> omega

theorem moved_lt_iff (i : Int) (j : Nat) : moved f i < (f j : Int) ↔ i < (j : Int) := by
  unfold moved
  split
  · omega
  · have order : f i.toNat < f j ↔ i.toNat < j := f.lt_iff_lt
    omega

theorem lt_moved_iff (j : Nat) (i : Int) : (f j : Int) < moved f i ↔ (j : Int) < i := by
  unfold moved
  split
  · omega
  · have order : f j < f i.toNat ↔ j < i.toNat := f.lt_iff_lt
    omega

theorem moved_injective : Function.Injective (moved f) := by
  intro i j same
  rcases Int.lt_or_le i 0 with low | high
  · have low' : moved f i < 0 := (moved_neg_iff f i).mpr low
    rw [same, moved_neg_iff] at low'
    simpa [moved, low, low'] using same
  · have high' : ¬ j < 0 := by rw [← moved_neg_iff f, ← same, moved_neg_iff]; omega
    have low : ¬ i < 0 := by omega
    simp only [moved, if_neg low, if_neg high', Int.natCast_inj] at same
    have places := f.injective same
    omega

end Moved

section Lookup

variable (f : Nat ↪o Nat) (o : Outline) {place : Nat}

@[simp] theorem Outline.block?_renumber :
    (o.renumber f).block? (f place) = (o.block? place).map (Block.renumber f) := by
  unfold Outline.block? Outline.renumber
  induction o.blocks with
  | nil => rfl
  | cons entry rest ih =>
    obtain ⟨key, b⟩ := entry
    by_cases here : place = key
    · simp [here]
    · have apart : f place ≠ f key := fun same => here (f.injective same)
      simpa [lookup_cons, beq_false_of_ne here, beq_false_of_ne apart] using ih

@[simp] theorem Outline.symbols_renumber {name : String} :
    (o.renumber f).symbols.get? name = (o.symbols.get? name).map f := by
  unfold Outline.renumber
  induction o.symbols with
  | nil => rfl
  | cons entry rest ih =>
    obtain ⟨key, place⟩ := entry
    by_cases here : key = name
    · simp [Record.get?, here]
    · simpa [Record.get?, here] using ih

def Region.renumber (f : Nat → Nat) (r : Region) : Region := ⟨f r.first, f r.last, r.title⟩

def Extent.renumber (f : Nat → Nat) (e : Extent) : Extent :=
  ⟨f e.place, e.form.renumber f, f e.last⟩

theorem Region.renumber_injective : Function.Injective (Region.renumber f) := by
  rintro ⟨first, last, title⟩ ⟨first', last', title'⟩ same
  simpa [Region.renumber] using same

theorem Region.segmentAt?_renumber (name : String) (last locus : Nat)
    (segments : List (Nat × String)) :
    Region.segmentAt? name (f last) (f locus) (segments.map (Prod.map f id)) =
      (Region.segmentAt? name last locus segments).map (Region.renumber f) := by
  match segments with
  | [] => rfl
  | [(first, segment)] =>
    simp only [List.map, Prod.map, Region.segmentAt?, f.le_iff_le]
    split <;> rfl
  | (first, segment) :: (next, other) :: rest =>
    have further := segmentAt?_renumber name last locus ((next, other) :: rest)
    simp only [List.map, Prod.map, Region.segmentAt?, f.le_iff_le, f.lt_iff_lt] at further ⊢
    split
    · rfl
    · exact further

theorem Region.ofBlock?_renumber {form : Form} {last locus : Nat} :
    Region.ofBlock? (f place) (form.renumber f) (f last) (f locus) =
      (Region.ofBlock? place form last locus).map (Region.renumber f) := by
  cases form with
  | cond | loop | function => rfl
  | guard name catchAt finallyAt =>
    have segments : Region.segments (f place) (catchAt.map f) (finallyAt.map f) =
        (Region.segments place catchAt finallyAt).map (Prod.map f id) := by
      cases catchAt <;> cases finallyAt <;> rfl
    simp only [Form.renumber, Region.ofBlock?, segments, Region.segmentAt?_renumber]

theorem Extent.later_renumber (d e : Extent) :
    (d.renumber f).later (e.renumber f) = (d.later e).renumber f := by
  simp only [Extent.later, Extent.renumber, f.lt_iff_lt]
  split <;> rfl

theorem Extent.foldl_later_renumber (e : Extent) (rest : List Extent) :
    (rest.map (Extent.renumber f)).foldl Extent.later (e.renumber f) =
      (rest.foldl Extent.later e).renumber f := by
  induction rest generalizing e with
  | nil => rfl
  | cons d rest ih =>
    simp only [map_cons, foldl_cons, Extent.later_renumber]
    exact ih (e.later d)

theorem Outline.extents_renumber : (o.renumber f).extents = o.extents.map (Extent.renumber f) := by
  unfold Outline.extents Outline.renumber
  induction o.blocks with
  | nil => rfl
  | cons entry rest ih =>
    obtain ⟨place, b⟩ := entry
    cases b with
    | opener form last => simpa [Block.renumber, Extent.renumber] using ih
    | partner owner => simpa [Block.renumber] using ih

theorem Outline.around?_renumber (locus : Nat) :
    (o.renumber f).around? (f locus) = (o.around? locus).map (Extent.renumber f) := by
  have holds (e : Extent) : (e.renumber f).holds (f locus) = e.holds locus := by
    simp [Extent.holds, Extent.renumber]
  have region (e : Extent) : (e.renumber f).isRegion = e.isRegion := by
    obtain ⟨place, form, last⟩ := e
    cases form <;> rfl
  unfold Outline.around?
  rw [Outline.extents_renumber, filter_map]
  simp only [Function.comp_def, holds, region]
  cases o.extents.filter (fun e => e.isRegion && e.holds locus) with
  | nil => rfl
  | cons e rest => simp only [map_cons, Extent.foldl_later_renumber, Option.map_some]

theorem Outline.region?_renumber (locus : Int) :
    (o.renumber f).region? (moved f locus) = (o.region? locus).map (Region.renumber f) := by
  unfold Outline.region?
  simp only [moved_neg_iff]
  split
  · rfl
  · rename_i inside
    have place : (moved f locus).toNat = f locus.toNat := by simp [moved, inside]
    rw [place, Outline.around?_renumber]
    cases o.around? locus.toNat with
    | none => rfl
    | some e => exact Region.ofBlock?_renumber f

end Lookup

namespace Scan

variable {f : Nat → Nat}

def renumbered {α : Type} (f : Nat → Nat) (how : α → α) (x : Except Misnesting α) :
    Except Misnesting α :=
  (x.map how).mapError (Misnesting.renumber f)

theorem enclosing?_renumber (wanted stop : Form → Bool)
    (wants : ∀ form : Form, wanted (form.renumber f) = wanted form)
    (stops : ∀ form : Form, stop (form.renumber f) = stop form) (pending : List Opener) :
    Stack.enclosing? (fun o => wanted o.form) (fun o => stop o.form)
      (pending.map (Opener.renumber f)) =
      (Stack.enclosing? (fun o => wanted o.form) (fun o => stop o.form) pending).map
        (Opener.renumber f) := by
  induction pending with
  | nil => rfl
  | cons top rest ih =>
    simp only [Stack.enclosing?, Stack.downFrom?, map_cons] at ih ⊢
    have same : (top.renumber f).form = top.form.renumber f := rfl
    rw [same, wants, stops]
    split
    · rfl
    · split
      · rfl
      · exact ih

theorem symbols_renumber (symbols : Record Nat) (name : String) (place : Nat) :
    (symbols.set name place).map (Prod.map id f) =
      Record.set (symbols.map (Prod.map id f)) name (f place) := by
  induction symbols with
  | nil => rfl
  | cons entry rest ih =>
    obtain ⟨key, old⟩ := entry
    by_cases here : key = name
    · simp [Record.set, here]
    · simpa [Record.set, here] using ih

theorem declare_renumber (s : Scan) {name : String} (place : Nat) :
    (s.renumber f).declare name (f place) = (s.declare name place).renumber f := by
  simp [declare, renumber, Outline.renumber, symbols_renumber]

theorem isLoop_renumber (form : Form) : (form.renumber f).isLoop = form.isLoop := by
  cases form <;> rfl

theorem isFunction_renumber (form : Form) : (form.renumber f).isFunction = form.isFunction := by
  cases form <;> rfl

theorem endWord_renumber {form : Form} : (form.renumber f).endWord = form.endWord := by
  cases form <;> rfl

theorem renumber_eq_loop (form : Form) (kind : LoopKind) :
    form.renumber f = .loop kind ↔ form = .loop kind := by
  cases form <;> simp [Form.renumber]

section Steps

variable (s : Scan) (i : Nat) (c : Command) {word : FunctionWord}

theorem elseIf_renumber :
    (s.renumber f).elseIf (f i) = renumbered f (Scan.renumber f) (s.elseIf i) := by
  obtain ⟨pending, o⟩ := s
  match pending with
  | ⟨place, .cond elseIfs none⟩ :: rest =>
    simp [elseIf, renumber, renumbered, extend, link, Except.map, Except.mapError, Opener.renumber,
      Form.renumber, Outline.renumber, Block.renumber]
  | [] | ⟨_, .cond _ (some _)⟩ :: _ | ⟨_, .guard _ _ _⟩ :: _ | ⟨_, .loop _⟩ :: _
  | ⟨_, .function _ _⟩ :: _ => rfl

theorem orElse_renumber :
    (s.renumber f).orElse (f i) = renumbered f (Scan.renumber f) (s.orElse i) := by
  obtain ⟨pending, o⟩ := s
  match pending with
  | [] | ⟨_, .guard _ _ _⟩ :: _ | ⟨_, .loop _⟩ :: _ | ⟨_, .function _ _⟩ :: _ => rfl
  | ⟨_, .cond _ orElse⟩ :: _ => cases orElse <;> rfl

theorem endIf_renumber :
    (s.renumber f).endIf (f i) = renumbered f (Scan.renumber f) (s.endIf i) := by
  obtain ⟨pending, o⟩ := s
  match pending with
  | [] => rfl
  | ⟨place, form⟩ :: rest => cases form <;> rfl

theorem openCatch_renumber :
    (s.renumber f).openCatch (f i) = renumbered f (Scan.renumber f) (s.openCatch i) := by
  obtain ⟨pending, o⟩ := s
  match pending with
  | [] | ⟨_, .cond _ _⟩ :: _ | ⟨_, .loop _⟩ :: _ | ⟨_, .function _ _⟩ :: _ => rfl
  | ⟨_, .guard _ catchAt finallyAt⟩ :: _ => cases catchAt <;> cases finallyAt <;> rfl

theorem openFinally_renumber :
    (s.renumber f).openFinally (f i) = renumbered f (Scan.renumber f) (s.openFinally i) := by
  obtain ⟨pending, o⟩ := s
  match pending with
  | [] | ⟨_, .cond _ _⟩ :: _ | ⟨_, .loop _⟩ :: _ | ⟨_, .function _ _⟩ :: _ => rfl
  | ⟨_, .guard _ _ finallyAt⟩ :: _ => cases finallyAt <;> rfl

theorem endTry_renumber :
    (s.renumber f).endTry (f i) c = renumbered f (Scan.renumber f) (s.endTry i c) := by
  obtain ⟨pending, o⟩ := s
  match pending with
  | ⟨place, .guard name catchAt finallyAt⟩ :: rest =>
    simp only [endTry, renumber, map_cons, Opener.renumber, Form.renumber]
    split <;> rfl
  | [] | ⟨_, .cond _ _⟩ :: _ | ⟨_, .loop _⟩ :: _ | ⟨_, .function _ _⟩ :: _ => rfl

theorem endLoop_renumber {kind : LoopKind} :
    (s.renumber f).endLoop (f i) kind = renumbered f (Scan.renumber f) (s.endLoop i kind) := by
  obtain ⟨pending, o⟩ := s
  match pending with
  | [] => rfl
  | ⟨place, form⟩ :: rest =>
    simp only [endLoop, renumber, map_cons, Opener.renumber, renumber_eq_loop]
    split <;> rfl

theorem jump_renumber : (s.renumber f).jump (f i) = renumbered f (Scan.renumber f) (s.jump i) := by
  have found : loop? (s.renumber f).pending = (loop? s.pending).map (Opener.renumber f) :=
    enclosing?_renumber Form.isLoop Form.isFunction isLoop_renumber isFunction_renumber s.pending
  unfold jump
  rw [found]
  cases loop? s.pending <;> rfl

theorem openFunction_renumber :
    (s.renumber f).openFunction (f i) c word = renumbered f (Scan.renumber f)
      (s.openFunction i c word) := by
  unfold openFunction
  split
  · rfl
  · rw [declare_renumber]
    rfl

theorem giveBack_renumber :
    (s.renumber f).giveBack (f i) = renumbered f (Scan.renumber f) (s.giveBack i) := by
  have found : function? (s.renumber f).pending = (function? s.pending).map (Opener.renumber f) :=
    enclosing?_renumber Form.isFunction (fun _ => false) isFunction_renumber
      (fun _ => rfl) s.pending
  unfold giveBack
  rw [found]
  cases function? s.pending <;> rfl

theorem endFunction_renumber :
    (s.renumber f).endFunction (f i) c word = renumbered f (Scan.renumber f)
      (s.endFunction i c word) := by
  obtain ⟨pending, o⟩ := s
  match pending with
  | ⟨place, .function opened name⟩ :: rest =>
    simp only [endFunction, renumber, map_cons, Opener.renumber, Form.renumber]
    split <;> rfl
  | [] | ⟨_, .cond _ _⟩ :: _ | ⟨_, .guard _ _ _⟩ :: _ | ⟨_, .loop _⟩ :: _ => rfl

theorem step_renumber :
    (s.renumber f).step (f i) c = renumbered f (Scan.renumber f) (s.step i c) := by
  unfold step
  cases c.verb? with
  | none => rfl
  | some v =>
    dsimp only
    split
    · rfl
    · cases v with
      | label => exact congrArg Except.ok (declare_renumber s i)
      | elseIf => exact elseIf_renumber s i
      | orElse => exact orElse_renumber s i
      | endIf => exact endIf_renumber s i
      | openCatch => exact openCatch_renumber s i
      | openFinally => exact openFinally_renumber s i
      | endTry => exact endTry_renumber s i c
      | endLoop kind => exact endLoop_renumber s i
      | again | leave => exact jump_renumber s i
      | openFunction word => exact openFunction_renumber s i c
      | giveBack => exact giveBack_renumber s i
      | endFunction word => exact endFunction_renumber s i c
      | openIf | openTry | openLoop | goto | gotoIf | skipNext | call | exitTest | load => rfl

end Steps

theorem run_silent {comments : List Command} (silent : ∀ c ∈ comments, c.executable = false)
    (s : Scan) (j : Nat) (rest : List Command) :
    s.run j (comments ++ rest) = s.run (j + comments.length) rest := by
  induction comments generalizing j with
  | nil => rfl
  | cons c comments ih =>
    have still : s.step j c = .ok s := by
      simp [step, Command.verb?, silent c mem_cons_self]
    have later := ih (fun d mem => silent d (mem_cons_of_mem c mem)) (j + 1)
    calc s.run j (c :: comments ++ rest)
      _ = s.run (j + 1) (comments ++ rest) := by simp only [cons_append, run, still]; rfl
      _ = s.run (j + (c :: comments).length) rest := by rw [later, length_cons]; congr 1; omega

theorem run_insert {n : Notes} (silent : n.Silent) (cs : List Command) (s : Scan) (i j : Nat)
    (places : ∀ k, f (i + k) = j + n.shift k) :
    (s.renumber f).run j (n.insert cs) = renumbered f (Scan.renumber f) (s.run i cs) := by
  induction cs generalizing n s i j with
  | nil =>
    have rest := run_silent (silent 0) (s.renumber f) j []
    rw [append_nil] at rest
    exact rest
  | cons c rest ih =>
    have here : j + (n 0).length = f i := (places 0).symm
    have later : ∀ k, f (i + 1 + k) = f i + 1 + n.after.shift k := by
      intro k
      have next := places (k + 1)
      rw [Notes.shift] at next
      rw [Nat.add_right_comm i 1 k, Nat.add_assoc i k 1, next, ← here]
      omega
    rw [Notes.insert, run_silent (silent 0), here]
    simp only [run, step_renumber]
    cases s.step i c with
    | error e => rfl
    | ok t => exact ih silent.after t (i + 1) (f i + 1) later

end Scan

theorem Outline.find_insert {n : Notes} (silent : n.Silent) (cs : List Command) :
    Outline.find (n.insert cs) = Scan.renumbered n.places (Outline.renumber n.places)
      (Outline.find cs) := by
  have scanned := Scan.run_insert (f := n.places) silent cs {} 0 0
    (by intro k; rw [Nat.zero_add, Nat.zero_add]; rfl)
  have start : Scan.renumber n.places {} = {} := rfl
  rw [start] at scanned
  unfold find
  rw [scanned]
  cases Scan.run {} 0 cs with
  | error e => rfl
  | ok s =>
    obtain ⟨pending, o⟩ := s
    cases pending with
    | nil => rfl
    | cons top rest =>
      have same : (top.renumber n.places).form.endWord = top.form.endWord := Scan.endWord_renumber
      simp only [Scan.renumbered, Scan.renumber, Except.map, Except.mapError, bind, Except.bind,
        map_cons, same]
      rfl

end Runbook
