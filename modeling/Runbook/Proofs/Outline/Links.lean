import Mathlib.Data.Nat.Init
import Runbook.Proofs.Outline.Opens

namespace Runbook

open List

abbrev Outline.Spans (o : Outline) (place : Nat) (form : Form) (last : Nat) : Prop :=
  o.block? place = some (.opener form last)

abbrev Outline.Links (o : Outline) (place owner : Nat) : Prop :=
  o.block? place = some (.partner owner)

/-- What is known of the block opened at a place once the commands before `bound` were met. -/
structure Grown (cs : List Command) (blocks : List (Nat × Block)) (place : Nat) (form : Form)
    (bound : Nat) : Prop where
  opened : verbAt cs place = some form.opening
  begins : place < bound
  parts : ∀ part ∈ form.parts, place < part.1 ∧ part.1 < bound ∧ verbAt cs part.1 = some part.2 ∧
    opens cs part.1 = place :: opens cs place ∧ (part.1, Block.partner place) ∈ blocks
  ordered : (form.parts.map Prod.fst).Pairwise (· < ·)

structure Ended (cs : List Command) (blocks : List (Nat × Block)) (place : Nat) (form : Form)
    (last : Nat) : Prop where
  grown : Grown cs blocks place form last
  closed : verbAt cs last = some form.closing
  around : opens cs last = place :: opens cs place
  after : opens cs (last + 1) = opens cs place
  linked : (last, Block.partner place) ∈ blocks

/-- The innermost open block with an opening of one kind, with none of the kinds that stop the
search before it. -/
def Innermost (cs : List Command) (wanted stop : Verb → Prop) (i place : Nat) : Prop :=
  ∃ inner outer v, opens cs i = inner ++ place :: outer ∧ verbAt cs place = some v ∧ wanted v ∧
    ∀ q ∈ inner, ∀ w, verbAt cs q = some w → ¬ wanted w ∧ ¬ stop w

def Verb.OpensLoop (v : Verb) : Prop := ∃ kind, v = .openLoop kind

def Verb.OpensFunction (v : Verb) : Prop := ∃ word, v = .openFunction word

def Scan.Known (s : Scan) (place : Nat) (form : Form) : Prop :=
  ⟨place, form⟩ ∈ s.pending ∨ ∃ last, (place, .opener form last) ∈ s.outline.blocks

inductive Belongs (cs : List Command) (s : Scan) (i place : Nat) : Prop
  | part {form : Form} {v : Verb} (known : s.Known place form) (mem : (i, v) ∈ form.parts)
  | last {form : Form} (ended : (place, .opener form i) ∈ s.outline.blocks)
  | exit (exits : verbAt cs i = some .again ∨ verbAt cs i = some .leave)
      (inner : Innermost cs Verb.OpensLoop Verb.OpensFunction i place)
  | giveBack (verb : verbAt cs i = some .giveBack)
      (inner : Innermost cs Verb.OpensFunction (fun _ => False) i place)

def Scan.keys (s : Scan) : List Nat := s.pending.map Opener.place ++ s.outline.blocks.map Prod.fst

/-- What a scan knows when it has met the commands before a place. -/
structure Sound (cs : List Command) (i : Nat) (s : Scan) : Prop where
  pending : ∀ top ∈ s.pending, Grown cs s.outline.blocks top.place top.form i
  ended : ∀ place form last, (place, .opener form last) ∈ s.outline.blocks →
    last < i ∧ Ended cs s.outline.blocks place form last
  partner : ∀ j place, (j, .partner place) ∈ s.outline.blocks → Belongs cs s j place
  keys : s.keys.Nodup
  bounded : ∀ key ∈ s.keys, key < i
  met : ∀ j < i, ∀ v, verbAt cs j = some v → v.role ≠ .plain → j ∈ s.keys

section Grows

variable {cs : List Command} {blocks more : List (Nat × Block)} {place bound next : Nat}
  {form : Form}

theorem Grown.mono (grown : Grown cs blocks place form bound) (wider : bound ≤ next)
    (more_blocks : ∀ entry ∈ blocks, entry ∈ more) : Grown cs more place form next where
  opened := grown.opened
  begins := by have := grown.begins; omega
  parts := by
    intro part mem
    obtain ⟨after, below, verb, around, linked⟩ := grown.parts part mem
    exact ⟨after, by omega, verb, around, more_blocks _ linked⟩
  ordered := grown.ordered

theorem Ended.mono {last : Nat} (ended : Ended cs blocks place form last)
    (more_blocks : ∀ entry ∈ blocks, entry ∈ more) : Ended cs more place form last where
  grown := ended.grown.mono (Nat.le_refl last) more_blocks
  closed := ended.closed
  around := ended.around
  after := ended.after
  linked := more_blocks _ ended.linked

end Grows

variable {α : Type} {wanted stop : α → Bool} {s : List α} {cs : List Command} {i : Nat}

theorem Stack.downFrom?_eq_some {part : List α}
    (found : Stack.downFrom? wanted stop s = some part) :
    ∃ above top below, part = top :: below ∧ s = above ++ top :: below ∧ wanted top = true ∧
      ∀ x ∈ above, wanted x = false ∧ stop x = false := by
  induction s with
  | nil => cases found
  | cons first rest ih =>
    unfold Stack.downFrom? at found
    split at found
    · rename_i hit
      cases found
      exact ⟨[], first, rest, rfl, rfl, hit, by simp⟩
    · rename_i miss
      split at found
      · cases found
      · rename_i goes
        obtain ⟨above, top, below, same, split, hit, clear⟩ := ih found
        refine ⟨first :: above, top, below, same, by rw [split]; rfl, hit, ?_⟩
        intro x mem
        rcases mem_cons.mp mem with rfl | mem
        · exact ⟨by simpa using miss, by simpa using goes⟩
        · exact clear x mem

theorem Stack.enclosing?_eq_some {top : α} (found : Stack.enclosing? wanted stop s = some top) :
    ∃ above below, s = above ++ top :: below ∧ wanted top = true ∧
      ∀ x ∈ above, wanted x = false ∧ stop x = false := by
  unfold Stack.enclosing? at found
  cases down : Stack.downFrom? wanted stop s with
  | none => rw [down] at found; cases found
  | some part =>
    obtain ⟨above, first, below, same, split, hit, clear⟩ := Stack.downFrom?_eq_some down
    rw [down, same] at found
    cases found
    exact ⟨above, below, split, hit, clear⟩

theorem innermost_of_enclosing {s : Scan} {top : Opener} {wanted stop : Form → Bool}
    {Wanted Stop : Verb → Prop} (scanned : Scan.before cs i = .ok s)
    (grown : ∀ top ∈ s.pending, verbAt cs top.place = some top.form.opening)
    (wanted_iff : ∀ form, wanted form = true ↔ Wanted form.opening)
    (stop_iff : ∀ form, stop form = true ↔ Stop form.opening)
    (found : Stack.enclosing? (fun x : Opener => wanted x.form) (fun x => stop x.form) s.pending =
      some top) :
    Innermost cs Wanted Stop i top.place := by
  obtain ⟨above, below, split, hit, clear⟩ := Stack.enclosing?_eq_some found
  have mem : top ∈ s.pending := by rw [split]; simp
  refine ⟨above.map Opener.place, below.map Opener.place, top.form.opening, ?_, grown top mem,
    (wanted_iff _).mp hit, ?_⟩
  · rw [opens_of_before scanned, split]
    simp
  · intro q inner w verb
    obtain ⟨x, above_x, rfl⟩ := mem_map.mp inner
    have opened := grown x (by rw [split]; exact mem_append_left _ above_x)
    rw [opened] at verb
    cases verb
    rw [← wanted_iff, ← stop_iff]
    have := clear x above_x
    simp_all

structure Scan.Extends (s t : Scan) : Prop where
  blocks : ∀ entry ∈ s.outline.blocks, entry ∈ t.outline.blocks
  forms : ∀ place form, s.Known place form → ∃ more, t.Known place more ∧
    ∀ part ∈ form.parts, part ∈ more.parts

theorem Belongs.mono {s t : Scan} {place : Nat} (belongs : Belongs cs s i place)
    (more : s.Extends t) : Belongs cs t i place := by
  cases belongs with
  | part known mem =>
    obtain ⟨form, known, parts⟩ := more.forms _ _ known
    exact .part known (parts _ mem)
  | last ended => exact .last (more.blocks _ ended)
  | exit exits inner => exact .exit exits inner
  | giveBack verb inner => exact .giveBack verb inner

section Preserved

variable {cs : List Command} {o : Outline} {i place : Nat} {s t : Scan} {form : Form} {top : Opener}
  {rest : List Opener}

theorem Scan.Extends.same (pending : t.pending = s.pending)
    (blocks : t.outline.blocks = s.outline.blocks) : s.Extends t where
  blocks := by intro entry mem; rw [blocks]; exact mem
  forms := by
    intro place form known
    refine ⟨form, ?_, fun _ mem => mem⟩
    unfold Scan.Known at known ⊢
    rw [pending, blocks]
    exact known

theorem Scan.Extends.link (place : Nat) {owner : Nat} : s.Extends (s.link place owner) where
  blocks := fun entry mem => mem_cons_of_mem _ mem
  forms := by
    intro q form known
    refine ⟨form, ?_, fun _ mem => mem⟩
    rcases known with pending | ⟨last, ended⟩
    · exact .inl pending
    · exact .inr ⟨last, mem_cons_of_mem _ ended⟩

section

variable (sound : Sound cs i s)

include sound

theorem Sound.step (more : s.Extends t)
    (pending : ∀ top ∈ t.pending, top ∈ s.pending ∨
      Grown cs t.outline.blocks top.place top.form (i + 1))
    (ended : ∀ place form last, (place, .opener form last) ∈ t.outline.blocks →
      (place, .opener form last) ∈ s.outline.blocks ∨ last = i ∧
      Ended cs t.outline.blocks place form last)
    (partner : ∀ j place, (j, .partner place) ∈ t.outline.blocks →
      (j, .partner place) ∈ s.outline.blocks ∨ Belongs cs t j place)
    (keys : t.keys.Perm (i :: s.keys) ∨ t.keys = s.keys ∧ ∀ v, verbAt cs i = some v →
      v.role = .plain) :
    Sound cs (i + 1) t where
  pending top mem := by
    rcases pending top mem with known | grown
    · exact (sound.pending top known).mono (Nat.le_succ i) more.blocks
    · exact grown
  ended place form last mem := by
    rcases ended place form last mem with known | ⟨rfl, new⟩
    · obtain ⟨below, ended⟩ := sound.ended place form last known
      exact ⟨by omega, ended.mono more.blocks⟩
    · exact ⟨Nat.lt_succ_self _, new⟩
  partner j place mem := by
    rcases partner j place mem with known | belongs
    · exact (sound.partner j place known).mono more
    · exact belongs
  keys := by
    rcases keys with perm | ⟨same, _⟩
    · have fresh : i ∉ s.keys := fun mem => Nat.lt_irrefl i (sound.bounded i mem)
      exact perm.nodup_iff.mpr (nodup_cons.mpr ⟨fresh, sound.keys⟩)
    · rw [same]
      exact sound.keys
  bounded key mem := by
    have known : key = i ∨ key ∈ s.keys := by
      rcases keys with perm | ⟨same, _⟩
      · exact mem_cons.mp (perm.mem_iff.mp mem)
      · exact .inr (same ▸ mem)
    rcases known with rfl | known
    · exact Nat.lt_succ_self _
    · exact Nat.lt_succ_of_lt (sound.bounded key known)
  met j below v verb special := by
    rcases keys with perm | ⟨same, plain⟩
    · rw [perm.mem_iff]
      by_cases here : j = i
      · rw [here]
        exact mem_cons_self
      · exact mem_cons_of_mem i (sound.met j (by omega) v verb special)
    · rw [same]
      have other : j ≠ i := by
        rintro rfl
        exact special (plain v verb)
      exact sound.met j (by omega) v verb special

theorem Sound.pass (plain : ∀ v, verbAt cs i = some v → v.role = .plain)
    (pending : t.pending = s.pending) (blocks : t.outline.blocks = s.outline.blocks) :
    Sound cs (i + 1) t := by
  refine sound.step (.same pending blocks) (fun _ mem => .inl (pending ▸ mem))
    (fun _ _ _ mem => .inl (blocks ▸ mem)) (fun _ _ mem => .inl (blocks ▸ mem)) (.inr ⟨?_, plain⟩)
  rw [Scan.keys, Scan.keys, pending, blocks]

theorem Sound.enter (verb : verbAt cs i = some form.opening) (fresh : form.parts = [])
    (pending : t.pending = ⟨i, form⟩ :: s.pending) (blocks : t.outline.blocks = s.outline.blocks) :
    Sound cs (i + 1) t := by
  have more : s.Extends t := by
    refine ⟨fun _ mem => blocks ▸ mem, fun place form known => ⟨form, ?_, fun _ mem => mem⟩⟩
    rcases known with known | ⟨last, known⟩
    · exact .inl (by rw [pending]; exact mem_cons_of_mem _ known)
    · exact .inr ⟨last, blocks ▸ known⟩
  refine sound.step more (fun top mem => ?_) (fun _ _ _ mem => .inl (blocks ▸ mem))
    (fun _ _ mem => .inl (blocks ▸ mem)) (.inl ?_)
  · rw [pending] at mem
    rcases mem_cons.mp mem with rfl | mem
    · refine .inr ⟨verb, Nat.lt_succ_self i, ?_, ?_⟩
      · rw [fresh]
        nofun
      · rw [fresh]
        exact .nil
    · exact .inl mem
  · rw [Scan.keys, Scan.keys, pending, blocks]
    exact .refl _

theorem Sound.link (belongs : Belongs cs (s.link i place) i place) :
    Sound cs (i + 1) (s.link i place) := by
  refine sound.step (.link i) (fun _ => .inl) (fun q form last mem => ?_) (fun j q mem => ?_)
    (.inl perm_middle)
  · rcases mem_cons.mp mem with same | mem
    · cases same
    · exact .inl mem
  · rcases mem_cons.mp mem with same | mem
    · cases same
      exact .inr belongs
    · exact .inl mem

theorem Sound.extend {v : Verb} (around : opens cs i = top.place :: opens cs top.place)
    (verb : verbAt cs i = some v) (was : s.pending = top :: rest)
    (opening : form.opening = top.form.opening) (parts : form.parts = top.form.parts ++ [(i, v)]) :
    Sound cs (i + 1) (s.extend i top form rest) := by
  have more : ∀ entry ∈ s.outline.blocks, entry ∈ (s.extend i top form rest).outline.blocks :=
    fun entry mem => mem_cons_of_mem _ mem
  have grows : s.Extends (s.extend i top form rest) := by
    refine ⟨more, ?_⟩
    intro place old known
    rcases known with known | ⟨last, known⟩
    · rw [was] at known
      rcases mem_cons.mp known with same | known
      · subst same
        exact ⟨form, .inl mem_cons_self, by intro part mem; rw [parts]; simp [mem]⟩
      · exact ⟨old, .inl (mem_cons_of_mem _ known), fun _ mem => mem⟩
    · exact ⟨old, .inr ⟨last, more _ known⟩, fun _ mem => mem⟩
  refine sound.step grows (fun opener mem => ?_) (fun place old last mem => ?_)
    (fun j place mem => ?_) (.inl ?_)
  · rcases mem_cons.mp mem with rfl | mem
    · have grown := sound.pending top (by rw [was]; exact mem_cons_self)
      refine .inr ⟨opening ▸ grown.opened, Nat.lt_succ_of_lt grown.begins, ?_, ?_⟩
      · intro part mem
        rw [parts] at mem
        rcases mem_append.mp mem with mem | mem
        · obtain ⟨after, below, known, inside, linked⟩ := grown.parts part mem
          exact ⟨after, by omega, known, inside, more _ linked⟩
        · obtain rfl := mem_singleton.mp mem
          exact ⟨grown.begins, Nat.lt_succ_self i, verb, around, mem_cons_self⟩
      · rw [parts, map_append, pairwise_append]
        refine ⟨grown.ordered, by simp, ?_⟩
        intro j mem k last
        obtain ⟨part, inside, rfl⟩ := mem_map.mp mem
        simp only [map_cons, map_nil, mem_singleton] at last
        rw [last]
        exact (grown.parts part inside).2.1
    · exact .inl (by rw [was]; exact mem_cons_of_mem _ mem)
  · rcases mem_cons.mp mem with same | mem
    · cases same
    · exact .inl mem
  · rcases mem_cons.mp mem with same | mem
    · cases same
      exact .inr (@Belongs.part _ _ _ _ form v (.inl mem_cons_self) (by rw [parts]; simp))
    · exact .inl mem
  · simp only [Scan.keys, was, Scan.extend, Scan.link, map_cons]
    exact perm_middle

theorem Sound.close (around : opens cs i = top.place :: opens cs top.place)
    (after : opens cs (i + 1) = opens cs top.place) (verb : verbAt cs i = some top.form.closing)
    (was : s.pending = top :: rest) : Sound cs (i + 1) (s.close i top rest) := by
  have more : ∀ entry ∈ s.outline.blocks, entry ∈ (s.close i top rest).outline.blocks :=
    fun entry mem => mem_cons_of_mem _ (mem_cons_of_mem _ mem)
  have grows : s.Extends (s.close i top rest) := by
    refine ⟨more, ?_⟩
    intro place form known
    refine ⟨form, ?_, fun _ mem => mem⟩
    rcases known with known | ⟨last, known⟩
    · rw [was] at known
      rcases mem_cons.mp known with same | known
      · subst same
        exact .inr ⟨i, mem_cons_of_mem _ mem_cons_self⟩
      · exact .inl known
    · exact .inr ⟨last, more _ known⟩
  refine sound.step grows (fun opener mem => .inl ?_) (fun place form last mem => ?_)
    (fun j place mem => ?_) (.inl ?_)
  · rw [was]
    exact mem_cons_of_mem _ mem
  · rcases mem_cons.mp mem with same | mem
    · cases same
    · rcases mem_cons.mp mem with same | mem
      · cases same
        have grown := sound.pending top (by rw [was]; exact mem_cons_self)
        exact .inr ⟨rfl, grown.mono (Nat.le_refl i) more, verb, around, after, mem_cons_self⟩
      · exact .inl mem
  · rcases mem_cons.mp mem with same | mem
    · cases same
      exact .inr (@Belongs.last _ _ _ _ top.form (mem_cons_of_mem _ mem_cons_self))
    · rcases mem_cons.mp mem with same | mem
      · cases same
      · exact .inl mem
  · simp only [Scan.keys, was, Scan.close, map_cons]
    exact perm_middle.trans (.cons i perm_middle)

end

theorem sound_before (found : Outline.find cs = .ok o) (scanned : Scan.before cs i = .ok s) :
    Sound cs i s := by
  induction i generalizing s with
  | zero =>
    cases scanned
    exact ⟨nofun, nofun, nofun, nodup_nil, nofun, nofun⟩
  | succ i ih =>
    by_cases bound : i < cs.length
    · obtain ⟨r, t, before, next, shift⟩ := shift_at found bound
      rw [scanned] at next
      cases next
      have sound := ih before
      have places := opens_of_before before
      generalize verb : verbAt cs i = w at shift
      cases shift with
      | pass plain pending blocks => exact sound.pass (by rw [verb]; exact plain) pending blocks
      | enter fresh pending blocks => exact sound.enter verb fresh.parts pending blocks
      | extend was grows =>
        rw [was] at places
        have tail := opens_tail found places
        refine sound.extend ?_ verb was grows.opening grows.parts
        rw [places, ← tail]
        rfl
      | close was _ =>
        rw [was] at places
        have tail := opens_tail found places
        have after := opens_of_before scanned
        refine sound.close ?_ ?_ verb was
        · rw [places, ← tail]
          rfl
        · rw [after, ← tail]
          rfl
      | leave exits inner =>
        refine sound.link (.exit ?_ ?_)
        · rcases exits with rfl | rfl
          · exact .inl verb
          · exact .inr verb
        · exact innermost_of_enclosing before (fun top mem => (sound.pending top mem).opened)
            Form.isLoop_iff Form.isFunction_iff inner
      | giveBack inner =>
        refine sound.link (.giveBack verb ?_)
        exact @innermost_of_enclosing _ _ _ _ Form.isFunction (fun _ => false) _ _ before
          (fun top mem => (sound.pending top mem).opened) Form.isFunction_iff (by simp) inner
    · -- behind the last command nothing is left to meet
      rw [before_end found (by omega)] at scanned
      cases scanned
      exact (ih (before_end found (by omega))).pass
        (by intro v verb; rw [verbAt, List.getElem?_eq_none (by omega)] at verb; cases verb) rfl rfl

theorem lookup_eq_some_iff {α : Type} {table : List (Nat × α)} (keys : (table.map Prod.fst).Nodup)
    (b : α) : table.lookup place = some b ↔ (place, b) ∈ table := by
  induction table with
  | nil => simp
  | cons entry rest ih =>
    obtain ⟨key, first⟩ := entry
    rw [map_cons, nodup_cons] at keys
    rw [lookup_cons, mem_cons]
    by_cases same : place = key
    · subst same
      have absent : (place, b) ∉ rest := fun mem => keys.1 (mem_map.mpr ⟨_, mem, rfl⟩)
      simp [absent, eq_comm]
    · have differs : (place == key) = false := by simpa using same
      rw [differs]
      simp only [ih keys.2, Prod.mk.injEq, same, false_and, false_or]

end Preserved

section Table

variable {cs : List Command} {o : Outline} {i place last j q : Nat} {v : Verb} {form : Form}
  {name : String}

theorem sound_end (found : Outline.find cs = .ok o) : Sound cs cs.length ⟨[], o⟩ :=
  sound_before found (before_end found (Nat.le_refl _))

theorem block?_iff (found : Outline.find cs = .ok o) (place : Nat) (b : Block) :
    o.block? place = some b ↔ (place, b) ∈ o.blocks :=
  lookup_eq_some_iff (by simpa [Scan.keys] using (sound_end found).keys) b

theorem block?_of_special (found : Outline.find cs = .ok o) (verb : verbAt cs i = some v)
    (special : v.role ≠ .plain) : ∃ b, o.block? i = some b := by
  have mem := (sound_end found).met i (lt_length_of_verbAt verb) v verb special
  simp only [Scan.keys, map_nil, nil_append, mem_map] at mem
  obtain ⟨⟨place, b⟩, mem, rfl⟩ := mem
  exact ⟨b, (block?_iff found _ _).mpr mem⟩

theorem Outline.Spans.ended (block : o.Spans place form last) (found : Outline.find cs = .ok o) :
    Ended cs o.blocks place form last :=
  ((sound_end found).ended place form last ((block?_iff found _ _).mp block)).2

theorem Ended.bound {blocks : List (Nat × Block)} (ended : Ended cs blocks place form last) :
    last < cs.length := lt_length_of_verbAt ended.closed

/-- What is known of the command at the place `i` as a part of a block. -/
structure PartOf (cs : List Command) (o : Outline) (place last i : Nat) (v : Verb) : Prop where
  after : place < i
  before : i < last
  verb : verbAt cs i = some v
  around : opens cs i = place :: opens cs place
  linked : o.Links i place

theorem Outline.Spans.part (block : o.Spans place form last) (found : Outline.find cs = .ok o)
    (mem : (i, v) ∈ form.parts) : PartOf cs o place last i v := by
  obtain ⟨after, before, verb, around, linked⟩ := (block.ended found).grown.parts (i, v) mem
  exact ⟨after, before, verb, around, (block?_iff found _ _).mpr linked⟩

theorem Outline.Spans.catchPart {finallyAt : Option Nat}
    (block : o.Spans place (.guard name (some j) finallyAt) last)
    (found : Outline.find cs = .ok o) :
    PartOf cs o place last j .openCatch := block.part found (by simp [Form.parts])

theorem Outline.Spans.finallyPart {catchAt : Option Nat}
    (block : o.Spans place (.guard name catchAt (some j)) last) (found : Outline.find cs = .ok o) :
    PartOf cs o place last j .openFinally := block.part found (by simp [Form.parts])

theorem PartOf.bound (part : PartOf cs o place last i v) : i < cs.length :=
  lt_length_of_verbAt part.verb

inductive Meaning (cs : List Command) (o : Outline) (i : Nat) (v : Verb) : Block → Prop
  | opener {form : Form} {last : Nat} (role : v.role = .opening) (opening : form.opening = v) :
      Meaning cs o i v (.opener form last)
  | part {place last : Nat} {form : Form} (role : v.role = .part) (block : o.Spans place form last)
      (mem : (i, v) ∈ form.parts) : Meaning cs o i v (.partner place)
  | last {place : Nat} {form : Form} (role : v.role = .closing) (block : o.Spans place form i)
      (closing : form.closing = v) : Meaning cs o i v (.partner place)
  | exit {place : Nat} (role : v.role = .exit)
      (inner : Innermost cs Verb.OpensLoop Verb.OpensFunction i place) :
      Meaning cs o i v (.partner place)
  | giveBack {place : Nat} (role : v.role = .giveBack)
      (inner : Innermost cs Verb.OpensFunction (fun _ => False) i place) :
      Meaning cs o i v (.partner place)

section

variable (found : Outline.find cs = .ok o)

include found

theorem meaning_of_block? {b : Block} (verb : verbAt cs i = some v) (block : o.block? i = some b) :
    Meaning cs o i v b := by
  cases b with
  | opener form last =>
    have opened := (Outline.Spans.ended block found).grown.opened
    rw [verb] at opened
    cases opened
    exact .opener Form.role_opening rfl
  | partner place =>
    cases (sound_end found).partner i place ((block?_iff found _ _).mp block) with
    | part known mem =>
      rcases known with known | ⟨last, known⟩
      · cases known
      · have given := (((sound_end found).ended _ _ _ known).2.grown.parts _ mem).2.2.1
        rw [verb] at given
        cases given
        exact .part (Form.role_of_mem_parts mem) ((block?_iff found _ _).mpr known) mem
    | @last form ended =>
      have given := ((sound_end found).ended _ _ _ ended).2.closed
      rw [verb] at given
      cases given
      exact .last (Form.role_closing form) ((block?_iff found _ _).mpr ended) rfl
    | exit exits inner =>
      rw [verb] at exits
      exact .exit (by rcases exits with same | same <;> cases same <;> rfl) inner
    | giveBack given inner =>
      rw [verb] at given
      cases given
      exact .giveBack rfl inner

theorem block?_opening (verb : verbAt cs i = some v) (opening : v.role = .opening) :
    ∃ form last, o.Spans i form last ∧ form.opening = v := by
  obtain ⟨b, block⟩ := block?_of_special found verb (by simp [opening])
  cases meaning_of_block? found verb block with
  | opener role same => exact ⟨_, _, block, same⟩
  | part role | last role | exit role | giveBack role => rw [opening] at role; cases role

theorem block?_part (verb : verbAt cs i = some v) (part : v.role = .part) :
    ∃ place form last, o.Links i place ∧ o.Spans place form last ∧ (i, v) ∈ form.parts := by
  obtain ⟨b, block⟩ := block?_of_special found verb (by simp [part])
  cases meaning_of_block? found verb block with
  | part role owner mem => exact ⟨_, _, _, block, owner, mem⟩
  | opener role | last role | exit role | giveBack role => rw [part] at role; cases role

theorem block?_closing (verb : verbAt cs i = some v) (closing : v.role = .closing) :
    ∃ place form, o.Links i place ∧ o.Spans place form i ∧ form.closing = v := by
  obtain ⟨b, block⟩ := block?_of_special found verb (by simp [closing])
  cases meaning_of_block? found verb block with
  | last role owner same => exact ⟨_, _, block, owner, same⟩
  | opener role | part role | exit role | giveBack role => rw [closing] at role; cases role

theorem block?_exit (verb : verbAt cs i = some v) (exits : v.role = .exit) :
    ∃ place, o.Links i place ∧ Innermost cs Verb.OpensLoop Verb.OpensFunction i place := by
  obtain ⟨b, block⟩ := block?_of_special found verb (by simp [exits])
  cases meaning_of_block? found verb block with
  | exit role inner => exact ⟨_, block, inner⟩
  | opener role | part role | last role | giveBack role => rw [exits] at role; cases role

theorem block?_giveBack (verb : verbAt cs i = some .giveBack) :
    ∃ place, o.Links i place ∧ Innermost cs Verb.OpensFunction (fun _ => False) i place := by
  obtain ⟨b, block⟩ := block?_of_special found verb (by simp [Verb.role])
  cases meaning_of_block? found verb block with
  | giveBack role inner => exact ⟨_, block, inner⟩
  | _ => contradiction

theorem not_mem_opens_after (block : o.Spans q form last) (after : last < i) : q ∉ opens cs i := by
  have ended := block.ended found
  have begins := ended.grown.begins
  induction i, after using Nat.le_induction with
  | base =>
    intro mem
    rw [ended.after] at mem
    exact Nat.lt_irrefl q (lt_of_mem_opens found mem)
  | succ i after ih =>
    intro mem
    rcases opens_succ found with enters | ⟨r, leaves⟩ | same
    · rw [enters] at mem
      rcases mem_cons.mp mem with rfl | mem
      · omega
      · exact ih mem
    · exact ih (by rw [leaves]; exact mem_cons_of_mem r mem)
    · rw [same] at mem
      exact ih mem

theorem mem_opens_within (block : o.Spans q form last) (begins : q < i) (ends : i ≤ last) :
    q ∈ opens cs i := by
  have ended := block.ended found
  induction i, begins using Nat.le_induction with
  | base =>
    rw [opens_opening found ended.grown.opened Form.role_opening]
    exact mem_cons_self
  | succ i begins ih =>
    have mem := ih (by omega)
    by_cases closing : ∃ v, verbAt cs i = some v ∧ v.role = .closing
    · obtain ⟨v, verb, closing⟩ := closing
      obtain ⟨place, other, linked, owner, _⟩ := block?_closing found verb closing
      have around := (owner.ended found).around
      have after := (owner.ended found).after
      rw [after]
      rw [around] at mem
      rcases mem_cons.mp mem with rfl | mem
      · cases block.symm.trans owner
        omega
      · exact mem
    · by_cases opening : ∃ v, verbAt cs i = some v ∧ v.role = .opening
      · obtain ⟨v, verb, opening⟩ := opening
        rw [opens_opening found verb opening]
        exact mem_cons_of_mem i mem
      · rw [opens_same found]
        · exact mem
        · intro v verb
          exact ⟨fun role => opening ⟨v, verb, role⟩, fun role => closing ⟨v, verb, role⟩⟩

theorem opening_of_mem_opens (mem : q ∈ opens cs i) : ∃ form last, o.Spans q form last := by
  obtain ⟨s, scanned⟩ := before_ok found i
  rw [opens_of_before scanned] at mem
  obtain ⟨top, pending, rfl⟩ := mem_map.mp mem
  have opened := ((sound_before found scanned).pending top pending).opened
  obtain ⟨form, last, block, _⟩ := block?_opening found opened Form.role_opening
  exact ⟨form, last, block⟩

theorem mem_opens_iff : q ∈ opens cs i ↔ ∃ form last, o.Spans q form last ∧ q < i ∧ i ≤ last := by
  constructor
  · intro mem
    obtain ⟨form, last, block⟩ := opening_of_mem_opens found mem
    refine ⟨form, last, block, lt_of_mem_opens found mem, ?_⟩
    by_contra after
    exact not_mem_opens_after found block (by omega) mem
  · rintro ⟨form, last, block, begins, ends⟩
    exact mem_opens_within found block begins ends

end

end Table

end Runbook
