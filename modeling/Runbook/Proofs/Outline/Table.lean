import Runbook.Proofs.Outline.Symbols

namespace Runbook

open List

/-- The block opened at `q` is around the command at `i`: it begins before it and does not end
before it. -/
def Outline.Around (o : Outline) (q : Nat) (form : Form) (i : Nat) : Prop :=
  ∃ last, o.block? q = some (.opener form last) ∧ q < i ∧ i ≤ last

def Outline.Nearest (o : Outline) (wanted : Form → Prop) (i place : Nat) : Prop :=
  (∃ form, o.Around place form i ∧ wanted form) ∧ ∀ q form, o.Around q form i →
    wanted form → q ≤ place

/-- The table of a script links its commands as they nest. -/
structure Linked (cs : List Command) (o : Outline) : Prop where
  /-- A block ends behind its opening and inside the script. -/
  extent : ∀ place form last, o.block? place = some (.opener form last) →
    place < last ∧ last < cs.length ∧ verbAt cs place = some form.opening
  /-- Two blocks are apart, or one is strictly inside the other. -/
  laminar : ∀ p form last q other last', o.block? p = some (.opener form last) →
    o.block? q = some (.opener other last') → p ≠ q →
    last < q ∨ last' < p ∨ (p < q ∧ last' < last) ∨ (q < p ∧ last < last')
  /-- A block lists its parts in their order, all of them before its end. -/
  parts : ∀ place form last, o.block? place = some (.opener form last) →
    (form.parts.map Prod.fst).Pairwise (· < ·) ∧
    ∀ i v, (i, v) ∈ form.parts → place < i ∧ i < last ∧ verbAt cs i = some v ∧
      o.block? i = some (.partner place)
  /-- A part belongs to the innermost block around it, which lists it. -/
  part : ∀ i v, verbAt cs i = some v → v.role = .part →
    ∃ place form last, o.block? i = some (.partner place) ∧ o.Nearest (fun _ => True) i place ∧
      o.block? place = some (.opener form last) ∧ (i, v) ∈ form.parts
  /-- An end belongs to the innermost block around it, which ends there. -/
  closing : ∀ i v, verbAt cs i = some v → v.role = .closing →
    ∃ place form, o.block? i = some (.partner place) ∧ o.Nearest (fun _ => True) i place ∧
      o.block? place = some (.opener form i) ∧ form.closing = v
  /-- A command that leaves or repeats a loop belongs to the innermost one around it. -/
  exit : ∀ i v, verbAt cs i = some v → v.role = .exit →
    ∃ place, o.block? i = some (.partner place) ∧ o.Nearest (·.isLoop = true) i place
  /-- A command that returns belongs to the innermost function around it. -/
  giveBack : ∀ i, verbAt cs i = some .giveBack →
    ∃ place, o.block? i = some (.partner place) ∧ o.Nearest (·.isFunction = true) i place
  /-- The commands that open, divide, end or leave a block have an entry, and no others. -/
  entries : ∀ i, (o.block? i).isSome = true ↔ ∃ v, verbAt cs i = some v ∧ v.role ≠ .plain
  symbols : ∀ name place, o.symbols.get? name = some place ↔
    Declared cs name place ∧ ∀ j, place < j → ¬ Declared cs name j

section Links

variable {cs : List Command} {o : Outline} {i : Nat}

section

variable (found : Outline.find cs = .ok o)

include found

theorem around_iff_mem_opens {q : Nat} : (∃ form, o.Around q form i) ↔ q ∈ opens cs i :=
  (mem_opens_iff found).symm

theorem block?_laminar {p last q last' : Nat} {form other : Form} (first : o.Spans p form last)
    (second : o.Spans q other last') (early : p < q) : last < q ∨ last' < last := by
  by_contra crossing
  rw [not_or] at crossing
  have begins := (second.ended found).grown.begins
  -- the first block would be open where the second one is, but not any more where that one ends
  have outer : p ∈ opens cs q := (mem_opens_iff found).mpr ⟨form, last, first, early, by omega⟩
  have inner : p ∈ opens cs last' := by
    rw [(second.ended found).around]
    exact mem_cons_of_mem q outer
  obtain ⟨_, ends, block, _, bound⟩ := (mem_opens_iff found).mp inner
  cases first.symm.trans block
  -- so both would end with one command, which belongs to one block only
  obtain rfl : last = last' := by omega
  have above := (first.ended found).around.symm.trans (second.ended found).around
  have same : p = q := (cons.inj above).1
  omega

theorem nearest_of_top {place : Nat} {rest : List Nat} (top : opens cs i = place :: rest) :
    o.Nearest (fun _ => True) i place := by
  have mem : place ∈ opens cs i := by rw [top]; exact mem_cons_self
  obtain ⟨form, around⟩ := (around_iff_mem_opens found).mpr mem
  refine ⟨⟨form, around, trivial⟩, ?_⟩
  intro q other around _
  have inside := (around_iff_mem_opens found).mp ⟨other, around⟩
  have sorted := (opens_sorted found i).1
  rw [top] at inside sorted
  rcases mem_cons.mp inside with rfl | inside
  · exact Nat.le_refl q
  · exact Nat.le_of_lt ((pairwise_cons.mp sorted).1 q inside)

theorem nearest_of_innermost {Wanted Stop : Verb → Prop} {wanted : Form → Prop} {place : Nat}
    (kinds : ∀ form : Form, wanted form ↔ Wanted form.opening)
    (inner : Innermost cs Wanted Stop i place) : o.Nearest wanted i place := by
  obtain ⟨above, below, v, split, verb, hit, clear⟩ := inner
  have opened {q : Nat} {form : Form} {last : Nat} (block : o.Spans q form last) :
      verbAt cs q = some form.opening := (block.ended found).grown.opened
  have mem : place ∈ opens cs i := by rw [split]; simp
  obtain ⟨form, last, block, bounds⟩ := (mem_opens_iff found).mp mem
  refine ⟨⟨form, ⟨last, block, bounds⟩, ?_⟩, ?_⟩
  · rw [opened block] at verb
    cases verb
    exact (kinds form).mpr hit
  · rintro q other ⟨last', block', bounds'⟩ kind
    have inside : q ∈ opens cs i := (mem_opens_iff found).mpr ⟨other, last', block', bounds'⟩
    have sorted := (opens_sorted found i).1
    rw [split] at inside sorted
    rcases mem_append.mp inside with inside | inside
    · exact absurd ((kinds other).mp kind) (clear q inside _ (opened block')).1
    · rcases mem_cons.mp inside with rfl | inside
      · exact Nat.le_refl q
      · have tail := (pairwise_append.mp sorted).2.1
        exact Nat.le_of_lt ((pairwise_cons.mp tail).1 q inside)

theorem role_of_block? {b : Block} (block : o.block? i = some b) :
    ∃ v, verbAt cs i = some v ∧ v.role ≠ .plain := by
  cases b with
  | opener form last =>
    exact ⟨form.opening, (Outline.Spans.ended block found).grown.opened, by simp⟩
  | partner place =>
    cases (sound_end found).partner i place ((block?_iff found _ _).mp block) with
    | @part form v known mem =>
      rcases known with known | ⟨last, known⟩
      · cases known
      · have verb := (((sound_end found).ended _ _ _ known).2.grown.parts _ mem).2.2.1
        exact ⟨v, verb, by simp [Form.role_of_mem_parts mem]⟩
    | @last form ended =>
      exact ⟨form.closing, ((sound_end found).ended _ _ _ ended).2.closed, by simp⟩
    | exit exits _ => rcases exits with verb | verb <;> exact ⟨_, verb, nofun⟩
    | giveBack verb _ => exact ⟨_, verb, nofun⟩

end

/-- The outline of a script links its commands as they nest. -/
theorem linked_of_outline (outlined : Outline.ofCommands cs = .ok o) : Linked cs o := by
  have found : Outline.find cs = .ok o := by
    unfold Outline.ofCommands at outlined
    cases found : Outline.find cs with
    | error e => rw [found] at outlined; cases outlined
    | ok o' => rw [found] at outlined; cases outlined; rfl
  refine ⟨?extent, ?laminar, ?parts, ?part, ?closing, ?exit, ?giveBack, ?entries,
    symbols_get?_iff found⟩
  case extent =>
    intro place form last block
    have ended := Outline.Spans.ended block found
    exact ⟨ended.grown.begins, ended.bound, ended.grown.opened⟩
  case laminar =>
    intro p form last q other last' first second differ
    rcases Nat.lt_or_gt_of_ne differ with early | late
    · rcases block?_laminar found first second early with apart | inside
      · exact .inl apart
      · exact .inr (.inr (.inl ⟨early, inside⟩))
    · rcases block?_laminar found second first late with apart | inside
      · exact .inr (.inl apart)
      · exact .inr (.inr (.inr ⟨late, inside⟩))
  case parts =>
    intro place form last block
    have grown := (Outline.Spans.ended block found).grown
    refine ⟨grown.ordered, fun i v mem => ?_⟩
    obtain ⟨after, below, verb, _, linked⟩ := grown.parts _ mem
    exact ⟨after, below, verb, (block?_iff found _ _).mpr linked⟩
  case part =>
    intro i v verb role
    obtain ⟨place, form, last, linked, block, mem⟩ := block?_part found verb role
    obtain ⟨_, _, _, top, _⟩ := (block.ended found).grown.parts _ mem
    exact ⟨place, form, last, linked, nearest_of_top found top, block, mem⟩
  case closing =>
    intro i v verb role
    obtain ⟨place, form, linked, block, same⟩ := block?_closing found verb role
    exact ⟨place, form, linked, nearest_of_top found (block.ended found).around, block, same⟩
  case exit =>
    intro i v verb role
    obtain ⟨place, linked, inner⟩ := block?_exit found verb role
    exact ⟨place, linked, nearest_of_innermost found Form.isLoop_iff inner⟩
  case giveBack =>
    intro i verb
    obtain ⟨place, linked, inner⟩ := block?_giveBack found verb
    exact ⟨place, linked, nearest_of_innermost found Form.isFunction_iff inner⟩
  case entries =>
    intro i
    constructor
    · intro entry
      obtain ⟨b, block⟩ := Option.isSome_iff_exists.mp entry
      exact role_of_block? found block
    · rintro ⟨v, verb, special⟩
      exact Option.isSome_iff_exists.mpr (block?_of_special found verb special)

def nestedBlocks : List Command :=
  [{ name := "function", target := "f" }, { name := "while", target := "true" },
   { name := "if", target := "true" }, { name := "break" }, { name := "else" }, { name := "endIf" },
   { name := "try" }, { name := "catch" }, { name := "return" }, { name := "finally" },
   { name := "endTry" }, { name := "endWhile" }, { name := "endFunction", target := "f" },
   { name := "label", target := "twice" }, { name := "label", target := "twice" }]

theorem linked_nestedBlocks : ∃ o, Outline.ofCommands nestedBlocks = .ok o ∧ Linked nestedBlocks o ∧
    o.block? 3 = some (.partner 1) ∧ o.block? 8 = some (.partner 0) ∧ o.symbols.get? "twice" =
      some 14 := by
  obtain ⟨o, outlined, entries⟩ : ∃ o, Outline.ofCommands nestedBlocks = .ok o ∧
      o.block? 3 = some (.partner 1) ∧ o.block? 8 = some (.partner 0) ∧
      o.symbols.get? "twice" = some 14 :=
    ⟨_, rfl, by decide⟩
  exact ⟨o, outlined, linked_of_outline outlined, entries⟩

end Links

end Runbook
