import Runbook.Outline.Region
import Runbook.Proofs.Outline.Links

namespace Runbook

open List

section Latest

theorem foldl_later_mem (e : Extent) (rest : List Extent) :
    rest.foldl Extent.later e ∈ e :: rest := by
  induction rest generalizing e with
  | nil => exact mem_cons_self
  | cons x rest ih =>
    have mem := ih (e.later x)
    rw [foldl_cons]
    rcases mem_cons.mp mem with same | mem
    · rw [same]
      unfold Extent.later
      split <;> simp
    · exact mem_cons_of_mem e (mem_cons_of_mem x mem)

theorem le_foldl_later (e : Extent) (rest : List Extent) :
    ∀ x ∈ e :: rest, x.place ≤ (rest.foldl Extent.later e).place := by
  induction rest generalizing e with
  | nil => simp
  | cons y rest ih =>
    intro x mem
    rw [foldl_cons]
    have start := ih (e.later y) (e.later y) mem_cons_self
    have bounds : e.place ≤ (e.later y).place ∧ y.place ≤ (e.later y).place := by
      unfold Extent.later
      split <;> constructor <;> omega
    rcases mem_cons.mp mem with rfl | mem
    · omega
    · rcases mem_cons.mp mem with rfl | mem
      · omega
      · exact ih (e.later y) x (mem_cons_of_mem _ mem)

end Latest

section Regions

variable {cs : List Command} {o : Outline} {i : Nat} {e : Extent}

theorem mem_extents (found : Outline.find cs = .ok o) (e : Extent) :
    e ∈ o.extents ↔ o.Spans e.place e.form e.last := by
  rw [Outline.Spans, block?_iff found, Outline.extents, mem_filterMap]
  constructor
  · rintro ⟨⟨place, b⟩, mem, given⟩
    cases b with
    | opener form last => cases given; exact mem
    | partner owner => cases given
  · intro mem
    exact ⟨(e.place, .opener e.form e.last), mem, rfl⟩

def Confines (cs : List Command) (o : Outline) (i : Nat) (e : Extent) : Prop :=
  o.Spans e.place e.form e.last ∧ e.place ∈ opens cs i ∧ e.isRegion = true

theorem confines_iff (found : Outline.find cs = .ok o) :
    e ∈ o.extents.filter (fun e => e.isRegion && e.holds i) ↔ Confines cs o i e := by
  rw [mem_filter, mem_extents found]
  simp only [Extent.holds, Bool.and_eq_true, decide_eq_true_eq, Confines, mem_opens_iff found]
  constructor
  · rintro ⟨block, region, begins, ends⟩
    exact ⟨block, ⟨e.form, e.last, block, begins, ends⟩, region⟩
  · rintro ⟨block, ⟨form, last, same, begins, ends⟩, region⟩
    cases block.symm.trans same
    exact ⟨block, region, begins, ends⟩

theorem around?_eq_none (found : Outline.find cs = .ok o) (none : o.around? i = none) (e : Extent) :
    ¬ Confines cs o i e := by
  rw [← confines_iff found]
  unfold Outline.around? at none
  split at none
  · rename_i empty
    rw [empty]
    simp
  · cases none

theorem around?_eq_some (found : Outline.find cs = .ok o) (some : o.around? i = some e) :
    Confines cs o i e ∧ ∀ x, Confines cs o i x → x.place ≤ e.place := by
  unfold Outline.around? at some
  split at some
  · cases some
  · rename_i first rest split
    cases some
    refine ⟨(confines_iff found).mp ?_, ?_⟩
    · rw [split]
      exact foldl_later_mem first rest
    · intro x confines
      have mem := (confines_iff found).mpr confines
      rw [split] at mem
      exact le_foldl_later first rest x mem

theorem segmentAt?_segments {name : String} {place last : Nat} {catchAt finallyAt : Option Nat}
    (begins : place < i) (ends : i ≤ last)
    (ordered : ((Form.guard name catchAt finallyAt).parts.map Prod.fst).Pairwise (· < ·))
    (after : ∀ part ∈ (Form.guard name catchAt finallyAt).parts, place < part.1) :
    ∃ r, Region.segmentAt? name last i (Region.segments place catchAt finallyAt) = some r ∧
      (r.first = place ∨ ∃ part ∈ (Form.guard name catchAt finallyAt).parts, r.first = part.1) ∧
      ∀ part ∈ (Form.guard name catchAt finallyAt).parts, part.1 ≤ i ↔ part.1 ≤ r.first := by
  have started : place ≤ i := by omega
  cases catchAt with
  | none =>
    cases finallyAt with
    | none => simp [Region.segments, Region.segmentAt?, Form.parts, started, ends]
    | some f =>
      have placed : place < f := after (f, .openFinally) (by simp [Form.parts])
      by_cases first : i < f
      · simp [Region.segments, Region.segmentAt?, Form.parts, started, first]
        omega
      · have reached : f ≤ i := by omega
        simp [Region.segments, Region.segmentAt?, Form.parts, first, reached, ends]
  | some c =>
    have placed : place < c := after (c, .openCatch) (by simp [Form.parts])
    cases finallyAt with
    | none =>
      by_cases first : i < c
      · simp [Region.segments, Region.segmentAt?, Form.parts, started, first]
        omega
      · have reached : c ≤ i := by omega
        simp [Region.segments, Region.segmentAt?, Form.parts, first, reached, ends]
    | some f =>
      have divided : c < f := by simpa [Form.parts] using ordered
      by_cases first : i < c
      · simp [Region.segments, Region.segmentAt?, Form.parts, started, first]
        omega
      · have reached : c ≤ i := by omega
        by_cases second : i < f
        · simp [Region.segments, Region.segmentAt?, Form.parts, first, reached, second]
          omega
        · have ended : f ≤ i := by omega
          simp [Region.segments, Region.segmentAt?, Form.parts, first, second, reached, ended, ends]
          omega

theorem ofBlock?_eq_some (found : Outline.find cs = .ok o) (confines : Confines cs o i e) :
    ∃ r, Region.ofBlock? e.place e.form e.last i = some r ∧
      (r.first = e.place ∨ ∃ part ∈ e.form.parts, r.first = part.1) ∧
      ∀ part ∈ e.form.parts, part.1 ≤ i ↔ part.1 ≤ r.first := by
  obtain ⟨place, form, last⟩ := e
  obtain ⟨block, mem, region⟩ := confines
  have ended := block.ended found
  obtain ⟨_, _, same, begins, ends⟩ := (mem_opens_iff found).mp mem
  cases block.symm.trans same
  cases form with
  | cond elseIfs orElse => cases region
  | loop kind | function word name => exact ⟨_, rfl, .inl rfl, nofun⟩
  | guard name catchAt finallyAt =>
    exact segmentAt?_segments begins ends ended.grown.ordered fun part mem =>
      (ended.grown.parts part mem).1

theorem owner_unique (found : Outline.find cs = .ok o) {d : Extent} {x : Nat}
    (first : o.Spans d.place d.form d.last) (second : o.Spans e.place e.form e.last)
    (of_first : x = d.place ∨ ∃ part ∈ d.form.parts, x = part.1)
    (of_second : x = e.place ∨ ∃ part ∈ e.form.parts, x = part.1) : d = e := by
  have partner (e : Extent) (block : o.Spans e.place e.form e.last) (part : Nat × Verb)
      (mem : part ∈ e.form.parts) : o.Links part.1 e.place :=
    (block?_iff found _ _).mpr ((block.ended found).grown.parts part mem).2.2.2.2
  have same : d.place = e.place := by
    rcases of_first with rfl | ⟨part, mem, rfl⟩
    · rcases of_second with same | ⟨other, mem, same⟩
      · exact same
      · have block := partner e second other mem
        rw [← same] at block
        cases first.symm.trans block
    · have block := partner d first part mem
      rcases of_second with same | ⟨other, mem, same⟩
      · rw [same] at block
        cases second.symm.trans block
      · have other_block := partner e second other mem
        rw [← same] at other_block
        exact Block.partner.inj (Option.some.inj (block.symm.trans other_block))
  obtain ⟨place, form, last⟩ := d
  obtain ⟨place', form', last'⟩ := e
  cases same
  cases first.symm.trans second
  rfl

theorem region?_eq (found : Outline.find cs = .ok o) {d : Nat} (same : o.region? i = o.region? d) :
    (∀ e, ¬ Confines cs o i e ∧ ¬ Confines cs o d e) ∨
    ∃ e, Confines cs o i e ∧ Confines cs o d e ∧ (∀ x, Confines cs o i x → x.place ≤ e.place) ∧
      (∀ x, Confines cs o d x → x.place ≤ e.place) ∧ ∀ part ∈ e.form.parts, part.1 ≤ i ↔
        part.1 ≤ d := by
  have natural (k : Nat) :
      o.region? k = (o.around? k).bind fun e => Region.ofBlock? e.place e.form e.last k := by
    have inside : ¬ (k : Int) < 0 := by omega
    rw [Outline.region?, if_neg inside, Int.toNat_natCast]
  rw [natural, natural] at same
  cases source : o.around? i with
  | none =>
    cases dest : o.around? d with
    | none => exact .inl fun e => ⟨around?_eq_none found source e, around?_eq_none found dest e⟩
    | some e =>
      obtain ⟨r, region, _⟩ := ofBlock?_eq_some found (around?_eq_some found dest).1
      rw [source, dest] at same
      simp [region] at same
  | some e =>
    obtain ⟨confines, innermost⟩ := around?_eq_some found source
    obtain ⟨r, region, begins, parts⟩ := ofBlock?_eq_some found confines
    cases dest : o.around? d with
    | none =>
      rw [source, dest] at same
      simp [region] at same
    | some x =>
      obtain ⟨confines', innermost'⟩ := around?_eq_some found dest
      obtain ⟨r', region', begins', parts'⟩ := ofBlock?_eq_some found confines'
      rw [source, dest] at same
      simp only [Option.bind_some, region, region', Option.some.injEq] at same
      subst same
      have equal := owner_unique found confines.1 confines'.1 begins begins'
      subst equal
      refine .inr ⟨e, confines, confines', innermost, innermost', ?_⟩
      intro part mem
      rw [parts part mem, parts' part mem]

end Regions

end Runbook
