import Runbook.Proofs.Outline.Table
import Runbook.Proofs.Run.Standing

namespace Runbook

open Runbook.Action

def Reaches (next : Option Nat) (last i : Nat) : Prop :=
  match next with
  | some stop => i < stop
  | none => i ≤ last

/-- The regions of a script, with the places that lie in them. A loop and a function begin behind
their opening command and hold their end; a segment of a guard begins with its command, the first
one behind the opening, and goes up to the next. -/
inductive Outline.Encloses (o : Outline) : Region → Nat → Prop
  | loop {q last i : Nat} {kind : LoopKind} (block : o.block? q = some (.opener (.loop kind) last))
      (begins : q < i) (ends : i ≤ last) : Encloses o ⟨q, last, kind.word ++ " loop"⟩ i
  | function {q last i : Nat} {word : FunctionWord} {name : String}
      (block : o.block? q = some (.opener (.function word name) last)) (begins : q < i)
      (ends : i ≤ last) : Encloses o ⟨q, last, "function '" ++ name ++ "'"⟩ i
  | tried {q last i : Nat} {name : String} {catchAt finallyAt : Option Nat}
      (block : o.block? q = some (.opener (.guard name catchAt finallyAt) last)) (begins : q < i)
      (ends : Reaches (catchAt.or finallyAt) last i) :
      Encloses o ⟨q, (catchAt.or finallyAt).getD last, Region.segmentTitle "try" name⟩ i
  | catching {q c last i : Nat} {name : String} {finallyAt : Option Nat}
      (block : o.block? q = some (.opener (.guard name (some c) finallyAt) last)) (begins : c ≤ i)
      (ends : Reaches finallyAt last i) :
      Encloses o ⟨c, finallyAt.getD last, Region.segmentTitle "catch" name⟩ i
  | finishing {q f last i : Nat} {name : String} {catchAt : Option Nat}
      (block : o.block? q = some (.opener (.guard name catchAt (some f)) last)) (begins : f ≤ i)
      (ends : i ≤ last) : Encloses o ⟨f, last, Region.segmentTitle "finally" name⟩ i

/-- A region around a place that lies in every other one around it. -/
def Outline.IsInnermost (o : Outline) (r : Region) (i : Nat) : Prop :=
  o.Encloses r i ∧ ∀ r', o.Encloses r' i → ∀ j, o.Encloses r j → o.Encloses r' j

section Segments

variable {name : String} {q last i j : Nat} {catchAt finallyAt next : Option Nat}

theorem segmentAt?_eq_some {r : Region} (begins : q < i) (ends : i ≤ last)
    (ordered : ((Form.guard name catchAt finallyAt).parts.map Prod.fst).Pairwise (· < ·)) :
    Region.segmentAt? name last i (Region.segments q catchAt finallyAt) = some r ↔
      (Reaches (catchAt.or finallyAt) last i ∧
        r = ⟨q, (catchAt.or finallyAt).getD last, Region.segmentTitle "try" name⟩) ∨
      (∃ c, catchAt = some c ∧ c ≤ i ∧ Reaches finallyAt last i ∧
        r = ⟨c, finallyAt.getD last, Region.segmentTitle "catch" name⟩) ∨
      ∃ f, finallyAt = some f ∧ f ≤ i ∧ r = ⟨f, last, Region.segmentTitle "finally" name⟩ := by
  have started : q ≤ i := by omega
  cases catchAt with
  | none =>
    cases finallyAt with
    | none => simp [Region.segments, Region.segmentAt?, Reaches, started, ends, eq_comm]
    | some f =>
      by_cases first : i < f
      · have early : ¬ f ≤ i := by omega
        simp [Region.segments, Region.segmentAt?, Reaches, started, first, early, eq_comm]
      · have late : f ≤ i := by omega
        simp [Region.segments, Region.segmentAt?, Reaches, first, late, ends, eq_comm]
  | some c =>
    cases finallyAt with
    | none =>
      by_cases first : i < c
      · have early : ¬ c ≤ i := by omega
        simp [Region.segments, Region.segmentAt?, Reaches, started, first, early, eq_comm]
      · have late : c ≤ i := by omega
        simp [Region.segments, Region.segmentAt?, Reaches, first, late, ends, eq_comm]
    | some f =>
      have divided : c < f := by simpa [Form.parts] using ordered
      by_cases first : i < c
      · have early : ¬ c ≤ i ∧ ¬ f ≤ i := by omega
        simp [Region.segments, Region.segmentAt?, Reaches, started, first, early, eq_comm]
      · have reached : c ≤ i := by omega
        by_cases second : i < f
        · have early : ¬ f ≤ i := by omega
          simp [Region.segments, Region.segmentAt?, Reaches, first, reached, second, early, eq_comm]
        · have late : f ≤ i := by omega
          simp [Region.segments, Region.segmentAt?, Reaches, first, reached, second, late,
            ends, eq_comm]

theorem reaches_iff (inside : ∀ stop, next = some stop → (stop ≤ i ↔ stop ≤ j))
    (ends : i ≤ last ↔ j ≤ last) : Reaches next last i ↔ Reaches next last j := by
  cases next with
  | none => exact ends
  | some stop =>
    have same := inside stop rfl
    show i < stop ↔ j < stop
    omega

theorem Reaches.le (reaches : Reaches next last i)
    (inside : ∀ stop, next = some stop → stop < last) : i ≤ last := by
  cases next with
  | none => exact reaches
  | some stop => exact Nat.le_of_lt (Nat.lt_trans reaches (inside stop rfl))

theorem ofBlock?_congr {form : Form} (begins : q < i ∧ q < j) (ends : i ≤ last ∧ j ≤ last)
    (ordered : (form.parts.map Prod.fst).Pairwise (· < ·))
    (parts : ∀ part ∈ form.parts, part.1 ≤ i ↔ part.1 ≤ j) :
    Region.ofBlock? q form last i = Region.ofBlock? q form last j := by
  cases form with
  | cond _ _ | loop _ | function _ _ => rfl
  | guard name catchAt finallyAt =>
    have catches : ∀ c, catchAt = some c → (c ≤ i ↔ c ≤ j) := by
      rintro c rfl
      exact parts (c, .openCatch) (by simp [Form.parts])
    have finishes : ∀ f, finallyAt = some f → (f ≤ i ↔ f ≤ j) := by
      rintro f rfl
      exact parts (f, .openFinally) (by simp [Form.parts])
    have first : ∀ stop, catchAt.or finallyAt = some stop → (stop ≤ i ↔ stop ≤ j) := by
      intro stop given
      rcases Option.or_eq_some_iff.mp given with own | ⟨_, own⟩
      · exact catches stop own
      · exact finishes stop own
    have both : i ≤ last ↔ j ≤ last := iff_of_true ends.1 ends.2
    ext r
    show Region.segmentAt? _ _ _ _ = some r ↔ Region.segmentAt? _ _ _ _ = some r
    rw [segmentAt?_eq_some begins.1 ends.1 ordered, segmentAt?_eq_some begins.2 ends.2 ordered,
      reaches_iff first both, reaches_iff finishes both]
    refine or_congr_right (or_congr ?_ ?_)
    · exact exists_congr fun c => and_congr_right fun given => and_congr_left' (catches c given)
    · exact exists_congr fun f => and_congr_right fun given => and_congr_left' (finishes f given)

end Segments

section Regions

variable {cs : List Command} {o : Outline} {r r' : Region} {i j : Nat} {d e : Extent}

section

variable (found : Outline.find cs = .ok o)

include found

theorem Confines.begins (confines : Confines cs o i e) : e.place < i ∧ i ≤ e.last := by
  obtain ⟨_, _, same, begins, ends⟩ := (mem_opens_iff found).mp confines.2.1
  cases confines.1.symm.trans same
  exact ⟨begins, ends⟩

theorem encloses_iff :
    o.Encloses r i ↔ ∃ e, Confines cs o i e ∧ Region.ofBlock? e.place e.form e.last i = some r := by
  have confines {q last : Nat} {form : Form} (block : o.Spans q form last) (begins : q < i)
      (ends : i ≤ last) (region : (⟨q, form, last⟩ : Extent).isRegion = true) :
      Confines cs o i ⟨q, form, last⟩ :=
    ⟨block, (mem_opens_iff found).mpr ⟨form, last, block, begins, ends⟩, region⟩
  constructor
  · intro encloses
    cases encloses with
    | loop block begins ends => exact ⟨_, confines block begins ends rfl, rfl⟩
    | function block begins ends => exact ⟨_, confines block begins ends rfl, rfl⟩
    | @tried q last _ name catchAt finallyAt block begins ends =>
      have block : o.Spans q (.guard name catchAt finallyAt) last := block
      have bound : i ≤ last := ends.le fun stop given => by
        rcases Option.or_eq_some_iff.mp given with rfl | ⟨_, rfl⟩
        · exact (block.catchPart found).before
        · exact (block.finallyPart found).before
      refine ⟨_, confines block begins bound rfl, ?_⟩
      exact (segmentAt?_eq_some begins bound (block.ended found).grown.ordered).mpr
        (.inl ⟨ends, rfl⟩)
    | @catching q c last _ name finallyAt block begins ends =>
      have block : o.Spans q (.guard name (some c) finallyAt) last := block
      have behind : q < i := Nat.lt_of_lt_of_le (block.catchPart found).after begins
      have bound : i ≤ last := ends.le fun stop given => by
        subst given
        exact (block.finallyPart found).before
      refine ⟨_, confines block behind bound rfl, ?_⟩
      exact (segmentAt?_eq_some behind bound (block.ended found).grown.ordered).mpr
        (.inr (.inl ⟨c, rfl, begins, ends, rfl⟩))
    | @finishing q f last _ name catchAt block begins ends =>
      have block : o.Spans q (.guard name catchAt (some f)) last := block
      have behind : q < i := Nat.lt_of_lt_of_le (block.finallyPart found).after begins
      refine ⟨_, confines block behind ends rfl, ?_⟩
      exact (segmentAt?_eq_some behind ends (block.ended found).grown.ordered).mpr
        (.inr (.inr ⟨f, rfl, begins, rfl⟩))
  · rintro ⟨⟨q, form, last⟩, confined, region⟩
    obtain ⟨begins, ends⟩ := confined.begins found
    have block := confined.1
    cases form with
    | cond _ _ => cases region
    | loop kind => cases region; exact .loop block begins ends
    | function word name => cases region; exact .function block begins ends
    | guard name catchAt finallyAt =>
      have ended := block.ended found
      rcases (segmentAt?_eq_some begins ends ended.grown.ordered).mp region with
        ⟨before, rfl⟩ | ⟨c, rfl, after, before, rfl⟩ | ⟨f, rfl, after, rfl⟩
      · exact .tried block begins before
      · exact .catching block after before
      · exact .finishing block after ends

theorem parts_iff_of_inner (outer : o.Spans d.place d.form d.last)
    (inner : o.Spans e.place e.form e.last) (early : d.place < e.place)
    (here : e.place ≤ i ∧ i ≤ e.last) (there : e.place ≤ j ∧ j ≤ e.last) :
    ∀ part ∈ d.form.parts, part.1 ≤ i ↔ part.1 ≤ j := by
  intro part mem
  obtain ⟨_, _, _, around, linked⟩ := (outer.ended found).grown.parts part mem
  have apart : part.1 ≠ e.place := by
    intro same
    have partner := (block?_iff found _ _).mpr linked
    rw [same, inner] at partner
    cases partner
  have outside : ¬ (e.place < part.1 ∧ part.1 ≤ e.last) := by
    rintro ⟨begins, ends⟩
    have opened := mem_opens_within found inner begins ends
    rw [around] at opened
    rcases List.mem_cons.mp opened with same | lower
    · omega
    · have := lt_of_mem_opens found lower
      omega
  omega

theorem Confines.encloses_inner (outer : Confines cs o i d)
    (region : Region.ofBlock? d.place d.form d.last i = some r) (inner : Confines cs o i e)
    (early : d.place < e.place) (there : e.place ≤ j ∧ j ≤ e.last) : o.Encloses r j := by
  obtain ⟨begins, ends⟩ := outer.begins found
  obtain ⟨begins', ends'⟩ := inner.begins found
  have lasts : e.last < d.last := by
    rcases block?_laminar found outer.1 inner.1 early with before | inside
    · omega
    · exact inside
  have within : d.place < j ∧ j ≤ d.last := by omega
  refine (encloses_iff found).mpr ⟨d, ⟨outer.1, ?_, outer.2.2⟩, ?_⟩
  · exact (mem_opens_iff found).mpr ⟨d.form, d.last, outer.1, within⟩
  · rw [← region]
    refine ofBlock?_congr ⟨within.1, begins⟩ ⟨within.2, ends⟩ (outer.1.ended found).grown.ordered ?_
    exact parts_iff_of_inner found outer.1 inner.1 early there ⟨Nat.le_of_lt begins', ends'⟩

theorem Confines.unique (first : Confines cs o i d) (second : Confines cs o j e)
    (region : Region.ofBlock? d.place d.form d.last i = some r)
    (region' : Region.ofBlock? e.place e.form e.last j = some r) : d = e := by
  obtain ⟨_, same, own, _⟩ := ofBlock?_eq_some found first
  cases region.symm.trans same
  obtain ⟨_, same, own', _⟩ := ofBlock?_eq_some found second
  cases region'.symm.trans same
  exact owner_unique found first.1 second.1 own own'

end

theorem region?_natCast (o : Outline) (i : Nat) :
    o.region? i = (o.around? i).bind fun e => Region.ofBlock? e.place e.form e.last i := by
  have inside : ¬ (i : Int) < 0 := by omega
  rw [Outline.region?, if_neg inside, Int.toNat_natCast]

section

variable (found : Outline.find cs = .ok o)

include found

theorem region?_eq_none_iff : o.region? i = none ↔ ∀ r, ¬ o.Encloses r i := by
  rw [region?_natCast]
  constructor
  · intro none r encloses
    obtain ⟨e, confines, _⟩ := (encloses_iff found).mp encloses
    cases around : o.around? i with
    | none => exact around?_eq_none found around e confines
    | some x =>
      obtain ⟨_, region, _⟩ := ofBlock?_eq_some found (around?_eq_some found around).1
      rw [around, Option.bind_some, region] at none
      cases none
  · intro free
    cases around : o.around? i with
    | none => rfl
    | some x =>
      have confines := (around?_eq_some found around).1
      obtain ⟨r, region, _⟩ := ofBlock?_eq_some found confines
      exact absurd ((encloses_iff found).mpr ⟨x, confines, region⟩) (free r)

theorem isInnermost_of_region? (region : o.region? i = some r) : o.IsInnermost r i := by
  rw [region?_natCast] at region
  obtain ⟨e, around, region⟩ := Option.bind_eq_some_iff.mp region
  obtain ⟨inner, innermost⟩ := around?_eq_some found around
  refine ⟨(encloses_iff found).mpr ⟨e, inner, region⟩, fun r' encloses j inside => ?_⟩
  obtain ⟨d, outer, region'⟩ := (encloses_iff found).mp encloses
  rcases Nat.eq_or_lt_of_le (innermost d outer) with level | early
  · obtain rfl := owner_unique found outer.1 inner.1 (.inl rfl) (.inl level)
    cases region.symm.trans region'
    exact inside
  · obtain ⟨x, confines, at_j⟩ := (encloses_iff found).mp inside
    obtain rfl := confines.unique found inner at_j region
    obtain ⟨begins, ends⟩ := confines.begins found
    exact outer.encloses_inner found region' inner early ⟨Nat.le_of_lt begins, ends⟩

theorem Outline.IsInnermost.unique (first : o.IsInnermost r i) (second : o.IsInnermost r' i) :
    r = r' := by
  obtain ⟨d, outer, region⟩ := (encloses_iff found).mp first.1
  obtain ⟨e, inner, region'⟩ := (encloses_iff found).mp second.1
  -- the opening of an inner block lies in the outer region and not in the inner one
  have distinct {d e : Extent} {r r' : Region} (outer : Confines cs o i d)
      (inner : Confines cs o i e) (region : Region.ofBlock? d.place d.form d.last i = some r)
      (region' : Region.ofBlock? e.place e.form e.last i = some r')
      (least : ∀ j, o.Encloses r j → o.Encloses r' j) : ¬ d.place < e.place := by
    intro early
    obtain ⟨begins, ends⟩ := inner.begins found
    have opening := least _
      (outer.encloses_inner found region inner early (j := e.place) ⟨Nat.le_refl _, by omega⟩)
    obtain ⟨x, confines, at_opening⟩ := (encloses_iff found).mp opening
    obtain rfl := confines.unique found inner at_opening region'
    exact Nat.lt_irrefl _ (confines.begins found).1
  have level : d.place = e.place := by
    have one := distinct outer inner region region' (first.2 r' second.1)
    have other := distinct inner outer region' region (second.2 r first.1)
    omega
  obtain rfl := owner_unique found outer.1 inner.1 (.inl rfl) (.inl level)
  exact Option.some.inj (region.symm.trans region')

theorem region?_eq_some_iff : o.region? i = some r ↔ o.IsInnermost r i := by
  refine ⟨isInnermost_of_region? found, fun innermost => ?_⟩
  cases around : o.region? i with
  | none => exact absurd innermost.1 ((region?_eq_none_iff found).mp around r)
  | some x => rw [innermost.unique found (isInnermost_of_region? found around)]

theorem region?_eq_iff : o.region? i = o.region? j ↔ ∀ r, o.Encloses r i ↔ o.Encloses r j := by
  constructor
  · have transfer {i j : Nat} (same : o.region? i = o.region? j) (r : Region)
        (encloses : o.Encloses r i) : o.Encloses r j := by
      cases around : o.region? i with
      | none => exact absurd encloses ((region?_eq_none_iff found).mp around r)
      | some x =>
        have inner := isInnermost_of_region? found around
        have inner' := isInnermost_of_region? found (same.symm.trans around)
        exact inner.2 r encloses j inner'.1
    exact fun same r => ⟨transfer same r, transfer same.symm r⟩
  · intro same
    ext r
    rw [region?_eq_some_iff found, region?_eq_some_iff found, Outline.IsInnermost,
      Outline.IsInnermost, same r]
    simp only [same]

end

end Regions

/-- A jump between two places is allowed exactly if every loop, function and segment of a guard
holds both of them or neither, and it is refused with an error of its own otherwise. The region
around a place is the innermost one that holds it, there is none just if none holds it, and inside a
guard a segment is always found. -/
theorem jump_confined_iff {p q : Program} (outlined : q.outlined = .ok p) (a b : Nat)
    (m : Machine) :
    (Ran (checkJump p a b) m (.ok ()) m ↔ ∀ r, p.outline.Encloses r a ↔ p.outline.Encloses r b) ∧
    (¬ (∀ r, p.outline.Encloses r a ↔ p.outline.Encloses r b) →
      ∃ e, e.kind = .jump ∧ Ran (checkJump p a b) m (.error (.error e)) m) ∧
    ∀ i : Nat, (∀ r, p.outline.region? i = some r ↔ p.outline.IsInnermost r i) ∧
      (p.outline.region? i = none ↔ ∀ r, ¬ p.outline.Encloses r i) ∧
      ∀ place name catchAt finallyAt last,
        p.outline.block? place = some (.opener (.guard name catchAt finallyAt) last) →
        place < i → i ≤ last →
        ∃ r, Region.segmentAt? name last i (Region.segments place catchAt finallyAt) = some r := by
  obtain ⟨_, _⟩ := faithful_of_outlined outlined
  have passes : Ran (checkJump p a b) m (.ok ()) m ↔ p.outline.region? a = p.outline.region? b := by
    unfold checkJump
    split
    · rename_i same
      exact iff_of_true rfl same
    · rename_i differ
      refine iff_of_false (fun ran => ?_) differ
      cases (Prod.mk.inj ran).1
  refine ⟨passes.trans (region?_eq_iff p.found), fun differ => ?_,
    fun i => ⟨fun r => region?_eq_some_iff p.found, ?_, ?_⟩⟩
  · rw [← region?_eq_iff p.found] at differ
    unfold checkJump
    rw [if_neg differ]
    exact ⟨_, rfl, rfl⟩
  · exact region?_eq_none_iff p.found
  · intro place name catchAt finallyAt last block begins ends
    have ended := Outline.Spans.ended block p.found
    obtain ⟨r, region, _⟩ := segmentAt?_segments begins ends ended.grown.ordered fun part mem =>
      (ended.grown.parts part mem).1
    exact ⟨r, region⟩

def segmentsInLoop : Program := .ofCommands
  [{ name := "while", target := "true" }, { name := "try" }, { name := "if", target := "true" },
   { name := "label", target := "a" }, { name := "endIf" }, { name := "catch" },
   { name := "while", target := "true" }, { name := "endWhile" }, { name := "finally" },
   { name := "label", target := "b" }, { name := "endTry" }, { name := "endWhile" }]

theorem jump_confined_iff_segmentsInLoop : segmentsInLoop.outlined = .ok segmentsInLoop ∧
    (∀ r, segmentsInLoop.outline.Encloses r 3 ↔ segmentsInLoop.outline.Encloses r 2) ∧
    (∃ e, e.kind = .jump ∧ Ran (checkJump segmentsInLoop 4 5) {} (.error (.error e)) {}) ∧
    segmentsInLoop.outline.IsInnermost ⟨5, 8, "catch-block"⟩ 6 ∧
    segmentsInLoop.outline.IsInnermost ⟨6, 7, "while loop"⟩ 7 ∧
    segmentsInLoop.outline.IsInnermost ⟨8, 10, "finally-block"⟩ 10 ∧
      ∀ r, ¬ segmentsInLoop.outline.Encloses r 12 := by
  have outlined : segmentsInLoop.outlined = .ok segmentsInLoop := rfl
  have confined (a b : Nat) := jump_confined_iff outlined a b {}
  have regions := (confined 0 0).2.2
  refine ⟨outlined, (confined 3 2).1.mp rfl, (confined 4 5).2.1 fun same => ?_, ?_, ?_, ?_, ?_⟩
  · cases (Prod.mk.inj ((confined 4 5).1.mpr same)).1
  · exact ((regions 6).1 _).mp (by decide +kernel)
  · exact ((regions 7).1 _).mp (by decide +kernel)
  · exact ((regions 10).1 _).mp (by decide +kernel)
  · exact (regions 12).2.1.mp (by decide +kernel)

end Runbook
