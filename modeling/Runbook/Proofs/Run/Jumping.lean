import Runbook.Proofs.Run.Seated

namespace Runbook

open Control List

section Jumps

variable {p : Program} {t : Tier} {i dest : Nat} {o : Outline} {source target base : List Nat}
  {left rest : List Spot}

def Outline.IsCond (o : Outline) (q : Nat) : Prop :=
  ∃ elseIfs orElse last, o.Spans q (.cond elseIfs orElse) last

theorem opens_jump [p.Faithful] (region : p.outline.region? i = p.outline.region? dest) :
    ∃ source target base, opens p.commands i = source ++ base ∧ opens p.commands dest =
      target ++ base ∧
      (∀ q ∈ source, p.outline.IsCond q) ∧ (∀ q ∈ target, p.outline.IsCond q) ∧
      (base = [] ∨ ∃ e : Extent, Confines p.commands p.outline i e ∧
        Confines p.commands p.outline dest e ∧
        base = e.place :: opens p.commands e.place ∧ ∀ part ∈ e.form.parts, part.1 ≤ i ↔
          part.1 ≤ dest) := by
  have cond {x : Nat} {q : Nat} (mem : q ∈ opens p.commands x)
      (free : ∀ e : Extent, Confines p.commands p.outline x e → e.place ≠ q) :
      p.outline.IsCond q := by
    obtain ⟨form, last, block⟩ := opening_of_mem_opens p.found mem
    cases form with
    | cond elseIfs orElse => exact ⟨elseIfs, orElse, last, block⟩
    | loop kind => exact absurd rfl (free ⟨q, .loop kind, last⟩ ⟨block, mem, rfl⟩)
    | guard name catchAt finallyAt =>
      exact absurd rfl (free ⟨q, .guard name catchAt finallyAt, last⟩ ⟨block, mem, rfl⟩)
    | function word name => exact absurd rfl (free ⟨q, .function word name, last⟩ ⟨block, mem, rfl⟩)
  have inner {x : Nat} {e : Extent} (confines : Confines p.commands p.outline x e)
      (innermost : ∀ d, Confines p.commands p.outline x d → d.place ≤ e.place) :
      ∃ above, opens p.commands x = above ++ e.place :: opens p.commands e.place ∧
      ∀ q ∈ above, p.outline.IsCond q := by
    obtain ⟨above, split⟩ := opens_split p.found confines.2.1
    refine ⟨above, split, fun q mem => ?_⟩
    have sorted := (opens_sorted p.found x).1
    rw [split] at sorted
    have later := (pairwise_append.mp sorted).2.2 q mem e.place mem_cons_self
    refine cond (x := x) (by rw [split]; exact mem_append_left _ mem) fun d confined same => ?_
    have := innermost d confined
    omega
  rcases region?_eq p.found region with
    none | ⟨e, confines, confines', innermost, innermost', parts⟩
  · refine ⟨opens p.commands i, opens p.commands dest, [], by simp, by simp, ?_, ?_, .inl rfl⟩
    · exact fun q mem => cond mem fun e confined => absurd confined (none e).1
    · exact fun q mem => cond mem fun e confined => absurd confined (none e).2
  · obtain ⟨source, split, conds⟩ := inner confines innermost
    obtain ⟨target, split', conds'⟩ := inner confines' innermost'
    exact ⟨source, target, _, split, split', conds, conds',
      .inr ⟨e, confines, confines', rfl, parts⟩⟩

theorem Covers.split_chain {jumps : Bool} {upper lower : List Nat} {spots : List Spot}
    (covers : Covers jumps o (upper ++ lower) spots) :
    ∃ above below, spots = above ++ below ∧ Covers jumps o upper above ∧
      Covers jumps o lower below := by
  induction upper generalizing spots with
  | nil => exact ⟨[], spots, rfl, .nil, covers⟩
  | cons q upper ih =>
    cases covers with
    | keep fits rest =>
      obtain ⟨above, below, rfl, first, second⟩ := ih rest
      exact ⟨_ :: above, below, rfl, .keep fits first, second⟩
    | skip block passable rest =>
      obtain ⟨above, below, rfl, first, second⟩ := ih rest
      exact ⟨above, below, rfl, .skip block passable first, second⟩

theorem Covers.conds {chain : List Nat} (conds : ∀ q ∈ chain, o.IsCond q) :
    Covers true o chain [] := by
  induction chain with
  | nil => exact .nil
  | cons q chain ih =>
    obtain ⟨elseIfs, orElse, last, block⟩ := conds q mem_cons_self
    exact .skip block rfl (ih fun r mem => conds r (mem_cons_of_mem q mem))

theorem Spot.Fits.isCond {s : Spot} (fits : s.Fits o) (cond : o.IsCond s.place) :
    s.isCond = true := by
  obtain ⟨_, _, _, block⟩ := cond
  cases fits with
  | cond _ _ => rfl
  | loop other => cases block.symm.trans other
  | guard other => cases block.symm.trans other

theorem Covers.jump {opened : List Nat} (covers : Covers true o (source ++ base) (left ++ rest))
    (conds : ∀ q ∈ source, o.IsCond q) (conds' : ∀ q ∈ target, o.IsCond q) (fresh : source.Nodup)
    (shared : ∀ q ∈ source, q ∈ opened → ∃ inner above above', source = above ++ q :: inner ∧
      target = above' ++ q :: inner)
    (around : ∀ q ∈ base, q ∈ opened) (gone : ∀ s ∈ left, s.isCond = true ∧ s.place ∉ opened)
    (kept : ∀ s, rest.head? = some s → s.isCond = true → s.place ∈ opened) :
    Covers true o (target ++ base) rest := by
  obtain ⟨above, below, split, first, second⟩ := covers.split_chain
  obtain ⟨more, rfl, rfl⟩ : ∃ more, above = left ++ more ∧ rest = more ++ below := by
    rcases append_eq_append_iff.mp split with ⟨more, rfl, rfl⟩ | ⟨extra, rfl, rfl⟩
    · exact ⟨more, rfl, rfl⟩
    · cases extra with
      | nil => exact ⟨[], by simp, rfl⟩
      | cons s extra =>
        have inside : s.place ∈ base := second.places.subset (by simp)
        exact absurd (around s.place inside) (gone s (by simp)).2
  cases more with
  | nil => exact (Covers.conds conds').append second
  | cons s more =>
    obtain ⟨upper, lower, rfl, _, tail⟩ := first.split
    obtain ⟨skipped, lower', rfl, _, fits, below'⟩ := tail.uncons
    have mem : s.place ∈ upper ++ (skipped ++ s.place :: lower') := by simp
    obtain ⟨inner, before, before', same, rfl⟩ :=
      shared s.place mem (kept s rfl (fits.isCond (conds s.place mem)))
    have outside : s.place ∉ before ∧ s.place ∉ inner := by
      rw [same] at fresh
      obtain ⟨_, later, apart⟩ := nodup_append.mp fresh
      exact ⟨fun inside => apart s.place inside s.place mem_cons_self rfl, (nodup_cons.mp later).1⟩
    rw [← append_assoc] at same
    obtain ⟨_, _, rfl⟩ := (append_cons_inj_of_notMem outside.1 outside.2).mp same.symm
    have passed : Covers true o before' [] := Covers.conds fun q inside => conds' q
      (by simp [inside])
    have kept_below : Covers true o (s.place :: inner ++ base) (s :: more ++ below) :=
      (Covers.keep fits below').append second
    rw [append_assoc]
    exact passed.append kept_below

theorem within_append_left {function : Option Nat} {inner outer : List Nat}
    (outside : ∀ f, function = some f → f ∉ inner) :
    within function (inner ++ outer) = inner ++ within function outer := by
  induction inner with
  | nil => rfl
  | cons q inner ih =>
    have other : function ≠ some q := fun own => outside q own mem_cons_self
    rw [cons_append, within_cons other, ih fun f own mem => outside f own (mem_cons_of_mem q mem)]
    rfl

theorem shared_cond {q : Nat} [p.Faithful] (split : opens p.commands i = source ++ base)
    (split' : opens p.commands dest = target ++ base) (mem : q ∈ source)
    (mem' : q ∈ opens p.commands dest) :
    ∃ inner above above', source = above ++ q :: inner ∧ target = above' ++ q :: inner := by
  have unique {x : Nat} {part : List Nat} (split : opens p.commands x = part ++ base)
      (mem : q ∈ part) :
      ∃ inner above, part = above ++ q :: inner ∧ opens p.commands q = inner ++ base := by
    obtain ⟨above, inner, rfl⟩ := append_of_mem mem
    have whole : q ∈ opens p.commands x := by rw [split]; simp
    obtain ⟨before, parted⟩ := opens_split p.found whole
    have sorted := (opens_sorted p.found x).1
    rw [parted] at sorted
    have outside : q ∉ before := fun inside =>
      Nat.lt_irrefl q ((pairwise_append.mp sorted).2.2 q inside q mem_cons_self)
    have outside' : q ∉ opens p.commands q := fun inside => Nat.lt_irrefl q
      (lt_of_mem_opens p.found inside)
    have same : before ++ q :: opens p.commands q = above ++ q :: (inner ++ base) := by
      rw [← parted, split]
      simp
    exact ⟨inner, above, rfl, ((append_cons_inj_of_notMem outside outside').mp same).2.2⟩
  have outside : q ∉ base := by
    have sorted := (opens_sorted p.found i).1
    rw [split] at sorted
    exact fun inside => Nat.lt_irrefl q ((pairwise_append.mp sorted).2.2 q mem q inside)
  have target_mem : q ∈ target := by
    rw [split'] at mem'
    rcases mem_append.mp mem' with inside | inside
    · exact inside
    · exact absurd inside outside
  obtain ⟨inner, above, rfl, same⟩ := unique split mem
  obtain ⟨inner', above', rfl, same'⟩ := unique split' target_mem
  have equal : inner' = inner := append_cancel_right (same'.symm.trans same)
  exact ⟨inner, above, above', rfl, by rw [equal]⟩

theorem Seated.jump [p.Faithful] (seated : Seated p t i) (jumps : hasJump p.commands = true)
    (other : verbAt p.commands i ≠ some .openFinally)
    (region : p.outline.region? i = p.outline.region? dest) (blocks : t.blocks = left ++ rest)
    (gone : ∀ s ∈ left, s.isCond = true ∧ s.place ∉ opens p.commands dest)
    (kept : ∀ s, rest.head? = some s → s.isCond = true → s.place ∈ opens p.commands dest) :
    Seated p { t with blocks := rest } dest := by
  obtain ⟨source, target, base, split, split', conds, conds', which⟩ := opens_jump region
  have function_base {f : Nat} (own : t.function = some f) :
      f ∉ source ∧ f ∈ base ∧ f ∉ target := by
    obtain ⟨mem, _, _, _, block⟩ := seated.function f own
    have not_cond : ¬ p.outline.IsCond f := by
      rintro ⟨_, _, _, other⟩
      cases block.symm.trans other
    rw [split] at mem
    refine ⟨fun inside => not_cond (conds f inside), ?_, fun inside => not_cond (conds' f inside)⟩
    rcases mem_append.mp mem with inside | inside
    · exact absurd (conds f inside) not_cond
    · exact inside
  have chain : within t.function (opens p.commands i) = source ++ within t.function base := by
    rw [split, within_append_left fun f own => (function_base own).1]
  have chain' : within t.function (opens p.commands dest) = target ++ within t.function base := by
    rw [split', within_append_left fun f own => (function_base own).2.2]
  have fewer {s : Spot} (mem : s ∈ rest) : s ∈ t.blocks := by
    rw [blocks]; exact mem_append_right _ mem
  refine ⟨?_, ?_, fun s mem => seated.sound s (fewer mem), ?_⟩
  · intro f own
    refine ⟨?_, (seated.function f own).2⟩
    rw [split']
    exact mem_append_right _ (function_base own).2.1
  · have covers := seated.covers
    rw [blocks, chain, jumps] at covers
    show Covers (hasJump p.commands) p.outline (within t.function (opens p.commands dest)) rest
    rw [chain', jumps]
    have fresh : source.Nodup := by
      have sorted := (opens_sorted p.found i).1
      rw [split] at sorted
      exact (pairwise_append.mp sorted).1.imp (fun later => Nat.ne_of_gt later)
    refine covers.jump conds conds' fresh (fun q mem opened => shared_cond split split' mem opened)
      ?_ gone kept
    intro q mem
    rw [split']
    exact mem_append_right _ (mem_of_mem_within mem)
  · intro s mem g name catchAt j last mark holder
    obtain ⟨finaled, late⟩ := seated.sent s (fewer mem) g name catchAt j last mark holder
    have part : (j, Verb.openFinally) ∈ (Form.guard name catchAt (some j)).parts := by
      simp [Form.parts]
    have inside : s.place ∈ base := by
      have inside := seated.mem_opens (fewer mem)
      rw [split] at inside
      rcases mem_append.mp inside with cond | inside
      · obtain ⟨_, _, _, other⟩ := conds s.place cond
        cases holder.symm.trans other
      · exact inside
    rcases which with rfl | ⟨e, confines, confines', rfl, parts⟩
    · cases inside
    rcases mem_cons.mp inside with same | outer
    · -- the guard around both ends: the jump stays in one of its segments
      rw [same] at holder
      obtain ⟨form, _⟩ := Block.opener.inj (Option.some.inj (confines.1.symm.trans holder))
      have segment := parts (j, .openFinally) (by rw [form]; exact part)
      refine ⟨fun before => finaled ?_, fun finishing => segment.mp (late finishing)⟩
      rcases Nat.lt_or_eq_of_le (segment.mpr (Nat.le_of_lt before)) with before | rfl
      · exact before
      · exact absurd (holder.finallyPart p.found).verb other
    · have first := lt_of_mem_opens p.found confines.2.1
      have second := lt_of_mem_opens p.found confines'.2.1
      refine ⟨fun before => finaled ?_, fun finishing => ?_⟩
      · obtain ⟨_, ends, block, _, bound⟩ := (mem_opens_iff p.found).mp confines'.2.1
        have := part_before block outer holder part (by omega)
        omega
      · obtain ⟨_, ends, block, _, bound⟩ := (mem_opens_iff p.found).mp confines.2.1
        have := part_before block outer holder part (Nat.le_trans (late finishing) bound)
        omega

end Jumps

end Runbook
