import Runbook.Proofs.Machine.Control
import Runbook.Proofs.Outline.Symbols
import Runbook.Proofs.Structured.Reading

namespace Runbook

open List

/-- What stands around a command: a loop inside the innermost function, and the place of that
function. -/
structure Scope where
  loop : Bool := false
  function : Option Nat := none

def Scope.around (x : Scope) : Around := ⟨x.loop, x.function.isSome⟩

/-- What a tree is part of: items of a block, the branches of a condition from one of them on, or a
segment of a guard. -/
inductive Layer
  | items
  | branches (owner : Nat) (left : List Nat) (orElse : Option Nat)
  | segment (v : Verb) (owner : Nat) (place : Option Nat)

/-- The commands from a place up to another one read as a tree, and the outline says so. -/
inductive Laid (p : Program) : Layer → Scope → Nat → Nat → Tree → Prop
  | done {x i} : Laid p .items x i i .done
  | single {x : Scope} {i j} {c : Command} {rest} (has : p.Has i c)
      (alone : ∀ v, c.verb? = some v → v.standsIn x.around = true)
      (owned : c.verb? = some .giveBack → ∃ f, x.function = some f ∧ p.Links i f)
      (further : Laid p .items x (i + 1) j rest) : Laid p .items x i j (.single i c rest)
  | cond {x i m n j} {c : Command} {body others rest elseIfs orElse} (has : p.Has i c)
      (opens : c.verb? = some .openIf) (block : p.Spans i (.cond elseIfs orElse) n)
      (inner : Laid p .items x (i + 1) m body)
      (branches : Laid p (.branches i elseIfs orElse) x m n others) (closes : p.Does n .endIf)
      (linked : p.Links n i) (further : Laid p .items x (n + 1) j rest) :
      Laid p .items x i j (.cond i c body others rest)
  | noBranch {x q n} : Laid p (.branches q [] none) x n n .done
  | elseIf {x q i m n} {c : Command} {body others left orElse} (has : p.Has i c)
      (verb : c.verb? = some .elseIf) (linked : p.Links i q)
      (inner : Laid p .items x (i + 1) m body)
      (branches : Laid p (.branches q left orElse) x m n others) :
      Laid p (.branches q (i :: left) orElse) x i n (.branch i c body others)
  | orElse {x q i n} {c : Command} {body} (has : p.Has i c) (verb : c.verb? = some .orElse)
      (linked : p.Links i q) (inner : Laid p .items x (i + 1) n body) :
      Laid p (.branches q [] (some i)) x i n (.branch i c body .done)
  | loop {x i n j} {c : Command} {kind body rest} (has : p.Has i c)
      (opens : c.verb? = some (.openLoop kind)) (block : p.Spans i (.loop kind) n)
      (inner : Laid p .items { x with loop := true } (i + 1) n body)
      (closes : p.Does n (.endLoop kind)) (linked : p.Links n i)
      (further : Laid p .items x (n + 1) j rest) : Laid p .items x i j (.loop i kind c body rest)
  | guard {x i m n k j body handler last rest name catchAt finallyAt} (opens : p.Does i .openTry)
      (block : p.Spans i (.guard name catchAt finallyAt) k) (inner : Laid p .items x (i + 1) m body)
      (handles : Laid p (.segment .openCatch i catchAt) x m n handler)
      (finishes : Laid p (.segment .openFinally i finallyAt) x n k last) (closes : p.Does k .endTry)
      (linked : p.Links k i) (further : Laid p .items x (k + 1) j rest) :
      Laid p .items x i j (.guard i body handler last rest)
  | noSegment {x v q i} : Laid p (.segment v q none) x i i .done
  | segment {x v q i j} {c : Command} {body} (has : p.Has i c) (verb : c.verb? = some v)
      (linked : p.Links i q) (inner : Laid p .items x (i + 1) j body) :
      Laid p (.segment v q (some i)) x i j (.segment i c body)
  | function {x i n j} {c : Command} {word body rest} (has : p.Has i c)
      (opens : c.verb? = some (.openFunction word)) (block : p.Spans i (.function word c.target) n)
      (inner : Laid p .items { loop := false, function := some i } (i + 1) n body)
      (closes : p.Does n (.endFunction word)) (linked : p.Links n i)
      (further : Laid p .items x (n + 1) j rest) :
      Laid p .items x i j (.function i c.target body rest)

theorem Laid.le {p : Program} {layer : Layer} {x : Scope} {i j : Nat} {t : Tree}
    (laid : Laid p layer x i j t) : i ≤ j := by
  induction laid with
  | done | noBranch | noSegment => exact Nat.le_refl _
  | _ => omega

section Scans

variable {cs : List Command} {o : Outline} {i q : Nat} {c : Command} {v : Verb} {s t : Scan}
  {rest : List Opener} {x : Around} {form : Form}

def openers (cs : List Command) (i : Nat) : List Opener :=
  match Scan.before cs i with
  | .ok s => s.pending
  | .error _ => []

def symbolsAt (cs : List Command) (i : Nat) : Record Nat :=
  match Scan.before cs i with
  | .ok s => s.outline.symbols
  | .error _ => []

theorem openers_of_before (scanned : Scan.before cs i = .ok s) : openers cs i = s.pending := by
  rw [openers, scanned]

theorem symbolsAt_of_before (scanned : Scan.before cs i = .ok s) :
    symbolsAt cs i = s.outline.symbols := by rw [symbolsAt, scanned]

theorem Scan.Shift.blocks {w : Option Verb} (shift : Scan.Shift s i c w t) :
    ∀ entry ∈ s.outline.blocks, entry ∈ t.outline.blocks := by
  intro entry mem
  cases shift with
  | pass _ _ blocks | enter _ _ blocks => rwa [blocks]
  | extend | leave | giveBack => exact mem_cons_of_mem _ mem
  | close => exact mem_cons_of_mem _ (mem_cons_of_mem _ mem)

theorem block?_of_before {b : Block} (found : Outline.find cs = .ok o)
    (scanned : Scan.before cs i = .ok s) (mem : (q, b) ∈ s.outline.blocks) :
    o.block? q = some b := by
  have kept (n : Nat) (t : Scan) (later : Scan.before cs (i + n) = .ok t) :
      (q, b) ∈ t.outline.blocks := by
    induction n generalizing t with
    | zero => cases scanned.symm.trans later; exact mem
    | succ n ih =>
      by_cases bound : i + n < cs.length
      · obtain ⟨s', t', before, next, shift⟩ := shift_at found bound
        cases next.symm.trans later
        exact shift.blocks _ (ih s' before)
      · have last := before_end found (by omega : cs.length ≤ i + n)
        rw [before_end found (by omega : cs.length ≤ i + (n + 1))] at later
        cases later
        exact ih _ last
  exact (block?_iff found q b).mpr (kept cs.length _ (before_end found (by omega)))

section

variable (found : Outline.find cs = .ok o) (has : cs[i]? = some c)

include found has

theorem scan_verb (verb : c.verb? = some v) :
    ∃ s t, Scan.before cs i = .ok s ∧ Scan.before cs (i + 1) = .ok t ∧ s.verb i c v = .ok t := by
  obtain ⟨s, before⟩ := before_ok found i
  obtain ⟨t, next⟩ := before_ok found (i + 1)
  refine ⟨s, t, before, next, ?_⟩
  rw [Scan.before_succ has, before] at next
  replace next : s.step i c = .ok t := next
  unfold Scan.step at next
  rw [verb] at next
  dsimp only at next
  split at next
  · cases next
  · exact next

theorem symbolsAt_succ :
    ((∀ v, c.verb? = some v → v.declares = false) ∧ symbolsAt cs (i + 1) = symbolsAt cs i) ∨
    ∃ v, c.verb? = some v ∧ v.declares = true ∧ symbolsAt cs (i + 1) =
      (symbolsAt cs i).set c.target i := by
  obtain ⟨s, before⟩ := before_ok found i
  obtain ⟨t, next⟩ := before_ok found (i + 1)
  rw [symbolsAt_of_before before, symbolsAt_of_before next]
  rw [Scan.before_succ has, before] at next
  exact Scan.step_symbols next

theorem symbolsAt_same (nameless : ∀ v, c.verb? = some v → v.declares = false) :
    symbolsAt cs (i + 1) = symbolsAt cs i := by
  rcases symbolsAt_succ found has with ⟨_, same⟩ | ⟨v, verb, declares, _⟩
  · exact same
  · rw [nameless v verb] at declares
    cases declares

theorem symbolsAt_set (verb : c.verb? = some v) (declares : v.declares = true) :
    symbolsAt cs (i + 1) = (symbolsAt cs i).set c.target i := by
  rcases symbolsAt_succ found has with ⟨nameless, _⟩ | ⟨_, _, _, symbols⟩
  · rw [nameless v verb] at declares
    cases declares
  · exact symbols

end

theorem role_of_standsIn (stands : v.standsIn x = true) :
    v.role ≠ .opening ∧ v.role ≠ .part ∧ v.role ≠ .closing := by
  cases v <;> simp_all [Verb.standsIn, Verb.role]

section

variable (found : Outline.find cs = .ok o)

include found

theorem openers_single (has : cs[i]? = some c)
    (alone : ∀ v, c.verb? = some v → v.standsIn x = true) : openers cs (i + 1) = openers cs i := by
  obtain ⟨s, t, before, next, shift⟩ := shift_at found (List.getElem?_eq_some_iff.mp has).1
  rw [openers_of_before before, openers_of_before next]
  have own : verbAt cs i = c.verb? := by rw [verbAt, has]; rfl
  rw [own] at shift
  generalize same : c.verb? = w at shift
  have role {v : Verb} (verb : w = some v) :
      v.role ≠ .opening ∧ v.role ≠ .part ∧ v.role ≠ .closing :=
    role_of_standsIn (alone v (same.trans verb))
  cases shift with
  | pass _ pending _ => exact pending
  | enter => exact absurd Form.role_opening (role rfl).1
  | extend _ grows => exact absurd grows.role (role rfl).2.1
  | close => exact absurd (Form.role_closing _) (role rfl).2.2
  | leave | giveBack => rfl

theorem openers_opening (has : cs[i]? = some c) (verb : c.verb? = some v)
    (enters : ∀ s t : Scan, s.verb i c v = .ok t → t.pending = ⟨i, form⟩ :: s.pending) :
    openers cs (i + 1) = ⟨i, form⟩ :: openers cs i := by
  obtain ⟨s, t, before, next, done⟩ := scan_verb found has verb
  rw [openers_of_before before, openers_of_before next]
  exact enters s t done

theorem openers_part {form' : Form} (has : cs[i]? = some c) (verb : c.verb? = some v)
    (top : openers cs i = ⟨q, form⟩ :: rest) (grows : Form.Grows i v form form') :
    openers cs (i + 1) = ⟨q, form'⟩ :: rest ∧ o.Links i q := by
  obtain ⟨s, t, before, next, done⟩ := scan_verb found has verb
  rw [openers_of_before before] at top
  cases (Scan.verb_extend top grows).symm.trans done
  rw [openers_of_before next]
  exact ⟨rfl, block?_of_before found next mem_cons_self⟩

theorem openers_closing (verb : verbAt cs i = some v) (closing : v.role = .closing)
    (top : openers cs i = ⟨q, form⟩ :: rest) :
    openers cs (i + 1) = rest ∧ o.Spans q form i ∧ o.Links i q := by
  obtain ⟨s, t, before, next, shift⟩ := shift_at found (lt_length_of_verbAt verb)
  rw [openers_of_before before] at top
  rw [openers_of_before next]
  rw [verb] at shift
  cases shift with
  | close was _ =>
    cases was.symm.trans top
    exact ⟨rfl, block?_of_before found next (mem_cons_of_mem _ mem_cons_self),
      block?_of_before found next mem_cons_self⟩
  | pass plain => rw [plain _ rfl] at closing; cases closing
  | enter => rw [Form.role_opening] at closing; cases closing
  | extend _ grows => rw [grows.role] at closing; cases closing
  | leave exits => rcases exits with rfl | rfl <;> cases closing
  | giveBack => cases closing

theorem owner_giveBack (has : cs[i]? = some c) (verb : c.verb? = some .giveBack) :
    ∃ top, Scan.function? (openers cs i) = some top ∧ o.Links i top.place := by
  obtain ⟨s, t, before, next, done⟩ := scan_verb found has verb
  rw [openers_of_before before]
  replace done : s.giveBack i = .ok t := done
  unfold Scan.giveBack at done
  split at done
  · rename_i top inner
    cases done
    exact ⟨top, inner, block?_of_before found next mem_cons_self⟩
  · cases done

end

end Scans

section Laying

variable {p : Program} {i j : Nat} {t : Tree} {q i' : Nat} {form : Form} {rest : List Opener}
  {cs : List Command} {x : Around} {y : Scope}

theorem function?_cons (other : form.isFunction = false) :
    Scan.function? (⟨q, form⟩ :: rest) = Scan.function? rest := by
  simp [Scan.function?, Stack.enclosing?, Stack.downFrom?, other]

theorem function?_top (own : form.isFunction = true) :
    Scan.function? (⟨q, form⟩ :: rest) = some ⟨q, form⟩ := by
  simp [Scan.function?, Stack.enclosing?, Stack.downFrom?, own]

def Form.withSegment : Form → Verb → Option Nat → Form
  | .guard name _ finallyAt, .openCatch, place => .guard name place finallyAt
  | .guard name catchAt _, .openFinally, place => .guard name catchAt place
  | form, _, _ => form

def Scope.At (cs : List Command) (i : Nat) (x : Around) (y : Scope) : Prop :=
  y.loop = x.loop ∧ (Scan.function? (openers cs i)).map Opener.place = y.function

theorem Scope.At.congr (scope : Scope.At cs i x y) (same : openers cs i' = openers cs i) :
    Scope.At cs i' x y := ⟨scope.1, by rw [same]; exact scope.2⟩

theorem Scope.At.inner (scope : Scope.At cs i x y)
    (function : Scan.function? (openers cs i) = Scan.function? rest)
    (top : openers cs i' = ⟨q, form⟩ :: rest) (other : form.isFunction = false) :
    Scope.At cs i' x y := by
  refine ⟨scope.1, ?_⟩
  rw [top, function?_cons other, ← function]
  exact scope.2

theorem standsIn_scope {c : Command} {v : Verb} [p.Faithful] (scope : Scope.At p.commands i x y)
    (has : p.Has i c) (verb : c.verb? = some v) (stands : v.standsIn x = true) :
    v.standsIn y.around = true := by
  cases v with
  | again | leave => exact scope.1.trans stands
  | giveBack =>
    obtain ⟨top, inner, _⟩ := owner_giveBack p.found has verb
    have function := scope.2
    rw [inner] at function
    show y.function.isSome = true
    rw [← function]
    rfl
  | label | call | exitTest | load _ => rfl
  | _ => cases stands

/-- What a tree that is read means for the open blocks and for the outline. -/
def Placing (p : Program) (i j : Nat) (t : Tree) : Phrase → Around → Prop
  | .items, x =>
    ∀ y, Scope.At p.commands i x y → openers p.commands j = openers p.commands i ∧
      Laid p .items y i j t
  | .branches, x =>
    ∀ y q met rest, Scope.At p.commands i x y → openers p.commands i = ⟨q, .cond met none⟩ :: rest →
      ∃ left orElse, openers p.commands j = ⟨q, .cond (met ++ left) orElse⟩ :: rest ∧
      Laid p (.branches q left orElse) y i j t
  | .segment v, x => ∀ y q name catchAt rest, Scope.At p.commands i x y →
      openers p.commands i = ⟨q, .guard name catchAt none⟩ :: rest →
      (v = .openCatch ∧ catchAt = none ∨ v = .openFinally) →
      ∃ place, openers p.commands j = ⟨q, (Form.guard name catchAt none).withSegment v place⟩ ::
      rest ∧ Laid p (.segment v q place) y i j t

section Placing

variable [p.Faithful] {x : Around} {m k : Nat} {body others handler last rest : Tree}

theorem placing_single (has : p.Has i c) (alone : ∀ v, c.verb? = some v → v.standsIn x = true)
    (further : Placing p (i + 1) j rest .items x) : Placing p i j (.single i c rest) .items x := by
  intro y scope
  have same := openers_single p.found has alone
  obtain ⟨after, further⟩ := further y (scope.congr same)
  refine ⟨after.trans same, .single has (fun v verb => ?_) (fun verb => ?_) further⟩
  · exact standsIn_scope scope has verb (alone v verb)
  · obtain ⟨top, inner, owned⟩ := owner_giveBack p.found has verb
    refine ⟨top.place, ?_, owned⟩
    rw [← scope.2, inner]
    rfl

theorem placing_cond (has : p.Has i c) (opens : c.verb? = some .openIf)
    (inner : Placing p (i + 1) m body .items x) (branches : Placing p m n others .branches x)
    (closes : p.Does n .endIf) (further : Placing p (n + 1) j rest .items x) :
    Placing p i j (.cond i c body others rest) .items x := by
  intro y scope
  have entered : openers p.commands (i + 1) = ⟨i, .cond [] none⟩ :: openers p.commands i :=
    openers_opening p.found has opens fun s t done => by cases done; rfl
  obtain ⟨same, body⟩ := inner y (scope.inner rfl entered rfl)
  have top := same.trans entered
  obtain ⟨left, orElse, met, others⟩ := branches y i [] _ (scope.inner rfl top rfl) top
  obtain ⟨leaves, block, linked⟩ := openers_closing p.found closes rfl met
  obtain ⟨after, rest⟩ := further y (scope.congr leaves)
  exact ⟨after.trans leaves, .cond has opens block body others closes linked rest⟩

theorem placing_elseIf (has : p.Has i c) (verb : c.verb? = some .elseIf)
    (inner : Placing p (i + 1) m body .items x) (branches : Placing p m n others .branches x) :
    Placing p i n (.branch i c body others) .branches x := by
  intro y q met rest scope top
  obtain ⟨added, linked⟩ := openers_part p.found has verb top (.elseIf met)
  have function : Scan.function? (openers p.commands i) = Scan.function? rest := by
    rw [top, function?_cons rfl]
  obtain ⟨same, body⟩ := inner y (scope.inner function added rfl)
  have added := same.trans added
  obtain ⟨left, orElse, met', others⟩ := branches y q (met ++ [i]) rest
    (scope.inner function added rfl) added
  refine ⟨i :: left, orElse, ?_, .elseIf has verb linked body others⟩
  rw [met', append_assoc]
  rfl

theorem placing_loop {kind : LoopKind} (has : p.Has i c) (opens : c.verb? = some (.openLoop kind))
    (inner : Placing p (i + 1) n body .items { x with loop := true })
    (closes : p.Does n (.endLoop kind)) (further : Placing p (n + 1) j rest .items x) :
    Placing p i j (.loop i kind c body rest) .items x := by
  intro y scope
  have entered : openers p.commands (i + 1) = ⟨i, .loop kind⟩ :: openers p.commands i :=
    openers_opening p.found has opens fun s t done => by cases done; rfl
  have within := scope.inner rfl entered rfl
  obtain ⟨same, body⟩ := inner { y with loop := true } ⟨rfl, within.2⟩
  obtain ⟨left, block, linked⟩ := openers_closing p.found closes rfl (same.trans entered)
  obtain ⟨after, rest⟩ := further y (scope.congr left)
  exact ⟨after.trans left, .loop has opens block body closes linked rest⟩

theorem placing_guard (opens : p.Does i .openTry) (inner : Placing p (i + 1) m body .items x)
    (handles : Placing p m n handler (.segment .openCatch) x)
    (finishes : Placing p n k last (.segment .openFinally) x) (closes : p.Does k .endTry)
    (further : Placing p (k + 1) j rest .items x) :
    Placing p i j (.guard i body handler last rest) .items x := by
  intro y scope
  obtain ⟨c, has, verb⟩ := Option.bind_eq_some_iff.mp opens
  have entered :
      openers p.commands (i + 1) = ⟨i, .guard c.target none none⟩ :: openers p.commands i :=
    openers_opening p.found has verb fun s t done => by cases done; rfl
  obtain ⟨same, body⟩ := inner y (scope.inner rfl entered rfl)
  have top := same.trans entered
  obtain ⟨catchAt, top, handler⟩ := handles y i c.target none _ (scope.inner rfl top rfl) top
    (.inl ⟨rfl, rfl⟩)
  obtain ⟨finallyAt, top, last⟩ := finishes y i c.target catchAt _
    (scope.inner rfl top rfl) top (.inr rfl)
  obtain ⟨left, block, linked⟩ := openers_closing p.found closes rfl top
  obtain ⟨after, rest⟩ := further y (scope.congr left)
  exact ⟨after.trans left, .guard opens block body handler last closes linked rest⟩

theorem placing_segment {v : Verb} (has : p.Has i c) (verb : c.verb? = some v)
    (inner : Placing p (i + 1) j body .items x) :
    Placing p i j (.segment i c body) (.segment v) x := by
  intro y q name catchAt rest scope top which
  have met : openers p.commands (i + 1) =
      ⟨q, (Form.guard name catchAt none).withSegment v (some i)⟩ :: rest ∧ p.Links i q := by
    rcases which with ⟨rfl, rfl⟩ | rfl
    · exact openers_part p.found has verb top (.openCatch name)
    · exact openers_part p.found has verb top (.openFinally name catchAt)
  have function : Scan.function? (openers p.commands i) = Scan.function? rest := by
    rw [top, function?_cons rfl]
  have other : ((Form.guard name catchAt none).withSegment v (some i)).isFunction = false := by
    rcases which with ⟨rfl, rfl⟩ | rfl <;> rfl
  obtain ⟨same, body⟩ := inner y (scope.inner function met.1 other)
  exact ⟨some i, same.trans met.1, .segment has verb met.2 body⟩

theorem placing_function {word : FunctionWord} (has : p.Has i c)
    (opens : c.verb? = some (.openFunction word))
    (inner : Placing p (i + 1) n body .items { loop := false, function := true })
    (closes : p.Does n (.endFunction word)) (further : Placing p (n + 1) j rest .items x) :
    Placing p i j (.function i c.target body rest) .items x := by
  intro y scope
  have entered :
      openers p.commands (i + 1) = ⟨i, .function word c.target⟩ :: openers p.commands i := by
    refine openers_opening p.found has opens fun s t done => ?_
    replace done : s.openFunction i c word = .ok t := done
    unfold Scan.openFunction at done
    split at done
    · cases done
    · cases done; rfl
  obtain ⟨same, body⟩ := inner { loop := false, function := some i }
    ⟨rfl, by rw [entered, function?_top rfl]; rfl⟩
  obtain ⟨left, block, linked⟩ := openers_closing p.found closes rfl (same.trans entered)
  obtain ⟨after, rest⟩ := further y (scope.congr left)
  exact ⟨after.trans left, .function has opens block body closes linked rest⟩

theorem Reads.placing {phrase : Phrase} (reads : Reads p.commands phrase x i j t) :
    Placing p i j t phrase x := by
  induction reads with
  | done => exact fun y _ => ⟨rfl, .done⟩
  | noBranch => exact fun y q met rest _ top => ⟨[], none, by rw [append_nil]; exact top, .noBranch⟩
  | noSegment =>
    intro y q name catchAt rest _ top which
    refine ⟨none, ?_, .noSegment⟩
    rcases which with ⟨rfl, rfl⟩ | rfl <;> exact top
  | single has alone _ further => exact placing_single has alone further
  | cond has opens _ _ closes _ inner branches further =>
    exact placing_cond has opens inner branches closes further
  | elseIf has verb _ _ inner branches => exact placing_elseIf has verb inner branches
  | @orElse x i n c body has verb _ inner =>
    intro y q met rest scope top
    obtain ⟨added, linked⟩ := openers_part p.found has verb top (.orElse met)
    have function : Scan.function? (openers p.commands i) = Scan.function? rest := by
      rw [top, function?_cons rfl]
    obtain ⟨same, body⟩ := inner y (scope.inner function added rfl)
    exact ⟨[], some i, by rw [same, added, append_nil], .orElse has verb linked body⟩
  | loop has opens _ closes _ inner further => exact placing_loop has opens inner closes further
  | guard opens _ _ _ closes _ inner handles finishes further =>
    exact placing_guard opens inner handles finishes closes further
  | segment has verb _ inner => exact placing_segment has verb inner
  | function has opens _ closes _ inner further =>
    exact placing_function has opens inner closes further

end Placing

theorem Reads.laid [p.Faithful] (reads : Reads p.commands .items {} 0 p.commands.length t) :
    Laid p .items {} 0 p.commands.length t :=
  (reads.placing {} ⟨rfl, rfl⟩).2

end Laying

namespace Record

variable {α β : Type}

theorem override_append (r : Record α) (a b : List (String × α)) :
    r.override (a ++ b) = (r.override a).override b :=
  foldl_append

theorem get?_map (f : α → β) (r : Record α) (name : String) :
    Record.get? (r.map fun entry => (entry.1, f entry.2)) name = (r.get? name).map f := by
  induction r with
  | nil => rfl
  | cons entry rest ih =>
    simp only [map_cons, get?]
    split
    · rfl
    · exact ih

theorem set_map (f : α → β) (r : Record α) (name : String) (x : α) :
    Record.set (r.map fun entry => (entry.1, f entry.2)) name (f x) =
      (r.set name x).map fun entry => (entry.1, f entry.2) := by
  induction r with
  | nil => rfl
  | cons entry rest ih =>
    simp only [map_cons, set]
    split
    · rfl
    · rw [ih]; rfl

theorem override_map (f : α → β) (r : Record α) (entries : List (String × α)) :
    Record.override (r.map fun entry => (entry.1, f entry.2))
      (entries.map fun entry => (entry.1, f entry.2)) =
      (r.override entries).map fun entry => (entry.1, f entry.2) := by
  induction entries generalizing r with
  | nil => rfl
  | cons entry rest ih =>
    simp only [map_cons, override, foldl_cons, set_map]
    exact ih _

theorem mem_of_get?_override {r : Record α} {entries : List (String × α)} {name : String} {x : α}
    (got : (r.override entries).get? name = some x) :
    (name, x) ∈ entries ∨ r.get? name = some x := by
  induction entries generalizing r with
  | nil => exact .inr got
  | cons entry rest ih =>
    rcases @ih (r.set entry.1 entry.2) got with mem | kept
    · exact .inl (mem_cons_of_mem _ mem)
    · rw [get?_set] at kept
      split at kept
      · rename_i same
        cases kept
        exact .inl (by rw [← same]; exact mem_cons_self)
      · exact .inr kept

end Record

structure FunctionAt (p : Program) (q last : Nat) (word : FunctionWord) (body : Tree) : Prop where
  opens : p.Does q (.openFunction word)
  block : ∃ name, p.Spans q (.function word name) last
  inner : Laid p .items { loop := false, function := some q } (q + 1) last body
  closes : p.Does last (.endFunction word)
  linked : p.Links last q

section Functions

variable {p : Program} {x : Scope} {layer : Layer} {i j : Nat} {t : Tree} {name : String}

theorem Laid.declared (laid : Laid p layer x i j t) {d : Declaration}
    (mem : (name, d) ∈ t.declared) :
    (d.text = none ∧ p.Does d.place .label) ∨
      ∃ body word last, d.text = some body ∧ FunctionAt p d.place last word body := by
  induction laid with
  | done | noBranch | noSegment => cases mem
  | single has _ _ _ ih =>
    rcases mem_append.mp mem with own | other
    · split at own
      · rename_i verb
        cases mem_singleton.mp own
        exact .inl ⟨rfl, verbAt_of_at has verb⟩
      · cases own
    · exact ih other
  | cond _ _ _ _ _ _ _ _ body others rest =>
    simp only [Tree.declared, mem_append] at mem
    exact mem.elim (Or.elim · body others) rest
  | elseIf _ _ _ _ _ body rest | loop _ _ _ _ _ _ _ body rest =>
    exact (mem_append.mp mem).elim body rest
  | orElse _ _ _ _ body => exact (mem_append.mp mem).elim body nofun
  | guard _ _ _ _ _ _ _ _ body handler last rest =>
    simp only [Tree.declared, mem_append] at mem
    exact mem.elim (Or.elim · (Or.elim · body handler) last) rest
  | segment _ _ _ _ body => exact body mem
  | function has opens block inner closes linked _ body rest =>
    rcases mem_cons.mp mem with own | mem
    · cases own
      exact .inr ⟨_, _, _, rfl, verbAt_of_at has opens, ⟨_, block⟩, inner, closes, linked⟩
    · exact (mem_append.mp mem).elim body rest

def Phrase.nameless : Phrase → Prop
  | .segment v => v.declares = false
  | _ => True

theorem Reads.symbols {cs : List Command} {o : Outline} {phrase : Phrase} {x : Around}
    (found : Outline.find cs = .ok o) (reads : Reads cs phrase x i j t) (part : phrase.nameless) :
    symbolsAt cs j = (symbolsAt cs i).override
      (t.declared.map fun entry => (entry.1, entry.2.place)) := by
  have nameless {i : Nat} {v : Verb} (verb : verbAt cs i = some v) (other : v.declares = false) :
      symbolsAt cs (i + 1) = symbolsAt cs i := by
    obtain ⟨c, has, own⟩ := Option.bind_eq_some_iff.mp verb
    refine symbolsAt_same found has fun w same => ?_
    cases own.symm.trans same
    exact other
  induction reads with
  | done | noBranch | noSegment => rfl
  | @single x i j c rest has alone _ ih =>
    rw [ih trivial]
    by_cases label : c.verb? = some .label
    · rw [symbolsAt_set found has label rfl]
      simp only [Tree.declared, if_pos label]
      rfl
    · rw [symbolsAt_same found has fun v verb => ?_]
      · simp only [Tree.declared, if_neg label]
        rfl
      · have stands := alone v verb
        cases v with
        | label => exact absurd verb label
        | openFunction _ => cases stands
        | _ => rfl
  | cond has opens _ _ closes _ body others rest =>
    rw [rest trivial, nameless closes rfl, others trivial, body trivial,
      nameless (verbAt_of_at has opens) rfl]
    simp only [Tree.declared, map_append, Record.override_append]
  | elseIf has verb _ _ body others =>
    rw [others trivial, body trivial, nameless (verbAt_of_at has verb) rfl]
    simp only [Tree.declared, map_append, Record.override_append]
  | orElse has verb _ body =>
    rw [body trivial, nameless (verbAt_of_at has verb) rfl]
    simp [Tree.declared]
  | loop has opens _ closes _ body rest =>
    rw [rest trivial, nameless closes rfl, body trivial, nameless (verbAt_of_at has opens) rfl]
    simp only [Tree.declared, map_append, Record.override_append]
  | guard opens _ _ _ closes _ body handler last rest =>
    rw [rest trivial, nameless closes rfl, last rfl, handler rfl, body trivial, nameless opens rfl]
    simp only [Tree.declared, map_append, Record.override_append]
  | segment has verb _ body =>
    rw [body trivial, nameless (verbAt_of_at has verb) part]
    rfl
  | function has opens _ closes _ body rest =>
    rw [rest trivial, nameless closes rfl, body trivial, symbolsAt_set found has opens rfl,
      ← Record.override_append, ← map_append]
    rfl

theorem Reads.function?_eq [p.Faithful] (reads : Reads p.commands .items {} 0 p.commands.length t) :
    (t.function? name = none ∧ Action.function? p name = none) ∨
      ∃ body q last word, t.function? name = some body ∧ Action.function? p name = some q ∧
        FunctionAt p q last word body := by
  have entries : p.outline.symbols =
      (Record.ofEntries t.declared).map fun entry => (entry.1, entry.2.place) := by
    have whole := reads.symbols p.found trivial
    rw [symbolsAt_of_before (before_end p.found (Nat.le_refl _))] at whole
    rw [whole, Record.ofEntries, ← Record.override_map]
    rfl
  have symbol : p.outline.symbols.get? name = ((Record.ofEntries t.declared).get? name).map
      Declaration.place := by
    rw [entries, Record.get?_map]
  unfold Tree.function? Action.function?
  rw [symbol]
  cases got : (Record.ofEntries t.declared).get? name with
  | none => exact .inl ⟨rfl, rfl⟩
  | some d =>
    rcases Record.mem_of_get?_override got with mem | wrong
    · rcases reads.laid.declared mem with ⟨text, label⟩ | ⟨body, word, last, text, function⟩
      · -- a label opens no block
        refine .inl ⟨by simp [text], ?_⟩
        cases block : p.outline.block? d.place with
        | none => simp [block]
        | some b =>
          cases meaning_of_block? p.found label block with
          | _ => contradiction
      · obtain ⟨own, block⟩ := function.block
        exact .inr ⟨body, d.place, last, word, by simp [text], by simp [block], function⟩
    · cases wrong

end Functions

end Runbook
