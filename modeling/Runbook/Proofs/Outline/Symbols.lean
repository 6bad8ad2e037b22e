import Runbook.Proofs.Outline.Links

namespace Runbook

def Verb.declares : Verb → Bool
  | .label | .openFunction _ => true
  | _ => false

theorem Record.get?_set {α : Type} {r : Record α} {name key : String} {x : α} :
    (r.set name x).get? key = if name = key then some x else r.get? key := by
  induction r with
  | nil => rfl
  | cons entry rest ih =>
    obtain ⟨first, old⟩ := entry
    unfold Record.set
    by_cases here : first = name
    · subst here
      simp only [if_pos]
      unfold Record.get?
      split <;> rfl
    · rw [if_neg here]
      unfold Record.get?
      by_cases there : first = key
      · subst there
        rw [if_pos rfl, if_neg (Ne.symm here), if_pos rfl]
      · rw [if_neg there, if_neg there]
        exact ih

namespace Scan

variable {s t : Scan} {i : Nat} {c : Command} {v : Verb}

theorem Shift.symbols (shift : Shift s i c (some v) t) (inner : v.role ≠ .plain)
    (late : v.role ≠ .opening) : t.outline.symbols = s.outline.symbols := by
  cases shift with
  | pass plain => exact absurd (plain v rfl) inner
  | enter => exact absurd Form.role_opening late
  | extend | close | leave | giveBack => rfl

theorem step_symbols (done : s.step i c = .ok t) :
    ((∀ v, c.verb? = some v → v.declares = false) ∧ t.outline.symbols = s.outline.symbols) ∨
      ∃ v, c.verb? = some v ∧ v.declares = true ∧
        t.outline.symbols = s.outline.symbols.set c.target i := by
  have shift := shift_step done
  unfold step at done
  cases verb : c.verb? with
  | none => rw [verb] at done; cases done; exact .inl ⟨nofun, rfl⟩
  | some v =>
    rw [verb] at done shift
    dsimp only at done
    split at done
    · cases done
    · have same (nameless : v.declares = false) : ∀ w, some v = some w → w.declares = false := by
        rintro w ⟨⟩
        exact nameless
      by_cases inner : v.role = .plain ∨ v.role = .opening
      · cases v with
        | label => cases done; exact .inr ⟨.label, rfl, rfl, rfl⟩
        | openFunction word =>
          replace done : s.openFunction i c word = .ok t := done
          unfold openFunction at done
          split at done
          · cases done
          · cases done; exact .inr ⟨.openFunction word, rfl, rfl, rfl⟩
        | openIf | openTry | openLoop | goto | gotoIf | skipNext | call | exitTest | load =>
          cases done; exact .inl ⟨same rfl, rfl⟩
        | _ => simp [Verb.role] at inner
      · rw [not_or] at inner
        refine .inl ⟨same ?_, shift.symbols inner.1 inner.2⟩
        cases v <;> simp_all [Verb.role, Verb.declares]

end Scan

section Names

variable {cs : List Command} {o : Outline} {name : String} {place : Nat}

def Declared (cs : List Command) (name : String) (i : Nat) : Prop :=
  ∃ c v, cs[i]? = some c ∧ c.verb? = some v ∧ v.declares = true ∧ c.target = name

theorem symbols_before (found : Outline.find cs = .ok o) {i : Nat} {s : Scan}
    (scanned : Scan.before cs i = .ok s) : s.outline.symbols.get? name = some place ↔
      place < i ∧ Declared cs name place ∧ ∀ j, place < j → j < i → ¬ Declared cs name j := by
  induction i generalizing s with
  | zero =>
    have start : Scan.before cs 0 = .ok {} := rfl
    cases start.symm.trans scanned
    exact ⟨nofun, fun ⟨below, _⟩ => absurd below (Nat.not_lt_zero place)⟩
  | succ i ih =>
    obtain ⟨t, before⟩ := before_ok found i
    -- a command that does not declare the name leaves it at the last declaration before
    have skip (absent : ¬ Declared cs name i)
        (same : s.outline.symbols.get? name = t.outline.symbols.get? name) :
        s.outline.symbols.get? name = some place ↔ place < i + 1 ∧ Declared cs name place ∧
          ∀ j, place < j → j < i + 1 → ¬ Declared cs name j := by
      rw [same, ih before]
      constructor
      · rintro ⟨below, declared, last⟩
        refine ⟨by omega, declared, fun j after bound => ?_⟩
        rcases Nat.lt_or_ge j i with early | late
        · exact last j after early
        · obtain rfl : j = i := by omega
          exact absent
      · rintro ⟨below, declared, last⟩
        have other : place ≠ i := fun here => absent (here ▸ declared)
        exact ⟨by omega, declared, fun j after bound => last j after (by omega)⟩
    rcases Nat.lt_or_ge i cs.length with bound | beyond
    · have given : cs[i]? = some cs[i] := List.getElem?_eq_getElem bound
      rw [Scan.before_succ given, before] at scanned
      rcases Scan.step_symbols scanned with ⟨nameless, same⟩ | ⟨v, verb, declares, symbols⟩
      · refine skip ?_ (by rw [same])
        rintro ⟨c, v, command, verb, declares, _⟩
        cases given.symm.trans command
        rw [nameless v verb] at declares
        cases declares
      · by_cases target : cs[i].target = name
        · have declared : Declared cs name i := ⟨cs[i], v, given, verb, declares, target⟩
          rw [symbols, Record.get?_set, if_pos target, Option.some_inj]
          constructor
          · rintro rfl
            exact ⟨Nat.lt_succ_self _, declared, fun j after bound => by omega⟩
          · rintro ⟨below, _, last⟩
            by_contra other
            exact last i (by omega) (Nat.lt_succ_self i) declared
        · refine skip ?_ (by rw [symbols, Record.get?_set, if_neg target])
          rintro ⟨c, _, command, _, _, same⟩
          cases given.symm.trans command
          exact target same
    · rw [before_end found (by omega)] at scanned
      rw [before_end found beyond] at before
      cases scanned
      cases before
      refine skip ?_ rfl
      rintro ⟨c, _, command, _⟩
      rw [List.getElem?_eq_none beyond] at command
      cases command

theorem symbols_get?_iff (found : Outline.find cs = .ok o) (name : String) (place : Nat) :
    o.symbols.get? name = some place ↔ Declared cs name place ∧ ∀ j, place < j →
      ¬ Declared cs name j := by
  have bounded {j : Nat} (declared : Declared cs name j) : j < cs.length := by
    obtain ⟨c, _, command, _⟩ := declared
    exact (List.getElem?_eq_some_iff.mp command).1
  rw [symbols_before found (before_end found (Nat.le_refl _))]
  constructor
  · rintro ⟨_, declared, last⟩
    exact ⟨declared, fun j after again => last j after (bounded again) again⟩
  · rintro ⟨declared, last⟩
    exact ⟨bounded declared, declared, fun j after _ => last j after⟩

theorem verbAt_of_symbol (found : Outline.find cs = .ok o)
    (got : o.symbols.get? name = some place) :
    ∃ v, verbAt cs place = some v ∧ v.declares = true := by
  obtain ⟨⟨c, v, command, verb, declares, _⟩, _⟩ := (symbols_get?_iff found name place).mp got
  exact ⟨v, by rw [verbAt, command]; exact verb, declares⟩

end Names

end Runbook
