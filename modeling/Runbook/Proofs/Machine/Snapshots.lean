import Runbook.Env
import Runbook.Proofs.Outline.Symbols

namespace Runbook

open List

namespace Record

variable {α : Type} {r : Record α} {key : String}

theorem get?_erase {name : String} :
    (r.erase name).get? key = if name = key then none else r.get? key := by
  induction r with
  | nil => simp [erase, get?]
  | cons entry rest ih =>
    obtain ⟨first, value⟩ := entry
    unfold erase at ih ⊢
    by_cases gone : first = name
    · rw [filter_cons_of_neg (by simpa using gone), ih]
      subst gone
      by_cases same : first = key <;> simp [get?, same]
    · rw [filter_cons_of_pos (by simpa using gone)]
      unfold get?
      rw [ih]
      by_cases same : first = key
      · subst same
        simp [Ne.symm gone]
      · simp [same]

theorem get?_append (r s : Record α) (key : String) :
    get? (r ++ s) key = (r.get? key).or (s.get? key) := by
  induction r with
  | nil => rfl
  | cons entry rest ih =>
    obtain ⟨first, value⟩ := entry
    by_cases same : first = key
    · simp [get?, same]
    · simpa [get?, same] using ih

theorem get?_eq_none : r.get? key = none ↔ key ∉ r.names := by
  induction r with
  | nil => simp [get?, names]
  | cons entry rest ih =>
    obtain ⟨first, value⟩ := entry
    unfold get?
    by_cases same : first = key
    · simp [names, same]
    · simp only [if_neg same, ih]
      simp [names, Ne.symm same]

theorem set_of_get? {value : α} (known : r.get? key = some value) : r.set key value = r := by
  induction r with
  | nil => cases known
  | cons entry rest ih =>
    obtain ⟨first, old⟩ := entry
    unfold get? at known
    unfold set
    split at known
    · rename_i same
      cases known
      rw [if_pos same]
    · rename_i other
      rw [if_neg other, ih known]

theorem erase_of_get? (absent : r.get? key = none) : r.erase key = r := by
  refine filter_eq_self.mpr fun entry mem => ?_
  have other : entry.1 ≠ key := fun same => get?_eq_none.mp absent (same ▸ mem_map_of_mem mem)
  simpa using other

theorem has_iff : r.has key = true ↔ key ∈ r.names := by
  rw [has, Option.isSome_iff_ne_none]
  exact not_iff_comm.mp get?_eq_none.symm

end Record

namespace Env

variable {names : List String}

theorem get?_restoreEntry (env : Env) (entry : String × Option Value) (key : String) :
    (env.restoreEntry entry).get? key = if entry.1 = key then entry.2 else env.get? key := by
  obtain ⟨name, value⟩ := entry
  cases value with
  | none => exact Record.get?_erase
  | some value => exact Record.get?_set

theorem get?_restore {saved : Snapshot} (distinct : saved.names.Nodup) (env : Env) (key : String) :
    (env.restore saved).get? key = (saved.get? key).getD (env.get? key) := by
  induction saved generalizing env with
  | nil => rfl
  | cons entry rest ih =>
    obtain ⟨fresh, others⟩ := nodup_cons.mp distinct
    have step : (env.restore (entry :: rest)).get? key =
        (Record.get? rest key).getD ((env.restoreEntry entry).get? key) :=
      ih others _
    rw [step, get?_restoreEntry]
    by_cases same : entry.1 = key
    · have none : Record.get? rest key = none := Record.get?_eq_none.mpr (same ▸ fresh)
      simp [Record.get?, same, none]
    · simp [Record.get?, same]

theorem foldl_capture (env : Env) (names : List String) {saved out : Snapshot}
    (distinct : saved.names.Nodup)
    (all : names.foldl (fun saved name => if saved.has name then saved else saved ++
      [(name, env.get? name)]) saved = out) :
    out.names.Nodup ∧ ∀ key, out.get? key =
      (saved.get? key).or (if key ∈ names then some (env.get? key) else none) := by
  induction names generalizing saved with
  | nil =>
    subst all
    exact ⟨distinct, fun key => by simp⟩
  | cons name rest ih =>
    rw [foldl_cons] at all
    cases known : saved.has name with
    | true =>
      rw [known, if_pos rfl] at all
      obtain ⟨nodup, gives⟩ := ih distinct all
      refine ⟨nodup, fun key => ?_⟩
      rw [gives]
      by_cases same : key = name
      · subst same
        obtain ⟨value, given⟩ := Option.isSome_iff_exists.mp known
        simp [given]
      · simp [same]
    | false =>
      rw [known, if_neg (by simp)] at all
      have fresh : name ∉ saved.names := fun mem => by
        rw [Record.has_iff.mpr mem] at known
        cases known
      have distinct' : Record.names (saved ++ [(name, env.get? name)]) |>.Nodup := by
        rw [Record.names, map_append, nodup_append]
        refine ⟨distinct, by simp, fun a mem b last => ?_⟩
        have last : b = name := by simpa using last
        rintro rfl
        exact fresh (last ▸ mem)
      obtain ⟨nodup, gives⟩ := ih distinct' all
      refine ⟨nodup, fun key => ?_⟩
      rw [gives, Record.get?_append]
      by_cases same : key = name
      · subst same
        simp [Record.get?, Record.get?_eq_none.mpr fresh]
      · simp [Record.get?, same, Ne.symm same]

theorem capture_nodup {env : Env} : (env.capture names).names.Nodup :=
  (@foldl_capture env names [] _ nodup_nil rfl).1

theorem get?_capture (env : Env) (names : List String) (key : String) :
    (env.capture names).get? key = if key ∈ names then some (env.get? key) else none :=
  (@foldl_capture env names [] _ nodup_nil rfl).2 key

theorem get?_restore_capture (env old : Env) (names : List String) (key : String) :
    (env.restore (old.capture names)).get? key =
      if key ∈ names then old.get? key else env.get? key := by
  rw [get?_restore capture_nodup, get?_capture]
  split <;> rfl

theorem mem_names_capture {old : Env} {name : String} :
    name ∈ (old.capture names).names ↔ name ∈ names := by
  rw [← not_iff_not, ← Record.get?_eq_none, get?_capture]
  split <;> simp_all

section Several

variable {past above below : List Snapshot} {name : String} {vars : Env}

theorem get?_foldl_restore (distinct : ∀ saved ∈ past, saved.names.Nodup)
    (other : ∀ saved ∈ past, name ∉ saved.names) :
    Record.get? (past.foldl restore vars) name = vars.get? name := by
  induction past generalizing vars with
  | nil => rfl
  | cons saved rest ih =>
    rw [foldl_cons, ih (fun s mem => distinct s (mem_cons_of_mem _ mem))
      (fun s mem => other s (mem_cons_of_mem _ mem)), get?_restore (distinct saved mem_cons_self),
      Record.get?_eq_none.mpr (other saved mem_cons_self)]
    rfl

theorem get?_foldl_restore_lowest {names : List String} {old : Env}
    (distinct : ∀ saved ∈ past, saved.names.Nodup)
    (split : past = above ++ old.capture names :: below) (mem : name ∈ names)
    (lowest : ∀ saved ∈ below, name ∉ saved.names) :
    Record.get? (past.foldl restore vars) name = old.get? name := by
  have lower : ∀ saved ∈ below, saved.names.Nodup := fun saved present =>
    distinct saved (by rw [split]; exact mem_append_right _ (mem_cons_of_mem _ present))
  rw [split, foldl_append, foldl_cons, get?_foldl_restore lower lowest,
    get?_restore_capture, if_pos mem]

end Several

end Env

end Runbook
