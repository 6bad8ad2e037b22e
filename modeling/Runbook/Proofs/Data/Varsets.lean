import Runbook.Proofs.Machine.Snapshots
import Runbook.Varset

namespace Runbook

open List

namespace Record

variable {α : Type} {r : Record α} {x : α}

theorem mem_names_set {name key : String} :
    key ∈ (r.set name x).names ↔ key = name ∨ key ∈ r.names := by
  rw [← has_iff, ← has_iff, has, has, get?_set]
  split
  · rename_i same
    simp [same]
  · rename_i other
    simp [Ne.symm other]

theorem nodup_set {name : String} (distinct : r.names.Nodup) : (r.set name x).names.Nodup := by
  induction r with
  | nil => exact nodup_cons.mpr ⟨not_mem_nil, nodup_nil⟩
  | cons entry rest ih =>
    obtain ⟨first, old⟩ := entry
    obtain ⟨fresh, others⟩ := nodup_cons.mp distinct
    unfold set
    split
    · exact distinct
    · rename_i other
      refine nodup_cons.mpr ⟨fun mem => ?_, ih others⟩
      rcases mem_names_set.mp mem with same | mem
      · exact other same
      · exact fresh mem

theorem nodup_override {entries : List (String × α)} (distinct : r.names.Nodup) :
    (r.override entries).names.Nodup := by
  induction entries generalizing r with
  | nil => exact distinct
  | cons entry rest ih => exact ih (nodup_set distinct)

theorem nodup_ofEntries (entries : List (String × α)) : (ofEntries entries).names.Nodup :=
  nodup_override nodup_nil

theorem get?_override {entries : Record α} (distinct : entries.names.Nodup) (r : Record α)
    (name : String) : (r.override entries).get? name = (entries.get? name).or (r.get? name) := by
  induction entries generalizing r with
  | nil => rfl
  | cons entry rest ih =>
    obtain ⟨fresh, others⟩ := nodup_cons.mp distinct
    show ((r.set entry.1 entry.2).override rest).get? name = _
    rw [ih others, get?_set, get?]
    split
    · rename_i same
      rw [get?_eq_none.mpr (same ▸ fresh)]
      rfl
    · rfl

end Record

theorem ok_of_bind {ε α β : Type} {x : Except ε α} {f : α → Except ε β} {out : β}
    (done : x >>= f = .ok out) : ∃ a, x = .ok a ∧ f a = .ok out := by
  cases x with
  | error e => cases done
  | ok a => exact ⟨a, rfl, done⟩

theorem ok_of_map {ε α β : Type} {x : Except ε α} {f : α → β} {out : β} (done : x.map f = .ok out) :
    ∃ a, x = .ok a ∧ f a = out := by
  cases x with
  | error e => cases done
  | ok a => exact ⟨a, rfl, Except.ok.inj done⟩

namespace Json

def Distinct : Value → Prop
  | .map fields => (Record.names fields).Nodup
  | .list items => ∀ fields, Value.map fields ∈ items → (Record.names fields).Nodup
  | _ => True

variable {cs after : List Char} {v : Value}

theorem distinct_word (found : word? cs = some (v, after)) : Distinct v := by
  obtain ⟨⟨w, v'⟩, known, same⟩ := Option.map_eq_some_iff.mp found
  cases same
  have mem := mem_of_find?_eq_some known
  simp only [words, mem_cons, Prod.mk.injEq, not_mem_nil, or_false] at mem
  rcases mem with ⟨_, rfl⟩ | ⟨_, rfl⟩ | ⟨_, rfl⟩ | ⟨_, rfl⟩ | ⟨_, rfl⟩ | ⟨_, rfl⟩ <;> trivial

theorem distinct_unsigned {start : List Char} {negative : Bool}
    (done : unsigned start negative cs = .ok (v, after)) : Distinct v := by
  unfold unsigned at done
  split at done
  · cases done
  · dsimp only at done
    split at done
    · obtain ⟨n, whole, same⟩ := ok_of_map done
      cases same
      unfold integer at whole
      split at whole <;> cases whole
      trivial
    all_goals cases done; trivial

theorem distinct_scalar (done : scalar cs = .ok (v, after)) : Distinct v := by
  unfold scalar at done
  split at done
  · rename_i found
    cases done
    exact distinct_word found
  · unfold number at done
    split at done <;> exact distinct_unsigned done

mutual

theorem distinct_value {fuel : Nat} {cs after : List Char} {v : Value}
    (done : value fuel cs = .ok (v, after)) : Distinct v := by
  unfold value at done
  split at done
  · cases done
  · obtain ⟨_, _, same⟩ := ok_of_map done
    cases same
    trivial
  · split at done
    · cases done
      exact nodup_nil
    · obtain ⟨_, _, same⟩ := ok_of_map done
      cases same
      exact Record.nodup_ofEntries _
  · split at done
    · cases done
      exact nofun
    · obtain ⟨⟨items, _⟩, found, same⟩ := ok_of_map done
      cases same
      exact fun fields mem => distinct_elements found (.map fields) mem
  · exact distinct_scalar done

theorem distinct_elements {fuel : Nat} {cs after : List Char} {items : List Value}
    (done : elements fuel cs = .ok (items, after)) : ∀ v ∈ items, Distinct v := by
  unfold elements at done
  split at done
  · cases done
  · obtain ⟨⟨v, rest⟩, first, done⟩ := ok_of_bind done
    dsimp only at done
    split at done
    · cases done
      exact forall_mem_singleton.mpr (distinct_value first)
    · obtain ⟨⟨others, _⟩, further, same⟩ := ok_of_bind done
      cases same
      exact forall_mem_cons.mpr ⟨distinct_value first, distinct_elements further⟩
    · cases done

end

theorem distinct_read {text : List Char} (done : read text = .ok v) : Distinct v := by
  unfold read at done
  split at done
  · cases done
  · obtain ⟨⟨w, rest⟩, found, done⟩ := ok_of_bind done
    dsimp only at done
    split at done
    · cases done
      exact distinct_value found
    · cases done

end Json

namespace Xml

theorem nodup_keptAttributes {bindings : Bindings} {place : List Char} {stored : List Stored}
    {found out : Record String} (distinct : found.names.Nodup)
    (done : keptAttributes bindings place found stored = .ok out) : out.names.Nodup := by
  induction stored generalizing found with
  | nil => cases done; exact distinct
  | cons first rest ih =>
    cases first with
    | binding lead uri => exact ih distinct done
    | kept lead name value =>
      obtain ⟨full, _, done⟩ := ok_of_bind done
      split at done
      · cases done
      · exact ih (Record.nodup_set distinct) done

def Progress.Distinct (p : Progress) : Prop := ∀ t ∈ p.tags, t.attributes.names.Nodup

variable {types : Types} {fuel : Nat} {place : List Char} {p p' : Progress} {floor : Option Nat}

theorem distinct_enter {t : StartTag} (distinct : p.Distinct)
    (done : enter types fuel place p t = .ok p') : p'.Distinct := by
  unfold enter at done
  obtain ⟨stored, _, done⟩ := ok_of_bind done
  obtain ⟨attributes, kept, done⟩ := ok_of_bind done
  obtain ⟨name, _, done⟩ := ok_of_bind done
  have more : ∀ t ∈ (⟨name, attributes⟩ :: p.tags : List Tag), t.attributes.names.Nodup :=
    forall_mem_cons.mpr ⟨@nodup_keptAttributes _ _ _ [] _ nodup_nil kept, distinct⟩
  split at done <;> cases done <;> exact more

theorem tags_leave {name : List Char} (done : leave floor p name place = .ok p') :
    p'.tags = p.tags := by
  unfold leave at done
  split at done
  · cases done
  · split at done
    · cases done
    · split at done <;> cases done
      rfl

theorem distinct_content {active : List (List Char)} {cs rest : List Char} (distinct : p.Distinct)
    (done : content types floor active fuel p cs = .ok (p', rest)) : p'.Distinct := by
  induction fuel generalizing floor active p p' cs rest with
  | zero => cases done
  | succ fuel ih =>
    unfold content at done
    split at done
    · split at done
      · cases done
      · split at done <;> cases done
        exact distinct
    · obtain ⟨⟨name, after⟩, _, done⟩ := ok_of_bind done
      obtain ⟨left, leaves, done⟩ := ok_of_bind done
      have kept : left.Distinct := by
        unfold Progress.Distinct
        rwa [tags_leave leaves]
      split at done
      · cases done
        exact kept
      · exact ih kept done
    · obtain ⟨_, _, done⟩ := ok_of_bind done
      exact ih distinct done
    · obtain ⟨_, _, done⟩ := ok_of_bind done
      obtain ⟨_, _, done⟩ := ok_of_bind done
      exact ih distinct done
    · unfold refuse at done
      split at done <;> cases done
    · obtain ⟨⟨isDeclaration, after⟩, _, done⟩ := ok_of_bind done
      dsimp only at done
      split at done
      · cases done
      · exact ih distinct done
    · obtain ⟨⟨t, after⟩, _, done⟩ := ok_of_bind done
      obtain ⟨entered, enters, done⟩ := ok_of_bind done
      have kept := distinct_enter distinct enters
      split at done
      · cases done
        exact kept
      · exact ih kept done
    · obtain ⟨⟨piece, after⟩, _, done⟩ := ok_of_bind done
      cases piece with
      | plain c => exact ih distinct done
      | code n _ =>
        dsimp only at done
        split at done
        · exact ih distinct done
        · cases done
      | entity e =>
        dsimp only at done
        split at done
        · exact ih distinct done
        · split at done
          · cases done
          · split at done
            · cases done
            · split at done
              · cases done
              · split at done
                · exact ih distinct done
                · split at done
                  · exact ih (ih distinct ‹_›) done
                  · cases done
    · cases done
    · split at done
      · exact ih distinct done
      · cases done

theorem distinct_read {text : List Char} {tags : List Tag} (done : read text = .ok tags) :
    ∀ t ∈ tags, t.attributes.names.Nodup := by
  unfold read at done
  obtain ⟨⟨types, body⟩, _, done⟩ := ok_of_bind done
  obtain ⟨⟨p, after⟩, found, done⟩ := ok_of_bind done
  obtain ⟨_, _, done⟩ := ok_of_bind done
  cases done
  intro t mem
  exact distinct_content (p := {}) nofun found t (mem_reverse.mp mem)

end Xml

namespace Varset

variable {varsets : List Varset}

theorem distinct_ofValues? {items : List Value} (distinct : Json.Distinct (.list items))
    (done : ofValues? items = some varsets) : ∀ v ∈ varsets, v.names.Nodup := by
  induction items generalizing varsets with
  | nil => cases done; exact nofun
  | cons item rest ih =>
    unfold ofValues? at done
    split at done
    · rename_i first others one more
      cases done
      refine forall_mem_cons.mpr
        ⟨?_, ih (fun fields mem => distinct fields (mem_cons_of_mem _ mem)) more⟩
      cases item with
      | map fields =>
        cases one
        exact distinct _ mem_cons_self
      | _ => cases one
    · cases done

theorem distinct_ofText {limits : Limits} {format : Format} {path : Path} {text : String}
    (done : ofText limits format path text = .ok varsets) : ∀ v ∈ varsets, v.names.Nodup := by
  cases format with
  | json =>
    unfold ofText ofJson at done
    dsimp only at done
    split at done
    · cases done; exact nofun
    split at done
    · cases done
    split at done
    · cases done
    · cases done
    · cases done; exact nofun
    · rename_i items read
      split at done
      · rename_i found
        cases done
        exact distinct_ofValues? (Json.distinct_read read) found
      · cases done
    · cases done
  | xml =>
    unfold ofText ofXml at done
    dsimp only at done
    split at done
    · cases done
    · rename_i tags read
      cases done
      intro v mem
      obtain ⟨t, kept, rfl⟩ := mem_map.mp mem
      have same : (ofTag t).names = t.attributes.names := by simp [ofTag, Record.names]
      rw [same]
      exact Xml.distinct_read read t (mem_filter.mp kept).1

end Varset

end Runbook
