import Mathlib.Data.List.Perm.Subperm
import Runbook.Proofs.Data.Varsets

namespace Runbook

open List

namespace Varset

variable {v w : Varset}

def Alike (v w : Varset) : Prop := ∀ name, name ∈ v.names ↔ name ∈ w.names

instance (v w : Varset) : Decidable (v.Alike w) :=
  decidable_of_iff ((∀ name ∈ v.names, name ∈ w.names) ∧ ∀ name ∈ w.names, name ∈ v.names)
    ⟨fun ⟨there, back⟩ name => ⟨there name, back name⟩,
      fun alike => ⟨fun name => (alike name).mp, fun name => (alike name).mpr⟩⟩

theorem length_names (v : Varset) : v.names.length = v.length := length_map _

theorem alike_iff (distinct : v.names.Nodup) (distinct' : w.names.Nodup) :
    v.Alike w ↔ v.length = w.names.length ∧ ∀ name ∈ v.names, name ∈ w.names := by
  rw [← length_names]
  constructor
  · intro alike
    have perm : v.names.Perm w.names := (perm_ext_iff_of_nodup distinct distinct').mpr alike
    exact ⟨perm.length_eq, fun name => (alike name).mp⟩
  · rintro ⟨size, known⟩ name
    have perm := (subperm_of_subset distinct known).perm_of_length_le (Nat.le_of_eq size.symm)
    exact perm.mem_iff

def alikeCount : List Varset → Nat
  | [] => 0
  | first :: rest => (first :: rest).findIdx fun v => !decide (v.Alike first)

theorem alikeCount_le (vs : List Varset) : alikeCount vs ≤ vs.length := by
  cases vs with
  | nil => exact Nat.le_refl 0
  | cons first rest => exact findIdx_le_length

variable {first : Varset} {rest : List Varset} {k : Nat}

theorem alike_of_lt (bound : k < alikeCount (first :: rest))
    (listed : (first :: rest)[k]? = some v) : v.Alike first := by
  obtain ⟨inside, rfl⟩ := List.getElem?_eq_some_iff.mp listed
  simpa using not_of_lt_findIdx bound

theorem not_alike_at (listed : (first :: rest)[alikeCount (first :: rest)]? = some v) :
    ¬ v.Alike first := by
  simpa using findIdx_of_getElem?_eq_some listed

end Varset

namespace Reader

variable {r r' : Reader} {first v : Varset} {rest : List Varset} {k : Nat} {asked : Nat}
  {limits : Limits} {files : Files} {base : Option Path} {target : String} {names : List String}

/-- A reader that has taken varsets of a file, each of which has its names once. -/
structure Over (first : Varset) (rest : List Varset) (r : Reader) : Prop where
  varsets : r.varsets = first :: rest
  names : r.names = first.names
  distinct : ∀ v ∈ first :: rest, v.names.Nodup

theorem next_end (spans : Over first rest r) (cursor : r.cursor = some k)
    (none : (first :: rest)[k]? = none) : r.next = .error r.exhausted := by
  have current : r.current? = .none := by rw [current?, cursor, spans.varsets]; exact none
  rw [next, current]

theorem next_at (spans : Over first rest r) (cursor : r.cursor = some k)
    (listed : (first :: rest)[k]? = some v) :
    if v.Alike first then r.next = .ok (v, { r with cursor := some (k + 1) }) else ∃ e,
      r.next = .error e ∧ e.kind = .datafile := by
  have current : r.current? = some v := by rw [current?, cursor, spans.varsets]; exact listed
  have mem : v ∈ first :: rest := mem_of_getElem? listed
  have alike := Varset.alike_iff (spans.distinct v mem) (spans.distinct first mem_cons_self)
  rw [next, current]
  dsimp only
  by_cases size : v.length = r.names.length
  · rw [if_neg (not_not_intro size)]
    rw [spans.names] at size
    cases strange : v.names.find? fun name => !r.names.contains name with
    | none =>
      have known : ∀ name ∈ v.names, name ∈ first.names := by
        rw [← spans.names]
        simpa using find?_eq_none.mp strange
      rw [if_pos (alike.mpr ⟨size, known⟩), position, cursor]
      rfl
    | some name =>
      have unknown : name ∉ first.names := by
        rw [← spans.names]
        simpa using find?_some strange
      rw [if_neg fun known => unknown ((alike.mp known).2 name (mem_of_find?_eq_some strange))]
      exact ⟨_, rfl, rfl⟩
  · rw [if_pos size]
    rw [spans.names] at size
    rw [if_neg fun known => size (alike.mp known).1]
    exact ⟨_, rfl, rfl⟩

inductive Request
  | next
  | atEnd
  deriving DecidableEq, Repr

def after (r : Reader) : Request → Reader
  | .next =>
    match r.next with
    | .ok (_, behind) => behind
    | .error _ => r
  | .atEnd => r

def afterAll (r : Reader) (requests : List Request) : Reader := requests.foldl after r

/-- A reader of varsets whose first has these names, after so many requests for the next one. -/
structure InTurn (vs : List Varset) (names : List String) (asked : Nat) (r : Reader) : Prop where
  varsets : r.varsets = vs
  cursor : r.cursor = some (min asked (Varset.alikeCount vs))
  gives : asked < Varset.alikeCount vs → ∃ v, vs[asked]? = some v ∧
    (∀ name, name ∈ v.names ↔ name ∈ names) ∧
    r.next = .ok (v, { r with cursor := some (asked + 1) })
  refuses : Varset.alikeCount vs ≤ asked → ∃ e, r.next = .error e ∧ e.kind = .datafile
  ended : r.atEnd = true ↔ Varset.alikeCount vs = vs.length ∧ vs.length ≤ asked

theorem Over.inTurn (spans : Over first rest r)
    (cursor : r.cursor = some (min asked (Varset.alikeCount (first :: rest)))) :
    InTurn (first :: rest) first.names asked r := by
  have within := Varset.alikeCount_le (first :: rest)
  refine ⟨spans.varsets, cursor, fun bound => ?_, fun beyond => ?_, ?_⟩
  · rw [Nat.min_eq_left (Nat.le_of_lt bound)] at cursor
    have listed : (first :: rest)[asked]? = some (first :: rest)[asked] := List.getElem?_eq_getElem
      (Nat.lt_of_lt_of_le bound within)
    have alike := Varset.alike_of_lt bound listed
    have given := next_at spans cursor listed
    rw [if_pos alike] at given
    exact ⟨_, listed, alike, given⟩
  · rw [Nat.min_eq_right beyond] at cursor
    cases listed : (first :: rest)[Varset.alikeCount (first :: rest)]? with
    | none => exact ⟨_, next_end spans cursor listed, rfl⟩
    | some v =>
      have given := next_at spans cursor listed
      rwa [if_neg (Varset.not_alike_at listed)] at given
  · rw [atEnd, current?, cursor, spans.varsets, Option.isNone_iff_eq_none]
    show (first :: rest)[min asked (Varset.alikeCount (first :: rest))]? = none ↔ _
    rw [List.getElem?_eq_none_iff]
    omega

theorem InTurn.after (spans : Over first rest r) (turn : InTurn (first :: rest) first.names asked r)
    (q : Request) :
    Over first rest (r.after q) ∧ InTurn (first :: rest) first.names (asked + [q].count .next)
      (r.after q) := by
  cases q with
  | atEnd => exact ⟨spans, turn⟩
  | next =>
    show Over first rest (match r.next with | .ok (_, behind) => behind | .error _ => r) ∧
      InTurn (first :: rest) first.names (asked + 1)
      (match r.next with | .ok (_, behind) => behind | .error _ => r)
    rcases Nat.lt_or_ge asked (Varset.alikeCount (first :: rest)) with bound | beyond
    · obtain ⟨v, _, _, given⟩ := turn.gives bound
      rw [given]
      have moved : Over first rest { r with cursor := some (asked + 1) } :=
        ⟨spans.varsets, spans.names, spans.distinct⟩
      exact ⟨moved, moved.inTurn (by rw [Nat.min_eq_left bound])⟩
    · obtain ⟨e, refused, _⟩ := turn.refuses beyond
      rw [refused]
      refine ⟨spans, spans.inTurn ?_⟩
      rw [turn.cursor, Nat.min_eq_right beyond, Nat.min_eq_right (Nat.le_succ_of_le beyond)]

theorem InTurn.afterAll (spans : Over first rest r)
    (turn : InTurn (first :: rest) first.names asked r) (requests : List Request) :
    InTurn (first :: rest) first.names (asked + requests.count .next) (r.afterAll requests) := by
  induction requests generalizing r asked with
  | nil => exact turn
  | cons q requests ih =>
    obtain ⟨spans, turn⟩ := turn.after spans q
    have further := ih spans turn
    rwa [Nat.add_assoc, ← count_append, singleton_append] at further

theorem over_of_load (loaded : r.load limits files base target = (.ok names, r')) :
    ∃ first rest text, files.text? (Path.locate base target) = .ok (some text) ∧
      Varset.ofText limits r.format (Path.locate base target) text = .ok (first :: rest) ∧
        names = first.names ∧ Over first rest r' ∧
      r'.cursor = some 0 := by
  unfold load at loaded
  split at loaded
  · cases loaded
  · dsimp only at loaded
    split at loaded
    · cases loaded
    · cases loaded
    · rename_i text there
      split at loaded
      · cases loaded
      · rename_i varsets decoded
        cases varsets with
        | nil => cases loaded
        | cons first rest =>
          cases loaded
          exact ⟨first, rest, text, there, decoded, rfl, ⟨rfl, rfl, Varset.distinct_ofText decoded⟩,
            rfl⟩

theorem names_of_load {result : Except Failure (List String)}
    (loaded : r.load limits files base target = (result, r')) :
    r'.names = result.toOption.getD r.names := by
  cases result with
  | ok names =>
    obtain ⟨first, rest, _, _, _, rfl, spans, _⟩ := over_of_load loaded
    exact spans.names
  | error e =>
    unfold load at loaded
    split at loaded
    · cases loaded; rfl
    · dsimp only at loaded
      split at loaded
      · cases loaded; rfl
      · cases loaded; rfl
      · split at loaded
        · cases loaded; rfl
        · rename_i varsets _
          cases varsets <;> cases loaded
          rfl

theorem names_next {after : Reader} (given : r.next = .ok (v, after)) :
    v.names ⊆ r.names ∧ after.names = r.names := by
  unfold next at given
  split at given
  · cases given
  · split at given
    · cases given
    · split at given
      · cases given
      · rename_i known
        cases given
        refine ⟨fun name mem => ?_, rfl⟩
        simpa using find?_eq_none.mp known name mem

theorem inTurn_of_load (loaded : r.load limits files base target = (.ok names, r'))
    {requests : List Request} :
    ∃ text, files.text? (Path.locate base target) = .ok (some text) ∧
      Varset.ofText limits r.format (Path.locate base target) text = .ok r'.varsets ∧
      InTurn r'.varsets names (requests.count .next) (r'.afterAll requests) := by
  obtain ⟨first, rest, text, there, decoded, rfl, spans, cursor⟩ := over_of_load loaded
  refine ⟨text, there, by rwa [spans.varsets], ?_⟩
  have turn : InTurn (first :: rest) first.names 0 r' := spans.inTurn (by rw [cursor, Nat.zero_min])
  have further := turn.afterAll spans requests
  rwa [Nat.zero_add, ← spans.varsets] at further

end Reader

end Runbook
