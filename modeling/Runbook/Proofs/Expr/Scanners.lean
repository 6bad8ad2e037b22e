import Mathlib.Data.List.TakeDrop
import Mathlib.Data.List.TakeWhile
import Runbook.Expr.Lexer

-- of all characters, only the members are looked at
instance Runbook.decidableForallMem {cs : List Char} {p : Char → Prop} [DecidablePred p] :
    Decidable (∀ c ∈ cs, p c) :=
  List.decidableBAll p cs

instance Runbook.decidableForallMem? {c? : Option Char} {p : Char → Prop} [DecidablePred p] :
    Decidable (∀ c ∈ c?, p c) :=
  Option.decidableForallMem c?

namespace Runbook.Lexer

open List

theorem toNat_of_isAlpha {c : Char} (letter : c.isAlpha = true) : c.toNat < 128 := by
  delta Char.isAlpha Char.isUpper Char.isLower at letter
  simp only [Bool.or_eq_true, Bool.and_eq_true, decide_eq_true_eq, ge_iff_le,
    UInt32.le_iff_toNat_le] at letter
  rcases letter with ⟨_, upper⟩ | ⟨_, lower⟩
  · exact Nat.lt_of_le_of_lt upper (by decide)
  · exact Nat.lt_of_le_of_lt lower (by decide)

def divides (c : Char) : Bool := Text.isBlank c || c == ','

def Apart (cs : List Char) : Prop := ∀ c ∈ cs.head?, divides c = true

def dividingCodes : List Nat :=
  [44, 9, 10, 11, 12, 13, 28, 29, 30, 31, 32, 0x85, 0xa0, 0x1680, 0x2000, 0x2001, 0x2002, 0x2003,
    0x2004, 0x2005, 0x2006, 0x2007, 0x2008, 0x2009, 0x200a, 0x2028, 0x2029, 0x202f, 0x205f, 0x3000]

variable {c : Char} {p : Char → Bool} {scan : List Char → Option (List Char × List Char)}
  {source letters rest : List Char} {t : Token} {bad : Failure}

theorem mem_dividingCodes (divides : divides c = true) : c.toNat ∈ dividingCodes := by
  simp only [Lexer.divides, Text.isBlank, Bool.or_eq_true, Bool.and_eq_true, decide_eq_true_eq,
    beq_iff_eq] at divides
  rcases divides with blank | rfl
  · simp only [dividingCodes, mem_cons, not_mem_nil, or_false]
    omega
  · exact mem_cons_self

theorem not_inside (divides : divides c = true) :
    Text.isDigit c = false ∧ isNameChar c = false ∧ c.isLower = false ∧ c ≠ '.' := by
  have all : ∀ n ∈ dividingCodes, Text.isDigit (Char.ofNat n) = false ∧
      isNameChar (Char.ofNat n) = false ∧ (Char.ofNat n).isLower = false ∧ Char.ofNat n ≠ '.' := by
    decide +kernel
  have own := all c.toNat (mem_dividingCodes divides)
  rwa [Char.ofNat_toNat] at own

theorem divides_of_mem_spelling (s : Sym) : ∀ c ∈ s.spelling.toList.tail, divides c = false := by
  cases s <;> decide +kernel

variable {cs b r : List Char}

theorem span_apart (stops : ∀ c ∈ b.head?, p c = false) (cs : List Char) :
    (cs ++ b).span p = ((cs.span p).1, (cs.span p).2 ++ b) := by
  simp only [span_eq_takeWhile_dropWhile]
  induction cs with
  | nil =>
    cases b with
    | nil => rfl
    | cons c rest => simp [stops c rfl]
  | cons c cs ih =>
    obtain ⟨taken, dropped⟩ := Prod.mk.inj ih
    by_cases more : p c = true
    · simp [more, taken, dropped]
    · simp [more]

theorem span_all (all : ∀ c ∈ cs, p c = true) : cs.span p = (cs, []) := by
  rw [span_eq_takeWhile_dropWhile, takeWhile_eq_self_iff.mpr all, dropWhile_eq_nil_iff.mpr all]

theorem number_apart (apart : Apart b) (cs : List Char) :
    number (cs ++ b) = (number cs).map fun (t, r) => (t, r ++ b) := by
  have integer (digits rest : List Char) :
      number.integer digits (rest ++ b) = (number.integer digits rest).map fun (t, r) =>
      (t, r ++ b) := by
    unfold number.integer
    cases Number.natural digits <;> rfl
  have digits : ∀ c ∈ b.head?, Text.isDigit c = false := fun c head => (not_inside (apart c head)).1
  unfold number
  rw [span_apart digits]
  rcases cs.span Text.isDigit with ⟨whole, rest⟩
  dsimp only
  cases rest with
  | nil =>
    split
    · rename_i more start
      have start : b = '.' :: more := start
      exact absurd rfl (not_inside (apart '.' (by rw [start]; rfl))).2.2.2
    · exact integer whole []
  | cons c more =>
    by_cases point : c = '.'
    · subst point
      simp only [cons_append, span_apart digits]
      split
      · exact integer whole ('.' :: more)
      · rfl
    · split
      · rename_i start
        exact absurd (cons.inj start).1 point
      · split
        · rename_i start
          exact absurd (cons.inj start).1 point
        · exact integer whole (c :: more)

theorem isPrefixOf_apart {l : List Char} (apart : Apart b) (inside : ∀ c ∈ l, divides c = false)
    (cs : List Char) : l.isPrefixOf (cs ++ b) = l.isPrefixOf cs := by
  induction l generalizing cs with
  | nil => simp
  | cons x l ih =>
    obtain ⟨own, inside⟩ := forall_mem_cons.mp inside
    cases cs with
    | cons c cs => simp [List.isPrefixOf, ih inside]
    | nil =>
      cases b with
      | nil => rfl
      | cons c rest =>
        have different : x ≠ c := by
          rintro rfl
          exact absurd (apart x rfl) (by simp [own])
        simp [List.isPrefixOf, different]

theorem sym?_apart (apart : Apart b) (ink : cs ≠ []) :
    sym? (cs ++ b) = (sym? cs).map fun (s, r) => (s, r ++ b) := by
  have same (s : Sym) :
      s.spelling.toList.isPrefixOf (cs ++ b) = s.spelling.toList.isPrefixOf cs := by
    obtain ⟨c, cs, rfl⟩ := exists_cons_of_ne_nil ink
    cases spelling : s.spelling.toList with
    | nil => simp
    | cons x l =>
      have inside : ∀ c ∈ l, divides c = false := by
        simpa [spelling] using divides_of_mem_spelling s
      simp [List.isPrefixOf, isPrefixOf_apart apart inside]
  unfold sym?
  simp only [same]
  cases found : Sym.all.find? fun s => s.spelling.toList.isPrefixOf cs with
  | none => rfl
  | some s =>
    have start : s.spelling.toList <+: cs := by simpa using find?_some found
    have fits : s.spelling.length ≤ cs.length := start.length_le
    simp [drop_append_of_le_length fits]

theorem word_apart (apart : Apart b) (cs : List Char) :
    word (cs ++ b) = ((word cs).1, (word cs).2 ++ b) := by
  unfold word
  rw [span_apart fun c head => (not_inside (apart c head)).2.1]
  dsimp only
  split <;> rfl

def LocalAt (scan : List Char → Option (List Char × List Char)) (cs : List Char) : Prop :=
  ∀ out rest, scan cs = some (out, rest) → ∃ taken, taken ≠ [] ∧ cs = taken ++ rest ∧
    ∀ b, scan (taken ++ b) = some (out, b)

theorem LocalAt.prepend (tail : LocalAt scan cs) (front : List Char) (how : List Char → List Char)
    (ink : front ≠ [])
    (goesOn : ∀ b, scan (front ++ b) = (scan b).map fun (body, after) => (how body, after)) :
    LocalAt scan (front ++ cs) := by
  intro out rest found
  rw [goesOn] at found
  obtain ⟨⟨body, after⟩, scanned, same⟩ := Option.map_eq_some_iff.mp found
  obtain ⟨rfl, rfl⟩ := Prod.mk.inj same
  obtain ⟨taken, _, rfl, again⟩ := tail body after scanned
  refine ⟨front ++ taken, by simp [ink], (append_assoc front taken after).symm, fun b => ?_⟩
  rw [append_assoc, goesOn, again]
  rfl

theorem quoted?_cons {quote : Char} (plain : c ≠ '\\') (rest : List Char) :
    quoted? quote (c :: rest) =
    if c = quote then some ([], rest) else (quoted? quote rest).map fun (body, after) =>
      (c :: body, after) := by
  rw [quoted?] <;> simp [plain]

theorem slashed?_cons (plain : c ≠ '\\') (rest : List Char) : slashed? (c :: rest) =
    if c = '/' then some ([], rest) else if c = '\n' then none
    else (slashed? rest).map fun (body, after) => (c :: body, after) := by
  rw [slashed?] <;> simp [plain]

theorem local_quoted? (quote : Char) (cs : List Char) : LocalAt (quoted? quote) cs := by
  fun_induction quoted? quote cs with
  | case1 | case2 | case3 => nofun
  | case4 c rest line ih =>
    exact ih.prepend ['\\', c] (unescape c :: ·) (by simp) fun b => by simp [quoted?, line]
  | case5 rest last escape =>
    have plain : quote ≠ '\\' := by rintro rfl; cases rest <;> simp_all
    intro out after found
    rw [quoted?_cons plain, if_pos rfl] at found
    cases found
    exact ⟨[quote], by simp, rfl, fun b => by simp [quoted?_cons plain]⟩
  | case6 c rest last escape other ih =>
    have plain : c ≠ '\\' := by rintro rfl; cases rest <;> simp_all
    exact ih.prepend [c] (c :: ·) (by simp) fun b => by simp [quoted?_cons plain, other]

theorem local_slashed? (cs : List Char) : LocalAt slashed? cs := by
  fun_induction slashed? cs with
  | case1 | case2 | case3 => nofun
  | case4 c rest line ih =>
    exact ih.prepend ['\\', c] ('\\' :: c :: ·) (by simp) fun b => by simp [slashed?, line]
  | case5 rest last escape =>
    intro out after found
    cases found
    exact ⟨['/'], by simp, rfl, fun b => rfl⟩
  | case6 => nofun
  | case7 c rest last escape other line ih =>
    have plain : c ≠ '\\' := by rintro rfl; cases rest <;> simp_all
    exact ih.prepend [c] (c :: ·) (by simp) fun b => by simp [slashed?_cons plain, other, line]

theorem scan_append_iff (sees : ∀ cs, LocalAt scan cs) {out : List Char} :
    scan (cs ++ b) = some (out, r ++ b) ↔ scan cs = some (out, r) := by
  constructor
  · intro found
    obtain ⟨taken, _, parts, again⟩ := sees _ _ _ found
    have parts : cs ++ b = (taken ++ r) ++ b := by rw [parts, append_assoc]
    rw [append_cancel_right parts]
    exact again r
  · intro found
    obtain ⟨taken, _, rfl, again⟩ := sees _ _ _ found
    rw [append_assoc]
    exact again _

theorem pattern?_eq_some : pattern? cs = some (source, letters, r) ↔
    ∃ rest after, cs = '/' :: rest ∧ slashed? rest = some (source, after) ∧ source ≠ [] ∧
      after.span Char.isLower = (letters, r) := by
  unfold pattern?
  constructor
  · intro found
    split at found
    · split at found
      · rename_i _ c body after scanned
        obtain ⟨rfl, flags⟩ := Prod.mk.inj (Option.some.inj found)
        exact ⟨_, after, rfl, scanned, by simp, flags⟩
      · cases found
    · cases found
  · rintro ⟨rest, after, rfl, scanned, ink, flags⟩
    obtain ⟨c, body, rfl⟩ := exists_cons_of_ne_nil ink
    simp only [scanned, flags]

theorem span_append_iff {taken : List Char} (stops : ∀ c ∈ b.head?, p c = false) :
    (cs ++ b).span p = (taken, r ++ b) ↔ cs.span p = (taken, r) := by
  rw [span_apart stops, Prod.ext_iff, Prod.ext_iff, append_left_inj]

theorem pattern?_append_iff (apart : Apart b) :
    pattern? (cs ++ b) = some (source, letters, r ++ b) ↔
      pattern? cs = some (source, letters, r) := by
  have lower : ∀ c ∈ b.head?, c.isLower = false := fun c head => (not_inside (apart c head)).2.2.1
  simp only [pattern?_eq_some]
  constructor
  · rintro ⟨rest, after, start, scanned, ink, flags⟩
    cases cs with
    | nil =>
      have start : b = '/' :: rest := start
      exact absurd (apart '/' (by rw [start]; rfl)) (by decide)
    | cons c cs =>
      obtain ⟨rfl, rfl⟩ := cons.inj start
      have parts : after = (letters ++ r) ++ b := by
        rw [span_eq_takeWhile_dropWhile] at flags
        obtain ⟨rfl, left⟩ := Prod.mk.inj flags
        rw [append_assoc, ← left, takeWhile_append_dropWhile]
      rw [parts] at scanned flags
      exact ⟨cs, letters ++ r, rfl, (scan_append_iff local_slashed?).mp scanned, ink,
        (span_append_iff lower).mp flags⟩
  · rintro ⟨rest, after, rfl, scanned, ink, flags⟩
    exact ⟨rest ++ b, after ++ b, rfl, (scan_append_iff local_slashed?).mpr scanned, ink,
      (span_append_iff lower).mpr flags⟩

theorem map_append_iff {e : Type} {x : Except e (Token × List Char)} :
    (x.map fun (t, r) => (t, r ++ b)) = .ok (t, r ++ b) ↔ x = .ok (t, r) := by
  cases x with
  | error e => simp [Except.map]
  | ok out => simp [Except.map, Prod.ext_iff]

theorem plain_append_iff (bad bad' : Failure) (apart : Apart b) (ink : cs ≠ []) :
    plain bad (cs ++ b) = .ok (t, r ++ b) ↔ plain bad' cs = .ok (t, r) := by
  obtain ⟨c, rest, rfl⟩ := exists_cons_of_ne_nil ink
  unfold plain
  rw [cons_append]
  dsimp only
  split
  · rw [← cons_append, number_apart apart]
    exact map_append_iff
  split
  · have read (q : Char) (body : List Char) :
        quoted? q (rest ++ b) = some (body, r ++ b) ↔ quoted? q rest = some (body, r) :=
      scan_append_iff (local_quoted? q)
    constructor
    · intro found
      split at found
      · rename_i scanned
        cases found
        rw [(read _ _).mp scanned]
      · cases found
    · intro found
      split at found
      · rename_i scanned
        cases found
        rw [(read _ _).mpr scanned]
      · cases found
  · rw [← cons_append, sym?_apart apart ink, word_apart apart]
    cases sym? (c :: rest) with
    | some found => simp [Prod.ext_iff]
    | none =>
      dsimp only [Option.map_none]
      split
      · simp [Prod.ext_iff]
      · simp

theorem sym?_slash (rest : List Char) : sym? ('/' :: rest) = some (.div, rest) := rfl

theorem plain_slash (read : plain bad ('/' :: rest) = .ok (t, r)) : t = .sym .div := by
  have other : Text.isDigit '/' = false := by decide
  simp only [plain, other, sym?_slash] at read
  cases read
  rfl

theorem pattern?_eq_none (other : c ≠ '/') : pattern? (c :: rest) = none := by
  unfold pattern?
  split
  · rename_i start
    exact absurd (cons.inj start).1 other
  · rfl

theorem pattern?_of_plain (read : plain bad cs = .ok (t, r)) (other : t ≠ .sym .div) :
    pattern? cs = none := by
  cases cs with
  | nil => rfl
  | cons c rest =>
    refine pattern?_eq_none (fun slash => other ?_)
    subst slash
    exact plain_slash read

theorem trimLeft_append (ink : Text.allBlank cs = false) :
    Text.trimLeft (cs ++ b) = Text.trimLeft cs ++ b := by
  unfold Text.trimLeft
  induction cs with
  | nil => cases ink
  | cons c cs ih =>
    by_cases blank : Text.isBlank c = true
    · have ink : Text.allBlank cs = false := by simpa [Text.allBlank, blank] using ink
      simpa [blank] using ih ink
    · simp [blank]

theorem trimLeft_ne_nil (ink : Text.allBlank cs = false) : Text.trimLeft cs ≠ [] := by
  intro none
  have all := dropWhile_eq_nil_iff.mp none
  rw [Text.allBlank, all_eq_true.mpr all] at ink
  cases ink

theorem plain_any {out : Token × List Char} {bad' : Failure} (read : plain bad cs = .ok out) :
    plain bad' cs = .ok out := by
  cases cs with
  | nil => cases read
  | cons c rest =>
    have whole : plain bad (c :: rest ++ []) = .ok (out.1, out.2 ++ []) ↔
        plain bad' (c :: rest) = .ok (out.1, out.2) :=
      plain_append_iff bad bad' nofun (cons_ne_nil c rest)
    rw [append_nil, append_nil] at whole
    exact whole.mp read

end Runbook.Lexer
