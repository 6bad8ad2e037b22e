import Runbook.Proofs.Expr.Lexemes
import Runbook.Script.Entry

namespace Runbook

open List

namespace Text

variable {cs blanks blanks' : List Char}

def Stripped (cs : List Char) : Prop :=
  (∀ c ∈ cs.head?, isBlank c = false) ∧ ∀ c ∈ cs.getLast?, isBlank c = false

instance (cs : List Char) : Decidable (Stripped cs) := inferInstanceAs (Decidable (_ ∧ _))

def OneLine (cs : List Char) : Prop := ∀ c ∈ cs, isLineBreak c = false

instance (cs : List Char) : Decidable (OneLine cs) := inferInstanceAs (Decidable (∀ c ∈ cs, _))

theorem trimRight_eq (cs : List Char) : trimRight cs = (trimLeft cs.reverse).reverse := rfl

theorem allBlank_reverse (cs : List Char) : allBlank cs.reverse = allBlank cs := all_reverse

theorem trim_padded (before : allBlank blanks = true) (stripped : Stripped cs)
    (after : allBlank blanks' = true) : trim (blanks ++ (cs ++ blanks')) = cs := by
  rw [trim, Lexer.trimLeft_blank before, trimRight_eq]
  cases cs with
  | nil =>
    have none := Lexer.trimLeft_blank after []
    rw [append_nil] at none
    rw [nil_append, none]
    rfl
  | cons c rest =>
    have ink : ∀ d ∈ (c :: rest ++ blanks').head?, isBlank d = false := stripped.1
    have last : ∀ d ∈ (c :: rest).reverse.head?, isBlank d = false := by
      rw [head?_reverse]
      exact stripped.2
    rw [Lexer.trimLeft_eq_self ink, reverse_append, Lexer.trimLeft_blank
      (by rwa [allBlank_reverse]), Lexer.trimLeft_eq_self last, reverse_reverse]

theorem trim_stripped (stripped : Stripped cs) : trim cs = cs := by
  simpa using @trim_padded cs [] [] rfl stripped rfl

theorem trim_allBlank (blank : allBlank cs = true) : trim cs = [] := by
  simpa using @trim_padded [] [] cs rfl ⟨nofun, nofun⟩ blank

theorem linesFrom_cons {c : Char} (plain : isLineBreak c = false) (line rest : List Char) :
    linesFrom line (c :: rest) = linesFrom (c :: line) rest := by
  have other : c ≠ '\r' := by
    rintro rfl
    cases plain
  rw [linesFrom, if_neg (by simp [plain])]
  exact fun _ same _ => other same

theorem linesFrom_append (oneLine : OneLine cs) (line rest : List Char) :
    linesFrom line (cs ++ rest) = linesFrom (cs.reverse ++ line) rest := by
  induction cs generalizing line with
  | nil => rfl
  | cons c cs ih =>
    obtain ⟨plain, others⟩ := forall_mem_cons.mp oneLine
    rw [cons_append, linesFrom_cons plain, ih others, reverse_cons, append_assoc, singleton_append]

theorem lines_append (oneLine : OneLine cs) (rest : List Char) :
    lines (cs ++ '\n' :: rest) = cs :: lines rest := by
  rw [lines, linesFrom_append oneLine, append_nil, linesFrom, reverse_reverse]
  · rfl
  · exact fun _ same => absurd same (by decide)

theorem lines_last (oneLine : OneLine cs) : lines cs = if cs.isEmpty then [] else [cs] := by
  have whole := linesFrom_append oneLine [] []
  rw [append_nil, append_nil] at whole
  rw [lines, whole, linesFrom, isEmpty_reverse, reverse_reverse]

variable {part : List Char} {parts : List (List Char)}

theorem oneLine_joined {bar : List Char} (plain : OneLine bar) (all : ∀ cs ∈ parts, OneLine cs) :
    OneLine (bar.intercalate parts) := by
  induction parts with
  | nil => exact nofun
  | cons first others ih =>
    obtain ⟨first', others'⟩ := forall_mem_cons.mp all
    cases others with
    | nil => rwa [intercalate_singleton]
    | cons next others =>
      rw [intercalate_cons_cons]
      exact forall_mem_append.mpr ⟨forall_mem_append.mpr ⟨first', plain⟩, ih others'⟩

theorem head?_joined (bar : List Char) (parts : List (List Char)) (ink : part ≠ []) :
    (bar.intercalate (part :: parts)).head? = part.head? := by
  cases parts with
  | nil => rw [intercalate_singleton]
  | cons next parts =>
    rw [intercalate_cons_cons, append_assoc, head?_append, head?_eq_some_head ink]
    rfl

theorem getLast?_joined (bar : List Char) (last : parts.getLast? = some part) (ink : part ≠ []) :
    (bar.intercalate parts).getLast? = part.getLast? := by
  induction parts with
  | nil => cases last
  | cons first others ih =>
    cases others with
    | nil =>
      rw [getLast?_singleton, Option.some.injEq] at last
      rw [intercalate_singleton, last]
    | cons next others =>
      rw [getLast?_cons_cons] at last
      rw [intercalate_cons_cons, getLast?_append, ih last, getLast?_eq_some_getLast ink]
      rfl

end Text

namespace Entry

variable {cs : List Char}

def BarsPaired (cs : List Char) : Prop :=
  ∀ i < cs.length, cs[i]? = some '|' → cs[i + 1]? = some '|' ∨ 0 < i ∧ cs[i - 1]? = some '|'

instance (cs : List Char) : Decidable (BarsPaired cs) :=
  inferInstanceAs (Decidable (∀ i < cs.length, _))

theorem fieldsFrom_cons {c : Char} (other : c ≠ '|') (after : Bool) (taken rest : List Char) :
    fieldsFrom after taken (c :: rest) = fieldsFrom false (c :: taken) rest := by
  rw [fieldsFrom]
  exact other

theorem fieldsFrom_append {before tail : List Char} (paired : BarsPaired (before ++ cs))
    (taken : List Char) :
    fieldsFrom (before.getLast? = some '|') taken (cs ++ tail) =
      fieldsFrom ((before ++ cs).getLast? = some '|') (cs.reverse ++ taken) tail := by
  induction cs generalizing before taken with
  | nil => rw [append_nil]; rfl
  | cons c rest ih =>
    have shifted : BarsPaired ((before ++ [c]) ++ rest) := by rwa [append_assoc, singleton_append]
    have further := ih shifted (c :: taken)
    rw [getLast?_concat, append_assoc, singleton_append] at further
    rw [reverse_cons, append_assoc, singleton_append, ← further, cons_append]
    by_cases bar : c = '|'
    · subst bar
      have beside :
          (decide (before.getLast? = some '|') || decide ((rest ++ tail).head? = some '|')) =
          true := by
        rw [Bool.or_eq_true, decide_eq_true_eq, decide_eq_true_eq]
        rcases paired before.length (by simp) (by simp) with next | ⟨inside, last⟩
        · rw [List.getElem?_append_right (Nat.le_add_right _ 1), Nat.add_sub_cancel_left,
            List.getElem?_cons_succ] at next
          rw [head?_append, head?_eq_getElem?, next]
          exact .inr rfl
        · rw [List.getElem?_append_left (by omega)] at last
          exact .inl (getLast?_eq_getElem?.trans last)
      rw [fieldsFrom, if_pos beside]
      simp
    · rw [fieldsFrom_cons bar]
      simp [bar]

theorem fieldsFrom_divide (paired : BarsPaired cs) (taken rest : List Char) :
    fieldsFrom false taken (cs ++ ' ' :: '|' :: ' ' :: rest) = (taken.reverse ++ (cs ++ [' '])) ::
      fieldsFrom false [' '] rest := by
  have whole := @fieldsFrom_append cs [] (' ' :: '|' :: ' ' :: rest) paired taken
  rw [show decide (([] : List Char).getLast? = some '|') = false from rfl] at whole
  rw [whole, fieldsFrom_cons (by decide), fieldsFrom, if_neg (by simp), fieldsFrom_cons (by decide)]
  simp

theorem fieldsFrom_last (paired : BarsPaired cs) (taken : List Char) :
    fieldsFrom false taken cs = [taken.reverse ++ cs] := by
  have whole := @fieldsFrom_append cs [] [] paired taken
  rw [append_nil, show decide (([] : List Char).getLast? = some '|') = false from rfl] at whole
  rw [whole, fieldsFrom]
  simp

end Entry

end Runbook
