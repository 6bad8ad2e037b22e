import Mathlib.Data.List.Chain
import Runbook.Expr.Basic
import Runbook.Proofs.Expr.Lexemes

namespace Runbook

open List

def BinaryOp.rank : BinaryOp → Nat
  | .or => 2
  | .and => 3
  | .eq | .ne | .strictEq | .strictNe => 4
  | .lt | .le | .gt | .ge => 5
  | .add | .sub => 6
  | .mul | .div | .mod => 7

namespace Expr

def rank : Expr → Nat
  | .assign .. => 1
  | .binary op _ _ => op.rank
  | .unary .. | .update _ _ true => 8
  | .update _ _ false | .index .. | .member .. => 9
  | .number _ | .text _ | .bool _ | .pattern _ | .null | .name _ | .list _ => 10

def enclosed (least rank : Nat) (ts : List Token) : List Token :=
  if rank < least then .sym .open :: (ts ++ [.sym .close]) else ts

mutual

def tokens : Expr → List Token
  | .number n => [.number n]
  | .text s => [.text s]
  | .bool b => [.keyword (if b then .yes else .no)]
  | .pattern p => [.pattern p]
  | .null => [.keyword .null]
  | .name n => [.name n]
  | .list items => .sym .openList :: (tokensAll items ++ [.sym .closeList])
  | .assign target op value => [.name target] ++ .sym op.sym :: enclosed 1 value.rank value.tokens
  | .update target op true => [.sym op.sym, .name target]
  | .update target op false => [.name target, .sym op.sym]
  | .index target i =>
    enclosed 9 target.rank target.tokens ++ .sym .openList :: (i.tokens ++ [.sym .closeList])
  | .member target n => enclosed 9 target.rank target.tokens ++ [.sym .dot, .name n]
  | .unary op operand => .sym op.sym :: enclosed 8 operand.rank operand.tokens
  | .binary op left right =>
    enclosed op.rank left.rank left.tokens ++
      .sym op.sym :: enclosed (op.rank + 1) right.rank right.tokens

def tokensAll : List Expr → List Token
  | [] => []
  | [e] => e.tokens
  | e :: next :: rest => e.tokens ++ .sym .comma :: tokensAll (next :: rest)

end

end Expr

inductive QuoteMark
  | single | double
  deriving DecidableEq, Repr

def QuoteMark.char : QuoteMark → Char
  | .single => '\''
  | .double => '"'

def QuoteMark.escape (mark : QuoteMark) : List Char → List Char
  | [] => []
  | c :: rest =>
    if c = '\\' || c = mark.char then '\\' :: c :: mark.escape rest else c :: mark.escape rest

/-- Names as the lexer knows them, the keywords apart. -/
def isWord (n : String) : Bool :=
  n.toList.head?.any Lexer.isNameStart && n.toList.all Lexer.isNameChar &&
    (Keyword.ofName? n).isNone

namespace Token

def written (mark : String → QuoteMark) : Token → List Char
  | .number (.int n) => Nat.toDigits 10 n.toNat
  | .text s => (mark s).char :: ((mark s).escape s.toList ++ [(mark s).char])
  | .sym s => s.spelling.toList
  | .name n => n.toList
  | .keyword k => k.spelling.toList
  | .number (.float _) | .pattern _ | .eof => []

/-- Natural numbers within the limit of digits, texts, symbols, names and keywords. -/
def isWritable : Token → Bool
  | .number (.int n) => 0 ≤ n && (Nat.toDigits 10 n.toNat).length ≤ Number.digitLimit
  | .name n => isWord n
  | .text _ | .sym _ | .keyword _ => true
  | .number (.float _) | .pattern _ | .eof => false

end Token

namespace Expr

mutual

/-- No fractions and no patterns: natural numbers within the limit of digits, texts, names, and what
is made of them. -/
def isWritable : Expr → Bool
  | .number (.int n) => 0 ≤ n && (Nat.toDigits 10 n.toNat).length ≤ Number.digitLimit
  | .number (.float _) | .pattern _ => false
  | .text _ | .bool _ | .null => true
  | .name n => isWord n
  | .list items => areWritable items
  | .assign target _ value => isWord target && value.isWritable
  | .update target _ _ => isWord target
  | .index target i => target.isWritable && i.isWritable
  | .member target n => target.isWritable && isWord n
  | .unary _ operand => operand.isWritable
  | .binary _ left right => left.isWritable && right.isWritable

def areWritable : List Expr → Bool
  | [] => true
  | e :: rest => e.isWritable && areWritable rest

end

end Expr

def writtenAll (mark : String → QuoteMark) (ts : List Token) : List Char :=
  [' '].intercalate (ts.map (Token.written mark))

def Statement.written (mark : String → QuoteMark) (s : Statement) : String :=
  String.ofList (writtenAll mark (Expr.tokensAll s.items))

def Statement.isWritable (s : Statement) : Bool := Expr.areWritable s.items

namespace Lexer

theorem quoted?_escape (mark : QuoteMark) (cs : List Char) :
    quoted? mark.char (mark.escape cs ++ [mark.char]) = some (cs, []) := by
  have own : mark.char ≠ '\\' := by cases mark <;> decide
  have kept : unescape '\\' = '\\' ∧ unescape mark.char = mark.char := by cases mark <;> decide
  have inner : '\\' ≠ '\n' ∧ mark.char ≠ '\n' := by cases mark <;> decide
  induction cs with
  | nil => simp [QuoteMark.escape, quoted?_cons own]
  | cons c cs ih =>
    unfold QuoteMark.escape
    by_cases escaped : c = '\\' ∨ c = mark.char
    · have line : c ≠ '\n' := by rcases escaped with rfl | rfl; exacts [inner.1, inner.2]
      have same : unescape c = c := by rcases escaped with rfl | rfl; exacts [kept.1, kept.2]
      simp [escaped, quoted?, line, ih, same]
    · have plain : c ≠ '\\' := fun same => escaped (.inl same)
      have other : c ≠ mark.char := fun same => escaped (.inr same)
      simp [plain, other, quoted?_cons plain, ih]

variable {patterns : Matcher} {c : Char} {bad : Failure} {t : Token} {previous : Option Token}
  {mark : String → QuoteMark}

theorem digit?_of_isDigit (digit : c.isDigit = true) : Text.digit? c = some (c.toNat - 48) := by
  have range : 48 ≤ c.toNat ∧ c.toNat ≤ 57 := by
    simpa [Char.isDigit, UInt32.le_iff_toNat_le] using digit
  simp [Text.digit?, digit, show c.toNat < 128 by omega]

theorem digitsValue_toDigits (n : Nat) : Text.digitsValue (Nat.toDigits 10 n) = n := by
  have same (cs : List Char) (all : ∀ c ∈ cs, c.isDigit = true) (total : Nat) :
      cs.foldl (fun total c => total * 10 + (Text.digit? c).getD 0) total = Nat.ofDigitChars 10
      cs total := by
    induction cs generalizing total with
    | nil => rfl
    | cons c cs ih =>
      obtain ⟨own, all⟩ := forall_mem_cons.mp all
      rw [foldl_cons, ih all, Nat.ofDigitChars_cons, digit?_of_isDigit own, Nat.mul_comm]
      rfl
  calc
    Text.digitsValue (Nat.toDigits 10 n) = Nat.ofDigitChars 10 (Nat.toDigits 10 n) 0 :=
      same _ (fun c => Nat.isDigit_of_mem_toDigits (by decide) (by decide)) 0
    _ = n := Nat.ofDigitChars_ten_toDigits

theorem plain_number {n : Nat} (short : (Nat.toDigits 10 n).length ≤ Number.digitLimit) :
    plain bad (Nat.toDigits 10 n) = .ok (.number (.int n), []) := by
  have digits : ∀ c ∈ Nat.toDigits 10 n, Text.isDigit c = true := by
    intro c member
    have own := Nat.isDigit_of_mem_toDigits (by decide) (by decide) member
    rw [Text.isDigit, digit?_of_isDigit own]
    rfl
  have whole : number (Nat.toDigits 10 n) = .ok (.number (.int n), []) := by
    unfold number
    rw [span_all digits]
    simp only [number.integer, Number.natural, if_pos short, digitsValue_toDigits]
  cases chars : Nat.toDigits 10 n with
  | nil => exact absurd chars Nat.toDigits_ne_nil
  | cons c rest =>
    rw [chars] at digits whole
    simp only [plain, digits c mem_cons_self, if_true]
    exact whole

theorem of_isNameStart (start : isNameStart c = true) : Text.isDigit c = false ∧
    c ≠ '"' ∧ c ≠ '\'' ∧ ∀ s ∈ Sym.all, s.spelling.toList.head? ≠ some c := by
  have range : c.toNat < 128 := by
    simp only [isNameStart, Bool.or_eq_true, beq_iff_eq] at start
    rcases start with (letter | rfl) | rfl
    · exact toNat_of_isAlpha letter
    · decide
    · decide
  have codes : ∀ n < 128, isNameStart (Char.ofNat n) = true →
      Text.isDigit (Char.ofNat n) = false ∧ Char.ofNat n ≠ '"' ∧ Char.ofNat n ≠ '\'' ∧
      ∀ s ∈ Sym.all, s.spelling.toList.head? ≠ some (Char.ofNat n) := by decide +kernel
  have own := codes c.toNat range
  rw [Char.ofNat_toNat] at own
  exact own start

theorem sym?_eq_none (other : ∀ s ∈ Sym.all, s.spelling.toList.head? ≠ some c) (rest : List Char) :
    sym? (c :: rest) = none := by
  have none : (Sym.all.find? fun s => s.spelling.toList.isPrefixOf (c :: rest)) = none := by
    refine find?_eq_none.mpr fun s member found => other s member ?_
    obtain ⟨more, whole⟩ := isPrefixOf_iff_prefix.mp found
    cases spelling : s.spelling.toList with
    | nil => exact absurd spelling (by cases s <;> decide)
    | cons x l =>
      rw [spelling] at whole
      exact congrArg some (cons.inj whole).1
  rw [sym?, none]
  rfl

theorem plain_word {n : String} (word : isWord n = true) :
    plain bad n.toList = .ok (.name n, []) := by
  simp only [isWord, Bool.and_eq_true, all_eq_true, Option.isNone_iff_eq_none] at word
  obtain ⟨⟨start, all⟩, free⟩ := word
  obtain ⟨c, rest, chars⟩ : ∃ c rest, n.toList = c :: rest := by
    cases chars : n.toList with
    | nil => rw [chars] at start; cases start
    | cons c rest => exact ⟨c, rest, rfl⟩
  rw [chars] at start
  obtain ⟨digit, double, single, syms⟩ := of_isNameStart (c := c) start
  have whole : Lexer.word n.toList = (.name n, []) := by
    rw [Lexer.word, span_all all]
    simp only [String.ofList_toList, free]
  rw [chars] at whole ⊢
  have start : isNameStart c = true := start
  simp [plain, digit, double, single, sym?_eq_none syms, start, whole]

theorem plain_text {mark : QuoteMark} (s : String) :
    plain bad (mark.char :: (mark.escape s.toList ++ [mark.char])) = .ok (.text s, []) := by
  have quoted := quoted?_escape mark s.toList
  have first : Text.isDigit mark.char = false ∧ (mark.char = '"' ∨ mark.char = '\'') := by
    cases mark <;> decide
  simp [plain, first, quoted]

theorem plain_written (writable : t.isWritable = true) :
    plain bad (t.written mark) = .ok (t, []) := by
  cases t with
  | number n =>
    cases n with
    | float x => cases writable
    | int n =>
      simp only [Token.isWritable, Bool.and_eq_true, decide_eq_true_eq] at writable
      obtain ⟨n, rfl⟩ := Int.eq_ofNat_of_zero_le writable.1
      exact plain_number writable.2
  | text s => exact plain_text s
  | name n => exact plain_word writable
  | sym s => cases s <;> rfl
  | keyword k => cases k <;> rfl
  | pattern p | eof => cases writable

theorem begins_written (mark : String → QuoteMark) (writable : t.isWritable = true)
    (division : t = .sym .div → previous.any Token.endsOperand = true) :
    Begins patterns previous (t.written mark) t [] := by
  have read : plain (.badToken 0 []) (t.written mark) = .ok (t, []) := plain_written writable
  refine .plain ?_ read
  by_cases slash : t = .sym .div
  · exact .inl (division slash)
  · exact .inr (pattern?_of_plain read slash)

theorem reads_writtenAll {ts : List Token} (writable : ∀ t ∈ ts, t.isWritable = true)
    (chain : ts.IsChain fun t next => next = .sym .div → t.endsOperand = true)
    (first : ∀ t ∈ ts.head?, t = .sym .div → previous.any Token.endsOperand = true) :
    Reads patterns previous (writtenAll mark ts) ts := by
  induction ts generalizing previous with
  | nil => exact .blank rfl
  | cons t ts ih =>
    obtain ⟨own, writable⟩ := forall_mem_cons.mp writable
    have begins : Begins patterns previous (t.written mark) t [] := begins_written mark own
      (first t rfl)
    obtain ⟨taken, whole, lexeme⟩ := begins.lexeme
    rw [append_nil] at whole
    subst whole
    obtain ⟨ink, head, _⟩ := lexeme.ends
    cases ts with
    | nil =>
      have begins : Begins patterns previous (t.written mark ++ []) t [] := by rwa [append_nil]
      have alone : writtenAll mark [t] = t.written mark ++ [] := by simp [writtenAll]
      rw [alone]
      exact .cons head ink begins (.blank rfl)
    | cons next ts =>
      obtain ⟨follows, chain⟩ := isChain_cons_cons.mp chain
      have others : Reads patterns (some t) (writtenAll mark (next :: ts)) (next :: ts) :=
        ih writable chain fun t' head division => by cases head; exact follows division
      have apart : Apart (' ' :: writtenAll mark (next :: ts)) := fun c head => by
        cases head; decide
      have blank : Reads patterns (some t) ([' '] ++ writtenAll mark (next :: ts)) (next :: ts) :=
        (Reads.blanks_append (by decide)).mpr others
      have spaced : writtenAll mark (t :: next :: ts) =
          t.written mark ++ ' ' :: writtenAll mark (next :: ts) := by
        simp [writtenAll]
      rw [spaced]
      exact .cons head ink (begins.extend apart ink (first t rfl)) blank

end Lexer

end Runbook
