import Mathlib.Logic.Relation
import Runbook.Expr.Eval
import Runbook.Pattern.Standard
import Runbook.Proofs.Expr.Parsing

namespace Runbook

open List

namespace Lexer

open Relation (ReflTransGen)

/-- One round of the lexer: from the last token and the text that is left to the next token and what
it leaves. -/
def Step (patterns : Matcher) (total : Nat) (x y : Option Token × List Char) : Prop :=
  Text.allBlank x.2 = false ∧ ∃ t, y.1 = some t ∧ token patterns total x.1 x.2 = .ok (t, y.2)

section

variable {patterns : Matcher} {total fuel : Nat} {previous : Option Token}
  {cs rest digits : List Char} {e : Failure} {x y : Option Token × List Char}

theorem Step.takes (step : Step patterns total x y) : ∃ taken, taken ≠ [] ∧ x.2 = taken ++ y.2 := by
  obtain ⟨_, t, _, read⟩ := step
  obtain ⟨taken, parts, lexeme⟩ := (token_iff.mp read).lexeme
  obtain ⟨blanks, _, whole⟩ := exists_blanks x.2
  exact ⟨blanks ++ taken, by simp [lexeme.ends.1], by rw [append_assoc, ← parts, ← whole]⟩

/-- Digits that no text goes on with: neither a digit follows, nor a point and a digit. -/
structure WholeNumber (digits rest : List Char) : Prop where
  digits : ∀ c ∈ digits, Text.isDigit c = true
  ends : ∀ c ∈ rest.head?, Text.isDigit c = false
  fraction : ∀ c more, rest = '.' :: c :: more → Text.isDigit c = false

theorem number_whole (whole : WholeNumber digits rest) :
    number (digits ++ rest) = number.integer digits rest := by
  unfold number
  rw [span_apart whole.ends, span_all whole.digits]
  dsimp only [nil_append]
  split
  · rename_i more
    cases more with
    | nil => rfl
    | cons c more => simp [span_eq_takeWhile_dropWhile, whole.fraction c more rfl]
  · rfl

/-- A literal stands here that is no matter of form: a whole number with too many digits, or a
pattern that the matcher has trouble with. -/
inductive Exceeds (patterns : Matcher) (previous : Option Token) (body : List Char) :
    Statement.Failure → Prop
  | number {digits rest : List Char} (parts : body = digits ++ rest)
      (whole : WholeNumber digits rest) (many : Number.digitLimit < digits.length) :
      Exceeds patterns previous body (.tooManyDigits ⟨some digits.length⟩)
  | pattern {source letters rest : List Char} {t : Pattern.Trouble}
      (free : previous.any Token.endsOperand = false)
      (found : pattern? body = some (source, letters, rest))
      (troubled :
        patterns.compile (String.ofList source) (.ofLetters letters) = .error (.troubled t)) :
      Exceeds patterns previous body (.troubled t)

theorem plain_exceeds {bad : Failure} (whole : WholeNumber digits rest)
    (many : Number.digitLimit < digits.length) :
    plain bad (digits ++ rest) = .error (.tooManyDigits ⟨some digits.length⟩) := by
  have long : number (digits ++ rest) = .error (.tooManyDigits ⟨some digits.length⟩) := by
    simp [number_whole whole, number.integer, Number.natural, Nat.not_le.mpr many]
  cases digits with
  | nil => cases many
  | cons c digits =>
    unfold plain
    simp only [cons_append, whole.digits c mem_cons_self]
    exact long

theorem read_pattern {source letters : List Char} {err : Pattern.Failure}
    (free : previous.any Token.endsOperand = false)
    (found : pattern? (Text.trimLeft cs) = some (source, letters, rest))
    (failed : patterns.compile (String.ofList source) (.ofLetters letters) = .error err) :
    token patterns total previous cs = .error (.badPattern (String.ofList source) err) := by
  unfold token
  simp [free, found, Matcher.read, failed, Except.map]

theorem Exceeds.fails {f : Statement.Failure}
    (exceeds : Exceeds patterns previous (Text.trimLeft cs) f) :
    ∃ e, token patterns total previous cs = .error e ∧ .ofLexer e = f := by
  cases exceeds with
  | @number digits rest parts whole many =>
    refine ⟨.tooManyDigits ⟨some digits.length⟩, ?_, rfl⟩
    have none : pattern? (digits ++ rest) = none := by
      cases digits with
      | nil => cases many
      | cons c digits =>
        refine pattern?_eq_none ?_
        rintro rfl
        exact absurd (whole.digits '/' mem_cons_self) (by decide)
    unfold token
    dsimp only
    rw [parts, none]
    split <;> exact plain_exceeds whole many
  | pattern free found troubled => exact ⟨_, read_pattern free found troubled, rfl⟩

theorem digitsValue_lt (cs : List Char) : Text.digitsValue cs < Number.pow10 cs.length := by
  have digit (c : Char) : (Text.digit? c).getD 0 < 10 := by
    unfold Text.digit?
    split
    · split
      · rename_i digit
        simp [Char.isDigit, UInt32.le_iff_toNat_le] at digit
        show c.toNat - 48 < 10
        omega
      · decide
    · cases found : Text.zeros.find? fun start => start ≤ c.toNat && c.toNat < start + 10 with
      | none => exact Nat.zero_lt_succ 9
      | some start =>
        have within := find?_some found
        simp at within ⊢
        omega
  unfold Text.digitsValue
  induction cs using List.reverseRecOn with
  | nil => decide
  | append_singleton cs c ih =>
    have own := digit c
    have power : Number.pow10 (cs.length + 1) = Number.pow10 cs.length * 10 := rfl
    simp only [foldl_append, foldl_cons, foldl_nil, length_append, length_singleton, power]
    omega

theorem number_literal {n : Number} (read : number cs = .ok (.number n, rest)) :
    ∃ s, n.literal = .ok s := by
  have whole {digits left : List Char} (read : number.integer digits left = .ok (.number n, rest)) :
      ∃ s, n.literal = .ok s := by
    unfold number.integer Number.natural at read
    by_cases fits : digits.length ≤ Number.digitLimit
    · rw [if_pos fits] at read
      cases read
      have grows {m n : Nat} (le : m ≤ n) : Number.pow10 m ≤ Number.pow10 n := Nat.pow_le_pow_right
        (Nat.zero_lt_succ 9) le
      have small := Nat.lt_of_lt_of_le (digitsValue_lt digits) (grows fits)
      simp only [Number.literal, Number.intText, Int.natAbs_natCast, if_pos small]
      exact ⟨_, rfl⟩
    · rw [if_neg fits] at read
      cases read
  unfold number at read
  dsimp only at read
  split at read
  · split at read
    · exact whole read
    · cases read
      exact ⟨_, rfl⟩
  · exact whole read

theorem Reads.literal {ts : List Token} (reads : Reads patterns previous cs ts) :
    ∀ n, .number n ∈ ts → ∃ s, n.literal = .ok s := by
  induction reads with
  | blank _ => nofun
  | token _ begins _ ih =>
    intro n member
    rcases mem_cons.mp member with rfl | later
    · cases begins with
      | plain _ read =>
        unfold plain at read
        split at read
        · cases read
        split at read
        · exact number_literal read
        · unfold word at read
          dsimp only at read
          repeat' split at read
          all_goals cases read
    · exact ih n later

end

end Lexer

namespace Parser

/-- The answer of a parser to the tokens before the mark of the end. It is the same at every depth
that their number allows and whatever stands behind the mark. It is no failure for want of tokens or
of depth, and a success takes at least so many tokens and leaves the mark. -/
inductive Settles {α : Type} (least slack : Nat)
    (parse : Nat → List Token → Except Failure (α × List Token)) (us : List Token) : Prop
  | fails (e : Failure) (other : e ≠ .exhausted)
      (same : ∀ depth vs, 4 * us.length + slack ≤ depth → parse depth (us ++ .eof :: vs) = .error e)
  | takes (a : α) (used left : List Token) (whole : us = used ++ left)
      (enough : least ≤ used.length)
      (same : ∀ depth vs, 4 * us.length + slack ≤ depth →
        parse depth (us ++ .eof :: vs) = .ok (a, left ++ .eof :: vs))

section

variable {α β : Type} {k slack slack' least : Nat}
  {parse inner : Nat → List Token → Except Failure (α × List Token)}
  {next : Nat → α × List Token → Except Failure (β × List Token)} {us front : List Token}
  {t : Token} {left : Expr} {c : Continuation}

theorem settles_ok (a : α) (us : List Token) : Settles 0 slack (fun _ ts => .ok (a, ts)) us :=
  .takes a [] us rfl (Nat.le_refl 0) fun _ _ _ => rfl

theorem settles_error (e : Failure) (other : e ≠ .exhausted) (us : List Token) :
    Settles 0 slack (fun _ _ => (.error e : Except Failure (α × List Token))) us :=
  .fails e other fun _ _ _ => rfl

theorem Settles.bind (own : Settles k slack parse us)
    (others : ∀ a left, k + left.length ≤ us.length →
      Settles 0 3 (fun depth ts => next depth (a, ts)) left)
    (bound : 3 ≤ slack + 4 * k) :
    Settles k slack (fun depth ts => parse depth ts >>= next depth) us := by
  cases own with
  | fails e other same =>
    refine .fails e other fun depth vs deep => ?_
    rw [same depth vs deep]
    rfl
  | takes a used left whole enough same =>
    have parts : us.length = used.length + left.length := by rw [whole, length_append]
    cases others a left (by omega) with
    | fails e other after =>
      refine .fails e other fun depth vs deep => ?_
      rw [same depth vs deep]
      exact after depth vs (by omega)
    | takes b used' left' whole' _ after =>
      refine .takes b (used ++ used') left' (by rw [whole, whole', append_assoc])
        (by rw [length_append]; omega) fun depth vs deep => ?_
      rw [same depth vs deep]
      exact after depth vs (by omega)

theorem Settles.under (own : Settles k slack inner us) (up : Nat) (front : List Token)
    (step : ∀ depth ts, parse (depth + up) (front ++ ts) = inner depth ts)
    (bound : slack + up ≤ slack' + 4 * front.length) :
    Settles (k + front.length) slack' parse (front ++ us) := by
  have deeper {depth : Nat} {ts : List Token} {r : Except Failure (α × List Token)}
      (deep : 4 * (front ++ us).length + slack' ≤ depth)
      (same : ∀ depth, 4 * us.length + slack ≤ depth → inner depth ts = r) :
      parse depth (front ++ ts) = r := by
    rw [length_append] at deep
    obtain ⟨depth, rfl⟩ := Nat.exists_eq_add_of_le' (by omega : up ≤ depth)
    rw [step]
    exact same depth (by omega)
  cases own with
  | fails e other same =>
    refine .fails e other fun depth vs deep => ?_
    rw [append_assoc]
    exact deeper deep (same · vs)
  | takes a used left whole enough same =>
    refine .takes a (front ++ used) left (by rw [whole, append_assoc])
      (by rw [length_append]; omega) fun depth vs deep => ?_
    rw [append_assoc]
    exact deeper deep (same · vs)

theorem settles_expect (wanted : Sym) (a : α) (us : List Token) :
    Settles 0 3 (fun _ ts => expect wanted ts >>= fun rest => pure (a, rest)) us := by
  cases us with
  | nil => exact .fails (.expected wanted .eof) nofun fun _ _ _ => rfl
  | cons t us =>
    by_cases closes : t = .sym wanted
    · subst closes
      refine .takes a [.sym wanted] us rfl (Nat.zero_le 1) fun _ vs _ => ?_
      rw [cons_append, expect_self]
      rfl
    · refine .fails (.expected wanted t) nofun fun _ vs _ => ?_
      simp only [cons_append, expect, if_neg closes]
      rfl

/-- All the parsers settle these tokens. An expression and a list of them take a token. -/
structure Settled (us : List Token) : Prop where
  expression (least : Nat) : Settles 1 2 (Parser.expression · least ·) us
  operand (t : Token) : Settles 0 4 (Parser.operand · t ·) us
  listed : Settles 1 3 Parser.listed us
  continued (least : Nat) (left : Expr) : Settles 0 3 (Parser.continued · least left ·) us
  extended (left : Expr) (c : Continuation) : Settles 0 3 (Parser.extended · left c ·) us

theorem Settles.loose (own : Settles k slack parse us) : Settles 0 slack parse us := by
  cases own with
  | fails e other same => exact .fails e other same
  | takes a used left whole _ same => exact .takes a used left whole (Nat.zero_le _) same

theorem settled_expression (shorter : ∀ left, left.length < us.length → Settled left)
    (least : Nat) : Settles 1 2 (Parser.expression · least ·) us := by
  cases us with
  | nil =>
    refine .fails (.unexpected .eof) nofun fun depth vs deep => ?_
    obtain ⟨depth, rfl⟩ := Nat.exists_eq_add_of_le' deep
    rfl
  | cons t us =>
    have first := (shorter us (by simp)).operand t
    refine Settles.under (first.bind (fun e left short => ?_) ?_) 1 [t] (expression_cons t) ?_
    · exact (shorter left (by simp at short ⊢; omega)).continued least e
    · decide
    · simp

theorem settled_signed (own : Settles 1 2 (Parser.expression · signPower ·) us) (op : UnaryOp) :
    Settles 1 3 (signed · op ·) us := by
  refine Settles.under (own.bind (fun e left _ => ?_) ?_) 1 [] (fun _ _ => rfl) ?_
  · exact settles_ok (Expr.unary op e) left
  · decide
  · decide

theorem settled_stepped (own : Settles 1 2 (Parser.expression · signPower ·) us) (op : UpdateOp) :
    Settles 1 3 (stepped · op ·) us := by
  refine Settles.under (own.bind (fun e left _ => ?_) ?_) 1 [] (fun _ _ => rfl) ?_
  · cases e with
    | name n => exact settles_ok (Expr.update n op true) left
    | _ => exact settles_error (.badOperand true op) nofun left
  · decide
  · decide

theorem settled_listed (shorter : ∀ left, left.length < us.length → Settled left)
    (own : Settles 1 2 (Parser.expression · 0 ·) us) : Settles 1 3 Parser.listed us := by
  refine Settles.under (own.bind (fun e left short => ?_) ?_) 1 [] (fun _ _ => rfl) ?_
  · cases left with
    | nil => exact .takes [e] [] [] rfl (Nat.le_refl 0) fun _ _ _ => rfl
    | cons t left =>
      by_cases comma : t = .sym .comma
      · subst comma
        have others := (shorter left (by simp at short; omega)).listed
        refine (Settles.under (others.bind (fun es left _ => ?_) ?_) 0 [.sym .comma]
          (fun _ _ => rfl) ?_).loose
        · exact settles_ok (e :: es) left
        · decide
        · decide
      · refine .takes [e] [] (t :: left) rfl (Nat.le_refl 0) fun depth vs _ => ?_
        dsimp only [cons_append]
        split
        · rename_i start
          exact absurd (cons.inj start).1 comma
        · rfl
  · decide
  · decide

theorem Settles.congr (own : Settles k slack inner us)
    (same : ∀ depth vs, parse depth (us ++ .eof :: vs) = inner depth (us ++ .eof :: vs)) :
    Settles k slack parse us := by
  cases own with
  | fails e other own =>
    exact .fails e other fun depth vs deep => (same depth vs).trans (own depth vs deep)
  | takes a used left whole enough own =>
    exact .takes a used left whole enough fun depth vs deep => (same depth vs).trans
      (own depth vs deep)

theorem settled_operand (own : ∀ least, Settles 1 2 (Parser.expression · least ·) us)
    (items : Settles 1 3 Parser.listed us) (t : Token) : Settles 0 4 (Parser.operand · t ·) us := by
  have inside {k : Nat} {inner : Nat → List Token → Except Failure (Expr × List Token)}
      (own : Settles k 3 inner us)
      (step : ∀ depth ts, Parser.operand (depth + 1) t ts = inner depth ts) :
      Settles 0 4 (Parser.operand · t ·) us :=
    (Settles.under own 1 [] step (by decide)).loose
  cases t with
  | number n => exact inside (settles_ok (.number n) us) fun _ _ => rfl
  | text s => exact inside (settles_ok (.text s) us) fun _ _ => rfl
  | pattern p => exact inside (settles_ok (.pattern p) us) fun _ _ => rfl
  | name n => exact inside (settles_ok (.name n) us) fun _ _ => rfl
  | eof => exact inside (settles_error (.unexpected .eof) nofun us) fun _ _ => rfl
  | keyword k =>
    cases k with
    | yes => exact inside (settles_ok (.bool true) us) fun _ _ => rfl
    | no => exact inside (settles_ok (.bool false) us) fun _ _ => rfl
    | null | undefined => exact inside (settles_ok .null us) fun _ _ => rfl
    | not => exact inside (settled_signed (own _) .not) fun _ _ => rfl
    | and | or => exact inside (settles_error (.unexpected (.keyword _)) nofun us) fun _ _ => rfl
  | sym s =>
    cases s with
    | inc => exact inside (settled_stepped (own _) .inc) fun _ _ => rfl
    | dec => exact inside (settled_stepped (own _) .dec) fun _ _ => rfl
    | bang => exact inside (settled_signed (own _) .not) fun _ _ => rfl
    | add => exact inside (settled_signed (own _) .plus) fun _ _ => rfl
    | sub => exact inside (settled_signed (own _) .minus) fun _ _ => rfl
    | «open» =>
      refine (Settles.under ((own 0).bind (fun e left _ => ?_) (by decide)) 1 [] (fun _ _ => rfl)
        (by decide)).loose
      exact settles_expect .close e left
    | openList =>
      refine @inside 0 _ ?_ fun _ _ => rfl
      by_cases empty : us.head? = some (.sym .closeList)
      · obtain ⟨left, rfl⟩ := head?_eq_some_iff.mp empty
        exact .takes (.list []) [.sym .closeList] left rfl (Nat.zero_le 1) fun _ _ _ => rfl
      · have filled : Settles 1 3 (fun depth ts => Parser.listed depth ts >>= fun x =>
            expect .closeList x.2 >>= fun rest => pure (Expr.list x.1, rest)) us :=
          items.bind (fun es left _ => settles_expect .closeList (Expr.list es) left) (by decide)
        refine filled.loose.congr fun depth vs => if_neg ?_
        cases us with
        | nil => nofun
        | cons u us => exact empty
    | _ => exact inside (settles_error (.unexpected (.sym _)) nofun us) fun _ _ => rfl

theorem settled_continued (shorter : ∀ left, left.length < us.length → Settled left) (least : Nat)
    (left : Expr) : Settles 0 3 (Parser.continued · least left ·) us := by
  by_cases halts : Halts least (us ++ [.eof])
  · refine .takes left [] us rfl (Nat.zero_le 0) fun depth vs deep => ?_
    obtain ⟨depth, rfl⟩ := Nat.exists_eq_add_of_le' (Nat.le_of_add_left_le deep)
    have stop : Halts least (us ++ .eof :: vs) := by cases us <;> exact halts
    exact continued_halts stop
  · unfold Halts at halts
    push Not at halts
    obtain ⟨t, head, c, goesOn, tight⟩ := halts
    cases us with
    | nil => cases head; cases goesOn
    | cons u us =>
      cases head
      have own := (shorter us (by simp)).extended left c
      refine (Settles.under (own.bind (fun e rest short => ?_) (by decide)) 1 [t]
        (continued_cons goesOn tight) (by simp)).loose
      exact (shorter rest (by simp at short ⊢; omega)).continued least e

theorem settled_extended (own : ∀ least, Settles 1 2 (Parser.expression · least ·) us) (left : Expr)
    (c : Continuation) : Settles 0 3 (Parser.extended · left c ·) us := by
  have inside {k : Nat} {inner : Nat → List Token → Except Failure (Expr × List Token)}
      (own : Settles k 2 inner us)
      (step : ∀ depth ts, Parser.extended (depth + 1) left c ts = inner depth ts) :
      Settles 0 3 (Parser.extended · left c ·) us :=
    (Settles.under own 1 [] step (by decide)).loose
  cases c with
  | assign op =>
    cases left with
    | name n =>
      exact inside ((own 5).bind (fun e rest _ => settles_ok (Expr.assign n op e) rest) (by decide))
        fun _ _ => rfl
    | _ => exact inside (settles_error .badTarget nofun us) fun _ _ => rfl
  | update op =>
    cases left with
    | name n => exact inside (settles_ok (.update n op false) us) fun _ _ => rfl
    | _ => exact inside (settles_error (.badOperand false op) nofun us) fun _ _ => rfl
  | index =>
    exact inside ((own 0).bind (fun e rest _ => settles_expect .closeList (Expr.index left e) rest)
      (by decide)) fun _ _ => rfl
  | member =>
    refine @inside 0 _ ?_ fun _ _ => rfl
    cases us with
    | nil => exact .fails (.expectedName .eof) nofun fun _ _ _ => rfl
    | cons u us =>
      cases u with
      | name n => exact .takes (.member left n) [.name n] us rfl (Nat.zero_le 1) fun _ _ _ => rfl
      | keyword k =>
        exact .takes (.member left k.spelling) [.keyword k] us rfl (Nat.zero_le 1) fun _ _ _ => rfl
      | _ => exact .fails (.expectedName _) nofun fun _ _ _ => rfl
  | binary op =>
    have right := own (binaryPower op + 1)
    exact inside (right.bind (fun e rest _ => settles_ok (Expr.binary op left e) rest) (by decide))
      fun _ _ => rfl

theorem settled (us : List Token) : Settled us := by
  induction len : us.length using Nat.strong_induction_on generalizing us with
  | h n ih =>
    subst len
    have shorter (left : List Token) (short : left.length < us.length) : Settled left :=
      ih _ short left rfl
    have own := settled_expression shorter
    have items := settled_listed shorter (own 0)
    exact ⟨own, settled_operand own items, items, settled_continued shorter, settled_extended own⟩

end

end Parser

end Runbook
