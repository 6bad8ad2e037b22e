import Runbook.Pattern.Standard
import Runbook.Proofs.Expr.Parsing
import Runbook.Proofs.Expr.Printing

namespace Runbook

open List

structure Readable (ts : List Token) : Prop extends Ordered Token.endsOperand ts where
  writable : ∀ t ∈ ts, t.isWritable = true

section Readable

variable {t : Token} {ts us : List Token}

theorem readable_one (writable : t.isWritable = true) (ends : t.endsOperand = true) :
    Readable [t] where
  toOrdered := ordered_one ends (by rintro rfl; cases ends)
  writable := by simpa using writable

theorem readable_name {n : String} (word : isWord n = true) : Readable [.name n] :=
  readable_one word rfl

theorem Readable.after (readable : Readable ts) (writable : t.isWritable = true)
    (other : t ≠ .sym .div) : Readable (t :: ts) where
  toOrdered := readable.toOrdered.after other
  writable := forall_mem_cons.mpr ⟨writable, readable.writable⟩

theorem Readable.join (left : Readable ts) (right : Readable us) (writable : t.isWritable = true) :
    Readable (ts ++ t :: us) where
  toOrdered := left.toOrdered.join right.toOrdered t
  writable := forall_mem_append.mpr ⟨left.writable, forall_mem_cons.mpr ⟨writable, right.writable⟩⟩

theorem Readable.before (readable : Readable ts) (writable : t.isWritable = true)
    (ends : t.endsOperand = true) : Readable (ts ++ [t]) where
  toOrdered := readable.toOrdered.before ends
  writable := forall_mem_append.mpr ⟨readable.writable, by simpa using writable⟩

theorem Readable.enclosed (readable : Readable ts) (least rank : Nat) :
    Readable (Expr.enclosed least rank ts) := by
  unfold Expr.enclosed
  split
  · exact (readable.before rfl rfl).after rfl (by decide)
  · exact readable

end Readable

namespace Expr

mutual

theorem readable_tokens (e : Expr) (writable : e.isWritable = true) : Readable e.tokens := by
  cases e with
  | number n =>
    unfold tokens
    refine readable_one ?_ rfl
    cases n with
    | int n => exact writable
    | float x => cases writable
  | text s | null =>
    unfold tokens
    exact readable_one rfl rfl
  | bool b =>
    unfold tokens
    exact readable_one rfl (by cases b <;> rfl)
  | pattern p => cases writable
  | name n =>
    unfold tokens
    exact readable_name writable
  | list items =>
    unfold tokens
    cases items with
    | nil => exact (readable_one rfl rfl).after rfl (by decide)
    | cons e rest =>
      exact ((readable_tokensAll (e :: rest) writable (cons_ne_nil e rest)).before rfl rfl).after
        rfl (by decide)
  | assign target op value =>
    unfold tokens
    obtain ⟨word, inner⟩ := (Bool.and_eq_true ..).mp writable
    exact (readable_name word).join ((readable_tokens value inner).enclosed 1 value.rank) rfl
  | update target op before =>
    cases before with
    | true =>
      unfold tokens
      exact (readable_name writable).after rfl (by cases op <;> decide)
    | false =>
      unfold tokens
      exact (readable_name writable).before rfl (by cases op <;> rfl)
  | index target i =>
    unfold tokens
    obtain ⟨left, right⟩ := (Bool.and_eq_true ..).mp writable
    exact ((readable_tokens target left).enclosed 9 target.rank).join
      ((readable_tokens i right).before rfl rfl) rfl
  | member target n =>
    unfold tokens
    obtain ⟨left, word⟩ := (Bool.and_eq_true ..).mp writable
    exact ((readable_tokens target left).enclosed 9 target.rank).join (readable_name word) rfl
  | unary op operand =>
    unfold tokens
    exact ((readable_tokens operand writable).enclosed 8 operand.rank).after rfl
      (by cases op <;> decide)
  | binary op left right =>
    unfold tokens
    obtain ⟨first, second⟩ := (Bool.and_eq_true ..).mp writable
    exact ((readable_tokens left first).enclosed op.rank left.rank).join
      ((readable_tokens right second).enclosed (op.rank + 1) right.rank) rfl

theorem readable_tokensAll (es : List Expr) (writable : areWritable es = true) (ink : es ≠ []) :
    Readable (tokensAll es) := by
  match es with
  | [] => exact absurd rfl ink
  | [e] =>
    unfold tokensAll
    obtain ⟨own, _⟩ := (Bool.and_eq_true ..).mp writable
    exact readable_tokens e own
  | e :: next :: rest =>
    unfold tokensAll
    obtain ⟨own, others⟩ := (Bool.and_eq_true ..).mp writable
    exact (readable_tokens e own).join
      (readable_tokensAll (next :: rest) others (cons_ne_nil next rest)) rfl

end

end Expr

namespace Parser

/-- In front of others that do not bind as tightly as `q`, these tokens come to `e`, and the parser
goes on behind it. -/
def Spells (p q : Nat) (e : Expr) (ts : List Token) : Prop :=
  ∀ depth least tail, least ≤ p → Halts q tail → 4 * ts.length < depth →
    ∃ left, depth ≤ left + ts.length ∧ expression depth least (ts ++ tail) =
    continued left least e tail

section Spells

variable {p q p' q' : Nat} {e left : Expr} {t : Token} {ts us tail : List Token} {c : Continuation}
  {depth least : Nat}

theorem Spells.mono (spells : Spells p q e ts) (power : p' ≤ p) (reach : q' ≤ q) :
    Spells p' q' e ts :=
  fun depth least tail bound halts deep => spells depth least tail (Nat.le_trans bound power)
    (halts.mono reach) deep

theorem Spells.whole (spells : Spells p q e ts) (power : least ≤ p) (reach : least ≤ q)
    (halts : Halts least tail) (deep : 4 * ts.length < depth) :
    expression depth least (ts ++ tail) = .ok (e, tail) := by
  obtain ⟨left, loss, same⟩ := spells depth least tail power (halts.mono reach) deep
  obtain ⟨left, rfl⟩ : ∃ d, left = d + 1 := ⟨left - 1, by omega⟩
  rw [same, continued_halts halts]

theorem spells_operand
    (own : ∀ depth tail, Halts q tail → 4 * ts.length + 2 ≤ depth →
      operand (depth + 1) t (ts ++ tail) = .ok (e, tail)) :
    Spells 111 q e (t :: ts) := by
  intro depth least tail _ halts deep
  simp only [length_cons] at deep ⊢
  obtain ⟨depth, rfl⟩ : ∃ d, depth = d + 2 := ⟨depth - 2, by omega⟩
  refine ⟨depth + 1, by omega, ?_⟩
  rw [cons_append, expression_cons, own depth tail halts (by omega)]
  rfl

theorem Spells.extend (front : Spells p q left ts) (goesOn : continuation? t = some c)
    (under : c.power < q)
    (own : ∀ depth tail, Halts q' tail → 4 * us.length < depth →
      extended (depth + 1) left c (us ++ tail) = .ok (e, tail)) :
    Spells (min p c.power) q' e (ts ++ t :: us) := by
  intro depth least tail bound halts deep
  simp only [length_append, length_cons] at deep ⊢
  have next : Halts q (t :: (us ++ tail)) := fun _ head c' goesOn' => by
    cases head
    rw [goesOn] at goesOn'
    cases goesOn'
    exact under
  obtain ⟨d, loss, same⟩ := front depth least (t :: (us ++ tail)) (by omega) next (by omega)
  obtain ⟨d, rfl⟩ : ∃ d', d = d' + 2 := ⟨d - 2, by omega⟩
  refine ⟨d + 1, by omega, ?_⟩
  rw [append_assoc, cons_append, same, continued_cons goesOn (by omega),
    own d tail halts (by omega)]
  rfl

theorem Spells.bracket (inner : Spells p q e ts) :
    Spells 111 111 e (.sym .open :: (ts ++ [.sym .close])) := by
  refine spells_operand fun depth tail _ deep => ?_
  simp only [length_append, length_singleton] at deep
  have whole : expression depth 0 (ts ++ .sym .close :: tail) = .ok (e, .sym .close :: tail) :=
    inner.whole (Nat.zero_le p) (Nat.zero_le q) (halts_cons rfl) (by omega)
  simp only [append_assoc, singleton_append, operand, whole]
  exact congrArg (· >>= fun r => pure (e, r)) (expect_self .close tail)

end Spells

/-- The power that holds the expressions on a line of the table together. -/
def linePower : Nat → Nat
  | 0 => 0
  | 1 => 5
  | 2 => 10
  | 3 => 20
  | 4 => 30
  | 5 => 40
  | 6 => 50
  | 7 => 60
  | 8 => 100
  | 9 => 110
  | _ => 111

/-- What binds as tightly as this, behind an expression on that line, would go to its last
operand. -/
def lineReach : Nat → Nat
  | 1 => 5
  | 8 => 100
  | 9 | 10 => 111
  | line => linePower line + 1

theorem linePower_rank (op : BinaryOp) :
    linePower op.rank = binaryPower op ∧ lineReach op.rank = binaryPower op + 1 := by
  cases op <;> decide

theorem rank_le (e : Expr) : e.rank ≤ 10 := by
  cases e with
  | binary op _ _ => cases op <;> simp [Expr.rank, BinaryOp.rank]
  | update _ _ before => cases before <;> simp [Expr.rank]
  | _ => simp [Expr.rank]

theorem Spells.enclosed {p q least : Nat} {e : Expr}
    (spells : Spells (linePower e.rank) (lineReach e.rank) e e.tokens)
    (fits : ∀ line ≤ 10, least ≤ line → p ≤ linePower line ∧ q ≤ lineReach line)
    (bound : least ≤ 10) : Spells p q e (Expr.enclosed least e.rank e.tokens) := by
  unfold Expr.enclosed
  split
  · obtain ⟨power, reach⟩ := fits 10 (Nat.le_refl 10) bound
    exact spells.bracket.mono power reach
  · rename_i tight
    obtain ⟨power, reach⟩ := fits e.rank (rank_le e) (Nat.not_lt.mp tight)
    exact spells.mono power reach

theorem continuation?_binary (op : BinaryOp) : continuation? (.sym op.sym) = some (.binary op) := by
  cases op <;> rfl

theorem continuation?_assign (op : AssignOp) : continuation? (.sym op.sym) = some (.assign op) := by
  cases op <;> rfl

theorem continuation?_update (op : UpdateOp) : continuation? (.sym op.sym) = some (.update op) := by
  cases op <;> rfl

theorem spells_atom {e : Expr} {t : Token}
    (own : ∀ depth tail, operand (depth + 1) t tail = .ok (e, tail)) : Spells 111 111 e [t] :=
  spells_operand fun depth tail _ _ => own depth tail

section Forms

variable {p q : Nat} {e left right : Expr} {ts us : List Token}

theorem spells_assign (target : String) (op : AssignOp) (value : Spells 5 5 e ts) :
    Spells 5 5 (.assign target op e) ([.name target] ++ .sym op.sym :: ts) := by
  have name : Spells 111 111 (.name target) [.name target] := spells_atom fun _ _ => rfl
  refine name.extend (continuation?_assign op) (by decide : 5 < 111) fun depth tail halts deep => ?_
  have whole := value.whole (Nat.le_refl 5) (Nat.le_refl 5) halts deep
  show (expression depth 5 (ts ++ tail) >>= fun x => pure (Expr.assign target op x.1, x.2)) = _
  rw [whole]
  rfl

theorem spells_step (target : String) (op : UpdateOp) :
    Spells 100 100 (.update target op true) [.sym op.sym, .name target] := by
  have name : Spells 111 111 (.name target) [.name target] := spells_atom fun _ _ => rfl
  refine (spells_operand fun depth tail halts deep => ?_).mono (by decide : 100 ≤ 111)
    (Nat.le_refl 100)
  obtain ⟨depth, rfl⟩ : ∃ d, depth = d + 1 := ⟨depth - 1, by omega⟩
  have whole := name.whole (by decide : 100 ≤ 111) (by decide : 100 ≤ 111) halts
    (by simp at deep ⊢; omega : _ < depth)
  have own : operand (depth + 2) (.sym op.sym) ([.name target] ++ tail) =
      stepped (depth + 1) op ([.name target] ++ tail) := by
    cases op <;> rfl
  rw [own]
  show (expression depth 100 ([.name target] ++ tail) >>= fun x => _) = _
  rw [whole]
  rfl

theorem spells_postfix (target : String) (op : UpdateOp) :
    Spells 110 111 (.update target op false) [.name target, .sym op.sym] := by
  have name : Spells 111 111 (.name target) [.name target] := spells_atom fun _ _ => rfl
  show Spells 110 111 _ ([.name target] ++ .sym op.sym :: [])
  exact name.extend (continuation?_update op) (by decide : 110 < 111) fun _ _ _ _ => rfl

theorem spells_unary (op : UnaryOp) (operand : Spells 100 100 e ts) :
    Spells 100 100 (.unary op e) (.sym op.sym :: ts) := by
  refine (spells_operand fun depth tail halts deep => ?_).mono (by decide : 100 ≤ 111)
    (Nat.le_refl 100)
  obtain ⟨depth, rfl⟩ : ∃ d, depth = d + 1 := ⟨depth - 1, by omega⟩
  have whole := operand.whole (Nat.le_refl 100) (Nat.le_refl 100) halts (by omega : _ < depth)
  have own : Parser.operand (depth + 2) (.sym op.sym) (ts ++ tail) =
      signed (depth + 1) op (ts ++ tail) := by
    cases op <;> rfl
  rw [own]
  show (expression depth 100 (ts ++ tail) >>= fun x => _) = _
  rw [whole]
  rfl

theorem spells_index (target : Spells 110 111 left ts) (i : Spells p q right us) :
    Spells 110 111 (.index left right) (ts ++ .sym .openList :: (us ++ [.sym .closeList])) := by
  have goesOn : continuation? (.sym .openList) = some .index := rfl
  refine target.extend goesOn (by decide : 110 < 111) fun depth tail _ deep => ?_
  simp only [length_append, length_singleton] at deep
  have whole :
      expression depth 0 (us ++ .sym .closeList :: tail) = .ok (right, .sym .closeList :: tail) :=
    i.whole (Nat.zero_le p) (Nat.zero_le q) (halts_cons rfl) (by omega)
  simp only [append_assoc, singleton_append, extended, whole]
  exact congrArg (· >>= fun r => pure (Expr.index left right, r)) (expect_self .closeList tail)

theorem spells_member (target : Spells 110 111 left ts) (n : String) :
    Spells 110 111 (.member left n) (ts ++ [.sym .dot, .name n]) := by
  have goesOn : continuation? (.sym .dot) = some .member := rfl
  exact target.extend goesOn (by decide : 110 < 111) fun _ _ _ _ => rfl

theorem spells_binary (op : BinaryOp) (first : Spells (binaryPower op) (binaryPower op + 1) left ts)
    (second : Spells (binaryPower op + 1) (binaryPower op + 1) right us) :
    Spells (binaryPower op) (binaryPower op + 1) (.binary op left right)
      (ts ++ .sym op.sym :: us) := by
  have whole {depth : Nat} {tail : List Token} (halts : Halts (binaryPower op + 1) tail)
      (deep : 4 * us.length < depth) :
      extended (depth + 1) left (.binary op) (us ++ tail) = .ok (.binary op left right, tail) := by
    have whole := second.whole (Nat.le_refl _) (Nat.le_refl _) halts deep
    show (expression depth (binaryPower op + 1) (us ++ tail) >>= fun x => pure
      (Expr.binary op left x.1, x.2)) = _
    rw [whole]
    rfl
  have extended := first.extend (continuation?_binary op) (Nat.lt_succ_self (binaryPower op))
    fun _ _ => whole
  exact extended.mono (by simp [Continuation.power]) (Nat.le_refl _)

end Forms

theorem listed_head {depth : Nat} {ts : List Token} {out : List Expr × List Token}
    (parsed : listed depth ts = .ok out) : ts.head? ≠ some (.sym .closeList) := by
  intro head
  obtain ⟨rest, rfl⟩ := head?_eq_some_iff.mp head
  cases depth with
  | zero => cases parsed
  | succ depth =>
    obtain ⟨_, first, _⟩ := bind_ok parsed
    cases depth with
    | zero => cases first
    | succ depth =>
      obtain ⟨_, operand, _⟩ := bind_ok first
      cases depth <;> cases operand

mutual

theorem spells_tokens (e : Expr) (writable : e.isWritable = true) :
    Spells (linePower e.rank) (lineReach e.rank) e e.tokens := by
  cases e with
  | number n | text s | null | name n =>
    unfold Expr.tokens
    exact spells_atom fun _ _ => rfl
  | pattern p => cases writable
  | bool b =>
    unfold Expr.tokens
    exact spells_atom fun _ _ => by cases b <;> rfl
  | list items =>
    unfold Expr.tokens
    refine spells_operand fun depth tail _ deep => ?_
    cases items with
    | nil => rfl
    | cons e rest =>
      simp only [length_append, length_singleton] at deep
      have inner := listed_tokensAll (e :: rest) writable (cons_ne_nil e rest) depth
        (.sym .closeList :: tail) (halts_cons rfl) (by simp) (by omega)
      rw [append_assoc, singleton_append]
      simp only [operand, if_neg (listed_head inner), inner]
      exact congrArg (· >>= fun r => pure (Expr.list (e :: rest), r)) (expect_self .closeList tail)
  | assign target op value =>
    unfold Expr.tokens
    obtain ⟨_, inner⟩ := (Bool.and_eq_true ..).mp writable
    exact spells_assign target op ((spells_tokens value inner).enclosed (by decide) (by decide))
  | update target op before =>
    cases before with
    | true =>
      unfold Expr.tokens
      exact spells_step target op
    | false =>
      unfold Expr.tokens
      exact spells_postfix target op
  | index target i =>
    unfold Expr.tokens
    obtain ⟨left, right⟩ := (Bool.and_eq_true ..).mp writable
    exact spells_index ((spells_tokens target left).enclosed (by decide) (by decide))
      (spells_tokens i right)
  | member target n =>
    unfold Expr.tokens
    obtain ⟨left, _⟩ := (Bool.and_eq_true ..).mp writable
    exact spells_member ((spells_tokens target left).enclosed (by decide) (by decide)) n
  | unary op operand =>
    unfold Expr.tokens
    exact spells_unary op ((spells_tokens operand writable).enclosed (by decide) (by decide))
  | binary op left right =>
    unfold Expr.tokens
    obtain ⟨first, second⟩ := (Bool.and_eq_true ..).mp writable
    have before : Spells (binaryPower op) (binaryPower op + 1) left
        (Expr.enclosed op.rank left.rank left.tokens) :=
      (spells_tokens left first).enclosed (by cases op <;> decide) (by cases op <;> decide)
    have behind : Spells (binaryPower op + 1) (binaryPower op + 1) right
        (Expr.enclosed (op.rank + 1) right.rank right.tokens) :=
      (spells_tokens right second).enclosed (by cases op <;> decide) (by cases op <;> decide)
    obtain ⟨power, reach⟩ := linePower_rank op
    exact (spells_binary op before behind).mono (Nat.le_of_eq power) (Nat.le_of_eq reach)

theorem listed_tokensAll (es : List Expr) (writable : Expr.areWritable es = true) (ink : es ≠ [])
    (depth : Nat) (tail : List Token) (halts : Halts 0 tail)
    (last : tail.head? ≠ some (.sym .comma)) (deep : 4 * (Expr.tokensAll es).length + 1 < depth) :
    listed depth (Expr.tokensAll es ++ tail) = .ok (es, tail) := by
  obtain ⟨depth, rfl⟩ : ∃ d, depth = d + 1 := ⟨depth - 1, by omega⟩
  match es with
  | [] => exact absurd rfl ink
  | [e] =>
    unfold Expr.tokensAll at deep ⊢
    obtain ⟨own, _⟩ := (Bool.and_eq_true ..).mp writable
    exact listed_last ((spells_tokens e own).whole (Nat.zero_le _) (Nat.zero_le _) halts (by omega))
      last
  | e :: next :: rest =>
    unfold Expr.tokensAll at deep ⊢
    simp only [length_append, length_cons] at deep
    obtain ⟨own, others⟩ := (Bool.and_eq_true ..).mp writable
    rw [append_assoc, cons_append]
    refine listed_comma
      ((spells_tokens e own).whole (Nat.zero_le _) (Nat.zero_le _) (halts_cons rfl) (by omega)) ?_
    exact listed_tokensAll (next :: rest) others (cons_ne_nil next rest) depth tail halts
      last (by omega)

end

end Parser

/-- Precedence and associativity: a statement written out with the parentheses of the table is read
back as it was. -/
theorem read_written (patterns : Matcher) (mark : String → QuoteMark) (s : Statement)
    (writable : s.isWritable = true) : Statement.read patterns (s.written mark) = .ok s := by
  have ink : s.items ≠ [] := cons_ne_nil s.first s.rest
  have readable := Expr.readable_tokensAll s.items writable ink
  have reads : Lexer.Reads patterns none (writtenAll mark (Expr.tokensAll s.items))
      (Expr.tokensAll s.items) :=
    Lexer.reads_writtenAll readable.writable readable.chain fun t head division => absurd division
      (readable.first t head)
  have lexed :
      Lexer.tokens patterns (s.written mark).toList = .ok (Expr.tokensAll s.items ++ [.eof]) := by
    rw [Statement.written, String.toList_ofList]
    exact Lexer.tokens_iff.mpr ⟨_, reads, rfl⟩
  have parsed : Parser.statement (Expr.tokensAll s.items ++ [.eof]) = .ok s := by
    refine Parser.statement_ok.mpr
      ⟨[], Parser.listed_tokensAll s.items writable ink _ _ (Parser.halts_cons rfl) (by simp) ?_⟩
    simp only [Parser.depth, length_append, length_singleton]
    omega
  simp only [Statement.read, lexed, parsed]

theorem read_written_mixed : let s : Statement :=
  ⟨.assign "total" .add
    (.assign "$x" .set (.binary .sub (.binary .sub (.number (.int 10)) (.name "a"))
        (.binary .mul (.unary .minus (.unary .minus (.update "i" .inc false)))
        (.binary .add (.bool true) (.null))))),
      [.binary .div (.index (.update "n" .dec true) (.assign "k" .sub (.text "it's \\ \"so\"")))
        (.member
        (.list [.binary .or (.name "p")
        (.binary .and (.unary .not (.binary .eq (.name "q") (.name "r"))) (.name "s")), .list []])
        "length")]⟩
    s.isWritable = true ∧
    s.written (fun _ => .double) = "total += $x = 10 - a - - - i ++ * ( true + null ) , " ++
      "( -- n ) [ k -= \"it's \\\\ \\\"so\\\"\" ] / [ p || ! ( q == r ) && s , [ ] ] . length" ∧
    Statement.read .standard (s.written fun _ => .double) = .ok s := by
  exact ⟨by decide +kernel, by decide +kernel, read_written _ _ _ (by decide +kernel)⟩

end Runbook
