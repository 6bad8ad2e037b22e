import Runbook.Proofs.Expr.Precedence

namespace Runbook

open List

/-- Names, literals, lists, and what is indexed, a member or updated. -/
def Expr.isOperand : Expr → Bool
  | .assign .. | .unary .. | .binary .. => false
  | _ => true

namespace Parser

section Operands

variable {p q depth least : Nat} {e left : Expr} {ts front rest : List Token} {c : Continuation}

theorem Continuation.loose (loose : c.power < 110) :
    (∃ op, c = .assign op) ∨ ∃ op, c = .binary op := by
  cases c with
  | assign op => exact .inl ⟨op, rfl⟩
  | binary op => exact .inr ⟨op, rfl⟩
  | update | index | member => exact absurd loose (Nat.lt_irrefl 110)

theorem extended_loose (loose : c.power < 110) {t : Token} (goesOn : continuation? t = some c)
    (parsed : extended depth left c ts = .ok (e, rest)) :
    e.isOperand = false ∧ Halts signPower rest := by
  obtain ⟨used, _, own⟩ := sound.extended goesOn parsed
  cases depth with
  | zero => cases parsed
  | succ depth =>
    obtain ⟨op, rfl⟩ | ⟨op, rfl⟩ := Continuation.loose loose
    · cases left with
      | name n =>
        obtain ⟨⟨value, tail⟩, _, second⟩ := bind_ok parsed
        cases second
        exact ⟨rfl, own.stops.mono (by decide : 5 ≤ 100)⟩
      | _ => cases parsed
    · obtain ⟨⟨right, tail⟩, _, second⟩ := bind_ok parsed
      cases second
      exact ⟨rfl, own.stops.mono (by cases op <;> decide)⟩

theorem continued_not_isOperand (parsed : continued depth least left ts = .ok (e, rest))
    (other : left.isOperand = false) (halts : Halts signPower ts) : e.isOperand = false := by
  induction depth generalizing left ts with
  | zero => cases parsed
  | succ depth ih =>
    obtain ⟨rfl, _, _⟩ | ⟨t, c, us, left', middle, rfl, goesOn, _, first, second⟩ :=
      continued_ok parsed
    · exact other
    · have loose : c.power < 110 := Nat.lt_trans (halts t rfl c goesOn) (by decide)
      obtain ⟨other, halts⟩ := extended_loose loose goesOn first
      exact ih second other halts

theorem Spells.continued (spells : Spells p q left front)
    (parsed : continued depth least left ts = .ok (e, rest)) (isOperand : e.isOperand = true)
    (power : 60 ≤ p) (reach : 61 ≤ q) (halts : Halts q ts) :
    ∃ used, ts = used ++ rest ∧ Spells 60 61 e (front ++ used) := by
  induction depth generalizing p q left front ts with
  | zero => cases parsed
  | succ depth ih =>
    obtain ⟨rfl, rfl, _⟩ | ⟨t, c, us, left', middle, rfl, goesOn, _, first, second⟩ :=
      continued_ok parsed
    · refine ⟨[], rfl, ?_⟩
      rw [append_nil]
      exact spells.mono power reach
    · by_cases loose : c.power < 110
      · obtain ⟨other, halts⟩ := extended_loose loose goesOn first
        rw [continued_not_isOperand second other halts] at isOperand
        cases isOperand
      · obtain ⟨used, _, own⟩ := sound.extended goesOn first
        have tight : c.power = 110 := Nat.le_antisymm c.power_le (Nat.le_of_not_lt loose)
        have limit : extensionLimit c = 111 := by
          cases c with
          | binary op => cases op <;> cases tight
          | assign op => cases tight
          | _ => rfl
        rw [limit] at own
        have spells' := spells.extend goesOn (halts t rfl c goesOn)
          fun depth tail halts deep => own.again (depth + 1) tail halts (by omega)
        obtain ⟨used', rfl, whole⟩ := ih spells' second (by omega) (by decide) (halts_any _)
        exact ⟨t :: used ++ used', by simp [own.whole], by simpa using whole⟩

theorem spells_of_statement {patterns : Matcher} {previous : Option Token} {cs : List Char}
    (reads : Lexer.Reads patterns previous cs ts) (parsed : statement (ts ++ [.eof]) = .ok ⟨e, []⟩)
    (isOperand : e.isOperand = true) : Spells 60 61 e ts ∧ Ordered Token.closes ts := by
  obtain ⟨rest, parsed⟩ := statement_ok.mp parsed
  obtain ⟨_, same, first, _⟩ | ⟨_, others, _, same, _, again⟩ := listed_ok parsed
  · cases same
    obtain ⟨used, ⟨_, ordered⟩, own⟩ := sound.expression (Nat.zero_le _) first
    obtain ⟨rfl, rfl⟩ := reads.eof_once own.whole
    refine ⟨?_, ordered⟩
    obtain ⟨t, ts, rfl⟩ := exists_cons_of_ne_nil ordered.ink
    rw [cons_append, expression_cons] at first
    obtain ⟨⟨left, middle⟩, begins, goesOn⟩ := bind_ok first
    obtain ⟨front, _, own⟩ := sound.operand begins
    have limit := le_operandLimit t
    have reach : 61 ≤ operandLimit t := Nat.le_trans (by decide) limit
    have begun := spells_operand fun depth tail halts deep => own.again
      (depth + 1) tail halts (by omega)
    obtain ⟨used, rfl, spells⟩ := begun.continued goesOn isOperand (by decide) reach own.stops
    have same : ts = front ++ used := by
      have whole := own.whole
      rw [← append_assoc] at whole
      exact append_cancel_right whole
    rw [same]
    exact spells
  · cases same
    obtain ⟨_, nonempty, _, none⟩ := listed_pieces again
    cases none
    exact absurd rfl nonempty

end Operands

end Parser

namespace Lexer

variable {patterns : Matcher} {previous : Option Token} {cs b r r' inner rest : List Char}
  {t t' : Token} {ts us : List Token}

theorem Begins.unique (first : Begins patterns previous (Text.trimLeft cs) t r)
    (second : Begins patterns previous (Text.trimLeft cs) t' r') : t = t' ∧ r = r' := by
  have same : token patterns 0 previous cs = .ok (t, r) := token_iff.mpr first
  rw [token_iff.mpr second] at same
  cases same
  exact ⟨rfl, rfl⟩

theorem Reads.append_iff (reads : Reads patterns previous cs ts) (apart : Apart b)
    (first : ∀ t ∈ ts.head?, t = .sym .div → previous.any Token.endsOperand = true)
    (chain : ts.IsChain fun t next => next = .sym .div → t.endsOperand = true) :
    Reads patterns previous (cs ++ b) us ↔ ∃ vs, us = ts ++ vs ∧
      Reads patterns (ts.getLast?.or previous) b vs := by
  induction reads generalizing us with
  | blank blank =>
    rw [Reads.blanks_append blank]
    exact ⟨fun reads => ⟨us, rfl, reads⟩, fun ⟨vs, same, reads⟩ => same ▸ reads⟩
  | @token previous cs rest t ts ink begins others ih =>
    have own := begins.extend apart (trimLeft_ne_nil ink) (first t rfl)
    rw [← trimLeft_append ink] at own
    have ink' : Text.allBlank (cs ++ b) = false := by
      unfold Text.allBlank at ink ⊢
      rw [all_append, ink, Bool.false_and]
    obtain ⟨next, chain⟩ := isChain_cons.mp chain
    have last : (t :: ts).getLast?.or previous = ts.getLast?.or (some t) := by
      rw [getLast?_cons]
      cases ts.getLast? <;> rfl
    have others {us : List Token} := @ih us next chain
    rw [last]
    constructor
    · intro reads
      cases reads with
      | blank blank => rw [ink'] at blank; cases blank
      | token _ begins' others' =>
        obtain ⟨rfl, rfl⟩ := own.unique begins'
        obtain ⟨vs, rfl, rest⟩ := others.mp others'
        exact ⟨vs, rfl, rest⟩
    · rintro ⟨vs, rfl, rest⟩
      exact .token ink' own (others.mpr ⟨vs, rfl, rest⟩)

theorem slashed?_plain (plain : ∀ c ∈ inner, c ≠ '\\' ∧ c ≠ '/' ∧ c ≠ '\n') :
    slashed? (inner ++ '/' :: rest) = some (inner, rest) := by
  induction inner with
  | nil => rw [nil_append, slashed?_cons (by decide), if_pos rfl]
  | cons c inner ih =>
    obtain ⟨⟨escape, slash, line⟩, others⟩ := forall_mem_cons.mp plain
    rw [cons_append, slashed?_cons escape, if_neg slash, if_neg line, ih others]
    rfl

theorem Reads.pattern_first
    (reads : Reads patterns previous (' ' :: '/' :: (inner ++ '/' :: rest)) ts)
    (free : previous.any Token.endsOperand = false) (ink : inner ≠ [])
    (plain : ∀ c ∈ inner, c ≠ '\\' ∧ c ≠ '/' ∧ c ≠ '\n') : ∃ p us, ts = .pattern p :: us := by
  have found : pattern? ('/' :: (inner ++ '/' :: rest)) = some (inner, rest.span Char.isLower) :=
    pattern?_eq_some.mpr ⟨_, rest, rfl, slashed?_plain plain, ink, rfl⟩
  cases reads with
  | blank blank => cases blank
  | token _ begins _ =>
    rw [show Text.trimLeft (' ' :: '/' :: (inner ++ '/' :: rest)) = '/' ::
      (inner ++ '/' :: rest) from rfl] at begins
    cases begins with
    | plain other _ =>
      rw [free, found] at other
      rcases other with none | none <;> cases none
    | pattern _ _ _ => exact ⟨_, _, rfl⟩

end Lexer

theorem endsOperand_of_isOperatorWord {t : Token} (operator : t.isOperatorWord = true) :
    t.endsOperand = false := by
  cases t with
  | keyword k => cases k <;> first | rfl | cases operator
  | _ => cases operator

theorem Ordered.endsOperand {ts : List Token} (ordered : Ordered Token.closes ts)
    (free : ts.IsChain fun t next => next = .sym .div → t.isOperatorWord = false) :
    ts.IsChain fun t next => next = .sym .div → t.endsOperand = true := by
  rw [isChain_iff_getElem] at free ⊢
  intro i bound division
  have closes := isChain_iff_getElem.mp ordered.chain i bound division
  simpa [Token.closes, free i bound division] using closes

section Slashes

variable {patterns : Matcher} {text a b : String} {e : Expr} {ts : List Token}

def slashes (a b : String) : List Char :=
  ' ' :: '/' :: (' ' :: (a.toList ++ [' ']) ++ '/' :: ' ' :: b.toList)

theorem toList_slashes (text a b : String) :
    (text ++ " / " ++ a ++ " / " ++ b).toList = text.toList ++ slashes a b := by
  simp [slashes]

theorem apart_slashes : Lexer.Apart (slashes a b) := by
  intro c head
  cases head
  decide

theorem plain_slashes (word : isWord a = true) :
    ∀ c ∈ ' ' :: (a.toList ++ [' ']), c ≠ '\\' ∧ c ≠ '/' ∧ c ≠ '\n' := by
  simp only [isWord, Bool.and_eq_true, all_eq_true] at word
  have blank : ' ' ≠ '\\' ∧ ' ' ≠ '/' ∧ ' ' ≠ '\n' := by decide
  refine forall_mem_cons.mpr ⟨blank, forall_mem_append.mpr ⟨fun c member => ?_, by simp⟩⟩
  have inner := word.1.2 c member
  refine ⟨?_, ?_, ?_⟩ <;> rintro rfl <;> cases inner

theorem reads_slashes {previous : Option Token} (word : isWord a = true) (word' : isWord b = true)
    (ends : previous.any Token.endsOperand = true) :
    Lexer.Reads patterns previous (slashes a b) [.sym .div, .name a, .sym .div, .name b] := by
  have same : slashes a b = [' '] ++ writtenAll (fun _ => .double)
      [.sym .div, .name a, .sym .div, .name b] := by
    simp [slashes, writtenAll, Token.written, Sym.spelling]
  rw [same]
  refine (Lexer.Reads.blanks_append (by decide)).mpr
    (Lexer.reads_writtenAll ?_ ?_ fun t head _ => ends)
  · simp [Token.isWritable, word, word']
  · simp [Token.endsOperand]

theorem Parser.statement_slashes (spells : Parser.Spells 60 61 e ts) :
    Parser.statement (ts ++ [.sym .div, .name a, .sym .div, .name b] ++ [.eof]) =
      .ok ⟨.binary .div (.binary .div e (.name a)) (.name b), []⟩ := by
  have name (n : String) : Parser.Spells 61 61 (.name n) [.name n] :=
    (Parser.spells_atom fun _ _ => rfl).mono (by decide) (by decide)
  have both := Parser.spells_binary .div (Parser.spells_binary .div spells (name a)) (name b)
  rw [show ts ++ [.sym .div, .name a, .sym .div, .name b] = ts ++ .sym BinaryOp.div.sym ::
    [.name a] ++ .sym BinaryOp.div.sym :: [.name b] by simp [BinaryOp.sym]]
  refine Parser.statement_ok.mpr ⟨[], Parser.listed_last
    (both.whole (Nat.zero_le _) (Nat.zero_le _) (Parser.halts_cons rfl) ?_) (by simp)⟩
  simp only [length_append, length_singleton]
  omega

theorem Parser.statement_pattern (spells : Parser.Spells 60 61 e ts) (p : Pattern) (us : List Token)
    (s : Statement) : Parser.statement (ts ++ .pattern p :: us) ≠ .ok s := by
  intro parsed
  obtain ⟨rest, listed⟩ := Parser.statement_ok.mp parsed
  have whole := Parser.listed_last (spells.whole (Nat.zero_le _) (Nat.zero_le _)
    (Parser.halts_cons rfl : Parser.Halts 0 (.pattern p :: us))
    (by simp only [length_append, length_cons]; omega :
      4 * ts.length < 4 * (ts ++ .pattern p :: us).length + 3)) (by simp)
  rw [Parser.depth, whole] at listed
  obtain ⟨_, bad⟩ := Prod.mk.inj (Except.ok.inj listed)
  cases bad

end Slashes

/-- A slash behind an operand divides, unless the operand ends with `and`, `or` or `not` as the name
of a member: the lexer takes such a word for an operator, and what follows it for a pattern if there
is another slash. -/
theorem slash_divides {patterns : Matcher} {text a b : String} {e : Expr} {ts : List Token}
    (read : Statement.read patterns text = .ok ⟨e, []⟩) (isOperand : e.isOperand = true)
    (tokens : Lexer.tokens patterns text.toList = .ok (ts ++ [.eof]))
    (free : ts.IsChain fun t next => next = .sym .div → t.isOperatorWord = false)
    (word : isWord a = true) (word' : isWord b = true) :
    ((∀ t ∈ ts.getLast?, t.isOperatorWord = false) →
      Statement.read patterns (text ++ " / " ++ a ++ " / " ++ b) =
        .ok ⟨.binary .div (.binary .div e (.name a)) (.name b), []⟩) ∧
    ∀ t ∈ ts.getLast?, t.isOperatorWord = true →
      ∃ f, Statement.read patterns (text ++ " / " ++ a ++ " / " ++ b) = .error f := by
  obtain ⟨us, reads, parsed⟩ := Statement.read_iff.mp read
  obtain rfl : us = ts := by
    rw [Lexer.tokens_iff.mpr ⟨us, reads, rfl⟩] at tokens
    exact append_cancel_right (Except.ok.inj tokens)
  obtain ⟨spells, ordered⟩ := Parser.spells_of_statement reads parsed isOperand
  obtain ⟨last, final⟩ : ∃ last, us.getLast? = some last :=
    ⟨_, getLast?_eq_some_getLast ordered.ink⟩
  have closes := ordered.last last final
  have whole {vs : List Token} := @Lexer.Reads.append_iff patterns none text.toList
    (slashes a b) us vs reads apart_slashes
    (fun t head division => absurd division (ordered.first t head)) (ordered.endsOperand free)
  rw [final] at whole ⊢
  refine ⟨fun ends => ?_, fun t same operator => ?_⟩
  · have ends : last.endsOperand = true := by simpa [Token.closes, ends last rfl] using closes
    refine Statement.read_iff.mpr ⟨_, ?_, Parser.statement_slashes spells⟩
    rw [toList_slashes]
    exact whole.mpr ⟨_, rfl, reads_slashes word word' ends⟩
  · cases same
    cases result : Statement.read patterns (text ++ " / " ++ a ++ " / " ++ b) with
    | error f => exact ⟨f, rfl⟩
    | ok s =>
      obtain ⟨vs, reads', parsed'⟩ := Statement.read_iff.mp result
      rw [toList_slashes] at reads'
      obtain ⟨vs, rfl, behind⟩ := whole.mp reads'
      obtain ⟨p, us, rfl⟩ := behind.pattern_first (endsOperand_of_isOperatorWord operator)
        (cons_ne_nil _ _) (plain_slashes word)
      rw [append_assoc] at parsed'
      exact absurd parsed' (Parser.statement_pattern spells p _ s)

theorem slash_divides_words :
    (∃ e, Statement.read .standard "m[i++ / 2]" = .ok ⟨e, []⟩ ∧
      Statement.read .standard "m[i++ / 2] / n / $k" = .ok
        ⟨.binary .div (.binary .div e (.name "n")) (.name "$k"), []⟩) ∧
    (Statement.read .standard "m.not").isOk = true ∧
      ∃ f, Statement.read .standard "m.not / n / $k" = .error f := by
  have single {text : String} (one : (Statement.read .standard text).toOption.map
      (fun s => s.rest.isEmpty && s.first.isOperand) = some true) :
      ∃ e, Statement.read .standard text = .ok ⟨e, []⟩ ∧ e.isOperand = true := by
    cases read : Statement.read .standard text with
    | error f => rw [read] at one; cases one
    | ok s =>
      rw [read] at one
      obtain ⟨alone, operand⟩ := (Bool.and_eq_true ..).mp (Option.some.inj one)
      obtain ⟨e, rest⟩ := s
      obtain rfl := isEmpty_iff.mp alone
      exact ⟨e, rfl, operand⟩
  have tokens : Lexer.tokens .standard "m[i++ / 2]".toList = .ok
      ([.name "m", .sym .openList, .name "i", .sym .inc, .sym .div, .number (.int 2),
        .sym .closeList] ++ [.eof]) := by decide +kernel
  have tokens' : Lexer.tokens .standard "m.not".toList =
      .ok ([.name "m", .sym .dot, .keyword .not] ++ [.eof]) := by decide +kernel
  obtain ⟨e, read, operand⟩ := @single "m[i++ / 2]" (by decide +kernel)
  obtain ⟨e', read', operand'⟩ := @single "m.not" (by decide +kernel)
  have divides := slash_divides (a := "n") (b := "$k") read operand tokens (by decide)
    (by decide) (by decide)
  have fails := slash_divides (a := "n") (b := "$k") read' operand' tokens' (by decide)
    (by decide) (by decide)
  exact ⟨⟨e, read, divides.1 (by decide)⟩, by rw [read']; rfl, fails.2 _ rfl rfl⟩

end Runbook
