import Mathlib.Data.List.Chain
import Runbook.Expr.Parser
import Runbook.Proofs.Expr.Lexemes

namespace Runbook

open List

/-- How a token changes the number of brackets that are open around it; none at a comma or a closing
bracket outside of all brackets. -/
def Token.nest (depth : Nat) : Token → Option Nat
  | .sym .open | .sym .openList => some (depth + 1)
  | .sym .close | .sym .closeList => match depth with
    | 0 => none
    | depth + 1 => some depth
  | .sym .comma => match depth with
    | 0 => none
    | depth + 1 => some (depth + 1)
  | _ => some depth

def Token.isOperatorWord : Token → Bool
  | .keyword .and | .keyword .or | .keyword .not => true
  | _ => false

def Token.closes (t : Token) : Bool := t.endsOperand || t.isOperatorWord

/-- Tokens with a division sign only behind those that end an operand, which is also where they
end. -/
structure Ordered (ends : Token → Bool) (ts : List Token) : Prop where
  chain : ts.IsChain fun t next => next = .sym .div → ends t = true
  first : ∀ t ∈ ts.head?, t ≠ .sym .div
  last : ∀ t ∈ ts.getLast?, ends t = true
  ink : ts ≠ []

section Ordered

variable {ends : Token → Bool} {t : Token} {ts us : List Token}

theorem ordered_one (own : ends t = true) (other : t ≠ .sym .div) : Ordered ends [t] where
  chain := .singleton t
  first := by simpa using other
  last := by simpa using own
  ink := cons_ne_nil t []

theorem Ordered.after (ordered : Ordered ends ts) (other : t ≠ .sym .div) :
    Ordered ends (t :: ts) where
  chain := isChain_cons.mpr ⟨fun next head division => absurd division (ordered.first next head),
    ordered.chain⟩
  first := by simpa using other
  last := by
    intro last member
    rw [getLast?_cons_of_ne_nil ordered.ink] at member
    exact ordered.last last member
  ink := cons_ne_nil t ts

theorem Ordered.join (left : Ordered ends ts) (right : Ordered ends us) (t : Token) :
    Ordered ends (ts ++ t :: us) where
  chain := by
    refine isChain_append.mpr
      ⟨left.chain, isChain_cons.mpr ⟨fun next head division => ?_, right.chain⟩, ?_⟩
    · exact absurd division (right.first next head)
    · intro last member _ _ _
      exact left.last last member
  first := by
    rw [head?_append_of_ne_nil _ left.ink]
    exact left.first
  last := by
    rw [getLast?_append_of_ne_nil _ (cons_ne_nil t us), getLast?_cons_of_ne_nil right.ink]
    exact right.last
  ink := by simp

theorem Ordered.before (ordered : Ordered ends ts) (own : ends t = true) :
    Ordered ends (ts ++ [t]) where
  chain := isChain_append.mpr
    ⟨ordered.chain, .singleton t, fun last member _ _ _ => ordered.last last member⟩
  first := by
    rw [head?_append_of_ne_nil _ ordered.ink]
    exact ordered.first
  last := by simpa using own
  ink := by simp

end Ordered

namespace Parser

/-- Inside of so many brackets, or more, these tokens close all brackets that they open, and no
other. -/
def Level (least : Nat) (ts : List Token) : Prop :=
  ∀ depth, least ≤ depth → ts.foldlM Token.nest depth = some depth

/-- Tokens that are taken together: their brackets are in pairs, and their division signs behind
operands. -/
structure Whole (least : Nat) (ts : List Token) : Prop where
  level : Level least ts
  ordered : Ordered Token.closes ts

structure Behind (ts : List Token) : Prop where
  level : Level 0 ts
  ordered {front : List Token} : Ordered Token.closes front → Ordered Token.closes (front ++ ts)

def Halts (least : Nat) (ts : List Token) : Prop :=
  ∀ t ∈ ts.head?, ∀ c, continuation? t = some c → c.power < least

/-- The tokens `used` were taken, and would be again, in whatever is deep enough, if something else
follows them. -/
structure Parsed {α : Type} (parse : Nat → List Token → Except Failure (α × List Token))
    (ends : List Token → Prop) (slack : Nat) (ts : List Token) (out : α) (rest used : List Token) :
    Prop where
  whole : ts = used ++ rest
  stops : ends rest
  again : ∀ depth tail, ends tail → 4 * used.length + slack ≤ depth → parse depth (used ++ tail) =
    .ok (out, tail)

theorem bind_ok {α β : Type} {x : Except Failure α} {f : α → Except Failure β} {out : β}
    (done : x >>= f = .ok out) : ∃ a, x = .ok a ∧ f a = .ok out := by
  cases x with
  | error e => cases done
  | ok a => exact ⟨a, rfl, done⟩

section

variable {least more : Nat} {ts us rest tail : List Token} {t opener close : Token}

theorem level_nil : Level least [] := fun _ _ => rfl

theorem Level.append (first : Level least ts) (second : Level least us) :
    Level least (ts ++ us) := by
  intro depth bound
  rw [foldlM_append, first depth bound]
  exact second depth bound

theorem Level.mono (level : Level least ts) (bound : least ≤ more) : Level more ts :=
  fun depth inside => level depth (Nat.le_trans bound inside)

theorem level_bracket (opens : ∀ depth, opener.nest depth = some (depth + 1))
    (closes : ∀ depth, close.nest (depth + 1) = some depth) (level : Level 1 ts) :
    Level 0 (opener :: (ts ++ [close])) := by
  intro depth _
  have inside := level (depth + 1) (by omega)
  simp [opens, closes, inside]

section

variable (inert : ∀ depth, t.nest depth = some depth)

include inert

theorem level_one : Level 0 [t] := by
  intro depth _
  simp [inert]

theorem level_cons (level : Level least us) : Level least (t :: us) :=
  ((level_one inert).mono (Nat.zero_le least)).append level

theorem whole_one (closes : t.closes = true) : Whole 0 [t] :=
  ⟨level_one inert, ordered_one closes (by rintro rfl; cases closes)⟩

end

theorem Whole.append (whole : Whole 0 ts) (behind : Behind us) : Whole 0 (ts ++ us) :=
  ⟨whole.level.append behind.level, behind.ordered whole.ordered⟩

theorem Whole.after (whole : Whole 0 ts) (inert : ∀ depth, t.nest depth = some depth)
    (other : t ≠ .sym .div) : Whole 0 (t :: ts) :=
  ⟨level_cons inert whole.level, whole.ordered.after other⟩

theorem Whole.behind (whole : Whole 0 ts) (inert : ∀ depth, t.nest depth = some depth) :
    Behind (t :: ts) :=
  ⟨level_cons inert whole.level, fun front => front.join whole.ordered t⟩

theorem Whole.mono (whole : Whole 0 ts) : Whole 1 ts :=
  ⟨whole.level.mono (Nat.zero_le 1), whole.ordered⟩

theorem Whole.bracket (whole : Whole 1 ts) (opens : ∀ depth, opener.nest depth = some (depth + 1))
    (closes : ∀ depth, close.nest (depth + 1) = some depth) (ends : close.closes = true)
    (other : opener ≠ .sym .div) : Whole 0 (opener :: (ts ++ [close])) :=
  ⟨level_bracket opens closes whole.level, (whole.ordered.before ends).after other⟩

theorem Behind.append (first : Behind ts) (second : Behind us) : Behind (ts ++ us) where
  level := first.level.append second.level
  ordered front := by
    rw [← append_assoc]
    exact second.ordered (first.ordered front)

theorem Halts.mono (halts : Halts least ts) (bound : least ≤ more) : Halts more ts :=
  fun t head c goesOn => Nat.lt_of_lt_of_le (halts t head c goesOn) bound

theorem Halts.swap (halts : Halts more (us ++ rest)) (other : Halts least tail)
    (bound : least ≤ more) : Halts more (us ++ tail) := by
  cases us with
  | nil => exact other.mono bound
  | cons t us => exact halts

theorem Continuation.power_le (c : Continuation) : c.power ≤ 110 := by
  cases c with
  | binary op => cases op <;> decide
  | assign | update | index | member => simp [Continuation.power]

theorem halts_any (ts : List Token) : Halts 111 ts := fun _ _ c _ => Nat.lt_succ_of_le c.power_le

end

def operandLimit : Token → Nat
  | .sym .inc | .sym .dec | .sym .bang | .sym .add | .sym .sub | .keyword .not => signPower
  | _ => 111

def extensionLimit : Continuation → Nat
  | .assign _ => 5
  | .binary op => binaryPower op + 1
  | _ => 111

structure Sound (depth : Nat) : Prop where
  expression : ∀ {least ts e rest}, least ≤ signPower → expression depth least ts = .ok (e, rest) →
    ∃ used, Whole 0 used ∧ Parsed (Parser.expression · least ·) (Halts least) 0 ts e rest used
  operand : ∀ {t ts e rest}, operand depth t ts = .ok (e, rest) →
    ∃ used, Whole 0 (t :: used) ∧
      Parsed (Parser.operand · t ·) (Halts (operandLimit t)) 3 ts e rest used
  signed : ∀ {op ts e rest}, signed depth op ts = .ok (e, rest) →
    ∃ used, Whole 0 used ∧ Parsed (Parser.signed · op ·) (Halts signPower) 1 ts e rest used
  stepped : ∀ {op ts e rest}, stepped depth op ts = .ok (e, rest) →
    ∃ used, Whole 0 used ∧ Parsed (Parser.stepped · op ·) (Halts signPower) 1 ts e rest used
  listed : ∀ {ts es rest}, listed depth ts = .ok (es, rest) →
    ∃ used, Whole 1 used ∧
      Parsed Parser.listed (fun ts => Halts 0 ts ∧ ts.head? ≠ some (.sym .comma)) 1 ts es rest used
  continued : ∀ {least left ts e rest}, continued depth least left ts = .ok (e, rest) →
    ∃ used, Behind used ∧ Parsed (Parser.continued · least left ·) (Halts least) 1 ts e rest used
  extended : ∀ {t left c ts e rest}, continuation? t = some c → extended depth left c ts =
    .ok (e, rest) →
    ∃ used, Behind (t :: used) ∧
      Parsed (Parser.extended · left c ·) (Halts (extensionLimit c)) 1 ts e rest used

theorem le_operandLimit (t : Token) : signPower ≤ operandLimit t := by
  unfold operandLimit
  split
  all_goals decide

theorem expression_cons {least : Nat} (t : Token) (depth : Nat) (ts : List Token) :
    Parser.expression (depth + 1) least (t :: ts) =
      Parser.operand depth t ts >>= fun x => Parser.continued depth least x.1 x.2 := by
  rw [Parser.expression]

section Steps

variable {depth least : Nat} {t : Token} {ts rest middle front back : List Token} {e left : Expr}
  {α β : Type} {slack slack' : Nat} {parse : Nat → List Token → Except Failure (α × List Token)}
  {inner : Nat → List Token → Except Failure (β × List Token)} {ends : List Token → Prop} {a : α}
  {b : β} {used : List Token} {c : Continuation} {es : List Expr} {op : UpdateOp}

theorem Parsed.extends {parse first : Nat → List Token → Except Failure (Expr × List Token)}
    {limit : Nat} (own : Parsed first (Halts limit) slack ts left middle front)
    (others : Parsed (continued · least left ·) (Halts least) 1 middle e rest back)
    (step : ∀ depth ts, parse (depth + 1) (t :: ts) =
      first depth ts >>= fun x => continued depth least x.1 x.2)
    (bound : least ≤ limit) (small : slack ≤ 3) :
    Parsed parse (Halts least) slack' (t :: ts) e rest (t :: front ++ back) where
  whole := by rw [own.whole, others.whole]; simp
  stops := others.stops
  again depth tail halts deep := by
    have stops := own.stops
    rw [others.whole] at stops
    simp only [length_cons, length_append] at deep
    obtain ⟨depth, rfl⟩ : ∃ d, depth = d + 1 := ⟨depth - 1, by omega⟩
    have before := own.again depth (back ++ tail) (stops.swap halts bound) (by omega)
    have after := others.again depth tail halts (by omega)
    simp only [cons_append, append_assoc, step, before]
    exact after

theorem sound_expression (sound : Sound depth) (bound : least ≤ signPower)
    (parsed : expression (depth + 1) least ts = .ok (e, rest)) :
    ∃ used, Whole 0 used ∧ Parsed (Parser.expression · least ·) (Halts least) 0 ts e rest used := by
  cases ts with
  | nil => cases parsed
  | cons t ts =>
    rw [expression_cons] at parsed
    obtain ⟨⟨left, middle⟩, first, second⟩ := bind_ok parsed
    obtain ⟨front, whole, own⟩ := sound.operand first
    obtain ⟨back, behind, others⟩ := sound.continued second
    exact ⟨t :: front ++ back, whole.append behind,
      own.extends others (expression_cons t) (Nat.le_trans bound (le_operandLimit t))
      (Nat.le_refl _)⟩

theorem Parsed.wrap (own : Parsed inner ends slack ts b rest used) (small : slack < slack')
    (step : ∀ depth tail, ends tail → inner depth (used ++ tail) = .ok (b, tail) →
      parse (depth + 1) (used ++ tail) = .ok (a, tail)) :
    Parsed parse ends slack' ts a rest used where
  whole := own.whole
  stops := own.stops
  again depth tail halts deep := by
    obtain ⟨depth, rfl⟩ : ∃ d, depth = d + 1 := ⟨depth - 1, by omega⟩
    exact step depth tail halts (own.again depth tail halts (by omega))

theorem sound_signed (sound : Sound depth) {op : UnaryOp}
    (parsed : signed (depth + 1) op ts = .ok (e, rest)) :
    ∃ used, Whole 0 used ∧ Parsed (Parser.signed · op ·) (Halts signPower) 1 ts e rest used := by
  obtain ⟨⟨inner, left⟩, first, second⟩ := bind_ok parsed
  cases second
  obtain ⟨used, whole, own⟩ := sound.expression (Nat.le_refl _) first
  refine ⟨used, whole, own.wrap (Nat.lt_succ_self 0) fun depth tail _ again => ?_⟩
  simp only [signed, again]
  rfl

theorem sound_stepped (sound : Sound depth) (parsed : stepped (depth + 1) op ts = .ok (e, rest)) :
    ∃ used, Whole 0 used ∧ Parsed (Parser.stepped · op ·) (Halts signPower) 1 ts e rest used := by
  obtain ⟨⟨inner, left⟩, first, second⟩ := bind_ok parsed
  obtain ⟨used, whole, own⟩ := sound.expression (Nat.le_refl _) first
  dsimp only at second
  split at second
  · cases second
    refine ⟨used, whole, own.wrap (Nat.lt_succ_self 0) fun depth tail _ again => ?_⟩
    simp only [stepped, again]
    rfl
  · cases second

theorem continued_halts {tail : List Token} (halts : Halts least tail) :
    continued (depth + 1) least left tail = .ok (left, tail) := by
  cases tail with
  | nil => rfl
  | cons t tail =>
    unfold continued
    cases goesOn : continuation? t with
    | none => rfl
    | some c =>
      dsimp only
      rw [if_pos (halts t rfl c goesOn)]

theorem continued_cons (goesOn : continuation? t = some c) (tight : least ≤ c.power) (depth : Nat)
    (ts : List Token) : continued (depth + 1) least left (t :: ts) =
      extended depth left c ts >>= fun x => continued depth least x.1 x.2 := by
  simp only [continued, goesOn, if_neg (Nat.not_lt.mpr tight)]

theorem continued_ok (parsed : continued (depth + 1) least left ts = .ok (e, rest)) :
    (e = left ∧ ts = rest ∧ Halts least rest) ∨ ∃ t c us left' middle, ts = t :: us ∧
      continuation? t = some c ∧ least ≤ c.power ∧
      extended depth left c us = .ok (left', middle) ∧
        continued depth least left' middle = .ok (e, rest) := by
  by_cases halts : Halts least ts
  · rw [continued_halts halts] at parsed
    cases parsed
    exact .inl ⟨rfl, rfl, halts⟩
  · unfold Halts at halts
    push Not at halts
    obtain ⟨t, head, c, goesOn, tight⟩ := halts
    obtain ⟨us, rfl⟩ := head?_eq_some_iff.mp head
    rw [continued_cons goesOn tight] at parsed
    obtain ⟨⟨left', middle⟩, first, second⟩ := bind_ok parsed
    exact .inr ⟨t, c, us, left', middle, rfl, goesOn, tight, first, second⟩

theorem sound_continued (sound : Sound depth)
    (parsed : continued (depth + 1) least left ts = .ok (e, rest)) :
    ∃ used, Behind used ∧ Parsed (Parser.continued · least left ·) (Halts least) 1 ts e rest
      used := by
  obtain ⟨rfl, rfl, halts⟩ | ⟨t, c, us, left', middle, rfl, goesOn, tight, first, second⟩ :=
    continued_ok parsed
  · refine ⟨[], ⟨level_nil, fun own => by rwa [append_nil]⟩, rfl, halts,
      fun depth tail halts deep => ?_⟩
    obtain ⟨depth, rfl⟩ : ∃ d, depth = d + 1 := ⟨depth - 1, by omega⟩
    exact continued_halts halts
  · obtain ⟨front, behind, own⟩ := sound.extended goesOn first
    obtain ⟨back, further, others⟩ := sound.continued second
    have bound : least ≤ extensionLimit c := by
      cases c <;> simp only [Continuation.power, extensionLimit] at tight ⊢ <;> omega
    exact ⟨t :: front ++ back, behind.append further, own.extends others
      (continued_cons goesOn tight) bound (by decide)⟩

theorem expect_ok {wanted : Sym} (found : expect wanted ts = .ok rest) :
    ts = .sym wanted :: rest := by
  unfold expect at found
  split at found
  · cases found
  · split at found
    · cases found
      simp [*]
    · cases found

theorem expect_self (wanted : Sym) (rest : List Token) :
    expect wanted (.sym wanted :: rest) = .ok rest := by simp [expect]

theorem halts_cons (none : continuation? t = none) : Halts least (t :: ts) := by
  intro _ head c goesOn
  cases head
  rw [none] at goesOn
  cases goesOn

theorem Parsed.closes {ends' : List Token → Prop} {s : Sym}
    (own : Parsed inner ends slack ts b (.sym s :: rest) used) (anything : ∀ tail, ends' tail)
    (closed : ∀ tail, ends (.sym s :: tail)) (small : slack ≤ 3)
    (step : ∀ depth tail, inner depth (used ++ .sym s :: tail) = .ok (b, .sym s :: tail) →
      parse (depth + 1) (used ++ .sym s :: tail) = .ok (a, tail)) :
    Parsed parse ends' slack' ts a rest (used ++ [.sym s]) where
  whole := by rw [own.whole]; simp
  stops := anything rest
  again depth tail _ deep := by
    simp only [length_append, length_singleton] at deep
    obtain ⟨depth, rfl⟩ : ∃ d, depth = d + 1 := ⟨depth - 1, by omega⟩
    have again := own.again depth (.sym s :: tail) (closed tail) (by omega)
    rw [append_assoc]
    exact step depth tail again

theorem nest_continuation (goesOn : continuation? t = some c) (other : c ≠ .index) (depth : Nat) :
    t.nest depth = some depth := by
  cases t with
  | sym s =>
    cases s with
    | openList => cases goesOn; exact absurd rfl other
    | «open» | close | closeList | comma => cases goesOn
    | _ => rfl
  | _ => rfl

theorem eq_openList (goesOn : continuation? t = some .index) : t = .sym .openList := by
  cases t with
  | sym s => cases s <;> first | rfl | cases goesOn
  | keyword k => cases k <;> cases goesOn
  | _ => cases goesOn

theorem memberName_ok {n : String} (found : memberName ts = .ok (n, rest)) :
    ∃ t, ts = t :: rest ∧ Whole 0 [t] ∧ ∀ tail, memberName (t :: tail) = .ok (n, tail) := by
  unfold memberName at found
  split at found <;> cases found
  · exact ⟨_, rfl, whole_one (fun _ => rfl) rfl, fun _ => rfl⟩
  · rename_i k
    exact ⟨_, rfl, whole_one (fun _ => rfl) (by cases k <;> rfl), fun _ => rfl⟩

theorem closes_update (goesOn : continuation? t = some (.update op)) : t.closes = true := by
  cases t with
  | sym s => cases s <;> first | rfl | cases goesOn
  | keyword k => cases k <;> cases goesOn
  | _ => cases goesOn

theorem sound_extended (sound : Sound depth) (goesOn : continuation? t = some c)
    (parsed : extended (depth + 1) left c ts = .ok (e, rest)) :
    ∃ used, Behind (t :: used) ∧ Parsed (Parser.extended · left c ·) (Halts (extensionLimit c)) 1 ts
      e rest used := by
  cases c with
  | assign op =>
    cases left with
    | name n =>
      obtain ⟨⟨value, tail⟩, first, second⟩ := bind_ok parsed
      cases second
      have first : expression depth 5 ts = .ok (value, rest) := first
      obtain ⟨used, whole, own⟩ := sound.expression (by decide) first
      refine ⟨used, whole.behind (nest_continuation goesOn (by simp)),
        own.wrap (Nat.lt_succ_self 0) fun depth tail _ again => ?_⟩
      show (expression depth 5 (used ++ tail) >>= fun x => pure (Expr.assign n op x.1, x.2)) = _
      rw [again]
      rfl
    | _ => cases parsed
  | update op =>
    cases left with
    | name n =>
      cases parsed
      refine ⟨[], ⟨level_one (nest_continuation goesOn (by simp)),
        (·.before (closes_update goesOn))⟩, rfl, halts_any _, fun depth tail _ deep => ?_⟩
      obtain ⟨depth, rfl⟩ : ∃ d, depth = d + 1 := ⟨depth - 1, by omega⟩
      rfl
    | _ => cases parsed
  | index =>
    obtain ⟨⟨i, tail⟩, first, second⟩ := bind_ok parsed
    obtain ⟨tail', closed, second⟩ := bind_ok second
    cases second
    obtain rfl := expect_ok closed
    obtain rfl := eq_openList goesOn
    obtain ⟨used, whole, own⟩ := sound.expression (Nat.zero_le _) first
    have behind : Behind (.sym .openList :: (used ++ [.sym .closeList])) :=
      ⟨level_bracket (fun _ => rfl) (fun _ => rfl) whole.mono.level, fun front => front.join
        (whole.ordered.before rfl) _⟩
    refine ⟨used ++ [.sym .closeList], behind, own.closes halts_any (fun _ => halts_cons rfl)
      (by decide) fun depth tail again => ?_⟩
    simp only [extended, again]
    exact congrArg (· >>= fun r => pure (Expr.index left i, r)) (expect_self .closeList tail)
  | member =>
    obtain ⟨⟨n, tail⟩, first, second⟩ := bind_ok parsed
    cases second
    obtain ⟨t', rfl, whole, again⟩ := memberName_ok first
    refine ⟨[t'], whole.behind (nest_continuation goesOn (by simp)), rfl, halts_any _,
      fun depth tail _ deep => ?_⟩
    obtain ⟨depth, rfl⟩ : ∃ d, depth = d + 1 := ⟨depth - 1, by omega⟩
    simp only [extended, singleton_append, again]
    rfl
  | binary op =>
    obtain ⟨⟨right, tail⟩, first, second⟩ := bind_ok parsed
    cases second
    have first : expression depth (binaryPower op + 1) ts = .ok (right, rest) := first
    have bound : binaryPower op + 1 ≤ signPower := by cases op <;> decide
    obtain ⟨used, whole, own⟩ := sound.expression bound first
    refine ⟨used, whole.behind (nest_continuation goesOn (by simp)),
      own.wrap (Nat.lt_succ_self 0) fun depth tail _ again => ?_⟩
    show (expression depth (binaryPower op + 1) (used ++ tail) >>= fun x => pure
      (Expr.binary op left x.1, x.2)) = _
    rw [again]
    rfl

theorem listed_comma (first : expression depth 0 ts = .ok (e, .sym .comma :: middle))
    (others : listed depth middle = .ok (es, rest)) :
    listed (depth + 1) ts = .ok (e :: es, rest) := by
  simp only [listed, first]
  exact congrArg (· >>= fun x => pure (e :: x.1, x.2)) others

theorem listed_last (first : expression depth 0 ts = .ok (e, rest))
    (last : rest.head? ≠ some (.sym .comma)) : listed (depth + 1) ts = .ok ([e], rest) := by
  simp only [listed, first]
  dsimp only [bind, Except.bind]
  split
  · exact absurd rfl last
  · rfl

theorem listed_ok (parsed : listed (depth + 1) ts = .ok (es, rest)) :
    (∃ e, es = [e] ∧ expression depth 0 ts = .ok (e, rest) ∧ rest.head? ≠ some (.sym .comma)) ∨
    ∃ e others middle, es = e :: others ∧ expression depth 0 ts = .ok (e, .sym .comma :: middle) ∧
      listed depth middle = .ok (others, rest) := by
  obtain ⟨⟨e, middle⟩, first, behind⟩ := bind_ok parsed
  dsimp only at behind
  split at behind
  · obtain ⟨⟨others, tail⟩, again, final⟩ := bind_ok behind
    cases final
    exact .inr ⟨e, others, _, rfl, first, again⟩
  · rename_i other
    cases behind
    refine .inl ⟨e, rfl, first, fun head => ?_⟩
    obtain ⟨more, rfl⟩ := head?_eq_some_iff.mp head
    exact other more rfl

theorem sound_listed (sound : Sound depth) (parsed : listed (depth + 1) ts = .ok (es, rest)) :
    ∃ used, Whole 1 used ∧
      Parsed Parser.listed (fun ts => Halts 0 ts ∧ ts.head? ≠ some (.sym .comma)) 1 ts es rest
        used := by
  obtain ⟨e, rfl, first, last⟩ | ⟨e, others, middle, rfl, first, again⟩ := listed_ok parsed
  · obtain ⟨front, whole, own⟩ := sound.expression (Nat.zero_le _) first
    refine ⟨front, whole.mono, own.whole, ⟨own.stops, last⟩, fun depth tail ends deep => ?_⟩
    obtain ⟨depth, rfl⟩ : ∃ d, depth = d + 1 := ⟨depth - 1, by omega⟩
    exact listed_last (own.again depth tail ends.1 (by omega)) ends.2
  · obtain ⟨front, whole, own⟩ := sound.expression (Nat.zero_le _) first
    obtain ⟨back, whole', other⟩ := sound.listed again
    have comma : Level 1 [Token.sym .comma] := by
      intro depth bound
      obtain ⟨depth, rfl⟩ : ∃ d, depth = d + 1 := ⟨depth - 1, by omega⟩
      rfl
    refine ⟨front ++ .sym .comma :: back,
      ⟨whole.mono.level.append (comma.append whole'.level), whole.ordered.join whole'.ordered _⟩,
      ?_, other.stops, fun depth tail ends deep => ?_⟩
    · rw [own.whole, other.whole]
      simp
    · simp only [length_append, length_cons] at deep
      obtain ⟨depth, rfl⟩ : ∃ d, depth = d + 1 := ⟨depth - 1, by omega⟩
      rw [append_assoc, cons_append]
      exact listed_comma (own.again depth _ (halts_cons rfl) (by omega))
        (other.again depth tail ends (by omega))

theorem sound_operand (sound : Sound depth) (parsed : operand (depth + 1) t ts = .ok (e, rest)) :
    ∃ used, Whole 0 (t :: used) ∧ Parsed (Parser.operand · t ·) (Halts (operandLimit t)) 3 ts e rest
      used := by
  have single {e' : Expr} (inert : ∀ depth, t.nest depth = some depth) (closes : t.closes = true)
      (any : operandLimit t = 111)
      (own : ∀ depth tail, operand (depth + 1) t tail = .ok (e', tail)) :
      ∃ used, Whole 0 (t :: used) ∧
        Parsed (Parser.operand · t ·) (Halts (operandLimit t)) 3 ts e rest used := by
    rw [own] at parsed
    cases parsed
    refine ⟨[], whole_one inert closes, rfl, any ▸ halts_any _, fun depth tail _ deep => ?_⟩
    obtain ⟨depth, rfl⟩ : ∃ d, depth = d + 1 := ⟨depth - 1, by omega⟩
    exact own depth tail
  have inner {parse : Nat → List Token → Except Failure (Expr × List Token)}
      (inert : ∀ depth, t.nest depth = some depth) (other : t ≠ .sym .div)
      (limit : operandLimit t = signPower)
      (own : ∀ depth tail, operand (depth + 1) t tail = parse depth tail)
      (taken : ∃ used, Whole 0 used ∧ Parsed parse (Halts signPower) 1 ts e rest used) :
      ∃ used, Whole 0 (t :: used) ∧
        Parsed (Parser.operand · t ·) (Halts (operandLimit t)) 3 ts e rest used := by
    rw [limit]
    obtain ⟨used, whole, taken⟩ := taken
    exact ⟨used, whole.after inert other, taken.wrap (by decide) fun depth tail _ again =>
      (own depth _).trans again⟩
  cases t with
  | number | text | pattern | name => exact single (fun _ => rfl) rfl rfl fun _ _ => rfl
  | eof => cases parsed
  | keyword k =>
    cases k with
    | yes | no | null | undefined => exact single (fun _ => rfl) rfl rfl fun _ _ => rfl
    | not => exact inner (fun _ => rfl) nofun rfl (fun _ _ => rfl) (sound.signed parsed)
    | and | or => cases parsed
  | sym s =>
    cases s with
    | inc | dec => exact inner (fun _ => rfl) nofun rfl (fun _ _ => rfl) (sound.stepped parsed)
    | bang | add | sub =>
      exact inner (fun _ => rfl) nofun rfl (fun _ _ => rfl) (sound.signed parsed)
    | «open» =>
      obtain ⟨⟨inner, tail⟩, first, second⟩ := bind_ok parsed
      obtain ⟨tail', closed, second⟩ := bind_ok second
      cases second
      obtain rfl := expect_ok closed
      obtain ⟨used, whole, own⟩ := sound.expression (Nat.zero_le _) first
      refine ⟨used ++ [.sym .close], whole.mono.bracket (fun _ => rfl) (fun _ => rfl) rfl nofun,
        own.closes halts_any (fun _ => halts_cons rfl) (by decide) fun depth tail again => ?_⟩
      simp only [operand, again]
      exact congrArg (· >>= fun r => pure (_, r)) (expect_self .close tail)
    | openList =>
      unfold operand at parsed
      dsimp only at parsed
      split at parsed
      · rename_i empty
        cases parsed
        obtain ⟨tail, rfl⟩ := head?_eq_some_iff.mp empty
        have whole : Whole 0 [.sym .openList, .sym .closeList] :=
          ⟨level_bracket (fun _ => rfl) (fun _ => rfl) level_nil,
            (ordered_one rfl (by decide)).after (by decide)⟩
        refine ⟨[.sym .closeList], whole, rfl, halts_any _, fun depth tail _ deep => ?_⟩
        obtain ⟨depth, rfl⟩ : ∃ d, depth = d + 1 := ⟨depth - 1, by omega⟩
        rfl
      · rename_i filled
        obtain ⟨⟨items, tail⟩, first, second⟩ := bind_ok parsed
        obtain ⟨tail', closed, second⟩ := bind_ok second
        cases second
        obtain rfl := expect_ok closed
        obtain ⟨used, whole, own⟩ := sound.listed first
        refine ⟨used ++ [.sym .closeList], whole.bracket (fun _ => rfl) (fun _ => rfl) rfl nofun,
          own.closes halts_any (fun _ => ⟨halts_cons rfl, by simp⟩)
          (by decide) fun depth tail again => ?_⟩
        have filled : (used ++ .sym .closeList :: tail).head? ≠ some (.sym .closeList) := by
          rw [own.whole] at filled
          cases used with
          | nil => exact absurd rfl filled
          | cons t used => exact filled
        simp only [operand, if_neg filled, again]
        exact congrArg (· >>= fun r => pure (_, r)) (expect_self .closeList tail)
    | _ => cases parsed

end Steps

theorem sound {depth : Nat} : Sound depth := by
  induction depth with
  | zero => constructor <;> intros <;> contradiction
  | succ depth ih =>
    exact ⟨sound_expression ih, sound_operand ih, sound_signed ih, sound_stepped ih,
      sound_listed ih, sound_continued ih, sound_extended ih⟩

theorem statement_ok {ts : List Token} {s : Statement} :
    statement ts = .ok s ↔ ∃ rest, listed (Parser.depth ts.length) ts =
      .ok (s.items, .eof :: rest) := by
  unfold statement
  constructor
  · intro parsed
    obtain ⟨⟨items, rest⟩, first, second⟩ := bind_ok parsed
    dsimp only at second
    split at second
    · cases second
    · split at second
      · rename_i last
        cases second
        exact ⟨_, last ▸ first⟩
      · cases second
    · cases second
  · rintro ⟨rest, parsed⟩
    simp only [parsed]
    rfl

/-- The tokens of one item of a list: their brackets are in pairs, and alone they are that item. -/
def Piece (e : Expr) (ts : List Token) : Prop := Level 0 ts ∧ statement (ts ++ [.eof]) = .ok ⟨e, []⟩

theorem listed_pieces {depth : Nat} {ts rest : List Token} {es : List Expr}
    (parsed : listed depth ts = .ok (es, rest)) :
    ∃ pieces, pieces ≠ [] ∧ ts = [Token.sym .comma].intercalate pieces ++ rest ∧
      List.Forall₂ Piece es pieces := by
  have alone {e : Expr} {used : List Token}
      (again : ∀ depth tail, Halts 0 tail → 4 * used.length + 0 ≤ depth →
        expression depth 0 (used ++ tail) = .ok (e, tail)) :
      statement (used ++ [.eof]) = .ok ⟨e, []⟩ := by
    refine statement_ok.mpr ⟨[], listed_last (again _ [.eof] (halts_cons rfl) ?_) (by simp)⟩
    simp only [length_append, length_singleton]
    omega
  induction depth generalizing ts es with
  | zero => cases parsed
  | succ depth ih =>
    obtain ⟨e, rfl, first, _⟩ | ⟨e, others, middle, rfl, first, again⟩ := listed_ok parsed
    · obtain ⟨used, taken, own⟩ := sound.expression (Nat.zero_le _) first
      refine ⟨[used], cons_ne_nil _ _, ?_, .cons ⟨taken.level, alone own.again⟩ .nil⟩
      rw [own.whole]
      simp
    · obtain ⟨used, taken, own⟩ := sound.expression (Nat.zero_le _) first
      obtain ⟨pieces, nonempty, rfl, inner⟩ := ih again
      obtain ⟨next, pieces, rfl⟩ := exists_cons_of_ne_nil nonempty
      refine ⟨used :: next :: pieces, cons_ne_nil _ _, ?_,
        .cons ⟨taken.level, alone own.again⟩ inner⟩
      rw [own.whole]
      simp

end Parser

theorem Statement.read_iff {patterns : Matcher} {text : String} {s : Statement} :
    Statement.read patterns text = .ok s ↔
    ∃ ts, Lexer.Reads patterns none text.toList ts ∧ Parser.statement (ts ++ [.eof]) = .ok s := by
  unfold Statement.read
  constructor
  · intro read
    split at read
    · cases read
    · rename_i out lexed
      obtain ⟨ts, reads, rfl⟩ := Lexer.tokens_iff.mp lexed
      split at read
      · cases read
      · cases read
        exact ⟨ts, reads, ‹_›⟩
  · rintro ⟨ts, reads, parsed⟩
    simp only [Lexer.tokens_iff.mpr ⟨ts, reads, rfl⟩, parsed]

end Runbook
