import Mathlib.Data.List.Infix
import Runbook.Proofs.Expr.Precedence
import Runbook.Proofs.Machine.Performed

/-!
Names that are accepted and names that are read. A name may have letters of every script and a line
feed at its end; expressions and placeholders know only those of seven bits, and expressions have
words of their own.
-/

namespace Runbook

open Runbook.Action List

variable {patterns : Matcher} {n : String}

namespace Name

def isPlain (n : String) : Bool := n.toList.all Placeholder.isInner

variable {n : String}

theorem cons_of_isValid (valid : isValid n = true) :
    ∃ c rest, n.toList = c :: rest ∧ c.isAlpha = true ∧
    Text.isBlank c = false ∧ ∀ d ∈ rest, Text.isWord d = true ∨ d = '\n' := by
  unfold isValid at valid
  cases chars : n.toList with
  | nil => rw [chars] at valid; cases valid
  | cons c rest =>
    rw [chars] at valid
    simp only [validChars, isLetter, Bool.and_eq_true, Bool.or_eq_true, beq_iff_eq] at valid
    obtain ⟨letter, ends⟩ := valid
    refine ⟨c, rest, rfl, letter, ?_, fun d member => ?_⟩
    · by_contra blank
      have inner : Lexer.isNameChar c = true := by simp [Lexer.isNameChar, Char.isAlphanum, letter]
      rw [(Lexer.not_inside (by simp [Lexer.divides, Bool.not_eq_false _ ▸ blank])).2.1] at inner
      cases inner
    rw [← takeWhile_append_dropWhile (p := Text.isWord) (l := rest), mem_append] at member
    rcases member with member | member
    · exact .inl (mem_takeWhile_imp member)
    · rcases ends with none | line
      · rw [none] at member
        cases member
      · rw [line, mem_singleton] at member
        exact .inr member

theorem ne_of_mem {c : Char} (valid : isValid n = true) (member : c ∈ n.toList) :
    c ≠ '$' ∧ c ≠ '\x7d' := by
  obtain ⟨first, rest, chars, letter, _, others⟩ := cons_of_isValid valid
  rw [chars] at member
  rcases mem_cons.mp member with rfl | member
  · constructor <;> rintro rfl <;> cases letter
  · have own := others c member
    constructor <;> rintro rfl <;> exact absurd own (by decide)

theorem isWord_iff (valid : isValid n = true) :
    isWord n = true ↔ isPlain n = true ∧ Keyword.ofName? n = none := by
  obtain ⟨c, rest, chars, letter, _⟩ := cons_of_isValid valid
  have start : n.toList.head?.any Lexer.isNameStart = true := by
    rw [chars]
    simp [Lexer.isNameStart, letter]
  have same : n.toList.all Lexer.isNameChar = isPlain n := by
    rw [isPlain, Bool.eq_iff_iff, all_eq_true, all_eq_true]
    refine forall₂_congr fun c member => ?_
    simp [Lexer.isNameChar, Placeholder.isInner, (ne_of_mem valid member).1]
  simp [isWord, start, same]

end Name

namespace Parser

variable {depth least : Nat} {left e : Expr} {ts rest : List Token} {c : Continuation} {n : String}
  {t : Token}

theorem extended_ne_name (parsed : extended depth left c ts = .ok (e, rest)) (n : String) :
    e ≠ .name n := by
  rintro rfl
  cases depth with
  | zero => cases parsed
  | succ depth =>
    cases c with
    | assign op =>
      cases left with
      | name m =>
        obtain ⟨_, _, second⟩ := bind_ok parsed
        cases second
      | _ => cases parsed
    | update op => cases left <;> cases parsed
    | index =>
      obtain ⟨_, _, second⟩ := bind_ok parsed
      obtain ⟨_, _, third⟩ := bind_ok second
      cases third
    | member =>
      obtain ⟨_, _, second⟩ := bind_ok parsed
      cases second
    | binary op =>
      obtain ⟨_, _, second⟩ := bind_ok parsed
      cases second

theorem continued_name (parsed : continued depth least left ts = .ok (.name n, rest)) :
    left = .name n := by
  induction depth generalizing left ts with
  | zero => cases parsed
  | succ depth ih =>
    obtain ⟨same, _, _⟩ | ⟨_, _, _, left', _, rfl, _, _, first, second⟩ := continued_ok parsed
    · exact same.symm
    · exact absurd (ih second) (extended_ne_name first n)

theorem operand_name (parsed : operand depth t ts = .ok (.name n, rest)) (other : t ≠ .sym .open) :
    t = .name n := by
  have ofSigned {depth : Nat} {op : UnaryOp} (parsed : signed depth op ts = .ok (.name n, rest)) :
      t = .name n := by
    cases depth with
    | zero => cases parsed
    | succ depth =>
      obtain ⟨_, _, second⟩ := bind_ok parsed
      cases second
  have ofStepped {depth : Nat} {op : UpdateOp}
      (parsed : stepped depth op ts = .ok (.name n, rest)) :
      t = .name n := by
    cases depth with
    | zero => cases parsed
    | succ depth =>
      obtain ⟨⟨target, _⟩, _, second⟩ := bind_ok parsed
      cases target <;> cases second
  cases depth with
  | zero => cases parsed
  | succ depth =>
    cases t with
    | name m =>
      cases parsed
      rfl
    | number | text | pattern | eof => cases parsed
    | keyword k =>
      cases k with
      | not => exact ofSigned parsed
      | _ => cases parsed
    | sym s =>
      cases s with
      | bang | add | sub => exact ofSigned parsed
      | inc | dec => exact ofStepped parsed
      | «open» => exact absurd rfl other
      | openList =>
        unfold operand at parsed
        dsimp only at parsed
        split at parsed
        · cases parsed
        · obtain ⟨_, _, second⟩ := bind_ok parsed
          obtain ⟨_, _, third⟩ := bind_ok second
          cases third
      | _ => cases parsed

theorem statement_name (parsed : statement (t :: ts) = .ok ⟨.name n, []⟩) (other : t ≠ .sym .open) :
    t = .name n := by
  obtain ⟨rest, listed⟩ := statement_ok.mp parsed
  obtain ⟨_, same, first, _⟩ | ⟨_, _, _, same, first, _⟩ := listed_ok listed
  all_goals
    cases same
    rw [Parser.expression_cons] at first
    obtain ⟨⟨left, middle⟩, begins, goesOn⟩ := bind_ok first
    obtain rfl := continued_name goesOn
    exact operand_name begins other

end Parser

theorem Lexer.Begins.word {previous : Option Token} {c : Char} {rest r : List Char} {t : Token}
    (start : isNameStart c = true) (begins : Begins patterns previous (c :: rest) t r) :
    Lexer.word (c :: rest) = (t, r) := by
  cases begins with
  | plain _ read =>
    obtain ⟨digit, double, single, syms⟩ := of_isNameStart start
    simpa [Lexer.plain, digit, double, single, sym?_eq_none syms, start] using read
  | pattern _ found _ =>
    rw [pattern?_eq_none (by rintro rfl; cases start)] at found
    cases found

theorem Lexer.word_eq_name {r : List Char} (read : Lexer.word n.toList = (.name n, r)) :
    n.toList.all isNameChar = true ∧ Keyword.ofName? n = none := by
  unfold Lexer.word at read
  rcases split : n.toList.span isNameChar with ⟨chars, rest⟩
  rw [split] at read
  dsimp only at read
  split at read
  · cases read
  · rename_i free
    cases read
    rw [String.toList_ofList] at split
    exact ⟨all_eq_true.mpr (String.toList_ofList ▸ (mem_span split).2), free⟩

theorem Statement.read_name (valid : Name.isValid n = true) :
    Statement.read patterns n = .ok ⟨.name n, []⟩ ↔ isWord n = true := by
  obtain ⟨c, rest, chars, letter, ink, _⟩ := Name.cons_of_isValid valid
  have start : Lexer.isNameStart c = true := by simp [Lexer.isNameStart, letter]
  constructor
  · intro read
    obtain ⟨ts, reads, parsed⟩ := Statement.read_iff.mp read
    rw [chars] at reads
    cases reads with
    | blank blank => simp [Text.allBlank, ink] at blank
    | token _ begins _ =>
      rw [Lexer.trimLeft_eq_self (by simpa using ink)] at begins
      have first := begins.word start
      have name := Parser.statement_name parsed (by
        rintro rfl
        unfold Lexer.word at first
        dsimp only at first
        split at first <;> cases first)
      rw [name, ← chars] at first
      obtain ⟨all, free⟩ := Lexer.word_eq_name first
      simp [isWord, chars ▸ all, chars, start, free]
  · intro word
    have reads : Lexer.Reads patterns none (writtenAll (fun _ => .double) [.name n]) [.name n] :=
      Lexer.reads_writtenAll (by simpa [Token.isWritable] using word) (.singleton _) (by simp)
    rw [show writtenAll (fun _ => .double) [.name n] = n.toList by
      simp [writtenAll, Token.written]] at reads
    exact Statement.read_iff.mpr ⟨[.name n], reads, rfl⟩

theorem evaluate_name {env : Env} {v : Value} (valid : Name.isValid n = true)
    (word : isWord n = true) (got : env.get? n = some v) :
    evaluate patterns n env = (.ok v, env) := by
  obtain ⟨c, rest, chars, _, ink, _⟩ := Name.cons_of_isValid valid
  have ink : Text.isBlankText n = false := by simp [Text.isBlankText, Text.allBlank, chars, ink]
  have read : Statement.read patterns n = .ok ⟨.name n, []⟩ := (Statement.read_name valid).mpr word
  have value : (Statement.eval ⟨.name n, []⟩).run.run env = (.ok v, env) := by
    show (Expr.lookup n).run.run env = _
    rw [Expr.run_lookup, got]
    rfl
  simp only [evaluate, ink, Statement.readNamed, read, value]
  rfl

namespace Placeholder

def mark (n : String) : String := "$\x7b" ++ n ++ "\x7d"

def Free (text : String) : Prop := ∀ rest ∈ text.toList.tails, name? rest = none

instance (text : String) : Decidable (Free text) :=
  inferInstanceAs (Decidable (∀ rest ∈ text.toList.tails, _))

variable {limits : Limits} {n text : String} {env : Env} {v : Value}

theorem fill_free (free : Free text) : fill limits env text = .ok text := by
  have all (cs : List Char) (free : ∀ rest, rest <:+ cs → name? rest = none) :
      fillFrom limits env 0 cs = .ok cs := by
    induction cs with
    | nil => rfl
    | cons c cs ih =>
      have none : found? env (c :: cs) = none := by
        unfold found?
        rw [free _ (suffix_refl _)]
        rfl
      rw [fillFrom, none]
      simp only [ih fun rest suffix => free rest (suffix.trans (suffix_cons c cs))]
      rfl
  rw [fill, all _ fun rest suffix => free rest ((mem_tails ..).mpr suffix)]
  simp [Except.map]

theorem toList_mark (n : String) : (mark n).toList = '$' :: '\x7b' :: (n.toList ++ ['\x7d']) := by
  simp [mark]

theorem fillFrom_skip {skip : Nat} {cs : List Char} (all : cs.length ≤ skip) :
    fillFrom limits env skip cs = .ok [] := by
  induction cs generalizing skip with
  | nil => rfl
  | cons c cs ih =>
    obtain ⟨skip, rfl⟩ : ∃ k, skip = k + 1 := ⟨skip - 1, by simp only [length_cons] at all; omega⟩
    exact ih (by simpa using all)

theorem fill_mark (valid : Name.isValid n = true) (plain : Name.isPlain n = true)
    (got : env.get? n = some v) : fill limits env (mark n) = limits.spell v := by
  obtain ⟨c, rest, chars, letter, _⟩ := Name.cons_of_isValid valid
  have name : name? (mark n).toList = some n.toList := by
    have taken :=
      (Lexer.span_append_iff (p := isInner) (b := ['\x7d']) (r := []) (by simp [isInner])).mpr
        (Lexer.span_all (all_eq_true.mp plain))
    rw [toList_mark, name?, taken, chars]
    simp [isStart, letter]
  have found : found? env (mark n).toList = some (v, n.toList.length + 3) := by
    simp [found?, name, got]
  rw [toList_mark] at found
  rw [fill, toList_mark, fillFrom, found]
  simp only [fillFrom_skip
    (by simp : ('\x7b' :: (n.toList ++ ['\x7d'])).length ≤ n.toList.length + 3 - 1)]
  cases limits.spell v with
  | error e => rfl
  | ok s => simp [Except.map, bind, Except.bind, pure, Except.pure]

theorem free_mark (valid : Name.isValid n = true) (other : Name.isPlain n = false) :
    Free (mark n) := by
  have stops : ∀ c ∈ ['\x7d'].head?, isInner c = false := by decide
  intro rest suffix
  rw [mem_tails, toList_mark] at suffix
  rcases suffix_cons_iff.mp suffix with rfl | suffix
  · rw [name?, Lexer.span_apart stops]
    rcases split : n.toList.span isInner with ⟨taken, left⟩
    obtain ⟨parts, all⟩ := Lexer.mem_span split
    cases left with
    | nil =>
      rw [append_nil] at parts
      rw [Name.isPlain, parts, all_eq_true.mpr all] at other
      cases other
    | cons d left =>
      have own :=
        (Name.ne_of_mem valid (parts ▸ mem_append_right taken mem_cons_self : d ∈ n.toList)).2
      dsimp only
      split
      · rename_i same
        exact absurd (cons.inj (Prod.mk.inj same).2).1 own
      · rfl
  · have none : '$' ∉ rest := fun member => by
      have inside := suffix.subset member
      simp only [mem_cons, mem_append, not_mem_nil, or_false] at inside
      rcases inside with same | inside | same
      · cases same
      · exact (Name.ne_of_mem valid inside).1 rfl
      · cases same
    unfold name?
    split
    · exact absurd mem_cons_self none
    · rfl

end Placeholder

/-- What the texts that name a variable come to where it has this value. -/
structure Env.ReadsBack (env : Env) (p : Program) (n : String) (v : Value) : Prop where
  expression : Name.isPlain n = true → Keyword.ofName? n = none → evaluate p.patterns n env =
    (.ok v, env)
  placeholder : Name.isPlain n = true → Placeholder.fill p.limits env (Placeholder.mark n) =
    p.limits.spell v
  other : Name.isPlain n = false → Placeholder.fill p.limits env (Placeholder.mark n) =
    .ok (Placeholder.mark n)

theorem Env.readsBack {env : Env} {p : Program} {v : Value} (valid : Name.isValid n = true)
    (got : env.get? n = some v) : env.ReadsBack p n v where
  expression plain free := evaluate_name valid ((Name.isWord_iff valid).mpr ⟨plain, free⟩) got
  placeholder plain := Placeholder.fill_mark valid plain got
  other other := Placeholder.fill_free (Placeholder.free_mark valid other)

section Commands

variable {p : Program} {c : Command} {m m₁ : Machine} {args : Record Value} {place : Nat}

theorem ran_store (store : c.baseName = "store") (valid : Name.isValid c.value = true)
    (free : Placeholder.Free c.target) :
    Ran (Host.perform p c) m (.ok none) { m with vars := m.vars.set c.value (.text c.target) } := by
  have name : (Host.storeName c).run.run m = (.ok c.value, m) := by
    unfold Host.storeName Name.validate
    rw [if_pos valid]
    rfl
  have filled : (Host.fill p c.target).run.run m = (.ok c.target, m) := by
    unfold Host.fill
    rw [run_bind, run_get]
    simp only [Placeholder.fill_free free]
    rfl
  have stored : (Host.store p c).run.run m =
      (.ok (), { m with vars := m.vars.set c.value (.text c.target) }) := by
    unfold Host.store
    rw [run_bind, name]
    dsimp only
    rw [run_bind, filled]
    rfl
  unfold Ran Host.perform
  simp only [store]
  rw [run_bind, stored]
  rfl

theorem nodup_arguments (found : Record Value) {texts : List String} (distinct : found.names.Nodup)
    (ran : Ran (argumentsFrom p found texts) m (.ok args) m₁) : args.names.Nodup := by
  induction texts generalizing found m with
  | nil =>
    obtain ⟨same, _⟩ := ran_done ran run_pure
    cases same
    exact distinct
  | cons text texts ih =>
    unfold argumentsFrom at ran
    rcases ran_bind ran with ⟨_, bad, _⟩ | ⟨⟨name, v⟩, _, _, ran⟩
    · cases bad
    · exact ih _ (Record.nodup_set distinct) ran

theorem ran_parameters [p.Faithful] (known : function? p c.target = some place)
    (entering : m.call.returning = false) (ran : Ran (arguments p c.value) m (.ok args) m₁) :
    ∃ m', Ran (call p c) m (.ok ()) m' ∧ m'.branch = some place ∧
      Ran (openFunction p) { m' with here := some (place : Int) } (.ok ())
        { m' with here := some (place : Int), vars := (m₁.vars.assign args).assign args } := by
  obtain ⟨word, name, last, block⟩ := function?_spans known
  have bound := lt_length_of_verbAt (block.ended p.found).grown.opened
  have called : ∃ m', Ran (call p c) m (.ok ()) m' ∧ m'.branch = some place ∧
      m'.call.function = some place ∧ m'.call.args = args ∧ m'.vars = m₁.vars.assign args := by
    unfold Ran at ran
    unfold Ran call
    rw [known]
    dsimp only
    rw [run_bind, run_get]
    dsimp only
    rw [if_neg (by simp [entering]), run_bind, ran]
    exact ⟨_, run_branchTo bound, rfl, rfl, rfl, rfl⟩
  obtain ⟨m', called, branch, function, given, vars⟩ := called
  refine ⟨m', called, branch, ?_⟩
  unfold Ran openFunction
  rw [run_bind, run_openerHere rfl block]
  dsimp only
  rw [run_bind, run_get]
  dsimp only
  rw [if_pos function, given, ← vars]
  rfl

end Commands

/-- A name that is accepted can be read where it has only letters, digits and underscores, and is no
keyword. -/
theorem accepted_name_readable {n : String} (valid : Name.isValid n = true) :
    (∀ patterns : Matcher, Statement.read patterns n = .ok ⟨.name n, []⟩ ↔
      Name.isPlain n = true ∧ Keyword.ofName? n = none) ∧
    (∀ (p : Program) (c : Command) (m : Machine), c.baseName = "store" → c.value = n →
      Placeholder.Free c.target →
      ∃ m', Ran (Host.perform p c) m (.ok none) m' ∧ m'.vars.ReadsBack p n (.text c.target)) ∧
    ∀ (p : Program) (c : Command) (m m₁ : Machine) (args : Record Value) (place : Nat) (v : Value),
      p.Faithful → function? p c.target = some place → m.call.returning = false →
      Ran (arguments p c.value) m (.ok args) m₁ → args.get? n = some v →
      ∃ m' m₂, Ran (call p c) m (.ok ()) m' ∧ m'.branch = some place ∧
        Ran (openFunction p) { m' with here := some (place : Int) } (.ok ()) m₂ ∧
          m₂.vars.ReadsBack p n v := by
  refine ⟨fun _ => (Statement.read_name valid).trans (Name.isWord_iff valid),
    fun p c m store value free => ?_,
    fun p c m m₁ args place v found known entering ran given => ?_⟩
  · subst value
    exact ⟨_, ran_store store valid free, Env.readsBack valid (by rw [Record.get?_set, if_pos rfl])⟩
  · obtain ⟨m', called, branch, opened⟩ := ran_parameters known entering ran
    have distinct : args.names.Nodup := nodup_arguments [] nodup_nil ran
    refine ⟨m', _, called, branch, opened, Env.readsBack valid ?_⟩
    rw [Env.assign, Record.get?_override distinct, given]
    rfl

def greeting : Program := .ofCommands
  [{ name := "call", target := "greet", value := "who = 'Ada'" },
   { name := "function", target := "greet" }, { name := "endFunction" }]

theorem accepted_name_readable_greeting :
    Statement.read .standard "who" = .ok ⟨.name "who", []⟩ ∧
      Statement.read .standard "null" ≠ .ok ⟨.name "null", []⟩ ∧
    Statement.read .standard "na\u00efve" ≠ .ok ⟨.name "na\u00efve", []⟩ ∧
    (∃ m', Ran (Host.perform greeting { name := "store", target := "$ 5", value := "null" }) {}
      (.ok none) m' ∧
      m'.vars.ReadsBack greeting "null" (.text "$ 5")) ∧
    ∃ v m' m₂, v.toText = .ok "Ada" ∧ Ran
      (call greeting { name := "call", target := "greet", value := "who = 'Ada'" }) {} (.ok ()) m' ∧
      Ran (openFunction greeting) { m' with here := some 1 } (.ok ()) m₂ ∧
        m₂.vars.ReadsBack greeting "who" v := by
  obtain ⟨reads, _, parameters⟩ := accepted_name_readable (n := "who") (by decide +kernel)
  obtain ⟨reads', stores, _⟩ := accepted_name_readable (n := "null") (by decide +kernel)
  obtain ⟨reads'', _, _⟩ := accepted_name_readable (n := "na\u00efve") (by decide +kernel)
  refine ⟨(reads .standard).mpr (by decide +kernel), fun read => absurd ((reads' .standard).mp read)
    (by decide +kernel), fun read => absurd ((reads'' .standard).mp read) (by decide +kernel),
    stores greeting _ {} (by decide +kernel) rfl (by decide +kernel), ?_⟩
  have given : ((arguments greeting "who = 'Ada'").run.run {}).1.toOption.map
    (fun args => (args.get? "who").map (·.toText)) = some (some (.ok "Ada")) := by decide +kernel
  rcases out : (arguments greeting "who = 'Ada'").run.run {} with ⟨r, m₁⟩
  rw [out] at given
  cases r with
  | error e => cases given
  | ok args =>
    obtain ⟨v, got, text⟩ := Option.map_eq_some_iff.mp (Option.some.inj given)
    obtain ⟨m', m₂, called, _, opened, readsBack⟩ := parameters greeting
      { name := "call", target := "greet", value := "who = 'Ada'" } {} m₁ args 1 v ⟨rfl⟩
      (by decide +kernel) rfl out got
    exact ⟨v, m', m₂, text, called, opened, readsBack⟩

end Runbook
