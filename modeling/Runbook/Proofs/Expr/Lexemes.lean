import Runbook.Proofs.Expr.Scanners

namespace Runbook.Lexer

open List

variable {patterns : Matcher} {cs b r : List Char} {total : Nat} {previous : Option Token}
  {t : Token} {taken rest : List Char} {c : Char} {out : List Token}

inductive Begins (patterns : Matcher) (previous : Option Token) (body : List Char) :
    Token → List Char → Prop
  | plain {t : Token} {rest : List Char} {bad : Failure}
      (other : previous.any Token.endsOperand = true ∨ pattern? body = none)
      (read : plain bad body = .ok (t, rest)) : Begins patterns previous body t rest
  | pattern {source letters rest : List Char} {p : Pattern}
      (free : previous.any Token.endsOperand = false)
      (found : pattern? body = some (source, letters, rest))
      (reads : patterns.read (String.ofList source) (Pattern.Flags.ofLetters letters) = .ok p) :
      Begins patterns previous body (.pattern p) rest

theorem token_iff :
    token patterns total previous cs = .ok (t, r) ↔
      Begins patterns previous (Text.trimLeft cs) t r := by
  unfold token
  dsimp only
  constructor
  · intro read
    split at read
    · exact .plain (.inl ‹_›) read
    · rename_i free
      split at read
      · split at read
        · cases read
          exact .pattern (by simpa using free) ‹_› ‹_›
        · cases read
      · exact .plain (.inr ‹_›) read
  · intro begins
    cases begins with
    | plain other read =>
      split
      · exact plain_any read
      · rename_i free
        have none := other.resolve_left free
        simp only [none]
        exact plain_any read
    | pattern free found reads => simp [free, found, reads]

theorem Begins.cut (apart : Apart b) (ink : cs ≠ [])
    (begins : Begins patterns previous (cs ++ b) t (r ++ b)) : Begins patterns previous cs t r := by
  generalize rest : r ++ b = left at begins
  cases begins with
  | @plain _ _ bad other read =>
    subst rest
    refine .plain (other.imp_right fun none => ?_) ((plain_append_iff bad bad apart ink).mp read)
    by_contra found
    obtain ⟨⟨source, letters, rest⟩, found⟩ := Option.ne_none_iff_exists'.mp found
    rw [(pattern?_append_iff apart).mpr found] at none
    cases none
  | pattern free found reads =>
    subst rest
    exact .pattern free ((pattern?_append_iff apart).mp found) reads

theorem Begins.extend (apart : Apart b) (ink : cs ≠ []) (begins : Begins patterns previous cs t r)
    (division : t = .sym .div → previous.any Token.endsOperand = true) :
    Begins patterns previous (cs ++ b) t (r ++ b) := by
  cases begins with
  | @plain _ _ bad other read =>
    have read := (plain_append_iff bad bad apart ink).mpr read
    refine .plain ?_ read
    by_cases slash : t = .sym .div
    · exact .inl (division slash)
    · exact .inr (pattern?_of_plain read slash)
  | pattern free found reads => exact .pattern free ((pattern?_append_iff apart).mpr found) reads

inductive Lexeme : Token → List Char → Prop
  | number {n cs} (ink : cs ≠ []) (digits : ∀ c ∈ cs, Text.isDigit c = true ∨ c = '.') :
      Lexeme (.number n) cs
  | name {n cs} (ink : cs ≠ []) (chars : ∀ c ∈ cs, isNameChar c = true) : Lexeme (.name n) cs
  | keyword {k cs} (ink : cs ≠ []) (chars : ∀ c ∈ cs, isNameChar c = true) : Lexeme (.keyword k) cs
  | sym (s : Sym) : Lexeme (.sym s) s.spelling.toList
  | text {quote body cs} (mark : quote = '"' ∨ quote = '\'')
      (read : quoted? quote cs = some (body, [])) :
      Lexeme (.text (String.ofList body)) (quote :: cs)
  | pattern {source : List Char} {letters} {p : Pattern} (keeps : p.source = String.ofList source)
      (flags : ∀ c ∈ letters, c.isLower = true) :
      Lexeme (.pattern p) ('/' :: (source ++ '/' :: letters))

theorem slashed?_eq_some {source : List Char} (found : slashed? cs = some (source, r)) :
    cs = source ++ '/' :: r := by
  fun_induction slashed? cs generalizing source with
  | case1 | case2 | case3 | case6 => cases found
  | case4 c rest line ih =>
    obtain ⟨⟨body, after⟩, scanned, same⟩ := Option.map_eq_some_iff.mp found
    obtain ⟨rfl, rfl⟩ := Prod.mk.inj same
    rw [ih scanned]
    rfl
  | case5 rest last escape =>
    cases found
    rfl
  | case7 c rest last escape other line ih =>
    obtain ⟨⟨body, after⟩, scanned, same⟩ := Option.map_eq_some_iff.mp found
    obtain ⟨rfl, rfl⟩ := Prod.mk.inj same
    rw [ih scanned]
    rfl

theorem mem_span {p : Char → Bool} (split : cs.span p = (taken, r)) :
    cs = taken ++ r ∧ ∀ c ∈ taken, p c = true := by
  rw [span_eq_takeWhile_dropWhile] at split
  obtain ⟨rfl, rfl⟩ := Prod.mk.inj split
  exact ⟨(takeWhile_append_dropWhile ..).symm, fun c => mem_takeWhile_imp⟩

theorem number_lexeme (digit : Text.isDigit c = true) (read : number (c :: rest) = .ok (t, r)) :
    ∃ taken, c :: rest = taken ++ r ∧ Lexeme t taken := by
  have whole {digits left : List Char} (read : number.integer digits left = .ok (t, r))
      (ink : digits ≠ []) (all : ∀ c ∈ digits, Text.isDigit c = true) :
      left = r ∧ Lexeme t digits := by
    unfold number.integer at read
    split at read
    · cases read
      exact ⟨rfl, .number ink fun c member => .inl (all c member)⟩
    · cases read
  unfold number at read
  rcases split : (c :: rest).span Text.isDigit with ⟨digits, left⟩
  obtain ⟨parts, all⟩ := mem_span split
  have ink : digits ≠ [] := by
    rintro rfl
    simp [span_eq_takeWhile_dropWhile, digit] at split
  rw [split] at read
  dsimp only at read
  rw [parts]
  split at read
  · rename_i more
    rcases split' : more.span Text.isDigit with ⟨fraction, after⟩
    rw [split'] at read
    dsimp only at read
    split at read
    · obtain ⟨rfl, lexeme⟩ := whole read ink all
      exact ⟨digits, rfl, lexeme⟩
    · cases read
      obtain ⟨rfl, all'⟩ := mem_span split'
      refine ⟨digits ++ '.' :: fraction, by simp, .number (by simp) fun c member => ?_⟩
      simp only [mem_append, mem_cons] at member
      rcases member with member | rfl | member
      · exact .inl (all c member)
      · exact .inr rfl
      · exact .inl (all' c member)
  · obtain ⟨rfl, lexeme⟩ := whole read ink all
    exact ⟨digits, rfl, lexeme⟩

theorem word_lexeme (start : isNameStart c = true) :
    ∃ taken, c :: rest = taken ++ (word (c :: rest)).2 ∧ Lexeme (word (c :: rest)).1 taken := by
  unfold word
  rcases split : (c :: rest).span isNameChar with ⟨taken, left⟩
  obtain ⟨parts, all⟩ := mem_span split
  have inner : isNameChar c = true := by
    simp only [isNameStart, isNameChar, Char.isAlphanum, Bool.or_eq_true] at start ⊢
    tauto
  have ink : taken ≠ [] := by
    rintro rfl
    simp [span_eq_takeWhile_dropWhile, inner] at split
  dsimp only
  rw [parts]
  split
  · exact ⟨taken, rfl, .keyword ink all⟩
  · exact ⟨taken, rfl, .name ink all⟩

theorem sym?_lexeme {s : Sym} (found : sym? cs = some (s, r)) : cs = s.spelling.toList ++ r := by
  obtain ⟨s', here, same⟩ := Option.map_eq_some_iff.mp found
  obtain ⟨rfl, rfl⟩ := Prod.mk.inj same
  have start : s'.spelling.toList <+: cs := by simpa using find?_some here
  obtain ⟨rest, rfl⟩ := start
  rw [← String.length_toList, drop_left]

theorem plain_lexeme {bad : Failure} (read : plain bad cs = .ok (t, r)) :
    ∃ taken, cs = taken ++ r ∧ Lexeme t taken := by
  unfold plain at read
  split at read
  · cases read
  rename_i c rest
  split at read
  · exact number_lexeme ‹_› read
  split at read
  · rename_i mark
    split at read
    · rename_i body after scanned
      cases read
      obtain ⟨taken, _, rfl, again⟩ := local_quoted? c rest body r scanned
      refine ⟨c :: taken, rfl, .text (by simpa using mark) ?_⟩
      simpa using again []
    · cases read
  split at read
  · rename_i s after found
    cases read
    exact ⟨s.spelling.toList, sym?_lexeme found, .sym s⟩
  · split at read
    · rename_i start
      have same : word (c :: rest) = (t, r) := Except.ok.inj read
      have whole : ∃ taken, c :: rest = taken ++ (word (c :: rest)).2 ∧ _ := word_lexeme start
      rwa [same] at whole
    · cases read

theorem Begins.lexeme (begins : Begins patterns previous cs t r) :
    ∃ taken, cs = taken ++ r ∧ Lexeme t taken := by
  cases begins with
  | plain _ read => exact plain_lexeme read
  | @pattern source letters _ p _ found reads =>
    obtain ⟨rest, after, rfl, scanned, _, flags⟩ := pattern?_eq_some.mp found
    obtain ⟨rfl, lower⟩ := mem_span flags
    rw [slashed?_eq_some scanned]
    refine ⟨'/' :: (source ++ '/' :: letters), by simp, .pattern ?_ lower⟩
    unfold Matcher.read at reads
    cases compiled : patterns.compile (String.ofList source) (.ofLetters letters) with
    | error e => rw [compiled] at reads; cases reads
    | ok flags => rw [compiled] at reads; cases reads; rfl

theorem quoted?_last {quote : Char} {body : List Char} (read : quoted? quote cs = some (body, [])) :
    cs.getLast? = some quote := by
  fun_induction quoted? quote cs generalizing body with
  | case1 | case2 | case3 => cases read
  | case4 c rest line ih =>
    obtain ⟨⟨inner, after⟩, scanned, same⟩ := Option.map_eq_some_iff.mp read
    obtain ⟨rfl, rfl⟩ := Prod.mk.inj same
    simp [getLast?_cons, ih scanned]
  | case5 rest last escape =>
    cases read
    rfl
  | case6 c rest last escape other ih =>
    obtain ⟨⟨inner, after⟩, scanned, same⟩ := Option.map_eq_some_iff.mp read
    obtain ⟨rfl, rfl⟩ := Prod.mk.inj same
    simp [getLast?_cons, ih scanned]

theorem Lexeme.ends (lexeme : Lexeme t taken) : taken ≠ [] ∧
    (∀ c ∈ taken.head?, Text.isBlank c = false) ∧ ∀ c ∈ taken.getLast?, Text.isBlank c = false := by
  have inked {c : Char}
      (inside : Text.isDigit c = true ∨ isNameChar c = true ∨ c.isLower = true ∨ c = '.') :
      Text.isBlank c = false := by
    by_contra blank
    have apart := not_inside (c := c) (by simp [divides, Bool.not_eq_false _ ▸ blank])
    simp [apart] at inside
  have inner {cs : List Char} (ink : cs ≠ []) (all : ∀ c ∈ cs, Text.isBlank c = false) : cs ≠ [] ∧
      (∀ c ∈ cs.head?, Text.isBlank c = false) ∧ ∀ c ∈ cs.getLast?, Text.isBlank c = false :=
    ⟨ink, fun c head => all c (mem_of_mem_head? head), fun c last => all c
      (mem_of_mem_getLast? last)⟩
  cases lexeme with
  | number ink digits =>
    exact inner ink fun c member => inked
      (by simpa using Or.imp_right (fun p => .inr (.inr p)) (digits c member))
  | name ink chars | keyword ink chars =>
    exact inner ink fun c member => inked (.inr (.inl (chars c member)))
  | sym s => exact inner (by cases s <;> decide) (by cases s <;> decide)
  | @text quote body cs mark read =>
    have plain : Text.isBlank quote = false := by rcases mark with rfl | rfl <;> decide
    refine ⟨cons_ne_nil _ _, by simp [plain], ?_⟩
    simp [getLast?_cons, quoted?_last read, plain]
  | @pattern source letters p keeps flags =>
    refine ⟨cons_ne_nil _ _, by simp; decide, ?_⟩
    have last :
        ('/' :: (source ++ '/' :: letters)).getLast? = some (letters.getLast?.getD '/') := by
      simp [getLast?_cons, getLast?_append]
    rw [last]
    intro c member
    cases own : letters.getLast? with
    | none =>
      rw [own] at member
      cases member
      decide
    | some d =>
      rw [own] at member
      cases member
      exact inked (.inr (.inr (.inl (flags _ (mem_of_getLast? own)))))

/-- A text is read as these tokens, if it follows the token `previous`. -/
inductive Reads (patterns : Matcher) : Option Token → List Char → List Token → Prop
  | blank {previous : Option Token} {cs : List Char} (blank : Text.allBlank cs = true) :
      Reads patterns previous cs []
  | token {previous : Option Token} {cs rest : List Char} {t : Token} {ts : List Token}
      (ink : Text.allBlank cs = false) (begins : Begins patterns previous (Text.trimLeft cs) t rest)
      (others : Reads patterns (some t) rest ts) : Reads patterns previous cs (t :: ts)

theorem Begins.shorter (begins : Begins patterns previous (Text.trimLeft cs) t r) :
    r.length < cs.length := by
  obtain ⟨taken, parts, lexeme⟩ := begins.lexeme
  have nonempty := length_pos_iff.mpr lexeme.ends.1
  have bound : (Text.trimLeft cs).length ≤ cs.length := length_dropWhile_le ..
  rw [parts, length_append] at bound
  omega

theorem tokensFrom_iff {fuel : Nat} (enough : cs.length < fuel) :
    tokensFrom patterns total fuel previous cs = .ok out ↔ ∃ ts, Reads patterns previous cs ts ∧
      out = ts ++ [.eof] := by
  induction fuel generalizing cs previous out with
  | zero => omega
  | succ fuel ih =>
    unfold tokensFrom
    cases ink : Text.allBlank cs with
    | true =>
      constructor
      · intro read
        cases read
        exact ⟨[], .blank ink, rfl⟩
      · rintro ⟨ts, reads, rfl⟩
        cases reads with
        | blank _ => rfl
        | token other _ _ => rw [ink] at other; cases other
    | false =>
      constructor
      · intro read
        cases first : token patterns total previous cs with
        | error e => rw [first] at read; cases read
        | ok found =>
          obtain ⟨t, rest⟩ := found
          have begins := token_iff.mp first
          cases others : tokensFrom patterns total fuel (some t) rest with
          | error e => simp [first, bind, Except.bind, others] at read
          | ok out' =>
            have shorter := begins.shorter
            obtain ⟨ts, reads, rfl⟩ := (ih (by omega)).mp others
            refine ⟨t :: ts, .token ink begins reads, ?_⟩
            simpa [first, bind, Except.bind, others, pure, Except.pure, eq_comm] using read
      · rintro ⟨ts, reads, rfl⟩
        cases reads with
        | blank other => rw [ink] at other; cases other
        | @token _ _ rest t ts _ begins others =>
          have shorter := begins.shorter
          have others : tokensFrom patterns total fuel (some t) rest = .ok (ts ++ [.eof]) :=
            (ih (by omega)).mpr ⟨ts, others, rfl⟩
          simp [token_iff.mpr begins, bind, Except.bind, others, pure, Except.pure]

theorem tokens_iff :
    tokens patterns cs = .ok out ↔ ∃ ts, Reads patterns none cs ts ∧ out = ts ++ [.eof] :=
  tokensFrom_iff (Nat.lt_succ_self _)

section Reads

variable {previous other : Option Token} {t : Token} {ts before later : List Token}
  {blanks : List Char}

theorem Reads.behind (reads : Reads patterns previous cs ts)
    (same : other.any Token.endsOperand = previous.any Token.endsOperand) :
    Reads patterns other cs ts := by
  cases reads with
  | blank blank => exact .blank blank
  | token ink begins others =>
    refine .token ink ?_ others
    cases begins with
    | plain own read => exact .plain (same ▸ own) read
    | pattern free found pattern => exact .pattern (same ▸ free) found pattern

theorem Reads.not_mem_eof (reads : Reads patterns previous cs ts) : .eof ∉ ts := by
  induction reads with
  | blank _ => exact not_mem_nil
  | token _ begins _ ih =>
    obtain ⟨taken, _, lexeme⟩ := begins.lexeme
    intro member
    rcases mem_cons.mp member with rfl | later
    · cases lexeme
    · exact ih later

theorem Reads.eof_once (reads : Reads patterns previous cs ts)
    (whole : ts ++ [.eof] = before ++ .eof :: later) : ts = before ∧ later = [] := by
  rcases append_eq_append_iff.mp whole with ⟨more, joined, last⟩ | ⟨more, joined, last⟩
  · cases more with
    | nil =>
      cases last
      exact ⟨by rw [joined, append_nil], rfl⟩
    | cons t more =>
      obtain ⟨_, none⟩ := cons.inj last
      cases more <;> cases none
  · cases more with
    | nil =>
      cases last
      exact ⟨by rw [joined, append_nil], rfl⟩
    | cons t more =>
      obtain ⟨rfl, _⟩ := cons.inj last
      exact absurd (joined ▸ mem_append_right _ mem_cons_self) reads.not_mem_eof

theorem trimLeft_blank (blank : Text.allBlank blanks = true) (cs : List Char) :
    Text.trimLeft (blanks ++ cs) = Text.trimLeft cs := by
  unfold Text.trimLeft
  exact dropWhile_append_of_pos fun c member => all_eq_true.mp blank c member

theorem trimLeft_eq_self (ink : ∀ c ∈ cs.head?, Text.isBlank c = false) :
    Text.trimLeft cs = cs := by
  cases cs with
  | nil => rfl
  | cons c rest => simp [Text.trimLeft, ink c rfl]

theorem exists_blanks (cs : List Char) :
    ∃ blanks, Text.allBlank blanks = true ∧ cs = blanks ++ Text.trimLeft cs :=
  ⟨cs.takeWhile Text.isBlank, all_eq_true.mpr fun _ => mem_takeWhile_imp,
    (takeWhile_append_dropWhile ..).symm⟩

theorem Reads.blanks_append (blank : Text.allBlank blanks = true) :
    Reads patterns previous (blanks ++ cs) ts ↔ Reads patterns previous cs ts := by
  have all : Text.allBlank (blanks ++ cs) = Text.allBlank cs := by
    unfold Text.allBlank at blank ⊢
    rw [all_append, blank, Bool.true_and]
  constructor
  · intro reads
    cases reads with
    | blank own => exact .blank (all ▸ own)
    | token ink begins others => exact .token (all ▸ ink) (trimLeft_blank blank cs ▸ begins) others
  · intro reads
    cases reads with
    | blank own => exact .blank (all.trans own)
    | token ink begins others =>
      exact .token (all.trans ink) ((trimLeft_blank blank cs).symm ▸ begins) others

theorem Reads.cons (ink : ∀ c ∈ taken.head?, Text.isBlank c = false) (nonempty : taken ≠ [])
    (begins : Begins patterns previous (taken ++ r) t r) (others : Reads patterns (some t) r ts) :
    Reads patterns previous (taken ++ r) (t :: ts) := by
  obtain ⟨c, taken, rfl⟩ := exists_cons_of_ne_nil nonempty
  have first : Text.isBlank c = false := ink c rfl
  refine .token (by simp [Text.allBlank, first]) ?_ others
  rwa [trimLeft_eq_self (by simpa using first)]

theorem Reads.comma (reads : Reads patterns previous cs (before ++ .sym .comma :: later)) :
    ∃ left right, cs = left ++ ',' :: right ∧ Reads patterns previous left before ∧
      Reads patterns (some (.sym .comma)) right later := by
  induction before generalizing previous cs with
  | nil =>
    cases reads with
    | token ink begins others =>
      obtain ⟨taken, parts, lexeme⟩ := begins.lexeme
      cases lexeme
      obtain ⟨blanks, blank, whole⟩ := exists_blanks cs
      rw [parts] at whole
      exact ⟨blanks, _, whole, .blank blank, others⟩
  | cons t before ih =>
    cases reads with
    | token ink begins others =>
      obtain ⟨left, right, rfl, inner, rest⟩ := ih others
      obtain ⟨taken, parts, lexeme⟩ := begins.lexeme
      obtain ⟨blanks, blank, whole⟩ := exists_blanks cs
      obtain ⟨nonempty, first, _⟩ := lexeme.ends
      rw [parts, ← append_assoc] at begins whole
      have begins := begins.cut (by simp [Apart]; decide) (by simp [nonempty])
      refine ⟨blanks ++ (taken ++ left), right, by simp [whole], ?_, rest⟩
      exact (Reads.blanks_append blank).mpr (.cons first nonempty begins inner)

theorem Reads.append_blanks (blank : Text.allBlank blanks = true)
    (reads : Reads patterns previous (cs ++ blanks) ts) : Reads patterns previous cs ts := by
  induction ts generalizing previous cs with
  | nil =>
    cases reads with
    | blank own =>
      unfold Text.allBlank at own
      rw [all_append, Bool.and_eq_true] at own
      exact .blank own.1
  | cons t ts ih =>
    cases reads with
    | @token _ _ rest _ _ ink begins others =>
      have ink : Text.allBlank cs = false := by
        unfold Text.allBlank at blank ink ⊢
        rwa [all_append, blank, Bool.and_true] at ink
      rw [trimLeft_append ink] at begins
      obtain ⟨taken, parts, lexeme⟩ := begins.lexeme
      obtain ⟨nonempty, _, last⟩ := lexeme.ends
      obtain ⟨left, within, rfl⟩ :
          ∃ left, Text.trimLeft cs = taken ++ left ∧ rest = left ++ blanks := by
        rcases append_eq_append_iff.mp parts with ⟨extra, rfl, ends⟩ | ⟨left, within, ends⟩
        · -- the last character of the token would be one of the blanks
          rcases eq_nil_or_concat extra with rfl | ⟨extra, c, rfl⟩
          · exact ⟨[], by simp, by simpa using ends.symm⟩
          · have own : Text.isBlank c = true := all_eq_true.mp blank c (by simp [ends])
            have plain := last c (by simp)
            rw [own] at plain
            cases plain
        · exact ⟨left, within, ends⟩
      have apart : Apart blanks := fun c head => by
        simp [divides, all_eq_true.mp blank c (mem_of_mem_head? head)]
      exact .token ink (begins.cut apart (trimLeft_ne_nil ink)) (ih others)

theorem trim_eq (cs : List Char) :
    ∃ front back, Text.allBlank front = true ∧ Text.allBlank back = true ∧
      cs = front ++ (Text.trim cs ++ back) := by
  obtain ⟨front, blank, whole⟩ := exists_blanks cs
  have right : Text.trimLeft cs = Text.trim cs ++
      ((Text.trimLeft cs).reverse.takeWhile Text.isBlank).reverse := by
    unfold Text.trim Text.trimRight
    rw [← reverse_append, takeWhile_append_dropWhile, reverse_reverse]
  exact ⟨front, _, blank, all_eq_true.mpr fun c member => mem_takeWhile_imp (mem_reverse.mp member),
    right ▸ whole⟩

theorem Reads.trim (reads : Reads patterns previous cs ts) :
    Reads patterns previous (Text.trim cs) ts := by
  obtain ⟨front, back, blank, blank', whole⟩ := trim_eq cs
  rw [whole, Reads.blanks_append blank] at reads
  exact reads.append_blanks blank'

end Reads

end Runbook.Lexer
