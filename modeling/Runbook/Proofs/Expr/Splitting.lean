import Mathlib.Data.List.DropRight
import Mathlib.Data.List.Forall2
import Runbook.Machine.Calling
import Runbook.Proofs.Expr.Parsing
import Runbook.Proofs.Script.Lines

namespace Runbook

open List

namespace Split

variable {cs : List Char}

def past (sep : Char) (p : Place) : List Char → Option Place
  | [] => some p
  | c :: rest => if c = sep && p.isPlain && p.step c = p then none else past sep (p.step c) rest

section Over

variable {sep : Char} {p q : Place} {cs ds : List Char}

theorem past_append (first : past sep p cs = some q) (ds : List Char) :
    past sep p (cs ++ ds) = past sep q ds := by
  induction cs generalizing p with
  | nil =>
    cases first
    rfl
  | cons c cs ih =>
    unfold past at first
    rw [cons_append, past]
    split at first
    · cases first
    · rename_i other
      rw [if_neg other]
      exact ih first

theorem partsFrom_past (scanned : past sep p cs = some q) (part rest : List Char) :
    partsFrom sep p part (cs ++ rest) = partsFrom sep q (cs.reverse ++ part) rest := by
  induction cs generalizing p part with
  | nil =>
    cases scanned
    rfl
  | cons c cs ih =>
    unfold past at scanned
    rw [cons_append, partsFrom]
    split at scanned
    · cases scanned
    · rename_i other
      rw [if_neg other, ih scanned, reverse_cons, append_assoc]
      rfl

theorem partsFrom_intercalate {parts : List (List Char)} (nonempty : parts ≠ [])
    (outside : ∀ part ∈ parts, past ',' {} part = some {}) :
    partsFrom ',' {} [] ([','].intercalate parts) = parts := by
  induction parts with
  | nil => exact absurd rfl nonempty
  | cons part parts ih =>
    obtain ⟨own, outside⟩ := forall_mem_cons.mp outside
    cases parts with
    | nil =>
      have scanned := partsFrom_past own [] []
      simpa [partsFrom] using scanned
    | cons next parts =>
      have cut : (',' = ',' && Place.isPlain {} && decide (Place.step {} ',' = {})) =
        true := by decide
      rw [intercalate_cons_cons, append_assoc, partsFrom_past own, singleton_append,
        partsFrom, if_pos cut, ih (cons_ne_nil next parts) outside]
      simp

end Over

def inside (depth : Nat) : Place := { depth := depth }

def specials : List Char := ['\'', '"', '(', ')', '[', ']', '\x7b', '\x7d', ',']

theorem past_plain {sep : Char} (inert : ∀ c ∈ cs, c ∉ specials ∧ c ≠ sep) {depth : Nat} :
    past sep (inside depth) cs = some (inside depth) := by
  induction cs with
  | nil => rfl
  | cons c cs ih =>
    obtain ⟨⟨own, other⟩, inert⟩ := forall_mem_cons.mp inert
    simp only [specials, mem_cons, not_mem_nil, or_false, not_or] at own
    have step : (inside depth).step c = inside depth := by simp [Place.step, inside, own]
    simp [past, other, step, ih inert]

theorem past_inert (inert : ∀ c ∈ cs, c ∉ specials) (depth : Nat) :
    past ',' (inside depth) cs = some (inside depth) := by
  refine past_plain (fun c member => ⟨inert c member, ?_⟩)
  rintro rfl
  exact inert ',' member (by decide)

theorem not_mem_specials {c : Char}
    (plain : Text.isDigit c = true ∨ Lexer.isNameChar c = true ∨ c.isLower = true ∨
      Text.isBlank c = true ∨ c = '.' ∨ c = '/') :
    c ∉ specials := by
  have others : ∀ c ∈ specials,
      ¬(Text.isDigit c = true ∨ Lexer.isNameChar c = true ∨ c.isLower = true ∨
        Text.isBlank c = true ∨ c = '.' ∨ c = '/') := by
    decide
  exact fun special => others c special plain

theorem past_quoted {quote : Char} {body : List Char} {depth : Nat}
    (mark : quote = '"' ∨ quote = '\'') (read : Lexer.quoted? quote cs = some (body, [])) :
    past ',' { depth := depth, quote := some quote } cs = some (inside depth) := by
  fun_induction Lexer.quoted? quote cs generalizing body with
  | case1 | case2 | case3 => cases read
  | case4 c rest line ih =>
    obtain ⟨⟨inner, rest'⟩, scanned, same⟩ := Option.map_eq_some_iff.mp read
    obtain ⟨rfl, rfl⟩ := Prod.mk.inj same
    have own := ih scanned
    simpa [past, Place.isPlain, Place.step] using own
  | case5 rest last escape =>
    cases read
    have own : quote ≠ '\\' := by rcases mark with rfl | rfl <;> decide
    simp [past, Place.isPlain, Place.step, own, inside]
  | case6 c rest last escape other ih =>
    obtain ⟨⟨inner, rest'⟩, scanned, same⟩ := Option.map_eq_some_iff.mp read
    obtain ⟨rfl, rfl⟩ := Prod.mk.inj same
    have plain : c ≠ '\\' := by rintro rfl; cases rest <;> simp_all
    have own := ih scanned
    simpa [past, Place.isPlain, Place.step, plain, other] using own

def skips (depth : Nat) (cs : List Char) : Bool := past ',' (inside depth) cs = some (inside depth)

end Split

def Token.isSkipped (depth : Nat) : Token → Bool
  | .pattern p => Split.skips depth p.source.toList
  | _ => true

/-- The patterns among these tokens, each inside of the brackets that are open there, are skipped by
the scan. -/
def patternsSkipped (depth : Nat) : List Token → Bool
  | [] => true
  | t :: rest => t.isSkipped depth && patternsSkipped ((t.nest depth).getD depth) rest

namespace Split

variable {depth depth' : Nat} {cs : List Char}

theorem past_sym {s : Sym} (nests : Token.nest depth (.sym s) = some depth') :
    past ',' (inside depth) s.spelling.toList = some (inside depth') := by
  cases s with
  | «open» | openList =>
    cases nests
    simp [Sym.spelling, past, inside, Place.step]
  | close | closeList =>
    cases depth with
    | zero => cases nests
    | succ depth =>
      cases nests
      simp [Sym.spelling, past, inside, Place.step]
  | comma =>
    cases depth with
    | zero => cases nests
    | succ depth =>
      cases nests
      have deep : (depth : Int) + 1 ≠ 0 := by omega
      simp [Sym.spelling, past, inside, Place.isPlain, Place.step, deep]
  | _ =>
    cases nests
    exact past_inert (by decide) depth

theorem past_lexeme {t : Token} (lexeme : Lexer.Lexeme t cs) (skipped : t.isSkipped depth = true)
    (nests : t.nest depth = some depth') : past ',' (inside depth) cs = some (inside depth') := by
  cases lexeme with
  | number ink digits =>
    cases nests
    refine past_inert (fun c member => not_mem_specials ?_) depth
    rcases digits c member with digit | point
    · exact .inl digit
    · exact .inr (.inr (.inr (.inr (.inl point))))
  | name ink chars | keyword ink chars =>
    cases nests
    exact past_inert (fun c member => not_mem_specials (.inr (.inl (chars c member)))) depth
  | sym s => exact past_sym nests
  | @text quote body cs mark read =>
    cases nests
    have opens :
        past ',' (inside depth) [quote] = some { depth := depth, quote := some quote } := by
      rcases mark with rfl | rfl <;> simp [past, inside, Place.step]
    exact (past_append opens cs).trans (past_quoted mark read)
  | @pattern source letters p keeps flags =>
    cases nests
    have slash : past ',' (inside depth) ['/'] = some (inside depth) := past_inert (by decide) depth
    have own : past ',' (inside depth) source = some (inside depth) := by
      have own := of_decide_eq_true skipped
      rwa [keeps, String.toList_ofList] at own
    have ends : past ',' (inside depth) ('/' :: letters) = some (inside depth) := by
      refine past_inert (forall_mem_cons.mpr ⟨by decide, fun c member => not_mem_specials ?_⟩) depth
      exact .inr (.inr (.inl (flags c member)))
    calc
      past ',' (inside depth) (['/'] ++ (source ++ '/' :: letters)) = past ',' (inside depth)
        (source ++ '/' :: letters) :=
        past_append slash _
      _ = past ',' (inside depth) ('/' :: letters) := past_append own _
      _ = some (inside depth) := ends

theorem past_blanks {sep : Char} {blanks : List Char} (ink : Text.isBlank sep = false)
    (blank : Text.allBlank blanks = true) (depth : Nat) :
    past sep (inside depth) blanks = some (inside depth) := by
  refine past_plain (fun c member => ?_)
  have own : Text.isBlank c = true := all_eq_true.mp blank c member
  refine ⟨not_mem_specials (.inr (.inr (.inr (.inl own)))), ?_⟩
  rintro rfl
  exact absurd own (ink ▸ Bool.false_ne_true)

theorem past_reads {patterns : Matcher} {previous : Option Token} {ts : List Token}
    (reads : Lexer.Reads patterns previous cs ts) (skipped : patternsSkipped depth ts = true)
    (nests : ts.foldlM Token.nest depth = some depth') :
    past ',' (inside depth) cs = some (inside depth') := by
  induction reads generalizing depth with
  | blank blank =>
    cases nests
    exact past_blanks rfl blank _
  | @token previous cs rest t ts ink begins others ih =>
    obtain ⟨blanks, blank, whole⟩ := Lexer.exists_blanks cs
    obtain ⟨taken, parts, lexeme⟩ := begins.lexeme
    rw [foldlM_cons] at nests
    obtain ⟨middle, first, second⟩ := Option.bind_eq_some_iff.mp nests
    obtain ⟨own, behind⟩ := (Bool.and_eq_true ..).mp skipped
    rw [first] at behind
    rw [whole, past_append (past_blanks rfl blank depth), parts,
      past_append (past_lexeme lexeme own first)]
    exact ih behind second

end Split

variable {patterns : Matcher} {front : List Token} {depth : Nat} {es : List Expr}
  {previous : Option Token} {e : Expr}

theorem patternsSkipped_append {depth' : Nat} (nests : front.foldlM Token.nest depth = some depth')
    (back : List Token) :
    patternsSkipped depth (front ++ back) =
      (patternsSkipped depth front && patternsSkipped depth' back) := by
  induction front generalizing depth with
  | nil =>
    cases nests
    simp [patternsSkipped]
  | cons t front ih =>
    rw [foldlM_cons] at nests
    obtain ⟨middle, first, second⟩ := Option.bind_eq_some_iff.mp nests
    simp [patternsSkipped, first, ih second, Bool.and_assoc]

theorem patternsSkipped_left {back : List Token}
    (skipped : patternsSkipped depth (front ++ back) = true) :
    patternsSkipped depth front = true := by
  induction front generalizing depth with
  | nil => rfl
  | cons t front ih =>
    obtain ⟨own, behind⟩ := (Bool.and_eq_true ..).mp skipped
    exact (Bool.and_eq_true ..).mpr ⟨own, ih behind⟩

def Part (patterns : Matcher) (e : Expr) (part : List Char) : Prop :=
  Split.past ',' {} part = some {} ∧
    Statement.read patterns (String.ofList (Text.trim part)) = .ok ⟨e, []⟩

theorem Part.split {parts : List (List Char)} (own : List.Forall₂ (Part patterns) es parts) :
    ∀ part ∈ parts, Split.past ',' {} part = some {} ∧ Text.trim part ≠ [] := by
  induction own with
  | nil => nofun
  | cons first _ ih =>
    refine forall_mem_cons.mpr ⟨⟨first.1, fun blank => ?_⟩, ih⟩
    have read := first.2
    rw [blank] at read
    cases read

theorem part_of_piece {part : List Char} {piece : List Token} (own : Parser.Piece e piece)
    (reads : Lexer.Reads patterns previous part piece)
    (free : previous.any Token.endsOperand = false) (skipped : patternsSkipped 0 piece = true) :
    Part patterns e part := by
  refine ⟨Split.past_reads reads skipped (own.1 0 (Nat.le_refl 0)), Statement.read_iff.mpr
    ⟨piece, ?_, own.2⟩⟩
  rw [String.toList_ofList]
  exact (reads.behind free.symm : Lexer.Reads patterns none _ _).trim

theorem parts_of_pieces {pieces : List (List Token)} {cs : List Char}
    (own : List.Forall₂ Parser.Piece es pieces) (nonempty : pieces ≠ [])
    (reads : Lexer.Reads patterns previous cs ([Token.sym .comma].intercalate pieces))
    (free : previous.any Token.endsOperand = false)
    (skipped : patternsSkipped 0 ([Token.sym .comma].intercalate pieces) = true) :
    ∃ parts, cs = [','].intercalate parts ∧ List.Forall₂ (Part patterns) es parts := by
  induction own generalizing previous cs with
  | nil => exact absurd rfl nonempty
  | @cons e piece es pieces own others ih =>
    cases others with
    | nil =>
      rw [intercalate_singleton] at reads skipped
      exact ⟨[cs], by simp, .cons (part_of_piece own reads free skipped) .nil⟩
    | @cons e' next es pieces own' others =>
      rw [intercalate_cons_cons, append_assoc, singleton_append] at reads skipped
      rw [patternsSkipped_append (own.1 0 (Nat.le_refl 0)), Bool.and_eq_true] at skipped
      obtain ⟨left, right, rfl, first, second⟩ := reads.comma
      obtain ⟨parts, rfl, behind⟩ := ih (cons_ne_nil _ _) second rfl skipped.2
      refine ⟨left :: parts, ?_, .cons (part_of_piece own first free skipped.1) behind⟩
      cases behind with
      | cons _ _ => simp

namespace Split

theorem list_intercalate {parts : List (List Char)}
    (own : ∀ part ∈ parts, past ',' {} part = some {} ∧ Text.trim part ≠ []) :
    list ',' (String.ofList ([','].intercalate parts)) = parts.map fun part =>
      String.ofList (Text.trim part) := by
  unfold list items
  rw [String.toList_ofList]
  cases parts with
  | nil => rfl
  | cons part parts =>
    rw [partsFrom_intercalate (cons_ne_nil part parts) fun part member => (own part member).1]
    have blank : (part :: parts).map Text.trim ≠ [[]] := fun same => (own part mem_cons_self).2
      (cons.inj same).1
    simp only [if_neg blank, map_map]
    rfl

end Split

/-- A text with nothing in its patterns that leads the splitting astray. -/
def skipsPatterns (patterns : Matcher) (text : String) : Bool :=
  match Lexer.tokens patterns text.toList with
  | .ok ts => patternsSkipped 0 ts
  | .error _ => false

theorem parts_of_read {text : String} {s : Statement} (read : Statement.read patterns text = .ok s)
    (skips : skipsPatterns patterns text = true) :
    ∃ parts, text.toList = [','].intercalate parts ∧
      List.Forall₂ (Part patterns) s.items parts := by
  obtain ⟨ts, reads, parsed⟩ := Statement.read_iff.mp read
  obtain ⟨rest, listed⟩ := Parser.statement_ok.mp parsed
  obtain ⟨pieces, nonempty, whole, own⟩ := Parser.listed_pieces listed
  obtain ⟨same, _⟩ := reads.eof_once whole
  have skipped : patternsSkipped 0 ts = true := by
    rw [skipsPatterns, Lexer.tokens_iff.mpr ⟨ts, reads, rfl⟩] at skips
    exact patternsSkipped_left skips
  subst same
  exact parts_of_pieces own nonempty reads rfl skipped

theorem trim_between {c : Char} (ink : Text.isBlank c = false) (front back : List Char) :
    Text.trim (front ++ c :: back) = Text.trimLeft front ++ c :: Text.trimRight back := by
  have left : Text.trimLeft (front ++ c :: back) = Text.trimLeft front ++ c :: back := by
    unfold Text.trimLeft
    rw [dropWhile_append]
    split
    · rename_i blank
      rw [isEmpty_iff.mp blank]
      simp [ink]
    · rfl
  have right : Text.trimRight (Text.trimLeft front ++ c :: back) = Text.trimLeft front ++ c ::
      Text.trimRight back := by
    unfold Text.trimRight
    rw [reverse_append, reverse_cons, append_assoc, dropWhile_append]
    split
    · rename_i blank
      rw [isEmpty_iff.mp blank]
      simp [ink]
    · simp
  rw [Text.trim, left, right]

theorem Name.not_mem_of_isValid {n : String} (valid : Name.isValid (Text.strip n) = true) :
    ∀ c ∈ n.toList, c ∉ '=' :: Split.specials := by
  have others : ∀ c ∈ '=' :: Split.specials,
      ¬(c.isAlpha = true ∨ Text.isWord c = true ∨ Text.isBlank c = true) := by decide +kernel
  refine fun c member special => others c special ?_
  obtain ⟨front, back, blank, blank', whole⟩ := Lexer.trim_eq n.toList
  rw [whole, mem_append, mem_append] at member
  rcases member with outer | inner | outer
  · exact .inr (.inr (all_eq_true.mp blank c outer))
  · rw [Name.isValid, Text.strip, String.toList_ofList] at valid
    cases chars : Text.trim n.toList with
    | nil => rw [chars] at inner; cases inner
    | cons first rest =>
      rw [chars] at valid inner
      simp only [Name.validChars, Name.isLetter, Bool.and_eq_true, Bool.or_eq_true,
        beq_iff_eq] at valid
      rcases mem_cons.mp inner with rfl | later
      · exact .inl valid.1
      rw [← @takeWhile_append_dropWhile _ Text.isWord rest, mem_append] at later
      rcases later with word | behind
      · exact .inr (.inl (mem_takeWhile_imp word))
      rcases valid.2 with none | line
      · rw [none] at behind
        cases behind
      · rw [line] at behind
        cases mem_singleton.mp behind
        exact .inr (.inr (by decide))
  · exact .inr (.inr (all_eq_true.mp blank' c outer))

namespace Action

/-- Every name gets the value of its own expression, one after the other. -/
def bindAll (p : Program) (found : Record Value) : List (String × String) → Action (Record Value)
  | [] => return found
  | (name, body) :: rest => do
    let v ← eval p (String.ofList (Text.trimRight body.toList))
    bindAll p (found.set (Text.strip name) v) rest

theorem argument_eq (p : Program) {name : String} (valid : Name.isValid (Text.strip name) = true)
    (body : List Char) :
    argument p (String.ofList (Text.trimLeft name.toList ++ '=' :: body)) =
      (do return (Text.strip name, ← eval p (String.ofList body))) := by
  have cut : Text.cutOnce? '=' (Text.trimLeft name.toList ++ '=' :: body) =
      some (Text.trimLeft name.toList, body) := by
    have plain : ∀ c ∈ Text.trimLeft name.toList, decide (c ≠ '=') = true := by
      intro c member
      have other := Name.not_mem_of_isValid valid c ((dropWhile_sublist _).subset member)
      exact decide_eq_true fun same => other (same ▸ mem_cons_self)
    rw [Text.cutOnce?, Lexer.span_apart (by simp), Lexer.span_all plain]
    rfl
  have same : String.ofList (Text.trim (Text.trimLeft name.toList)) = Text.strip name := by
    rw [Text.strip, Text.trim, Text.trim, Text.trimLeft, Text.trimLeft, dropWhile_idempotent]
  unfold argument
  simp only [String.toList_ofList, cut, same, Name.validate, valid, if_true]
  rfl

theorem argumentsFrom_eq (p : Program) {args : List (String × String)}
    (valid : ∀ a ∈ args, Name.isValid (Text.strip a.1) = true) (found : Record Value) :
    argumentsFrom p found
      (args.map fun a => String.ofList (Text.trim (a.1.toList ++ '=' :: a.2.toList))) =
      bindAll p found args := by
  induction args generalizing found with
  | nil => rfl
  | cons a args ih =>
    obtain ⟨own, valid⟩ := forall_mem_cons.mp valid
    rw [map_cons, argumentsFrom, trim_between (by decide), argument_eq p own, bindAll, bind_assoc]
    simp only [pure_bind, ih valid]

end Action

theorem Split.past_argument {name body : String} (valid : Name.isValid (Text.strip name) = true)
    (read : Statement.read patterns body = .ok ⟨e, []⟩)
    (skips : skipsPatterns patterns body = true) :
    past ',' {} (name.toList ++ '=' :: body.toList) = some {} := by
  have front : past ',' (inside 0) (name.toList ++ ['=']) = some (inside 0) := by
    refine past_inert (fun c member => ?_) 0
    rcases mem_append.mp member with own | sign
    · exact fun special => Name.not_mem_of_isValid valid c own (mem_cons_of_mem _ special)
    · cases mem_singleton.mp sign
      decide
  obtain ⟨parts, whole, own⟩ := parts_of_read read skips
  have alone : past ',' (inside 0) body.toList = some (inside 0) := by
    cases own with
    | cons part others =>
      cases others
      rw [whole, intercalate_singleton]
      exact part.1
  have whole := past_append front body.toList
  rw [alone, append_assoc] at whole
  exact whole

/-- Splitting at commas agrees with parsing, unless a pattern leads it astray: every piece of a
statement is one of its items, and every argument of a call gets the value of its own expression. -/
theorem split_agrees (text : String) (s : Statement) (p : Program) (args : List (String × String)) :
    (Statement.read p.patterns text = .ok s → skipsPatterns p.patterns text = true →
      List.Forall₂ (fun e piece => Statement.read p.patterns piece = .ok ⟨e, []⟩) s.items
        (Split.list ',' text)) ∧
    ((∀ a ∈ args, Name.isValid (Text.strip a.1) = true ∧
      (∃ e, Statement.read p.patterns a.2 = .ok ⟨e, []⟩) ∧ skipsPatterns p.patterns a.2 = true) →
      Action.arguments p (",".intercalate (args.map fun a => a.1 ++ "=" ++ a.2)) =
        Action.bindAll p [] args) := by
  constructor
  · intro read skips
    obtain ⟨parts, whole, own⟩ := parts_of_read read skips
    have split := Split.list_intercalate (Part.split own)
    rw [← whole, String.ofList_toList] at split
    rw [split, forall₂_map_right_iff]
    exact own.imp fun _ _ part => part.2
  · intro fine
    have joined : ",".intercalate (args.map fun a => a.1 ++ "=" ++ a.2) =
        String.ofList ([','].intercalate (args.map fun a => a.1.toList ++ '=' :: a.2.toList)) := by
      rw [← String.toList_inj, String.toList_intercalate]
      simp [Function.comp_def]
    rw [Action.arguments, joined, Split.list_intercalate, map_map]
    · exact Action.argumentsFrom_eq p (fun a member => (fine a member).1) []
    · intro part member
      obtain ⟨⟨name, body⟩, here, rfl⟩ := mem_map.mp member
      obtain ⟨valid, ⟨e, read⟩, skips⟩ := fine _ here
      refine ⟨Split.past_argument valid read skips, ?_⟩
      rw [trim_between (by decide)]
      simp

theorem split_agrees_mixed : let text := "a='x, \\'y', b=[/p,q/, \"]\"], c=/k[,]/"
    let args := [("a", "'x, \\'y'"), (" b", "[/p,q/, \"]\"]"), (" c", "/k[,]/")]
    skipsPatterns .standard text = true ∧
    Split.list ',' text = ["a='x, \\'y'", "b=[/p,q/, \"]\"]", "c=/k[,]/"] ∧
    (∃ s, Statement.read .standard text = .ok s ∧
      List.Forall₂ (fun e piece => Statement.read .standard piece = .ok ⟨e, []⟩) s.items
    (Split.list ',' text)) ∧ Action.arguments { commands := [] } text = Action.bindAll
    { commands := [] } [] args := by
  have counted {text : String} {n : Nat}
      (count : (Statement.read .standard text).toOption.map (·.rest.length) = some n) :
      ∃ s, Statement.read .standard text = .ok s ∧ s.rest.length = n := by
    cases read : Statement.read .standard text with
    | error e => rw [read] at count; cases count
    | ok s => rw [read] at count; exact ⟨s, rfl, Option.some.inj count⟩
  have single {text : String}
      (one : (Statement.read .standard text).toOption.map (·.rest.length) = some 0) :
      ∃ e, Statement.read .standard text = .ok ⟨e, []⟩ := by
    obtain ⟨⟨e, rest⟩, read, none⟩ := counted one
    obtain rfl := length_eq_zero_iff.mp none
    exact ⟨e, read⟩
  intro text args
  have skips : skipsPatterns .standard text = true := by decide +kernel
  obtain ⟨s, read, _⟩ := counted
    (by decide +kernel : (Statement.read .standard text).toOption.map (·.rest.length) = some 2)
  have agrees := split_agrees text s { commands := [] } args
  refine ⟨skips, by decide +kernel, ⟨s, read, agrees.1 read skips⟩, ?_⟩
  have joined : text = ",".intercalate (args.map fun a => a.1 ++ "=" ++ a.2) := by decide +kernel
  rw [joined]
  refine agrees.2 fun a member => ?_
  simp only [args, mem_cons, not_mem_nil, or_false] at member
  rcases member with rfl | rfl | rfl
  all_goals exact ⟨by decide +kernel, single (by decide +kernel), by decide +kernel⟩

namespace Split

/-- No blank stands at the ends of an item and no separator outside of its quotes and brackets, and
all of these are closed. -/
def IsItem (sep : Char) (item : String) : Prop :=
  Text.Stripped item.toList ∧ (past sep {} item.toList).any Place.isPlain = true

instance (sep : Char) (item : String) : Decidable (IsItem sep item) :=
  inferInstanceAs (Decidable (_ ∧ _))

/-- A text in which these items follow one another, with a separator and any blanks between them. -/
inductive Joined (sep : Char) : List String → List Char → Prop
  | one (item : String) : Joined sep [item] item.toList
  | cons {items : List String} {before after rest : List Char} (item : String)
      (blank : Text.allBlank before = true) (blank' : Text.allBlank after = true)
      (others : Joined sep items rest) :
      Joined sep (item :: items) (item.toList ++ (before ++ sep :: (after ++ rest)))

def Place.Settled (p : Place) : Prop := p.quote = none → p.escaped = false

section Joined

variable {sep : Char} {p q : Place} {cs blanks : List Char} {item : String} {items : List String}

theorem Place.Settled.step (settled : p.Settled) (c : Char) : (p.step c).Settled := by
  unfold Settled Place.step at *
  split
  · split_ifs <;> simp_all
  · split_ifs <;> simp_all

theorem Place.Settled.past (settled : p.Settled) (scanned : past sep p cs = some q) :
    q.Settled := by
  induction cs generalizing p with
  | nil =>
    cases scanned
    exact settled
  | cons c cs ih =>
    unfold Split.past at scanned
    split at scanned
    · cases scanned
    · exact ih (settled.step c) scanned

theorem IsItem.scanned (isItem : IsItem sep item) : past sep {} item.toList = some {} := by
  obtain ⟨_, closed⟩ := isItem
  cases scanned : past sep {} item.toList with
  | none =>
    rw [scanned] at closed
    cases closed
  | some q =>
    have settled : q.Settled := Place.Settled.past (fun _ => rfl) scanned
    rw [scanned, Option.any_some, Place.isPlain, Bool.and_eq_true, beq_iff_eq, beq_iff_eq] at closed
    rw [show q = ⟨q.depth, q.quote, q.escaped⟩ from rfl, closed.1, closed.2, settled closed.2]

theorem partsFrom_joined (mark : sep = ',' ∨ sep = ';') (joined : Joined sep items cs)
    (all : ∀ item ∈ items, IsItem sep item) (blank : Text.allBlank blanks = true) :
    (partsFrom sep {} blanks.reverse cs).map Text.trim = items.map String.toList := by
  have scans {blanks : List Char} (blank : Text.allBlank blanks = true) :
      past sep {} blanks = some {} :=
    past_blanks (by rcases mark with rfl | rfl <;> rfl) blank 0
  have cut :
      (decide (sep = sep) && Place.isPlain {} && decide (Place.step {} sep = {})) = true := by
    rcases mark with rfl | rfl <;> rfl
  -- a part is scanned behind the blanks that stand before its item
  induction joined generalizing blanks with
  | one item =>
    obtain ⟨own, _⟩ := forall_mem_cons.mp all
    have scanned := partsFrom_past own.scanned blanks.reverse []
    have trimmed := @Text.trim_padded _ _ [] blank own.1 rfl
    rw [append_nil] at scanned trimmed
    rw [scanned, partsFrom, ← reverse_append, reverse_reverse, map_singleton, trimmed,
      map_singleton]
  | @cons items before after rest item blank₁ blank₂ others ih =>
    obtain ⟨own, all⟩ := forall_mem_cons.mp all
    have trimmed := Text.trim_padded blank own.1 blank₁
    rw [partsFrom_past own.scanned, partsFrom_past (scans blank₁), partsFrom, if_pos cut,
      partsFrom_past (scans blank₂), append_nil, map_cons, ih all blank₂, ← reverse_append,
      ← reverse_append, reverse_reverse,
      append_assoc, trimmed, map_cons]

end Joined

end Split

/-- Items that are joined are split again. -/
theorem split_joined {sep : Char} {items : List String} {text : String}
    (mark : sep = ',' ∨ sep = ';') (other : items ≠ [""])
    (all : ∀ item ∈ items, Split.IsItem sep item) (joined : Split.Joined sep items text.toList) :
    Split.list sep text = items := by
  have parts := @Split.partsFrom_joined sep text.toList [] items mark joined all rfl
  have nonempty : items.map String.toList ≠ [[]] := by
    intro none
    obtain ⟨item, rfl, blank⟩ := map_eq_singleton_iff.mp none
    rw [String.toList_eq_nil_iff] at blank
    exact other (by rw [blank])
  rw [reverse_nil] at parts
  rw [Split.list, Split.items, parts, if_neg nonempty, map_map]
  exact map_id'' (fun _ => String.ofList_toList) items

theorem split_joined_texts :
    Split.list ';' "f(x; [1; 2])\t ;\u00a0;'it\\'s; (' + \"[\"; \n(;)" =
      ["f(x; [1; 2])", "", "'it\\'s; (' + \"[\"", "(;)"] := by
  have joined : Split.Joined ';' ["f(x; [1; 2])", "", "'it\\'s; (' + \"[\"", "(;)"]
      ("f(x; [1; 2])".toList ++
      ("\t ".toList ++ ';' ::
      ([] ++
      ("".toList ++
      ("\u00a0".toList ++ ';' ::
      ([] ++
      ("'it\\'s; (' + \"[\"".toList ++ ([] ++ ';' :: (" \n".toList ++ "(;)".toList))))))))) :=
    .cons _ rfl rfl (.cons _ rfl rfl (.cons _ rfl rfl (.one _)))
  exact split_joined (.inr rfl) (by decide) (by decide +kernel) joined

end Runbook
