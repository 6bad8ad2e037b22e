import Mathlib.Data.List.DropRight
import Mathlib.Data.List.Forall2
import Runbook.Proofs.Machine.Snapshots
import Runbook.Proofs.Script.Lines
import Runbook.Script.Document

namespace Runbook

open List

namespace Command

def IsName (name : String) : Prop :=
  match name.toList with
  | [] => False
  | c :: rest => c.isAlpha = true ∧ ∀ d ∈ rest, Document.isNameChar d = true

instance (name : String) : Decidable (IsName name) := by
  unfold IsName
  split <;> infer_instance

def IsField (text : String) : Prop :=
  Text.Stripped text.toList ∧ Text.OneLine text.toList ∧ Entry.BarsPaired text.toList

instance (text : String) : Decidable (IsField text) := inferInstanceAs (Decidable (_ ∧ _))

def Plain (c : Command) : Prop :=
  if c.executable then IsName c.name ∧ IsField c.target ∧ IsField c.value
  else c.name = "" ∧ c.value = "" ∧ Text.Stripped c.target.toList ∧ Text.OneLine c.target.toList

instance (c : Command) : Decidable c.Plain := by
  unfold Plain
  infer_instance

def line (c : Command) : String :=
  if c.executable then " | ".intercalate ([c.name, c.target, c.value].rdropWhile (· = ""))
  else "# " ++ c.target

end Command

inductive Script.Written : List Command → List String → Prop
  | nil : Written [] []
  | blank {cs : List Command} {line : String} {lines : List String}
      (blank : Text.allBlank line.toList = true) (oneLine : Text.OneLine line.toList)
      (others : Written cs lines) : Written cs (line :: lines)
  | command {c : Command} {cs : List Command} {lines : List String} (others : Written cs lines) :
      Written (c :: cs) (c.line :: lines)

namespace Document

def Shows (fields : Record Value) (name text : String) : Prop :=
  fields.get? name = some (.text text) ∨ fields.get? name = none ∧ text = ""

/-- An item of a document with the fields of a command; its type need not be told. -/
def ItemOf (c : Command) (v : Value) : Prop :=
  ∃ fields : Record Value, v = .map fields ∧
    if c.executable then
      fields.get? "command" = some (.text c.name) ∧ Shows fields "target" c.target ∧
        Shows fields "value" c.value ∧
        (fields.get? "type" = none ∨ fields.get? "type" = some (.text "command")) ∧
        fields.names ⊆ ["type", "command", "target", "value"]
    else
      fields.get? "comment" = some (.text c.target) ∧
        (fields.get? "type" = none ∨ fields.get? "type" = some (.text "comment")) ∧
        fields.names ⊆ ["type", "comment"]

/-- A document with such items in order; it may have a name. -/
def DocumentOf (cs : List Command) (v : Value) : Prop :=
  ∃ (fields : Record Value) (items : List Value), v = .map fields ∧ fields.get? "commands" =
    some (.list items) ∧ List.Forall₂ ItemOf cs items ∧
    (fields.get? "name" = none ∨ ∃ name, fields.get? "name" = some (.text name)) ∧
    fields.names ⊆ ["name", "commands"]

end Document

namespace Document

variable {fields : Record Value} {c : Command} {cs : List Command} {v : Value}

theorem Shows.optionalText? {name text : String} (shown : Shows fields name text) :
    optionalText? fields name = some text := by
  rcases shown with there | ⟨none, rfl⟩
  · simp [Document.optionalText?, there]
  · simp [Document.optionalText?, none]

theorem isTyped_of {type : String}
    (typed : fields.get? "type" = none ∨ fields.get? "type" = some (.text type)) :
    isTyped fields type = true := by
  rcases typed with none | some
  · simp [isTyped, none]
  · simp [isTyped, some]

theorem hasOnly_of {names : List String} (known : fields.names ⊆ names) :
    hasOnly fields names = true :=
  all_eq_true.mpr fun _ mem => contains_iff_mem.mpr (known mem)

theorem isCommandName_of {name : String} (isName : Command.IsName name) :
    isCommandName name = true := by
  unfold Command.IsName at isName
  unfold isCommandName
  split at isName
  · exact isName.elim
  · rename_i c rest whole
    have none : rest.dropWhile isNameChar = [] := dropWhile_eq_nil_iff.mpr isName.2
    simp [whole, isName.1, none]

theorem ItemOf.item? (item : ItemOf c v) (plain : c.Plain) : item? v = some c := by
  obtain ⟨fields, rfl, item⟩ := item
  obtain ⟨name, target, value, executable⟩ := c
  unfold Command.Plain at plain
  cases executable with
  | true =>
    obtain ⟨command, target', value', typed, known⟩ := item
    have found : command? fields = some { name := name, target := target, value := value } := by
      unfold command? textField?
      rw [command, target'.optionalText?, value'.optionalText?]
      simp [isCommandName_of plain.1, isTyped_of typed, hasOnly_of known]
    rw [Document.item?, found]
    rfl
  | false =>
    obtain ⟨comment, typed, known⟩ := item
    obtain ⟨rfl, rfl, _⟩ := plain
    have other : fields.get? "command" = none := by
      rw [Record.get?_eq_none]
      exact fun mem => absurd (known mem) (by decide)
    have none : command? fields = none := by
      unfold command? textField?
      rw [other]
    have found : comment? fields = some { name := "", target := target, executable := false } := by
      unfold comment? textField?
      rw [comment]
      simp [isTyped_of typed, hasOnly_of known]
    rw [Document.item?, none, found]
    rfl

theorem items_of {vs : List Value} (all : List.Forall₂ ItemOf cs vs) (plain : ∀ c ∈ cs, c.Plain)
    (number : Nat) : items number vs = .ok cs := by
  induction all generalizing number with
  | nil => rfl
  | cons item _ ih =>
    obtain ⟨first, others⟩ := forall_mem_cons.mp plain
    rw [items, item.item? first]
    dsimp only
    rw [ih others]
    rfl

theorem DocumentOf.read (document : DocumentOf cs v) (plain : ∀ c ∈ cs, c.Plain) :
    read v = .ok cs := by
  obtain ⟨fields, vs, rfl, found, all, named, known⟩ := document
  have name : checkName fields = .ok () := by
    rcases named with none | ⟨name, some⟩
    · simp [checkName, none]
    · simp [checkName, some]
  have extra : checkExtra fields = .ok () := by
    have none : (fields.names.filter fun name => name ≠ "name" ∧ name ≠ "commands") = [] := by
      rw [filter_eq_nil_iff]
      intro name mem
      have := known mem
      simp at this ⊢
      tauto
    unfold checkExtra
    rw [none]
  rw [Document.read, readFields, found]
  dsimp only
  rw [name, readItems, items_of all plain, extra]
  rfl

end Document

theorem Document.of_isNameChar {c : Char} (inner : isNameChar c = true) :
    Text.isBlank c = false ∧ Text.isLineBreak c = false ∧ c ≠ '|' ∧ c ≠ '#' := by
  have range : c.toNat < 128 := by
    simp only [isNameChar, Char.isAlphanum, Char.isDigit, Bool.or_eq_true, Bool.and_eq_true,
      decide_eq_true_eq, ge_iff_le, UInt32.le_iff_toNat_le] at inner
    rcases inner with (letter | ⟨_, digit⟩) | rfl
    · exact Lexer.toNat_of_isAlpha letter
    · exact Nat.lt_of_le_of_lt digit (by decide)
    · decide
  have codes : ∀ n < 128, isNameChar (Char.ofNat n) = true → Text.isBlank (Char.ofNat n) = false ∧
      Text.isLineBreak (Char.ofNat n) = false ∧ Char.ofNat n ≠ '|' ∧ Char.ofNat n ≠ '#' := by
      decide +kernel
  rw [← Char.ofNat_toNat c] at inner ⊢
  exact codes _ range inner

namespace Entry

variable {line : List Char}

theorem fields_joined {field : List Char} {others : List (List Char)}
    (all : ∀ cs ∈ field :: others, Text.Stripped cs ∧ BarsPaired cs) :
    fields (" | ".toList.intercalate (field :: others)) = field :: others := by
  suffices parts : ∀ {blanks : List Char}, Text.allBlank blanks = true →
      (fieldsFrom false blanks (" | ".toList.intercalate (field :: others))).map Text.trim =
      field :: others from parts rfl
  induction others generalizing field with
  | nil =>
    intro blanks blank
    obtain ⟨stripped, paired⟩ := all field mem_cons_self
    have trimmed := Text.trim_padded (by rwa [Text.allBlank_reverse]) stripped
      (rfl : Text.allBlank [] = true)
    rw [append_nil] at trimmed
    rw [intercalate_singleton, fieldsFrom_last paired, map_singleton, trimmed]
  | cons next others ih =>
    intro blanks blank
    obtain ⟨⟨stripped, paired⟩, rest⟩ := forall_mem_cons.mp all
    have trimmed := Text.trim_padded (by rwa [Text.allBlank_reverse]) stripped
      (by decide : Text.allBlank [' '] = true)
    rw [intercalate_cons_cons, append_assoc]
    rw [show " | ".toList = [' ', '|', ' '] from rfl] at ih ⊢
    rw [cons_append, cons_append, singleton_append, fieldsFrom_divide paired, map_cons, trimmed,
      ih rest (by decide)]

theorem readLines_blank (blank : Text.allBlank line = true) (number : Nat)
    (rest : List (List Char)) : readLines number (line :: rest) = readLines (number + 1) rest := by
  rw [readLines, Text.trim_allBlank blank]

theorem readLines_of_ofLine {entry : Entry} (ink : Text.trim line ≠ [])
    (read : ofLine (Text.trim line) = some entry) (number : Nat) (rest : List (List Char)) :
    readLines number (line :: rest) = (readLines (number + 1) rest).map (entry :: ·) := by
  rw [readLines]
  split
  · contradiction
  · rw [read]

theorem readLines_joined {lines : List (List Char)} (oneLine : ∀ line ∈ lines, Text.OneLine line)
    (number : Nat) :
    readLines number (Text.lines (['\n'].intercalate lines)) = readLines number lines := by
  induction lines generalizing number with
  | nil => rfl
  | cons line rest ih =>
    obtain ⟨first, others⟩ := forall_mem_cons.mp oneLine
    cases rest with
    | nil =>
      rw [intercalate_singleton, Text.lines_last first]
      split
      · rename_i empty
        rw [isEmpty_iff.mp empty]
        rfl
      · rfl
    | cons next rest =>
      rw [intercalate_cons_cons, append_assoc, singleton_append, Text.lines_append first,
        readLines, readLines]
      simp only [ih others]

end Entry

namespace Command

variable {name : String} {c : Command}

theorem IsName.letters (isName : IsName name) :
    name.toList ≠ [] ∧ ∀ c ∈ name.toList, Document.isNameChar c = true := by
  unfold IsName at isName
  split at isName
  · exact isName.elim
  · rename_i c rest whole
    have first : Document.isNameChar c = true := by
      simp [Document.isNameChar, Char.isAlphanum, isName.1]
    rw [whole]
    exact ⟨cons_ne_nil c rest, forall_mem_cons.mpr ⟨first, isName.2⟩⟩

theorem IsName.isField (isName : IsName name) : IsField name := by
  have letters := isName.letters.2
  refine ⟨⟨?_, ?_⟩, ?_, ?_⟩
  · exact fun c first => (Document.of_isNameChar (letters c (mem_of_mem_head? first))).1
  · exact fun c last => (Document.of_isNameChar (letters c (mem_of_mem_getLast? last))).1
  · exact fun c mem => (Document.of_isNameChar (letters c mem)).2.1
  · exact fun i _ bar => absurd rfl
      (Document.of_isNameChar (letters '|' (mem_of_getElem? bar))).2.2.1

def entry (c : Command) : Entry :=
  if c.executable then .command c.name (Entry.present? c.target.toList)
    (Entry.present? c.value.toList) else .comment c.target

def Reads (line : List Char) (entry : Entry) : Prop :=
  Text.OneLine line ∧ Text.trim line ≠ [] ∧ Entry.ofLine (Text.trim line) = some entry

theorem reads_joined {name last : List Char} {others : List (List Char)} {entry : Entry}
    (named : name ≠ []) (letters : ∀ c ∈ name, Document.isNameChar c = true)
    (all : ∀ cs ∈ name :: others, Text.Stripped cs ∧ Text.OneLine cs ∧ Entry.BarsPaired cs)
    (ends : (name :: others).getLast? = some last) (ink : last ≠ [])
    (whole : Entry.ofFields (name :: others) = some entry) :
    Reads (" | ".toList.intercalate (name :: others)) entry := by
  have head := Text.head?_joined (" | ".toList) others named
  have final := Text.getLast?_joined (" | ".toList) ends ink
  have stripped : Text.Stripped (" | ".toList.intercalate (name :: others)) := by
    refine ⟨fun c first => (all name mem_cons_self).1.1 c (head ▸ first), fun c mem => ?_⟩
    exact (all last (mem_of_getLast? ends)).1.2 c (final ▸ mem)
  refine ⟨Text.oneLine_joined (by decide) fun cs mem => (all cs mem).2.1, ?_⟩
  rw [Text.trim_stripped stripped]
  rcases line : " | ".toList.intercalate (name :: others) with _ | ⟨c, rest⟩
  · rw [line, eq_comm, head?_nil, head?_eq_none_iff] at head
    exact absurd head named
  · have other : c ≠ '#' := by
      rw [line, eq_comm] at head
      exact (Document.of_isNameChar (letters c (mem_of_mem_head? head))).2.2.2
    refine ⟨cons_ne_nil c rest, ?_⟩
    rw [Entry.ofLine, ← line, Entry.fields_joined fun cs mem => ⟨(all cs mem).1, (all cs mem).2.2⟩]
    · exact whole
    · exact fun _ same => other (cons.inj same).1

theorem IsName.reads {others : List String} {last : String} {entry : Entry} (isName : IsName name)
    (fields : ∀ field ∈ others, IsField field) (ends : (name :: others).getLast? = some last)
    (ink : last ≠ "") (whole : Entry.ofFields ((name :: others).map String.toList) = some entry) :
    Reads (" | ".intercalate (name :: others)).toList entry := by
  obtain ⟨named, letters⟩ := isName.letters
  have all : ∀ cs ∈ (name :: others).map String.toList, Text.Stripped cs ∧ Text.OneLine cs ∧
      Entry.BarsPaired cs :=
    forall_mem_map.mpr (forall_mem_cons.mpr ⟨isName.isField, fields⟩)
  have ends' : ((name :: others).map String.toList).getLast? = some last.toList := by
    rw [getLast?_map, ends]
    rfl
  rw [String.toList_intercalate]
  exact reads_joined named letters all ends' (by simpa using ink) whole

theorem reads_comment {text : String} (stripped : Text.Stripped text.toList)
    (oneLine : Text.OneLine text.toList) : Reads ("# " ++ text).toList (.comment text) := by
  rw [String.toList_append, show "# ".toList = ['#', ' '] from rfl]
  have whole : Text.OneLine (['#', ' '] ++ text.toList) := forall_mem_append.mpr
    ⟨by decide, oneLine⟩
  by_cases empty : text = ""
  · subst empty
    exact ⟨whole, by decide, by decide +kernel⟩
  · have final : (['#', ' '] ++ text.toList).getLast? = text.toList.getLast? := by
      rw [getLast?_append, getLast?_eq_some_getLast (by simpa using empty)]
      rfl
    have trimmed : Text.trim (['#', ' '] ++ text.toList) = ['#', ' '] ++ text.toList := by
      refine Text.trim_stripped ⟨?_, final ▸ stripped.2⟩
      rintro c ⟨⟩
      rfl
    have inner := Text.trim_padded (by decide : Text.allBlank [' '] = true) stripped
      (rfl : Text.allBlank [] = true)
    rw [append_nil] at inner
    rw [Reads, trimmed]
    refine ⟨whole, cons_ne_nil _ _, ?_⟩
    rw [cons_append, Entry.ofLine, inner, String.ofList_toList]

theorem Plain.reads (plain : c.Plain) : Reads c.line.toList c.entry := by
  obtain ⟨name, target, value, executable⟩ := c
  unfold Plain at plain
  unfold line entry
  cases executable with
  | true =>
    obtain ⟨isName, target', value'⟩ := plain
    dsimp only at isName target' value' ⊢
    have named : name ≠ "" := by simpa using isName.letters.1
    rw [if_pos rfl, if_pos rfl]
    by_cases noValue : value = ""
    · by_cases noTarget : target = ""
      · have shown : [name, target, value].rdropWhile (· = "") = [name] := by
          simp [List.rdropWhile, noValue, noTarget, named]
        rw [shown]
        exact isName.reads nofun
          rfl named (by simp [Entry.ofFields, Entry.present?, noValue, noTarget])
      · have shown : [name, target, value].rdropWhile (· = "") = [name, target] := by
          simp [List.rdropWhile, noValue, noTarget]
        rw [shown]
        exact isName.reads (by simpa using target') rfl noTarget
          (by simp [Entry.ofFields, Entry.present?, noValue])
    · have shown : [name, target, value].rdropWhile (· = "") = [name, target, value] := by
        simp [List.rdropWhile, noValue]
      rw [shown]
      exact isName.reads (by simp [target', value']) rfl noValue (by simp [Entry.ofFields])
  | false =>
    obtain ⟨_, _, stripped, oneLine⟩ := plain
    exact reads_comment stripped oneLine

theorem itemOf_entry (c : Command) : Document.ItemOf c c.entry.item := by
  obtain ⟨name, target, value, executable⟩ := c
  cases executable with
  | true =>
    refine ⟨_, rfl, ?_⟩
    rw [if_pos rfl]
    by_cases noTarget : target = "" <;> by_cases noValue : value = "" <;>
      simp [Entry.present?, Entry.optionalField, Document.Shows, Record.get?, Record.names,
        noTarget, noValue]
  | false => exact ⟨_, rfl, rfl, .inr rfl, by simp [Record.names]⟩

end Command

namespace Script

theorem Written.readLines {cs : List Command} {lines : List String} (written : Written cs lines)
    (plain : ∀ c ∈ cs, c.Plain) :
    (∀ line ∈ lines.map String.toList, Text.OneLine line) ∧
      ∀ number, Entry.readLines number (lines.map String.toList) = .ok (cs.map Command.entry) := by
  induction written with
  | nil => exact ⟨nofun, fun _ => rfl⟩
  | blank blank oneLine _ ih =>
    obtain ⟨others, rest⟩ := ih plain
    refine ⟨forall_mem_cons.mpr ⟨oneLine, others⟩, fun number => ?_⟩
    rw [map_cons, Entry.readLines_blank blank, rest]
  | command _ ih =>
    obtain ⟨first, plain⟩ := forall_mem_cons.mp plain
    obtain ⟨oneLine, ink, read⟩ := first.reads
    obtain ⟨others, rest⟩ := ih plain
    refine ⟨forall_mem_cons.mpr ⟨oneLine, others⟩, fun number => ?_⟩
    rw [map_cons, Entry.readLines_of_ofLine ink read, rest]
    rfl

theorem documentOf_entries (cs : List Command) :
    Document.DocumentOf cs (Entry.document (cs.map Command.entry)) := by
  refine ⟨_, _, rfl, rfl, ?_, .inl rfl, by simp [Record.names]⟩
  rw [map_map, forall₂_map_right_iff]
  exact forall₂_same.mpr fun c _ => c.itemOf_entry

end Script

/-- Commands that are written down one a line, with blank lines anywhere, or as the items of a
document are the commands that are read. -/
theorem script_round_trip {wording : Document.Wording} {cs : List Command}
    (plain : ∀ c ∈ cs, c.Plain) :
    (∀ lines, Script.Written cs lines → Script.ofText wording ("\n".intercalate lines) = .ok cs) ∧
    ∀ document, Document.DocumentOf cs document → Script.ofDocument wording document = .ok cs := by
  have documents : ∀ document, Document.DocumentOf cs document →
      Script.ofDocument wording document = .ok cs := by
    intro document documentOf
    rw [Script.ofDocument, documentOf.read plain]
    rfl
  refine ⟨fun lines written => ?_, documents⟩
  obtain ⟨oneLine, read⟩ := written.readLines plain
  have entries : Entry.read ("\n".intercalate lines) = .ok (cs.map Command.entry) := by
    rw [Entry.read, String.toList_intercalate, show "\n".toList = ['\n'] from rfl,
      Entry.readLines_joined oneLine, read]
  rw [Script.ofText, entries]
  exact documents _ (Script.documentOf_entries cs)

def billing : List Command :=
  [{ name := "", target := "rates | 2024", executable := false },
   { name := "assign", target := "ok", value := "paid || waived" },
   { name := "log", target := "", value := "info" }, { name := "end_2" }]

def billing.lines : List String := "" :: billing.map Command.line ++ ["\t ", ""]

def billing.document : Value :=
  .map [("name", .text "billing"), ("commands", .list
    [.map [("comment", .text "rates | 2024")],
      .map [("value", .text "paid || waived"), ("command", .text "assign"), ("target", .text "ok")],
      .map [("type", .text "command"), ("command", .text "log"), ("target", .text ""),
      ("value", .text "info")],
      .map [("command", .text "end_2")]])]

theorem script_round_trip_billing :
    Script.ofText .standard
      "\n# rates | 2024\nassign | ok | paid || waived\nlog |  | info\nend_2\n\t \n" = .ok billing ∧
      Script.ofDocument .standard billing.document = .ok billing := by
  have plain : ∀ c ∈ billing, c.Plain := by decide +kernel
  have written : Script.Written billing billing.lines :=
    .blank rfl (by decide)
      (.command
      (.command (.command (.command (.blank rfl (by decide) (.blank rfl (by decide) .nil))))))
  have text : "\n".intercalate billing.lines =
      "\n# rates | 2024\nassign | ok | paid || waived\nlog |  | info\nend_2\n\t \n" := by
      decide +kernel
  have documentOf : Document.DocumentOf billing billing.document := by
    refine ⟨_, _, rfl, rfl, ?_, .inr ⟨_, rfl⟩, by decide⟩
    refine .cons ⟨_, rfl, rfl, .inl rfl, by decide⟩
      (.cons ⟨_, rfl, rfl, .inl rfl, .inl rfl, .inl rfl, by decide⟩ ?_)
    exact .cons ⟨_, rfl, rfl, .inl rfl, .inl rfl, .inr rfl, by decide⟩
      (.cons ⟨_, rfl, rfl, .inr ⟨rfl, rfl⟩, .inr ⟨rfl, rfl⟩, .inl rfl, by decide⟩ .nil)
  obtain ⟨texts, documents⟩ := script_round_trip plain
  exact ⟨text ▸ texts _ written, documents _ documentOf⟩

end Runbook
