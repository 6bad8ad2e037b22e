import Runbook.Number.Literal
import Runbook.Pattern.Regex
import Runbook.Text.Quoted

/-! Reading patterns. The text is taken by tokens, each a character or a backslash with the one
behind it. -/

namespace Runbook.Pattern

/-- What is left of the text, and what is known of its groups and flags. The groups that a
look-behind may refer to are those before `behind`; groups that have to come yet are `awaited`. -/
structure Source where
  letters : String → Option Char
  total : Nat
  rest : List Char
  flags : Flags
  unicode : Bool := false
  count : Nat := 0
  names : List (String × Nat) := []
  closed : List (Nat × Nat × Nat) := []
  behind : Option Nat := none
  awaited : List (Nat × Nat) := []

abbrev Reading := StateT Source (Except Failure)

def place : Reading Nat := do return (← get).total - (← get).rest.length

def failAt {α : Type} (place : Nat) (message : String) : Reading α :=
  throw (.malformed (message ++ " at position " ++ toString place))

/-- Fails at a place so many characters back. -/
def fail {α : Type} (message : String) (back : Nat := 0) : Reading α := do
  failAt ((← place) - back) message

def next : Reading (List Char) := do
  match (← get).rest with
  | '\\' :: c :: _ => return ['\\', c]
  | c :: _ => return [c]
  | [] => return []

def checkEnd : Reading Unit := do
  if (← get).rest == ['\\'] then failAt ((← get).total - 1) "bad escape (end of pattern)"

def take : Reading (List Char) := do
  let token ← next
  modify fun s => { s with rest := s.rest.drop token.length }
  checkEnd
  return token

def accept (c : Char) : Reading Bool := do
  if (← next) == [c] then
    let _ ← take
    return true
  else return false

def takeMost (p : Char → Bool) : Nat → Reading (List Char)
  | 0 => return []
  | n + 1 => do
    match ← next with
    | [c] =>
      if p c then
        let _ ← take
        return c :: (← takeMost p n)
      else return []
    | _ => return []

def takeAll (p : Char → Bool) : Reading (List Char) := do takeMost p (← get).rest.length

def takeName (close : Char) (what : String) : Reading String := do
  let found ← go (← get).rest.length []
  return String.ofList found
where
  go : Nat → List Char → Reading (List Char)
    | 0, read =>
      if read.isEmpty then fail ("missing " ++ what)
      else fail ("missing " ++ close.toString ++ ", unterminated name") read.length
    | fuel + 1, read => do
      let token ← take
      if token == [close] then
        if read.isEmpty then fail ("missing " ++ what) 1 else return read
      else if token.isEmpty then go 0 read
      else go fuel (read ++ token)

/-- What has been read of a sequence: its last piece decides whether a repetition may follow. -/
inductive Piece
  | atom (body : Regex)
  | anchor (place : Anchor)
  | repeated (body : Regex)

def Piece.body : Piece → Regex
  | .atom body | .repeated body => body
  | .anchor place => .anchor place

def ofPieces : List Piece → Regex
  | [] => .empty
  | [piece] => piece.body
  | piece :: earlier => .seq (ofPieces earlier) piece.body

def isOctal (c : Char) : Bool := '0' ≤ c && c ≤ '7'

def octalNumber (cs : List Char) : Nat := cs.foldl (fun n c => n * 8 + (c.toNat - 48)) 0

def hexNumber (cs : List Char) : Nat := cs.foldl (fun n c => n * 16 + (Text.hexValue? c).getD 0) 0

def controlEscape? : Char → Option Char
  | 'a' => some '\x07'
  | 'b' => some '\x08'
  | 'f' => some '\x0c'
  | 'n' => some '\n'
  | 'r' => some '\r'
  | 't' => some '\t'
  | 'v' => some '\x0b'
  | '\\' => some '\\'
  | _ => none

def categoryEscape? : Char → Option Item
  | 'd' => some (.category .digit false)
  | 'D' => some (.category .digit true)
  | 's' => some (.category .blank false)
  | 'S' => some (.category .blank true)
  | 'w' => some (.category .word false)
  | 'W' => some (.category .word true)
  | _ => none

def anchorEscape? : Char → Option Anchor
  | 'A' => some .textStart
  | 'Z' => some .textEnd
  | 'b' => some .boundary
  | 'B' => some .noBoundary
  | _ => none

def badEscape {α : Type} (letters : List Char) : Reading α :=
  fail ("bad escape \\" ++ String.ofList letters) (letters.length + 1)

def hexEscape (width : Nat) (letter : Char) : Reading Nat := do
  let digits ← takeMost (fun c => (Text.hexValue? c).isSome) width
  if digits.length ≠ width then
    fail ("incomplete escape \\" ++ String.ofList (letter :: digits)) (2 + digits.length)
  else if 0x10ffff < hexNumber digits then badEscape (letter :: digits)
  else return hexNumber digits

def namedEscape : Reading Nat := do
  if !(← accept '\x7b') then fail "missing \x7b"
  let name ← takeName '\x7d' "character name"
  match (← get).letters name with
  | some c => return c.toNat
  | none => fail ("undefined character name " ++ Text.quote name) (name.length + 4)

/-- An escape that reads the same inside and outside of a set. -/
def codeEscape (letter : Char) : Reading Nat :=
  if letter == 'x' then hexEscape 2 letter
  else if letter == 'u' then hexEscape 4 letter
  else if letter == 'U' then hexEscape 8 letter
  else if letter == 'N' then namedEscape
  else if letter.isAlphanum then badEscape [letter]
  else return letter.toNat

def octalEscape (digits : List Char) : Reading Nat := do
  if octalNumber digits ≤ 0o377 then return octalNumber digits
  else
    fail ("octal escape value \\" ++ String.ofList digits ++ " outside of range 0-0o377")
      (1 + digits.length)

def setEscape (letter : Char) : Reading Item := do
  match controlEscape? letter, categoryEscape? letter with
  | some c, _ => return .code c.toNat
  | none, some item => return item
  | none, none =>
    if isOctal letter then return .code (← octalEscape (letter :: (← takeMost isOctal 2)))
    else return .code (← codeEscape letter)

/-- A look-behind may not refer to groups that it has inside. -/
def checkBehind (number : Nat) : Reading Unit := do
  match (← get).behind with
  | none => return
  | some first =>
    if ((← get).closed.lookup number).isNone then fail "cannot refer to an open group"
    if first ≤ number then
      fail "cannot refer to group defined in the same lookbehind subpattern"

def referTo (number size : Nat) : Reading Regex := do
  match (← get).closed.lookup number with
  | none => fail "cannot refer to an open group" size
  | some (least, most) =>
    checkBehind number
    return .reference number least most

/-- An escape that begins with a digit other than zero: three octal digits name a character, any
other number a group. -/
def numberEscape (digit : Char) : Reading Regex := do
  let more ← takeMost Char.isDigit 1
  let third ←
    if isOctal digit && more.any isOctal then takeMost isOctal 1 else pure []
  if !third.isEmpty then return .code (← octalEscape (digit :: more ++ third))
  let number := Text.digitsValue (digit :: more)
  if number ≤ (← get).count then referTo number (2 + more.length)
  else fail ("invalid group reference " ++ toString number) (1 + more.length)

def escape (letter : Char) : Reading Piece := do
  match anchorEscape? letter, categoryEscape? letter, controlEscape? letter with
  | some place, _, _ => return .anchor place
  | none, some item, _ => return .atom (.set false [item])
  | none, none, some c => return .atom (.code c.toNat)
  | none, none, none =>
    if letter == '0' then return .atom (.code (← octalEscape ('0' :: (← takeMost isOctal 2))))
    else if letter.isDigit then return .atom (← numberEscape letter)
    else return .atom (.code (← codeEscape letter))

def setMember (opened : Nat) (token : List Char) : Reading Item :=
  match token with
  | ['\\', letter] => setEscape letter
  | [c] => return .code c.toNat
  | _ => failAt opened "unterminated character set"

def rangeOf (first last : List Char) (low high : Item) : Reading Item :=
  let bad : Reading Item :=
    fail ("bad character range " ++ String.ofList first ++ "-" ++ String.ofList last)
      (first.length + 1 + last.length)
  match low, high with
  | .code low, .code high => if high < low then bad else return .range low high
  | _, _ => bad

/-- The items of a set up to its closing bracket, which closes it only after a first item. -/
def setItems (opened : Nat) : Nat → List Item → Reading (List Item)
  | 0, _ => failAt opened "unterminated character set"
  | fuel + 1, items => do
    let first ← take
    if first == [']'] && !items.isEmpty then return items
    let item ← setMember opened first
    if ← accept '-' then
      let last ← take
      if last == [']'] then return .code '-'.toNat :: item :: items
      let range ← rangeOf first last item (← setMember opened last)
      setItems opened fuel (range :: items)
    else setItems opened fuel (item :: items)

def countLimit : Nat := 4294967295

def bound (digits : List Char) : Reading (Option Nat) :=
  if digits.isEmpty then return none
  else
    match Number.natural digits with
    | .ok n =>
      if n < countLimit then return some n
      else throw (.troubled ⟨.overflow, "the repetition number is too large"⟩)
    | .error e => throw (.troubled ⟨.value, e.message⟩)

/-- The bounds behind an opening brace; none if it stands for itself. -/
def braces : Reading (Option (Nat × Option Nat)) := do
  let before ← get
  let low ← takeAll Char.isDigit
  let comma ← accept ','
  let high ← if comma then takeAll Char.isDigit else pure low
  if before.rest.head? == some '\x7d' || !(← accept '\x7d') then
    set before
    return none
  let low ← bound low
  let high ← bound high
  if high.any (· < low.getD 0) then
    failAt (before.total - before.rest.length) "min repeat greater than max repeat"
  return some (low.getD 0, high)

def mood : Reading Mood := do
  if ← accept '?' then return .lazy
  if ← accept '+' then return .possessive
  return .greedy

def repeatLast (sign least : Nat) (most : Option Nat) : List Piece → Reading (List Piece)
  | .atom body :: earlier => do return .repeated (.rep least most (← mood) body) :: earlier
  | .repeated _ :: _ => failAt sign "multiple repeat"
  | _ => failAt sign "nothing to repeat"

def repetition (sign : Char) (pieces : List Piece) : Reading (List Piece) := do
  let here := (← place) - 1
  if sign == '*' then repeatLast here 0 none pieces
  else if sign == '+' then repeatLast here 1 none pieces
  else if sign == '?' then repeatLast here 0 (some 1) pieces
  else
    match ← braces with
    | none => return .atom (.code sign.toNat) :: pieces
    | some (least, most) => repeatLast here least most pieces

def isNameStart (c : Char) : Bool := c == '_' || (Text.isWord c && !Text.isDigit c)

def isName (name : String) : Bool :=
  name.toList.head?.any isNameStart && name.toList.all Text.isWord

def checkName (name : String) : Reading Unit := do
  if !isName name then fail ("bad character in group name " ++ Text.quote name) (name.length + 1)

def namedGroup (name : String) : Reading Nat := do
  match (← get).names.lookup name with
  | some number => return number
  | none => fail ("unknown group name " ++ Text.quote name) (name.length + 1)

def conditionGroup : Reading Nat := do
  let name ← takeName ')' "group name"
  let number ←
    if isName name then namedGroup name
    else
      match Number.readInt? name.toList with
      | some (.ofNat 0) => fail "bad group number" (name.length + 1)
      | some (.ofNat number) =>
        let here := (← place) - name.length - 1
        modify fun s => { s with awaited := s.awaited ++ [(number, here)] }
        pure number
      | _ => fail ("bad character in group name " ++ Text.quote name) (name.length + 1)
  checkBehind number
  return number

def openGroup (name : Option String) : Reading Nat := do
  let number := (← get).count + 1
  match name with
  | none => modify fun s => { s with count := number }
  | some name =>
    match (← get).names.lookup name with
    | some earlier =>
      fail ("redefinition of group name " ++ Text.quote name ++ " as group " ++ toString number ++
        "; was group " ++ toString earlier) (name.length + 1)
    | none => modify fun s => { s with count := number, names := (name, number) :: s.names }
  return number

def flagLetters : List Char := ['i', 'L', 'm', 's', 'x', 'a', 't', 'u']

def isFlag (token : List Char) : Bool := token.length = 1 && token.all flagLetters.contains

def wrongFlag {α : Type} (token : List Char) (missing : String) : Reading α :=
  if token.isEmpty then fail missing
  else if token.all fun c => isNameStart c && c != '_' then fail "unknown flag" token.length
  else fail missing token.length

/-- The letters of flags up to one of the signs that end them; the first is read already. -/
def flagsUpTo (ends : List Char) (missing : String) (check : List Char → Reading Unit) :
    Nat → List Char → List Char → Reading (List Char × List Char)
  | 0, _, _ => fail missing
  | fuel + 1, read, token => do
    let read := token ++ read
    check read
    let token ← take
    if token.length = 1 && token.all ends.contains then return (read, token)
    else if isFlag token then flagsUpTo ends missing check fuel read token
    else wrongFlag token missing

def checkOn (read : List Char) : Reading Unit := do
  if read.head? == some 'L' then fail "bad inline flags: cannot use 'L' flag with a str pattern"
  if read.contains 'a' && read.contains 'u' then
    fail "bad inline flags: flags 'a', 'u' and 'L' are incompatible"

def checkOff (read : List Char) : Reading Unit := do
  if read.any ['a', 'L', 'u'].contains then
    fail "bad inline flags: cannot turn off flags 'a', 'u' and 'L'"

/-- Flags inside of a text: those turned on and off in a group, or none if they are for all of
it. -/
def inlineFlags (token : List Char) : Reading (Option (List Char × List Char)) := do
  let fuel := (← get).rest.length
  let (on, sign) ←
    if token == ['-'] then pure ([], ['-'])
    else flagsUpTo [')', '-', ':'] "missing -, : or )" checkOn (fuel + 1) [] token
  if sign == [')'] then
    modify fun s =>
      { s with
        flags := s.flags.change (on.filter (· != 'u')) []
        unicode := s.unicode || on.contains 'u' }
    return none
  if on.contains 't' then fail "bad inline flags: cannot turn on global flag" 1
  let off ←
    if sign == ['-'] then
      let token ← take
      if isFlag token then do
        let (off, _) ← flagsUpTo [':'] "missing :" checkOff (fuel + 1) [] token
        pure off
      else wrongFlag token "missing flag"
    else pure []
  if off.contains 't' then fail "bad inline flags: cannot turn off global flag" 1
  if off.any on.contains then fail "bad inline flags: flag turned on and off" 1
  return some (on, off)

inductive Opening
  | group (name : Option String)
  | scoped (on off : List Char)
  | atomic
  | look (behind negated : Bool)
  | choice (number : Nat)
  | whole (piece : Regex)
  | nothing
  | global

def comment (start : Nat) : Nat → Reading Unit
  | 0 => failAt start "missing ), unterminated comment"
  | fuel + 1 => do
    let token ← take
    if token.isEmpty then comment start 0
    else if token != [')'] then comment start fuel

def unknownExtension {α : Type} (before : String) (token : List Char) : Reading α :=
  if token.isEmpty then fail "unexpected end of pattern"
  else
    fail ("unknown extension ?" ++ before ++ String.ofList token) (before.length + token.length + 1)

def opening (start : Nat) : Reading Opening := do
  if !(← accept '?') then return .group none
  let token ← take
  match token with
  | ['P'] =>
    if ← accept '<' then
      let name ← takeName '>' "group name"
      checkName name
      return .group (some name)
    else if ← accept '=' then
      let name ← takeName ')' "group name"
      checkName name
      return .whole (← referTo (← namedGroup name) (name.length + 1))
    else unknownExtension "P" (← take)
  | [':'] => return .scoped [] []
  | ['#'] =>
    comment start ((← get).rest.length + 1)
    return .nothing
  | ['='] => return .look false false
  | ['!'] => return .look false true
  | ['<'] =>
    match ← take with
    | ['='] => return .look true false
    | ['!'] => return .look true true
    | token => unknownExtension "<" token
  | ['('] => return .choice (← conditionGroup)
  | ['>'] => return .atomic
  | token =>
    if isFlag token || token == ['-'] then
      match ← inlineFlags token with
      | some (on, off) => return .scoped on off
      | none => return .global
    else unknownExtension "" token

def closing (start : Nat) : Reading Unit := do
  if !(← accept ')') then failAt start "missing ), unterminated subpattern"

def skipLine : Nat → Reading Unit
  | 0 => return
  | fuel + 1 => do
    let token ← take
    if !token.isEmpty && token != ['\n'] then skipLine fuel

def isSpace (c : Char) : Bool := c == ' ' || ('\t' ≤ c && c ≤ '\r')

mutual

/-- Alternatives up to a closing parenthesis or the end; `first` ones begin the text. -/
def alternatives : Nat → Bool → Bool → Bool → Reading Regex
  | 0, _, _, _ => fail "unexpected end of pattern"
  | fuel + 1, verbose, outermost, first => do
    let one ← sequence fuel verbose first []
    if ← accept '|' then
      let own := (← get).flags.verbose
      return .alt one (← alternatives fuel (if outermost then own else verbose) outermost false)
    else return one

/-- The pieces up to a bar, a closing parenthesis or the end; those read are given, last first. -/
def sequence : Nat → Bool → Bool → List Piece → Reading Regex
  | 0, _, _, _ => fail "unexpected end of pattern"
  | fuel + 1, verbose, first, pieces => do
    let token ← next
    if token.isEmpty || token == ['|'] || token == [')'] then return ofPieces pieces
    let _ ← take
    let further (piece : Piece) := sequence fuel verbose first (piece :: pieces)
    match token with
    | ['\\', letter] => further (← escape letter)
    | ['['] =>
      let opened := (← place) - 1
      let negated ← accept '^'
      further (.atom (.set negated (← setItems opened ((← get).rest.length + 1) [])))
    | ['.'] => further (.atom .any)
    | ['^'] => further (.anchor .lineStart)
    | ['$'] => further (.anchor .lineEnd)
    | ['('] =>
      let start := (← place) - 1
      match ← opening start with
      | .nothing => sequence fuel verbose first pieces
      | .global =>
        if !first || !pieces.isEmpty then
          failAt start "global flags not at the start of the expression"
        sequence fuel (← get).flags.verbose first pieces
      | .whole piece => further (.atom piece)
      | .group name =>
        let number ← openGroup name
        let body ← alternatives fuel verbose false false
        closing start
        modify fun s => { s with closed := (number, body.width) :: s.closed }
        further (.atom (.group number body))
      | .scoped on off =>
        let body ← alternatives fuel ((verbose || on.contains 'x') && !off.contains 'x') false false
        closing start
        further (.atom (.scoped on off body))
      | .atomic =>
        let body ← alternatives fuel verbose false false
        closing start
        further (.atom (.atomic body))
      | .look behind negated =>
        let outer := (← get).behind
        if behind then modify fun s => { s with behind := outer.or (some (s.count + 1)) }
        let body ← alternatives fuel verbose false false
        modify fun s => { s with behind := outer }
        closing start
        further (.atom (.look behind negated body))
      | .choice number =>
        let met ← sequence fuel verbose false []
        let unmet ← if ← accept '|' then sequence fuel verbose false [] else pure .empty
        if (← next) == ['|'] then fail "conditional backref with more than two branches"
        closing start
        further (.atom (.choice number met unmet))
    | [c] =>
      if verbose && isSpace c then sequence fuel verbose first pieces
      else if verbose && c == '#' then
        skipLine (← get).rest.length
        sequence fuel verbose first pieces
      else if ['*', '+', '?', '\x7b'].contains c then
        sequence fuel verbose first (← repetition c pieces)
      else further (.atom (.code c.toNat))
    | _ => return ofPieces pieces

end

/-- What is wrong in a pattern that could be read. -/
def Regex.problem? (template : Bool) : Regex → Option String
  | .empty | .any | .set _ _ | .anchor _ | .reference _ _ _ => none
  | .seq first second | .alt first second | .choice _ first second =>
    (first.problem? template).or (second.problem? template)
  | .rep _ _ mood body =>
    if template then
      some ("internal: unsupported template operator " ++
        match mood with
        | .greedy => "MAX_REPEAT"
        | .lazy => "MIN_REPEAT"
        | .possessive => "POSSESSIVE_REPEAT")
    else body.problem? template
  | .group _ body | .atomic body | .scoped _ _ body => body.problem? template
  | .look behind _ body =>
    if behind && countLimit < body.width.1 then some "looks too much behind"
    else if behind && body.width.1 ≠ body.width.2 then
      some "look-behind requires fixed-width pattern"
    else body.problem? template

def whole : Reading (Regex × Flags) := do
  checkEnd
  let start ← get
  let body ← alternatives (2 * start.total + 2) start.flags.verbose true true
  let s ← get
  if s.flags.ascii && s.unicode then
    throw (.troubled ⟨.value, "ASCII and UNICODE flags are incompatible"⟩)
  if !s.rest.isEmpty then fail "unbalanced parenthesis"
  match s.awaited.find? fun (number, _) => s.count < number with
  | some (number, here) => failAt here ("invalid group reference " ++ toString number)
  | none =>
    match body.problem? s.flags.template with
    | some problem => throw (.malformed problem)
    | none => return (body, s.flags)

def readText (letters : String → Option Char) (text : String) (flags : Flags) :
    Except Failure (Regex × Flags) :=
  whole.run' { letters := letters, total := text.length, rest := text.toList, flags := flags }

end Runbook.Pattern
