import Runbook.Text.Digit
import Runbook.Xml.Name

namespace Runbook.Xml

inductive Problem
  | invalidToken
  | unclosedToken
  | unclosedSection
  | syntaxError
  | noElement
  | mismatchedTag
  | duplicateAttribute
  | undefinedEntity
  | recursiveEntity
  | asynchronousEntity
  | externalEntity
  | binaryEntity
  | parameterEntity
  | badCharacter
  | badDeclaration
  | misplacedDeclaration
  | junk
  | unboundPrefix
  | undeclaredPrefix
  | reservedXml
  | reservedXmlns
  | reservedUri
  deriving DecidableEq, Repr

def Problem.text : Problem → String
  | invalidToken => "not well-formed (invalid token)"
  | unclosedToken => "unclosed token"
  | unclosedSection => "unclosed CDATA section"
  | syntaxError => "syntax error"
  | noElement => "no element found"
  | mismatchedTag => "mismatched tag"
  | duplicateAttribute => "duplicate attribute"
  | undefinedEntity => "undefined entity"
  | recursiveEntity => "recursive entity reference"
  | asynchronousEntity => "asynchronous entity"
  | externalEntity => "reference to external entity in attribute"
  | binaryEntity => "reference to binary entity"
  | parameterEntity => "illegal parameter entity reference"
  | badCharacter => "reference to invalid character number"
  | badDeclaration => "XML declaration not well-formed"
  | misplacedDeclaration => "XML or text declaration not at start of entity"
  | junk => "junk after document element"
  | unboundPrefix => "unbound prefix"
  | undeclaredPrefix => "must not undeclare prefix"
  | reservedXml => "reserved prefix (xml) must not be undeclared or bound to another namespace name"
  | reservedXmlns => "reserved prefix (xmlns) must not be declared or undeclared"
  | reservedUri => "prefix must not be bound to one of the reserved namespace names"

/-- A problem and the text from its place on. -/
structure Failure where
  problem : Problem
  rest : List Char
  deriving DecidableEq, Repr

def invalid {α : Type} (rest : List Char) : Except Failure α := .error ⟨.invalidToken, rest⟩

def unclosed {α : Type} (start : List Char) : Except Failure α := .error ⟨.unclosedToken, start⟩

/-- Refuses a text by its next character; if there is none, its mark is not closed. -/
def refuse {α : Type} (start : List Char) : List Char → Except Failure α
  | [] => unclosed start
  | rest => invalid rest

def skipSpace (cs : List Char) : List Char := cs.dropWhile isSpace

def name (start : List Char) : List Char → Except Failure (List Char × List Char)
  | [] => unclosed start
  | c :: rest => if isNameStart c then .ok ((c :: rest).span isNameChar) else invalid (c :: rest)

def qualifiedName (start cs : List Char) : Except Failure (List Char × List Char) := do
  let (first, rest) ← name start cs
  match rest with
  | ':' :: more =>
    let (second, rest) ← name start more
    match rest with
    | ':' :: _ => invalid rest
    | _ => return (first ++ ':' :: second, rest)
  | _ => return (first, rest)

/-- A part of the text of a value: a character, a character by its number, or an entity. -/
inductive Piece
  | plain (c : Char)
  | code (n : Nat) (place : List Char)
  | entity (name : List Char)
  deriving DecidableEq, Repr

def decimalValue? (c : Char) : Option Nat := if c.isDigit then some (c.toNat - 48) else none

def digitsIn (base : Nat) (digit? : Char → Option Nat) (cs : List Char) : Nat :=
  cs.foldl (fun total c => total * base + (digit? c).getD 0) 0

def numbered (token start : List Char) (base : Nat) (digit? : Char → Option Nat) (cs : List Char) :
    Except Failure (Piece × List Char) :=
  match cs.span (fun c => (digit? c).isSome) with
  | ([], rest) => refuse token rest
  | (digits, ';' :: rest) => .ok (.code (digitsIn base digit? digits) start, rest)
  | (_, rest) => refuse token rest

def reference (token start : List Char) : List Char → Except Failure (Piece × List Char)
  | '#' :: 'x' :: rest => numbered token start 16 Text.hexValue? rest
  | '#' :: rest => numbered token start 10 decimalValue? rest
  | cs => do
    let (entity, rest) ← name token cs
    match rest with
    | ';' :: rest => return (.entity entity, rest)
    | rest => refuse token rest

def numberedChar? (n : Nat) : Option Char :=
  if n < 0x110000 ∧ ¬ (0xd800 ≤ n ∧ n < 0xe000) ∧ isChar (Char.ofNat n) then some (Char.ofNat n)
  else none

def predefined? (entity : List Char) : Option Char :=
  match String.ofList entity with
  | "lt" => some '<'
  | "gt" => some '>'
  | "amp" => some '&'
  | "quot" => some '"'
  | "apos" => some '\''
  | _ => none

structure Attribute where
  place : List Char
  name : List Char
  value : List Piece
  deriving DecidableEq, Repr

structure StartTag where
  name : List Char
  attributes : List Attribute
  isEmpty : Bool
  deriving DecidableEq, Repr

def quotedValue (start : List Char) (quote : Char) :
    Nat → List Char → Except Failure (List Piece × List Char)
  | 0, rest => refuse start rest
  | _ + 1, [] => unclosed start
  | fuel + 1, c :: rest =>
    if c = quote then .ok ([], rest)
    else if c = '&' then do
      let (piece, after) ← reference start (c :: rest) rest
      let (pieces, after) ← quotedValue start quote fuel after
      return (piece :: pieces, after)
    else if c = '<' ∨ ¬ isChar c then invalid (c :: rest)
    else do
      let (pieces, after) ← quotedValue start quote fuel rest
      return (.plain c :: pieces, after)

def readAttribute (start cs : List Char) : Except Failure (Attribute × List Char) := do
  let (name, rest) ← qualifiedName start cs
  match skipSpace rest with
  | '=' :: rest =>
    match skipSpace rest with
    | c :: rest =>
      if c = '"' ∨ c = '\'' then
        let (value, rest) ← quotedValue start c (rest.length + 1) rest
        return (⟨cs, name, value⟩, rest)
      else invalid (c :: rest)
    | [] => unclosed start
  | rest => refuse start rest

def tagTail (start : List Char) :
    Nat → List Char → Except Failure ((List Attribute × Bool) × List Char)
  | 0, rest => refuse start rest
  | _ + 1, '>' :: rest => .ok (([], false), rest)
  | _ + 1, '/' :: '>' :: rest => .ok (([], true), rest)
  | _ + 1, '/' :: rest => refuse start rest
  | fuel + 1, c :: rest =>
    if isSpace c then
      match skipSpace rest with
      | '>' :: rest => .ok (([], false), rest)
      | '/' :: '>' :: rest => .ok (([], true), rest)
      | '/' :: rest => refuse start rest
      | inside => do
        let (a, rest) ← readAttribute start inside
        let ((others, isEmpty), rest) ← tagTail start fuel rest
        return ((a :: others, isEmpty), rest)
    else invalid (c :: rest)
  | _ + 1, [] => unclosed start

def startTag (start cs : List Char) : Except Failure (StartTag × List Char) := do
  let (name, rest) ← qualifiedName start cs
  let ((attributes, isEmpty), rest) ← tagTail start (rest.length + 1) rest
  return (⟨name, attributes, isEmpty⟩, rest)

def isEndNameChar (c : Char) : Bool := isNameChar c || c = ':'

def endTag (start cs : List Char) : Except Failure (List Char × List Char) := do
  let (first, rest) ← name start cs
  let (more, rest) := rest.span isEndNameChar
  match skipSpace rest with
  | '>' :: rest => return (first ++ more, rest)
  | rest => refuse start rest

def commentBody (start : List Char) : List Char → Except Failure (List Char)
  | [] => unclosed start
  | '-' :: '-' :: '>' :: rest => .ok rest
  | '-' :: '-' :: rest => refuse start rest
  | c :: rest => if isChar c then commentBody start rest else invalid (c :: rest)

def comment (start : List Char) : List Char → Except Failure (List Char)
  | '-' :: rest => commentBody start rest
  | rest => refuse start rest

def instructionBody (start : List Char) : List Char → Except Failure (List Char)
  | [] => unclosed start
  | '?' :: '>' :: rest => .ok rest
  | c :: rest => if isChar c then instructionBody start rest else invalid (c :: rest)

/-- An instruction after its question mark: whether it is a declaration of the document, its text
and the rest. -/
def instruction (start cs : List Char) : Except Failure (Bool × List Char) := do
  let (target, rest) ← name start cs
  let isDeclaration := target = "xml".toList
  if target.map Char.toLower = "xml".toList ∧ ¬ isDeclaration ∧
    rest.head?.any (fun c => isSpace c || c = '?') then
    invalid rest
  match rest with
  | '?' :: '>' :: rest => return (isDeclaration, rest)
  | '?' :: rest => refuse start rest
  | c :: rest =>
    if isSpace c then return (isDeclaration, ← instructionBody start rest) else invalid (c :: rest)
  | [] => unclosed start

def sectionMark : List Char := "CDATA[".toList

def expect (start : List Char) : List Char → List Char → Except Failure (List Char)
  | [], rest => .ok rest
  | w :: word, c :: rest => if w = c then expect start word rest else invalid (c :: rest)
  | _ :: _, [] => unclosed start

def sectionBody : List Char → Except Failure (List Char)
  | [] => .error ⟨.unclosedSection, []⟩
  | [']'] => .error ⟨.unclosedSection, [']']⟩
  | [']', ']'] => .error ⟨.unclosedSection, [']', ']']⟩
  | ']' :: ']' :: '>' :: rest => .ok rest
  | c :: rest => if isChar c then sectionBody rest else invalid (c :: rest)

end Runbook.Xml
