import Runbook.Record
import Runbook.Xml.Prolog

/-!
Reading a document as its start tags, in order, with names and attributes in their namespaces.
-/

namespace Runbook.Xml

structure Tag where
  name : String
  attributes : Record String
  deriving DecidableEq, Repr

/-- The pieces of an entity's text inside a value; none if the text is not well-formed there. -/
def pieces? : Nat → List Char → Option (List Piece)
  | 0, _ => none
  | _ + 1, [] => some []
  | fuel + 1, '&' :: rest =>
    match reference rest ('&' :: rest) rest with
    | .ok (piece, after) => (pieces? fuel after).map (piece :: ·)
    | .error _ => none
  | fuel + 1, c :: rest =>
    if c = '<' ∨ ¬ isChar c then none else (pieces? fuel rest).map (.plain c :: ·)

/-- The text of a value in the tag at `place`. Space becomes blanks; `active` are the entities being
put in. -/
def valueText (types : Types) (place : List Char) :
    Nat → List (List Char) → List Piece → Except Failure (List Char)
  | 0, _, _ => fail .recursiveEntity place
  | _ + 1, _, [] => .ok []
  | fuel + 1, active, .plain c :: rest =>
    (valueText types place fuel active rest).map ((if isSpace c then ' ' else c) :: ·)
  | fuel + 1, active, .code n at' :: rest =>
    match numberedChar? n with
    | some c => (valueText types place fuel active rest).map (c :: ·)
    | none => fail .badCharacter (if active.isEmpty then at' else place)
  | fuel + 1, active, .entity e :: rest =>
    match predefined? e with
    | some c => (valueText types place fuel active rest).map (c :: ·)
    | none =>
      match types.entity? e with
      | none =>
        if types.isOpen then valueText types place fuel active rest else fail .undefinedEntity place
      | some found =>
        if active.contains e then fail .recursiveEntity place
        else if found.isBinary then fail .binaryEntity place
        else
          match found.text with
          | none => fail .externalEntity place
          | some text =>
            match pieces? (text.length + 1) text with
            | none => invalid place
            | some inner => do
              let before ← valueText types place fuel (e :: active) inner
              return before ++ (← valueText types place fuel active rest)

/-- The names of namespaces by the leads that stand for them, innermost first; the empty lead is
that of names without one. -/
abbrev Bindings := List (List Char × List Char)

def xmlUri : List Char := "http://www.w3.org/XML/1998/namespace".toList

def xmlnsUri : List Char := "http://www.w3.org/2000/xmlns/".toList

def xmlnsLead : List Char := "xmlns".toList

def startBindings : Bindings := [("xml".toList, xmlUri)]

def splitLead (name : List Char) : Option (List Char) × List Char :=
  match name.span (· ≠ ':') with
  | (lead, ':' :: rest) => (some lead, rest)
  | _ => (none, name)

def inNamespace (uri name : List Char) : String :=
  "\x7b" ++ String.ofList uri ++ "\x7d" ++ String.ofList name

/-- Binds a lead, the empty one for names without. -/
def bind (place lead uri : List Char) : Except Failure (List Char × List Char) :=
  if uri.isEmpty ∧ ¬ lead.isEmpty then fail .undeclaredPrefix place
  else if lead = xmlnsLead then fail .reservedXmlns place
  else if uri.contains '\x7d' then fail .syntaxError place
  else if lead = "xml".toList then
    if uri = xmlUri then .ok (lead, uri) else fail .reservedXml place
  else if uri = xmlUri ∨ uri = xmlnsUri then fail .reservedUri place
  else .ok (lead, uri)

/-- An attribute with its value; either it binds a lead or it is kept. -/
inductive Stored
  | binding (lead uri : List Char)
  | kept (lead : Option (List Char)) (name value : List Char)
  deriving DecidableEq, Repr

def store (types : Types) (fuel : Nat) (place : List Char) (a : Attribute) :
    Except Failure Stored := do
  let value ← valueText types place fuel [] a.value
  match splitLead a.name with
  | (none, name) =>
    if name = xmlnsLead then
      let (lead, uri) ← bind place [] value
      return .binding lead uri
    else return .kept none name value
  | (some lead, name) =>
    if lead = xmlnsLead then
      let (lead, uri) ← bind place name value
      return .binding lead uri
    else return .kept (some lead) name value

def storeAll (types : Types) (fuel : Nat) (place : List Char) :
    List (List Char) → List Attribute → Except Failure (List Stored)
  | _, [] => .ok []
  | seen, a :: rest => do
    if seen.contains a.name then fail .duplicateAttribute a.place
    let stored ← store types fuel place a
    return stored :: (← storeAll types fuel place (a.name :: seen) rest)

def newBindings : List Stored → Bindings
  | [] => []
  | .binding lead uri :: rest => newBindings rest ++ [(lead, uri)]
  | .kept _ _ _ :: rest => newBindings rest

def attributeName (bindings : Bindings) (place : List Char) (lead : Option (List Char))
    (name : List Char) : Except Failure String :=
  match lead with
  | none => .ok (String.ofList name)
  | some lead =>
    match bindings.lookup lead with
    | some uri => .ok (inNamespace uri name)
    | none => fail .unboundPrefix place

def keptAttributes (bindings : Bindings) (place : List Char) :
    Record String → List Stored → Except Failure (Record String)
  | found, [] => .ok found
  | found, .binding _ _ :: rest => keptAttributes bindings place found rest
  | found, .kept lead name value :: rest => do
    let full ← attributeName bindings place lead name
    if found.has full then fail .duplicateAttribute place
    keptAttributes bindings place (found.set full (String.ofList value)) rest

def elementName (bindings : Bindings) (place name : List Char) : Except Failure String :=
  match splitLead name with
  | (some lead, rest) =>
    match bindings.lookup lead with
    | some uri => .ok (inNamespace uri rest)
    | none => fail .unboundPrefix place
  | (none, _) =>
    match bindings.lookup [] with
    | some uri => .ok (if uri.isEmpty then String.ofList name else inNamespace uri name)
    | none => .ok (String.ofList name)

/-- What has been read: the open elements with the bindings around each, innermost first, the
bindings that hold, and the tags, latest first. -/
structure Progress where
  parents : List (List Char × Bindings) := []
  bindings : Bindings := startBindings
  tags : List Tag := []
  deriving DecidableEq, Repr

def enter (types : Types) (fuel : Nat) (place : List Char) (p : Progress) (t : StartTag) :
    Except Failure Progress := do
  let stored ← storeAll types fuel place [] t.attributes
  let bindings := newBindings stored ++ p.bindings
  let attributes ← keptAttributes bindings place [] stored
  let name ← elementName bindings place t.name
  let tags := ⟨name, attributes⟩ :: p.tags
  if t.isEmpty then return { p with tags := tags }
  else return { parents := (t.name, p.bindings) :: p.parents, bindings := bindings, tags := tags }

/-- Leaves the innermost element; an entity's text closes none that was open at depth `floor`. -/
def leave (floor : Option Nat) (p : Progress) (name place : List Char) : Except Failure Progress :=
  match p.parents with
  | [] => fail .mismatchedTag place
  | (opened, outer) :: parents =>
    if floor = some p.parents.length then fail .asynchronousEntity place
    else if opened = name then .ok { p with parents := parents, bindings := outer }
    else fail .mismatchedTag place

/-- Reads elements and text, up to the end of the root or, in the text of an entity, of that
text. -/
def content (types : Types) (floor : Option Nat) (active : List (List Char)) :
    Nat → Progress → List Char → Except Failure (Progress × List Char)
  | 0, _, rest => fail .noElement rest
  | fuel + 1, p, cs =>
    match cs with
    | [] =>
      match floor with
      | none => fail .noElement []
      | some depth => if p.parents.length = depth then .ok (p, []) else fail .asynchronousEntity []
    | '<' :: '/' :: rest => do
      let (name, after) ← endTag cs rest
      let p ← leave floor p name rest
      if p.parents.isEmpty then return (p, after) else content types floor active fuel p after
    | '<' :: '!' :: '-' :: rest => do content types floor active fuel p (← comment cs rest)
    | '<' :: '!' :: '[' :: rest => do
      content types floor active fuel p (← sectionBody (← expect cs sectionMark rest))
    | '<' :: '!' :: rest => refuse cs rest
    | '<' :: '?' :: rest => do
      let (isDeclaration, after) ← instruction cs rest
      if isDeclaration then fail .misplacedDeclaration cs
      else content types floor active fuel p after
    | '<' :: rest => do
      let (t, after) ← startTag cs rest
      let p ← enter types fuel cs p t
      if p.parents.isEmpty then return (p, after) else content types floor active fuel p after
    | '&' :: rest => do
      let (piece, after) ← reference cs cs rest
      match piece with
      | .plain _ => content types floor active fuel p after
      | .code n _ =>
        if (numberedChar? n).isSome then content types floor active fuel p after
        else fail .badCharacter cs
      | .entity e =>
        if (predefined? e).isSome then content types floor active fuel p after
        else
          match types.entity? e with
          | none => fail .undefinedEntity cs
          | some found =>
            if active.contains e then fail .recursiveEntity cs
            else if found.isBinary then fail .binaryEntity cs
            else
              match found.text with
              | none => content types floor active fuel p after
              | some text =>
                match content types (some p.parents.length) (e :: active) fuel p text with
                | .ok (p, _) => content types floor active fuel p after
                | .error e => .error ⟨e.problem, cs⟩
    | ']' :: ']' :: '>' :: rest => invalid ('>' :: rest)
    | c :: rest => if isChar c then content types floor active fuel p rest else invalid cs

def read (text : List Char) : Except Failure (List Tag) := do
  let (types, rest) ← prolog text
  let (p, after) ← content types none [] (2 * text.length + 2) {} rest
  epilog (after.length + 1) after
  return p.tags.reverse

def place (text rest : List Char) : String :=
  let before := text.take (text.length - rest.length)
  let column := (before.reverse.takeWhile (· ≠ '\n')).length
  "line " ++ toString (before.count '\n' + 1) ++ ", column " ++ toString column

def Failure.message (text : List Char) (f : Failure) : String :=
  f.problem.text ++ ": " ++ place text f.rest

end Runbook.Xml
