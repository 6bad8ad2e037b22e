import Runbook.Xml.Token

namespace Runbook.Xml

def fail {α : Type} (problem : Problem) (rest : List Char) : Except Failure α :=
  .error ⟨problem, rest⟩

inductive WordKind
  | name
  | qualified
  | other
  deriving DecidableEq, Repr

inductive Mark
  | word (kind : WordKind) (text : List Char)
  | literal (text : List Char)
  | sign (c : Char)
  | parameter
  | comment
  | instruction
  | declaration
  | opening (word : List Char)
  | root
  deriving DecidableEq, Repr

def literalBody (start : List Char) (quote : Char) :
    List Char → Except Failure (List Char × List Char)
  | [] => unclosed start
  | c :: rest =>
    if c = quote then .ok ([], rest)
    else if isChar c then (literalBody start quote rest).map fun (body, after) => (c :: body, after)
    else invalid (c :: rest)

def endsLiteral (c : Char) : Bool := isSpace c || c = '>' || c = '%' || c = '['

def literal (start : List Char) (quote : Char) (cs : List Char) :
    Except Failure (Mark × List Char) := do
  let (body, rest) ← literalBody start quote cs
  match rest with
  | [] => return (.literal body, [])
  | c :: _ => if endsLiteral c then return (.literal body, rest) else invalid rest

def endsWord (c : Char) : Bool :=
  isSpace c || c = '>' || c = ')' || c = ',' || c = '|' || c = '[' || c = '%'

def wordKind (text : List Char) : WordKind :=
  if text.head?.any isNameStart then
    match text.span (· ≠ ':') with
    | (_, []) => .name
    | (_, _ :: rest) =>
      if rest.head?.any isNameChar ∧ ¬ rest.contains ':' then .qualified else .other
  else .other

/-- A word of name characters and colons; a sign that repeats it belongs to it. -/
def word (start : List Char) : Except Failure (Mark × List Char) :=
  let (text, rest) := start.span isEndNameChar
  match rest with
  | [] =>
    if text.getLast? = some ':' ∧ wordKind text.dropLast = .name then unclosed start
    else .ok (.word (wordKind text) text, [])
  | c :: after =>
    if endsWord c then .ok (.word (wordKind text) text, rest)
    else if wordKind text ≠ .other ∧ (c = '+' ∨ c = '*' ∨ c = '?') then
      .ok (.word .other text, after)
    else invalid rest

def percent (start : List Char) : List Char → Except Failure (Mark × List Char)
  | [] => unclosed start
  | c :: rest =>
    if isSpace c ∨ c = '%' then .ok (.sign '%', c :: rest)
    else do
      let (_, rest) ← name start (c :: rest)
      match rest with
      | ';' :: rest => return (.parameter, rest)
      | rest => refuse start rest

def closing : List Char → Except Failure (Mark × List Char)
  | [] => .ok (.sign ')', [])
  | c :: rest =>
    if c = '*' ∨ c = '?' ∨ c = '+' then .ok (.sign ')', rest)
    else if isSpace c ∨ c = '>' ∨ c = ',' ∨ c = '|' ∨ c = ')' then .ok (.sign ')', c :: rest)
    else invalid (c :: rest)

def opening (start cs : List Char) : Except Failure (Mark × List Char) :=
  match cs with
  | [] => unclosed start
  | '-' :: rest => (comment start rest).map fun after => (.comment, after)
  | '[' :: rest => .ok (.sign '<', rest)
  | c :: _ =>
    if c.isAlpha ∨ c = '_' then
      match cs.span (fun c => c.isAlpha || c = '_') with
      | (_, []) => unclosed start
      | (text, '%' :: rest) =>
        match rest with
        | [] => unclosed start
        | d :: _ =>
          if isSpace d ∨ d = '%' then invalid ('%' :: rest) else .ok (.opening text, '%' :: rest)
      | (text, d :: rest) =>
        if isSpace d then .ok (.opening text, d :: rest) else invalid (d :: rest)
    else invalid cs

def mark (cs : List Char) : Except Failure (Mark × List Char) :=
  match cs with
  | [] => fail .noElement []
  | '<' :: '!' :: rest => opening cs rest
  | '<' :: '?' :: rest =>
    (instruction cs rest).map fun (isDeclaration, after) =>
      (if isDeclaration then .declaration else .instruction, after)
  | '<' :: rest =>
    match rest with
    | [] => unclosed cs
    | c :: _ => if isNameStart c ∨ 128 ≤ c.toNat then .ok (.root, cs) else invalid rest
  | c :: rest =>
    if c = '"' ∨ c = '\'' then literal cs c rest
    else if c = '%' then percent cs rest
    else if c = ')' then closing rest
    else if c = ',' ∨ c = '[' ∨ c = ']' ∨ c = '(' ∨ c = '|' ∨ c = '>' then .ok (.sign c, rest)
    else if c = '#' then
      match name cs rest with
      | .ok (text, after) =>
        match after with
        | [] => .ok (.word .other text, [])
        | d :: _ => if endsWord d then .ok (.word .other text, after) else invalid after
      | .error e => .error e
    else if isEndNameChar c then word cs
    else invalid cs

def misplaced {α : Type} (m : Mark) (place : List Char) : Except Failure α :=
  match m with
  | .parameter => fail .parameterEntity place
  | .declaration => fail .misplacedDeclaration place
  | _ => fail .syntaxError place

structure Pseudo where
  name : List Char
  nameAt : List Char
  value : List Char
  valueAt : List Char
  deriving DecidableEq, Repr

def isPlainValueChar (c : Char) : Bool := c.isAlphanum || c = '.' || c = '-' || c = '_'

/-- An attribute of the declaration, if one is left; fails with the text from the wrong place on. -/
def pseudo? (cs : List Char) : Except (List Char) (Option Pseudo × List Char) :=
  match cs with
  | [] => .ok (none, [])
  | c :: _ =>
    if isSpace c then
      match skipSpace cs with
      | [] => .ok (none, cs)
      | nameAt =>
        let (name, rest) := nameAt.span (fun c => c.toNat < 128 && c ≠ '=' && !isSpace c)
        match skipSpace rest with
        | '=' :: rest =>
          if name.isEmpty then .error nameAt
          else
            match skipSpace rest with
            | q :: valueAt =>
              if q = '"' ∨ q = '\'' then
                match valueAt.span isPlainValueChar with
                | (value, d :: rest) =>
                  if d = q then .ok (some ⟨name, nameAt, value, valueAt⟩, rest)
                  else .error (d :: rest)
                | (_, []) => .error []
              else .error (q :: valueAt)
            | [] => .error []
        | rest => .error rest
    else .error cs

def standalone (p : Pseudo) (rest : List Char) : Except (List Char) Unit :=
  if p.name ≠ "standalone".toList then .error p.nameAt
  else if p.value ≠ "yes".toList ∧ p.value ≠ "no".toList then .error p.valueAt
  else match skipSpace rest with
    | [] => .ok ()
    | rest => .error rest

def afterVersion (cs : List Char) : Except (List Char) Unit := do
  match ← pseudo? cs with
  | (none, _) => return
  | (some p, rest) =>
    if p.name = "encoding".toList then
      if p.value.head?.any Char.isAlpha then
        match ← pseudo? rest with
        | (none, _) => return
        | (some p, rest) => standalone p rest
      else throw p.valueAt
    else standalone p rest

def checkDeclaration (cs : List Char) : Except (List Char) Unit := do
  match ← pseudo? cs with
  | (none, _) => throw cs
  | (some p, rest) => if p.name = "version".toList then afterVersion rest else throw p.nameAt

def declaration (cs rest : List Char) : Except Failure Unit :=
  let after := cs.drop 5
  let body := after.take (after.length - rest.length - 2)
  match checkDeclaration body with
  | .ok () => .ok ()
  | .error left => fail .badDeclaration (after.drop (body.length - left.length))

/-- The text of a declared entity; none if it stands outside the document. -/
structure Entity where
  name : List Char
  text : Option (List Char)
  isBinary : Bool := false
  deriving DecidableEq, Repr

/-- What a document type declares. If `isOpen`, more may be declared elsewhere. -/
structure Types where
  entities : List Entity := []
  isOpen : Bool := false
  deriving DecidableEq, Repr

def Types.entity? (t : Types) (name : List Char) : Option Entity := t.entities.find? (·.name = name)

def Types.declare (t : Types) (e : Entity) : Types :=
  if (t.entity? e.name).isSome then t else { t with entities := t.entities ++ [e] }

/-- The text of an entity from its literal: characters by number are put in, other references stay.
The literal is `body`, and `place` is the text from there on. -/
def entityText : Nat → List Char → List Char → Except Failure (List Char)
  | 0, _, _ => .ok []
  | _ + 1, [], _ => .ok []
  | fuel + 1, '&' :: rest, place =>
    match reference ('&' :: rest) ('&' :: rest) rest with
    | .ok (.code n _, after) =>
      match numberedChar? n with
      | some c => (entityText fuel after (place.drop (1 + rest.length - after.length))).map (c :: ·)
      | none => fail .badCharacter place
    | .ok (_, after) =>
      let taken := 1 + rest.length - after.length
      (entityText fuel after (place.drop taken)).map (('&' :: rest).take taken ++ ·)
    | .error e =>
      match e.problem with
      | .invalidToken => invalid (place.drop (1 + rest.length - e.rest.length))
      | _ => invalid place
  | _ + 1, '%' :: rest, place =>
    match percent ('%' :: rest) rest with
    | .ok (.parameter, _) => fail .parameterEntity place
    | .ok _ => invalid (place.drop 1)
    | .error e =>
      match e.problem with
      | .invalidToken => invalid (place.drop (1 + rest.length - e.rest.length))
      | _ => invalid place
  | fuel + 1, c :: rest, place => (entityText fuel rest (place.drop 1)).map (c :: ·)

def nextMark (cs : List Char) : Except Failure (Mark × List Char × List Char) := do
  let place := skipSpace cs
  let (m, rest) ← mark place
  return (m, place, rest)

def takeName (cs : List Char) : Except Failure (List Char × List Char) := do
  match ← nextMark cs with
  | (.word .name text, _, rest) => return (text, rest)
  | (m, place, _) => misplaced m place

def takeLiteral (cs : List Char) : Except Failure (List Char × List Char) := do
  match ← nextMark cs with
  | (.literal text, _, rest) => return (text, rest)
  | (m, place, _) => misplaced m place

def takeClose (cs : List Char) : Except Failure (List Char) := do
  match ← nextMark cs with
  | (.sign '>', _, rest) => return rest
  | (m, place, _) => misplaced m place

/-- The rest after the identifier of something that stands outside, whose first word is given. -/
def outside (first : List Char) (m : Mark) (place cs : List Char) : Except Failure (List Char) := do
  if first = "SYSTEM".toList then return (← takeLiteral cs).2
  else if first = "PUBLIC".toList then return (← takeLiteral (← takeLiteral cs).2).2
  else misplaced m place

def entityValue (isParameter : Bool) (types : Types) (entity cs : List Char) :
    Except Failure (Types × List Char) := do
  match ← nextMark cs with
  | (.literal text, place, rest) =>
    let text ← entityText (text.length + 1) text (place.drop 1)
    let rest ← takeClose rest
    return (if isParameter then types else types.declare ⟨entity, some text, false⟩, rest)
  | (.word .name first, place, rest) =>
    let rest ← outside first (.word .name first) place rest
    match ← nextMark rest with
    | (.sign '>', _, rest) =>
      return (if isParameter then types else types.declare ⟨entity, none, false⟩, rest)
    | (.word .name second, place, rest) =>
      if second = "NDATA".toList ∧ ¬ isParameter then
        let (_, rest) ← takeName rest
        return (types.declare ⟨entity, none, true⟩, ← takeClose rest)
      else fail .syntaxError place
    | (m, place, _) => misplaced m place
  | (m, place, _) => misplaced m place

def entityDeclaration (types : Types) (cs : List Char) : Except Failure (Types × List Char) := do
  match ← nextMark cs with
  | (.word .name entity, _, rest) => entityValue false types entity rest
  | (.sign '%', _, rest) =>
    let (entity, rest) ← takeName rest
    entityValue true types entity rest
  | (m, place, _) => misplaced m place

def skipDeclaration : Nat → List Char → Except Failure (List Char)
  | 0, rest => fail .noElement rest
  | fuel + 1, cs => do
    match ← nextMark cs with
    | (.sign '>', _, rest) => return rest
    | (.word _ _, _, rest) | (.literal _, _, rest) | (.sign _, _, rest) => skipDeclaration fuel rest
    | (m, place, _) => misplaced m place

def skipped : List (List Char) := ["ELEMENT".toList, "ATTLIST".toList, "NOTATION".toList]

def subset : Nat → Types → List Char → Except Failure (Types × List Char)
  | 0, _, rest => fail .noElement rest
  | fuel + 1, types, cs => do
    match ← nextMark cs with
    | (.sign ']', _, rest) => return (types, rest)
    | (.comment, _, rest) | (.instruction, _, rest) => subset fuel types rest
    | (.parameter, _, rest) => subset fuel { types with isOpen := true } rest
    | (.opening text, place, rest) =>
      if text = "ENTITY".toList then
        let (types, rest) ← entityDeclaration types rest
        subset fuel types rest
      else if skipped.contains text then
        subset fuel types (← skipDeclaration (rest.length + 1) rest)
      else fail .syntaxError place
    | (m, place, _) => misplaced m place

def doctypeTail (isOpen : Bool) (m : Mark) (place rest : List Char) :
    Except Failure (Types × List Char) := do
  match m with
  | .sign '>' => return ({ isOpen := isOpen }, rest)
  | .sign '[' =>
    let (types, rest) ← subset (rest.length + 1) { isOpen := isOpen } rest
    return (types, ← takeClose rest)
  | m => misplaced m place

def doctypeName (cs : List Char) : Except Failure (List Char) := do
  match ← nextMark cs with
  | (.word .other text, place, _) => misplaced (.word .other text) place
  | (.word _ _, _, rest) => return rest
  | (m, place, _) => misplaced m place

def doctype (cs : List Char) : Except Failure (Types × List Char) := do
  match ← nextMark (← doctypeName cs) with
  | (.word .name first, place, rest) =>
    let rest ← outside first (.word .name first) place rest
    let (m, place, rest) ← nextMark rest
    doctypeTail true m place rest
  | (m, place, rest) => doctypeTail false m place rest

/-- Reads up to the root element; `types` is none before the document type. -/
def prologFrom : Nat → Option Types → List Char → Except Failure (Types × List Char)
  | 0, _, rest => fail .noElement rest
  | fuel + 1, types, cs => do
    match ← nextMark cs with
    | (.root, place, _) => return (types.getD {}, place)
    | (.comment, _, rest) | (.instruction, _, rest) => prologFrom fuel types rest
    | (.opening text, place, rest) =>
      if text = "DOCTYPE".toList ∧ types = none then
        let (types, rest) ← doctype rest
        prologFrom fuel (some types) rest
      else fail .syntaxError place
    | (m, place, _) => misplaced m place

def skipByteOrderMark : List Char → List Char
  | '\ufeff' :: rest => rest
  | cs => cs

def prolog (text : List Char) : Except Failure (Types × List Char) := do
  let cs := skipByteOrderMark text
  match mark cs with
  | .ok (.declaration, rest) =>
    declaration cs rest
    prologFrom (rest.length + 1) none rest
  | _ => prologFrom (cs.length + 1) none cs

/-- After the root only comments and instructions may follow. -/
def epilog : Nat → List Char → Except Failure Unit
  | 0, rest => fail .junk rest
  | fuel + 1, cs =>
    match skipSpace cs with
    | [] => .ok ()
    | place =>
      match mark place with
      | .ok (.comment, rest) | .ok (.instruction, rest) => epilog fuel rest
      | .ok _ => fail .junk place
      | .error e => .error e

end Runbook.Xml
