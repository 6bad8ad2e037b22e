import Runbook.Pattern.Regex

/-! Backtracking search. A part of a pattern leads from a spot in the text to a list of spots, in
the order in which they are tried. -/

namespace Runbook.Pattern

/-- A place in the text and what the groups before it have met, from one place to another. -/
structure Spot where
  place : Nat
  marks : List (Nat × Nat × Nat) := []
  deriving DecidableEq

def Spot.mark (s : Spot) (number start : Nat) : Spot :=
  { s with marks := (number, start, s.place) :: s.marks.filter fun m => m.1 ≠ number }

def fold (flags : Flags) (c : Char) : Char := if flags.ascii then c.toLower else Text.lower c

def caseVariants (flags : Flags) (c : Char) : List Char :=
  if !flags.ignoreCase then [c]
  else if flags.ascii then [c, c.toLower, c.toUpper]
  else Text.variants c

def wordAt (flags : Flags) (text : Array Char) (i : Nat) : Bool :=
  (text[i]?).any fun c => Category.word.holds flags.ascii c

def wordBefore (flags : Flags) (text : Array Char) : Nat → Bool
  | 0 => false
  | i + 1 => wordAt flags text i

def breakBefore (text : Array Char) : Nat → Bool
  | 0 => true
  | i + 1 => text[i]? == some '\n'

def Anchor.holds (flags : Flags) (text : Array Char) (i : Nat) : Anchor → Bool
  | .textStart => i == 0
  | .textEnd => i == text.size
  | .lineStart => i == 0 || (flags.multiline && breakBefore text i)
  | .lineEnd =>
    i == text.size || (text[i]? == some '\n' && (flags.multiline || i + 1 == text.size))
  | .boundary => wordBefore flags text i != wordAt flags text i
  | .noBoundary => text.size != 0 && wordBefore flags text i == wordAt flags text i

def repeats (flags : Flags) (text : Array Char) (start stop place : Nat) : Bool :=
  (List.range (stop - start)).all fun k =>
    match text[start + k]?, text[place + k]? with
    | some a, some b => if flags.ignoreCase then fold flags a == fold flags b else a == b
    | _, _ => false

section Repetition

variable (step : Spot → List Spot)

/-- So many rounds, unless another one would change nothing. -/
def rounds : Nat → List Spot → List Spot
  | 0, spots => spots
  | count + 1, spots =>
    let next := (spots.flatMap step).eraseDups
    if next == spots then spots else rounds count next

/-- Any number of further rounds, up to `most`. A round is the last if it did not move from `last`.
Spots that others were found from in as many rounds are `seen`. -/
def further (lazy : Bool) : Nat → Option Nat → Option Nat → Spot → List (Option Nat × Spot) →
    List Spot × List (Option Nat × Spot)
  | 0, _, _, s, seen => ([s], seen)
  | fuel + 1, most, last, s, seen =>
    if last == some s.place || most == some 0 then ([s], seen)
    else if seen.contains (most, s) then ([], seen)
    else
      let (found, seen) := (step s).foldl (fun (found, seen) next =>
        let (more, seen) := further lazy fuel (most.map (· - 1)) (some s.place) next seen
        (found ++ more, seen)) ([], (most, s) :: seen)
      (if lazy then s :: found else found ++ [s], seen)

/-- The same if no choice is ever taken back. -/
def furthest : Nat → Option Nat → Option Nat → Spot → Spot
  | 0, _, _, s => s
  | fuel + 1, most, last, s =>
    if last == some s.place || most == some 0 then s
    else
      match step s with
      | [] => s
      | next :: _ => furthest fuel (most.map (· - 1)) (some s.place) next

def repeated (size least : Nat) (most : Option Nat) (mood : Mood) (s : Spot) : List Spot :=
  let left := most.map (· - least)
  match mood with
  | .possessive =>
    (rounds (fun s => (step s).take 1) least [s]).map (furthest step (size + 2) left none)
  | mood =>
    ((rounds step least [s]).foldl (fun (found, seen) s =>
      let (more, seen) := further step (mood == .lazy) (size + 2) left none s seen
      (found ++ more, seen)) ([], [])).1.eraseDups

end Repetition

/-- Where a part of a pattern leads to; of the groups only those `kept` are marked. -/
def Regex.ends (kept : List Nat) (text : Array Char) : Regex → Flags → Spot → List Spot
  | .empty, _, s => [s]
  | .any, flags, s =>
    match text[s.place]? with
    | some c => if c == '\n' && !flags.dotAll then [] else [{ s with place := s.place + 1 }]
    | none => []
  | .set negated items, flags, s =>
    match text[s.place]? with
    | some c =>
      let met := items.any fun item => (caseVariants flags c).any (item.holds flags.ascii ·)
      if met != negated then [{ s with place := s.place + 1 }] else []
    | none => []
  | .anchor place, flags, s => if place.holds flags text s.place then [s] else []
  | .seq first second, flags, s =>
    ((first.ends kept text flags s).flatMap (second.ends kept text flags)).eraseDups
  | .alt first second, flags, s =>
    (first.ends kept text flags s ++ second.ends kept text flags s).eraseDups
  | .rep least most mood body, flags, s =>
    repeated (body.ends kept text flags) text.size least most mood s
  | .group number body, flags, s =>
    let spots := body.ends kept text flags s
    if kept.contains number then spots.map (·.mark number s.place) else spots
  | .atomic body, flags, s => (body.ends kept text flags s).take 1
  | .scoped on off body, flags, s => body.ends kept text (flags.change on off) s
  | .reference number _ _, flags, s =>
    match s.marks.lookup number with
    | some (start, stop) =>
      if repeats flags text start stop s.place then [{ s with place := s.place + (stop - start) }]
      else []
    | none => []
  | .choice number met unmet, flags, s =>
    if (s.marks.lookup number).isSome then met.ends kept text flags s
    else unmet.ends kept text flags s
  | .look behind negated body, flags, s =>
    let back := if behind then body.width.1 else 0
    let found :=
      if back ≤ s.place then body.ends kept text flags { s with place := s.place - back } else []
    if negated then if found.isEmpty then [s] else []
    else (found.take 1).map fun t => { t with place := s.place }

def Regex.foundIn (flags : Flags) (text : String) (body : Regex) : Bool :=
  let chars := text.toList.toArray
  (List.range (chars.size + 1)).any fun i =>
    !(body.ends body.references chars flags ⟨i, []⟩).isEmpty

end Runbook.Pattern
