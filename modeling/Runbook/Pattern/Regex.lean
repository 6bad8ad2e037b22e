import Runbook.Pattern.Basic
import Runbook.Text.Blank
import Runbook.Text.Case
import Runbook.Text.Digit
import Runbook.Text.Word

namespace Runbook.Pattern

/-- Turns the flags of some letters on, those of others off. -/
def Flags.change (flags : Flags) (on off : List Char) : Flags :=
  let set (old : Bool) (letter : Char) := (old || on.contains letter) && !off.contains letter
  { ignoreCase := set flags.ignoreCase 'i'
    multiline := set flags.multiline 'm'
    dotAll := set flags.dotAll 's'
    verbose := set flags.verbose 'x'
    ascii := set (flags.ascii && !on.contains 'u') 'a'
    template := set flags.template 't' }

inductive Category
  | digit
  | blank
  | word
  deriving DecidableEq, Repr

def Category.holds (ascii : Bool) (c : Char) : Category → Bool
  | .digit => if ascii then c.isDigit else Text.isDigit c
  | .blank => Text.isBlank c && (!ascii || c == ' ' || ('\t' ≤ c && c ≤ '\r'))
  | .word => if ascii then c.isAlphanum || c == '_' else Text.isWord c

/-- A code that is no character's is allowed, and met nowhere. -/
inductive Item
  | code (n : Nat)
  | range (low high : Nat)
  | category (kind : Category) (negated : Bool)
  deriving DecidableEq, Repr

def Item.holds (ascii : Bool) (c : Char) : Item → Bool
  | .code n => c.toNat == n
  | .range low high => low ≤ c.toNat && c.toNat ≤ high
  | .category kind negated => kind.holds ascii c != negated

inductive Anchor
  | textStart
  | textEnd
  | lineStart
  | lineEnd
  | boundary
  | noBoundary
  deriving DecidableEq, Repr

/-- How a repetition chooses its count. A possessive one never takes back what it has chosen. -/
inductive Mood
  | greedy
  | lazy
  | possessive
  deriving DecidableEq, Repr

/-- A group is known by its number. A reference to one keeps the least and the greatest width of
the group, which is closed before it. -/
inductive Regex
  | empty
  | any
  | set (negated : Bool) (items : List Item)
  | anchor (place : Anchor)
  | seq (first second : Regex)
  | alt (first second : Regex)
  | rep (least : Nat) (most : Option Nat) (mood : Mood) (body : Regex)
  | group (number : Nat) (body : Regex)
  | atomic (body : Regex)
  | scoped (on off : List Char) (body : Regex)
  | reference (number least most : Nat)
  | choice (number : Nat) (met unmet : Regex)
  | look (behind negated : Bool) (body : Regex)
  deriving DecidableEq, Repr

/-- Stands for a width without a limit. -/
def endless : Nat := Nat.pow 2 64

namespace Regex

def code (n : Nat) : Regex := .set false [.code n]

def width : Regex → Nat × Nat
  | .empty | .anchor _ | .look _ _ _ => (0, 0)
  | .any | .set _ _ => (1, 1)
  | .seq first second => (first.width.1 + second.width.1, first.width.2 + second.width.2)
  | .alt first second | .choice _ first second =>
    (min first.width.1 second.width.1, max first.width.2 second.width.2)
  | .rep least most _ body =>
    (body.width.1 * least,
      match most with
      | some bound => body.width.2 * bound
      | none => if body.width.2 = 0 then 0 else endless)
  | .group _ body | .atomic body | .scoped _ _ body => body.width
  | .reference _ least most => (least, most)

def references : Regex → List Nat
  | .empty | .any | .set _ _ | .anchor _ => []
  | .seq first second | .alt first second => first.references ++ second.references
  | .rep _ _ _ body | .group _ body | .atomic body | .scoped _ _ body | .look _ _ body =>
    body.references
  | .reference number _ _ => [number]
  | .choice number met unmet => number :: met.references ++ unmet.references

end Regex

end Runbook.Pattern
