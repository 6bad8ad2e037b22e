import Runbook.Text.Ranges

namespace Runbook.Xml

def startRanges : List (Nat × Nat) :=
  Text.spread 0
    [192, 22, 2, 30, 2, 57, 3, 10, 3, 7, 2, 52, 2, 67, 10, 35, 4, 1, 5, 29, 57, 88, 19, 6, 197, 0,
    2, 2, 2, 0, 2, 19, 2, 43, 2, 6, 4, 0, 2, 0, 2, 0, 2, 0, 2, 17, 14, 11, 2, 65, 2, 11, 2, 35, 15,
    52, 3, 1, 3, 1, 4, 27, 3, 7, 3, 1, 56, 37, 3, 0, 8, 37, 74, 26, 6, 2, 47, 25, 7, 9, 39, 70, 3,
    4, 2, 14, 2, 3, 2, 0, 16, 1, 543, 52, 4, 0, 27, 9, 36, 7, 3, 1, 3, 21, 2, 6, 2, 0, 4, 3, 35, 1,
    2, 2, 15, 1, 20, 5, 5, 1, 3, 21, 2, 6, 2, 1, 2, 1, 2, 1, 32, 3, 2, 0, 20, 2, 17, 6, 2, 0, 2, 2,
    2, 21, 2, 6, 2, 1, 2, 4, 4, 0, 35, 0, 37, 7, 3, 1, 3, 21, 2, 6, 2, 1, 3, 3, 4, 0, 31, 1, 2, 2,
    36, 5, 4, 2, 2, 3, 4, 1, 2, 0, 2, 1, 4, 1, 4, 2, 4, 7, 2, 2, 76, 7, 2, 2, 2, 22, 2, 9, 2, 4, 39,
    1, 36, 7, 2, 2, 2, 22, 2, 9, 2, 4, 37, 0, 2, 1, 36, 7, 2, 2, 2, 22, 2, 15, 39, 1, 160, 45, 2, 0,
    2, 1, 13, 5, 60, 1, 2, 0, 3, 1, 2, 0, 3, 0, 7, 3, 2, 6, 2, 2, 2, 0, 2, 0, 3, 1, 2, 1, 2, 0, 2,
    1, 10, 0, 3, 4, 124, 7, 2, 32, 311, 37, 11, 38, 10, 0, 2, 1, 2, 2, 2, 0, 2, 1, 2, 4, 42, 0, 2,
    0, 2, 0, 12, 0, 2, 0, 2, 0, 4, 1, 4, 0, 6, 2, 2, 0, 2, 0, 2, 0, 2, 0, 4, 1, 4, 1, 2, 0, 41, 0,
    10, 0, 3, 0, 3, 1, 8, 1, 2, 0, 2, 6, 41, 0, 5, 0, 9, 0, 3079, 155, 5, 89, 7, 21, 3, 5, 3, 37, 3,
    5, 3, 7, 2, 0, 2, 0, 2, 0, 2, 30, 3, 52, 2, 6, 2, 0, 4, 2, 2, 6, 4, 3, 3, 5, 5, 12, 6, 2, 2, 6,
    298, 0, 4, 1, 3, 0, 82, 2, 3717, 0, 26, 8, 24, 83, 13, 89, 11, 39, 7380, 20901, 3163, 11171]

def innerRanges : List (Nat × Nat) :=
  Text.spread 0
    [183, 0, 537, 1, 47, 69, 27, 1, 38, 0, 252, 3, 267, 16, 2, 22, 2, 2, 2, 0, 2, 1, 2, 0, 124, 0,
    11, 7, 14, 9, 7, 0, 102, 14, 3, 1, 2, 3, 3, 9, 520, 2, 57, 0, 2, 15, 4, 3, 14, 1, 3, 9, 18, 2,
    57, 0, 2, 6, 3, 1, 3, 2, 10, 0, 11, 1, 3, 9, 19, 0, 58, 0, 2, 4, 5, 1, 3, 2, 25, 11, 16, 2, 57,
    0, 2, 7, 2, 2, 2, 2, 25, 9, 18, 2, 57, 0, 2, 5, 4, 1, 3, 2, 9, 1, 15, 9, 19, 1, 59, 4, 4, 2, 2,
    3, 10, 0, 16, 8, 18, 2, 59, 6, 2, 2, 2, 3, 8, 1, 16, 9, 19, 1, 59, 6, 2, 2, 2, 3, 8, 1, 16, 9,
    19, 1, 59, 5, 3, 2, 2, 3, 10, 0, 15, 9, 194, 0, 3, 6, 12, 8, 2, 9, 88, 0, 3, 5, 2, 1, 10, 0, 2,
    5, 3, 9, 63, 1, 7, 9, 12, 0, 2, 0, 2, 0, 5, 1, 50, 19, 2, 5, 5, 5, 2, 0, 2, 20, 4, 6, 2, 0,
    4375, 12, 5, 0, 3876, 0, 37, 5, 2, 4, 100, 1, 3, 1, 94, 2]

def isNameStart (c : Char) : Bool :=
  if c.toNat < 128 then c.isAlpha || c = '_' else Text.inRanges startRanges c

def isNameChar (c : Char) : Bool :=
  isNameStart c ||
    (if c.toNat < 128 then c.isDigit || c = '-' || c = '.' else Text.inRanges innerRanges c)

def isSpace (c : Char) : Bool := c = ' ' || c = '\t' || c = '\n' || c = '\r'

def isChar (c : Char) : Bool :=
  isSpace c || (32 ≤ c.toNat && c.toNat ≠ 0xfffe && c.toNat ≠ 0xffff)

end Runbook.Xml
