namespace Runbook.Text

/-- Runs of letters behind a code point: as ranges, with the step in the run and the distance to the
partner. -/
def spreadRuns (last : Nat) : List (Nat × Nat × Nat × Int) → List (Nat × Nat × Nat × Int)
  | [] => []
  | (gap, length, rest) :: runs =>
    (last + gap, last + gap + length, rest) :: spreadRuns (last + gap + length) runs

/-- Upper-case letters beyond the seven-bit range: first, last, step, and distance to lower case. -/
def upperRuns : List (Nat × Nat × Nat × Int) :=
  spreadRuns 0
    [(192, 22, 1, 32), (2, 6, 1, 32), (34, 46, 2, 1), (4, 4, 2, 1), (3, 14, 2, 1), (3, 44, 2, 1),
    (2, 0, 1, -121), (1, 4, 2, 1), (4, 0, 1, 210), (1, 2, 2, 1), (2, 0, 1, 206), (1, 0, 1, 1),
    (2, 1, 1, 205), (1, 0, 1, 1), (3, 0, 1, 79), (1, 0, 1, 202), (1, 0, 1, 203), (1, 0, 1, 1),
    (2, 0, 1, 205), (1, 0, 1, 207), (2, 0, 1, 211), (1, 0, 1, 209), (1, 0, 1, 1), (4, 0, 1, 211),
    (1, 0, 1, 213), (2, 0, 1, 214), (1, 4, 2, 1), (2, 0, 1, 218), (1, 0, 1, 1), (2, 0, 1, 218),
    (3, 0, 1, 1), (2, 0, 1, 218), (1, 0, 1, 1), (2, 1, 1, 217), (1, 2, 2, 1), (2, 0, 1, 219),
    (1, 0, 1, 1), (4, 0, 1, 1), (8, 0, 1, 2), (1, 0, 1, 1), (2, 0, 1, 2), (1, 0, 1, 1),
    (2, 0, 1, 2), (1, 16, 2, 1), (3, 16, 2, 1), (3, 0, 1, 2), (1, 2, 2, 1), (2, 0, 1, -97),
    (1, 0, 1, -56), (1, 38, 2, 1), (2, 0, 1, -130), (2, 16, 2, 1), (8, 0, 1, 10795), (1, 0, 1, 1),
    (2, 0, 1, -163), (1, 0, 1, 10792), (3, 0, 1, 1), (2, 0, 1, -195), (1, 0, 1, 69), (1, 0, 1, 71),
    (1, 8, 2, 1), (290, 2, 2, 1), (4, 0, 1, 1), (9, 0, 1, 116), (7, 0, 1, 38), (2, 2, 1, 37),
    (2, 0, 1, 64), (2, 1, 1, 63), (2, 16, 1, 32), (2, 8, 1, 32), (36, 0, 1, 8), (9, 22, 2, 1),
    (6, 0, 1, -60), (3, 0, 1, 1), (2, 0, 1, -7), (1, 0, 1, 1), (3, 2, 1, -130), (1, 15, 1, 80),
    (1, 31, 1, 32), (49, 32, 2, 1), (10, 52, 2, 1), (2, 0, 1, 15), (1, 12, 2, 1), (3, 94, 2, 1),
    (3, 37, 1, 48), (2890, 37, 1, 7264), (2, 0, 1, 7264), (6, 0, 1, 7264), (723, 79, 1, 38864),
    (1, 5, 1, 8), (2203, 42, 1, -3008), (3, 2, 1, -3008), (321, 148, 2, 1), (10, 0, 1, -7615),
    (2, 94, 2, 1), (10, 7, 1, -8), (9, 5, 1, -8), (11, 7, 1, -8), (9, 7, 1, -8), (9, 5, 1, -8),
    (12, 6, 2, -8), (9, 7, 1, -8), (25, 7, 1, -8), (9, 7, 1, -8), (9, 7, 1, -8), (9, 1, 1, -8),
    (1, 1, 1, -74), (1, 0, 1, -9), (12, 3, 1, -86), (1, 0, 1, -9), (12, 1, 1, -8), (1, 1, 1, -100),
    (13, 1, 1, -8), (1, 1, 1, -112), (1, 0, 1, -7), (12, 1, 1, -128), (1, 1, 1, -126),
    (1, 0, 1, -9), (298, 0, 1, -7517), (4, 0, 1, -8383), (1, 0, 1, -8262), (7, 0, 1, 28),
    (46, 15, 1, 16), (20, 0, 1, 1), (819, 25, 1, 26), (1841, 47, 1, 48), (49, 0, 1, 1),
    (2, 0, 1, -10743), (1, 0, 1, -3814), (1, 0, 1, -10727), (3, 4, 2, 1), (2, 0, 1, -10780),
    (1, 0, 1, -10749), (1, 0, 1, -10783), (1, 0, 1, -10782), (2, 0, 1, 1), (3, 0, 1, 1),
    (9, 1, 1, -10815), (1, 98, 2, 1), (9, 2, 2, 1), (5, 0, 1, 1), (31054, 44, 2, 1), (20, 26, 2, 1),
    (136, 12, 2, 1), (4, 60, 2, 1), (11, 2, 2, 1), (2, 0, 1, -35332), (1, 8, 2, 1), (5, 0, 1, 1),
    (2, 0, 1, -42280), (3, 2, 2, 1), (4, 18, 2, 1), (2, 0, 1, -42308), (1, 0, 1, -42319),
    (1, 0, 1, -42315), (1, 0, 1, -42305), (1, 0, 1, -42308), (2, 0, 1, -42258), (1, 0, 1, -42282),
    (1, 0, 1, -42261), (1, 0, 1, 928), (1, 14, 2, 1), (2, 0, 1, -48), (1, 0, 1, -42307),
    (1, 0, 1, -35384), (1, 2, 2, 1), (7, 0, 1, 1), (6, 2, 2, 1), (29, 0, 1, 1), (22316, 25, 1, 32),
    (1222, 39, 1, 40), (137, 35, 1, 40), (157, 10, 1, 39), (2, 14, 1, 39), (2, 6, 1, 39),
    (2, 1, 1, 39), (1771, 50, 1, 64), (3054, 31, 1, 32), (21889, 31, 1, 32), (31393, 33, 1, 34)]

def lower (c : Char) : Char :=
  if c.toNat < 128 then c.toLower
  else
    match upperRuns.find? fun (first, last, step, _) =>
        first ≤ c.toNat && c.toNat ≤ last && (c.toNat - first) % step == 0 with
    | some (_, _, _, distance) => Char.ofNat (c.toNat + distance).toNat
    | none => c

def uppers (c : Char) : List Char :=
  upperRuns.filterMap fun (first, last, step, distance) =>
    let n := (c.toNat - distance).toNat
    if first ≤ n && n ≤ last && (n - first) % step == 0 then some (Char.ofNat n) else none

/-- Lower-case letters that have one upper-case letter in common. -/
def equivalents : List (List Nat) :=
  [[105, 305], [115, 383], [181, 956], [837, 953, 8126], [912, 8147], [944, 8163], [946, 976],
    [949, 1013], [952, 977], [954, 1008], [960, 982], [961, 1009], [962, 963], [966, 981],
    [1074, 7296], [1076, 7297], [1086, 7298], [1089, 7299], [1090, 7300, 7301], [1098, 7302],
    [1123, 7303], [7304, 42571], [7777, 7835], [64261, 64262]]

def variants (c : Char) : List Char :=
  let alike :=
    ((equivalents.find? (·.contains (lower c).toNat)).getD [(lower c).toNat]).map Char.ofNat
  c :: alike.flatMap fun d => d :: d.toUpper :: uppers d

end Runbook.Text
