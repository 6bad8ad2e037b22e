import Mathlib.Algebra.Order.Ring.Nat
import Mathlib.Tactic.Ring
import Runbook.Expr.Eval

namespace Runbook

namespace Number

/-- The sizes of the doubles that are integers: no more than 53 bits before a power of two. -/
def Fits (size : Nat) : Prop := size < 2 ^ 1024 ∧ ∃ m e : Nat, m < 2 ^ 53 ∧ size = m * 2 ^ e

/-- The double nearest to an integer, and the even one of two that are as near. -/
structure IsNearest (n x : Int) : Prop where
  double : Fits x.natAbs
  least {y : Int} : Fits y.natAbs → (n - x).natAbs ≤ (n - y).natAbs
  even {y : Int} : Fits y.natAbs → (n - y).natAbs = (n - x).natAbs → y ≠ x → 2 * (x - y) ∣ x

/-- From here on the nearest power of two would be no double any more. -/
def limit : Nat := 2 ^ 1024 - 2 ^ 970

/-- A quotient rounded to the nearest natural number, a half to the even one. -/
structure RoundsTo (num den q : Nat) : Prop where
  below : 2 * (q * den) ≤ 2 * num + den
  above : 2 * num ≤ 2 * (q * den) + den
  even : 2 * (q * den) = 2 * num + den ∨ 2 * num = 2 * (q * den) + den → q % 2 = 0

variable {num den q j size e y : Nat} {n : Int}

theorem roundDiv_roundsTo (num : Nat) (pos : 0 < den) : RoundsTo num den (roundDiv num den) := by
  have whole := Nat.div_add_mod' num den
  have small := Nat.mod_lt num pos
  have next := Nat.add_one_mul (num / den) den
  have half := Nat.mod_two_eq_zero_or_one (num / den)
  unfold roundDiv
  dsimp only
  split_ifs
  · exact ⟨by omega, by omega, by omega⟩
  · exact ⟨by omega, by omega, by omega⟩
  · rcases half with even | odd
    · rw [even, Nat.add_zero]
      exact ⟨by omega, by omega, by omega⟩
    · rw [odd]
      exact ⟨by omega, by omega, by omega⟩

theorem roundDiv_one (num : Nat) : roundDiv num 1 = num := by
  have rounds := roundDiv_roundsTo num Nat.one_pos
  have := rounds.below
  have := rounds.above
  omega

namespace RoundsTo

section

variable (rounds : RoundsTo num den q)

include rounds

theorem le_of_lt (below : num < j * den) : q ≤ j := by
  by_contra greater
  have := Nat.mul_le_mul_right den (show j + 1 ≤ q by omega)
  have := rounds.below
  rw [Nat.add_one_mul] at *
  omega

theorem le_of_le (pos : 0 < den) (above : j * den ≤ num) : j ≤ q := by
  by_contra less
  have := Nat.mul_le_mul_right den (show q + 1 ≤ j by omega)
  have := rounds.above
  rw [Nat.add_one_mul] at *
  omega

theorem least (j : Nat) : ((num : Int) - q * den).natAbs ≤ ((num : Int) - j * den).natAbs := by
  have := rounds.below
  have := rounds.above
  rcases Nat.lt_trichotomy j q with less | rfl | greater
  · have := Nat.mul_le_mul_right den less
    rw [Nat.succ_mul] at this
    omega
  · exact Nat.le_refl _
  · have := Nat.mul_le_mul_right den greater
    rw [Nat.succ_mul] at this
    omega

theorem beside (tie : ((num : Int) - j * den).natAbs = ((num : Int) - q * den).natAbs)
    (other : j ≠ q) : q % 2 = 0 ∧ ((q * den : Int) - j * den).natAbs = den := by
  have := rounds.below
  have := rounds.above
  rcases Nat.lt_or_gt_of_ne other with less | greater
  · have := Nat.mul_le_mul_right den less
    rw [Nat.succ_mul] at this
    exact ⟨rounds.even (by omega), by omega⟩
  · have := Nat.mul_le_mul_right den greater
    rw [Nat.succ_mul] at this
    exact ⟨rounds.even (by omega), by omega⟩

end

theorem twice (pos : 0 < den) (rounds : RoundsTo num den (2 * j))
    (rounds' : RoundsTo num (2 * den) q) : q = j := by
  have := rounds.below
  have := rounds.above
  have := rounds'.below
  have := rounds'.above
  rw [Nat.mul_assoc 2 j, Nat.mul_left_comm q 2] at *
  rcases Nat.lt_trichotomy q j with less | rfl | greater
  · have := Nat.mul_le_mul_right den less
    rw [Nat.succ_mul] at this
    omega
  · rfl
  · have := Nat.mul_le_mul_right den greater
    rw [Nat.succ_mul] at this
    omega

end RoundsTo

theorem pow2_eq (e : Nat) : pow2 e = 2 ^ e := rfl

def ulp (size : Nat) : Nat := 2 ^ (size.log2 - 52)

def rounded (size : Nat) : Nat :=
  if size < 2 ^ 53 then size else roundDiv size (ulp size) * ulp size

theorem twice_pow_le {i : Nat} (less : i < e) : 2 * 2 ^ i ≤ 2 ^ e := by
  rw [← Nat.pow_succ']
  exact Nat.pow_le_pow_right Nat.two_pos less

theorem ulp_pos (size : Nat) : 0 < ulp size := Nat.two_pow_pos _

theorem log2_large (large : 2 ^ 53 ≤ size) : 53 ≤ size.log2 := (Nat.le_log2 (by omega)).mpr large

theorem ulp_bounds (large : 2 ^ 53 ≤ size) :
    2 ^ 52 * ulp size ≤ size ∧ size < 2 ^ 53 * ulp size := by
  have high := log2_large large
  unfold ulp
  rw [← Nat.pow_add, ← Nat.pow_add]
  constructor
  · rw [Nat.add_sub_cancel' (by omega)]
    exact Nat.log2_self_le (by omega)
  · rw [show 53 + (size.log2 - 52) = size.log2 + 1 by omega]
    exact Nat.lt_log2_self

theorem Fits.dvd (fits : Fits y) (above : 2 ^ 52 * ulp size ≤ y) : ulp size ∣ y := by
  obtain ⟨_, m, e, small, rfl⟩ := fits
  unfold ulp at *
  by_cases shift : size.log2 - 52 ≤ e
  · exact Nat.dvd_mul_left_of_dvd (Nat.pow_dvd_pow 2 shift) m
  · have less := twice_pow_le (Nat.lt_of_not_le shift)
    have := Nat.mul_lt_mul_of_pos_right small (Nat.two_pow_pos e)
    omega

theorem two_pow_top : (2 : Nat) ^ 971 = 2 * 2 ^ 970 ∧ (2 : Nat) ^ 1024 = 2 ^ 53 * 2 ^ 971 := by
  rw [← Nat.pow_succ', ← Nat.pow_add]
  exact ⟨rfl, rfl⟩

theorem bits_lt_iff (low : 2 ^ 52 ≤ q) (high : q ≤ 2 ^ 53) :
    ((e : Int) + 1074).toNat * pow2 52 + q < 0x7ff * pow2 52 ↔ q * 2 ^ e < 2 ^ 1024 := by
  obtain ⟨half, top⟩ := two_pow_top
  have pos := Nat.two_pow_pos 970
  rw [pow2_eq]
  rcases Nat.lt_trichotomy e 971 with less | rfl | greater
  · have small := Nat.mul_le_mul high (Nat.pow_le_pow_right Nat.two_pos (Nat.le_of_lt_succ less))
    exact iff_of_true (by omega) (by omega)
  · rw [top, Nat.mul_lt_mul_right (by omega)]
    omega
  · have large := Nat.mul_le_mul low (twice_pow_le greater)
    exact iff_of_false (by omega) (by omega)

theorem roundAt_neg (size : Nat) : roundAt size 1 (-(e : Int)) = size * 2 ^ e := by
  unfold roundAt
  split_ifs with sign
  · obtain rfl : e = 0 := by omega
    simp [pow2_eq, roundDiv_one]
  · simp [pow2_eq, roundDiv_one]

theorem roundAt_natCast (size e : Nat) : roundAt size 1 e = roundDiv size (2 ^ e) := by
  simp [roundAt, pow2_eq]

theorem lastPlace_one (size : Nat) : roundAt size 1 (lastPlace size 1) ≤ 2 ^ 53 ∧
    (lastPlace size 1 = size.log2 - 53 ∨ lastPlace size 1 = size.log2 - 52) := by
  have upper : size < 2 ^ (size.log2 + 1) := Nat.lt_log2_self
  have fits : roundAt size 1 ((size.log2 : Int) - 53 + 1) ≤ 2 ^ 53 := by
    by_cases large : 52 ≤ size.log2
    · rw [show (size.log2 : Int) - 53 + 1 = (size.log2 - 52 : Nat) by omega, roundAt_natCast]
      refine (roundDiv_roundsTo size (Nat.two_pow_pos _)).le_of_lt ?_
      rwa [← Nat.pow_add, show 53 + (size.log2 - 52) = size.log2 + 1 by omega]
    · rw [show (size.log2 : Int) - 53 + 1 = -(52 - size.log2 : Nat) by omega, roundAt_neg]
      have := Nat.mul_le_mul_right (2 ^ (52 - size.log2)) upper.le
      rwa [← Nat.pow_add, show size.log2 + 1 + (52 - size.log2) = 53 by omega] at this
  have start : max (-1074) ((size.log2 : Int) - (Nat.log2 1 : Nat) - 53) = size.log2 - 53 := by
    rw [show Nat.log2 1 = 0 from rfl]
    omega
  rw [lastPlace, start, fitExponent, fitExponent, pow2_eq, if_pos fits]
  split_ifs with first
  · exact ⟨first, .inl rfl⟩
  · exact ⟨fits, .inr (by omega)⟩

/-- What is rounded at the last place is the size of the nearest double, and its bits tell whether
it is in range. -/
structure Places (size : Nat) (e : Int) : Prop where
  size_eq : (if 0 ≤ e then roundAt size 1 e * pow2 e.toNat else size) = rounded size
  bits_lt : (e + 1074).toNat * pow2 52 + roundAt size 1 e < 0x7ff * pow2 52 ↔
    rounded size < 2 ^ 1024

theorem places_small (nonzero : size ≠ 0) (small : size < 2 ^ 53) :
    Places size (lastPlace size 1) := by
  obtain ⟨fits, place⟩ := lastPlace_one size
  have low : size.log2 < 53 := (Nat.log2_lt nonzero).mpr small
  have same : rounded size = size := if_pos small
  generalize lastPlace size 1 = e at *
  refine ⟨?_, iff_of_true (by rw [pow2_eq]; omega) (by omega)⟩
  split_ifs with sign
  · obtain rfl : e = 0 := by omega
    simp [roundAt, pow2_eq, roundDiv_one, same]
  · exact same.symm

theorem places_large (large : 2 ^ 53 ≤ size) : Places size (lastPlace size 1) := by
  obtain ⟨fits, place⟩ := lastPlace_one size
  have high := log2_large large
  obtain ⟨low, up⟩ := ulp_bounds large
  have rounds := roundDiv_roundsTo size (ulp_pos size)
  have same : rounded size = roundDiv size (ulp size) * ulp size := if_neg (by omega)
  rcases place with place | place
  · -- one bit more was kept, of a size that is rounded to a power of two
    rw [show (size.log2 : Int) - 53 = (size.log2 - 53 : Nat) by omega] at place
    rw [place, roundAt_natCast] at fits
    have twice : ulp size = 2 * 2 ^ (size.log2 - 53) := by
      rw [ulp, ← Nat.pow_succ']
      congr 1
      omega
    have pos := Nat.two_pow_pos (size.log2 - 53)
    have rounds' := roundDiv_roundsTo size pos
    have top : roundDiv size (2 ^ (size.log2 - 53)) = 2 ^ 53 :=
      Nat.le_antisymm fits (rounds'.le_of_le pos (by omega))
    rw [top] at rounds'
    have top' : roundDiv size (ulp size) = 2 ^ 52 := rounds'.twice (j := 2 ^ 52) pos
      (twice ▸ rounds)
    have size_eq : rounded size = 2 ^ 53 * 2 ^ (size.log2 - 53) := by
      rw [same, top', twice]
      omega
    rw [place]
    refine ⟨?_, ?_⟩
    · rw [if_pos (by omega), roundAt_natCast, top, size_eq]
      rfl
    · rw [roundAt_natCast, top, size_eq]
      exact bits_lt_iff (by decide) (Nat.le_refl _)
  · rw [show (size.log2 : Int) - 52 = (size.log2 - 52 : Nat) by omega] at place
    rw [place]
    refine ⟨?_, ?_⟩
    · rw [if_pos (by omega), roundAt_natCast, same]
      rfl
    · rw [roundAt_natCast, same]
      exact bits_lt_iff (rounds.le_of_le (ulp_pos size) low) (rounds.le_of_lt up)

theorem roundInt?_eq (n : Int) :
    roundInt? n =
      if rounded n.natAbs < 2 ^ 1024 then some (n.sign * rounded n.natAbs) else none := by
  by_cases zero : n = 0
  · subst zero
    exact (if_pos (Nat.two_pow_pos _)).symm
  have places : Places n.natAbs (lastPlace n.natAbs 1) := by
    by_cases small : n.natAbs < 2 ^ 53
    · exact places_small (by omega) small
    · exact places_large (by omega)
  have signed : (if n < 0 then -(rounded n.natAbs : Int) else rounded n.natAbs) =
      n.sign * rounded n.natAbs := by
    split_ifs with negative
    · rw [Int.sign_eq_neg_one_of_neg negative, Int.neg_one_mul]
    · rw [Int.sign_eq_one_of_pos (by omega), Int.one_mul]
  unfold roundInt? nearestBits?
  simp only [if_neg zero, Int.natAbs_eq_zero, places.bits_lt, places.size_eq, signed]
  by_cases inRange : rounded n.natAbs < 2 ^ 1024
  · rw [if_pos inRange, if_pos inRange]
    rfl
  · rw [if_neg inRange, if_neg inRange]
    rfl

theorem fits_rounded (inRange : rounded size < 2 ^ 1024) : Fits (rounded size) := by
  refine ⟨inRange, ?_⟩
  by_cases small : size < 2 ^ 53
  · exact ⟨size, 0, small, by rw [rounded, if_pos small, Nat.pow_zero, Nat.mul_one]⟩
  · rw [rounded, if_neg small]
    have high := (roundDiv_roundsTo size (ulp_pos size)).le_of_lt
      (ulp_bounds (Nat.le_of_not_lt small)).2
    rcases Nat.lt_or_eq_of_le high with less | same
    · exact ⟨_, _, less, rfl⟩
    · refine ⟨2 ^ 52, size.log2 - 52 + 1, by decide, ?_⟩
      rw [same, ulp, Nat.pow_succ _ (size.log2 - 52)]
      omega

theorem rounded_least (size : Nat) (fits : Fits y) :
    ((size : Int) - rounded size).natAbs ≤ ((size : Int) - y).natAbs := by
  by_cases small : size < 2 ^ 53
  · rw [rounded, if_pos small]
    omega
  obtain ⟨low, _⟩ := ulp_bounds (Nat.le_of_not_lt small)
  have rounds := roundDiv_roundsTo size (ulp_pos size)
  rw [rounded, if_neg small]
  by_cases above : 2 ^ 52 * ulp size ≤ y
  · obtain ⟨j, rfl⟩ := fits.dvd above
    rw [Nat.mul_comm (ulp size) j]
    exact rounds.least j
  · have := rounds.least (2 ^ 52)
    omega

theorem rounded_even (fits : Fits y)
    (tie : ((size : Int) - y).natAbs = ((size : Int) - rounded size).natAbs)
    (other : y ≠ rounded size) : 2 * ((rounded size : Int) - y) ∣ rounded size := by
  by_cases small : size < 2 ^ 53
  · rw [rounded, if_pos small] at *
    omega
  obtain ⟨low, _⟩ := ulp_bounds (Nat.le_of_not_lt small)
  have rounds := roundDiv_roundsTo size (ulp_pos size)
  rw [rounded, if_neg small] at *
  have above : 2 ^ 52 * ulp size ≤ y := by
    have := rounds.least (2 ^ 52)
    omega
  obtain ⟨j, rfl⟩ := fits.dvd above
  rw [Nat.mul_comm (ulp size) j] at *
  obtain ⟨even, apart⟩ := rounds.beside tie fun same => other (by rw [same])
  obtain ⟨i, twice⟩ := Nat.dvd_of_mod_eq_zero even
  rw [Nat.cast_mul, Nat.cast_mul]
  rcases Int.natAbs_eq_iff.mp apart with less | greater
  · exact ⟨i, by rw [less, twice]; push_cast; ring⟩
  · exact ⟨-i, by rw [greater, twice]; push_cast; ring⟩

theorem rounded_of_fits (fits : Fits size) : rounded size = size := by
  have := rounded_least size fits
  omega

theorem rounded_lt_iff : rounded size < 2 ^ 1024 ↔ size < limit := by
  obtain ⟨half, top⟩ := two_pow_top
  have pos := Nat.two_pow_pos 970
  unfold limit
  by_cases small : size < 2 ^ 53
  · rw [rounded, if_pos small]
    omega
  obtain ⟨low, up⟩ := ulp_bounds (Nat.le_of_not_lt small)
  have rounds := roundDiv_roundsTo size (ulp_pos size)
  have least := rounds.le_of_le (ulp_pos size) low
  have most := rounds.le_of_lt up
  rw [rounded, if_neg small]
  rcases Nat.lt_trichotomy (size.log2 - 52) 971 with less | same | greater
  · have step : ulp size ≤ 2 ^ 970 := Nat.pow_le_pow_right Nat.two_pos (Nat.le_of_lt_succ less)
    have := Nat.mul_le_mul most step
    exact iff_of_true (by omega) (by omega)
  · have step : ulp size = 2 * 2 ^ 970 := by rw [ulp, same, half]
    have below := rounds.below
    have above := rounds.above
    have even := rounds.even
    rw [step] at below above even least most ⊢
    generalize roundDiv size (2 * 2 ^ 970) = q at *
    rcases (by omega : q = 2 ^ 53 ∨ q = 2 ^ 53 - 1 ∨ q + 2 ≤ 2 ^ 53) with rfl | rfl | less
    · exact iff_of_false (by omega) (by omega)
    · -- the tie goes to the power of two
      exact iff_of_true (by omega) (by omega)
    · have := Nat.mul_le_mul_right (2 * 2 ^ 970) less
      rw [Nat.add_mul] at this
      exact iff_of_true (by omega) (by omega)
  · have step : 2 * 2 ^ 971 ≤ ulp size := twice_pow_le greater
    have := Nat.mul_le_mul least step
    exact iff_of_false (by omega) (by omega)

theorem IsNearest.neg {x : Int} (nearest : IsNearest n x) : IsNearest (-n) (-x) := by
  refine ⟨by rw [Int.natAbs_neg]; exact nearest.double, fun {y} fits => ?_,
    fun {y} fits tie other => ?_⟩
  · have := nearest.least (y := -y) (by rwa [Int.natAbs_neg])
    omega
  · have := nearest.even (y := -y) (by rwa [Int.natAbs_neg]) (by omega) (by omega)
    rw [show 2 * (-x - y) = -(2 * (x - -y)) by ring, Int.neg_dvd, Int.dvd_neg]
    exact this

theorem isNearest_natCast (inRange : rounded size < 2 ^ 1024) : IsNearest size (rounded size) := by
  have zero := rounded_least (y := 0) size ⟨Nat.two_pow_pos _, 0, 0, by decide, rfl⟩
  refine ⟨fits_rounded inRange, fun {y} fits => ?_, fun {y} fits tie other => ?_⟩
  · have := rounded_least size fits
    omega
  · obtain ⟨y, rfl⟩ : ∃ k : Nat, y = k := Int.eq_ofNat_of_zero_le (by omega)
    exact rounded_even fits tie (by omega)

theorem isNearest_rounded (inRange : rounded n.natAbs < 2 ^ 1024) :
    IsNearest n (n.sign * rounded n.natAbs) := by
  rcases Int.lt_trichotomy n 0 with negative | rfl | positive
  · rw [Int.sign_eq_neg_one_of_neg negative, Int.neg_one_mul]
    have nearest := (isNearest_natCast inRange).neg
    rwa [show -(n.natAbs : Int) = n by omega] at nearest
  · exact isNearest_natCast inRange
  · rw [Int.sign_eq_one_of_pos positive, Int.one_mul]
    have nearest := isNearest_natCast inRange
    rwa [show (n.natAbs : Int) = n by omega] at nearest

theorem roundInt?_spec : (n.natAbs < limit → ∃ x, roundInt? n = some x ∧ IsNearest n x) ∧
    (limit ≤ n.natAbs → roundInt? n = none) ∧ (Fits n.natAbs → roundInt? n = some n) := by
  rw [roundInt?_eq]
  refine ⟨fun below => ?_, fun above => ?_, fun fits => ?_⟩
  · have inRange := rounded_lt_iff.mpr below
    rw [if_pos inRange]
    exact ⟨_, rfl, isNearest_rounded inRange⟩
  · exact if_neg fun inRange => Nat.not_le_of_lt (rounded_lt_iff.mp inRange) above
  · rw [rounded_of_fits fits, if_pos fits.1, Int.sign_mul_natAbs]

end Number

namespace Expr

variable {α β : Type} {a : Evaluation α} {x : α} {l r : Expr} {env env₁ env₂ : Env} {m n : Int}

theorem run_bind_ok (done : a.run.run env = (.ok x, env₁)) (f : α → Evaluation β) :
    (a >>= f).run.run env = (f x).run.run env₁ := by
  rw [ExceptT.run_bind, StateT.run_bind, done]
  rfl

theorem eval_mod (left : l.eval.run.run env = (.ok (.int m), env₁))
    (right : r.eval.run.run env₁ = (.ok (.int n), env₂)) :
    (Expr.binary .mod l r).eval.run.run env = (Eval.arithmetic (Number.rem (.int m) (.int n)),
      env₂) := by
  rw [Expr.eval, run_bind_ok left]
  exact run_bind_ok right _

end Expr

/-- A remainder is that of the nearest doubles, and of the integers themselves where these are
doubles; beyond the doubles there is none. -/
theorem remainder_of_nearest {l r : Expr} {env env₁ env₂ : Env} {m n : Int}
    (left : l.eval.run.run env = (.ok (.int m), env₁))
    (right : r.eval.run.run env₁ = (.ok (.int n), env₂)) (other : n ≠ 0) :
    (max m.natAbs n.natAbs < Number.limit → ∃ x y, Number.IsNearest m x ∧ Number.IsNearest n y ∧
      (Expr.binary .mod l r).eval.run.run env = (.ok (.int (x.tmod y)), env₂)) ∧
    (Number.limit ≤ max m.natAbs n.natAbs →
      (Expr.binary .mod l r).eval.run.run env = (.error (.arithmetic .integerTooLarge), env₂)) ∧
    (Number.Fits m.natAbs → Number.Fits n.natAbs →
      ∃ k, (Expr.binary .mod l r).eval.run.run env = (.ok (.int k), env₂) ∧
      k.natAbs < n.natAbs ∧ (k = 0 ∨ k.sign = m.sign) ∧ n ∣ m - k ∧ (k = 0 ↔ n ∣ m)) := by
  rw [Expr.eval_mod left right, Number.rem, if_neg (by simpa [Number.isZero] using other)]
  obtain ⟨near, beyond, precise⟩ := Number.roundInt?_spec
  obtain ⟨near', beyond', exact'⟩ := Number.roundInt?_spec
  refine ⟨fun below => ?_, fun above => ?_, fun fits fits' => ?_⟩
  · obtain ⟨x, rounds, nearest⟩ := near (lt_of_le_of_lt (Nat.le_max_left _ _) below)
    obtain ⟨y, rounds', nearest'⟩ := near' (lt_of_le_of_lt (Nat.le_max_right _ _) below)
    refine ⟨x, y, nearest, nearest', ?_⟩
    simp only [rounds, rounds']
    rfl
  · rcases le_max_iff.mp above with first | second
    · simp only [beyond first]
      rfl
    · simp only [beyond' second]
      cases Number.roundInt? m <;> rfl
  · simp only [precise fits, exact' fits']
    refine ⟨m.tmod n, rfl, ?_, ?_, Int.dvd_self_sub_tmod, Int.dvd_iff_tmod_eq_zero.symm⟩
    · rw [Int.natAbs_tmod]
      exact Nat.mod_lt _ (Int.natAbs_pos.mpr other)
    · rw [← Int.sign_eq_zero_iff_zero, Int.sign_tmod]
      split_ifs
      · exact .inl rfl
      · exact .inr rfl

theorem remainder_of_nearest_odd :
    ((Expr.binary .mod (.number (.int 9007199254740993)) (.number (.int 2))).eval.run.run [] =
      (.ok (.int 0), []) ∧
      ∃ x y, Number.IsNearest 9007199254740993 x ∧ Number.IsNearest 2 y ∧ x.tmod y = 0) ∧
    ∃ k, (Expr.binary .mod (.number (.int (-9007199254740994))) (.number (.int 4))).eval.run.run
      [] = (.ok (.int k), []) ∧
      k ≠ 0 ∧ 4 ∣ -9007199254740994 - k := by
  have odd := @remainder_of_nearest (.number (.int 9007199254740993)) (.number (.int 2)) [] []
    [] _ _ rfl rfl (by decide)
  have even := @remainder_of_nearest (.number (.int (-9007199254740994))) (.number (.int 4)) [] []
    [] _ _ rfl rfl (by decide)
  have zero : (Expr.binary .mod (.number (.int 9007199254740993)) (.number (.int 2))).eval.run.run
      [] = (.ok (.int 0), []) := rfl
  obtain ⟨x, y, nearest, nearest', value⟩ := odd.1 (by decide +kernel)
  obtain ⟨k, value', _, _, divides, none⟩ :=
    even.2.2 ⟨by decide +kernel, 4503599627370497, 1, by decide, rfl⟩
      ⟨by decide +kernel, 4, 0, by decide, rfl⟩
  refine ⟨⟨zero, x, y, nearest, nearest', ?_⟩, k, value', fun zero => absurd (none.mp zero)
    (by decide), divides⟩
  injection value.symm.trans zero with same
  injection same with same
  injection same with same
  injection same

end Runbook
