import Mathlib.Data.Int.ConditionallyCompleteOrder
import Mathlib.Data.Int.Log
import Mathlib.Data.Rat.Floor
import Mathlib.Tactic.Linarith
import Mathlib.Tactic.Ring
import Mathlib.Tactic.NormNum
import Mathlib.Tactic.Positivity
import Mathlib.Tactic.FieldSimp

/-!
# Rounding to binary64

The double-precision numbers as a set of rationals, and the rounding of a rational to the
nearest of them with ties to even, as a reader of decimal numerals and a conversion from an
integer do it.

* `nearest_of_significand` : a number of at most 53 significant bits is its own rounding.
* `nearest_nearest` : rounding twice is rounding once.
* `nearest_intCast` : a whole number rounds to a whole number.
* `nearest_mono` : rounding keeps the order of numbers.
* `le_nearest`, `nearest_le` : how far rounding can be from the number.

A `Double` is one of these numbers, an infinity or a NaN.
-/

namespace SchedSim

namespace Binary64

/-! ## Rounding to a whole number -/

/-- The whole number nearest to `x`, the even one of the two when `x` lies half way. -/
def roundHalfEven (x : ℚ) : ℤ :=
  let below := ⌊x⌋
  if x - below < 1 / 2 then below
  else if 1 / 2 < x - below then below + 1
  else if below % 2 = 0 then below
  else below + 1

@[simp] theorem roundHalfEven_intCast (n : ℤ) : roundHalfEven n = n := by
  simp [roundHalfEven]

/-- Rounding keeps a number between whole bounds. -/
theorem abs_roundHalfEven_le {x : ℚ} {n : ℤ} (h : |x| < n) : |roundHalfEven x| ≤ n := by
  obtain ⟨hlo, hhi⟩ := abs_lt.1 h
  have hge : -n ≤ ⌊x⌋ := Int.le_floor.2 (by push_cast; linarith)
  have hlt : ⌊x⌋ < n := Int.floor_lt.2 hhi
  rw [abs_le]
  unfold roundHalfEven
  dsimp only
  split_ifs <;> constructor <;> omega

/-- A whole number less than a half above `x` is at most the rounding of `x`. -/
theorem le_roundHalfEven {x : ℚ} {n : ℤ} (h : n - x < 1 / 2) : n ≤ roundHalfEven x := by
  have hfloor : (⌊x⌋ : ℚ) ≤ x := Int.floor_le x
  rcases le_or_gt n ⌊x⌋ with hn | hn
  · unfold roundHalfEven
    dsimp only
    split_ifs <;> omega
  · -- `x` lies above the middle between `⌊x⌋` and `n`
    have hcast : (⌊x⌋ : ℚ) + 1 ≤ n := by exact_mod_cast hn
    have hhalf : 1 / 2 < x - ⌊x⌋ := by linarith
    have hn' : n ≤ ⌊x⌋ + 1 := by
      have hup : (n : ℚ) < ((⌊x⌋ + 2 : ℤ) : ℚ) := by
        push_cast
        linarith [Int.lt_floor_add_one x]
      have := Int.cast_lt.1 hup
      omega
    have hround : roundHalfEven x = ⌊x⌋ + 1 := by
      unfold roundHalfEven
      dsimp only
      rw [if_neg (not_lt.2 hhalf.le), if_pos hhalf]
    omega

theorem roundHalfEven_le (x : ℚ) : (roundHalfEven x : ℚ) ≤ x + 1 / 2 := by
  have hlo := Int.floor_le x
  unfold roundHalfEven
  dsimp only
  split_ifs <;> push_cast <;> linarith

/-- Rounding to a whole number keeps the order. -/
theorem roundHalfEven_mono : Monotone roundHalfEven := by
  intro x y hxy
  have hfloor : ⌊x⌋ ≤ ⌊y⌋ := Int.floor_mono hxy
  have hx : roundHalfEven x ≤ ⌊x⌋ + 1 ∧ ⌊x⌋ ≤ roundHalfEven x := by
    unfold roundHalfEven
    dsimp only
    split_ifs <;> constructor <;> omega
  have hy : ⌊y⌋ ≤ roundHalfEven y := by
    unfold roundHalfEven
    dsimp only
    split_ifs <;> omega
  rcases hfloor.lt_or_eq with hlt | heq
  · omega
  · -- between two whole numbers the greater of the two is rounded up if the smaller is
    unfold roundHalfEven
    dsimp only
    rw [heq]
    split_ifs <;> first | omega | (exfalso; linarith)

/-! ## The nearest double -/

/-- The exponent of the last significant bit of a double near `x`: 53 bits of significand, and
no exponent below the one of the subnormal numbers. -/
def lastPlace (x : ℚ) : ℤ :=
  max (Int.log 2 |x| - 52) (-1074)

/-- The double nearest to `x`, as if the exponent had no upper bound. -/
def nearest (x : ℚ) : ℚ :=
  roundHalfEven (x / 2 ^ lastPlace x) * 2 ^ lastPlace x

theorem two_zpow_pos (e : ℤ) : (0 : ℚ) < 2 ^ e :=
  zpow_pos (by norm_num) e

/-- A number which is a multiple of its last place is not changed by rounding. -/
theorem nearest_of_multiple {x : ℚ} {m : ℤ} (h : x = m * 2 ^ lastPlace x) : nearest x = x := by
  have hdiv : x / 2 ^ lastPlace x = m := by
    rw [div_eq_iff (two_zpow_pos _).ne']
    exact h
  rw [nearest, hdiv, roundHalfEven_intCast]
  exact h.symm

@[simp] theorem nearest_zero : nearest 0 = 0 :=
  nearest_of_multiple (m := 0) (by simp)

theorem lastPlace_le {m e : ℤ} (hm0 : m ≠ 0) (hm : |m| < 2 ^ 53) (he : -1074 ≤ e) :
    lastPlace (m * 2 ^ e) ≤ e := by
  have hpos : 0 < |(m : ℚ) * 2 ^ e| :=
    abs_pos.2 (mul_ne_zero (by exact_mod_cast hm0) (two_zpow_pos e).ne')
  have hlt : |(m : ℚ) * 2 ^ e| < ((2 : ℕ) : ℚ) ^ (53 + e) := by
    rw [abs_mul, abs_of_pos (two_zpow_pos e), Nat.cast_ofNat, zpow_add₀ (by norm_num)]
    refine mul_lt_mul_of_pos_right ?_ (two_zpow_pos e)
    exact_mod_cast hm
  have hlog := (Int.lt_zpow_iff_log_lt (by norm_num) hpos).1 hlt
  unfold lastPlace
  omega

/-- A number of at most 53 significant bits is a double. -/
theorem nearest_of_significand {m e : ℤ} (hm : |m| < 2 ^ 53) (he : -1074 ≤ e) :
    nearest (m * 2 ^ e) = m * 2 ^ e := by
  rcases eq_or_ne m 0 with rfl | hm0
  · simp
  · have hle := lastPlace_le hm0 hm he
    -- the bits below `e` are zero, so the last place, which is no higher, divides the number
    refine nearest_of_multiple (m := m * 2 ^ (e - lastPlace (m * 2 ^ e)).toNat) ?_
    have hexp : (2 : ℚ) ^ (e - lastPlace (m * 2 ^ e)).toNat * 2 ^ lastPlace (m * 2 ^ e)
        = 2 ^ e := by
      rw [← zpow_natCast, Int.toNat_of_nonneg (by omega), ← zpow_add₀ (by norm_num)]
      congr 1
      omega
    push_cast
    rw [mul_assoc, hexp]

/-- Whole numbers below `2 ^ 53` are doubles. -/
theorem nearest_intCast_of_lt {n : ℤ} (h : |n| < 2 ^ 53) : nearest n = n := by
  simpa using nearest_of_significand (e := 0) h (by norm_num)

theorem abs_div_lastPlace_lt (x : ℚ) : |x / 2 ^ lastPlace x| < ((2 ^ 53 : ℤ) : ℚ) := by
  have hpos := two_zpow_pos (lastPlace x)
  rw [abs_div, abs_of_pos hpos, div_lt_iff₀ hpos]
  have hexp : Int.log 2 |x| + 1 ≤ 53 + lastPlace x := by
    unfold lastPlace
    omega
  calc |x| < ((2 : ℕ) : ℚ) ^ (Int.log 2 |x| + 1) := Int.lt_zpow_succ_log_self (by norm_num) |x|
    _ ≤ 2 ^ (53 + lastPlace x) := zpow_le_zpow_right₀ (by norm_num) hexp
    _ = ((2 ^ 53 : ℤ) : ℚ) * 2 ^ lastPlace x := by
        rw [zpow_add₀ (by norm_num)]
        norm_num

/-- A whole number that exceeds `x` by less than half of the last place of `x` is not passed
by rounding. -/
theorem le_nearest {x : ℚ} {n : ℤ} (hx : 0 ≤ x) (hplace : lastPlace x ≤ 0)
    (h : n - x ≤ x / 2 ^ 54) : n ≤ nearest x := by
  have hpos := two_zpow_pos (lastPlace x)
  have hsig := abs_div_lastPlace_lt x
  rw [abs_of_nonneg (div_nonneg hx hpos.le)] at hsig
  -- in units of the last place the number is whole
  obtain ⟨m, hm⟩ : ∃ m : ℤ, (n : ℚ) = m * 2 ^ lastPlace x := by
    refine ⟨n * 2 ^ (-lastPlace x).toNat, ?_⟩
    push_cast
    rw [← zpow_natCast, Int.toNat_of_nonneg (by omega), mul_assoc, ← zpow_add₀ (by norm_num)]
    simp
  have hm' : (m : ℚ) - x / 2 ^ lastPlace x < 1 / 2 := by
    have hdiv : (m : ℚ) - x / 2 ^ lastPlace x = (n - x) / 2 ^ lastPlace x := by
      rw [hm, sub_div, mul_div_assoc, div_self hpos.ne', mul_one]
    have hle : (n - x) / 2 ^ lastPlace x ≤ x / 2 ^ lastPlace x / 2 ^ 54 := by
      rw [div_right_comm]
      exact div_le_div_of_nonneg_right h hpos.le
    rw [hdiv]
    push_cast at hsig
    linarith
  rw [nearest, hm]
  exact mul_le_mul_of_nonneg_right (Int.cast_le.2 (le_roundHalfEven hm')) hpos.le

/-- Rounding adds at most half of the last place. -/
theorem nearest_le (x : ℚ) : nearest x ≤ x + 2 ^ lastPlace x / 2 := by
  have hpos := two_zpow_pos (lastPlace x)
  calc nearest x ≤ (x / 2 ^ lastPlace x + 1 / 2) * 2 ^ lastPlace x :=
        mul_le_mul_of_nonneg_right (roundHalfEven_le _) hpos.le
    _ = x + 2 ^ lastPlace x / 2 := by
        rw [add_mul, div_mul_cancel₀ _ hpos.ne']
        ring

/-- The last place of a number below `2 ^ k`. -/
theorem lastPlace_le_of_lt {x : ℚ} {k : ℕ} (hx : 0 < x) (h : x < 2 ^ k) :
    lastPlace x ≤ max ((k : ℤ) - 53) (-1074) := by
  have hlog : Int.log 2 x < k :=
    (Int.lt_zpow_iff_log_lt (by norm_num) hx).1 (by exact_mod_cast h)
  unfold lastPlace
  rw [abs_of_pos hx]
  omega

theorem lastPlace_abs (x : ℚ) : lastPlace |x| = lastPlace x := by
  rw [lastPlace, abs_abs, lastPlace]

/-- Rounding carries a number no further than to the power of two above it. -/
theorem abs_nearest_le {x : ℚ} {k : ℕ} (hk : 0 ≤ (k : ℤ) - 53) (h : |x| < 2 ^ k) :
    |nearest x| ≤ 2 ^ k := by
  rcases eq_or_ne x 0 with rfl | hx
  · rw [nearest_zero, abs_zero]
    positivity
  · have hplace := lastPlace_le_of_lt (abs_pos.2 hx) h
    rw [lastPlace_abs, max_eq_left (by omega)] at hplace
    have hround : ((|roundHalfEven (x / 2 ^ lastPlace x)| : ℤ) : ℚ) ≤ ((2 ^ 53 : ℤ) : ℚ) :=
      Int.cast_le.2 (abs_roundHalfEven_le (abs_div_lastPlace_lt x))
    rw [Int.cast_abs] at hround
    calc |nearest x| = |(roundHalfEven (x / 2 ^ lastPlace x) : ℚ)| * 2 ^ lastPlace x := by
          rw [nearest, abs_mul, abs_of_pos (two_zpow_pos _)]
      _ ≤ ((2 ^ 53 : ℤ) : ℚ) * 2 ^ ((k : ℤ) - 53) :=
          mul_le_mul hround (zpow_le_zpow_right₀ (by norm_num) hplace) (two_zpow_pos _).le
            (by norm_num)
      _ = 2 ^ k := by
          rw [zpow_sub₀ (by norm_num), zpow_natCast]
          norm_num
          ring

/-- Rounding an already rounded number changes nothing. -/
theorem nearest_nearest (x : ℚ) : nearest (nearest x) = nearest x := by
  have hle : |roundHalfEven (x / 2 ^ lastPlace x)| ≤ 2 ^ 53 :=
    abs_roundHalfEven_le (abs_div_lastPlace_lt x)
  have he : -1074 ≤ lastPlace x := le_max_right _ _
  rcases hle.lt_or_eq with hlt | heq
  · exact nearest_of_significand hlt he
  · -- rounding carried into a 54th bit: the significand is `2 ^ 52`, one place higher
    obtain ⟨s, hs, hm⟩ : ∃ s : ℤ, |s| < 2 ^ 53 ∧
        roundHalfEven (x / 2 ^ lastPlace x) = s * 2 := by
      rcases abs_eq (by norm_num) |>.1 heq with h | h
      · exact ⟨2 ^ 52, by norm_num, by omega⟩
      · exact ⟨-2 ^ 52, by norm_num, by omega⟩
    have hshift : nearest x = s * 2 ^ (lastPlace x + 1) := by
      rw [nearest, hm, zpow_add₀ (by norm_num)]
      push_cast
      ring
    rw [hshift]
    exact nearest_of_significand hs (by omega)

/-- A whole number rounds to a whole number. -/
theorem nearest_intCast (n : ℤ) : ∃ m : ℤ, nearest n = m := by
  rcases lt_or_ge |n| (2 ^ 53) with hlt | hge
  · exact ⟨n, nearest_intCast_of_lt hlt⟩
  · have hlog : 53 ≤ Int.log 2 |(n : ℚ)| := by
      refine (Int.zpow_le_iff_le_log (by norm_num) ?_).1 ?_
      · exact abs_pos.2 (by rintro h; norm_num [Int.cast_eq_zero.1 h] at hge)
      · exact_mod_cast hge
    have hpos : 0 ≤ lastPlace n := by
      unfold lastPlace
      omega
    refine ⟨roundHalfEven (n / 2 ^ lastPlace n) * 2 ^ (lastPlace n).toNat, ?_⟩
    push_cast
    rw [nearest, ← zpow_natCast, Int.toNat_of_nonneg hpos]

/-- The last place of the greater number is the greater one. -/
theorem lastPlace_le_lastPlace {x y : ℚ} (hx : x ≠ 0) (h : |x| ≤ |y|) : lastPlace x ≤ lastPlace y :=
  max_le_max_right _ (sub_le_sub_right (Int.log_mono_right (abs_pos.2 hx) h) 52)

/-- A number rounds to no more than the power of two above it. -/
theorem abs_nearest_le_zpow (x : ℚ) : |nearest x| ≤ 2 ^ (lastPlace x + 53) := by
  have hround : ((|roundHalfEven (x / 2 ^ lastPlace x)| : ℤ) : ℚ) ≤ ((2 ^ 53 : ℤ) : ℚ) :=
    Int.cast_le.2 (abs_roundHalfEven_le (abs_div_lastPlace_lt x))
  rw [nearest, abs_mul, abs_of_pos (two_zpow_pos _), zpow_add₀ (by norm_num), ← Int.cast_abs,
    mul_comm]
  refine mul_le_mul_of_nonneg_left ?_ (two_zpow_pos _).le
  exact_mod_cast hround

theorem nearest_nonneg {x : ℚ} (hx : 0 ≤ x) : 0 ≤ nearest x := by
  have hround := roundHalfEven_mono (div_nonneg hx (two_zpow_pos (lastPlace x)).le)
  rw [← Int.cast_zero, roundHalfEven_intCast] at hround
  exact mul_nonneg (Int.cast_nonneg hround) (two_zpow_pos _).le

theorem nearest_nonpos {x : ℚ} (hx : x ≤ 0) : nearest x ≤ 0 := by
  have hround := roundHalfEven_mono
    (div_nonpos_of_nonpos_of_nonneg hx (two_zpow_pos (lastPlace x)).le)
  rw [← Int.cast_zero, roundHalfEven_intCast] at hround
  exact mul_nonpos_of_nonpos_of_nonneg (Int.cast_nonpos.2 hround) (two_zpow_pos _).le

/-- A normal number rounds to no less than the power of two below it. -/
theorem zpow_le_abs_nearest {x : ℚ} (hx : x ≠ 0) (h : -1074 < lastPlace x) :
    2 ^ (lastPlace x + 52) ≤ |nearest x| := by
  have hlog : Int.log 2 |x| = lastPlace x + 52 := by
    unfold lastPlace at h ⊢
    omega
  have hpos : 0 < |x| := abs_pos.2 hx
  have hle : ((2 ^ 52 : ℤ) : ℚ) ≤ |x| / 2 ^ lastPlace x := by
    rw [le_div_iff₀ (two_zpow_pos _)]
    calc ((2 ^ 52 : ℤ) : ℚ) * 2 ^ lastPlace x = ((2 : ℕ) : ℚ) ^ Int.log 2 |x| := by
          rw [hlog, Nat.cast_ofNat, zpow_add₀ (by norm_num)]
          norm_num [mul_comm]
      _ ≤ |x| := Int.zpow_log_le_self (by norm_num) hpos
  have hround : (2 : ℚ) ^ 52 ≤ |(roundHalfEven (x / 2 ^ lastPlace x) : ℚ)| := by
    rw [← Int.cast_abs]
    rcases le_total 0 x with hx | hx
    · rw [abs_of_nonneg hx] at hle
      have hmono := roundHalfEven_mono hle
      rw [roundHalfEven_intCast] at hmono
      exact_mod_cast hmono.trans (le_abs_self _)
    · rw [abs_of_nonpos hx, neg_div] at hle
      have hmono := roundHalfEven_mono (le_neg.1 hle)
      rw [← Int.cast_neg, roundHalfEven_intCast] at hmono
      exact_mod_cast (le_neg.1 hmono).trans (neg_le_abs _)
  rw [nearest, abs_mul, abs_of_pos (two_zpow_pos (lastPlace x)), zpow_add₀ (by norm_num), mul_comm]
  exact mul_le_mul_of_nonneg_right hround (two_zpow_pos _).le

/-- What has a smaller last place stays smaller. -/
theorem abs_nearest_le_of_lastPlace_lt {x y : ℚ} (hy : y ≠ 0) (h : lastPlace x < lastPlace y) :
    |nearest x| ≤ |nearest y| := by
  have hsubnormal : -1074 ≤ lastPlace x := le_max_right _ _
  calc |nearest x| ≤ 2 ^ (lastPlace x + 53) := abs_nearest_le_zpow x
    _ ≤ 2 ^ (lastPlace y + 52) := zpow_le_zpow_right₀ (by norm_num) (by omega)
    _ ≤ |nearest y| := zpow_le_abs_nearest hy (by omega)

/-- Rounding keeps the order of numbers. -/
theorem nearest_mono : Monotone nearest := by
  intro x y hxy
  have hsame : lastPlace x = lastPlace y → nearest x ≤ nearest y := by
    intro heq
    have hround := roundHalfEven_mono
      (div_le_div_of_nonneg_right hxy (two_zpow_pos (lastPlace y)).le)
    rw [nearest, nearest, heq]
    exact mul_le_mul_of_nonneg_right (Int.cast_le.2 hround) (two_zpow_pos _).le
  rcases le_or_gt x 0 with hx | hx
  · rcases le_or_gt 0 y with hy | hy
    · exact (nearest_nonpos hx).trans (nearest_nonneg hy)
    · have hle : lastPlace y ≤ lastPlace x := by
        apply lastPlace_le_lastPlace hy.ne
        rw [abs_of_neg hy, abs_of_nonpos hx]
        exact neg_le_neg hxy
      rcases hle.lt_or_eq with hlt | heq
      · have habs := abs_nearest_le_of_lastPlace_lt (hxy.trans_lt hy).ne hlt
        rw [abs_of_nonpos (nearest_nonpos hy.le), abs_of_nonpos (nearest_nonpos hx)] at habs
        exact neg_le_neg_iff.1 habs
      · exact hsame heq.symm
  · have hle : lastPlace x ≤ lastPlace y := by
      apply lastPlace_le_lastPlace hx.ne'
      rw [abs_of_pos hx, abs_of_pos (hx.trans_le hxy)]
      exact hxy
    rcases hle.lt_or_eq with hlt | heq
    · have habs := abs_nearest_le_of_lastPlace_lt (hx.trans_le hxy).ne' hlt
      rwa [abs_of_nonneg (nearest_nonneg hx.le),
        abs_of_nonneg (nearest_nonneg (hx.le.trans hxy))] at habs
    · exact hsame heq

end Binary64

/-! ## Doubles -/

open Binary64 in
/-- A binary64 value: a representable number (the two zeros are one number here), an infinity,
or a NaN. -/
inductive Double where
  | finite (x : ℚ) (exact : nearest x = x ∧ |x| < 2 ^ 1024)
  | infinite (negative : Bool)
  | nan
  deriving DecidableEq

namespace Double

open Binary64

/-- The double nearest to a number. -/
def ofRat (x : ℚ) : Double :=
  if h : |nearest x| < 2 ^ 1024 then .finite (nearest x) ⟨nearest_nearest x, h⟩
  else .infinite (x < 0)

/-- The number a finite double stands for. -/
def toRat? : Double → Option ℚ
  | .finite x _ => some x
  | .infinite _ => none
  | .nan => none

/-- `x <= 0.0`, which does not hold of a NaN -/
def nonpos : Double → Bool
  | .finite x _ => x ≤ 0
  | .infinite negative => negative
  | .nan => false

theorem ofRat_of_exact {x : ℚ} (h : nearest x = x ∧ |x| < 2 ^ 1024) : ofRat x = .finite x h := by
  have hlt : |nearest x| < 2 ^ 1024 := by
    rw [h.1]
    exact h.2
  rw [ofRat, dif_pos hlt]
  simp only [h.1]

@[simp] theorem nonpos_ofRat_zero : (ofRat 0).nonpos = true := by
  rw [ofRat_of_exact ⟨nearest_zero, by norm_num⟩]
  simp [nonpos]

theorem nearest_of_toRat? {x y : ℚ} (h : (ofRat x).toRat? = some y) :
    y = nearest x ∧ |y| < 2 ^ 1024 := by
  unfold ofRat at h
  split at h
  · rename_i hlt
    rw [toRat?, Option.some.injEq] at h
    rw [← h]
    exact ⟨rfl, hlt⟩
  · simp [toRat?] at h

/-- Reading a number as a double gives the number itself exactly when the number is a double. -/
theorem toRat?_ofRat_eq_self {x : ℚ} :
    (ofRat x).toRat? = some x ↔ nearest x = x ∧ |x| < 2 ^ 1024 := by
  constructor
  · intro h
    obtain ⟨hx, hlt⟩ := nearest_of_toRat? h
    exact ⟨hx.symm, hlt⟩
  · intro h
    rw [ofRat_of_exact h, toRat?]

end Double

end SchedSim
