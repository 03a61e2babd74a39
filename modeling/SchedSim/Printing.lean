import SchedSim.CStrings
import SchedSim.CsvReader
import Mathlib.Data.List.DropRight

/-!
# Printing numbers

How an output stream prints a `double`: as `%g`, with six significant digits and no trailing zeros.
What is printed of a number is plain text, which a CSV file can hold as it is.

* `bare_toString` : an integer of at most 64 bits is printed as a bare text.
* `bare_printDouble` : so is every double.
-/

namespace SchedSim

open Csv

/-! ## Doubles -/

/-- Six significant digits of a positive number, as a whole number, and the exponent of the first
of them. -/
def significant (x : ℚ) : ℕ × ℤ :=
  let e := Int.log 10 x
  let n := (Binary64.roundHalfEven (x / 10 ^ (e - 5))).toNat
  if n = 10 ^ 6 then (10 ^ 5, e + 1) else (n, e)

/-- A fraction behind the whole part of a number, without its trailing zeros. -/
def withFraction (whole fraction : List Char) : List Char :=
  let fraction := fraction.rdropWhile (· = '0')
  if fraction = [] then whole else whole ++ '.' :: fraction

/-- The exponent of a number, with its sign and at least two digits. -/
def exponentChars (e : ℤ) : List Char :=
  (if e < 0 then '-' else '+') ::
    ((if e.natAbs < 10 then ['0'] else []) ++ Nat.toDigits 10 e.natAbs)

/-- A positive number as `%g`. -/
def generalChars (x : ℚ) : List Char :=
  let (n, e) := significant x
  let digits := Nat.toDigits 10 n
  if e < -4 ∨ 6 ≤ e then
    withFraction (digits.take 1) (digits.drop 1) ++ 'e' :: exponentChars e
  else if 0 ≤ e then
    withFraction (digits.take (e + 1).toNat) (digits.drop (e + 1).toNat)
  else withFraction ['0'] (List.replicate (-e - 1).toNat '0' ++ digits)

/-- `out << x` -/
def printDouble : Double → String
  | .finite x _ =>
    if x = 0 then "0" else String.ofList ((if x < 0 then ['-'] else []) ++ generalChars |x|)
  | .infinite negative => if negative then "-inf" else "inf"
  | .nan => "nan"

/-- Something is printed. -/
theorem printDouble_ne_empty (x : Double) : printDouble x ≠ "" := by
  have hwhole : ∀ whole fraction : List Char, whole ≠ [] → withFraction whole fraction ≠ [] := by
    intro whole fraction h
    unfold withFraction
    dsimp only
    split
    · exact h
    · simp
  have hgeneral : ∀ x, generalChars x ≠ [] := by
    intro x
    have hdigits := Nat.toDigits_ne_nil (b := 10) (n := (significant x).1)
    unfold generalChars
    dsimp only
    split_ifs with hexponent hinside
    · simp
    · apply hwhole
      rw [ne_eq, List.take_eq_nil_iff, not_or]
      exact ⟨by omega, hdigits⟩
    · exact hwhole _ _ (by simp)
  cases x with
  | finite x exact =>
    show (if x = 0 then "0" else String.ofList ((if x < 0 then ['-'] else []) ++ generalChars |x|))
      ≠ ""
    by_cases hx : x = 0
    · simp [hx]
    · intro h
      rw [if_neg hx] at h
      have hchars := congrArg String.toList h
      simp [hgeneral] at hchars
  | infinite negative => cases negative <;> decide
  | nan => decide

/-! ## The characters of numbers -/

/-- Characters that numbers are printed with. -/
def Numeric (cs : List Char) : Prop :=
  ∀ c ∈ cs, c.isDigit = true ∨ c = '.' ∨ c = 'e' ∨ c = '+' ∨ c = '-'

theorem numeric_toDigits (n : ℕ) : Numeric (Nat.toDigits 10 n) :=
  fun _ hc => Or.inl (CStrings.isDigit_of_mem hc)

theorem numeric_replicate_zero (n : ℕ) : Numeric (List.replicate n '0') := by
  intro c hc
  rw [(List.mem_replicate.1 hc).2]
  decide

theorem Numeric.append {cs cs' : List Char} (h : Numeric cs) (h' : Numeric cs') :
    Numeric (cs ++ cs') :=
  fun c hc => (List.mem_append.1 hc).elim (h c) (h' c)

theorem Numeric.of_subset {cs cs' : List Char} (h : Numeric cs') (hsub : cs ⊆ cs') : Numeric cs :=
  fun c hc => h c (hsub hc)

theorem Numeric.cons {c : Char} {cs : List Char} (hc : Numeric [c]) (h : Numeric cs) :
    Numeric (c :: cs) :=
  hc.append h

theorem Numeric.ne {cs : List Char} (h : Numeric cs) {c : Char} (hc : c ∈ cs) :
    c ≠ ',' ∧ c ≠ '\n' ∧ c ≠ '\r' ∧ c ≠ '"' := by
  refine ⟨?_, ?_, ?_, ?_⟩ <;>
    · rintro rfl
      have := h _ hc
      revert this
      decide

theorem Numeric.plain {s : String} (h : Numeric s.toList) : Plain s := fun _ hc =>
  have hne := h.ne hc
  ⟨hne.1, hne.2.1, hne.2.2.1⟩

theorem Numeric.bare {s : String} (h : Numeric s.toList) (hlength : s.toList.length ≤ fieldLimit) :
    Bare s := by
  refine ⟨h.plain, fun hquote => ?_, hlength⟩
  exact (h.ne (List.mem_of_mem_head? hquote)).2.2.2 rfl

theorem numeric_toString (n : ℤ) : Numeric (toString n).toList := by
  rw [CStrings.toList_toString_int]
  split
  · exact Numeric.cons (by simp [Numeric]) (numeric_toDigits _)
  · exact numeric_toDigits _

theorem numeric_withFraction {whole fraction : List Char} (hwhole : Numeric whole)
    (hfraction : Numeric fraction) : Numeric (withFraction whole fraction) := by
  have hkeep : Numeric (fraction.rdropWhile (· = '0')) :=
    hfraction.of_subset (List.rdropWhile_prefix _ _).subset
  unfold withFraction
  dsimp only
  split
  · exact hwhole
  · exact hwhole.append (Numeric.cons (by simp [Numeric]) hkeep)

theorem numeric_exponentChars (e : ℤ) : Numeric (exponentChars e) := by
  refine Numeric.cons ?_ (Numeric.append ?_ (numeric_toDigits _))
  · split <;> simp [Numeric]
  · split <;> simp [Numeric]

theorem numeric_generalChars (x : ℚ) : Numeric (generalChars x) := by
  have hdigits := numeric_toDigits (significant x).1
  unfold generalChars
  dsimp only
  split_ifs
  · exact (numeric_withFraction (hdigits.of_subset (List.take_subset _ _))
      (hdigits.of_subset (List.drop_subset _ _))).append
      (Numeric.cons (by simp [Numeric]) (numeric_exponentChars _))
  · exact numeric_withFraction (hdigits.of_subset (List.take_subset _ _))
      (hdigits.of_subset (List.drop_subset _ _))
  · exact numeric_withFraction (by simp [Numeric]) ((numeric_replicate_zero _).append hdigits)

/-! ## The length of numbers -/

theorem length_withFraction_le (whole fraction : List Char) :
    (withFraction whole fraction).length ≤ whole.length + fraction.length + 1 := by
  have hkeep := (List.rdropWhile_prefix (fun c => c = '0') fraction).length_le
  unfold withFraction
  dsimp only
  split
  · omega
  · rw [List.length_append, List.length_cons]
    omega

theorem significant_le {x : ℚ} (hx : 0 < x) :
    (significant x).1 ≤ 10 ^ 6 ∧ (significant x).2 ≤ Int.log 10 x + 1 ∧
      Int.log 10 x ≤ (significant x).2 := by
  have hlt : x / 10 ^ (Int.log 10 x - 5) < ((10 ^ 6 : ℤ) : ℚ) := by
    rw [div_lt_iff₀ (zpow_pos (by norm_num) _)]
    have hlog := Int.lt_zpow_succ_log_self (b := 10) (by norm_num) x
    have hsplit : ((10 : ℕ) : ℚ) ^ (Int.log 10 x + 1)
        = ((10 ^ 6 : ℤ) : ℚ) * 10 ^ (Int.log 10 x - 5) := by
      have hsum : Int.log 10 x + 1 = 6 + (Int.log 10 x - 5) := by ring
      rw [hsum, Nat.cast_ofNat, zpow_add₀ (by norm_num)]
      norm_num
    exact hsplit ▸ hlog
  have hround := Binary64.abs_roundHalfEven_le
    (abs_lt.2 ⟨lt_of_lt_of_le (by norm_num) (div_nonneg hx.le (zpow_pos (by norm_num) _).le), hlt⟩)
  have hn : (Binary64.roundHalfEven (x / 10 ^ (Int.log 10 x - 5))).toNat ≤ 10 ^ 6 := by
    have := (abs_le.1 hround).2
    omega
  unfold significant
  dsimp only
  split_ifs
  · exact ⟨by norm_num, by omega, by omega⟩
  · exact ⟨hn, by omega, by omega⟩

theorem length_exponentChars_le {e : ℤ} (he : e.natAbs < 10 ^ 4) :
    (exponentChars e).length ≤ 6 := by
  have hdigits := (Nat.length_toDigits_le_iff (b := 10) (k := 4) (by norm_num) (by norm_num)).2 he
  rw [exponentChars, List.length_cons, List.length_append]
  split_ifs <;> simp <;> omega

theorem length_generalChars_le {x : ℚ} (hx : 0 < x)
    (hlog : -1074 ≤ Int.log 10 x ∧ Int.log 10 x < 1024) : (generalChars x).length ≤ 20 := by
  obtain ⟨hn, hle, hge⟩ := significant_le hx
  have hdigits := (Nat.length_toDigits_le_iff (b := 10) (k := 7) (n := (significant x).1)
    (by norm_num) (by norm_num)).2 (by omega)
  have hexponent := length_exponentChars_le (e := (significant x).2) (by omega)
  unfold generalChars
  dsimp only
  split_ifs with hfar hpos
  · have hpoint := length_withFraction_le ((Nat.toDigits 10 (significant x).1).take 1)
      ((Nat.toDigits 10 (significant x).1).drop 1)
    rw [List.length_take, List.length_drop] at hpoint
    rw [List.length_append, List.length_cons]
    omega
  · refine (length_withFraction_le _ _).trans ?_
    rw [List.length_take, List.length_drop]
    omega
  · refine (length_withFraction_le _ _).trans ?_
    rw [List.length_append, List.length_replicate, List.length_singleton]
    omega

/-- The decimal exponent of a double other than zero. -/
theorem log_bounds {x : ℚ} (hx : x ≠ 0) (h : Binary64.nearest x = x ∧ |x| < 2 ^ 1024) :
    -1074 ≤ Int.log 10 |x| ∧ Int.log 10 |x| < 1024 := by
  have hpos : 0 < |x| := abs_pos.2 hx
  have hten : ∀ k : ℕ, (2 : ℚ) ^ k ≤ 10 ^ k := pow_le_pow_left₀ (by norm_num) (by norm_num)
  constructor
  · rw [← Int.zpow_le_iff_le_log (by norm_num) hpos]
    have hexact : (Binary64.roundHalfEven (x / 2 ^ Binary64.lastPlace x) : ℚ)
        * 2 ^ Binary64.lastPlace x = x := h.1
    have hne : Binary64.roundHalfEven (x / 2 ^ Binary64.lastPlace x) ≠ 0 := by
      intro hzero
      rw [hzero, Int.cast_zero, zero_mul] at hexact
      exact hx hexact.symm
    calc ((10 : ℕ) : ℚ) ^ (-1074 : ℤ) ≤ 2 ^ (-1074 : ℤ) := by
          rw [Nat.cast_ofNat, show (-1074 : ℤ) = -((1074 : ℕ) : ℤ) from rfl, zpow_neg, zpow_neg,
            zpow_natCast, zpow_natCast]
          exact inv_anti₀ (pow_pos (by norm_num) _) (hten 1074)
      _ ≤ 2 ^ Binary64.lastPlace x := zpow_le_zpow_right₀ (by norm_num) (le_max_right _ _)
      _ ≤ |(Binary64.roundHalfEven (x / 2 ^ Binary64.lastPlace x) : ℚ)|
            * 2 ^ Binary64.lastPlace x :=
          le_mul_of_one_le_left (Binary64.two_zpow_pos _).le (by
            exact_mod_cast Int.one_le_abs hne)
      _ = |x| := by
          rw [← abs_of_pos (Binary64.two_zpow_pos (Binary64.lastPlace x)), ← abs_mul,
            abs_of_pos (Binary64.two_zpow_pos (Binary64.lastPlace x)), hexact]
  · rw [← Int.lt_zpow_iff_log_lt (by norm_num) hpos]
    rw [Nat.cast_ofNat, show (1024 : ℤ) = ((1024 : ℕ) : ℤ) from rfl, zpow_natCast]
    exact h.2.trans_le (hten 1024)

/-! ## Bare numbers -/

/-- A double is printed as a bare text. -/
theorem bare_printDouble (x : Double) : Bare (printDouble x) := by
  cases x with
  | finite x hx =>
    rw [printDouble]
    split
    next => exact Numeric.bare (numeric_toDigits 0) (by decide)
    next hzero =>
      have hlength := length_generalChars_le (abs_pos.2 hzero) (log_bounds hzero hx)
      refine Numeric.bare ?_ ?_
      · rw [String.toList_ofList]
        exact Numeric.append (by split <;> simp [Numeric]) (numeric_generalChars _)
      · rw [String.toList_ofList, List.length_append, fieldLimit]
        split <;> simp <;> omega
  | infinite negative => cases negative <;> exact ⟨by decide, by decide, by decide⟩
  | nan => exact ⟨by decide, by decide, by decide⟩

/-- An integer of at most 64 bits is printed as a bare text. -/
theorem bare_toString {n : ℤ} (h : n.natAbs < 10 ^ 20) : Bare (toString n) := by
  refine Numeric.bare (numeric_toString n) ?_
  have hdigits := (Nat.length_toDigits_le_iff (b := 10) (k := 20) (by norm_num) (by norm_num)).2 h
  rw [CStrings.toList_toString_int, fieldLimit]
  split
  · rw [List.length_cons]
    omega
  · omega

end SchedSim
