import SchedSim.Binary64
import Mathlib.Data.List.TakeWhile
import Mathlib.Tactic.Ring

/-!
# Reading numbers off C strings

The conversions of the C library that a command-line parser uses: `strtol` in base ten with a
64-bit `long` and its truncation `atoi`, `strtod` with all its forms of numerals, and
`tolower` in the C locale. Out of range, `strtol` saturates and the narrowing to `int` wraps.

* `strtol_toString`, `atoi_toString` : a printed number is read back if it fits.
* `atof_toString` : a printed whole number is read as the double nearest to it.
* `stoi_toString`, `stod_toString` : with its sign, it is read back by `stoi` and `stod`.
-/

namespace SchedSim

namespace CStrings

/-- `isspace` -/
def isSpace (c : Char) : Bool :=
  c = ' ' || c = '\t' || c = '\n' || c = '\x0b' || c = '\x0c' || c = '\r'

/-- `tolower`, on each character of a string -/
def toLower (s : String) : String :=
  String.ofList (s.toList.map Char.toLower)

/-- An optional sign, and what follows it. -/
def splitSign : List Char → Bool × List Char
  | '-' :: rest => (true, rest)
  | '+' :: rest => (false, rest)
  | rest => (false, rest)

/-! ## Integers -/

/-- `strtol(s, nullptr, 10)` -/
def strtol (s : String) : ℤ :=
  let (negative, rest) := splitSign (s.toList.dropWhile isSpace)
  let magnitude : ℤ := Nat.ofDigitChars 10 (rest.takeWhile Char.isDigit) 0
  if negative then max (-magnitude) (-2 ^ 63) else min magnitude (2 ^ 63 - 1)

/-- `atol` -/
def atol (s : String) : ℤ :=
  strtol s

/-- `atoi`, the value of `strtol` narrowed to 32 bits -/
def atoi (s : String) : ℤ :=
  (strtol s).bmod (2 ^ 32)

/-- `std::stoi`, nothing where it throws: when there is no digit to read, and out of the range of
an `int`. -/
def stoi (s : String) : Option ℤ :=
  if ((splitSign (s.toList.dropWhile isSpace)).2.takeWhile Char.isDigit).isEmpty then none
  else if -2 ^ 31 ≤ strtol s ∧ strtol s < 2 ^ 31 then some (strtol s)
  else none

/-- The difference of two `int`s.  Where it is none, which C++ leaves undefined, it wraps around. -/
def subInt (a b : ℤ) : ℤ :=
  (a - b).bmod (2 ^ 32)

/-- The conversion of an `int` to `uint32_t` -/
def toUInt32 (n : ℤ) : ℕ :=
  (n % 2 ^ 32).toNat

/-! ## Floating-point numbers -/

def isHexDigit (c : Char) : Bool :=
  c.isDigit || ('a' ≤ c.toLower && c.toLower ≤ 'f')

def hexDigit (c : Char) : ℕ :=
  if c.isDigit then c.toNat - '0'.toNat else c.toLower.toNat - 'a'.toNat + 10

/-- The shape of a numeral: its digits, its base, the letter that starts its exponent, the base
of the exponent, and how much of the exponent one digit after the point stands for. -/
structure NumeralForm where
  isDigit : Char → Bool
  digit : Char → ℕ
  base : ℕ
  mark : Char
  expBase : ℕ
  places : ℕ

def decimal : NumeralForm :=
  { isDigit := Char.isDigit, digit := fun c => c.toNat - '0'.toNat, base := 10,
    mark := 'e', expBase := 10, places := 1 }

def hexadecimal : NumeralForm :=
  { isDigit := isHexDigit, digit := hexDigit, base := 16,
    mark := 'p', expBase := 2, places := 4 }

/-- The digits after a point, and what follows them. -/
def NumeralForm.fraction (form : NumeralForm) : List Char → List Char × List Char
  | '.' :: rest => (rest.takeWhile form.isDigit, rest.dropWhile form.isDigit)
  | rest => ([], rest)

/-- The exponent of a numeral, zero when the mark is not followed by a number. -/
def NumeralForm.exponent (form : NumeralForm) : List Char → ℤ
  | c :: rest =>
    if c.toLower = form.mark then
      let (negative, digits) := splitSign rest
      let magnitude : ℤ := Nat.ofDigitChars 10 (digits.takeWhile Char.isDigit) 0
      if negative then -magnitude else magnitude
    else 0
  | [] => 0

/-- The value of the longest numeral a string starts with, if it has a digit. -/
def NumeralForm.read (form : NumeralForm) (cs : List Char) : Option ℚ :=
  let whole := cs.takeWhile form.isDigit
  let (fraction, rest) := form.fraction (cs.dropWhile form.isDigit)
  let digits := whole ++ fraction
  if digits = [] then none
  else
    let magnitude := digits.foldl (fun v c => form.base * v + form.digit c) 0
    some (magnitude * (form.expBase : ℚ) ^ (form.exponent rest - form.places * fraction.length))

/-- The value after the sign: a hexadecimal numeral, a decimal one, `inf` or `nan`, and zero
when no conversion is possible. -/
def unsignedDouble (cs : List Char) : Double ⊕ ℚ :=
  let word := cs.map Char.toLower
  if "inf".toList.isPrefixOf word then .inl (.infinite false)
  else if "nan".toList.isPrefixOf word then .inl .nan
  else
    match word with
    | '0' :: 'x' :: rest => .inr ((hexadecimal.read rest).getD 0)
    | _ => .inr ((decimal.read cs).getD 0)

/-- `atof`, the value of `strtod` -/
def atof (s : String) : Double :=
  let (negative, rest) := splitSign (s.toList.dropWhile isSpace)
  match unsignedDouble rest with
  | .inl (.infinite _) => .infinite negative
  | .inl x => x
  | .inr x => Double.ofRat (if negative then -x else x)

/-- `std::stod` in exact arithmetic: an infinity or a NaN, or the number the numeral stands for,
and nothing where it throws because there is no digit to read. -/
def stod (s : String) : Option (Double ⊕ ℚ) :=
  let (negative, rest) := splitSign (s.toList.dropWhile isSpace)
  match unsignedDouble rest with
  | .inl (.infinite _) => some (.inl (.infinite negative))
  | .inl x => some (.inl x)
  | .inr x => if (decimal.read rest).isNone then none else some (.inr (if negative then -x else x))

/-! ## The range of an `int` -/

/-- What `std::stoi` reads is an `int`. -/
theorem stoi_range {s : String} {n : ℤ} (h : stoi s = some n) : -2 ^ 31 ≤ n ∧ n < 2 ^ 31 := by
  unfold stoi at h
  split at h
  next => cases h
  next =>
    split at h
    next hrange => exact Option.some.inj h ▸ hrange
    next => cases h

/-- A difference that is an `int` is exact. -/
theorem subInt_eq {a b : ℤ} (h : -2 ^ 31 ≤ a - b) (h' : a - b < 2 ^ 31) : subInt a b = a - b :=
  Int.bmod_eq_of_le (by omega) (by omega)

/-- Below the least `int` it comes out at the other end. -/
theorem subInt_of_lt {a b : ℤ} (h : -2 ^ 32 ≤ a - b) (h' : a - b < -2 ^ 31) :
    subInt a b = a - b + 2 ^ 32 := by
  have hbmod : (a - b + 2 ^ 32).bmod (2 ^ 32) = (a - b).bmod (2 ^ 32) :=
    Int.add_bmod_right (a - b) (2 ^ 32)
  rw [subInt, ← hbmod]
  exact Int.bmod_eq_of_le (by omega) (by omega)

/-! ## Reading back a printed number -/

theorem isDigit_of_mem {n : ℕ} {c : Char} (h : c ∈ Nat.toDigits 10 n) : c.isDigit = true :=
  Nat.isDigit_of_mem_toDigits (by norm_num) (by norm_num) h

/-- A printed number is digits only. -/
theorem takeWhile_isDigit (n : ℕ) :
    (Nat.toDigits 10 n).takeWhile Char.isDigit = Nat.toDigits 10 n :=
  List.takeWhile_eq_self_iff.2 fun _ hc => isDigit_of_mem hc

theorem dropWhile_isDigit (n : ℕ) : (Nat.toDigits 10 n).dropWhile Char.isDigit = [] :=
  List.dropWhile_eq_nil_iff.2 fun _ hc => isDigit_of_mem hc

theorem not_isSpace {c : Char} (h : c.isDigit = true) : isSpace c = false := by
  by_contra hs
  simp only [isSpace, Bool.not_eq_false, Bool.or_eq_true, decide_eq_true_eq] at hs
  rcases hs with (((((rfl | rfl) | rfl) | rfl) | rfl) | rfl) <;> exact absurd h (by decide)

/-- A list of digits begins with a digit: there is nothing to skip before it. -/
theorem splitSign_dropWhile_isSpace {cs : List Char} (h : ∀ c ∈ cs, c.isDigit = true) :
    splitSign (cs.dropWhile isSpace) = (false, cs) := by
  cases cs with
  | nil => rfl
  | cons c rest =>
    have hc := h c (by simp)
    rw [List.dropWhile_cons_of_neg (by simp [not_isSpace hc])]
    unfold splitSign
    split
    · rename_i heq
      rw [List.cons.injEq] at heq
      exact absurd (heq.1 ▸ hc) (by decide)
    · rename_i heq
      rw [List.cons.injEq] at heq
      exact absurd (heq.1 ▸ hc) (by decide)
    · rfl

/-- A printed number that is not negative has no sign. -/
theorem toList_toString (n : ℕ) : (toString (n : ℤ)).toList = Nat.toDigits 10 n :=
  Nat.toList_repr

/-- `strtol` reads back a printed number, up to the largest `long`. -/
theorem strtol_toString (n : ℕ) : strtol (toString (n : ℤ)) = min (n : ℤ) (2 ^ 63 - 1) := by
  rw [strtol, toList_toString, splitSign_dropWhile_isSpace fun _ hc => isDigit_of_mem hc]
  simp only [takeWhile_isDigit, Nat.ofDigitChars_ten_toDigits]
  rfl

/-- `atoi` reads back exactly the printed numbers that an `int` holds. -/
theorem atoi_toString {n : ℤ} (hn : 0 ≤ n) : atoi (toString n) = n ↔ n < 2 ^ 31 := by
  obtain ⟨n, rfl⟩ := Int.eq_ofNat_of_zero_le hn
  rw [atoi, strtol_toString]
  constructor
  · intro h
    have hlt : (min (n : ℤ) (2 ^ 63 - 1)).bmod (2 ^ 32) < (2 ^ 32 + 1) / 2 :=
      Int.bmod_lt (by norm_num)
    omega
  · intro h
    rw [min_eq_left (by omega)]
    exact Int.bmod_eq_of_le (by omega) (by omega)

/-- Converted to `uint32_t`, `atoi` gives back exactly the printed numbers of 32 bits. -/
theorem toUInt32_atoi_toString {n : ℤ} (hn : 0 ≤ n) :
    (toUInt32 (atoi (toString n)) : ℤ) = n ↔ n < 2 ^ 32 := by
  obtain ⟨n, rfl⟩ := Int.eq_ofNat_of_zero_le hn
  have hwrap : (min (n : ℤ) (2 ^ 63 - 1)).bmod (2 ^ 32) % 2 ^ 32
      = min (n : ℤ) (2 ^ 63 - 1) % 2 ^ 32 :=
    Int.bmod_emod
  rw [toUInt32, atoi, strtol_toString, hwrap]
  constructor
  · intro h
    omega
  · intro h
    rw [min_eq_left (by omega)]
    omega

/-- The digits of a printed number are read as a decimal numeral without point or exponent. -/
theorem decimal_read_toDigits (n : ℕ) : decimal.read (Nat.toDigits 10 n) = some (n : ℚ) := by
  have hvalue : (Nat.toDigits 10 n).foldl (fun v c => 10 * v + (c.toNat - '0'.toNat)) 0 = n := by
    rw [← Nat.ofDigitChars_eq_foldl, Nat.ofDigitChars_ten_toDigits]
  simp only [NumeralForm.read, decimal, takeWhile_isDigit, dropWhile_isDigit,
    NumeralForm.fraction, NumeralForm.exponent, List.append_nil, hvalue]
  simp

theorem toLower_of_isDigit {c : Char} (h : c.isDigit = true) : c.toLower = c := by
  rw [Char.isDigit_iff_toNat] at h
  refine dif_neg fun hupper => ?_
  have hle : 'A'.toNat ≤ c.toNat := hupper.1
  have : '9'.toNat < 'A'.toNat := by decide
  omega

/-- A list of digits starts neither a word nor a hexadecimal numeral. -/
theorem unsignedDouble_of_digits {cs : List Char} (h : ∀ c ∈ cs, c.isDigit = true) :
    unsignedDouble cs = .inr ((decimal.read cs).getD 0) := by
  have hword : cs.map Char.toLower = cs :=
    (List.map_congr_left fun c hc => toLower_of_isDigit (h c hc)).trans (List.map_id cs)
  have hnot : ∀ c ∈ cs, ∀ letter : Char, letter.isDigit = false → (letter == c) = false := by
    intro c hc letter hletter
    rw [beq_eq_false_iff_ne]
    rintro rfl
    simp [h letter hc] at hletter
  unfold unsignedDouble
  rw [hword]
  cases cs with
  | nil => rfl
  | cons c rest =>
    have hi : "inf".toList.isPrefixOf (c :: rest) = false := by
      show (('i' == c) && _) = false
      rw [hnot c (by simp) 'i' (by decide), Bool.false_and]
    have hn : "nan".toList.isPrefixOf (c :: rest) = false := by
      show (('n' == c) && _) = false
      rw [hnot c (by simp) 'n' (by decide), Bool.false_and]
    simp only [hi, hn, Bool.false_eq_true, if_false]
    split
    · rename_i rest' heq
      have hx := hnot 'x' (by simp [heq]) 'x' (by decide)
      simp at hx
    · rfl

theorem atof_toString {n : ℤ} (hn : 0 ≤ n) : atof (toString n) = Double.ofRat n := by
  obtain ⟨n, rfl⟩ := Int.eq_ofNat_of_zero_le hn
  rw [atof, toList_toString, splitSign_dropWhile_isSpace fun _ hc => isDigit_of_mem hc]
  simp only [unsignedDouble_of_digits fun _ hc => isDigit_of_mem hc, decimal_read_toDigits]
  simp

/-! ## Printed integers with their sign -/

/-- A printed integer is its digits, behind a minus sign if it is negative. -/
theorem toList_toString_int (n : ℤ) :
    (toString n).toList = if n < 0 then '-' :: Nat.toDigits 10 n.natAbs
      else Nat.toDigits 10 n.natAbs := by
  cases n with
  | ofNat n =>
    rw [if_neg (by simp)]
    exact toList_toString n
  | negSucc n =>
    rw [if_pos (Int.negSucc_lt_zero n)]
    show ("-" ++ Nat.repr (n + 1)).toList = _
    rw [String.toList_append, Nat.toList_repr]
    rfl

theorem splitSign_toString (n : ℤ) :
    splitSign ((toString n).toList.dropWhile isSpace)
      = (decide (n < 0), Nat.toDigits 10 n.natAbs) := by
  rw [toList_toString_int]
  split
  next hneg =>
    rw [List.dropWhile_cons_of_neg (by decide), decide_eq_true hneg]
    rfl
  next hneg =>
    rw [splitSign_dropWhile_isSpace fun _ hc => isDigit_of_mem hc, decide_eq_false hneg]

/-- `stoi` reads back a printed integer that an `int` holds. -/
theorem stoi_toString {n : ℤ} (h : -2 ^ 31 ≤ n ∧ n < 2 ^ 31) : stoi (toString n) = some n := by
  have hvalue : strtol (toString n) = n := by
    rw [strtol, splitSign_toString]
    simp only [takeWhile_isDigit, Nat.ofDigitChars_ten_toDigits, decide_eq_true_eq]
    split <;> omega
  rw [stoi, splitSign_toString, hvalue, if_pos h, takeWhile_isDigit, if_neg]
  simp [Nat.toDigits_ne_nil]

/-- `stod` reads back a printed integer. -/
theorem stod_toString (n : ℤ) : stod (toString n) = some (.inr n) := by
  rw [stod, splitSign_toString]
  simp only [unsignedDouble_of_digits fun _ hc => isDigit_of_mem hc, decimal_read_toDigits,
    Option.getD_some, Option.isNone_some, Bool.false_eq_true, if_false, decide_eq_true_eq]
  have habs : ((n.natAbs : ℕ) : ℚ) = |(n : ℚ)| := by
    rw [← Int.cast_abs, Int.abs_eq_natAbs, Int.cast_natCast]
  rw [habs]
  split
  next hneg => rw [abs_of_neg (by exact_mod_cast hneg), neg_neg]
  next hneg => rw [abs_of_nonneg (by exact_mod_cast not_lt.1 hneg)]

end CStrings

end SchedSim
