import SchedSim.Numerals

/-!
# Computing with doubles

What a variable of type `double` can hold, and the operations on it.  An infinity and a NaN pass
through the operations and the comparisons as IEEE 754 says; how the exact result of an operation
is rounded is a parameter.

* `Value.isFinite_nearest` : where the rounding of a number is a number again.
* `Strtod.stod` : `std::stod` with the `idx` where it stopped and the numbers out of its range.
-/

namespace SchedSim

/-- A number, an infinity, or a NaN -/
inductive Value where
  | number (x : ℚ)
  | infinite (negative : Bool)
  | nan
  deriving DecidableEq

namespace Value

variable {x : Value}

def isFinite : Value → Bool
  | number _ => true
  | _ => false

/-- The number a finite value stands for -/
def toRat : Value → ℚ
  | number x => x
  | _ => 0

/-- `x < y`, which a NaN makes false -/
def lt : Value → Value → Bool
  | number x, number y => x < y
  | number _, infinite negative => !negative
  | infinite negative, number _ => negative
  | infinite negative, infinite negative' => negative && !negative'
  | nan, _ => false
  | _, nan => false

/-- `x <= y`, which a NaN makes false -/
def le : Value → Value → Bool
  | number x, number y => x ≤ y
  | number _, infinite negative => !negative
  | infinite negative, number _ => negative
  | infinite negative, infinite negative' => negative || !negative'
  | nan, _ => false
  | _, nan => false

/-- `std::max(x, y)`, its first argument unless that is less than the second -/
def max (x y : Value) : Value :=
  if x.lt y then y else x

/-- `x - y` -/
def sub (round : ℚ → Value) : Value → Value → Value
  | number x, number y => round (x - y)
  | number _, infinite negative => infinite (!negative)
  | infinite negative, number _ => infinite negative
  | infinite negative, infinite negative' =>
    if negative = negative' then nan else infinite negative
  | nan, _ => nan
  | _, nan => nan

/-- `x / d` for a number `d` above zero -/
def divide (round : ℚ → Value) (d : ℚ) : Value → Value
  | number x => round (x / d)
  | infinite negative => infinite negative
  | nan => nan

def ofDouble : Double → Value
  | .finite x _ => number x
  | .infinite negative => infinite negative
  | .nan => nan

/-- A number rounded to binary64 -/
def nearest (x : ℚ) : Value :=
  ofDouble (Double.ofRat x)

theorem isFinite_iff : x.isFinite = true ↔ ∃ q, x = number q := by
  cases x <;> simp [isFinite]

theorem number_toRat (h : x.isFinite = true) : number x.toRat = x := by
  obtain ⟨q, rfl⟩ := isFinite_iff.1 h
  rfl

theorem isFinite_nearest {q : ℚ} :
    (nearest q).isFinite = true ↔ |Binary64.nearest q| < 2 ^ 1024 := by
  unfold nearest Double.ofRat
  split
  next h => exact iff_of_true rfl h
  next h => exact iff_of_false (by simp [ofDouble, isFinite]) h

theorem nearest_of_lt {q : ℚ} (h : |Binary64.nearest q| < 2 ^ 1024) :
    nearest q = number (Binary64.nearest q) := by
  rw [nearest, Double.ofRat, dif_pos h]
  rfl

theorem abs_toRat_nearest_lt {q : ℚ} (h : (nearest q).isFinite = true) :
    |(nearest q).toRat| < 2 ^ 1024 := by
  have hlt := isFinite_nearest.1 h
  rw [nearest_of_lt hlt]
  exact hlt

theorem isFinite_max {x y : Value} (hx : x.isFinite = true) (hy : y.isFinite = true) :
    (max x y).isFinite = true := by
  unfold max
  split
  · exact hy
  · exact hx

theorem max_number (p q : ℚ) : max (number p) (number q) = number (Max.max p q) := by
  unfold max
  simp only [lt, decide_eq_true_eq]
  split
  next h => rw [max_eq_right h.le]
  next h => rw [max_eq_left (not_lt.1 h)]

end Value

/-- What C leaves open of `strtod`: the numbers that it finds out of range.  Those that round to an
infinity are, and of those that are too small as many as the library likes. -/
structure Strtod where
  outOfRange : ℚ → Bool
  overflow : ∀ x, (Value.nearest x).isFinite = false → outOfRange x = true

/-- `std::stod(s, &idx)` with its `idx`, nothing where it throws -/
def Strtod.stod (lib : Strtod) (s : String) : Option (Value × ℕ) :=
  match CStrings.stod s with
  | none => none
  | some (.inl x) => some (.ofDouble x, CStrings.stodIdx s)
  | some (.inr x) => if lib.outOfRange x then none else some (.nearest x, CStrings.stodIdx s)

end SchedSim
