import SchedSim.CStrings

/-!
# JSON documents as Python objects

What `json.load` returns, the ways a Python program looks into it, and the exceptions these
raise. A dictionary is the list of its entries, the first one of a key counting.

What the interpreter takes from the Unicode tables, and how it prints a floating-point number,
is a parameter: the structure `Builtins`.
-/

namespace SchedSim

/-- A value of a JSON document. -/
inductive Json where
  | null
  | bool (b : Bool)
  | int (n : ℤ)
  | float (x : Double)
  | str (s : String)
  | list (items : List Json)
  | dict (fields : List (String × Json))

/-- The exceptions the scripts raise, or let a builtin raise; `badValue` is the `ValueError` of a
builtin, whose text is the interpreter's. -/
inductive PyException where
  | valueError (msg : String)
  | badValue
  | typeError
  | keyError (key : String)
  | attributeError
  | overflowError
  | systemExit (msg : String)
  deriving DecidableEq

/-- A computation that may raise. -/
abbrev Py := Except PyException

namespace Py

variable {α β : Type}

theorem bind_eq_ok {x : Py α} {f : α → Py β} {b : β} :
    x >>= f = .ok b ↔ ∃ a, x = .ok a ∧ f a = .ok b := by
  cases x <;> simp [bind, Except.bind]

@[simp] theorem pure_eq_ok {a b : α} : (pure a : Py α) = .ok b ↔ a = b := by
  simp [pure, Except.pure]

theorem exists_ok {x : Py α} (h : x.toBool = true) : ∃ a, x = .ok a := by
  cases x with
  | error e => simp [Except.toBool] at h
  | ok a => exact ⟨a, rfl⟩

/-- A result that passes a check. -/
theorem exists_ok_of_any {x : Py α} (p : α → Bool) (h : x.toOption.any p = true) :
    ∃ a, x = .ok a ∧ p a = true := by
  cases x with
  | error e => simp [Except.toOption] at h
  | ok a => exact ⟨a, rfl, by simpa [Except.toOption] using h⟩

/-- `if c: fail(msg)` -/
def failIf (c : Prop) [Decidable c] (msg : String) : Py Unit :=
  if c then .error (.valueError msg) else .ok ()

@[simp] theorem failIf_eq_ok {c : Prop} [Decidable c] {msg : String} {u : Unit} :
    failIf c msg = .ok u ↔ ¬ c := by
  unfold failIf
  split <;> simp_all

/-- A loop whose body only checks passes exactly when every check does. -/
theorem forM_eq_ok {l : List α} {f : α → Py Unit} {u : Unit} :
    forM l f = .ok u ↔ ∀ a ∈ l, f a = .ok () := by
  induction l with
  | nil => simp
  | cons a l ih =>
    rw [List.forM_cons, bind_eq_ok]
    simp only [List.mem_cons, forall_eq_or_imp, ← ih]
    constructor
    · rintro ⟨⟨⟩, ha, hl⟩
      exact ⟨ha, hl⟩
    · rintro ⟨ha, hl⟩
      exact ⟨(), ha, hl⟩

/-- The results of a comprehension come from its list. -/
theorem exists_of_mapM {l : List α} {f : α → Py β} {results : List β} {b : β}
    (h : l.mapM f = .ok results) (hb : b ∈ results) : ∃ a ∈ l, f a = .ok b := by
  induction l generalizing results with
  | nil =>
    rw [List.mapM_nil, pure_eq_ok] at h
    simp [← h] at hb
  | cons a l ih =>
    simp only [List.mapM_cons, bind_eq_ok, pure_eq_ok] at h
    obtain ⟨b', hb', rest, hrest, rfl⟩ := h
    rcases List.mem_cons.1 hb with rfl | hb
    · exact ⟨a, by simp, hb'⟩
    · obtain ⟨a', ha', hfa'⟩ := ih hrest hb
      exact ⟨a', List.mem_cons_of_mem _ ha', hfa'⟩

end Py

namespace Json

/-! ## Looking into a document -/

/-- `v.get(key, default)` -/
def get (v : Json) (key : String) (default : Json) : Py Json :=
  match v with
  | .dict fields => .ok ((fields.lookup key).getD default)
  | _ => .error .attributeError

/-- `v[key]` -/
def item (v : Json) (key : String) : Py Json :=
  match v with
  | .dict fields =>
    match fields.lookup key with
    | some value => .ok value
    | none => .error (.keyError key)
  | _ => .error .typeError

/-- `key in v` -/
def contains (v : Json) (key : String) : Py Bool :=
  match v with
  | .dict fields => .ok (fields.lookup key).isSome
  | .list items => .ok (items.any fun | .str s => s = key | _ => false)
  | .str s => .ok (decide (key.toList <:+: s.toList))
  | _ => .error .typeError

/-- The values a `for` loop over `v` visits. -/
def iterate : Json → Py (List Json)
  | .list items => .ok items
  | .dict fields => .ok (fields.map fun field => .str field.1)
  | .str s => .ok (s.toList.map fun c => .str (String.singleton c))
  | _ => .error .typeError

/-- `isinstance(v, list)` -/
def isList : Json → Bool
  | .list _ => true
  | _ => false

/-- `v == s`, for a string `s` -/
def isStr (v : Json) (s : String) : Bool :=
  match v with
  | .str t => t = s
  | _ => false

@[simp] theorem isStr_iff {v : Json} {s : String} : v.isStr s = true ↔ v = .str s := by
  cases v <;> simp [isStr]

/-- `v is False` -/
def isFalse : Json → Bool
  | .bool b => !b
  | _ => false

/-- `bool(v)` -/
def truthy : Json → Bool
  | .null => false
  | .bool b => b
  | .int n => n ≠ 0
  | .float (.finite x _) => x ≠ 0
  | .float _ => true
  | .str s => s ≠ ""
  | .list items => !items.isEmpty
  | .dict fields => !fields.isEmpty

/-- What the value is as a key of a dictionary: numbers are one key if they are equal, whatever
their types, and lists and dictionaries are no keys. -/
inductive Key where
  | none
  | number (x : ℚ)
  | special (x : Double)
  | str (s : String)
  deriving DecidableEq

def key? : Json → Option Key
  | .null => some .none
  | .bool b => some (.number b.toNat)
  | .int n => some (.number n)
  | .float (.finite x _) => some (.number x)
  | .float x => some (.special x)
  | .str s => some (.str s)
  | .list _ => none
  | .dict _ => none

/-- Only a string is the same key as a string. -/
theorem key?_eq_str {v : Json} {s : String} : v.key? = some (.str s) ↔ v = .str s := by
  cases v with
  | float x => cases x <;> simp [key?]
  | _ => simp [key?]

end Json

/-! ## Strings -/

/-- The characters `str.strip()` removes. -/
def isPySpace (c : Char) : Bool :=
  [0x20, 0x85, 0xa0, 0x1680, 0x2028, 0x2029, 0x202f, 0x205f, 0x3000].contains c.toNat ||
    (0x09 ≤ c.toNat && c.toNat ≤ 0x0d) || (0x1c ≤ c.toNat && c.toNat ≤ 0x1f) ||
    (0x2000 ≤ c.toNat && c.toNat ≤ 0x200a)

/-- Removes the characters satisfying `p` from both ends. -/
def stripChars (p : Char → Bool) (cs : List Char) : List Char :=
  ((cs.dropWhile p).reverse.dropWhile p).reverse

/-- `s.strip()` -/
def strip (s : String) : String :=
  String.ofList (stripChars isPySpace s.toList)

/-- A name of small letters that nothing but a string with these letters prints as, once in
lower case. The Kelvin sign, the only other character with a small letter of ASCII for its lower
case, is why there is no `k`. -/
def isPlainName (name : String) : Bool :=
  name.toList.all (fun c => c.isLower && c != 'k') &&
    !(["", "none", "true", "false", "nan", "inf"].contains name)

/-- The builtins that depend on the Unicode tables or print floating-point numbers. -/
structure Builtins where
  /-- `int(s)`, if the string is a numeral -/
  intOfStr : String → Option ℤ
  /-- `float(s)`, if the string is a numeral -/
  floatOfStr : String → Option Double
  /-- `str(v)` -/
  str : Json → String
  /-- `s.lower()` -/
  lower : String → String
  str_str : ∀ s, str (.str s) = s
  lower_str_eq : ∀ v name, isPlainName name = true →
    (lower (str v) = name ↔ ∃ s, v = .str s ∧ CStrings.toLower s = name)

namespace Builtins

/-- A number without its fractional part, as `int` converts it. -/
def truncate (x : ℚ) : ℤ :=
  x.num.tdiv x.den

@[simp] theorem truncate_intCast (n : ℤ) : truncate n = n := by
  simp [truncate]

@[simp] theorem truncate_natCast (n : ℕ) : truncate n = n := by
  simp [truncate]

theorem truncate_nonneg {x : ℚ} (h : 0 ≤ x) : 0 ≤ truncate x :=
  Int.tdiv_nonneg (Rat.num_nonneg.2 h) (by positivity)

/-- `int(x)` of a floating-point number -/
def intOfFloat : Double → Py ℤ
  | .finite x _ => .ok (truncate x)
  | .infinite _ => .error .overflowError
  | .nan => .error .badValue

variable (py : Builtins)

/-- `int(v)` -/
def int : Json → Py ℤ
  | .bool b => .ok b.toNat
  | .int n => .ok n
  | .float x => intOfFloat x
  | .str s =>
    match py.intOfStr s with
    | some n => .ok n
    | none => .error .badValue
  | .null => .error .typeError
  | .list _ => .error .typeError
  | .dict _ => .error .typeError

/-- The double of an integer, which must not be too large. -/
def floatOfInt (n : ℤ) : Py Double :=
  match Double.ofRat n with
  | .finite x exact => .ok (.finite x exact)
  | _ => .error .overflowError

/-- `float(v)` -/
def float : Json → Py Double
  | .bool b => floatOfInt b.toNat
  | .int n => floatOfInt n
  | .float x => .ok x
  | .str s =>
    match py.floatOfStr s with
    | some x => .ok x
    | none => .error .badValue
  | .null => .error .typeError
  | .list _ => .error .typeError
  | .dict _ => .error .typeError

end Builtins

end SchedSim
