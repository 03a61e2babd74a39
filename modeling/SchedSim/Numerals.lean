import SchedSim.CStrings
import Mathlib.Data.List.DropRight

/-!
# Where a numeral ends

How far `std::stod` reads, and the grammar of decimal numbers.  The conversion takes the longest
numeral a text begins with, in any of its forms, and says in `idx` where it stopped.

* `stodIdx_pos` : where it does not throw, it has read at least one character.
* `readToEnd_iff` : the texts that it reads as a decimal numeral up to white space at the end are
  the texts that are a decimal number between white space.
-/

namespace SchedSim

namespace CStrings

/-! ## What is left behind a numeral -/

/-- What follows an exponent, everything if there is none. -/
def NumeralForm.exponentRest (form : NumeralForm) : List Char → List Char
  | c :: rest =>
    if c.toLower = form.mark ∧ (splitSign rest).2.takeWhile Char.isDigit ≠ [] then
      (splitSign rest).2.dropWhile Char.isDigit
    else c :: rest
  | [] => []

/-- What follows the longest numeral, everything if there is none. -/
def NumeralForm.rest (form : NumeralForm) (cs : List Char) : List Char :=
  if (form.read cs).isNone then cs
  else form.exponentRest (form.fraction (cs.dropWhile form.isDigit)).2

/-- What follows the characters of a NaN in parentheses, everything if there are none. -/
def nanRest : List Char → List Char
  | '(' :: rest =>
    match rest.dropWhile fun c => c.isAlphanum || c = '_' with
    | ')' :: left => left
    | _ => '(' :: rest
  | cs => cs

/-- Whether a numeral, behind its sign, is hexadecimal -/
def isHexadecimal (cs : List Char) : Bool :=
  match cs.map Char.toLower with
  | '0' :: 'x' :: rest => (hexadecimal.read rest).isSome
  | _ => false

/-- What is left of a text behind the value of `unsignedDouble` -/
def unsignedRest (cs : List Char) : List Char :=
  let word := cs.map Char.toLower
  if "infinity".toList.isPrefixOf word then cs.drop 8
  else if "inf".toList.isPrefixOf word then cs.drop 3
  else if "nan".toList.isPrefixOf word then nanRest (cs.drop 3)
  else if isHexadecimal cs then hexadecimal.rest (cs.drop 2)
  else decimal.rest cs

/-- A text without the white space and the sign in front -/
def afterSign (s : String) : List Char :=
  (splitSign (s.toList.dropWhile isSpace)).2

/-- The `idx` of `std::stod(s, &idx)`, the number of characters read -/
def stodIdx (s : String) : ℕ :=
  s.toList.length - (unsignedRest (afterSign s)).length

theorem splitSign_suffix (cs : List Char) : (splitSign cs).2 <:+ cs := by
  unfold splitSign
  split
  · exact List.suffix_cons _ _
  · exact List.suffix_cons _ _
  · exact List.suffix_refl _

theorem NumeralForm.fraction_suffix (form : NumeralForm) (cs : List Char) :
    (form.fraction cs).2 <:+ cs := by
  unfold NumeralForm.fraction
  split
  · exact (List.dropWhile_suffix _).trans (List.suffix_cons _ _)
  · exact List.suffix_refl _

theorem NumeralForm.exponentRest_suffix (form : NumeralForm) (cs : List Char) :
    form.exponentRest cs <:+ cs := by
  unfold NumeralForm.exponentRest
  split
  · split
    · exact (List.dropWhile_suffix _).trans ((splitSign_suffix _).trans (List.suffix_cons _ _))
    · exact List.suffix_refl _
  · exact List.suffix_refl _

theorem NumeralForm.rest_suffix (form : NumeralForm) (cs : List Char) : form.rest cs <:+ cs := by
  unfold NumeralForm.rest
  split
  · exact List.suffix_refl _
  · exact (form.exponentRest_suffix _).trans
      ((form.fraction_suffix _).trans (List.dropWhile_suffix _))

theorem nanRest_suffix (cs : List Char) : nanRest cs <:+ cs := by
  unfold nanRest
  split
  · rename_i rest
    split
    · rename_i left heq
      exact (List.suffix_cons _ _).trans
        (heq ▸ (List.dropWhile_suffix _).trans (List.suffix_cons _ _))
    · exact List.suffix_refl _
  · exact List.suffix_refl _

theorem unsignedRest_suffix (cs : List Char) : unsignedRest cs <:+ cs := by
  unfold unsignedRest
  dsimp only
  split_ifs
  · exact List.drop_suffix _ _
  · exact List.drop_suffix _ _
  · exact (nanRest_suffix _).trans (List.drop_suffix _ _)
  · exact (NumeralForm.rest_suffix _ _).trans (List.drop_suffix _ _)
  · exact NumeralForm.rest_suffix _ _

theorem afterSign_suffix (s : String) : afterSign s <:+ s.toList :=
  (splitSign_suffix _).trans (List.dropWhile_suffix _)

/-- Behind `idx` stands what follows the numeral. -/
theorem drop_stodIdx (s : String) : s.toList.drop (stodIdx s) = unsignedRest (afterSign s) := by
  obtain ⟨front, hfront⟩ := (unsignedRest_suffix (afterSign s)).trans (afterSign_suffix s)
  rw [stodIdx, ← hfront, List.length_append, Nat.add_sub_cancel, List.drop_left]

/-! ## Decimal numbers -/

/-- A text of digits only -/
def Digits (cs : List Char) : Prop := ∀ c ∈ cs, c.isDigit = true

/-- An optional sign -/
def Sign (cs : List Char) : Prop := cs = [] ∨ cs = ['+'] ∨ cs = ['-']

/-- Digits, with a point before, among or behind them, or without one. -/
inductive Mantissa : List Char → Prop
  | whole {ds : List Char} : Digits ds → ds ≠ [] → Mantissa ds
  | point {ws fs : List Char} : Digits ws → Digits fs → ws ++ fs ≠ [] → Mantissa (ws ++ '.' :: fs)

/-- An optional exponent -/
inductive Exponent : List Char → Prop
  | none : Exponent []
  | some {mark : Char} {sign ds : List Char} : mark = 'e' ∨ mark = 'E' → Sign sign → Digits ds →
      ds ≠ [] → Exponent (mark :: (sign ++ ds))

/-- The text of a decimal number -/
inductive Decimal : List Char → Prop
  | mk {sign mantissa exponent : List Char} : Sign sign → Mantissa mantissa → Exponent exponent →
      Decimal (sign ++ (mantissa ++ exponent))

theorem digits_takeWhile (cs : List Char) : Digits (cs.takeWhile Char.isDigit) :=
  fun _ hc => List.mem_takeWhile_imp hc

theorem toLower_eq_e {c : Char} : c.toLower = 'e' ↔ c = 'e' ∨ c = 'E' := by
  constructor
  · intro h
    unfold Char.toLower at h
    split at h
    next hupper =>
      right
      have hval : c.val + ('a'.val - 'A'.val) = 'e'.val := congrArg Char.val h
      have hE : c.val = 'E'.val := by
        rw [← UInt32.add_sub_cancel c.val ('a'.val - 'A'.val), hval]
        decide
      exact Char.ext hE
    next => exact Or.inl h
  · rintro (rfl | rfl) <;> decide

/-- A text is its sign followed by the rest. -/
theorem exists_sign (cs : List Char) : ∃ sign, Sign sign ∧ cs = sign ++ (splitSign cs).2 := by
  unfold splitSign
  split
  · exact ⟨['-'], .inr (.inr rfl), rfl⟩
  · exact ⟨['+'], .inr (.inl rfl), rfl⟩
  · exact ⟨[], .inl rfl, rfl⟩

theorem exists_exponent (cs : List Char) :
    ∃ exponent, Exponent exponent ∧ cs = exponent ++ decimal.exponentRest cs := by
  cases cs with
  | nil => exact ⟨[], .none, rfl⟩
  | cons c rest =>
    unfold NumeralForm.exponentRest
    dsimp only
    split
    next h =>
      obtain ⟨sign, hsign, hrest⟩ := exists_sign rest
      refine ⟨c :: (sign ++ (splitSign rest).2.takeWhile Char.isDigit),
        .some (toLower_eq_e.1 h.1) hsign (digits_takeWhile _) h.2, ?_⟩
      rw [List.cons_append, List.append_assoc, List.takeWhile_append_dropWhile, ← hrest]
    next => exact ⟨[], .none, rfl⟩

/-- A numeral is read where there is a digit. -/
theorem NumeralForm.isNone_read (form : NumeralForm) (cs : List Char) :
    (form.read cs).isNone = true ↔
      cs.takeWhile form.isDigit ++ (form.fraction (cs.dropWhile form.isDigit)).1 = [] := by
  unfold NumeralForm.read
  dsimp only
  split
  next h => exact iff_of_true rfl h
  next h => exact iff_of_false (by simp) h

theorem exists_mantissa {cs : List Char} (h : (decimal.read cs).isNone = false) :
    ∃ mantissa, Mantissa mantissa ∧
      cs = mantissa ++ (decimal.fraction (cs.dropWhile decimal.isDigit)).2 := by
  have hdigits := mt (decimal.isNone_read cs).2 (by simp [h])
  have hcs : cs = cs.takeWhile decimal.isDigit ++ cs.dropWhile decimal.isDigit :=
    List.takeWhile_append_dropWhile.symm
  generalize hrest : cs.dropWhile decimal.isDigit = rest at hdigits hcs ⊢
  unfold NumeralForm.fraction at hdigits ⊢
  split at hdigits
  next fs =>
    refine ⟨cs.takeWhile Char.isDigit ++ '.' :: fs.takeWhile Char.isDigit,
      .point (digits_takeWhile _) (digits_takeWhile _) hdigits, ?_⟩
    rw [List.append_assoc, List.cons_append]
    conv_lhs => rw [hcs]
    exact congrArg _ (congrArg _ List.takeWhile_append_dropWhile.symm)
  next =>
    rw [List.append_nil] at hdigits
    exact ⟨_, .whole (digits_takeWhile cs) hdigits, hcs⟩

/-- What `strtod` reads in decimal is a decimal number. -/
theorem exists_decimal {cs : List Char} (h : (decimal.read cs).isNone = false) :
    ∃ mantissa exponent, Mantissa mantissa ∧ Exponent exponent ∧
      cs = mantissa ++ (exponent ++ decimal.rest cs) := by
  obtain ⟨mantissa, hmantissa, hcs⟩ := exists_mantissa h
  obtain ⟨exponent, hexponent, hrest⟩ :=
    exists_exponent (decimal.fraction (cs.dropWhile decimal.isDigit)).2
  refine ⟨mantissa, exponent, hmantissa, hexponent, ?_⟩
  rw [NumeralForm.rest, h, if_neg Bool.false_ne_true, ← hrest]
  exact hcs

/-! ## The characters of a decimal number -/

theorem Sign.mem {cs : List Char} (h : Sign cs) {c : Char} (hc : c ∈ cs) : c = '+' ∨ c = '-' := by
  rcases h with rfl | rfl | rfl
  · exact absurd hc List.not_mem_nil
  · exact .inl (List.mem_singleton.1 hc)
  · exact .inr (List.mem_singleton.1 hc)

theorem Mantissa.mem {cs : List Char} (h : Mantissa cs) {c : Char} (hc : c ∈ cs) :
    c.isDigit = true ∨ c = '.' := by
  cases h with
  | whole hds => exact .inl (hds c hc)
  | point hws hfs =>
    rcases List.mem_append.1 hc with hc | hc
    · exact .inl (hws c hc)
    · rcases List.mem_cons.1 hc with rfl | hc
      · exact .inr rfl
      · exact .inl (hfs c hc)

theorem Exponent.mem {cs : List Char} (h : Exponent cs) {c : Char} (hc : c ∈ cs) :
    c.isDigit = true ∨ c ∈ ['e', 'E', '+', '-'] := by
  cases h with
  | none => exact absurd hc List.not_mem_nil
  | some hmark hsign hds =>
    rcases List.mem_cons.1 hc with rfl | hc
    · rcases hmark with rfl | rfl <;> exact .inr (by simp)
    · rcases List.mem_append.1 hc with hc | hc
      · rcases hsign.mem hc with rfl | rfl <;> exact .inr (by simp)
      · exact .inl (hds c hc)

/-- The characters of a decimal number -/
theorem Decimal.mem {cs : List Char} (h : Decimal cs) {c : Char} (hc : c ∈ cs) :
    c.isDigit = true ∨ c ∈ ['.', 'e', 'E', '+', '-'] := by
  obtain ⟨hsign, hmantissa, hexponent⟩ := h
  rcases List.mem_append.1 hc with hc | hc
  · rcases hsign.mem hc with rfl | rfl <;> exact .inr (by simp)
  · rcases List.mem_append.1 hc with hc | hc
    · exact (hmantissa.mem hc).imp_right fun hpoint => by simp [hpoint]
    · exact (hexponent.mem hc).imp_right (List.mem_cons_of_mem _)

/-- There is no white space in a decimal number. -/
theorem Decimal.not_isSpace {cs : List Char} (h : Decimal cs) {c : Char} (hc : c ∈ cs) :
    isSpace c = false := by
  rcases h.mem hc with hdigit | hmem
  · exact CStrings.not_isSpace hdigit
  · simp only [List.mem_cons, List.not_mem_nil, or_false] at hmem
    rcases hmem with rfl | rfl | rfl | rfl | rfl <;> decide

theorem Mantissa.ne_nil {cs : List Char} (h : Mantissa cs) : cs ≠ [] := by
  cases h with
  | whole _ hne => exact hne
  | point => simp

/-- A decimal number begins with a digit, or with a point. -/
theorem Mantissa.exists_cons {cs : List Char} (h : Mantissa cs) :
    ∃ c rest, cs = c :: rest ∧ (c.isDigit = true ∨ c = '.') := by
  obtain ⟨c, rest, rfl⟩ := List.exists_cons_of_ne_nil h.ne_nil
  exact ⟨c, rest, rfl, h.mem List.mem_cons_self⟩

theorem toLower_ne_x {c : Char} (h : c.isDigit = true ∨ c ∈ ['.', 'e', 'E', '+', '-']) :
    c.toLower ≠ 'x' := by
  rcases h with hdigit | hmem
  · rw [toLower_of_isDigit hdigit]
    rintro rfl
    exact absurd hdigit (by decide)
  · simp only [List.mem_cons, List.not_mem_nil, or_false] at hmem
    rcases hmem with rfl | rfl | rfl | rfl | rfl <;> decide

/-! ## The words among the numerals -/

/-- What begins with a digit or a point is neither an infinity nor a NaN. -/
theorem not_word {cs : List Char} {letter c : Char} {word : List Char}
    (hc : c.isDigit = true ∨ c = '.') (hletter : letter.isDigit = false ∧ letter ≠ '.') :
    (letter :: word).isPrefixOf ((c :: cs).map Char.toLower) = false := by
  have hlower : c.toLower = c := by
    rcases hc with hdigit | rfl
    · exact toLower_of_isDigit hdigit
    · decide
  have hne : (letter == c) = false := by
    rw [beq_eq_false_iff_ne]
    rintro rfl
    rcases hc with hdigit | rfl
    · exact absurd (hdigit.symm.trans hletter.1) (by simp)
    · exact hletter.2 rfl
  rw [List.map_cons, hlower, List.isPrefixOf_cons_cons, hne, Bool.false_and]

/-- A numeral with a decimal digit is a number. -/
theorem exists_unsignedDouble {cs : List Char} (h : (decimal.read cs).isNone = false) :
    ∃ x, unsignedDouble cs = .inr x := by
  obtain ⟨mantissa, exponent, hmantissa, -, hcs⟩ := exists_decimal h
  obtain ⟨c, rest, rfl, hc⟩ := hmantissa.exists_cons
  rw [hcs, List.cons_append]
  unfold unsignedDouble
  rw [show "inf".toList = ['i', 'n', 'f'] from rfl, show "nan".toList = ['n', 'a', 'n'] from rfl]
  simp only [not_word hc (show Char.isDigit 'i' = false ∧ 'i' ≠ '.' by decide),
    not_word hc (show Char.isDigit 'n' = false ∧ 'n' ≠ '.' by decide), Bool.false_eq_true, if_false]
  split
  · exact ⟨_, rfl⟩
  · exact ⟨_, rfl⟩

/-- Unless it is hexadecimal, a numeral with a decimal digit ends where the decimal one does. -/
theorem unsignedRest_of_decimal {cs : List Char} (h : (decimal.read cs).isNone = false)
    (hhex : isHexadecimal cs = false) : unsignedRest cs = decimal.rest cs := by
  obtain ⟨mantissa, exponent, hmantissa, -, hcs⟩ := exists_decimal h
  obtain ⟨c, rest, rfl, hc⟩ := hmantissa.exists_cons
  rw [List.cons_append] at hcs
  have hi := show Char.isDigit 'i' = false ∧ 'i' ≠ '.' by decide
  have hn := show Char.isDigit 'n' = false ∧ 'n' ≠ '.' by decide
  unfold unsignedRest
  rw [hhex]
  have hinfinity : "infinity".toList.isPrefixOf (cs.map Char.toLower) = false :=
    hcs ▸ not_word hc hi
  have hinf : "inf".toList.isPrefixOf (cs.map Char.toLower) = false := hcs ▸ not_word hc hi
  have hnan : "nan".toList.isPrefixOf (cs.map Char.toLower) = false := hcs ▸ not_word hc hn
  simp only [hinfinity, hinf, hnan, Bool.false_eq_true, if_false]

/-! ## White space behind a numeral -/

/-- A text of white space only -/
def Blank (cs : List Char) : Prop := ∀ c ∈ cs, isSpace c = true

theorem isDigit_of_isSpace {c : Char} (h : isSpace c = true) : c.isDigit = false := by
  by_contra hdigit
  rw [Bool.not_eq_false] at hdigit
  exact absurd h (by simp [CStrings.not_isSpace hdigit])

/-- White space neither is a point nor starts an exponent. -/
theorem ne_of_isSpace {c : Char} (h : isSpace c = true) : c ≠ '.' ∧ c.toLower ≠ 'e' := by
  refine ⟨fun heq => ?_, fun hlower => ?_⟩
  · subst heq
    exact absurd h (by decide)
  · rcases toLower_eq_e.1 hlower with rfl | rfl <;> exact absurd h (by decide)

/-- Digits end where something else begins. -/
theorem span_digits {ds rest : List Char} (h : Digits ds)
    (hrest : ∀ c ∈ rest.head?, c.isDigit = false) :
    (ds ++ rest).takeWhile Char.isDigit = ds ∧ (ds ++ rest).dropWhile Char.isDigit = rest := by
  rw [List.takeWhile_append_of_pos h, List.dropWhile_append_of_pos h]
  cases rest with
  | nil => simp
  | cons c rest =>
    have hc : ¬c.isDigit = true := by simp [hrest c rfl]
    rw [List.takeWhile_cons_of_neg hc, List.dropWhile_cons_of_neg hc, List.append_nil]
    exact ⟨rfl, rfl⟩

theorem splitSign_append {sign cs : List Char} (h : Sign sign)
    (hcs : ∀ c ∈ cs.head?, c ≠ '+' ∧ c ≠ '-') : (splitSign (sign ++ cs)).2 = cs := by
  rcases h with rfl | rfl | rfl
  · rw [List.nil_append]
    unfold splitSign
    split
    · exact absurd rfl (hcs _ rfl).2
    · exact absurd rfl (hcs _ rfl).1
    · rfl
  · rfl
  · rfl

theorem ne_sign_of_isDigit {c : Char} (h : c.isDigit = true) : c ≠ '+' ∧ c ≠ '-' := by
  constructor
  · rintro rfl
    exact absurd h (by decide)
  · rintro rfl
    exact absurd h (by decide)

/-- An exponent is read to its end when white space follows it. -/
theorem exponentRest_append {exponent blank : List Char} (h : Exponent exponent)
    (hb : Blank blank) :
    decimal.exponentRest (exponent ++ blank) = blank := by
  cases h with
  | none =>
    rw [List.nil_append]
    cases blank with
    | nil => rfl
    | cons c rest =>
      exact if_neg fun h => (ne_of_isSpace (hb c List.mem_cons_self)).2 h.1
  | @some mark sign ds hmark hsign hds hne =>
    obtain ⟨d, rest, rfl⟩ := List.exists_cons_of_ne_nil hne
    have hspan := span_digits hds fun c hc => isDigit_of_isSpace (hb c (List.mem_of_mem_head? hc))
    have hsplit : (splitSign (sign ++ (d :: rest ++ blank))).2 = d :: rest ++ blank :=
      splitSign_append hsign fun c hc => by
        obtain rfl : d = c := Option.some.inj hc
        exact ne_sign_of_isDigit (hds d List.mem_cons_self)
    rw [List.cons_append, List.append_assoc]
    unfold NumeralForm.exponentRest
    dsimp only
    rw [hsplit, hspan.1, hspan.2, if_pos ⟨toLower_eq_e.2 hmark, hne⟩]

/-- What follows the mantissa in a text that ends in white space -/
theorem head_exponent_append {exponent blank : List Char} (h : Exponent exponent) (hb : Blank blank)
    {c : Char} (hc : c ∈ (exponent ++ blank).head?) : c.isDigit = false ∧ c ≠ '.' := by
  cases h with
  | none =>
    have hspace := hb c (List.mem_of_mem_head? hc)
    exact ⟨isDigit_of_isSpace hspace, (ne_of_isSpace hspace).1⟩
  | some hmark =>
    obtain rfl := Option.some.inj hc
    rcases hmark with rfl | rfl <;> decide

theorem fraction_of_ne {cs : List Char} (h : ∀ c ∈ cs.head?, c ≠ '.') :
    decimal.fraction cs = ([], cs) := by
  unfold NumeralForm.fraction
  split
  · exact absurd rfl (h _ rfl)
  · rfl

/-- A decimal number is read to its end when white space follows it. -/
theorem read_append {mantissa exponent blank : List Char} (hmantissa : Mantissa mantissa)
    (hexponent : Exponent exponent) (hb : Blank blank) :
    (decimal.read (mantissa ++ (exponent ++ blank))).isNone = false ∧
      decimal.rest (mantissa ++ (exponent ++ blank)) = blank := by
  have hhead := fun c => head_exponent_append (c := c) hexponent hb
  -- the digits, and what the exponent is looked for in
  have hread : ∀ cs, cs.takeWhile Char.isDigit
      ++ (decimal.fraction (cs.dropWhile Char.isDigit)).1 ≠ [] →
      (decimal.fraction (cs.dropWhile Char.isDigit)).2 = exponent ++ blank →
      (decimal.read cs).isNone = false ∧ decimal.rest cs = blank := by
    intro cs hdigits hrest
    have hnone : (decimal.read cs).isNone = false :=
      Bool.eq_false_iff.2 fun hnone => hdigits ((decimal.isNone_read cs).1 hnone)
    refine ⟨hnone, ?_⟩
    rw [NumeralForm.rest, hnone, if_neg Bool.false_ne_true]
    exact (congrArg decimal.exponentRest hrest).trans (exponentRest_append hexponent hb)
  cases hmantissa with
  | whole hds hne =>
    have hspan := span_digits hds fun c hc => (hhead c hc).1
    refine hread _ ?_ ?_
    · rw [hspan.1]
      exact List.append_ne_nil_of_left_ne_nil hne _
    · rw [hspan.2, fraction_of_ne fun c hc => (hhead c hc).2]
  | @point ws fs hws hfs hne =>
    have hpoint : ∀ c ∈ ('.' :: (fs ++ (exponent ++ blank))).head?, c.isDigit = false := by
      rintro c hc
      obtain rfl := Option.some.inj hc
      decide
    have hspan := span_digits hws hpoint
    have hfraction := span_digits hfs fun c hc => (hhead c hc).1
    rw [List.append_assoc, List.cons_append]
    refine hread _ ?_ ?_
    · rw [hspan.1, hspan.2]
      show ws ++ (fs ++ (exponent ++ blank)).takeWhile Char.isDigit ≠ []
      rw [hfraction.1]
      exact hne
    · rw [hspan.2]
      exact hfraction.2

/-! ## Reading to the end -/

/-- `std::stod` reads a decimal numeral, and only white space is left behind `idx`. -/
def ReadToEnd (s : String) : Prop :=
  (∃ x, stod s = some (.inr x)) ∧ isHexadecimal (afterSign s) = false ∧
    Blank (s.toList.drop (stodIdx s))

/-- A text without the white space at its ends -/
def trim (cs : List Char) : List Char :=
  (cs.dropWhile isSpace).rdropWhile isSpace

theorem trim_append_blank (cs : List Char) : ∃ blank, Blank blank ∧
    cs.dropWhile isSpace = trim cs ++ blank :=
  ⟨(cs.dropWhile isSpace).rtakeWhile isSpace, fun _ hc => List.mem_rtakeWhile_imp hc,
    List.rdropWhile_append_rtakeWhile.symm⟩

/-- A conversion to a number has found a decimal digit. -/
theorem isNone_read_of_stod {s : String} {x : ℚ} (h : stod s = some (.inr x)) :
    (decimal.read (afterSign s)).isNone = false := by
  unfold stod at h
  dsimp only at h
  split at h
  · exact absurd h (by simp)
  · exact absurd h (by simp)
  · split at h
    next => exact absurd h (by simp)
    next hnone => exact Bool.eq_false_iff.2 hnone

theorem exists_stod {s : String} (h : (decimal.read (afterSign s)).isNone = false) :
    ∃ x, stod s = some (.inr x) := by
  obtain ⟨x, hx⟩ := exists_unsignedDouble h
  have hread : stod s = some (.inr
      (if (splitSign (s.toList.dropWhile isSpace)).1 then -x else x)) := by
    unfold afterSign at h hx
    unfold stod
    dsimp only
    rw [hx]
    simp [h]
  exact ⟨_, hread⟩

/-- A numeral read to its end is the trimmed text. -/
theorem decimal_of_readToEnd {s : String} (h : ReadToEnd s) : Decimal (trim s.toList) := by
  obtain ⟨⟨x, hx⟩, hhex, hblank⟩ := h
  have hread := isNone_read_of_stod hx
  rw [drop_stodIdx, unsignedRest_of_decimal hread hhex] at hblank
  obtain ⟨mantissa, exponent, hmantissa, hexponent, hcs⟩ := exists_decimal hread
  obtain ⟨sign, hsign, htext⟩ := exists_sign (s.toList.dropWhile isSpace)
  have hdecimal := Decimal.mk hsign hmantissa hexponent
  have hsplit : s.toList.dropWhile isSpace
      = sign ++ (mantissa ++ exponent) ++ decimal.rest (afterSign s) := by
    rw [htext, List.append_assoc, List.append_assoc]
    exact congrArg _ hcs
  have hlast : (sign ++ (mantissa ++ exponent)).rdropWhile isSpace
      = sign ++ (mantissa ++ exponent) :=
    List.rdropWhile_eq_self_iff.2 fun hne hspace =>
      absurd hspace (by simp [hdecimal.not_isSpace (List.getLast_mem hne)])
  have htrim : trim s.toList = sign ++ (mantissa ++ exponent) := by
    rw [trim, hsplit, List.rdropWhile, List.reverse_append,
      List.dropWhile_append_of_pos fun c hc => hblank c (List.mem_reverse.1 hc)]
    exact hlast
  exact htrim ▸ hdecimal

/-- A text that is a decimal number between white space is read to its end. -/
theorem readToEnd_of_decimal {s : String} (h : Decimal (trim s.toList)) : ReadToEnd s := by
  obtain ⟨blank, hblank, htext⟩ := trim_append_blank s.toList
  generalize trim s.toList = text at h htext
  obtain ⟨hsign, hmantissa, hexponent⟩ := h
  rename_i sign mantissa exponent
  obtain ⟨c, rest, hcons, hc⟩ := hmantissa.exists_cons
  have hafter : afterSign s = mantissa ++ (exponent ++ blank) := by
    rw [afterSign, htext, List.append_assoc, List.append_assoc]
    refine splitSign_append hsign fun d hd => ?_
    rw [hcons, List.cons_append] at hd
    obtain rfl := Option.some.inj hd
    rcases hc with hdigit | rfl
    · exact ne_sign_of_isDigit hdigit
    · decide
  obtain ⟨hread, hrest⟩ := read_append hmantissa hexponent hblank
  rw [← hafter] at hread hrest
  have hhex : isHexadecimal (afterSign s) = false := by
    unfold isHexadecimal
    split
    next digits heq =>
      have hx : 'x' ∈ (afterSign s).map Char.toLower := by simp [heq]
      obtain ⟨d, hd, hlower⟩ := List.mem_map.1 hx
      rw [hafter, ← List.append_assoc] at hd
      refine absurd hlower ?_
      rcases List.mem_append.1 hd with hd | hd
      · exact toLower_ne_x (Decimal.mem (.mk (.inl rfl) hmantissa hexponent) hd)
      · have hspace := hblank d hd
        simp only [isSpace, Bool.or_eq_true, decide_eq_true_eq] at hspace
        rcases hspace with (((((rfl | rfl) | rfl) | rfl) | rfl) | rfl) <;> decide
    next => rfl
  refine ⟨exists_stod hread, hhex, ?_⟩
  rw [drop_stodIdx, unsignedRest_of_decimal hread hhex, hrest]
  exact hblank

/-- **The decimal numbers among the texts.** What `std::stod` reads in decimal, up to white space at
the end, is a decimal number between white space; and every such number is read that way. -/
theorem readToEnd_iff {s : String} : ReadToEnd s ↔ Decimal (trim s.toList) :=
  ⟨decimal_of_readToEnd, readToEnd_of_decimal⟩

/-! ## The first character -/

/-- A word that a text begins with is not longer than the text. -/
theorem length_pos_of_word {word cs : List Char} (hword : word ≠ [])
    (h : word.isPrefixOf (cs.map Char.toLower) = true) : 0 < cs.length := by
  have hle := (List.isPrefixOf_iff_prefix.1 h).length_le
  rw [List.length_map] at hle
  exact (List.length_pos_iff.2 hword).trans_le hle

theorem unsignedRest_length_lt {cs : List Char} (h : (decimal.read cs).isNone = false ∨
    "inf".toList.isPrefixOf (cs.map Char.toLower) = true ∨
    "nan".toList.isPrefixOf (cs.map Char.toLower) = true) :
    (unsignedRest cs).length < cs.length := by
  have hdrop : ∀ n, 0 < n → 0 < cs.length → (cs.drop n).length < cs.length := by
    intro n hn hcs
    rw [List.length_drop]
    omega
  have hpos : 0 < cs.length := by
    rcases h with hread | hinf | hnan
    · obtain ⟨mantissa, exponent, hmantissa, -, hcs⟩ := exists_decimal hread
      rw [hcs, List.length_append]
      have := List.length_pos_iff.2 hmantissa.ne_nil
      omega
    · exact length_pos_of_word (by decide) hinf
    · exact length_pos_of_word (by decide) hnan
  unfold unsignedRest
  dsimp only
  split_ifs with hinfinity hinf hnan hhex
  · exact hdrop 8 (by omega) hpos
  · exact hdrop 3 (by omega) hpos
  · exact (nanRest_suffix _).length_le.trans_lt (hdrop 3 (by omega) hpos)
  · exact (NumeralForm.rest_suffix _ _).length_le.trans_lt (hdrop 2 (by omega) hpos)
  · have hread : (decimal.read cs).isNone = false := by
      rcases h with hread | h | h
      · exact hread
      · exact absurd h hinf
      · exact absurd h hnan
    obtain ⟨mantissa, exponent, hmantissa, -, hcs⟩ := exists_decimal hread
    have hlength := congrArg List.length hcs
    simp only [List.length_append] at hlength
    have := List.length_pos_iff.2 hmantissa.ne_nil
    omega

/-- Infinities and NaNs are read off words only. -/
theorem stod_ne_inl {s : String} {x : Double}
    (hinf : ¬"inf".toList.isPrefixOf ((afterSign s).map Char.toLower) = true)
    (hnan : ¬"nan".toList.isPrefixOf ((afterSign s).map Char.toLower) = true) :
    stod s ≠ some (.inl x) := by
  have hdouble : ∃ y, unsignedDouble (afterSign s) = .inr y := by
    unfold unsignedDouble
    dsimp only
    rw [if_neg hinf, if_neg hnan]
    split
    · exact ⟨_, rfl⟩
    · exact ⟨_, rfl⟩
  obtain ⟨y, hy⟩ := hdouble
  unfold afterSign at hy
  unfold stod
  dsimp only
  rw [hy]
  dsimp only
  split
  · simp
  · simp

/-- Where `std::stod` does not throw, it has read a character. -/
theorem stodIdx_pos {s : String} (h : (stod s).isSome = true) : 0 < stodIdx s := by
  have hcs : (unsignedRest (afterSign s)).length < (afterSign s).length := by
    refine unsignedRest_length_lt ?_
    by_cases hinf : "inf".toList.isPrefixOf ((afterSign s).map Char.toLower) = true
    · exact .inr (.inl hinf)
    by_cases hnan : "nan".toList.isPrefixOf ((afterSign s).map Char.toLower) = true
    · exact .inr (.inr hnan)
    -- no word, so a number was read
    left
    obtain ⟨v, hv⟩ := Option.isSome_iff_exists.1 h
    cases v with
    | inr x => exact isNone_read_of_stod hv
    | inl x => exact absurd hv (stod_ne_inl hinf hnan)
  have hle := (afterSign_suffix s).length_le
  unfold stodIdx
  omega

end CStrings

end SchedSim
