import SchedSim.ValidRows

/-!
# Malformed numbers in a trace

Which files a replay reads in whole numbers only.  `safe_to_double` takes whatever numeral a cell
begins with, so a cell with something behind its number, a NaN, an infinity or a hexadecimal number
contributes to a task as well, and a comparison with a NaN rejects nothing.

* `exists_number` : a decimal numeral that is in range is read as a number.
* `rejectsMalformed_iff` : the files of which every task comes from whole decimal numbers.
-/

namespace SchedSim

namespace DoubleReplay

open CStrings
open TraceReplayWorkload (getlines splitCsvRow trimCopy clampNice TraceType googleColumns
  alibabaColumns readHeader)

/-! ## The cells -/

/-- What the compiled program does: `std::stod` and rounding to binary64 -/
def binary64 (lib : Strtod) : Arithmetic where
  read := safeToDouble lib
  round := Value.nearest

variable {lib : Strtod} {traceType : TraceType} {header cells : List String}

/-- A cell that is, but for white space at its ends, the text of a decimal number -/
def WholeNumber (cell : String) : Prop :=
  Decimal (trimCopy cell).toList

theorem wholeNumber_iff {cell : String} : WholeNumber cell ↔ ReadToEnd cell := by
  rw [readToEnd_iff, WholeNumber, trimCopy, String.toList_ofList, trim]

/-- A decimal numeral that is in range is read as a number. -/
theorem exists_number {cell : String} (h : ReadToEnd cell)
    (hread : (safeToDouble lib cell).isSome = true) :
    valueOf (binary64 lib) cell = .number (timeOf (binary64 lib) cell) ∧
      |timeOf (binary64 lib) cell| < 2 ^ 1024 := by
  obtain ⟨⟨x, hx⟩, -⟩ := h
  obtain ⟨v, hv⟩ := Option.isSome_iff_exists.1 hread
  have hstod := hv
  rw [safeToDouble_eq, Strtod.stod, hx] at hstod
  dsimp only at hstod
  by_cases hrange : lib.outOfRange x = true
  · rw [if_pos hrange] at hstod
    exact absurd hstod (by simp)
  · rw [if_neg hrange] at hstod
    obtain rfl := Option.some.inj hstod
    have hfinite : (Value.nearest x).isFinite = true := by
      by_contra hinfinite
      exact hrange (lib.overflow x (Bool.eq_false_iff.2 hinfinite))
    have htime : timeOf (binary64 lib) cell = (Value.nearest x).toRat := by
      rw [timeOf, show (binary64 lib).read cell = _ from hv]
      rfl
    rw [valueOf_of_read (show (binary64 lib).read cell = _ from hv), htime]
    exact ⟨(Value.number_toRat hfinite).symm, Value.abs_toRat_nearest_lt hfinite⟩

/-! ## Overflow -/

/-- A result that does not overflow -/
def InRange (x : ℚ) : Prop := |Binary64.nearest x| < 2 ^ 1024

theorem inRange_of_lt {x : ℚ} (h : |x| < 2 ^ 1015) : InRange x :=
  (Binary64.abs_nearest_le (by norm_num) h).trans_lt (pow_lt_pow_right₀ (by norm_num) (by norm_num))

/-- A finite lower bound stays finite against a difference that does not overflow. -/
theorem isFinite_max_nearest {low : Value} (hlow : low.isFinite = true) {d : ℚ} (hd : 0 ≤ d) :
    (low.max (.nearest d)).isFinite = true ↔ InRange d := by
  by_cases hrange : InRange d
  · exact iff_of_true (Value.isFinite_max hlow (Value.isFinite_nearest.2 hrange)) hrange
  · refine iff_of_false ?_ hrange
    obtain ⟨x, rfl⟩ := Value.isFinite_iff.1 hlow
    have hinfinite : Value.nearest d = .infinite false := by
      rw [Value.nearest, Double.ofRat, dif_neg (show ¬|Binary64.nearest d| < 2 ^ 1024 from hrange),
        Value.ofDouble, decide_eq_false (not_lt.2 hd)]
    rw [hinfinite]
    simp [Value.max, Value.lt, Value.isFinite]

/-! ## The rows -/

/-- The arrival of a row in milliseconds -/
def arrivalOf (lib : Strtod) (traceType : TraceType) (header cells : List String) : ℚ :=
  let first := timeOf (binary64 lib) (timeCells traceType header cells).1
  match traceType with
  | .googleV3 => Binary64.nearest (first / 1000)
  | .alibabaV2018 => first

/-- Where the execution time of a row is a difference, it does not overflow. -/
def LengthInRange (lib : Strtod) (traceType : TraceType) (header cells : List String) : Prop :=
  match traceType with
  | .googleV3 => True
  | .alibabaV2018 =>
    InRange (timeOf (binary64 lib) (timeCells traceType header cells).2
      - timeOf (binary64 lib) (timeCells traceType header cells).1)

/-- Both times of a row are decimal numerals up to their ends. -/
def ReadsToEnd (traceType : TraceType) (header cells : List String) : Prop :=
  ReadToEnd (timeCells traceType header cells).1 ∧ ReadToEnd (timeCells traceType header cells).2

theorem inRange_div {x : ℚ} (h : |x| < 2 ^ 1024) : InRange (x / 1000) := by
  refine inRange_of_lt ?_
  rw [abs_div, abs_of_pos (by norm_num : (0 : ℚ) < 1000), div_lt_iff₀ (by norm_num)]
  calc |x| < 2 ^ 1015 * 2 ^ 9 := by rwa [← pow_add]
    _ ≤ 2 ^ 1015 * 1000 := mul_le_mul_of_nonneg_left (by norm_num) (by positivity)

theorem isFinite_tenth : (Value.nearest (1 / 10)).isFinite = true :=
  Value.isFinite_nearest.2 (inRange_of_lt ((by norm_num : |(1 / 10 : ℚ)| < 1).trans_le
    (one_le_pow₀ (by norm_num))))

theorem arrivalMs_eq (hpasses : Passes (binary64 lib) traceType header cells)
    (hread : ReadsToEnd traceType header cells) :
    (rowValues (binary64 lib) traceType header cells).arrivalMs
      = .number (arrivalOf lib traceType header cells) := by
  obtain ⟨hvalue, hlt⟩ := exists_number hread.1 hpasses.2.1
  cases traceType with
  | googleV3 =>
    show (valueOf (binary64 lib) _).divide Value.nearest 1000 = _
    rw [hvalue, Value.divide]
    exact Value.nearest_of_lt (inRange_div hlt)
  | alibabaV2018 => exact hvalue

theorem isFinite_execMs (hpasses : Passes (binary64 lib) traceType header cells)
    (hread : ReadsToEnd traceType header cells) :
    (rowValues (binary64 lib) traceType header cells).execMs.isFinite = true
      ↔ LengthInRange lib traceType header cells := by
  obtain ⟨hfirst, -⟩ := exists_number hread.1 hpasses.2.1
  obtain ⟨hsecond, hlt⟩ := exists_number hread.2 hpasses.2.2.1
  cases traceType with
  | googleV3 =>
    refine iff_of_true (Value.isFinite_max isFinite_tenth ?_) trivial
    show (Value.divide Value.nearest 1000 (valueOf (binary64 lib) _)).isFinite = true
    rw [hsecond, Value.divide]
    exact Value.isFinite_nearest.2 (inRange_div hlt)
  | alibabaV2018 =>
    have hle := hpasses.2.2.2.2
    rw [hfirst, hsecond, Value.le, decide_eq_false_iff_not, not_le] at hle
    show ((Value.nearest (1 / 10)).max (Value.sub Value.nearest _ _)).isFinite = true ↔ _
    rw [hfirst, hsecond, Value.sub]
    exact isFinite_max_nearest isFinite_tenth (sub_nonneg.2 hle.le)

/-! ## The tasks -/

theorem exists_sorts {raw : List Row} (h : ∀ row ∈ raw, row.arrivalMs.isFinite = true) :
    ∃ sorted, Sorts raw sorted := by
  refine ⟨raw.mergeSort fun a b => a.arrivalMs.toRat ≤ b.arrivalMs.toRat, List.mergeSort_perm _ _,
    fun _ => ?_⟩
  refine (Statistics.pairwise_mergeSort_le (fun row : Row => row.arrivalMs.toRat) raw).imp_of_mem ?_
  intro a b ha hb hle
  rw [List.mem_mergeSort] at ha hb
  rw [← Value.number_toRat (h a ha), ← Value.number_toRat (h b hb), Value.lt]
  simpa using hle

/-- What the tasks of sorted rows have for times -/
theorem map_times (fl : Arithmetic) (front : Row) (rest : List Row) :
    (toTasks fl (front :: rest)).map (fun t => (t.arrivalTime, t.executionTime))
      = (front :: rest).map fun row =>
        ((Value.number 0).max (row.arrivalMs.sub fl.round front.arrivalMs), row.execMs) := by
  conv_rhs => rw [← List.zipIdx_map_fst 0 (front :: rest)]
  rw [toTasks, List.map_map, List.map_map]
  rfl

/-- The times of the tasks are finite if the rows' are, and the differences to the first one. -/
theorem finiteTasks_iff (fl : Arithmetic) (front : Row) (rest : List Row) :
    (∀ t ∈ toTasks fl (front :: rest),
      t.arrivalTime.isFinite = true ∧ t.executionTime.isFinite = true) ↔
    ∀ row ∈ front :: rest,
      ((Value.number 0).max (row.arrivalMs.sub fl.round front.arrivalMs)).isFinite = true ∧
        row.execMs.isFinite = true := by
  have htimes := map_times fl front rest
  constructor
  · intro h row hrow
    have hmem := List.mem_map_of_mem (f := fun row : Row =>
      ((Value.number 0).max (row.arrivalMs.sub fl.round front.arrivalMs), row.execMs)) hrow
    rw [← htimes] at hmem
    obtain ⟨t, ht, heq⟩ := List.mem_map.1 hmem
    obtain ⟨harrival, hexec⟩ := Prod.mk.inj heq
    rw [← harrival, ← hexec]
    exact h t ht
  · intro h t ht
    have hmem := List.mem_map_of_mem (f := fun t : Args => (t.arrivalTime, t.executionTime)) ht
    rw [htimes] at hmem
    obtain ⟨row, hrow, heq⟩ := List.mem_map.1 hmem
    obtain ⟨harrival, hexec⟩ := Prod.mk.inj heq
    rw [← harrival, ← hexec]
    exact h row hrow

/-! ## The law -/

/-- Malformed numbers are rejected: a row contributes a task only if its times are decimal numbers
as a whole, and every task has finite times. -/
structure RejectsMalformed (lib : Strtod) (traceType : TraceType) (content : String)
    (numTasks : UInt32) : Prop where
  wholeNumbers : ∀ cells ∈ contributing (binary64 lib) traceType content numTasks.toNat,
    WholeNumber (timeCells traceType (headerOf content) cells).1 ∧
      WholeNumber (timeCells traceType (headerOf content) cells).2
  finiteTasks : ∀ tasks, Generates (binary64 lib) traceType (some content) numTasks tasks →
    ∀ t ∈ tasks, t.arrivalTime.isFinite = true ∧ t.executionTime.isFinite = true

/-- The first rows that pass, as many as asked for -/
def firstRows (lib : Strtod) (traceType : TraceType) (content : String) (numTasks : ℕ) :
    List (List String) :=
  ((rowsOf content).filter (Passes (binary64 lib) traceType (headerOf content))).take numTasks

/-- In the first rows that pass, the conversion reads decimal numerals and stops at the ends of the
cells or at white space, and no difference of times overflows: not between the times of a row, and
not between its arrival and the first one. -/
structure Clean (lib : Strtod) (traceType : TraceType) (content : String) (numTasks : ℕ) :
    Prop where
  readsToEnd : ∀ cells ∈ firstRows lib traceType content numTasks,
    ReadsToEnd traceType (headerOf content) cells
  lengths : ∀ cells ∈ firstRows lib traceType content numTasks,
    LengthInRange lib traceType (headerOf content) cells
  arrivals : ∀ first ∈ firstRows lib traceType content numTasks,
    (∀ cells ∈ firstRows lib traceType content numTasks,
      arrivalOf lib traceType (headerOf content) first
        ≤ arrivalOf lib traceType (headerOf content) cells) →
    ∀ cells ∈ firstRows lib traceType content numTasks,
      InRange (arrivalOf lib traceType (headerOf content) cells
        - arrivalOf lib traceType (headerOf content) first)

variable {content : String} {n : ℕ}

theorem passes_of_mem (h : cells ∈ firstRows lib traceType content n) :
    Passes (binary64 lib) traceType (headerOf content) cells := by
  simpa using (List.mem_filter.1 (List.mem_of_mem_take h)).2

/-- The rows that are read, when their times are decimal numerals. -/
theorem readTrace_firstRows (lib : Strtod) (traceType : TraceType) (content : String) (n : ℕ) :
    readTrace (binary64 lib) traceType content n
      = (firstRows lib traceType content n).map
          (rowValues (binary64 lib) traceType (headerOf content)) := by
  rw [readTrace_contributing, contributing_eq, firstRows]

/-- The first of the sorted rows comes from a row that arrives no later than any other. -/
theorem exists_first {front : Row} {rest : List Row}
    (hread : ∀ cells ∈ firstRows lib traceType content n,
      ReadsToEnd traceType (headerOf content) cells)
    (hsorts : Sorts (readTrace (binary64 lib) traceType content n) (front :: rest)) :
    ∃ first ∈ firstRows lib traceType content n,
      front.arrivalMs = .number (arrivalOf lib traceType (headerOf content) first) ∧
      ∀ cells ∈ firstRows lib traceType content n,
        rowValues (binary64 lib) traceType (headerOf content) cells ∈ front :: rest ∧
        arrivalOf lib traceType (headerOf content) first
          ≤ arrivalOf lib traceType (headerOf content) cells := by
  rw [readTrace_firstRows] at hsorts
  have harrival : ∀ cells ∈ firstRows lib traceType content n,
      (rowValues (binary64 lib) traceType (headerOf content) cells).arrivalMs
        = .number (arrivalOf lib traceType (headerOf content) cells) :=
    fun cells hcells => arrivalMs_eq (passes_of_mem hcells) (hread cells hcells)
  obtain ⟨first, hfirst, rfl⟩ := List.mem_map.1 (hsorts.1.subset List.mem_cons_self)
  have hpairwise := hsorts.2 fun row hrow => by
    obtain ⟨cells, hcells, rfl⟩ := List.mem_map.1 hrow
    rw [harrival cells hcells]
    simp
  refine ⟨first, hfirst, harrival first hfirst, fun cells hcells => ?_⟩
  have hmem := hsorts.1.symm.subset (List.mem_map_of_mem hcells)
  refine ⟨hmem, ?_⟩
  rcases List.mem_cons.1 hmem with heq | hrest
  · have hsame := harrival cells hcells
    rw [heq, harrival first hfirst] at hsame
    exact (Value.number.inj hsame).le
  · have hle := List.rel_of_pairwise_cons hpairwise hrest
    rw [harrival cells hcells, harrival first hfirst, Value.lt, decide_eq_false_iff_not,
      not_lt] at hle
    exact hle

/-- Where the times are decimal numerals, the tasks are finite if no difference overflows. -/
theorem finiteTasks_iff_inRange {numTasks : UInt32}
    (hread : ∀ cells ∈ firstRows lib traceType content numTasks.toNat,
      ReadsToEnd traceType (headerOf content) cells) :
    (∀ tasks, Generates (binary64 lib) traceType (some content) numTasks tasks →
      ∀ t ∈ tasks, t.arrivalTime.isFinite = true ∧ t.executionTime.isFinite = true) ↔
    Clean lib traceType content numTasks.toNat := by
  have hexec : ∀ cells ∈ firstRows lib traceType content numTasks.toNat,
      (rowValues (binary64 lib) traceType (headerOf content) cells).execMs.isFinite = true
        ↔ LengthInRange lib traceType (headerOf content) cells :=
    fun cells hcells => isFinite_execMs (passes_of_mem hcells) (hread cells hcells)
  have harrival : ∀ cells ∈ firstRows lib traceType content numTasks.toNat,
      (rowValues (binary64 lib) traceType (headerOf content) cells).arrivalMs
        = .number (arrivalOf lib traceType (headerOf content) cells) :=
    fun cells hcells => arrivalMs_eq (passes_of_mem hcells) (hread cells hcells)
  constructor
  · intro h
    obtain ⟨sorted, hsorts⟩ : ∃ sorted,
        Sorts (readTrace (binary64 lib) traceType content numTasks.toNat) sorted := by
      refine exists_sorts fun row hrow => ?_
      rw [readTrace_firstRows] at hrow
      obtain ⟨cells, hcells, rfl⟩ := List.mem_map.1 hrow
      rw [harrival cells hcells]
      rfl
    have htasks := h _ ⟨sorted, hsorts, rfl⟩
    cases sorted with
    | nil =>
      have hnil : firstRows lib traceType content numTasks.toNat = [] := by
        have hperm := hsorts.1.symm.eq_nil
        rw [readTrace_firstRows, List.map_eq_nil_iff] at hperm
        exact hperm
      constructor <;> simp [hnil]
    | cons front rest =>
      rw [finiteTasks_iff] at htasks
      obtain ⟨first, hfirst, hfront, hall⟩ := exists_first hread hsorts
      refine ⟨hread, fun cells hcells =>
        (hexec cells hcells).1 (htasks _ (hall cells hcells).1).2, ?_⟩
      intro first' hfirst' hleast cells hcells
      have hsame : arrivalOf lib traceType (headerOf content) first'
          = arrivalOf lib traceType (headerOf content) first :=
        le_antisymm (hleast first hfirst) (hall first' hfirst').2
      have htime := (htasks _ (hall cells hcells).1).1
      rw [harrival cells hcells, hfront] at htime
      rw [hsame]
      exact (isFinite_max_nearest rfl (sub_nonneg.2 (hall cells hcells).2)).1 htime
  · rintro hclean tasks ⟨sorted, hsorts, rfl⟩
    cases sorted with
    | nil => simp [toTasks]
    | cons front rest =>
      obtain ⟨first, hfirst, hfront, hall⟩ := exists_first hread hsorts
      rw [finiteTasks_iff]
      intro row hrow
      have hmem := hsorts.1.subset hrow
      rw [readTrace_firstRows] at hmem
      obtain ⟨cells, hcells, rfl⟩ := List.mem_map.1 hmem
      refine ⟨?_, (hexec cells hcells).2 (hclean.lengths cells hcells)⟩
      rw [harrival cells hcells, hfront]
      exact (isFinite_max_nearest rfl (sub_nonneg.2 (hall cells hcells).2)).2
        (hclean.arrivals first hfirst (fun other hother => (hall other hother).2) cells hcells)

/-- **When malformed numbers are rejected.** Each of the tasks comes from whole decimal numbers, and
is finite, exactly if in the first rows that pass the conversion reads decimal numerals to the ends
of the cells, and no difference of times overflows. -/
theorem rejectsMalformed_iff (lib : Strtod) (traceType : TraceType) (content : String)
    (numTasks : UInt32) :
    RejectsMalformed lib traceType content numTasks ↔
    Clean lib traceType content numTasks.toNat := by
  have hcontributing : contributing (binary64 lib) traceType content numTasks.toNat
      = firstRows lib traceType content numTasks.toNat := contributing_eq _ _ _ _
  constructor
  · rintro ⟨hwhole, hfinite⟩
    rw [hcontributing] at hwhole
    have hread : ∀ cells ∈ firstRows lib traceType content numTasks.toNat,
        ReadsToEnd traceType (headerOf content) cells := fun cells hcells =>
      ⟨wholeNumber_iff.1 (hwhole cells hcells).1, wholeNumber_iff.1 (hwhole cells hcells).2⟩
    exact (finiteTasks_iff_inRange hread).1 hfinite
  · intro hclean
    refine ⟨fun cells hcells => ?_, (finiteTasks_iff_inRange hclean.readsToEnd).2 hclean⟩
    rw [hcontributing] at hcells
    have hread := hclean.readsToEnd cells hcells
    exact ⟨wholeNumber_iff.2 hread.1, wholeNumber_iff.2 hread.2⟩

/-- A burst with its unit behind it is taken for a number. -/
theorem rejectsMalformed_false :
    ¬RejectsMalformed plainStrtod .googleV3 "0,12ms,5,0\n" 1 := by
  intro h
  have hmem : ["0", "12ms", "5", "0"] ∈
      contributing (binary64 plainStrtod) .googleV3 "0,12ms,5,0\n" (1 : UInt32).toNat := by
    decide +kernel
  have hdecimal := (h.wholeNumbers _ hmem).2
  have hletter := hdecimal.mem (c := 'm') (by decide +kernel)
  exact absurd hletter (by decide)

end DoubleReplay

end SchedSim
