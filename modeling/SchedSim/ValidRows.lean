import SchedSim.DoubleReplay

/-!
# The rows that a replay keeps

Which rows of a trace count, said without the loop that reads them, and the tasks that a replay
makes of them.  Differences of times are exact here; which numbers a cell spells, and which it
cannot, is as `std::stod` has it.  The nice value of an Alibaba row is a difference of `int`s.

* `readRow_exact` : a row is read if it is valid, with its own times.
* `FitsInt` : its nice value is the one the task type asks for.
* `toTasks_shift` : sorted rows become tasks that start at zero.
* `keepsValidRows_iff` : what is generated are the first valid rows, shifted to start at zero,
  if all of them fit.
* `keepsValidRows_false` : the least task type becomes the greatest nice value.
-/

namespace SchedSim

namespace DoubleReplay

open CStrings
open TraceReplayWorkload (getlines splitCsvRow trimCopy clampNice TraceType GoogleColumns
  googleColumns AlibabaColumns alibabaColumns readHeader)

/-! ## Valid rows -/

/-- What a cell spells, zero if it is not a number -/
def timeOf (fl : Arithmetic) (cell : String) : ℚ :=
  ((fl.read cell).map Value.toRat).getD 0

/-- What an Alibaba row must say besides: that the instance has ended, and after it started. -/
def Ended (fl : Arithmetic) (traceType : TraceType) (header cells : List String) : Prop :=
  match traceType with
  | .googleV3 => True
  | .alibabaV2018 =>
    trimCopy (cells.getD (alibabaColumns header).idxStatus "") ∈ acceptedStatuses ∧
      timeOf fl (timeCells traceType header cells).1
        < timeOf fl (timeCells traceType header cells).2

instance (fl : Arithmetic) (traceType : TraceType) (header cells : List String) :
    Decidable (Ended fl traceType header cells) :=
  match traceType with
  | .googleV3 => inferInstanceAs (Decidable True)
  | .alibabaV2018 => inferInstanceAs (Decidable (_ ∧ _))

/-- A row that has enough columns and times that can be read, and of an instance that has ended -/
def Valid (fl : Arithmetic) (traceType : TraceType) (header cells : List String) : Prop :=
  lastColumn traceType header < cells.length ∧
    (fl.read (timeCells traceType header cells).1).isSome = true ∧
    (fl.read (timeCells traceType header cells).2).isSome = true ∧
    Ended fl traceType header cells

instance (fl : Arithmetic) (traceType : TraceType) (header : List String) :
    DecidablePred (Valid fl traceType header) :=
  fun _ => inferInstanceAs (Decidable (_ ∧ _))

/-- The task type of an Alibaba row, 1 if it cannot be read -/
def taskTypeOf (header cells : List String) : ℤ :=
  (stoi (cells.getD (alibabaColumns header).idxTaskType "")).getD 1

/-- Arrival and execution time of a row in milliseconds, and its nice value -/
def entry (fl : Arithmetic) (traceType : TraceType) (header cells : List String) : ℚ × ℚ × ℤ :=
  let first := timeOf fl (timeCells traceType header cells).1
  let second := timeOf fl (timeCells traceType header cells).2
  match traceType with
  | .googleV3 =>
    (first / 1000, max (1 / 10) (second / 1000),
      clampNice ((stoi (cells.getD (googleColumns header).idxNice "")).getD 0))
  | .alibabaV2018 =>
    (first, max (1 / 10) (second - first), clampNice (taskTypeOf header cells - 5))

/-- The nice value of an Alibaba row is found without an overflow. -/
def FitsInt (traceType : TraceType) (header cells : List String) : Prop :=
  match traceType with
  | .googleV3 => True
  | .alibabaV2018 => -2 ^ 31 + 5 ≤ taskTypeOf header cells

instance (traceType : TraceType) (header : List String) :
    DecidablePred (FitsInt traceType header) :=
  fun _ =>
    match traceType with
    | .googleV3 => inferInstanceAs (Decidable True)
    | .alibabaV2018 => inferInstanceAs (Decidable (_ ≤ _))

/-- A file whose numeric cells are numbers, or nothing that can be read -/
def Numeric (fl : Arithmetic) (traceType : TraceType) (content : String) : Prop :=
  ∀ cells ∈ rowsOf content,
    (∀ v ∈ fl.read (timeCells traceType (headerOf content) cells).1, v.isFinite = true) ∧
    (∀ v ∈ fl.read (timeCells traceType (headerOf content) cells).2, v.isFinite = true)

/-! ## What the loop keeps -/

variable {fl : Arithmetic} {traceType : TraceType} {header cells : List String}

def rowOf : ℚ × ℚ × ℤ → TraceReplayWorkload.Row
  | (arrivalMs, execMs, nice) => { arrivalMs, execMs, nice }

/-- A time that can be read is a number. -/
theorem valueOf_eq {cell : String} (h : ∀ v ∈ fl.read cell, v.isFinite = true)
    (hsome : (fl.read cell).isSome = true) : valueOf fl cell = .number (timeOf fl cell) := by
  obtain ⟨v, hv⟩ := Option.isSome_iff_exists.1 hsome
  rw [valueOf, timeOf, hv, Option.map_some, Option.getD_some, Option.getD_some]
  exact (Value.number_toRat (h v hv)).symm

/-- On numbers a row passes if it is valid. -/
theorem passes_iff_valid (hfirst : ∀ v ∈ fl.read (timeCells traceType header cells).1,
    v.isFinite = true)
    (hsecond : ∀ v ∈ fl.read (timeCells traceType header cells).2, v.isFinite = true) :
    Passes fl traceType header cells ↔ Valid fl traceType header cells := by
  refine and_congr_right fun _ => and_congr_right fun hx => and_congr_right fun hy => ?_
  cases traceType with
  | googleV3 => exact Iff.rfl
  | alibabaV2018 =>
    refine and_congr_right fun _ => ?_
    rw [valueOf_eq hfirst hx, valueOf_eq hsecond hy, Value.le, decide_eq_false_iff_not, not_le]

/-- The entry of a row with the nice value that the replay finds -/
def written (fl : Arithmetic) (traceType : TraceType) (header cells : List String) : ℚ × ℚ × ℤ :=
  let (arrivalMs, execMs, _) := entry fl traceType header cells
  (arrivalMs, execMs, (rowValues fl traceType header cells).nice)

theorem rowValues_eq (hround : fl.round = .number)
    (hfirst : ∀ v ∈ fl.read (timeCells traceType header cells).1, v.isFinite = true)
    (hsecond : ∀ v ∈ fl.read (timeCells traceType header cells).2, v.isFinite = true)
    (h : Valid fl traceType header cells) :
    rowValues fl traceType header cells = .ofExact (rowOf (written fl traceType header cells)) := by
  have hx := valueOf_eq hfirst h.2.1
  have hy := valueOf_eq hsecond h.2.2.1
  cases traceType with
  | googleV3 =>
    rw [written]
    unfold rowValues
    dsimp only
    rw [hx, hy, hround, Value.divide, Value.divide, Value.max_number]
    rfl
  | alibabaV2018 =>
    rw [written]
    unfold rowValues
    dsimp only
    rw [hx, hy, hround, Value.sub, Value.max_number]
    rfl

/-- A row is read if it is valid, with its own times. -/
theorem readRow_exact (hround : fl.round = .number)
    (hfirst : ∀ v ∈ fl.read (timeCells traceType header cells).1, v.isFinite = true)
    (hsecond : ∀ v ∈ fl.read (timeCells traceType header cells).2, v.isFinite = true) :
    readRow fl traceType header cells =
      if Valid fl traceType header cells then
        some (.ofExact (rowOf (written fl traceType header cells)))
      else none := by
  rw [readRow_eq]
  by_cases hvalid : Valid fl traceType header cells
  · rw [if_pos hvalid, if_pos ((passes_iff_valid hfirst hsecond).2 hvalid),
      rowValues_eq hround hfirst hsecond hvalid]
  · rw [if_neg hvalid, if_neg (mt (passes_iff_valid hfirst hsecond).1 hvalid)]

/-- The first rows of a file that are valid, as many as asked for -/
def keptRows (fl : Arithmetic) (traceType : TraceType) (content : String) (numTasks : ℕ) :
    List (List String) :=
  ((rowsOf content).filter (Valid fl traceType (headerOf content))).take numTasks

/-- The loop reads the valid rows. -/
theorem readTrace_keptRows {content : String} (hround : fl.round = .number)
    (hnumeric : Numeric fl traceType content) (n : ℕ) :
    readTrace fl traceType content n = (((keptRows fl traceType content n).map
      (written fl traceType (headerOf content))).map rowOf).map .ofExact := by
  rw [readTrace_eq, filterMap_ite fun cells hcells =>
    readRow_exact hround (hnumeric cells hcells).1 (hnumeric cells hcells).2, keptRows,
    List.map_map,
    List.map_map, List.map_take]
  rfl

/-! ## Nice values -/

theorem clampNice_range (v : ℤ) : -20 ≤ clampNice v ∧ clampNice v ≤ 19 := by
  unfold clampNice
  split_ifs <;> omega

theorem taskTypeOf_range (header cells : List String) :
    -2 ^ 31 ≤ taskTypeOf header cells ∧ taskTypeOf header cells < 2 ^ 31 := by
  unfold taskTypeOf
  cases h : stoi (cells.getD (alibabaColumns header).idxTaskType "") with
  | none => exact ⟨by norm_num, by norm_num⟩
  | some n => exact stoi_range h

/-- A row that fits is written as it is. -/
theorem written_of_fitsInt (h : FitsInt traceType header cells) :
    written fl traceType header cells = entry fl traceType header cells := by
  cases traceType with
  | googleV3 => rfl
  | alibabaV2018 =>
    have hfits : -2 ^ 31 + 5 ≤ taskTypeOf header cells := h
    have hrange := taskTypeOf_range header cells
    have hsub := subInt_eq (a := taskTypeOf header cells) (b := 5) (by omega) (by omega)
    exact congrArg (fun v => ((entry fl .alibabaV2018 header cells).1,
      (entry fl .alibabaV2018 header cells).2.1, clampNice v)) hsub

/-- A row that does not fit gets the greatest nice value instead of the least. -/
theorem nice_of_not_fitsInt (fl : Arithmetic) (h : ¬FitsInt traceType header cells) :
    (written fl traceType header cells).2.2 = 19 ∧
      (entry fl traceType header cells).2.2 = -20 := by
  cases traceType with
  | googleV3 => exact absurd trivial h
  | alibabaV2018 =>
    have hlow : taskTypeOf header cells < -2 ^ 31 + 5 := not_le.1 h
    have hrange := taskTypeOf_range header cells
    have hsub := subInt_of_lt (a := taskTypeOf header cells) (b := 5) (by omega) (by omega)
    constructor
    · show clampNice (subInt (taskTypeOf header cells) 5) = 19
      rw [hsub, clampNice, if_neg (by omega), if_pos (by omega)]
    · show clampNice (taskTypeOf header cells - 5) = -20
      rw [clampNice, if_pos (by omega)]

theorem nice_le_written (fl : Arithmetic) (traceType : TraceType) (header cells : List String) :
    (entry fl traceType header cells).2.2 ≤ (written fl traceType header cells).2.2 := by
  by_cases h : FitsInt traceType header cells
  · rw [written_of_fitsInt h]
  · obtain ⟨hwritten, hentry⟩ := nice_of_not_fitsInt fl h
    rw [hwritten, hentry]
    norm_num

/-- If the nice values come out as they should, every row fits. -/
theorem fitsInt_of_perm {rows : List (List String)}
    (h : (rows.map fun cells => (written fl traceType header cells).2.2).Perm
      (rows.map fun cells => (entry fl traceType header cells).2.2)) :
    ∀ cells ∈ rows, FitsInt traceType header cells := by
  intro cells hcells
  by_contra hfits
  obtain ⟨hwritten, hentry⟩ := nice_of_not_fitsInt fl hfits
  -- no value is too small, and this one is too great
  have hlt := List.sum_lt_sum (fun cells => (entry fl traceType header cells).2.2)
    (fun cells => (written fl traceType header cells).2.2)
    (fun cells _ => nice_le_written fl traceType header cells)
    ⟨cells, hcells, by rw [hwritten, hentry]; norm_num⟩
  exact hlt.ne h.sum_eq.symm

/-! ## The tasks of sorted rows -/

def Row.toExact (row : Row) : TraceReplayWorkload.Row where
  arrivalMs := row.arrivalMs.toRat
  execMs := row.execMs.toRat
  nice := row.nice

def Args.ofExact (args : TaskArgs) : Args where
  id := args.id
  arrivalTime := .number args.arrivalTime
  executionTime := .number args.executionTime
  nice := args.nice

theorem Row.toExact_ofExact (row : TraceReplayWorkload.Row) : (Row.ofExact row).toExact = row := rfl

/-- Sorting rows of numbers is sorting by these. -/
theorem Sorts.exists_exact {raw : List TraceReplayWorkload.Row} {sorted : List Row}
    (h : Sorts (raw.map .ofExact) sorted) :
    ∃ exacts, sorted = exacts.map .ofExact ∧ TraceReplayWorkload.Sorts raw exacts := by
  have hexact : ∀ row ∈ sorted, Row.ofExact row.toExact = row := by
    intro row hrow
    obtain ⟨row, -, rfl⟩ := List.mem_map.1 (h.1.subset hrow)
    rfl
  have hsorted : sorted = (sorted.map Row.toExact).map .ofExact := by
    rw [List.map_map]
    exact ((List.map_congr_left hexact).trans (List.map_id sorted)).symm
  refine ⟨sorted.map Row.toExact, hsorted, ?_, ?_⟩
  · have hperm := h.1.map Row.toExact
    rw [List.map_map] at hperm
    exact hperm.trans (.of_eq ((List.map_congr_left fun row _ => Row.toExact_ofExact row).trans
      (List.map_id raw)))
  · have hpairwise := h.2 fun row hrow => by
      obtain ⟨row, -, rfl⟩ := List.mem_map.1 hrow
      simp [Row.ofExact]
    rw [hsorted, List.pairwise_map] at hpairwise
    refine hpairwise.imp fun {a b} hab => ?_
    simpa [Row.ofExact, Value.lt] using hab

theorem sorts_map_ofExact {raw exacts : List TraceReplayWorkload.Row}
    (h : TraceReplayWorkload.Sorts raw exacts) :
    Sorts (raw.map .ofExact) (exacts.map .ofExact) := by
  refine ⟨h.1.map _, fun _ => ?_⟩
  rw [List.pairwise_map]
  refine h.2.imp fun {a b} hab => ?_
  simpa [Row.ofExact, Value.lt] using hab

/-- Of rows of numbers the tasks are those of the replay in numbers. -/
theorem toTasks_map_ofExact (hround : fl.round = .number)
    (sorted : List TraceReplayWorkload.Row) :
    toTasks fl (sorted.map .ofExact) = (TraceReplayWorkload.toTasks sorted).map .ofExact := by
  cases sorted with
  | nil => rfl
  | cons front rest =>
    rw [List.map_cons, toTasks, TraceReplayWorkload.toTasks, ← List.map_cons, List.zipIdx_map,
      List.map_map, List.map_map]
    refine List.map_congr_left fun (row, i) _ => ?_
    simp only [Function.comp_apply, Prod.map_apply, Row.ofExact, hround, Value.sub,
      Value.max_number]
    rfl

/-! ## The shift to zero -/

open TraceReplayWorkload (taskAt)

def shift (t0 : ℚ) (row : TraceReplayWorkload.Row) : TraceReplayWorkload.Row :=
  { row with arrivalMs := row.arrivalMs - t0 }

/-- Sorted rows become tasks that start at zero. -/
theorem toTasks_shift {front : TraceReplayWorkload.Row} {rest : List TraceReplayWorkload.Row}
    (h : (front :: rest).Pairwise fun a b => a.arrivalMs ≤ b.arrivalMs) :
    TraceReplayWorkload.toTasks (front :: rest)
      = ((front :: rest).map (shift front.arrivalMs)).zipIdx.map fun (row, i) => taskAt row i := by
  rw [TraceReplayWorkload.toTasks, List.zipIdx_map, List.map_map]
  refine List.map_congr_left fun (row, i) hmem => ?_
  have hle : front.arrivalMs ≤ row.arrivalMs := by
    rcases List.mem_cons.1 (List.fst_mem_of_mem_zipIdx hmem) with rfl | hrest
    · exact le_rfl
    · exact List.rel_of_pairwise_cons h hrest
  have hmax : max 0 (row.arrivalMs - front.arrivalMs) = row.arrivalMs - front.arrivalMs :=
    max_eq_right (sub_nonneg.2 hle)
  dsimp only
  rw [hmax]
  rfl

/-- What a replay of at most `numTasks` tasks makes of the rows it keeps. -/
structure Replayed (kept : List (ℚ × ℚ × ℤ)) (numTasks : ℕ) (tasks : List TaskArgs) : Prop where
  length_le : tasks.length ≤ numTasks
  ids : tasks.map (·.id.toNat) = List.range tasks.length
  nondecreasing : tasks.Pairwise fun t u => t.arrivalTime ≤ u.arrivalTime
  startsAtZero : ∀ t ∈ tasks.head?, t.arrivalTime = 0
  execution : ∀ t ∈ tasks, 1 / 10 ≤ t.executionTime
  nice : ∀ t ∈ tasks, -20 ≤ t.nice ∧ t.nice ≤ 19
  sameRows : ∃ t0, (tasks.map fun t => (t.arrivalTime + t0, t.executionTime, t.nice)).Perm kept

/-- The execution time and the nice value of any row -/
theorem written_range (fl : Arithmetic) (traceType : TraceType) (header cells : List String) :
    1 / 10 ≤ (written fl traceType header cells).2.1 ∧
      -20 ≤ (written fl traceType header cells).2.2 ∧
      (written fl traceType header cells).2.2 ≤ 19 := by
  cases traceType with
  | googleV3 => exact ⟨le_max_left _ _, clampNice_range _⟩
  | alibabaV2018 => exact ⟨le_max_left _ _, clampNice_range _⟩

/-- The tasks of rows, in any order by arrival -/
theorem replayed_toTasks {kept : List (ℚ × ℚ × ℤ)} {numTasks : ℕ}
    {sorted : List TraceReplayWorkload.Row}
    (hsorts : TraceReplayWorkload.Sorts (kept.map rowOf) sorted)
    (hlength : kept.length ≤ numTasks) (hnum : numTasks < 2 ^ 32)
    (hrange : ∀ e ∈ kept, 1 / 10 ≤ e.2.1 ∧ -20 ≤ e.2.2 ∧ e.2.2 ≤ 19) :
    Replayed kept numTasks (TraceReplayWorkload.toTasks sorted) := by
  cases sorted with
  | nil =>
    have hkept : kept = [] := List.map_eq_nil_iff.1 hsorts.1.symm.eq_nil
    subst hkept
    exact ⟨Nat.zero_le _, rfl, .nil, by simp [TraceReplayWorkload.toTasks],
      by simp [TraceReplayWorkload.toTasks], by simp [TraceReplayWorkload.toTasks], 0, .nil⟩
  | cons front rest =>
    rw [toTasks_shift hsorts.2]
    have hperm : ((front :: rest).map fun row =>
        (row.arrivalMs, row.execMs, row.nice)).Perm kept := by
      have hmap := hsorts.1.map fun row => (row.arrivalMs, row.execMs, row.nice)
      rw [List.map_map] at hmap
      exact hmap.trans (.of_eq (List.map_id kept))
    have hcount : ((front :: rest).map (shift front.arrivalMs)).length ≤ numTasks := by
      rw [List.length_map, hsorts.1.length_eq, List.length_map]
      exact hlength
    have hmem : ∀ t ∈ (((front :: rest).map (shift front.arrivalMs)).zipIdx.map
        fun (row, i) => taskAt row i), 1 / 10 ≤ t.executionTime ∧ -20 ≤ t.nice ∧ t.nice ≤ 19 := by
      intro t ht
      obtain ⟨⟨row, i⟩, hrow, rfl⟩ := List.mem_map.1 ht
      obtain ⟨row, hrow', rfl⟩ := List.mem_map.1 (List.fst_mem_of_mem_zipIdx hrow)
      exact hrange _ (hperm.subset (List.mem_map_of_mem hrow'))
    refine ⟨?_, ?_, ?_, ?_, fun t ht => (hmem t ht).1, fun t ht => (hmem t ht).2,
      front.arrivalMs, ?_⟩
    · rw [List.length_map, List.length_zipIdx]
      exact hcount
    · rw [TraceReplayWorkload.map_id_taskAt (hcount.trans hnum.le)]
      simp only [List.length_map, List.length_zipIdx]
    · rw [← List.pairwise_map, TraceReplayWorkload.map_taskAt fun _ _ => rfl, List.pairwise_map,
        List.pairwise_map]
      exact hsorts.2.imp fun hab => sub_le_sub_right hab _
    · intro t ht
      obtain rfl := Option.some.inj ht
      exact sub_self front.arrivalMs
    · rw [TraceReplayWorkload.map_taskAt (g := fun row =>
        (row.arrivalMs + front.arrivalMs, row.execMs, row.nice)) fun _ _ => rfl, List.map_map]
      refine .trans (.of_eq (List.map_congr_left fun row _ => ?_)) hperm
      simp [shift]

/-- The nice values of the tasks are those of the rows they are made of. -/
theorem Replayed.nice_perm {kept kept' : List (ℚ × ℚ × ℤ)} {n : ℕ} {tasks : List TaskArgs}
    (h : Replayed kept n tasks) (h' : Replayed kept' n tasks) :
    (kept.map (·.2.2)).Perm (kept'.map (·.2.2)) := by
  obtain ⟨t0, hrows⟩ := h.sameRows
  obtain ⟨t0', hrows'⟩ := h'.sameRows
  have hnice := hrows.map (·.2.2)
  have hnice' := hrows'.map (·.2.2)
  rw [List.map_map] at hnice hnice'
  exact hnice.symm.trans hnice'

theorem Args.ofExact_injective : Function.Injective Args.ofExact := by
  rintro ⟨id, arrival, execution, nice⟩ ⟨id', arrival', execution', nice'⟩ h
  simpa [Args.ofExact] using h

section Replay

variable {lib : Strtod} {content : String} {numTasks : UInt32}

/-- What is generated are the valid rows with the nice values that the replay finds. -/
theorem replayed_written
    (hnumeric : Numeric ⟨safeToDouble lib, .number⟩ traceType content) :
    (∃ tasks, Generates ⟨safeToDouble lib, .number⟩ traceType (some content) numTasks tasks) ∧
    ∀ generated,
      Generates ⟨safeToDouble lib, .number⟩ traceType (some content) numTasks generated →
      ∃ tasks : List TaskArgs, generated = tasks.map .ofExact ∧
        Replayed ((keptRows ⟨safeToDouble lib, .number⟩ traceType content numTasks.toNat).map
          (written ⟨safeToDouble lib, .number⟩ traceType (headerOf content)))
          numTasks.toNat tasks := by
  have hread := readTrace_keptRows rfl hnumeric numTasks.toNat
  constructor
  · obtain ⟨exacts, hexacts⟩ := TraceReplayWorkload.exists_sorts
      (((keptRows ⟨safeToDouble lib, .number⟩ traceType content numTasks.toNat).map
        (written ⟨safeToDouble lib, .number⟩ traceType (headerOf content))).map rowOf)
    exact ⟨_, _, hread ▸ sorts_map_ofExact hexacts, rfl⟩
  · rintro generated ⟨sorted, hsorts, rfl⟩
    rw [hread] at hsorts
    obtain ⟨exacts, rfl, hexacts⟩ := hsorts.exists_exact
    refine ⟨TraceReplayWorkload.toTasks exacts, toTasks_map_ofExact rfl exacts,
      replayed_toTasks hexacts ?_ numTasks.toNat_lt ?_⟩
    · rw [List.length_map, keptRows, List.length_take]
      exact min_le_left _ _
    · intro e he
      obtain ⟨cells, -, rfl⟩ := List.mem_map.1 he
      exact written_range _ _ _ cells

/-- `generate` returns the first valid rows, up to `numTasks` of them: numbered and in order of
their arrivals, which are shifted to start at zero, with their execution times and nice values. -/
def KeepsValidRows (fl : Arithmetic) (traceType : TraceType) (content : String)
    (numTasks : UInt32) : Prop :=
  (∃ tasks, Generates fl traceType (some content) numTasks tasks) ∧
  ∀ generated, Generates fl traceType (some content) numTasks generated →
    ∃ tasks : List TaskArgs, generated = tasks.map .ofExact ∧
      Replayed ((keptRows fl traceType content numTasks.toNat).map
        (entry fl traceType (headerOf content))) numTasks.toNat tasks

/-- A row that does not fit is not kept as it is. -/
theorem fitsInt_of_keepsValidRows
    (hnumeric : Numeric ⟨safeToDouble lib, .number⟩ traceType content)
    (h : KeepsValidRows ⟨safeToDouble lib, .number⟩ traceType content numTasks) :
    ∀ cells ∈ keptRows ⟨safeToDouble lib, .number⟩ traceType content numTasks.toNat,
      FitsInt traceType (headerOf content) cells := by
  obtain ⟨⟨generated, hgenerated⟩, hkeeps⟩ := h
  obtain ⟨tasks, heq, hentries⟩ := hkeeps generated hgenerated
  obtain ⟨tasks', heq', hwritten⟩ := (replayed_written hnumeric).2 generated hgenerated
  obtain rfl : tasks = tasks' :=
    Args.ofExact_injective.list_map (heq.symm.trans heq')
  have hperm := hwritten.nice_perm hentries
  rw [List.map_map, List.map_map] at hperm
  exact fitsInt_of_perm hperm

end Replay

/-- **A replay keeps exactly the valid rows**, on a file whose numeric cells are finite numbers or
nothing that can be read, if and only if the nice value of each row that is kept is found without
an overflow. -/
theorem keepsValidRows_iff (lib : Strtod) (traceType : TraceType) (content : String)
    (numTasks : UInt32) (hnumeric : Numeric ⟨safeToDouble lib, .number⟩ traceType content) :
    KeepsValidRows ⟨safeToDouble lib, .number⟩ traceType content numTasks ↔
      ∀ cells ∈ keptRows ⟨safeToDouble lib, .number⟩ traceType content numTasks.toNat,
        FitsInt traceType (headerOf content) cells := by
  refine ⟨fitsInt_of_keepsValidRows hnumeric, fun hfits => ?_⟩
  have hsame : (keptRows ⟨safeToDouble lib, .number⟩ traceType content numTasks.toNat).map
      (written ⟨safeToDouble lib, .number⟩ traceType (headerOf content))
      = (keptRows ⟨safeToDouble lib, .number⟩ traceType content numTasks.toNat).map
        (entry ⟨safeToDouble lib, .number⟩ traceType (headerOf content)) :=
    List.map_congr_left fun cells hcells => written_of_fitsInt (hfits cells hcells)
  rw [KeepsValidRows, ← hsame]
  exact replayed_written hnumeric

/-- A library that finds the numbers out of range that round to an infinity -/
def plainStrtod : Strtod where
  outOfRange x := !(Value.nearest x).isFinite
  overflow x h := by rw [h]; rfl

/-- A trace with its columns out of order, a row that has not ended, one that ends too soon, and
behind the first two rows that count one with the least task type -/
def sampleTrace : String :=
  "instance_name,status,task_type,end_time,start_time\n" ++
    "a,Running,1,9,1\nb,Finished,12,7.5,5\nc,,none,3,3\nd,Terminated,-40,2,1.98\n" ++
    "e,Completed,-2147483648,2,1\n"

/-- Of that trace the first two valid rows are replayed. -/
theorem keepsValidRows_sample :
    (keptRows ⟨safeToDouble plainStrtod, .number⟩ .alibabaV2018 sampleTrace 2).map
        (entry ⟨safeToDouble plainStrtod, .number⟩ .alibabaV2018 (headerOf sampleTrace))
      = [(5, 5 / 2, 7), (Binary64.nearest (198 / 100), 1 / 10, -20)] ∧
      KeepsValidRows ⟨safeToDouble plainStrtod, .number⟩ .alibabaV2018 sampleTrace 2 :=
  ⟨by decide +kernel,
    (keepsValidRows_iff plainStrtod .alibabaV2018 sampleTrace 2
      (by unfold Numeric; decide +kernel)).2 (by decide +kernel)⟩

/-- **The least task type gets the greatest nice value** instead of the least. -/
theorem keepsValidRows_false :
    ¬KeepsValidRows ⟨safeToDouble plainStrtod, .number⟩ .alibabaV2018
      "0,1,2,-2147483648,Finished,1,2\n" 1 := by
  intro h
  have hnumeric : Numeric ⟨safeToDouble plainStrtod, .number⟩ .alibabaV2018
      "0,1,2,-2147483648,Finished,1,2\n" := by
    unfold Numeric
    decide +kernel
  exact absurd (fitsInt_of_keepsValidRows hnumeric h) (by decide +kernel)

end DoubleReplay

end SchedSim
