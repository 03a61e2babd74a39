import SchedSim.Values
import SchedSim.TraceReplay

/-!
# Replaying a trace in doubles

`src/workloads/trace_replay_workload.cpp` once more, with everything that a cell can spell: the
values of the rows and of the tasks are what a `double` holds, and the arithmetic that rounds them
is a parameter.

* `safeToDouble_eq` : the check of `idx` rejects nothing.
* `readRows_eq` : the loop keeps the first rows that pass.
* `readTrace_exact` : in exact arithmetic, on cells that are numbers, this is the replay of
  `TraceReplay`.
-/

namespace SchedSim

namespace DoubleReplay

open CStrings
open TraceReplayWorkload (getlines splitCsvRow trimCopy clampNice TraceType GoogleColumns
  googleColumns AlibabaColumns alibabaColumns readHeader)

/-! ## The loader -/

/-- How a program computes with `double`: what it reads from a text, if anything, and what the
exact result of an operation is rounded to. -/
structure Arithmetic where
  read : String → Option Value
  round : ℚ → Value

def safeToDouble (lib : Strtod) (s : String) : Option Value :=
  match lib.stod s with
  | none => none
  | some (out, idx) => if idx > 0 then some out else none

structure Row where
  arrivalMs : Value
  execMs : Value
  nice : ℤ
  deriving DecidableEq

/-- The arguments of the `Task` constructor -/
structure Args where
  id : UInt32
  arrivalTime : Value
  executionTime : Value
  nice : ℤ
  deriving DecidableEq

def googleRow (fl : Arithmetic) (cols : GoogleColumns) (cells : List String) : Option Row :=
  if cells.length ≤ max cols.idxArrival (max cols.idxCpu cols.idxNice) then none
  else
    match fl.read (cells.getD cols.idxArrival ""), fl.read (cells.getD cols.idxCpu "") with
    | some arrivalUs, some cpuUs =>
      let nice := (stoi (cells.getD cols.idxNice "")).getD 0
      some
        { arrivalMs := arrivalUs.divide fl.round 1000
          execMs := (fl.round (1 / 10)).max (cpuUs.divide fl.round 1000)
          nice := clampNice nice }
    | _, _ => none

def alibabaRow (fl : Arithmetic) (cols : AlibabaColumns) (cells : List String) : Option Row :=
  if cells.length ≤ max cols.idxTaskType (max cols.idxStatus (max cols.idxStart cols.idxEnd)) then
    none
  else
    let status := trimCopy (cells.getD cols.idxStatus "")
    if status ≠ "" ∧ status ≠ "Terminated" ∧ status ≠ "Finished" ∧ status ≠ "Completed" then none
    else
      match fl.read (cells.getD cols.idxStart ""), fl.read (cells.getD cols.idxEnd "") with
      | some startT, some endT =>
        let taskType := (stoi (cells.getD cols.idxTaskType "")).getD 1
        if endT.le startT then none
        else some
          { arrivalMs := startT
            execMs := (fl.round (1 / 10)).max (endT.sub fl.round startT)
            nice := clampNice (subInt taskType 5) }
      | _, _ => none

/-- What becomes of a row of either kind of trace, under a header -/
def readRow (fl : Arithmetic) (traceType : TraceType) (header : List String) :
    List String → Option Row :=
  match traceType with
  | .googleV3 => googleRow fl (googleColumns header)
  | .alibabaV2018 => alibabaRow fl (alibabaColumns header)

/-- Rows are read until there are as many as asked for. -/
def readRows {α : Type*} (read : List String → Option α) : List String → ℕ → List α
  | [], _ => []
  | _ :: _, 0 => []
  | line :: lines, n + 1 =>
    if line = "" then readRows read lines (n + 1)
    else
      match read (splitCsvRow line) with
      | none => readRows read lines (n + 1)
      | some row => row :: readRows read lines n

def readTrace (fl : Arithmetic) (traceType : TraceType) (content : String) (numTasks : ℕ) :
    List Row :=
  let (header, lines) := readHeader (getlines '\n' content)
  readRows (readRow fl traceType header) lines numTasks

/-- The tasks of sorted rows, shifted to start at zero. -/
def toTasks (fl : Arithmetic) : List Row → List Args
  | [] => []
  | front :: rest =>
    (front :: rest).zipIdx.map fun (row, i) =>
      { id := UInt32.ofNat i
        arrivalTime := (Value.number 0).max (row.arrivalMs.sub fl.round front.arrivalMs)
        executionTime := row.execMs
        nice := row.nice }

/-- `std::sort` by arrival.  A NaN among the arrivals makes `<` no order of the rows; then any order
may come out. -/
def Sorts (raw sorted : List Row) : Prop :=
  sorted.Perm raw ∧ ((∀ row ∈ raw, row.arrivalMs ≠ .nan) →
    sorted.Pairwise fun a b => b.arrivalMs.lt a.arrivalMs = false)

/-- The tasks that `generate(num_tasks)` may return on a file, which is missing when it cannot be
opened. -/
def Generates (fl : Arithmetic) (traceType : TraceType) (file : Option String) (numTasks : UInt32)
    (tasks : List Args) : Prop :=
  match file with
  | none => tasks = []
  | some content => ∃ sorted, Sorts (readTrace fl traceType content numTasks.toNat) sorted ∧
      tasks = toTasks fl sorted

/-- The check of `idx` never fails: `std::stod` throws when there is nothing to read. -/
theorem safeToDouble_eq (lib : Strtod) (s : String) :
    safeToDouble lib s = (lib.stod s).map Prod.fst := by
  have hidx : ∀ out idx, lib.stod s = some (out, idx) → idx > 0 := by
    intro out idx h
    have hread : (stod s).isSome = true := by
      by_contra hnone
      rw [Bool.not_eq_true, Option.isSome_eq_false_iff, Option.isNone_iff_eq_none] at hnone
      simp [Strtod.stod, hnone] at h
    have hpos := stodIdx_pos hread
    obtain ⟨v, hv⟩ := Option.isSome_iff_exists.1 hread
    rw [Strtod.stod, hv] at h
    cases v with
    | inl x =>
      obtain ⟨-, rfl⟩ := Prod.mk.inj (Option.some.inj h)
      exact hpos
    | inr x =>
      dsimp only at h
      by_cases hrange : lib.outOfRange x = true
      · rw [if_pos hrange] at h
        exact absurd h (by simp)
      · rw [if_neg hrange] at h
        obtain ⟨-, rfl⟩ := Prod.mk.inj (Option.some.inj h)
        exact hpos
  unfold safeToDouble
  cases hstod : lib.stod s with
  | none => rfl
  | some pair =>
    obtain ⟨out, idx⟩ := pair
    exact if_pos (hidx out idx hstod)

/-! ## The loop -/

theorem splitCsvRow_empty : splitCsvRow "" = [] := rfl

/-- A row without cells does not pass. -/
theorem readRow_nil (fl : Arithmetic) (traceType : TraceType) (header : List String) :
    readRow fl traceType header [] = none := by
  cases traceType with
  | googleV3 =>
    show googleRow fl _ [] = none
    rw [googleRow, if_pos]
    exact Nat.zero_le _
  | alibabaV2018 =>
    show alibabaRow fl _ [] = none
    rw [alibabaRow, if_pos]
    exact Nat.zero_le _

/-- The loop keeps the first rows that pass. -/
theorem readRows_eq {α : Type*} {read : List String → Option α} (h : read [] = none)
    (lines : List String) (n : ℕ) :
    readRows read lines n = ((lines.map splitCsvRow).filterMap read).take n := by
  induction lines generalizing n with
  | nil => simp [readRows]
  | cons line lines ih =>
    cases n with
    | zero => simp [readRows]
    | succ n =>
      rw [List.map_cons, readRows]
      by_cases hempty : line = ""
      · rw [if_pos hempty, ih, hempty, splitCsvRow_empty, List.filterMap_cons_none h]
      · rw [if_neg hempty]
        cases hread : read (splitCsvRow line) with
        | none => rw [List.filterMap_cons_none hread, ← ih]
        | some row => rw [List.filterMap_cons_some hread, List.take_succ_cons, ← ih]

/-- The header of a file, empty if it has none -/
def headerOf (content : String) : List String :=
  (readHeader (getlines '\n' content)).1

/-- The rows of a file in their order, behind the header -/
def rowsOf (content : String) : List (List String) :=
  (readHeader (getlines '\n' content)).2.map splitCsvRow

theorem readTrace_eq (fl : Arithmetic) (traceType : TraceType) (content : String) (n : ℕ) :
    readTrace fl traceType content n
      = ((rowsOf content).filterMap (readRow fl traceType (headerOf content))).take n :=
  readRows_eq (readRow_nil fl traceType _) _ n

/-! ## The rows that pass -/

/-- The last of the columns that a row must have -/
def lastColumn (traceType : TraceType) (header : List String) : ℕ :=
  match traceType with
  | .googleV3 =>
    let cols := googleColumns header
    max cols.idxArrival (max cols.idxCpu cols.idxNice)
  | .alibabaV2018 =>
    let cols := alibabaColumns header
    max cols.idxTaskType (max cols.idxStatus (max cols.idxStart cols.idxEnd))

/-- The required numeric cells of a row: arrival and burst, or start and end -/
def timeCells (traceType : TraceType) (header cells : List String) : String × String :=
  match traceType with
  | .googleV3 =>
    let cols := googleColumns header
    (cells.getD cols.idxArrival "", cells.getD cols.idxCpu "")
  | .alibabaV2018 =>
    let cols := alibabaColumns header
    (cells.getD cols.idxStart "", cells.getD cols.idxEnd "")

/-- The statuses of instances that ran to their end -/
def acceptedStatuses : List String := ["", "Terminated", "Finished", "Completed"]

/-- What is read from a cell, zero if nothing is -/
def valueOf (fl : Arithmetic) (cell : String) : Value :=
  (fl.read cell).getD (.number 0)

/-- What an Alibaba row must say besides: that the instance has ended, and not before it started. -/
def NotRejected (fl : Arithmetic) (traceType : TraceType) (header cells : List String) : Prop :=
  match traceType with
  | .googleV3 => True
  | .alibabaV2018 =>
    trimCopy (cells.getD (alibabaColumns header).idxStatus "") ∈ acceptedStatuses ∧
      (valueOf fl (timeCells traceType header cells).2).le
        (valueOf fl (timeCells traceType header cells).1) = false

/-- A row that has enough columns and times that can be read, and that is not rejected -/
def Passes (fl : Arithmetic) (traceType : TraceType) (header cells : List String) : Prop :=
  lastColumn traceType header < cells.length ∧
    (fl.read (timeCells traceType header cells).1).isSome = true ∧
    (fl.read (timeCells traceType header cells).2).isSome = true ∧
    NotRejected fl traceType header cells

/-- The row that the cells become -/
def rowValues (fl : Arithmetic) (traceType : TraceType) (header cells : List String) : Row :=
  let first := valueOf fl (timeCells traceType header cells).1
  let second := valueOf fl (timeCells traceType header cells).2
  match traceType with
  | .googleV3 =>
    { arrivalMs := first.divide fl.round 1000
      execMs := (fl.round (1 / 10)).max (second.divide fl.round 1000)
      nice := clampNice ((stoi (cells.getD (googleColumns header).idxNice "")).getD 0) }
  | .alibabaV2018 =>
    { arrivalMs := first
      execMs := (fl.round (1 / 10)).max (second.sub fl.round first)
      nice := clampNice
        (subInt ((stoi (cells.getD (alibabaColumns header).idxTaskType "")).getD 1) 5) }

theorem mem_acceptedStatuses (status : String) : status ∈ acceptedStatuses ↔
    ¬(status ≠ "" ∧ status ≠ "Terminated" ∧ status ≠ "Finished" ∧ status ≠ "Completed") := by
  simp only [acceptedStatuses, List.mem_cons, List.not_mem_nil, or_false]
  tauto

instance (fl : Arithmetic) (traceType : TraceType) (header cells : List String) :
    Decidable (NotRejected fl traceType header cells) :=
  match traceType with
  | .googleV3 => inferInstanceAs (Decidable True)
  | .alibabaV2018 => inferInstanceAs (Decidable (_ ∧ _))

instance (fl : Arithmetic) (traceType : TraceType) (header : List String) :
    DecidablePred (Passes fl traceType header) :=
  fun _ => inferInstanceAs (Decidable (_ ∧ _))

variable {fl : Arithmetic} {header cells : List String}

theorem valueOf_of_read {cell : String} {v : Value} (h : fl.read cell = some v) :
    valueOf fl cell = v := by
  rw [valueOf, h]
  rfl

/-- A row without a time does not pass. -/
theorem not_passes {traceType : TraceType}
    (h : fl.read (timeCells traceType header cells).1 = none ∨
      fl.read (timeCells traceType header cells).2 = none) : ¬Passes fl traceType header cells := by
  rintro ⟨-, hx, hy, -⟩
  rcases h with h | h
  · rw [h] at hx
    exact absurd hx (by simp)
  · rw [h] at hy
    exact absurd hy (by simp)

theorem googleRow_eq : googleRow fl (googleColumns header) cells =
    if Passes fl .googleV3 header cells then some (rowValues fl .googleV3 header
      cells) else none := by
  unfold googleRow
  by_cases hlength : lastColumn .googleV3 header < cells.length
  · rw [if_neg]
    · cases hx : fl.read (cells.getD (googleColumns header).idxArrival "") with
      | none => rw [if_neg (not_passes (.inl hx))]
      | some x =>
        cases hy : fl.read (cells.getD (googleColumns header).idxCpu "") with
        | none => rw [if_neg (not_passes (.inr hy))]
        | some y =>
          have hpasses : Passes fl .googleV3 header cells :=
            ⟨hlength, Option.isSome_of_eq_some hx, Option.isSome_of_eq_some hy, trivial⟩
          rw [if_pos hpasses, ← valueOf_of_read hx, ← valueOf_of_read hy]
          rfl
    · exact not_le.2 hlength
  · have hstop : ¬Passes fl .googleV3 header cells := fun h => hlength h.1
    rw [if_pos, if_neg hstop]
    exact not_lt.1 hlength

theorem alibabaRow_eq : alibabaRow fl (alibabaColumns header) cells =
    if Passes fl .alibabaV2018 header cells then some (rowValues fl .alibabaV2018 header cells)
    else none := by
  unfold alibabaRow
  by_cases hlength : lastColumn .alibabaV2018 header < cells.length
  · rw [if_neg]
    · dsimp only
      by_cases hstatus : trimCopy (cells.getD (alibabaColumns header).idxStatus "")
        ∈ acceptedStatuses
      · rw [if_neg ((mem_acceptedStatuses _).1 hstatus)]
        cases hx : fl.read (cells.getD (alibabaColumns header).idxStart "") with
        | none => rw [if_neg (not_passes (.inl hx))]
        | some x =>
          cases hy : fl.read (cells.getD (alibabaColumns header).idxEnd "") with
          | none => rw [if_neg (not_passes (.inr hy))]
          | some y =>
            dsimp only
            rw [← valueOf_of_read hx, ← valueOf_of_read hy]
            by_cases hle : (valueOf fl (cells.getD (alibabaColumns header).idxEnd "")).le
                (valueOf fl (cells.getD (alibabaColumns header).idxStart "")) = true
            · have hstop : ¬Passes fl .alibabaV2018 header cells := fun h =>
                absurd (hle.symm.trans h.2.2.2.2) (by simp)
              rw [if_pos hle, if_neg hstop]
            · have hpasses : Passes fl .alibabaV2018 header cells :=
                ⟨hlength, Option.isSome_of_eq_some hx, Option.isSome_of_eq_some hy, hstatus,
                  Bool.eq_false_iff.2 hle⟩
              rw [if_neg hle, if_pos hpasses]
              rfl
      · have hstop : ¬Passes fl .alibabaV2018 header cells := fun h => hstatus h.2.2.2.1
        rw [if_pos (not_not.1 (mt (mem_acceptedStatuses _).2 hstatus)), if_neg hstop]
    · exact not_le.2 hlength
  · have hstop : ¬Passes fl .alibabaV2018 header cells := fun h => hlength h.1
    rw [if_pos, if_neg hstop]
    exact not_lt.1 hlength

/-- A row is read if it passes, with its own values. -/
theorem readRow_eq {traceType : TraceType} : readRow fl traceType header cells =
    if Passes fl traceType header cells then some (rowValues fl traceType header
      cells) else none := by
  cases traceType with
  | googleV3 => exact googleRow_eq
  | alibabaV2018 => exact alibabaRow_eq

theorem filterMap_ite {α β : Type*} {p : α → Prop} [DecidablePred p] {f : α → Option β} {g : α → β}
    {l : List α} (h : ∀ x ∈ l, f x = if p x then some (g x) else none) :
    l.filterMap f = (l.filter p).map g := by
  induction l with
  | nil => rfl
  | cons x l ih =>
    have htail := ih fun y hy => h y (List.mem_cons_of_mem x hy)
    have hx := h x List.mem_cons_self
    by_cases hp : p x
    · rw [if_pos hp] at hx
      rw [List.filterMap_cons_some hx, List.filter_cons_of_pos (by simpa using hp), List.map_cons,
        htail]
    · rw [if_neg hp] at hx
      rw [List.filterMap_cons_none hx, List.filter_cons_of_neg (by simpa using hp), htail]

/-- The rows of a file that contribute a task: those that the loop keeps -/
def contributing (fl : Arithmetic) (traceType : TraceType) (content : String) (numTasks : ℕ) :
    List (List String) :=
  let (header, lines) := readHeader (getlines '\n' content)
  readRows (fun cells => (readRow fl traceType header cells).map fun _ => cells) lines numTasks

/-- These are the first rows that pass. -/
theorem contributing_eq (fl : Arithmetic) (traceType : TraceType) (content : String) (n : ℕ) :
    contributing fl traceType content n
      = ((rowsOf content).filter (Passes fl traceType (headerOf content))).take n := by
  have hread : ∀ cells ∈ rowsOf content,
      (readRow fl traceType (headerOf content) cells).map (fun _ => cells)
        = if Passes fl traceType (headerOf content) cells then some (id cells) else none := by
    intro cells _
    rw [readRow_eq]
    split <;> rfl
  refine (readRows_eq ?_ (readHeader (getlines '\n' content)).2 n).trans ?_
  · rw [readRow_nil, Option.map_none]
  · exact congrArg (List.take n) ((filterMap_ite hread).trans (List.map_id _))

/-- The rows that are read are the values of those that contribute. -/
theorem readTrace_contributing (fl : Arithmetic) (traceType : TraceType) (content : String)
    (n : ℕ) :
    readTrace fl traceType content n
      = (contributing fl traceType content n).map (rowValues fl traceType (headerOf content)) := by
  rw [readTrace_eq, contributing_eq, filterMap_ite fun _ _ => readRow_eq, List.map_take]

/-! ## Exact arithmetic -/

/-- Numbers are read as they are spelled, and nothing is rounded. -/
def exact : Arithmetic where
  read s := (stod s).map (Sum.elim Value.ofDouble Value.number)
  round := Value.number

def Row.ofExact (row : TraceReplayWorkload.Row) : Row where
  arrivalMs := .number row.arrivalMs
  execMs := .number row.execMs
  nice := row.nice

/-- What a reading in numbers means for a reading in values -/
def Follows (readRow : Option Row) : TraceReplayWorkload.Reading → Prop
  | .skip => readRow = none
  | .keep row => readRow = some (.ofExact row)
  | .notNumeric => True

theorem follows_googleRow (cols : GoogleColumns) (cells : List String) :
    Follows (googleRow exact cols cells) (TraceReplayWorkload.googleRow cols cells) := by
  unfold googleRow TraceReplayWorkload.googleRow
  split
  · rfl
  · dsimp only [exact]
    cases hx : stod (cells.getD cols.idxArrival "") with
    | none => rfl
    | some v =>
      cases hy : stod (cells.getD cols.idxCpu "") with
      | none => cases v <;> rfl
      | some w =>
        cases v with
        | inl => trivial
        | inr x =>
          cases w with
          | inl => trivial
          | inr y =>
            simp only [Follows, Option.map_some, Sum.elim_inr, Value.divide, Value.max_number]
            rfl

theorem follows_alibabaRow (cols : AlibabaColumns) (cells : List String) :
    Follows (alibabaRow exact cols cells) (TraceReplayWorkload.alibabaRow cols cells) := by
  unfold alibabaRow TraceReplayWorkload.alibabaRow
  dsimp only [exact]
  split
  · rfl
  · split
    · rfl
    · cases hx : stod (cells.getD cols.idxStart "") with
      | none => rfl
      | some v =>
        cases hy : stod (cells.getD cols.idxEnd "") with
        | none => cases v <;> rfl
        | some w =>
          cases v with
          | inl => trivial
          | inr x =>
            cases w with
            | inl => trivial
            | inr y =>
              simp only [Option.map_some, Sum.elim_inr, Value.le, decide_eq_true_eq]
              split
              · rfl
              · simp only [Follows, Value.sub, Value.max_number]
                rfl

theorem readRows_exact {read : List String → TraceReplayWorkload.Reading}
    {readRow : List String → Option Row} (h : ∀ cells, Follows (readRow cells) (read cells))
    {lines : List String} {n : ℕ} {raw : List TraceReplayWorkload.Row}
    (hraw : TraceReplayWorkload.readRows read lines n = some raw) :
    readRows readRow lines n = raw.map .ofExact := by
  induction lines generalizing n raw with
  | nil =>
    obtain rfl := Option.some.inj hraw
    rfl
  | cons line lines ih =>
    cases n with
    | zero =>
      obtain rfl := Option.some.inj hraw
      rfl
    | succ n =>
      have hfollows := h (splitCsvRow line)
      rw [TraceReplayWorkload.readRows] at hraw
      rw [readRows]
      by_cases hempty : line = ""
      · rw [if_pos hempty] at hraw ⊢
        exact ih hraw
      · rw [if_neg hempty] at hraw ⊢
        cases hread : read (splitCsvRow line) with
        | skip =>
          rw [hread] at hraw hfollows
          rw [show readRow (splitCsvRow line) = none from hfollows]
          exact ih hraw
        | keep row =>
          rw [hread] at hraw hfollows
          rw [show readRow (splitCsvRow line) = some (.ofExact row) from hfollows]
          obtain ⟨rest, hrest, rfl⟩ := Option.map_eq_some_iff.1 hraw
          exact congrArg _ (ih hrest)
        | notNumeric =>
          rw [hread] at hraw
          exact absurd hraw (by simp)

/-- In exact arithmetic the rows are those of the replay in numbers. -/
theorem readTrace_exact {traceType : TraceType} {content : String} {n : ℕ}
    {raw : List TraceReplayWorkload.Row}
    (h : TraceReplayWorkload.readTrace traceType content n = some raw) :
    readTrace exact traceType content n = raw.map .ofExact := by
  cases traceType with
  | googleV3 => exact readRows_exact (follows_googleRow _) h
  | alibabaV2018 => exact readRows_exact (follows_alibabaRow _) h

end DoubleReplay

end SchedSim
