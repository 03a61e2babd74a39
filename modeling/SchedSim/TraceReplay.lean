import SchedSim.GoogleTrace
import SchedSim.Words
import SchedSim.Task
import Mathlib.Data.List.DropRight

/-!
# Replaying a trace

`src/workloads/trace_replay_workload.cpp`: the workload that reads its tasks from a CSV file, and
what it makes of a file that the extraction script has written.  Times are exact rationals, so a
cell that spells an infinity or a NaN has no task here.

* `splitCsvRow_intercalate` : plain cells with commas between them are read back.
* `readTrace_writeCsv` : of the records in the file, the first ones are read, each as one row.
* `TraceReplayWorkload.traceReplay` : extraction and replay agree on arrival, execution and nice.
-/

namespace SchedSim

namespace TraceReplayWorkload

open CStrings

/-! ## Reading a row -/

/-- The strings that `std::getline` takes from a stream, until it fails. -/
def getlines (delim : Char) (s : String) : List String :=
  (Words.pieces delim s.toList).map String.ofList

def splitCsvRow (line : String) : List String :=
  (getlines ',' line).map fun item =>
    String.ofList (item.toList.rdropWhile fun c => c = '\r' || c = '\n')

def trimCopy (s : String) : String :=
  String.ofList ((s.toList.dropWhile isSpace).rdropWhile isSpace)

def clampNice (v : ℤ) : ℤ :=
  if v < -20 then -20 else if v > 19 then 19 else v

/-- Arrival and execution time in milliseconds, and the nice value -/
structure Row where
  arrivalMs : ℚ
  execMs : ℚ
  nice : ℤ
  deriving DecidableEq

/-- What becomes of a line: it is skipped, it is a task, or its times are not numbers. -/
inductive Reading where
  | skip
  | keep (row : Row)
  | notNumeric

inductive TraceType where
  | googleV3
  | alibabaV2018
  deriving DecidableEq

/-- Where the columns of a Google trace stand, by default and with a header. -/
structure GoogleColumns where
  idxArrival : ℕ := 0
  idxCpu : ℕ := 1
  idxNice : ℕ := 3
  deriving DecidableEq

def googleColumns (header : List String) : GoogleColumns :=
  header.zipIdx.foldl (fun cols (cell, i) =>
    let h := trimCopy cell
    if h = "arrival_time_us" then { cols with idxArrival := i }
    else if h = "cpu_burst_duration_us" then { cols with idxCpu := i }
    else if h = "nice" || h = "nice_value" then { cols with idxNice := i }
    else cols) {}

def googleRow (cols : GoogleColumns) (cells : List String) : Reading :=
  if cells.length ≤ max cols.idxArrival (max cols.idxCpu cols.idxNice) then .skip
  else
    match stod (cells.getD cols.idxArrival ""), stod (cells.getD cols.idxCpu "") with
    | some (.inr arrivalUs), some (.inr cpuUs) =>
      let nice := (stoi (cells.getD cols.idxNice "")).getD 0
      .keep
        { arrivalMs := arrivalUs / 1000
          execMs := max (1 / 10) (cpuUs / 1000)
          nice := clampNice nice }
    | some _, some _ => .notNumeric
    | _, _ => .skip

/-- Where the columns of an Alibaba trace stand, by default and with a header. -/
structure AlibabaColumns where
  idxTaskType : ℕ := 3
  idxStatus : ℕ := 4
  idxStart : ℕ := 5
  idxEnd : ℕ := 6
  deriving DecidableEq

def alibabaColumns (header : List String) : AlibabaColumns :=
  header.zipIdx.foldl (fun cols (cell, i) =>
    let h := trimCopy cell
    if h = "task_type" then { cols with idxTaskType := i }
    else if h = "status" then { cols with idxStatus := i }
    else if h = "start_time" then { cols with idxStart := i }
    else if h = "end_time" then { cols with idxEnd := i }
    else cols) {}

def alibabaRow (cols : AlibabaColumns) (cells : List String) : Reading :=
  if cells.length ≤ max cols.idxTaskType (max cols.idxStatus (max cols.idxStart cols.idxEnd)) then
    .skip
  else
    let status := trimCopy (cells.getD cols.idxStatus "")
    if status ≠ "" ∧ status ≠ "Terminated" ∧ status ≠ "Finished" ∧ status ≠ "Completed" then .skip
    else
      match stod (cells.getD cols.idxStart ""), stod (cells.getD cols.idxEnd "") with
      | some (.inr startT), some (.inr endT) =>
        let taskType := (stoi (cells.getD cols.idxTaskType "")).getD 1
        if endT ≤ startT then .skip
        -- a lower task type has a higher priority
        else .keep
          { arrivalMs := startT
            execMs := max (1 / 10) (endT - startT)
            nice := clampNice (subInt taskType 5) }
      | some _, some _ => .notNumeric
      | _, _ => .skip

/-! ## Reading a file -/

/-- The first line is a header if its first cell names a known column. -/
def hasHeader : List String → Bool
  | [] => false
  | first :: _ => trimCopy first = "arrival_time_us" || trimCopy first = "instance_name"

/-- The header, empty if there is none, and the lines of the rows. -/
def readHeader : List String → List String × List String
  | [] => ([], [])
  | line :: lines =>
    if hasHeader (splitCsvRow line) then (splitCsvRow line, lines) else ([], line :: lines)

/-- Rows are read until there are as many as asked for; nothing if one is not numeric. -/
def readRows (read : List String → Reading) : List String → ℕ → Option (List Row)
  | [], _ => some []
  | _ :: _, 0 => some []
  | line :: lines, n + 1 =>
    if line = "" then readRows read lines (n + 1)
    else
      match read (splitCsvRow line) with
      | .skip => readRows read lines (n + 1)
      | .keep row => (readRows read lines n).map (row :: ·)
      | .notNumeric => none

def readTrace (traceType : TraceType) (content : String) (numTasks : ℕ) : Option (List Row) :=
  let (header, lines) := readHeader (getlines '\n' content)
  match traceType with
  | .googleV3 => readRows (googleRow (googleColumns header)) lines numTasks
  | .alibabaV2018 => readRows (alibabaRow (alibabaColumns header)) lines numTasks

/-- The tasks of sorted rows, shifted to start at zero. -/
def toTasks : List Row → List TaskArgs
  | [] => []
  | front :: rest =>
    (front :: rest).zipIdx.map fun (row, i) =>
      { id := UInt32.ofNat i
        arrivalTime := max 0 (row.arrivalMs - front.arrivalMs)
        executionTime := row.execMs
        nice := row.nice }

/-- `std::sort` by arrival, which leaves rows that arrive together in any order. -/
def Sorts (raw sorted : List Row) : Prop :=
  sorted.Perm raw ∧ sorted.Pairwise fun a b => a.arrivalMs ≤ b.arrivalMs

/-- The tasks that `generate(num_tasks)` may return on a file, which is missing when it cannot be
opened. -/
def Generates (traceType : TraceType) (file : Option String) (numTasks : UInt32)
    (tasks : List TaskArgs) : Prop :=
  match file with
  | none => tasks = []
  | some content => ∃ raw sorted,
    readTrace traceType content numTasks.toNat = some raw ∧ Sorts raw sorted ∧
      tasks = toTasks sorted

/-! ## Reading what was written -/

open ExtractGoogleV3 Csv

theorem splitCsvRow_intercalate {cells : List String} (h : ∀ cell ∈ cells, Plain cell)
    (hlast : ∀ cell ∈ cells.getLast?, cell ≠ "") : splitCsvRow (",".intercalate cells) = cells := by
  have hpieces : Words.pieces ',' (",".intercalate cells).toList = cells.map String.toList := by
    rw [String.toList_intercalate]
    refine Words.pieces_intercalate (fun w hw hcomma => ?_) fun w hw => ?_
    · obtain ⟨cell, hcell, rfl⟩ := List.mem_map.1 hw
      exact (h cell hcell ',' hcomma).1 rfl
    · rw [List.getLast?_map, Option.mem_def, Option.map_eq_some_iff] at hw
      obtain ⟨cell, hcell, rfl⟩ := hw
      simpa using hlast cell hcell
  rw [splitCsvRow, getlines, hpieces, List.map_map, List.map_map]
  refine (List.map_congr_left fun cell hcell => ?_).trans (List.map_id cells)
  have hkeep : cell.toList.rdropWhile (fun c => c = '\r' || c = '\n') = cell.toList := by
    refine List.rdropWhile_eq_self_iff.2 fun hne hdrop => ?_
    have hchar := h cell hcell _ (List.getLast_mem hne)
    simp only [Bool.or_eq_true, decide_eq_true_eq] at hdrop
    exact hdrop.elim hchar.2.2 hchar.2.1
  simp only [Function.comp_apply, hkeep, String.ofList_toList, id_eq]

/-- Lines that were written are the lines that are read. -/
theorem getlines_join {lines : List String} (h : ∀ line ∈ lines, '\n' ∉ line.toList) :
    getlines '\n' (String.join (lines.map (· ++ "\n"))) = lines := by
  have htext : (String.join (lines.map (· ++ "\n"))).toList
      = (lines.map String.toList).flatMap (· ++ ['\n']) := by
    simp [String.toList_join, List.flatMap_map, String.toList_append]
  have hlines : ∀ w ∈ lines.map String.toList, '\n' ∉ w := by
    intro w hw
    obtain ⟨line, hline, rfl⟩ := List.mem_map.1 hw
    exact h line hline
  rw [getlines, htext, Words.pieces_flatMap hlines, List.map_map]
  exact (List.map_congr_left fun line _ => String.ofList_toList).trans (List.map_id lines)

theorem not_mem_row {cells : List String} (h : ∀ cell ∈ cells, Plain cell) :
    '\n' ∉ (",".intercalate cells).toList := by
  rw [String.toList_intercalate]
  refine Words.not_mem_intercalate (by decide) fun w hw hnewline => ?_
  obtain ⟨cell, hcell, rfl⟩ := List.mem_map.1 hw
  exact (h cell hcell '\n' hnewline).2.1 rfl

/-- The lines of the file: the header, and a row for each record. -/
theorem getlines_writeCsv (records : List Record) :
    getlines '\n' (writeCsv records)
      = ",".intercalate header :: records.map fun r => ",".intercalate r.cells := by
  have hwrite : writeCsv records = String.join
      ((",".intercalate header :: records.map fun r => ",".intercalate r.cells).map
        (· ++ "\n")) := by
    rw [List.map_cons, String.join_cons, List.map_map]
    rfl
  rw [hwrite]
  refine getlines_join fun line hline => ?_
  rcases List.mem_cons.1 hline with rfl | hline
  · exact not_mem_row (by decide)
  · obtain ⟨r, -, rfl⟩ := List.mem_map.1 hline
    exact not_mem_row fun cell => plain_of_mem_cells

/-- The row that a record becomes -/
def rowOf (r : Record) : Row where
  arrivalMs := r.arrivalTimeUs / 1000
  execMs := max (1 / 10) (r.cpuBurstDurationUs / 1000)
  nice := r.nice

theorem splitCsvRow_cells (r : Record) : splitCsvRow (",".intercalate r.cells) = r.cells :=
  splitCsvRow_intercalate (fun _ => plain_of_mem_cells) fun cell hcell => by
    rw [Record.cells, List.getLast?_eq_some_getLast (by simp), Option.mem_some_iff] at hcell
    exact hcell ▸ fixed_ne_empty r.cpuRequest

theorem clampNice_of_range {v : ℤ} (h : -20 ≤ v ∧ v ≤ 19) : clampNice v = v := by
  rw [clampNice, if_neg (by omega), if_neg (by omega)]

theorem googleRow_cells {r : Record} (h : -20 ≤ r.nice ∧ r.nice ≤ 19) :
    googleRow {} r.cells = .keep (rowOf r) := by
  have hnice : stoi (toString r.nice) = some r.nice := stoi_toString (by omega)
  show (match stod (toString r.arrivalTimeUs), stod (toString r.cpuBurstDurationUs) with
    | some (.inr arrivalUs), some (.inr cpuUs) => Reading.keep
        { arrivalMs := arrivalUs / 1000
          execMs := max (1 / 10) (cpuUs / 1000)
          nice := clampNice ((stoi (toString r.nice)).getD 0) }
    | some _, some _ => .notNumeric
    | _, _ => .skip) = _
  rw [stod_toString, stod_toString, hnice, Option.getD_some, clampNice_of_range h]
  rfl

theorem row_ne_empty (r : Record) : ",".intercalate r.cells ≠ "" := by
  intro hempty
  have hcells := splitCsvRow_cells r
  rw [hempty] at hcells
  exact absurd hcells (by simp [splitCsvRow, getlines, Words.pieces, Record.cells])

/-- One record after the other is read, until there are as many as asked for. -/
theorem readRows_cells {records : List Record} (h : ∀ r ∈ records, -20 ≤ r.nice ∧ r.nice ≤ 19)
    (n : ℕ) :
    readRows (googleRow {}) (records.map fun r => ",".intercalate r.cells) n
      = some ((records.take n).map rowOf) := by
  induction records generalizing n with
  | nil => simp [readRows]
  | cons r records ih =>
    cases n with
    | zero => rfl
    | succ n =>
      rw [List.map_cons, readRows, if_neg (row_ne_empty r), splitCsvRow_cells,
        googleRow_cells (h r List.mem_cons_self), List.take_succ_cons, List.map_cons]
      show (readRows _ _ n).map _ = _
      rw [ih fun s hs => h s (List.mem_cons_of_mem r hs)]
      rfl

theorem readTrace_writeCsv {records : List Record}
    (h : ∀ r ∈ records, -20 ≤ r.nice ∧ r.nice ≤ 19) (n : ℕ) :
    readTrace .googleV3 (writeCsv records) n = some ((records.take n).map rowOf) := by
  have hsplit : splitCsvRow (",".intercalate header) = header :=
    splitCsvRow_intercalate (by decide) (by decide)
  rw [readTrace, getlines_writeCsv, readHeader, hsplit, if_pos (by decide +kernel)]
  have hcolumns : googleColumns header = {} := by decide +kernel
  simp only [hcolumns]
  exact readRows_cells h n

/-! ## Sorting and numbering -/

/-- The task of a row, at its place in the sorted rows -/
def taskAt (row : Row) (i : ℕ) : TaskArgs where
  id := UInt32.ofNat i
  arrivalTime := row.arrivalMs
  executionTime := row.execMs
  nice := row.nice

/-- A trace that starts at zero is not shifted. -/
theorem toTasks_eq {sorted : List Row} (hzero : ∀ row ∈ sorted.head?, row.arrivalMs = 0)
    (hpos : ∀ row ∈ sorted, 0 ≤ row.arrivalMs) :
    toTasks sorted = sorted.zipIdx.map fun (row, i) => taskAt row i := by
  cases sorted with
  | nil => rfl
  | cons front rest =>
    refine List.map_congr_left fun (row, i) hmem => ?_
    have hrow := hpos row (List.fst_mem_of_mem_zipIdx hmem)
    simp only [hzero front rfl, sub_zero, max_eq_right hrow]
    rfl

/-- The row that arrives first arrives at zero if one of the rows does. -/
theorem Sorts.head_eq_zero {raw sorted : List Row} (h : Sorts raw sorted)
    (hpos : ∀ row ∈ raw, 0 ≤ row.arrivalMs) (hzero : ∀ row ∈ raw.head?, row.arrivalMs = 0) :
    ∀ row ∈ sorted.head?, row.arrivalMs = 0 := by
  intro front hfront
  obtain ⟨rest, rfl⟩ := List.head?_eq_some_iff.1 hfront
  cases raw with
  | nil => exact absurd h.1.eq_nil (List.cons_ne_nil front rest)
  | cons first raw =>
    have hfirst := hzero first rfl
    refine le_antisymm ?_ (hpos front (h.1.subset List.mem_cons_self))
    rcases List.mem_cons.1 (h.1.symm.subset List.mem_cons_self) with rfl | hmem
    · exact hfirst.le
    · exact hfirst ▸ List.rel_of_pairwise_cons h.2 hmem

theorem exists_sorts (raw : List Row) : ∃ sorted, Sorts raw sorted := by
  exact ⟨raw.mergeSort fun a b => a.arrivalMs ≤ b.arrivalMs, List.mergeSort_perm _ _,
    Statistics.pairwise_mergeSort_le Row.arrivalMs raw⟩

/-- The tasks of sorted rows are numbered in their order. -/
theorem map_id_taskAt {sorted : List Row} (h : sorted.length ≤ 2 ^ 32) :
    (sorted.zipIdx.map fun (row, i) => taskAt row i).map (·.id.toNat)
      = List.range sorted.length := by
  rw [List.range_eq_range', ← List.zipIdx_map_snd 0 sorted, List.map_map]
  refine List.map_congr_left fun (row, i) hmem => ?_
  have hi := List.snd_lt_of_mem_zipIdx hmem
  exact UInt32.toNat_ofNat_of_lt' (by simp only [UInt32.size]; omega)

/-- What does not depend on the numbers of the tasks is what the rows say. -/
theorem map_taskAt {β : Type} {f : TaskArgs → β} {g : Row → β}
    (h : ∀ row i, f (taskAt row i) = g row)
    (sorted : List Row) :
    (sorted.zipIdx.map fun (row, i) => taskAt row i).map f = sorted.map g := by
  conv_rhs => rw [← List.zipIdx_map_fst 0 sorted]
  rw [List.map_map, List.map_map]
  exact List.map_congr_left fun (row, i) _ => h row i

/-- **Extraction and replay agree.** On a file that the extraction script has written, a replay of
`numTasks` tasks gives one task for each of the first records, with their arrivals, bursts and nice
values, numbered in the order of their arrivals. -/
theorem traceReplay {records : List Record} (h : Extracted records) (numTasks : UInt32) :
    (∃ tasks, Generates .googleV3 (some (writeCsv records)) numTasks tasks) ∧
    ∀ tasks, Generates .googleV3 (some (writeCsv records)) numTasks tasks →
      tasks.map (·.id.toNat) = List.range tasks.length ∧
      tasks.Pairwise (fun t u => t.arrivalTime ≤ u.arrivalTime) ∧
      (tasks.map fun t => (t.arrivalTime, t.executionTime, t.nice)).Perm
        ((records.take numTasks.toNat).map fun r =>
          ((r.arrivalTimeUs : ℚ) / 1000, max (1 / 10) ((r.cpuBurstDurationUs : ℚ) / 1000),
            r.nice)) := by
  let raw := (records.take numTasks.toNat).map rowOf
  have hread : readTrace .googleV3 (writeCsv records) numTasks.toNat = some raw :=
    readTrace_writeCsv h.nice_range _
  have hpos : ∀ row ∈ raw, 0 ≤ row.arrivalMs := by
    intro row hrow
    obtain ⟨r, hr, rfl⟩ := List.mem_map.1 hrow
    have harrival := h.arrivalTimeUs_nonneg r (List.mem_of_mem_take hr)
    exact div_nonneg (by exact_mod_cast harrival) (by norm_num)
  have hzero : ∀ row ∈ raw.head?, row.arrivalMs = 0 := by
    intro row hrow
    rw [List.head?_map, List.head?_take, Option.mem_def, Option.map_eq_some_iff] at hrow
    obtain ⟨r, hr, rfl⟩ := hrow
    have harrival := h.startsAtZero r (by split at hr <;> simp_all)
    simp only [rowOf, harrival, Int.cast_zero, zero_div]
  constructor
  · obtain ⟨sorted, hsorted⟩ := exists_sorts raw
    exact ⟨toTasks sorted, raw, sorted, hread, hsorted, rfl⟩
  · rintro tasks ⟨raw', sorted, hread', hsorted, rfl⟩
    obtain rfl : raw = raw' := Option.some.inj (hread.symm.trans hread')
    have hlength : sorted.length ≤ 2 ^ 32 := by
      have : numTasks.toNat < 2 ^ 32 := numTasks.toNat_lt
      rw [hsorted.1.length_eq, List.length_map, List.length_take]
      omega
    rw [toTasks_eq (hsorted.head_eq_zero hpos hzero) fun row hrow =>
      hpos row (hsorted.1.subset hrow)]
    refine ⟨?_, ?_, ?_⟩
    · rw [map_id_taskAt hlength, List.length_map, List.length_zipIdx]
    · rw [← List.pairwise_map, map_taskAt fun _ _ => rfl, List.pairwise_map]
      exact hsorted.2
    · rw [map_taskAt (g := fun row => (row.arrivalMs, row.execMs, row.nice)) fun _ _ => rfl]
      refine (hsorted.1.map _).trans ?_
      rw [List.map_map]
      exact .rfl

/-- A trace of two records, with the shortest burst and the least nice value -/
def twoRecords : List Record :=
  [{ arrivalTimeUs := 0, cpuBurstDurationUs := 50, nice := -20, weight := 88761,
     schedulingClass := 2, cpuRequest := .ofRat 0 },
   { arrivalTimeUs := 1500, cpuBurstDurationUs := 2500, nice := 19, weight := 15,
     schedulingClass := 0, cpuRequest := .ofRat 0 }]

theorem extracted_twoRecords : Extracted twoRecords where
  sorted := by simp [twoRecords]
  startsAtZero := by simp [twoRecords]
  burst_pos := by simp [twoRecords]
  nice_range := by simp [twoRecords]

theorem traceReplay_twoRecords :
    ∃ tasks, Generates .googleV3 (some (writeCsv twoRecords)) 7 tasks ∧
      (tasks.map fun t => (t.arrivalTime, t.executionTime, t.nice)).Perm
        [(0, 1 / 10, -20), (3 / 2, 5 / 2, 19)] := by
  obtain ⟨⟨tasks, htasks⟩, hall⟩ := traceReplay extracted_twoRecords 7
  refine ⟨tasks, htasks, ?_⟩
  have hperm := (hall tasks htasks).2.2
  norm_num [twoRecords] at hperm ⊢
  exact hperm

end TraceReplayWorkload

end SchedSim
