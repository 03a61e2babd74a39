import SchedSim.Printing
import SchedSim.Statistics

/-!
# The extracted trace

`real-time-workloads/google_v3/extract_google_v3.py`: what the script does with the records it has
matched, which is to sort them by arrival, to shift them so that the trace starts at zero and to
write them to a CSV file.

* `Extracted` : what holds of the records that are written.
* `extracted_normalizeArrivalTimes` : sorting and shifting makes it so.
* `plain_of_mem_cells` : nothing that is written needs quoting.
-/

namespace SchedSim

namespace ExtractGoogleV3

open Csv

/-- A record of the trace, one field for each column of the CSV file -/
structure Record where
  arrivalTimeUs : ℤ
  cpuBurstDurationUs : ℤ
  ioBurstDurationUs : ℤ := 0
  nice : ℤ
  weight : ℤ
  schedulingClass : ℤ
  cpuRequest : Double

/-- `records.sort(key=lambda r: r[0])` -/
def sortRecords (records : List Record) : List Record :=
  records.mergeSort fun r s => r.arrivalTimeUs ≤ s.arrivalTimeUs

/-- Shift arrival times so the trace starts at zero. -/
def normalizeArrivalTimes : List Record → List Record
  | [] => []
  | first :: rest =>
    (first :: rest).map fun r => { r with arrivalTimeUs := r.arrivalTimeUs - first.arrivalTimeUs }

/-- `format(x, ".6f")` -/
def fixed : Double → String
  | .finite x _ =>
    let scaled := (Binary64.roundHalfEven (|x| * 10 ^ 6)).toNat
    let fraction := Nat.toDigits 10 (scaled % 10 ^ 6)
    (if x < 0 then "-" else "") ++ toString ((scaled / 10 ^ 6 : ℕ) : ℤ) ++ "."
      ++ String.ofList (List.replicate (6 - fraction.length) '0' ++ fraction)
  | .infinite negative => if negative then "-inf" else "inf"
  | .nan => "nan"

/-- The names of the columns. -/
def header : List String :=
  ["arrival_time_us", "cpu_burst_duration_us", "io_burst_duration_us", "nice", "weight",
    "scheduling_class", "cpu_request"]

def Record.cells (r : Record) : List String :=
  [toString r.arrivalTimeUs, toString r.cpuBurstDurationUs, toString r.ioBurstDurationUs,
    toString r.nice, toString r.weight, toString r.schedulingClass, fixed r.cpuRequest]

/-- A line of the file. -/
def csvLine (cells : List String) : String := ",".intercalate cells ++ "\n"

/-- What `write_csv` writes. -/
def writeCsv (records : List Record) : String :=
  csvLine header ++ String.join (records.map fun r => csvLine r.cells)

/-! ## The records that are written -/

/-- The records of a trace that starts at zero: in the order of their arrivals, with bursts that
take some time and nice values in the range of the kernel. -/
structure Extracted (records : List Record) : Prop where
  sorted : records.Pairwise fun r s => r.arrivalTimeUs ≤ s.arrivalTimeUs
  startsAtZero : ∀ r ∈ records.head?, r.arrivalTimeUs = 0
  burst_pos : ∀ r ∈ records, 0 < r.cpuBurstDurationUs
  nice_range : ∀ r ∈ records, -20 ≤ r.nice ∧ r.nice ≤ 19

theorem pairwise_sortRecords (records : List Record) :
    (sortRecords records).Pairwise fun r s => r.arrivalTimeUs ≤ s.arrivalTimeUs :=
  Statistics.pairwise_mergeSort_le Record.arrivalTimeUs records

/-- Sorting and shifting matched records gives a trace that starts at zero. -/
theorem extracted_normalizeArrivalTimes {records : List Record}
    (hburst : ∀ r ∈ records, 0 < r.cpuBurstDurationUs)
    (hnice : ∀ r ∈ records, -20 ≤ r.nice ∧ r.nice ≤ 19) :
    Extracted (normalizeArrivalTimes (sortRecords records)) := by
  have hmem : ∀ r ∈ sortRecords records, r ∈ records := fun r hr => List.mem_mergeSort.1 hr
  have hsorted := pairwise_sortRecords records
  cases hs : sortRecords records with
  | nil => exact ⟨.nil, by simp [normalizeArrivalTimes], by simp [normalizeArrivalTimes],
      by simp [normalizeArrivalTimes]⟩
  | cons first rest =>
    rw [hs] at hmem hsorted
    refine ⟨?_, ?_, ?_, ?_⟩
    · refine List.Pairwise.map _ (fun r s hrs => ?_) hsorted
      simpa using hrs
    · simp [normalizeArrivalTimes]
    · intro r hr
      obtain ⟨s, hs, rfl⟩ := List.mem_map.1 hr
      exact hburst s (hmem s hs)
    · intro r hr
      obtain ⟨s, hs, rfl⟩ := List.mem_map.1 hr
      exact hnice s (hmem s hs)

theorem Extracted.arrivalTimeUs_nonneg {records : List Record} (h : Extracted records) :
    ∀ r ∈ records, 0 ≤ r.arrivalTimeUs := by
  cases records with
  | nil => exact fun r hr => absurd hr List.not_mem_nil
  | cons first rest =>
    have hfirst := h.startsAtZero first rfl
    intro r hr
    rcases List.mem_cons.1 hr with rfl | hr
    · exact hfirst.ge
    · exact hfirst ▸ List.rel_of_pairwise_cons h.sorted hr

/-! ## The cells that are written -/

theorem plain_fixed (x : Double) : Plain (fixed x) := by
  cases x with
  | finite x hx =>
    refine plain_append (plain_append (plain_append ?_ (numeric_toString _).plain) (by decide)) ?_
    · split <;> decide
    · refine Numeric.plain ?_
      rw [String.toList_ofList]
      exact (numeric_replicate_zero _).append (numeric_toDigits _)
  | infinite negative => cases negative <;> decide
  | nan => decide

theorem plain_of_mem_cells {r : Record} {cell : String} (h : cell ∈ r.cells) : Plain cell := by
  simp only [Record.cells, List.mem_cons, List.not_mem_nil, or_false] at h
  rcases h with rfl | rfl | rfl | rfl | rfl | rfl | rfl
  all_goals first | exact (numeric_toString _).plain | exact plain_fixed _

theorem fixed_ne_empty (x : Double) : fixed x ≠ "" := by
  cases x with
  | finite x hx =>
    intro h
    have hpoint : '.' ∈ (fixed (.finite x hx)).toList := by simp [fixed, String.toList_append]
    rw [h] at hpoint
    exact absurd hpoint (by decide)
  | infinite negative => cases negative <;> decide
  | nan => decide

end ExtractGoogleV3

end SchedSim
