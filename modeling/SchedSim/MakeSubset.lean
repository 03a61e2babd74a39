import SchedSim.Reservoir
import Mathlib.Algebra.Order.Field.Basic
import Mathlib.Data.List.GetD
import Mathlib.Order.Lattice.Nat
import Mathlib.Tactic.FieldSimp
import Mathlib.Tactic.Linarith

/-!
# Subsets of a trace

`real-time-workloads/alibaba_v2018/make_subset.py`: the script that takes a subset of fixed size
from a CSV file, reading it row by row.  The results of `random.randint` are given as a list, from
which every call takes the next one; which characters are letters is a parameter.

* `MakeSubset.main` — what the script writes.
* `MakeSubset.scan_eq_run` — its loop is reservoir sampling, with or without a header.
* `MakeSubset.scan_map` — which rows are taken depends on their positions only.
* `MakeSubset.subset_uniform` — all rows have the same chance.
-/

namespace SchedSim

namespace MakeSubset

/-- A row of the file -/
abbrev Row := List String

inductive Mode where
  | random
  | head
  deriving DecidableEq

/-- The arguments that `main` reads but the seed and the name of the output file. -/
structure Args where
  input : String := "batch_instance.csv"
  size : ℤ := 500
  mode : Mode := .random
  maxLines : Option ℤ := none
  noHeader : Bool := false

/-- `looks_like_header`: some cell has a letter. -/
def looksLikeHeader (isAlpha : Char → Bool) (row : Row) : Bool :=
  row.any fun cell => cell.toList.any isAlpha

/-- The variables of the loop, and the results of `random.randint` that are still to come -/
structure Scan (α : Type) where
  sampled : List α
  scannedRows : ℕ
  draws : List ℕ

/-- `random.randint(1, n)`: the next result, which lies in the range of the call. -/
def randint (n : ℕ) : List ℕ → Option (ℕ × List ℕ)
  | [] => none
  | j :: draws => if 1 ≤ j ∧ j ≤ n then some (j, draws) else none

/-- The loop over the rows; nothing where the results run out. -/
def scan {α : Type} (args : Args) : List α → Scan α → Option (Scan α)
  | [], s => some s
  | row :: rows, s =>
    if args.maxLines.any fun maxLines : ℤ => maxLines ≤ s.scannedRows then some s
    else
      let scannedRows := s.scannedRows + 1
      if s.sampled.length < args.size then
        scan args rows { s with sampled := s.sampled ++ [row], scannedRows }
      else
        match args.mode with
        | .head => some { s with scannedRows }
        | .random =>
          match randint scannedRows s.draws with
          | none => none
          | some (j, draws) =>
            let sampled := if j ≤ args.size then s.sampled.set (j - 1) row else s.sampled
            scan args rows { sampled, scannedRows, draws }

/-- What is written to the output file, and the number of rows that is printed -/
structure Output where
  header : Option Row
  sampled : List Row
  scannedRows : ℕ

/-- The script on the rows of the input file, if it exists; an error is what it prints before it
ends with status 1. -/
def main (isAlpha : Char → Bool) (args : Args) (file : Option (List Row)) (draws : List ℕ) :
    Option (Except String Output) :=
  if args.size ≤ 0 then some (.error "Error: --size must be > 0")
  else
    match file with
    | none => some (.error ("Error: input file not found: " ++ args.input))
    | some [] => some (.error "Error: input CSV is empty.")
    | some (first :: rows) =>
      if !args.noHeader && looksLikeHeader isAlpha first then
        (scan args rows { sampled := [], scannedRows := 0, draws }).map fun s =>
          .ok { header := some first, sampled := s.sampled, scannedRows := s.scannedRows }
      else
        (scan args rows { sampled := [first], scannedRows := 1, draws }).map fun s =>
          .ok { header := none, sampled := s.sampled, scannedRows := s.scannedRows }

/-- The row that the script takes for a header, if any. -/
def headerOf (isAlpha : Char → Bool) (args : Args) (rows : List Row) : Option Row :=
  rows.head?.filter fun first => !args.noHeader && looksLikeHeader isAlpha first

/-- The other rows. -/
def dataRows (isAlpha : Char → Bool) (args : Args) (rows : List Row) : List Row :=
  if (headerOf isAlpha args rows).isSome then rows.tail else rows

/-- The positions that the loop takes of `n` rows. -/
def picks (args : Args) (n : ℕ) (draws : List ℕ) : List ℕ :=
  ((scan args (List.range n) { sampled := [], scannedRows := 0, draws }).map Scan.sampled).getD []

/-! ## The loop -/

variable {α β : Type} {args : Args} {size k : ℕ} {xs rows sampled : List α} {draws : List ℕ}

/-- The same results take the same places, whatever the rows. -/
theorem scan_map (args : Args) (f : α → β) (rows : List α) (s : Scan α) :
    scan args (rows.map f) ⟨s.sampled.map f, s.scannedRows, s.draws⟩
      = (scan args rows s).map fun s => ⟨s.sampled.map f, s.scannedRows, s.draws⟩ := by
  induction rows generalizing s with
  | nil => rfl
  | cons row rows ih =>
    simp only [List.map_cons, scan, List.length_map]
    split
    next => rfl
    next =>
      split
      next =>
        simpa using ih
          { s with sampled := s.sampled ++ [row], scannedRows := s.scannedRows + 1 }
      next =>
        cases args.mode with
        | head => rfl
        | random =>
          cases hdraw : randint (s.scannedRows + 1) s.draws with
          | none => rfl
          | some result =>
            obtain ⟨j, draws⟩ := result
            simp only
            rw [← ih]
            congr 2
            split <;> simp [List.map_set]

section Random

variable (hmode : args.mode = .random) (hmax : args.maxLines = none) (hsize : args.size = size)

include hmax hsize

/-- The first rows fill the sample. -/
theorem scan_append (h : sampled.length + xs.length ≤ size) :
    scan args (xs ++ rows) ⟨sampled, k, draws⟩
      = scan args rows ⟨sampled ++ xs, k + xs.length, draws⟩ := by
  induction xs generalizing sampled k with
  | nil => simp
  | cons x xs ih =>
    rw [List.length_cons] at h
    rw [List.cons_append, scan, hmax, hsize]
    simp only [Option.any_none, Bool.false_eq_true, if_false]
    rw [if_pos (by exact_mod_cast (by omega : sampled.length < size)), ih (by simp; omega)]
    simp [Nat.add_assoc, Nat.add_comm 1]

include hmode

/-- Then every row is drawn for. -/
theorem scan_full (h : sampled.length = size) (hdraws : draws ∈ Reservoir.sequences k rows.length) :
    scan args rows ⟨sampled, k, draws⟩
      = some ⟨Reservoir.run size sampled rows draws, k + rows.length, []⟩ := by
  induction rows generalizing sampled k draws with
  | nil =>
    rw [List.length_nil, Reservoir.sequences, List.mem_singleton] at hdraws
    rw [hdraws]
    rfl
  | cons row rows ih =>
    rw [List.length_cons, Reservoir.sequences, List.mem_flatMap] at hdraws
    obtain ⟨j, hj, hdraws⟩ := hdraws
    obtain ⟨draws, hrest, rfl⟩ := List.mem_map.1 hdraws
    rw [List.mem_range'_1] at hj
    rw [scan, hmax, hsize, hmode]
    simp only [Option.any_none, Bool.false_eq_true, if_false]
    rw [if_neg (by simp [h]), randint, if_pos (by omega)]
    simp only [Nat.cast_le]
    have hreplace : (if j ≤ size then sampled.set (j - 1) row else sampled)
        = Reservoir.replace size sampled row j := rfl
    rw [hreplace, ih (Reservoir.length_replace.trans h) hrest, Reservoir.run_cons, List.length_cons]
    simp [Nat.add_assoc, Nat.add_comm 1]

/-- The loop is reservoir sampling. -/
theorem scan_eq_run (hle : size ≤ rows.length)
    (hdraws : draws ∈ Reservoir.sequences size (rows.length - size)) :
    scan args rows ⟨[], 0, draws⟩
      = some ⟨Reservoir.run size (rows.take size) (rows.drop size) draws, rows.length, []⟩ := by
  have hlength : (rows.take size).length = size := by rw [List.length_take]; omega
  rw [← List.length_drop] at hdraws
  conv_lhs => rw [← List.take_append_drop size rows]
  rw [scan_append hmax hsize (by simp), List.nil_append, Nat.zero_add, hlength,
    scan_full hmode hmax hsize hlength hdraws, List.length_drop, Nat.add_sub_cancel' hle]

/-- The positions that are taken. -/
theorem picks_eq_run {n : ℕ} (hle : size ≤ n)
    (hdraws : draws ∈ Reservoir.sequences size (n - size)) :
    picks args n draws = Reservoir.run size ((List.range n).take size)
      ((List.range n).drop size) draws := by
  rw [picks, scan_eq_run hmode hmax hsize (by simpa using hle) (by simpa using hdraws)]
  rfl

/-- Where no results are missing, the rows at the positions that are taken are written. -/
theorem scan_eq_picks {data : List Row} (hle : size ≤ data.length)
    (hdraws : draws ∈ Reservoir.sequences size (data.length - size)) :
    scan args data ⟨[], 0, draws⟩
      = some ⟨(picks args data.length draws).map fun i => data.getD i [], data.length, []⟩ := by
  have hdata : (List.range data.length).map (fun i => data.getD i []) = data := by
    refine List.ext_getElem (by simp) fun i hi hi' => ?_
    rw [List.getElem_map, List.getElem_range, List.getD_eq_getElem _ _ hi']
  have hscan : scan args (List.range data.length) ⟨[], 0, draws⟩
      = some ⟨Reservoir.run size ((List.range data.length).take size)
          ((List.range data.length).drop size) draws, (List.range data.length).length, []⟩ :=
    scan_eq_run hmode hmax hsize (by simpa using hle) (by simpa using hdraws)
  have hmap := scan_map args (fun i => data.getD i []) (List.range data.length)
    ⟨[], 0, draws⟩
  rw [hdata, hscan] at hmap
  rw [picks_eq_run hmode hmax hsize hle hdraws]
  simpa using hmap

omit hmode in
/-- The script on a file with data rows, with a header or without. -/
theorem main_eq {isAlpha : Char → Bool} {rows : List Row} (hpos : 1 ≤ size)
    (hle : size ≤ (dataRows isAlpha args rows).length) :
    main isAlpha args (some rows) draws
      = (scan args (dataRows isAlpha args rows) ⟨[], 0, draws⟩).map fun s =>
        .ok ⟨headerOf isAlpha args rows, s.sampled, s.scannedRows⟩ := by
  cases rows with
  | nil => simp [dataRows, headerOf] at hle; omega
  | cons first rows =>
    rw [main, if_neg (by omega)]
    by_cases hheader : (!args.noHeader && looksLikeHeader isAlpha first) = true
    · simp [dataRows, headerOf, hheader, Option.filter]
    · have hfirst : scan args (first :: rows) ⟨[], 0, draws⟩
          = scan args rows ⟨[first], 1, draws⟩ := by
        have h : scan args ([first] ++ rows) ⟨[], 0, draws⟩
            = scan args rows ⟨[] ++ [first], 0 + 1, draws⟩ :=
          scan_append hmax hsize (by simpa using hpos)
        simpa using h
      simp [dataRows, headerOf, hheader, Option.filter, hfirst]

end Random

/-- **The subsets are uniform.** In random mode and without a limit on the lines, with `n` data rows
and a size from one to `n`: for every sequence of results the script writes exactly `size` of the
data rows, from different positions, below the header if there is one; and every data row is among
them in `size / n` of the sequences. -/
theorem subset_uniform (isAlpha : Char → Bool) (args : Args) (rows : List Row) (size n : ℕ)
    (hmode : args.mode = .random) (hmax : args.maxLines = none) (hsize : args.size = size)
    (hn : (dataRows isAlpha args rows).length = n) (hpos : 1 ≤ size) (hle : size ≤ n) :
    (∀ draws ∈ Reservoir.sequences size (n - size),
      main isAlpha args (some rows) draws = some (.ok
        { header := headerOf isAlpha args rows
          sampled := (picks args n draws).map fun i => (dataRows isAlpha args rows).getD i []
          scannedRows := n }) ∧
      (picks args n draws).length = size ∧ (picks args n draws).Nodup ∧
      ∀ i ∈ picks args n draws, i < n) ∧
    ∀ i < n, ((Reservoir.sequences size (n - size)).countP
      (fun draws => i ∈ picks args n draws) : ℚ)
      / (Reservoir.sequences size (n - size)).length = (size : ℚ) / n := by
  have hnodup : ((List.range n).take size ++ (List.range n).drop size).Nodup := by
    rw [List.take_append_drop]
    exact List.nodup_range
  have htake : ((List.range n).take size).length = size := by simpa using hle
  have hdrop : ((List.range n).drop size).length = n - size := by simp
  constructor
  · intro draws hdraws
    obtain ⟨hlength, hdistinct, hsub⟩ := @Reservoir.run_spec ℕ size _ _ draws hnodup
    rw [← picks_eq_run hmode hmax hsize hle hdraws] at hlength hdistinct hsub
    refine ⟨?_, hlength.trans htake, hdistinct, fun i hi => ?_⟩
    · subst hn
      rw [main_eq hmax hsize hpos hle, scan_eq_picks hmode hmax hsize hle hdraws]
      rfl
    · have := hsub hi
      rwa [List.take_append_drop, List.mem_range] at this
  · intro i hi
    have hcount := Reservoir.count_run htake le_rfl hnodup i
    rw [hdrop, Nat.add_sub_cancel' hle] at hcount
    have hweight : (if i ∈ (List.range n).take size then size
        else if i ∈ (List.range n).drop size then size else 0) = size := by
      have hmem : i ∈ (List.range n).take size ++ (List.range n).drop size := by
        rwa [List.take_append_drop, List.mem_range]
      rcases List.mem_append.1 hmem with h | h
      · rw [if_pos h]
      · rw [if_pos h, ite_self]
    have hpicks : (Reservoir.sequences size (n - size)).countP (fun draws => i ∈ picks args n draws)
        = (Reservoir.sequences size (n - size)).countP fun draws =>
          i ∈ Reservoir.run size ((List.range n).take size) ((List.range n).drop size) draws :=
      List.countP_congr fun draws hdraws => by
        rw [picks_eq_run hmode hmax hsize hle hdraws]
    rw [hweight] at hcount
    have htotal : ((Reservoir.sequences size (n - size)).length : ℚ) ≠ 0 := by
      exact_mod_cast (Reservoir.length_sequences_pos size (n - size)).ne'
    rw [hpicks, div_eq_div_iff htotal (by exact_mod_cast (by omega : n ≠ 0))]
    exact_mod_cast hcount

/-- Two rows of four below a header, the third of them -/
theorem subset_uniform_four :
    let args : Args := { size := 2 }
    let rows : List Row := [["status"], ["1"], ["2"], ["3"], ["4"]]
    let sequences := Reservoir.sequences 2 2
    (sequences.countP (fun draws => 2 ∈ picks args 4 draws) : ℚ) / sequences.length = 2 / 4 ∧
      ∀ draws ∈ sequences, (main Char.isAlpha args (some rows) draws).isSome := by
  intro args rows sequences
  obtain ⟨hwrites, hfraction⟩ := subset_uniform Char.isAlpha args rows 2 4 rfl rfl rfl
    (by decide +kernel) (by decide) (by decide)
  refine ⟨by simpa using hfraction 2 (by decide), fun draws hdraws => ?_⟩
  rw [(hwrites draws hdraws).1]
  rfl

end MakeSubset

end SchedSim
