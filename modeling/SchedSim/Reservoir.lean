import Mathlib.Algebra.BigOperators.Ring.List
import Mathlib.Data.Finset.Sigma
import Mathlib.Data.Nat.SuccPred
import Mathlib.Tactic.Ring

/-!
# Reservoir sampling

A sample of fixed size is kept while a list is read.  For the element with number `k + 1` a number
from `1` to `k + 1` is drawn; if it is the number of a place of the sample, then the element
replaces what stands there.

* `Reservoir.sequences` — all sequences of results, `Reservoir.mem_sequences` and
  `Reservoir.nodup_sequences` what they are.
* `Reservoir.run_spec` — a sample holds different elements of the list.
* `Reservoir.count_run` — in how many sequences an element ends up in the sample.
-/

namespace Reservoir

variable {α : Type*}

/-- The sequences of `m` results, drawn after `k` elements have been read. -/
def sequences : ℕ → ℕ → List (List ℕ)
  | _, 0 => [[]]
  | k, m + 1 => (List.range' 1 (k + 1)).flatMap fun j => (sequences (k + 1) m).map (j :: ·)

/-- A new element and the result drawn for it -/
def replace (size : ℕ) (sample : List α) (x : α) (j : ℕ) : List α :=
  if j ≤ size then sample.set (j - 1) x else sample

/-- The sample after the elements, one result for each. -/
def run (size : ℕ) (sample : List α) : List α → List ℕ → List α
  | x :: xs, j :: js => run size (replace size sample x j) xs js
  | _, _ => sample

/-! ## The sequences -/

theorem mem_sequences {k m : ℕ} {js : List ℕ} :
    js ∈ sequences k m ↔ js.length = m ∧ ∀ i (h : i < js.length), 1 ≤ js[i] ∧
    js[i] ≤ k + i + 1 := by
  induction m generalizing k js with
  | zero =>
    rw [sequences, List.mem_singleton, List.length_eq_zero_iff]
    constructor
    · rintro rfl
      simp
    · exact fun h => h.1
  | succ m ih =>
    rw [sequences, List.mem_flatMap]
    constructor
    · rintro ⟨j, hj, hjs⟩
      obtain ⟨rest, hrest, rfl⟩ := List.mem_map.1 hjs
      obtain ⟨hlength, hbounds⟩ := ih.1 hrest
      rw [List.mem_range'_1] at hj
      refine ⟨by simp [hlength], fun i hi => ?_⟩
      cases i with
      | zero => simpa using (by omega : 1 ≤ j ∧ j ≤ k + 1)
      | succ i =>
        have := hbounds i (by simpa using hi)
        simp only [List.getElem_cons_succ]
        omega
    · rintro ⟨hlength, hbounds⟩
      cases js with
      | nil => simp at hlength
      | cons j rest =>
        have hj := hbounds 0 (by simp)
        simp only [List.getElem_cons_zero] at hj
        refine ⟨j, List.mem_range'_1.2 (by omega), List.mem_map.2 ⟨rest, ih.2 ⟨?_, ?_⟩, rfl⟩⟩
        · simpa using hlength
        · intro i hi
          have := hbounds (i + 1) (by simpa using hi)
          simp only [List.getElem_cons_succ] at this
          omega

theorem nodup_sequences (k m : ℕ) : (sequences k m).Nodup := by
  induction m generalizing k with
  | zero => exact List.nodup_singleton _
  | succ m ih =>
    rw [sequences, List.nodup_flatMap]
    refine ⟨fun j _ => (ih (k + 1)).map (List.cons_injective), ?_⟩
    refine (List.nodup_range' (s := 1) (n := k + 1)).imp fun {i j} hij => ?_
    rw [Function.onFun, List.disjoint_left]
    intro js hi hj
    obtain ⟨_, -, rfl⟩ := List.mem_map.1 hi
    obtain ⟨_, -, heq⟩ := List.mem_map.1 hj
    exact hij (List.cons.inj heq).1.symm

theorem length_sequences_succ (k m : ℕ) :
    (sequences k (m + 1)).length = (k + 1) * (sequences (k + 1) m).length := by
  rw [sequences, List.length_flatMap]
  simp

theorem length_sequences_pos (k m : ℕ) : 0 < (sequences k m).length := by
  induction m generalizing k with
  | zero => exact Nat.one_pos
  | succ m ih =>
    rw [length_sequences_succ]
    exact Nat.mul_pos (Nat.succ_pos k) (ih (k + 1))

/-! ## One replacement -/

section Replace

variable {size k j : ℕ} {sample : List α} {x a : α}

@[simp] theorem length_replace : (replace size sample x j).length = sample.length := by
  rw [replace]
  split <;> simp

theorem mem_of_mem_replace (h : a ∈ replace size sample x j) : a ∈ sample ∨ a = x := by
  rw [replace] at h
  split at h
  · exact List.mem_or_eq_of_mem_set h
  · exact .inl h

theorem nodup_replace (hnodup : sample.Nodup) (hx : x ∉ sample) :
    (replace size sample x j).Nodup := by
  rw [replace]
  split
  · exact hnodup.set hx
  · exact hnodup

/-- The new element gets in if a place of the sample is drawn. -/
theorem mem_replace_self (hlength : sample.length = size) (hx : x ∉ sample) (hj : 1 ≤ j) :
    x ∈ replace size sample x j ↔ j ≤ size := by
  rw [replace]
  split
  next hle => exact iff_of_true (List.mem_set (by omega) x) hle
  next hlt => exact iff_of_false hx hlt

/-- What is in the sample stays there unless its own place is drawn. -/
theorem mem_replace_iff (hnodup : sample.Nodup) {i : ℕ} (hi : i < sample.length)
    (hlength : sample.length = size) (hx : x ∉ sample) (hj : 1 ≤ j) :
    sample[i] ∈ replace size sample x j ↔ j ≠ i + 1 := by
  rw [replace]
  split
  next hle =>
    constructor
    · intro hmem hji
      have hplace : j - 1 = i := by omega
      rw [hplace] at hmem
      obtain ⟨i', hi', heq⟩ := List.getElem_of_mem hmem
      rw [List.getElem_set] at heq
      split at heq
      next => exact hx (heq ▸ List.getElem_mem hi)
      next hne => exact hne (hnodup.getElem_inj_iff.1 heq).symm
    · intro hne
      have hi' : i < (sample.set (j - 1) x).length := by rwa [List.length_set]
      have hkeep : (sample.set (j - 1) x)[i] = sample[i] := by
        rw [List.getElem_set, if_neg (by omega)]
      exact hkeep ▸ List.getElem_mem hi'
  next hlt => exact iff_of_true (List.getElem_mem hi) (by omega)

/-- In how many of the results for the next element another one is in the sample afterwards. -/
theorem countP_replace [DecidableEq α] (hnodup : sample.Nodup) (hx : x ∉ sample)
    (hlength : sample.length = size) (hk : size ≤ k) (a : α) :
    (List.range' 1 (k + 1)).countP (fun j => a ∈ replace size sample x j)
      = if a ∈ sample then k else if a = x then size else 0 := by
  have hone : ∀ j ∈ List.range' 1 (k + 1), 1 ≤ j := fun j hj => (List.mem_range'_1.1 hj).1
  split
  next ha =>
    -- all results but the one for its own place
    obtain ⟨i, hi, rfl⟩ := List.getElem_of_mem ha
    have hcongr : (List.range' 1 (k + 1)).countP (fun j => sample[i] ∈ replace size sample x j)
        = (List.range' 1 (k + 1)).countP fun j => decide ¬ (j == i + 1) = true :=
      List.countP_congr fun j hj => by
        simp [mem_replace_iff hnodup hi hlength hx (hone j hj)]
    have hlen := List.length_eq_countP_add_countP (l := List.range' 1 (k + 1)) (fun j => j == i + 1)
    have hcount : (List.range' 1 (k + 1)).countP (fun j => j == i + 1) = 1 := by
      show (List.range' 1 (k + 1)).count (i + 1) = 1
      rw [List.count_range_1', if_pos (by omega)]
    rw [List.length_range', hcount] at hlen
    rw [hcongr]
    omega
  next ha =>
    split
    next heq =>
      subst heq
      have hcongr : (List.range' 1 (k + 1)).countP (fun j => a ∈ replace size sample a j)
          = (List.range' 1 (k + 1)).countP fun j => decide (j ≤ size) :=
        List.countP_congr fun j hj => by
          simp only [mem_replace_self hlength hx (hone j hj)]
      -- the places come first among the results
      have hsplit : List.range' 1 (k + 1)
          = List.range' 1 size ++ List.range' (1 + size) (k + 1 - size) := by
        rw [List.range'_append_1]
        congr 1
        omega
      rw [hcongr, hsplit, List.countP_append, List.countP_eq_length.2, List.countP_eq_zero.2,
        List.length_range', Nat.add_zero]
      · intro j hj
        have := (List.mem_range'_1.1 hj).1
        simp only [decide_eq_true_eq]
        omega
      · intro j hj
        have := (List.mem_range'_1.1 hj).2
        simp only [decide_eq_true_eq]
        omega
    next hne =>
      rw [List.countP_eq_zero]
      intro j _
      rw [decide_eq_true_eq]
      intro hmem
      exact (mem_of_mem_replace hmem).elim ha hne

end Replace

/-! ## The run -/

variable {size k : ℕ} {sample xs : List α} {js : List ℕ}

theorem run_cons (x : α) (j : ℕ) :
    run size sample (x :: xs) (j :: js) = run size (replace size sample x j) xs js := rfl

/-- A sample of different elements stays one while new elements are read. -/
theorem nodup_append_replace {x : α} {j : ℕ} (h : (sample ++ x :: xs).Nodup) :
    (replace size sample x j ++ xs).Nodup := by
  rw [List.nodup_append] at h ⊢
  obtain ⟨hsample, hcons, hdisj⟩ := h
  rw [List.nodup_cons] at hcons
  have hx : x ∉ sample := fun hx => hdisj x hx x List.mem_cons_self rfl
  refine ⟨nodup_replace hsample hx, hcons.2, fun a ha b hb => ?_⟩
  rcases mem_of_mem_replace ha with ha | rfl
  · exact hdisj a ha b (List.mem_cons_of_mem x hb)
  · rintro rfl
    exact hcons.1 hb

/-- The sample keeps its size, its elements differ and are among those it was made of. -/
theorem run_spec (h : (sample ++ xs).Nodup) : (run size sample xs js).length = sample.length ∧
    (run size sample xs js).Nodup ∧ run size sample xs js ⊆ sample ++ xs := by
  induction xs generalizing sample js with
  | nil =>
    rw [List.append_nil] at h ⊢
    exact ⟨rfl, h, List.Subset.refl _⟩
  | cons x xs ih =>
    cases js with
    | nil => exact ⟨rfl, (List.nodup_append.1 h).1, List.subset_append_left _ _⟩
    | cons j js =>
      rw [run_cons]
      have hnext : (replace size sample x j ++ xs).Nodup := nodup_append_replace h
      obtain ⟨hlength, hnodup, hsub⟩ := @ih _ js hnext
      refine ⟨hlength.trans length_replace, hnodup, fun a ha => ?_⟩
      rcases List.mem_append.1 (hsub ha) with ha | ha
      · rcases mem_of_mem_replace ha with ha | rfl
        · exact List.mem_append_left _ ha
        · exact List.mem_append_right _ List.mem_cons_self
      · exact List.mem_append_right _ (List.mem_cons_of_mem x ha)

theorem sum_map_ite {l : List ℕ} {p : ℕ → Prop} [DecidablePred p] (c : ℕ) :
    (l.map fun j => if p j then c else 0).sum = l.countP p * c := by
  induction l with
  | nil => simp
  | cons j l ih =>
    rw [List.map_cons, List.sum_cons, ih, List.countP_cons]
    by_cases hj : p j
    · simp [hj]
      ring
    · simp [hj]

/-- **Uniformity.** An element that is in the sample after `k` elements is there after all of them
in `k / (k + m)` of the sequences of results, one that is still to be read in `size / (k + m)`. -/
theorem count_run [DecidableEq α] (hlength : sample.length = size) (hk : size ≤ k)
    (h : (sample ++ xs).Nodup) (a : α) :
    (sequences k xs.length).countP (fun js => a ∈ run size sample xs js) * (k + xs.length)
      = (if a ∈ sample then k else if a ∈ xs then size else 0)
        * (sequences k xs.length).length := by
  induction xs generalizing sample k with
  | nil =>
    by_cases ha : a ∈ sample <;> simp [sequences, run, ha]
  | cons x xs ih =>
    have hparts := List.nodup_append.1 h
    have hcons := List.nodup_cons.1 hparts.2.1
    have hx : x ∉ sample := fun hx => hparts.2.2 x hx x List.mem_cons_self rfl
    let total := (sequences (k + 1) xs.length).length
    -- the weight of a result for the next element
    let weight := fun j => if a ∈ replace size sample x j then k + 1 else if a ∈ xs then size else 0
    have hresult : ∀ j, (sequences (k + 1) xs.length).countP
        (fun js => a ∈ run size (replace size sample x j) xs js) * (k + (xs.length + 1))
          = weight j * total := by
      intro j
      have := ih (k := k + 1) (length_replace.trans hlength) (by omega)
        (show (replace size sample x j ++ xs).Nodup from nodup_append_replace h)
      rw [← this]
      ring
    have hcount : (sequences k (xs.length + 1)).countP
        (fun js => a ∈ run size sample (x :: xs) js) * (k + (xs.length + 1))
          = ((List.range' 1 (k + 1)).map weight).sum * total := by
      rw [sequences, List.countP_flatMap, ← List.sum_map_mul_right, ← List.sum_map_mul_right]
      congr 1
      refine List.map_congr_left fun j _ => ?_
      rw [← hresult j, Function.comp_apply, List.countP_map]
      rfl
    have hweights : ((List.range' 1 (k + 1)).map weight).sum
        = (if a ∈ sample then k else if a ∈ x :: xs then size else 0) * (k + 1) := by
      by_cases hxs : a ∈ xs
      · have ha : a ∉ sample := fun ha => hparts.2.2 a ha a (List.mem_cons_of_mem x hxs) rfl
        have hax : a ≠ x := fun hax => hcons.1 (hax ▸ hxs)
        have hconst : (List.range' 1 (k + 1)).map weight = (List.range' 1 (k + 1)).map fun _ =>
            size := by
          refine List.map_congr_left fun j _ => ?_
          have hnot : a ∉ replace size sample x j := fun hmem =>
            (mem_of_mem_replace hmem).elim ha hax
          simp only [weight, if_neg hnot, if_pos hxs]
        rw [hconst, if_neg ha, if_pos (List.mem_cons_of_mem x hxs)]
        simp
        ring
      · have hsum : (List.range' 1 (k + 1)).map weight
            = (List.range' 1 (k + 1)).map fun j =>
              if a ∈ replace size sample x j then k + 1 else 0 := by
          refine List.map_congr_left fun j _ => ?_
          simp only [weight, if_neg hxs]
        rw [hsum, sum_map_ite, countP_replace hparts.1 hx hlength hk]
        simp only [List.mem_cons, hxs, or_false]
    rw [List.length_cons, hcount, hweights, length_sequences_succ]
    ring

end Reservoir
