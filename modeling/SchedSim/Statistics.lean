import Mathlib.Algebra.BigOperators.Fin
import Mathlib.Algebra.Order.BigOperators.Group.List
import Mathlib.Algebra.Order.Field.Basic
import Mathlib.Algebra.Order.Chebyshev
import Mathlib.Data.List.Sort
import Mathlib.Tactic.Linarith
import Mathlib.Tactic.Ring
import Mathlib.Tactic.FieldSimp

/-!
# Order statistics and Jain's index

Two small theories over a linearly ordered field, for lists of measurements.

* `lt_countP_getElem` — in a sorted list more than `k` entries are at most the entry with
  index `k`: this is what makes an entry of the sorted list a percentile.
* `jainIndex` — the square of the sum over the length times the sum of the squares.
* `jainIndex_le_one`, `one_div_length_le_jainIndex` — it lies between one over the number
  of entries and one: a Cauchy–Schwarz inequality and the expansion of a square.
-/

namespace Statistics

/-! ## Sorting -/

/-- Sorting by a key orders the keys. -/
theorem pairwise_mergeSort_le {α β : Type*} [LinearOrder β] (f : α → β) (l : List α) :
    (l.mergeSort fun a b => f a ≤ f b).Pairwise fun a b => f a ≤ f b := by
  have hsorted : (l.mergeSort fun a b => f a ≤ f b).Pairwise fun a b => decide (f a ≤ f b) = true :=
    List.pairwise_mergeSort
      (fun a b c hab hbc => by
        rw [decide_eq_true_eq] at hab hbc ⊢
        exact hab.trans hbc)
      (fun a b => by simpa using le_total (f a) (f b)) l
  exact hsorted.imp fun hab => of_decide_eq_true hab

/-! ## Order statistics -/

section Sorted

variable {α : Type*} [LinearOrder α] {l : List α}

/-- In a sorted list, the entries up to index `k` are at most the one at `k`. -/
theorem lt_countP_getElem (hsorted : l.Pairwise (· ≤ ·)) {k : ℕ} (hk : k < l.length) :
    k < l.countP (· ≤ l[k]) := by
  have hsub : (l.take (k + 1)).countP (· ≤ l[k]) ≤ l.countP (· ≤ l[k]) :=
    (List.take_sublist _ _).countP_le
  have hall : (l.take (k + 1)).countP (· ≤ l[k]) = (l.take (k + 1)).length := by
    rw [List.countP_eq_length]
    intro a ha
    obtain ⟨i, hi, rfl⟩ := List.getElem_of_mem ha
    rw [List.length_take] at hi
    rw [List.getElem_take, decide_eq_true_iff]
    rcases Nat.lt_or_ge i k with hik | hik
    · exact List.pairwise_iff_getElem.1 hsorted i k _ hk hik
    · obtain rfl : i = k := by omega
      exact le_rfl
  rw [List.length_take] at hall
  omega

/-- Later entries of a sorted list are not smaller. -/
theorem getElem_le_getElem (hsorted : l.Pairwise (· ≤ ·)) {i k : ℕ} (hik : i ≤ k)
    (hk : k < l.length) : l[i] ≤ l[k] := by
  rcases Nat.eq_or_lt_of_le hik with rfl | hlt
  · exact le_rfl
  · exact List.pairwise_iff_getElem.1 hsorted i k _ hk hlt

end Sorted

/-! ## Jain's index -/

section Jain

variable {K : Type*} [Field K] [LinearOrder K] [IsStrictOrderedRing K]

/-- How evenly a quantity is spread over the entries of a list. -/
def jainIndex (xs : List K) : K := xs.sum * xs.sum / (xs.length * (xs.map fun x => x * x).sum)

variable {xs : List K}

/-- Cauchy–Schwarz against the constant list `1`. -/
theorem sum_mul_sum_le (xs : List K) :
    xs.sum * xs.sum ≤ xs.length * (xs.map fun x => x * x).sum := by
  have h := sq_sum_le_card_mul_sum_sq (s := Finset.univ) (f := fun i : Fin xs.length => xs[i.1])
  rw [Finset.card_univ, Fintype.card_fin, Fin.sum_univ_getElem,
    Fin.sum_univ_fun_getElem xs fun x => x ^ 2] at h
  simpa only [sq] using h

/-- Expanding the square of a sum of non-negative numbers gives more than the squares. -/
theorem sum_mul_self_le (hpos : ∀ x ∈ xs, 0 ≤ x) :
    (xs.map fun x => x * x).sum ≤ xs.sum * xs.sum := by
  induction xs with
  | nil => simp
  | cons x xs ih =>
    have hx : 0 ≤ x := hpos x List.mem_cons_self
    have htail : ∀ y ∈ xs, 0 ≤ y := fun y hy => hpos y (List.mem_cons_of_mem x hy)
    have hsum : 0 ≤ xs.sum := List.sum_nonneg htail
    rw [List.map_cons, List.sum_cons, List.sum_cons]
    calc x * x + (xs.map fun x => x * x).sum
        ≤ x * x + xs.sum * xs.sum := by gcongr; exact ih htail
      _ ≤ x * x + xs.sum * xs.sum + 2 * (x * xs.sum) := by
          linarith [mul_nonneg hx hsum]
      _ = (x + xs.sum) * (x + xs.sum) := by ring

theorem sum_mul_self_pos (hsome : ∃ x ∈ xs, x ≠ 0) : 0 < (xs.map fun x => x * x).sum := by
  obtain ⟨x, hx, hne⟩ := hsome
  have hle : x * x ≤ (xs.map fun x => x * x).sum := by
    refine List.single_le_sum (fun y hy => ?_) _ (List.mem_map_of_mem hx)
    obtain ⟨z, -, rfl⟩ := List.mem_map.1 hy
    exact mul_self_nonneg z
  exact (mul_self_pos.2 hne).trans_le hle

/-- The denominator of the index is positive unless all measurements are zero. -/
theorem length_mul_sum_pos (hsome : ∃ x ∈ xs, x ≠ 0) :
    0 < (xs.length : K) * (xs.map fun x => x * x).sum := by
  have hne : xs ≠ [] := by
    rintro rfl
    simp at hsome
  exact mul_pos (by exact_mod_cast List.length_pos_iff.2 hne) (sum_mul_self_pos hsome)

theorem jainIndex_le_one (hsome : ∃ x ∈ xs, x ≠ 0) : jainIndex xs ≤ 1 := by
  rw [jainIndex, div_le_one (length_mul_sum_pos hsome)]
  exact sum_mul_sum_le xs

theorem one_div_length_le_jainIndex (hpos : ∀ x ∈ xs, 0 ≤ x) (hsome : ∃ x ∈ xs, x ≠ 0) :
    1 / (xs.length : K) ≤ jainIndex xs := by
  have hden := length_mul_sum_pos hsome
  have hlen : (xs.length : K) ≠ 0 := fun h => by simp [h] at hden
  rw [jainIndex, le_div_iff₀ hden, ← mul_assoc, one_div_mul_cancel hlen, one_mul]
  exact sum_mul_self_le hpos

end Jain

end Statistics
