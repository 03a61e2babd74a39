import Mathlib.Algebra.Field.ZMod
import Mathlib.Tactic.Linarith
import Mathlib.Tactic.Positivity
import Mathlib.Tactic.Ring

/-!
# Lehmer generators

A Lehmer generator multiplies its state by a constant modulo a prime. If the constant is a
primitive root, then all states but zero form one cycle, and a state that is some steps further on
can be had by one multiplication. So the cycle can be cut into streams.

* `schrage_eq` — the product modulo `m`, computed without leaving the range of `m`.
* `Generator.InRange.existsUnique_iterate` — every state is met exactly once in a period.
* `Generator.iterate_eq_mul_mod` — many steps are one multiplication.
* `Generator.Separated.nodup_draws` — streams that are far enough apart can be drawn from in any
  order without meeting a state twice.
-/

namespace Lehmer

/-! ## Products that stay in range -/

section Schrage

variable {m a s : ℤ}

/-- `a * s` modulo `m`, up to one `m`, from the quotient and the remainder of `s` by `m / a` -/
def schrageDifference (m a s : ℤ) : ℤ := a * (s % (m / a)) - m % a * (s / (m / a))

theorem quotient_pos (ha : 0 < a) (ham : a ≤ m) : 0 < m / a :=
  (Int.le_ediv_iff_mul_le ha).2 (by rwa [zero_add, one_mul])

theorem mul_remainder_mem (ha : 0 < a) (ham : a ≤ m) (s : ℤ) :
    0 ≤ a * (s % (m / a)) ∧ a * (s % (m / a)) < m := by
  have hq := quotient_pos ha ham
  have hlo := Int.emod_nonneg s hq.ne'
  have hhi : s % (m / a) ≤ m / a - 1 := Int.le_sub_one_of_lt (Int.emod_lt_of_pos s hq)
  refine ⟨mul_nonneg ha.le hlo, ?_⟩
  calc a * (s % (m / a)) ≤ a * (m / a - 1) := by gcongr
    _ = a * (m / a) - a := by ring
    _ < m := by linarith [Int.mul_ediv_self_le (x := m) ha.ne']

theorem mul_quotient_mem (ha : 0 < a) (ham : a ≤ m) (hr : m % a ≤ m / a) (hs : 0 ≤ s)
    (hsm : s < m) : 0 ≤ m % a * (s / (m / a)) ∧ m % a * (s / (m / a)) < m := by
  have hq := quotient_pos ha ham
  have hquot : 0 ≤ s / (m / a) := Int.ediv_nonneg hs hq.le
  refine ⟨mul_nonneg (Int.emod_nonneg m ha.ne') hquot, ?_⟩
  calc m % a * (s / (m / a)) ≤ m / a * (s / (m / a)) := by gcongr
    _ ≤ s := Int.mul_ediv_self_le hq.ne'
    _ < m := hsm

/-- The difference is the product, less a multiple of the modulus. -/
theorem schrageDifference_eq (m a s : ℤ) :
    schrageDifference m a s = a * s - m * (s / (m / a)) := by
  have hs := Int.emod_add_mul_ediv s (m / a)
  have hm := Int.emod_add_mul_ediv m a
  calc schrageDifference m a s
      = a * (s - m / a * (s / (m / a))) - (m - a * (m / a)) * (s / (m / a)) := by
        rw [schrageDifference, ← eq_sub_of_add_eq hs, ← eq_sub_of_add_eq hm]
    _ = a * s - m * (s / (m / a)) := by ring

/-- **Schrage's method**: the product modulo `m`, if `m` does not divide it. -/
theorem schrage_eq (ha : 0 < a) (ham : a ≤ m) (hr : m % a ≤ m / a) (hs : 0 ≤ s) (hsm : s < m)
    (hdvd : ¬m ∣ a * s) :
    (if 0 < schrageDifference m a s then schrageDifference m a s
      else schrageDifference m a s + m) = a * s % m := by
  obtain ⟨hx, hxm⟩ := mul_remainder_mem ha ham s
  obtain ⟨hy, hym⟩ := mul_quotient_mem ha ham hr hs hsm
  have hdiff := schrageDifference_eq m a s
  have hne : schrageDifference m a s ≠ 0 := by
    intro hzero
    exact hdvd ⟨s / (m / a), by linarith⟩
  have hbounds : -m < schrageDifference m a s ∧ schrageDifference m a s < m := by
    rw [schrageDifference]
    constructor <;> linarith
  have hmod : ∀ k, (schrageDifference m a s + m * k) % m = a * s % m := by
    intro k
    rw [Int.add_mul_emod_self_left, hdiff, sub_eq_add_neg, ← mul_neg, Int.add_mul_emod_self_left]
  split
  · next hpos =>
    rw [← hmod 0, mul_zero, add_zero, Int.emod_eq_of_lt hpos.le hbounds.2]
  · next hneg =>
    rw [← hmod 1, mul_one, Int.emod_eq_of_lt (by linarith)]
    have : schrageDifference m a s < 0 := lt_of_le_of_ne (not_lt.1 hneg) hne
    linarith

end Schrage

/-! ## The cycle of a generator -/

/-- A prime modulus and a primitive root -/
structure Generator where
  modulus : ℕ
  multiplier : ℕ
  prime : modulus.Prime
  orderOf_multiplier : orderOf (multiplier : ZMod modulus) = modulus - 1

namespace Generator

variable (g : Generator) {s t k l : ℕ}

/-- One step of the generator -/
def step (s : ℕ) : ℕ := g.multiplier * s % g.modulus

/-- The states of the generator -/
def InRange (s : ℕ) : Prop := 0 < s ∧ s < g.modulus

theorem modulus_pos : 0 < g.modulus := g.prime.pos

theorem cast_iterate (k s : ℕ) :
    ((g.step^[k] s : ℕ) : ZMod g.modulus) = (g.multiplier : ZMod g.modulus) ^ k * s := by
  induction k with
  | zero => simp
  | succ k ih =>
    rw [Function.iterate_succ_apply', step, ZMod.natCast_mod, Nat.cast_mul, ih, pow_succ']
    ring

theorem iterate_lt (hs : s < g.modulus) (k : ℕ) : g.step^[k] s < g.modulus := by
  cases k with
  | zero => simpa
  | succ k =>
    rw [Function.iterate_succ_apply']
    exact Nat.mod_lt _ g.modulus_pos

/-- Many steps are one multiplication. -/
theorem iterate_eq_mul_mod (hs : s < g.modulus) (k : ℕ) :
    g.step^[k] s = g.multiplier ^ k % g.modulus * s % g.modulus := by
  have hcast := g.cast_iterate k s
  rw [← Nat.cast_pow, ← Nat.cast_mul, ZMod.natCast_eq_natCast_iff'] at hcast
  rw [Nat.mod_mul_mod, ← hcast, Nat.mod_eq_of_lt (g.iterate_lt hs k)]

variable {g}

theorem InRange.cast_ne_zero (hs : g.InRange s) : (s : ZMod g.modulus) ≠ 0 := by
  rw [Ne, ZMod.natCast_eq_zero_iff]
  exact Nat.not_dvd_of_pos_of_lt hs.1 hs.2

theorem inRange_of_cast_ne_zero (hlt : s < g.modulus) (hs : (s : ZMod g.modulus) ≠ 0) :
    g.InRange s := by
  refine ⟨Nat.pos_of_ne_zero ?_, hlt⟩
  rintro rfl
  exact hs Nat.cast_zero

theorem multiplier_ne_zero : (g.multiplier : ZMod g.modulus) ≠ 0 := by
  have : Fact g.modulus.Prime := ⟨g.prime⟩
  intro hzero
  have horder := g.orderOf_multiplier
  rw [hzero, orderOf_zero] at horder
  have := g.prime.two_le
  omega

/-- The generator does not get stuck. -/
theorem InRange.iterate (hs : g.InRange s) (k : ℕ) : g.InRange (g.step^[k] s) := by
  have : Fact g.modulus.Prime := ⟨g.prime⟩
  refine inRange_of_cast_ne_zero (g.iterate_lt hs.2 k) ?_
  rw [cast_iterate]
  exact mul_ne_zero (pow_ne_zero _ multiplier_ne_zero) hs.cast_ne_zero

theorem InRange.step (hs : g.InRange s) : g.InRange (g.step s) := hs.iterate 1

theorem InRange.not_dvd (hs : g.InRange s) : ¬g.modulus ∣ g.multiplier * s := by
  rw [← ZMod.natCast_eq_zero_iff, ← ZMod.natCast_mod]
  exact hs.step.cast_ne_zero

theorem isOfFinOrder_multiplier : IsOfFinOrder (g.multiplier : ZMod g.modulus) := by
  rw [← orderOf_pos_iff, g.orderOf_multiplier]
  exact Nat.sub_pos_of_lt g.prime.one_lt

/-- Two numbers of steps lead to the same state only if they are a multiple of the period
apart. -/
theorem InRange.iterate_eq_iff (hs : g.InRange s) :
    g.step^[k] s = g.step^[l] s ↔ k ≡ l [MOD g.modulus - 1] := by
  have : Fact g.modulus.Prime := ⟨g.prime⟩
  rw [← g.orderOf_multiplier, ← isOfFinOrder_multiplier.pow_eq_pow_iff_modEq]
  constructor
  · intro h
    have hcast := congrArg (Nat.cast : ℕ → ZMod g.modulus) h
    rw [cast_iterate, cast_iterate] at hcast
    exact mul_right_cancel₀ hs.cast_ne_zero hcast
  · intro h
    rw [g.iterate_eq_mul_mod hs.2, g.iterate_eq_mul_mod hs.2]
    rw [← Nat.cast_pow, ← Nat.cast_pow, ZMod.natCast_eq_natCast_iff'] at h
    rw [h]

theorem InRange.iterate_injOn (hs : g.InRange s) :
    Set.InjOn (fun k => g.step^[k] s) (Finset.range (g.modulus - 1)) := by
  intro k hk l hl h
  rw [Finset.coe_range, Set.mem_Iio] at hk hl
  exact (hs.iterate_eq_iff.1 h).eq_of_lt_of_lt hk hl

/-- **Full period**: every state is met exactly once. -/
theorem InRange.existsUnique_iterate (hs : g.InRange s) (ht : g.InRange t) :
    ∃! k, k < g.modulus - 1 ∧ g.step^[k] s = t := by
  have himage : (Finset.range (g.modulus - 1)).image (fun k => g.step^[k] s)
      = Finset.Ioo 0 g.modulus := by
    apply Finset.eq_of_subset_of_card_le
    · intro u hu
      obtain ⟨k, -, rfl⟩ := Finset.mem_image.1 hu
      exact Finset.mem_Ioo.2 (hs.iterate k)
    · rw [Finset.card_image_of_injOn hs.iterate_injOn, Nat.card_Ioo, Finset.card_range]
      exact le_rfl
  have hmem : t ∈ (Finset.range (g.modulus - 1)).image (fun k => g.step^[k] s) := by
    rw [himage]
    exact Finset.mem_Ioo.2 ht
  obtain ⟨k, hk, rfl⟩ := Finset.mem_image.1 hmem
  refine ⟨k, ⟨Finset.mem_range.1 hk, rfl⟩, ?_⟩
  rintro l ⟨hl, h⟩
  exact hs.iterate_injOn (Finset.mem_coe.2 (Finset.mem_range.2 hl)) (Finset.mem_coe.2 hk) h

/-- After a period the generator is where it was. -/
theorem InRange.iterate_period (hs : g.InRange s) : g.step^[g.modulus - 1] s = s := by
  have h : g.step^[g.modulus - 1] s = g.step^[0] s := by
    apply hs.iterate_eq_iff.2
    exact Nat.modEq_zero_iff_dvd.2 dvd_rfl
  exact h

/-! ## Streams -/

section Streams

variable {ι : Type*} [DecidableEq ι]

/-- The states drawn from a bank of streams, when the streams are used in the given order -/
def draws (g : Generator) (seeds : ι → ℕ) : List ι → List ℕ
  | [] => []
  | i :: is => g.step (seeds i) :: g.draws (Function.update seeds i (g.step (seeds i))) is

/-- No state is met twice, on whatever streams, as long as no stream is used more often than the
list says. -/
def Separated (g : Generator) (seeds : ι → ℕ) (is : List ι) : Prop :=
  ∀ i j k l, 1 ≤ k → k ≤ is.count i → 1 ≤ l → l ≤ is.count j →
    g.step^[k] (seeds i) = g.step^[l] (seeds j) → i = j ∧ k = l

variable {seeds : ι → ℕ} {i : ι} {is : List ι} {v : ℕ}

/-- What is left of a stream after a draw -/
theorem iterate_update (g : Generator) (seeds : ι → ℕ) (i j : ι) (k : ℕ) :
    g.step^[k] (Function.update seeds i (g.step (seeds i)) j)
      = g.step^[if j = i then k + 1 else k] (seeds j) := by
  by_cases h : j = i
  · subst h
    rw [Function.update_self, if_pos rfl, Function.iterate_succ_apply]
  · rw [Function.update_of_ne h, if_neg h]

/-- The count of a stream, with a draw before those of the list -/
theorem count_cons_bounds {i j : ι} {k : ℕ} (hk : 1 ≤ k) (hcount : k ≤ is.count j) :
    1 ≤ (if j = i then k + 1 else k) ∧ (if j = i then k + 1 else k) ≤ (i :: is).count j := by
  rw [List.count_cons]
  by_cases hj : j = i
  · simp [hj] at hcount ⊢
    omega
  · simp [hj, Ne.symm hj]
    omega

/-- A state that is drawn is one of the states ahead on some stream. -/
theorem exists_iterate_of_mem_draws (h : v ∈ g.draws seeds is) :
    ∃ i k, 1 ≤ k ∧ k ≤ is.count i ∧ v = g.step^[k] (seeds i) := by
  induction is generalizing seeds with
  | nil => exact absurd h List.not_mem_nil
  | cons j js ih =>
    rcases List.mem_cons.1 h with rfl | h
    · exact ⟨j, 1, le_rfl, by simp, rfl⟩
    · obtain ⟨i, k, hk, hcount, rfl⟩ := ih h
      obtain ⟨hk', hcount'⟩ := count_cons_bounds (i := j) hk hcount
      exact ⟨i, if i = j then k + 1 else k, hk', hcount', g.iterate_update seeds j i k⟩

theorem Separated.tail (h : g.Separated seeds (i :: is)) :
    g.Separated (Function.update seeds i (g.step (seeds i))) is := by
  intro j j' k l hk hkc hl hlc heq
  rw [iterate_update, iterate_update] at heq
  obtain ⟨hk', hkc'⟩ := count_cons_bounds (i := i) hk hkc
  obtain ⟨hl', hlc'⟩ := count_cons_bounds (i := i) hl hlc
  obtain ⟨rfl, h'⟩ := h j j' _ _ hk' hkc' hl' hlc' heq
  refine ⟨rfl, ?_⟩
  split at h' <;> omega

/-- **In whatever order** separated streams are used, no state is drawn twice. -/
theorem Separated.nodup_draws (h : g.Separated seeds is) : (g.draws seeds is).Nodup := by
  induction is generalizing seeds with
  | nil => exact List.nodup_nil
  | cons i is ih =>
    refine List.nodup_cons.2 ⟨?_, ih h.tail⟩
    intro hmem
    obtain ⟨j, k, hk, hcount, hv⟩ := exists_iterate_of_mem_draws hmem
    rw [iterate_update] at hv
    obtain ⟨hk', hcount'⟩ := count_cons_bounds (i := i) hk hcount
    obtain ⟨rfl, h'⟩ := h i j 1 _ le_rfl (by simp) hk' hcount' hv
    rw [if_pos rfl] at h'
    omega

/-- Streams whose seeds are `d` steps apart, as long as no stream is used more than `d` times and
all of them fit into the period -/
theorem InRange.separated (hs : g.InRange s) {n d : ℕ} {is : List (Fin n)}
    (hfit : n * d ≤ g.modulus - 1) (hcount : ∀ i, is.count i ≤ d) :
    g.Separated (fun i : Fin n => g.step^[i * d] s) is := by
  intro i j k l hk hkc hl hlc heq
  simp only [← Function.iterate_add_apply] at heq
  have hkd := hkc.trans (hcount i)
  have hld := hlc.trans (hcount j)
  -- the steps are counted from the first seed, and from one, so that the last of them is in range
  have hbound : ∀ (i : Fin n) (k : ℕ), 1 ≤ k → k ≤ d → k - 1 + i * d < g.modulus - 1 := by
    intro i k hk hkd
    have : (i + 1) * d ≤ n * d := Nat.mul_le_mul_right d i.isLt
    rw [add_mul, one_mul] at this
    omega
  have hmod : k - 1 + i * d ≡ l - 1 + j * d [MOD g.modulus - 1] := by
    have := hs.iterate_eq_iff.1 heq
    rw [show k + i * d = k - 1 + i * d + 1 by omega, show l + j * d = l - 1 + j * d + 1 by omega]
      at this
    exact Nat.ModEq.add_right_cancel' 1 this
  have hsame := hmod.eq_of_lt_of_lt (hbound i k hk hkd) (hbound j l hl hld)
  have hd : 0 < d := by omega
  have hij : (i : ℕ) = j := by
    have hi : (k - 1 + i * d) / d = i := by
      rw [Nat.add_mul_div_right _ _ hd, Nat.div_eq_of_lt (by omega), zero_add]
    have hj : (l - 1 + j * d) / d = j := by
      rw [Nat.add_mul_div_right _ _ hd, Nat.div_eq_of_lt (by omega), zero_add]
    rw [← hi, hsame, hj]
  refine ⟨Fin.ext hij, ?_⟩
  rw [hij] at hsame
  omega

end Streams

end Generator

end Lehmer
