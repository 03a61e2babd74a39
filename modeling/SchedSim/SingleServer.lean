import Mathlib.Algebra.Order.Ring.Defs
import Mathlib.Tactic.Linarith

/-!
# A server that is not idle while there is work

What a server of rate one has done by an instant, when it gets work over time and is idle only if
(almost) nothing is left: the least of `W u + (t - u)` over the instants `u` before `t`, where `W u`
is the work that has come before `u`.  So it does not matter in which order the server takes the
work.

* `SingleServer.DoneBy` — the least value, up to a tolerance.
* `SingleServer.DoneBy.busy`, `SingleServer.DoneBy.idle` — how it goes on.
* `SingleServer.DoneBy.le` — two servers with the same work are at the same point.
-/

namespace SingleServer

variable {α : Type*} [CommRing α] [LinearOrder α] [IsStrictOrderedRing α] {W : α → α}
  {δ δ' t t' x x' : α}

/-- The work done by `t` is `x`: not more than the server can have done of the work since any
instant, and up to `δ` no less than the least of this. -/
structure DoneBy (W : α → α) (δ t x : α) : Prop where
  le : ∀ u ≤ t, x ≤ W u + (t - u)
  ge : ∃ u ≤ t, W u + (t - u) ≤ x + δ

/-- Nothing is done before there is work. -/
theorem DoneBy.start (hnonneg : ∀ u, 0 ≤ W u) (hzero : W t = 0) : DoneBy W 0 t 0 where
  le u hu := add_nonneg (hnonneg u) (sub_nonneg.2 hu)
  ge := ⟨t, le_rfl, by rw [hzero, sub_self, add_zero]⟩

theorem DoneBy.mono (h : DoneBy W δ t x) (hδ : δ ≤ δ') : DoneBy W δ' t x where
  le := h.le
  ge := by
    obtain ⟨u, hu, hle⟩ := h.ge
    exact ⟨u, hu, hle.trans (by gcongr)⟩

/-- The server is busy from `t` to `t'`, with no more than the work that has come. -/
theorem DoneBy.busy (h : DoneBy W δ t x) (htime : t ≤ t')
    (hwork : ∀ u, t < u → u ≤ t' → x + (u - t) ≤ W u) : DoneBy W δ t' (x + (t' - t)) where
  le u hu := by
    rcases le_or_gt u t with hpast | hlater
    · have := h.le u hpast
      linarith
    · have := hwork u hlater hu
      linarith
  ge := by
    obtain ⟨u, hu, hle⟩ := h.ge
    exact ⟨u, hu.trans htime, by linarith⟩

/-- The server is idle from `t` to `t'`, when it has done all the work up to the tolerance. -/
theorem DoneBy.idle (h : DoneBy W δ t x) (htime : t ≤ t') (hdone : W t' ≤ x + δ)
    (hwork : ∀ u, t < u → u ≤ t' → x ≤ W u) : DoneBy W δ t' x where
  le u hu := by
    rcases le_or_gt u t with hpast | hlater
    · have := h.le u hpast
      linarith
    · have := hwork u hlater hu
      linarith
  ge := ⟨t', le_rfl, by rwa [sub_self, add_zero]⟩

omit [IsStrictOrderedRing α] in
/-- **The order of the work does not matter.** -/
theorem DoneBy.le_add (h : DoneBy W δ t x) (h' : DoneBy W δ' t x') : x ≤ x' + δ' := by
  obtain ⟨u, hu, hle⟩ := h'.ge
  exact (h.le u hu).trans hle

end SingleServer
