import Mathlib.Data.List.MinMax
import Mathlib.Tactic.Linarith

/-!
# Picking the best element of a list from left to right

`minElement lt l` scans `l` once, keeping the best element seen so far and
replacing it whenever the next one compares before it: the behaviour of
`std::min_element`, which is also defined when `lt` is not an order.

* `minElement_mem`, `minElement_eq_none` — it picks an element, if there is one.
* `minElement_le_add` — a comparison that can err by at most `ε` about a
  quantity picks an element that exceeds the least one by at most
  `(n - 1) * ε` on a list of length `n`.
* `minElement_le` — an exact comparison picks a least element.
* `minElement_congr`, `argmin_congr` — only the elements of the list matter.
* `minElement_of_wins` — an element that compares before every other one is picked,
  wherever it stands in the list.
-/

variable {α : Type*}

/-- The better of two elements, the first one on a draw. -/
def betterOf (lt : α → α → Bool) (best x : α) : α := if lt x best then x else best

/-- A left-to-right scan for the best element. -/
def minElement (lt : α → α → Bool) : List α → Option α
  | [] => none
  | a :: l => some (l.foldl (betterOf lt) a)

@[simp] theorem minElement_eq_none {lt : α → α → Bool} {l : List α} :
    minElement lt l = none ↔ l = [] := by
  cases l <;> simp [minElement]

theorem foldl_betterOf_mem (lt : α → α → Bool) (l : List α) (a : α) :
    l.foldl (betterOf lt) a ∈ a :: l := by
  induction l generalizing a with
  | nil => simp
  | cons x l ih =>
    rw [List.foldl_cons]
    rcases List.mem_cons.1 (ih (betterOf lt a x)) with h | h
    · rw [h, betterOf]
      split <;> simp
    · exact List.mem_cons_of_mem _ (List.mem_cons_of_mem _ h)

theorem minElement_mem {lt : α → α → Bool} {l : List α} {a : α} (h : minElement lt l = some a) :
    a ∈ l := by
  cases l with
  | nil => simp [minElement] at h
  | cons x l =>
    rw [minElement, Option.some.injEq] at h
    rw [← h]
    exact foldl_betterOf_mem lt l x

/-! ## An element that wins -/

/-- An element that compares before all others, and that no other compares before, is kept
once the scan has met it, and is taken when it is met. -/
theorem minElement_of_wins {lt : α → α → Bool} {l : List α} {a : α} (ha : a ∈ l)
    (hwins : ∀ x ∈ l, x ≠ a → lt a x = true ∧ lt x a = false) : minElement lt l = some a := by
  have hkept : ∀ x ∈ l, betterOf lt a x = a := by
    intro x hx
    rw [betterOf]
    by_cases hxa : x = a
    · rw [hxa, ite_self]
    · simp [(hwins x hx hxa).2]
  have hmet : ∀ x ∈ l, betterOf lt x a = a := by
    intro x hx
    rw [betterOf]
    by_cases hxa : x = a
    · rw [hxa, ite_self]
    · simp [(hwins x hx hxa).1]
  have hscan : ∀ (l' : List α) (b : α), (∀ x ∈ b :: l', x ∈ l) → a ∈ b :: l' →
      l'.foldl (betterOf lt) b = a := by
    intro l'
    induction l' with
    | nil =>
      intro b _ hab
      exact (List.mem_singleton.1 hab).symm
    | cons x l' ih =>
      intro b hl hab
      have hb : b ∈ l := hl b List.mem_cons_self
      have hx : x ∈ l := hl x (List.mem_cons_of_mem _ List.mem_cons_self)
      rw [List.foldl_cons]
      refine ih _ (fun y hy => ?_) ?_
      · rcases List.mem_cons.1 hy with rfl | hy
        · rw [betterOf]
          split
          · exact hx
          · exact hb
        · exact hl y (List.mem_cons_of_mem _ (List.mem_cons_of_mem _ hy))
      · rcases List.mem_cons.1 hab with rfl | hab
        · rw [hkept x hx]
          exact List.mem_cons_self
        · rcases List.mem_cons.1 hab with rfl | hab
          · rw [hmet b hb]
            exact List.mem_cons_self
          · exact List.mem_cons_of_mem _ hab
  cases l with
  | nil => cases ha
  | cons b l =>
    rw [minElement, hscan l b (fun x hx => hx) ha]

/-! ## What a scan looks at -/

/-- A scan only compares elements of the list. -/
theorem minElement_congr {lt lt' : α → α → Bool} {l : List α}
    (h : ∀ a ∈ l, ∀ b ∈ l, lt a b = lt' a b) : minElement lt l = minElement lt' l := by
  have key : ∀ (l' : List α) (a : α), a ∈ l → (∀ x ∈ l', x ∈ l) →
      l'.foldl (betterOf lt) a = l'.foldl (betterOf lt') a := by
    intro l'
    induction l' with
    | nil => intro a _ _; rfl
    | cons x l' ih =>
      intro a ha hl
      have hx : x ∈ l := hl x (List.mem_cons_self ..)
      have hbetter : betterOf lt a x = betterOf lt' a x := by
        rw [betterOf, betterOf, h x hx a ha]
      rw [List.foldl_cons, List.foldl_cons, hbetter]
      refine ih _ ?_ fun y hy => hl y (List.mem_cons_of_mem _ hy)
      rw [betterOf]
      split
      · exact hx
      · exact ha
  cases l with
  | nil => rfl
  | cons a l =>
    rw [minElement, minElement]
    exact congrArg some (key l a (List.mem_cons_self ..) fun x hx => List.mem_cons_of_mem _ hx)

/-- So does the search for a least value. -/
theorem argmin_congr {β : Type*} [LinearOrder β] {f g : α → β} {l : List α}
    (h : ∀ a ∈ l, f a = g a) : l.argmin f = l.argmin g := by
  induction l with
  | nil => rfl
  | cons a l ih =>
    have ha := h a (List.mem_cons_self ..)
    have hl := ih fun x hx => h x (List.mem_cons_of_mem _ hx)
    rw [List.argmin_cons, List.argmin_cons, hl]
    cases hmin : l.argmin g with
    | none => rfl
    | some c =>
      have hc := h c (List.mem_cons_of_mem _ (List.argmin_mem hmin))
      simp only [ha, hc]

section Tolerance

variable {K : Type*} [Field K] [LinearOrder K] [IsStrictOrderedRing K] {lt : α → α → Bool}
  {f : α → K} {ε : K}

/-- One comparison can raise the quantity by at most `ε`, both over the old
best element and over the new one. -/
theorem betterOf_le_add (hε : 0 ≤ ε) (htrue : ∀ x b, lt x b = true → f x ≤ f b + ε)
    (hfalse : ∀ x b, lt x b = false → f b ≤ f x + ε) (b x : α) :
    f (betterOf lt b x) ≤ f b + ε ∧ f (betterOf lt b x) ≤ f x + ε := by
  rw [betterOf]
  cases hlt : lt x b with
  | true => exact ⟨by simpa using htrue x b hlt, by simpa using hε⟩
  | false => exact ⟨by simpa using hε, by simpa using hfalse x b hlt⟩

theorem foldl_betterOf_le_add (hε : 0 ≤ ε) (htrue : ∀ x b, lt x b = true → f x ≤ f b + ε)
    (hfalse : ∀ x b, lt x b = false → f b ≤ f x + ε) (l : List α) (a : α) :
    ∀ x ∈ a :: l, f (l.foldl (betterOf lt) a) ≤ f x + l.length * ε := by
  induction l generalizing a with
  | nil => simp
  | cons y l ih =>
    intro x hx
    obtain ⟨hold, hnew⟩ := betterOf_le_add hε htrue hfalse a y
    have hbest := ih (betterOf lt a y) _ (List.mem_cons_self ..)
    rw [List.foldl_cons, List.length_cons, Nat.cast_succ, add_mul, one_mul]
    rcases List.mem_cons.1 hx with rfl | hx
    · linarith
    · rcases List.mem_cons.1 hx with rfl | hx
      · linarith
      · have := ih (betterOf lt a y) x (List.mem_cons_of_mem _ hx)
        linarith

/-- A scan whose comparison errs by at most `ε` drifts by at most `ε` for each
comparison it makes. -/
theorem minElement_le_add (hε : 0 ≤ ε) (htrue : ∀ x b, lt x b = true → f x ≤ f b + ε)
    (hfalse : ∀ x b, lt x b = false → f b ≤ f x + ε) {l : List α} {a : α}
    (h : minElement lt l = some a) : ∀ x ∈ l, f a ≤ f x + (l.length - 1) * ε := by
  cases l with
  | nil => simp
  | cons y l =>
    rw [minElement, Option.some.injEq] at h
    rw [← h, List.length_cons, Nat.cast_succ, add_sub_cancel_right]
    exact foldl_betterOf_le_add hε htrue hfalse l y

/-- A scan with an exact comparison finds a least element. -/
theorem minElement_le (htrue : ∀ x b, lt x b = true → f x ≤ f b)
    (hfalse : ∀ x b, lt x b = false → f b ≤ f x) {l : List α} {a : α}
    (h : minElement lt l = some a) : ∀ x ∈ l, f a ≤ f x := by
  have htrue' : ∀ x b, lt x b = true → f x ≤ f b + 0 := by simpa using htrue
  have hfalse' : ∀ x b, lt x b = false → f b ≤ f x + 0 := by simpa using hfalse
  simpa using minElement_le_add le_rfl htrue' hfalse' h

end Tolerance
