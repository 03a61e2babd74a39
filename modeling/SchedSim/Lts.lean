import Mathlib.Algebra.Group.Nat.Defs
import Mathlib.Data.Nat.Basic
import Mathlib.Order.RelClasses
import Mathlib.Tactic.TypeStar

/-!
# Runs of a labelled transition system

A small general theory of finite runs, over arbitrary states and labels.  The
label of a step is whatever the environment chose (an event, a message, a
thread), so a statement about every run is a statement about every order in
which things may happen.

* `Run step s es t` — from `s` the labels `es` lead to `t`.
* `Reachable.induction` — what every step keeps, every run from an initial state
  keeps; a step may assume that it starts in a reachable state, which is how
  invariants are stacked.
* `Reachable.of_turns` — a loop goes through a run.
* `Run.simulate`, `Run.simulate_rel` — a simulation step by step carries runs over.
* `Recorded` — the system with a record beside it that it does not look at; every
  run can be recorded.
* `Run.project` — a run of a composite system, projected to its components.
* `Run.length_add_measure_le` — a natural-number measure that drops at every
  step bounds the length of every run.
* `Run.times_sorted` — a clock that never goes back gives sorted time stamps.
-/

namespace Lts

variable {σ ε : Type*}

/-- `Run step s es t` : taking the steps labelled `es`, in this order, leads
from `s` to `t`. -/
inductive Run (step : σ → ε → σ → Prop) : σ → List ε → σ → Prop
  | nil (s : σ) : Run step s [] s
  | snoc {s t u : σ} {es : List ε} {e : ε} :
      Run step s es t → step t e u → Run step s (es ++ [e]) u

/-- A state some run from `init` leads to. -/
def Reachable (step : σ → ε → σ → Prop) (init s : σ) : Prop := ∃ es, Run step init es s

variable {step : σ → ε → σ → Prop} {init s t u : σ} {es es' : List ε} {e : ε}

/-! ## Composing runs -/

theorem Run.single (h : step s e t) : Run step s [e] t := (Run.nil s).snoc h

theorem Run.trans (h₁ : Run step s es t) (h₂ : Run step t es' u) : Run step s (es ++ es') u := by
  induction h₂ with
  | nil => simpa using h₁
  | snoc _ hstep ih =>
    rw [← List.append_assoc]
    exact ih.snoc hstep

theorem Run.reachable (h : Run step init es s) : Reachable step init s := ⟨es, h⟩

theorem Reachable.refl : Reachable step init init := ⟨[], .nil init⟩

theorem Reachable.run (h : Reachable step init s) (hrun : Run step s es t) :
    Reachable step init t := by
  obtain ⟨ds, hs⟩ := h
  exact ⟨ds ++ es, hs.trans hrun⟩

theorem Reachable.tail (h : Reachable step init s) (hstep : step s e t) :
    Reachable step init t := h.run (Run.single hstep)

/-- The last step of a run. -/
theorem Run.snoc_inv (h : Run step s (es ++ [e]) u) : ∃ t, Run step s es t ∧ step t e u := by
  generalize hl : es ++ [e] = ls at h
  cases h with
  | nil => simp at hl
  | snoc h he =>
    obtain ⟨rfl, hlast⟩ := List.append_inj' hl rfl
    obtain rfl := List.singleton_inj.1 hlast
    exact ⟨_, h, he⟩

/-- Where a part of the label decides the rest of it and the step, it decides the run. -/
theorem Run.unique {α : Type*} {f : ε → α} {t' : σ}
    (hstep : ∀ s e e' t t', f e = f e' → step s e t → step s e' t' → e = e' ∧ t = t')
    (h : Run step s es t) (h' : Run step s es' t') (hmap : es.map f = es'.map f) :
    es = es' ∧ t = t' := by
  induction h generalizing es' t' with
  | nil =>
    obtain rfl := List.map_eq_nil_iff.1 hmap.symm
    generalize hl : [] = ls at h'
    cases h' with
    | nil => exact ⟨rfl, rfl⟩
    | snoc => simp at hl
  | @snoc t u es e _ he ih =>
    rw [List.map_append, List.map_singleton] at hmap
    obtain ⟨ds, last, rfl, hds, hlast⟩ := List.map_eq_append_iff.1 hmap.symm
    obtain ⟨d, rfl, hd⟩ := List.map_eq_singleton_iff.1 hlast
    obtain ⟨t'', hrun, hd'⟩ := h'.snoc_inv
    obtain ⟨rfl, rfl⟩ := ih hrun hds.symm
    obtain ⟨rfl, rfl⟩ := hstep _ _ _ _ _ hd.symm he hd'
    exact ⟨rfl, rfl⟩

/-! ## Invariants -/

/-- To show an invariant of all reachable states it is enough that it holds
initially and that a step out of a *reachable* state keeps it. -/
theorem Reachable.induction {I : σ → Prop} (hinit : I init)
    (hstep : ∀ s e t, Reachable step init s → I s → step s e t → I t)
    (h : Reachable step init s) : I s := by
  obtain ⟨es, hrun⟩ := h
  induction hrun with
  | nil => exact hinit
  | snoc hr he ih => exact hstep _ _ _ hr.reachable ih he

/-- The same for what happens between a reachable state and a later one. -/
theorem Run.induction_of_reachable {I : σ → Prop} (hr : Reachable step init s) (hs : I s)
    (hstep : ∀ t e u, Reachable step init t → I t → step t e u → I u)
    (h : Run step s es t) : I t := by
  induction h with
  | nil => exact hs
  | snoc h' he ih => exact hstep _ _ _ (hr.run h') ih he

/-! ## Loops -/

/-- A loop that stops or takes a step goes through a run. -/
theorem Reachable.of_turns {next : σ → ε → σ → Prop} {turns : ℕ → σ → σ}
    (hzero : ∀ s, turns 0 s = s)
    (hsucc : ∀ s, (∀ k, turns (k + 1) s = s) ∨
      ∃ e t, next s e t ∧ ∀ k, turns (k + 1) s = turns k t)
    (k : ℕ) (s : σ) (h : ∀ i < k, ∀ e t, next (turns i s) e t → step (turns i s) e t) :
    Reachable step s (turns k s) := by
  induction k generalizing s with
  | zero =>
    rw [hzero]
    exact Reachable.refl
  | succ k ih =>
    rcases hsucc s with hstop | ⟨e, t, hnext, hturn⟩
    · rw [hstop]
      exact Reachable.refl
    · rw [hturn k]
      have hfirst : step s e t := by
        have := h 0 (Nat.succ_pos k) e t
        rw [hzero] at this
        exact this hnext
      have hlater := fun i hi => h (i + 1) (Nat.succ_lt_succ hi)
      simp only [hturn] at hlater
      obtain ⟨es, hrun⟩ := ih t hlater
      exact ((Run.single hfirst).trans hrun).reachable

/-! ## Simulation -/

/-- If every step can be taken by another system, so can every run. -/
theorem Run.simulate {σ' : Type*} {r : σ' → ε → σ' → Prop} {f : σ → σ'}
    (hstep : ∀ s e t, step s e t → r (f s) e (f t)) (h : Run step s es t) :
    Run r (f s) es (f t) := by
  induction h with
  | nil => exact Run.nil _
  | snoc _ he ih => exact ih.snoc (hstep _ _ _ he)

theorem Reachable.simulate {σ' : Type*} {r : σ' → ε → σ' → Prop} {f : σ → σ'}
    (hstep : ∀ s e t, step s e t → r (f s) e (f t)) (h : Reachable step init s) :
    Reachable r (f init) (f s) := by
  obtain ⟨es, hrun⟩ := h
  exact (hrun.simulate hstep).reachable

/-- A relation between the states that every step can be answered under carries runs over. -/
theorem Run.simulate_rel {σ' : Type*} {r : σ' → ε → σ' → Prop} {R : σ → σ' → Prop} {s' : σ'}
    (hstep : ∀ s e t s', R s s' → step s e t → ∃ t', r s' e t' ∧ R t t')
    (h : Run step s es t) (hs : R s s') : ∃ t', Run r s' es t' ∧ R t t' := by
  induction h with
  | nil => exact ⟨s', Run.nil s', hs⟩
  | snoc _ he ih =>
    obtain ⟨t', hrun, hR⟩ := ih
    obtain ⟨u', hu, hR'⟩ := hstep _ _ _ _ hR he
    exact ⟨u', hrun.snoc hu, hR'⟩

/-- A run out of a reachable state is a run of any relation that agrees with the
steps out of reachable states. -/
theorem Run.restrict {r : σ → ε → σ → Prop} (hr : Reachable step init s)
    (hstep : ∀ t e u, Reachable step init t → step t e u → r t e u) (h : Run step s es t) :
    Run r s es t := by
  induction h with
  | nil => exact Run.nil _
  | snoc h' he ih => exact ih.snoc (hstep _ _ _ (hr.run h') he)

/-! ## Recording -/

/-- The system that keeps a record beside its state: `record` brings it up to date
before each step. -/
def Recorded {ρ : Type*} (step : σ → ε → σ → Prop) (record : σ → ε → ρ → ρ) (a : σ × ρ) (e : ε)
    (b : σ × ρ) : Prop := step a.1 e b.1 ∧ b.2 = record a.1 e a.2

variable {ρ : Type*} {record : σ → ε → ρ → ρ} {a b : σ × ρ}

/-- Recording changes nothing. -/
theorem Reachable.of_recorded (h : Reachable (Recorded step record) a b) :
    Reachable step a.1 b.1 := h.simulate (f := Prod.fst) fun _ _ _ hstep => hstep.1

/-- Every run can be recorded. -/
theorem Reachable.recorded (record : σ → ε → ρ → ρ) (r : ρ) (h : Reachable step init s) :
    ∃ r', Reachable (Recorded step record) (init, r) (s, r') := by
  refine h.induction (I := fun s => ∃ r', Reachable (Recorded step record) (init, r) (s, r'))
    ⟨r, .refl⟩ ?_
  intro s e t _ ih hstep
  obtain ⟨r', hr'⟩ := ih
  exact ⟨record s e r', hr'.tail (t := (t, record s e r')) ⟨hstep, rfl⟩⟩

/-- A function of the state that every step changes like the record is what is recorded. -/
theorem Reachable.record_eq {f : σ → ρ}
    (hstep : ∀ s e t, Reachable step a.1 s → step s e t → f t = record s e (f s))
    (hinit : a.2 = f a.1) (h : Reachable (Recorded step record) a b) : b.2 = f b.1 := by
  refine h.induction (I := fun b => b.2 = f b.1) hinit ?_
  intro s e t hs ih ht
  rw [ht.2, ih, hstep s.1 e t.1 hs.of_recorded ht.1]

/-- A simulation takes the record along. -/
theorem Reachable.simulate_recorded {σ' : Type*} {r : σ' → ε → σ' → Prop} {g : σ → σ'}
    {record' : σ' → ε → ρ → ρ} (hstep : ∀ s e t, step s e t → r (g s) e (g t))
    (hrecord : ∀ s e x, record s e x = record' (g s) e x)
    (h : Reachable (Recorded step record) a b) :
    Reachable (Recorded r record') (g a.1, a.2) (g b.1, b.2) :=
  h.simulate (f := fun x : σ × ρ => (g x.1, x.2)) fun _ _ _ ht =>
    ⟨hstep _ _ _ ht.1, ht.2.trans (hrecord _ _ _)⟩

/-! ## Components -/

/-- A run of a composite system whose labels say which component acts.  If each
step is a step of the acting component, under a relation that it keeps between the
system and the states of all components, then each component has run through its
own labels, in their order. -/
theorem Run.project {ι σ' ε' : Type*} [DecidableEq ι] {step : σ → ε × ι → σ → Prop}
    {k : σ' → ε' → σ' → Prop} {R : σ → (ι → σ') → Prop} (f : ε → ε')
    {P : ε × ι → Prop} {ls : List (ε × ι)} {v : ι → σ'}
    (hstep : ∀ s l s' v, P l → R s v → step s l s' →
      ∃ u, k (v l.2) (f l.1) u ∧ R s' (Function.update v l.2 u))
    (h : Run step s ls t) (hP : ∀ l ∈ ls, P l) (hR : R s v) :
    ∃ v', (∀ i, Run k (v i) ((ls.filter fun l => l.2 = i).map fun l => f l.1) (v' i)) ∧
      R t v' := by
  induction h with
  | nil => exact ⟨v, fun i => .nil (v i), hR⟩
  | @snoc t u ls l _ he ih =>
    obtain ⟨v', hruns, hR'⟩ := ih fun l hl => hP l (List.mem_append_left _ hl)
    obtain ⟨w, hw, hRw⟩ := hstep t l u v' (hP l (by simp)) hR' he
    refine ⟨Function.update v' l.2 w, fun i => ?_, hRw⟩
    rw [List.filter_append, List.map_append]
    by_cases hi : l.2 = i
    · subst hi
      rw [Function.update_self]
      simpa using (hruns l.2).snoc hw
    · rw [Function.update_of_ne (Ne.symm hi)]
      simpa [hi] using hruns i

/-! ## Termination -/

/-- A measure `f` every step lowers bounds the number of steps of a run. -/
theorem Run.length_add_measure_le {I : σ → Prop} {f : σ → ℕ}
    (hstep : ∀ s e t, I s → step s e t → I t ∧ f t < f s)
    (h : Run step s es t) (hs : I s) : I t ∧ es.length + f t ≤ f s := by
  induction h with
  | nil => exact ⟨hs, by simp⟩
  | snoc _ he ih =>
    obtain ⟨hI, hle⟩ := ih
    obtain ⟨hI', hlt⟩ := hstep _ _ _ hI he
    refine ⟨hI', ?_⟩
    simp only [List.length_append, List.length_singleton]
    omega

/-! ## Time stamps -/

/-- If every step is stamped by `g` with a time between the clock `f` before it
and the clock after it, then the stamps of a run are sorted. -/
theorem Run.times_sorted {α : Type*} [Preorder α] {I : σ → Prop} {f : σ → α} {g : ε → α}
    (hstep : ∀ s e t, I s → step s e t → I t ∧ f s ≤ g e ∧ g e ≤ f t)
    (h : Run step s es t) (hs : I s) :
    I t ∧ (∀ e ∈ es, g e ≤ f t) ∧ (es.map g).Pairwise (· ≤ ·) := by
  induction h with
  | nil => exact ⟨hs, by simp, by simp⟩
  | snoc _ he ih =>
    obtain ⟨hI, hle, hsorted⟩ := ih
    obtain ⟨hI', hlow, hhigh⟩ := hstep _ _ _ hI he
    have hbefore : ∀ a ∈ _, g a ≤ g _ := fun a ha => (hle a ha).trans hlow
    refine ⟨hI', ?_, ?_⟩
    · intro a ha
      rcases List.mem_append.1 ha with ha | ha
      · exact (hbefore a ha).trans hhigh
      · rw [List.mem_singleton.1 ha]
        exact hhigh
    · rw [List.map_append, List.pairwise_append]
      refine ⟨hsorted, by simp, ?_⟩
      intro x hx y hy
      obtain ⟨a, ha, rfl⟩ := List.mem_map.1 hx
      obtain ⟨b, hb, rfl⟩ := List.mem_map.1 hy
      rw [List.mem_singleton.1 hb]
      exact hbefore a ha

end Lts
