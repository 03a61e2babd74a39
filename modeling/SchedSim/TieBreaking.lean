import SchedSim.Schedulers.CFS

/-!
# How CFS breaks ties

`cfs_comparator` takes virtual runtimes for equal when they are closer than the tolerance,
and compares ids then.  Near-equality is not transitive, so on a chain of close runtimes the
comparator can run in a circle, while `std::min_element` relies on an order.

* `CFSScheduler.PicksMinimum` — no ready task is ranked before the one that is picked, and it
  is the same one for every order of the queue.
* `CFSScheduler.HasMinimum` — some task within the tolerance of the least runtime has the
  lowest id of all that are close to it.
* `CFSScheduler.picksMinimum_iff` — the first holds exactly when the second does.
* `CFSScheduler.picksMinimum_circle` — three tasks that are ranked in a circle.
-/

namespace SchedSim

namespace CFSScheduler

/-- No ready task is ranked strictly before the one that is picked, and the pick does not
depend on the order of the queue. -/
def PicksMinimum (s : CFSScheduler) (h : Heap) : Prop :=
  (∃ best, (s.schedule h).task = some best ∧
    ∀ p ∈ s.readyQueue, cfsComparator h p best = false) ∧
  ∀ queue : List TaskPtr, queue.Perm s.readyQueue →
    ({ s with readyQueue := queue }.schedule h).task = (s.schedule h).task

/-- Some ready task lies within the tolerance of the least virtual runtime, and no task that
is at most the tolerance above it has a lower id. -/
def HasMinimum (s : CFSScheduler) (h : Heap) : Prop :=
  ∃ best ∈ s.readyQueue,
    (∀ p ∈ s.readyQueue, (h best).vruntime ≤ (h p).vruntime + tolerance) ∧
    ∀ p ∈ s.readyQueue, (h p).vruntime ≤ (h best).vruntime + tolerance → (h best).id ≤ (h p).id

variable {s : CFSScheduler} {h : Heap} {p best : TaskPtr}

/-- What it takes not to be ranked before another task. -/
theorem cfsComparator_eq_false : cfsComparator h p best = false ↔
    (h best).vruntime ≤ (h p).vruntime + tolerance ∧
      ((h p).vruntime ≤ (h best).vruntime + tolerance → (h best).id ≤ (h p).id) := by
  have htol : (0 : ℚ) < tolerance := by norm_num [tolerance]
  rw [cfsComparator]
  split
  next hfar =>
    rw [decide_eq_false_iff_not, not_lt]
    rcases lt_abs.1 hfar with hlt | hlt
    · exact ⟨fun hle => ⟨by linarith, fun hclose => absurd hclose (by linarith)⟩,
        fun _ => by linarith⟩
    · exact ⟨fun hle => absurd hle (by linarith), fun hle => absurd hle.1 (by linarith)⟩
  next hclose =>
    rw [not_lt, abs_le] at hclose
    rw [decide_eq_false_iff_not, UInt32.not_lt]
    exact ⟨fun hid => ⟨by linarith, fun _ => hid⟩, fun hid => hid.2 (by linarith)⟩

/-- Two tasks with different ids are ranked one way or the other. -/
theorem cfsComparator_total (hid : (h p).id ≠ (h best).id) (hp : cfsComparator h p best = false) :
    cfsComparator h best p = true := by
  by_contra hne
  rw [Bool.not_eq_true, cfsComparator_eq_false] at hne
  obtain ⟨hle, hlow⟩ := cfsComparator_eq_false.1 hp
  exact hid (UInt32.le_antisymm (hne.2 hle) (hlow hne.1))

/-- **CFS picks a minimum exactly when there is one.** -/
theorem picksMinimum_iff (s : CFSScheduler) (h : Heap)
    (hids : (s.readyQueue.map fun p => (h p).id).Nodup) : s.PicksMinimum h ↔ s.HasMinimum h := by
  constructor
  · rintro ⟨⟨best, hbest, hfirst⟩, -⟩
    rw [schedule_task] at hbest
    exact ⟨best, minElement_mem hbest, fun p hp => (cfsComparator_eq_false.1 (hfirst p hp)).1,
      fun p hp => (cfsComparator_eq_false.1 (hfirst p hp)).2⟩
  · rintro ⟨best, hmem, hleast, hlow⟩
    have hfirst : ∀ p ∈ s.readyQueue, cfsComparator h p best = false := fun p hp =>
      cfsComparator_eq_false.2 ⟨hleast p hp, hlow p hp⟩
    have hwins : ∀ p ∈ s.readyQueue, p ≠ best →
        cfsComparator h best p = true ∧ cfsComparator h p best = false := by
      intro p hp hpb
      refine ⟨cfsComparator_total (fun hid => hpb ?_) (hfirst p hp), hfirst p hp⟩
      exact List.inj_on_of_nodup_map hids hp hmem hid
    -- the minimum is ranked before every other task, so every scan ends with it
    have hpick : ∀ queue : List TaskPtr, queue.Perm s.readyQueue →
        ({ s with readyQueue := queue }.schedule h).task = some best := by
      intro queue hperm
      rw [schedule_task]
      exact minElement_of_wins (hperm.mem_iff.2 hmem) fun p hp => hwins p (hperm.mem_iff.1 hp)
    have hself := hpick s.readyQueue (List.Perm.refl _)
    exact ⟨⟨best, hself, hfirst⟩, fun queue hperm => (hpick queue hperm).trans hself.symm⟩

/-- Two tasks with equal runtimes: the lower id is picked from either order. -/
theorem picksMinimum_iff_pair :
    let h : Heap := fun p => { Task.new ⟨.ofNat p, 0, 10, 0⟩ with vruntime := 7 }
    let s : CFSScheduler := ⟨{}, [1, 0], 0⟩
    s.HasMinimum h ∧ s.PicksMinimum h := by
  intro h s
  have hmin : s.HasMinimum h := ⟨0, by decide, by decide +kernel, by decide +kernel⟩
  exact ⟨hmin, (picksMinimum_iff s h (by decide)).2 hmin⟩

/-- **There need not be one.**  The runtimes of tasks 0, 1 and 2 go down in steps that are
below the tolerance, but from 0 to 2 it is more than that: 0 is ranked before 1, 1 before 2
and 2 before 0. -/
theorem picksMinimum_circle :
    ¬ ∀ (s : CFSScheduler) (h : Heap), s.readyQueue ≠ [] →
      (s.readyQueue.map fun p => (h p).id).Nodup → s.PicksMinimum h := by
  intro hall
  have := hall ⟨{}, [0, 1, 2], 0⟩
    (fun p => { Task.new ⟨.ofNat p, 0, 10, 0⟩ with vruntime := (16 - 8 * p) / 10 ^ 10 })
    (by decide) (by decide)
  obtain ⟨best, hbest, hfirst⟩ := this.1
  have hpick : best = 2 := by
    have : some best = some 2 := hbest.symm.trans (by decide +kernel)
    exact Option.some.inj this
  subst hpick
  exact absurd (hfirst 1 (by decide)) (by decide +kernel)

end CFSScheduler

end SchedSim
