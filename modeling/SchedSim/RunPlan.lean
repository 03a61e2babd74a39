import SchedSim.RunSuite

/-!
# Planning the runs of a suite

What the check of a suite document promises about its explicit runs, what one iteration of the
planning loop does, and what holds of the plan after any number of them.

* `validRun_of_validateSuite` : every explicit run of an accepted suite has its fields.
* `planRun_spec` : an iteration adds the run to the case of its key, or plans a new case.
* `EntryFor.key_eq` : a run is executed with the parameters of the first run of its key.
-/

namespace SchedSim

namespace RunSuite

open Py

variable {py : Builtins} {registry : BenchmarkPluginRegistry}

/-! ## Accepted documents -/

theorem Json_get_dict {fields : List (String × Json)} {key : String} {default : Json} :
    (Json.dict fields).get key default = .ok ((fields.lookup key).getD default) := rfl

/-- The fields an accepted explicit run has. -/
structure ValidRun (py : Builtins) (run : Json) : Prop where
  isDict : ∃ fields, run = .dict fields
  cores : ∃ v n, run.item "cores" = .ok v ∧ py.int v = .ok n ∧ 1 ≤ n
  numTasks : ∃ v n, run.item "num_tasks" = .ok v ∧ py.int v = .ok n ∧ 1 ≤ n
  stopTime : ∃ v x, run.item "stop_time" = .ok v ∧ py.float v = .ok x ∧ x.nonpos = false
  topology : ∃ s, run.item "topology" = .ok (.str s) ∧ CStrings.toLower s ∈ validTopologies
  balancer : ∀ s, run.item "topology" = .ok (.str s) → CStrings.toLower s = "mq" →
    ∃ b, run.item "balancer" = .ok (.str b) ∧ CStrings.toLower b ∈ validBalancers

/-- A value that passes a check its default would fail is there. -/
theorem item_of_get {run v default : Json} {key : String} (h : run.get key default = .ok v)
    (hne : v ≠ default) : run.item key = .ok v := by
  cases run with
  | dict fields =>
    rw [Json_get_dict, Except.ok.injEq] at h
    cases hv : fields.lookup key with
    | none =>
      rw [hv] at h
      exact absurd h.symm hne
    | some w =>
      rw [hv] at h
      simp only [Json.item, hv]
      rw [← h]
      rfl
  | _ => simp [Json.get] at h

theorem get_of_item {run v default : Json} {key : String} (h : run.item key = .ok v) :
    run.get key default = .ok v := by
  cases run with
  | dict fields =>
    simp only [Json.item] at h
    cases hv : fields.lookup key with
    | none => simp [hv] at h
    | some w =>
      rw [hv] at h
      rw [Json_get_dict, hv]
      exact h
  | _ => simp [Json.item] at h

theorem plain_of_mem {name : String} (h : name ∈ validTopologies ++ validBalancers) :
    isPlainName name = true := by
  have hall : ∀ name ∈ validTopologies ++ validBalancers, isPlainName name = true := by
    decide +kernel
  exact hall name h

/-- Only a string passes a check of its letters. -/
theorem str_of_lower_mem {v : Json} {names : List String}
    (hsub : names ⊆ validTopologies ++ validBalancers) (h : py.lower (py.str v) ∈ names) :
    ∃ s, v = .str s ∧ CStrings.toLower s ∈ names := by
  obtain ⟨s, rfl, hs⟩ := (py.lower_str_eq v _ (plain_of_mem (hsub h))).1 rfl
  exact ⟨s, rfl, hs ▸ h⟩

/-- The letters of a name are the ones the C library gives. -/
theorem lower_str_of_mem {s : String} (h : CStrings.toLower s ∈ validTopologies ++ validBalancers) :
    py.lower (py.str (.str s)) = CStrings.toLower s :=
  (py.lower_str_eq _ _ (plain_of_mem h)).2 ⟨s, rfl, rfl⟩

theorem validRun_of_validateRun {place : String} {run : Json} {u : Unit}
    (h : validateRun py registry place run = .ok u) : ValidRun py run := by
  unfold validateRun at h
  simp only [bind_eq_ok, failIf_eq_ok, exists_const] at h
  obtain ⟨workload, hworkload, _, -, -, vcores, hvcores, cores, hcores, hcores1, vtasks, hvtasks,
    tasks, htasks, htasks1, vstop, hvstop, stop, hstop, hpos, vtop, hvtop, hvalid, _, hbal,
    -⟩ := h
  have hdict : ∃ fields, run = .dict fields := by
    cases run <;> simp [Json.get] at hworkload ⊢
  obtain ⟨s, rfl, hs⟩ := str_of_lower_mem (List.subset_append_left _ _) (not_not.1 hvalid)
  have hlower : py.lower (py.str (.str s)) = CStrings.toLower s :=
    lower_str_of_mem (List.mem_append_left _ hs)
  have hitem : run.item "topology" = .ok (.str s) :=
    item_of_get hvtop (by rintro ⟨⟩; revert hs; decide +kernel)
  refine ⟨hdict, ⟨vcores, cores, item_of_get hvcores ?_, hcores, not_lt.1 hcores1⟩,
    ⟨vtasks, tasks, item_of_get hvtasks ?_, htasks, not_lt.1 htasks1⟩,
    ⟨vstop, stop, item_of_get hvstop ?_, hstop, by simpa using hpos⟩, ⟨s, hitem, hs⟩, ?_⟩
  · rintro rfl
    simp [Builtins.int] at hcores
    omega
  · rintro rfl
    simp [Builtins.int] at htasks
    omega
  · rintro rfl
    obtain rfl : Double.ofRat 0 = stop := by simpa [Builtins.float] using hstop
    exact hpos Double.nonpos_ofRat_zero
  · intro s' hs' hmq
    obtain rfl : s = s' := by simpa using hitem.symm.trans hs'
    rw [hlower, if_pos hmq] at hbal
    simp only [validateBalancer, bind_eq_ok, failIf_eq_ok] at hbal
    obtain ⟨vbal, hvbal, hmem⟩ := hbal
    obtain ⟨b, rfl, hb⟩ := str_of_lower_mem (List.subset_append_right _ _) (not_not.1 hmem)
    exact ⟨b, item_of_get hvbal (by rintro ⟨⟩; revert hb; decide +kernel), hb⟩

/-- The explicit runs of the experiments, in the order in which they are planned. -/
def plannedRuns (selected : List Json) : Py (List PlannedRun) := do
  let runs ← selected.mapM experimentRuns
  return runs.flatten

theorem validRun_of_validateExperiment {exp : Json} {planned : PlannedRun}
    {runs : List PlannedRun} {u : Unit} (h : validateExperiment py registry exp = .ok u)
    (hruns : experimentRuns exp = .ok runs) (hmem : planned ∈ runs) : ValidRun py planned.run := by
  simp only [validateExperiment, bind_eq_ok, failIf_eq_ok, exists_const, forM_eq_ok] at h
  simp only [experimentRuns, bind_eq_ok, pure_eq_ok] at hruns
  obtain ⟨expId, -, -, v, hv, -, items, hitems, hall⟩ := h
  obtain ⟨id, -, v', hv', items', hitems', rfl⟩ := hruns
  obtain rfl : v = v' := by simpa using hv.symm.trans hv'
  obtain rfl : items = items' := by simpa using hitems.symm.trans hitems'
  obtain ⟨⟨run, n⟩, hrun, rfl⟩ := List.mem_map.1 hmem
  obtain ⟨i, hi⟩ := List.mem_iff_getElem?.1 (List.fst_mem_of_mem_zipIdx hrun)
  exact validRun_of_validateRun (hall (run, i) (List.mk_mem_zipIdx_iff_getElem?.2 hi))

/-- Every explicit run of an accepted suite has its fields. -/
theorem validRun_of_validateSuite {suite : Json} {experiments selected : List Json}
    {runs : List PlannedRun} {planned : PlannedRun} {u : Unit}
    (h : validateSuite py registry suite = .ok u)
    (hexp : suite.item "experiments" = .ok (.list experiments)) (hsel : selected ⊆ experiments)
    (hruns : plannedRuns selected = .ok runs) (hmem : planned ∈ runs) :
    ValidRun py planned.run := by
  simp only [validateSuite, bind_eq_ok, failIf_eq_ok, exists_const, forM_eq_ok] at h
  obtain ⟨-, _, -, -, v, hv, -, _, -, _, -, items, hitems, _, -, hall, -⟩ := h
  obtain rfl : Json.list experiments = v := by simpa using hexp.symm.trans hv
  obtain rfl : experiments = items := by simpa [Json.iterate] using hitems
  simp only [plannedRuns, bind_eq_ok, pure_eq_ok] at hruns
  obtain ⟨lists, hlists, rfl⟩ := hruns
  obtain ⟨list, hlist, hplanned⟩ := List.mem_flatten.1 hmem
  obtain ⟨exp, hexp, hexpruns⟩ := exists_of_mapM hlists hlist
  exact validRun_of_validateExperiment (hall exp (hsel hexp)) hexpruns hplanned

/-! ## One iteration -/

variable {args : PlanArgs}

/-- A run as a key of the map that finds repeated runs -/
def hashOf (py : Builtins) (registry : BenchmarkPluginRegistry) (args : PlanArgs)
    (planned : PlannedRun) : Option HashedKey :=
  (keyOf py registry args planned >>= RunKey.hash).toOption

theorem hashOf_eq_some {planned : PlannedRun} {hash : HashedKey} :
    hashOf py registry args planned = some hash ↔
      ∃ key, keyOf py registry args planned = .ok key ∧ key.hash = .ok hash := by
  rw [hashOf, ← bind_eq_ok]
  cases keyOf py registry args planned >>= RunKey.hash <;> simp [Except.toOption]

/-- What every case of the plan has: a suite id that is a string and a whole stop time. -/
structure Planned (args : PlanArgs) (e : Entry) : Prop where
  suiteId : ∃ s, args.suite.item "suite_id" = .ok (.str s)
  stop : ∃ n, Builtins.intOfFloat e.stopTime = .ok n

theorem newEntry_spec {caseIndex : ℕ} {planned : PlannedRun} {key : RunKey}
    {workload scheduler : Plugin} {e : Entry}
    (h : newEntry py args caseIndex planned key workload scheduler = .ok e) :
    e.caseIndex = caseIndex ∧ e.experiments = [planned.expId] ∧ e.key = key ∧ Planned args e := by
  simp only [newEntry, bind_eq_ok, pure_eq_ok] at h
  obtain ⟨stop, hstop, suiteId, hsuite, rfl⟩ := h
  refine ⟨rfl, rfl, rfl, ⟨?_, ⟨stop, hstop⟩⟩⟩
  simp only [RunSuite.suiteId, bind_eq_ok] at hsuite
  obtain ⟨v, hv, hstr⟩ := hsuite
  cases v with
  | str s => exact ⟨s, hv⟩
  | _ => simp at hstr

/-- The two outcomes of an iteration: the run joins the case of its key, or gets a new one. -/
inductive PlanStep (args : PlanArgs) (s : PlanState) (planned : PlannedRun) (key : RunKey)
    (hash : HashedKey) : PlanState → Prop
  | shared {caseIndex : ℕ} (hdedupe : args.dedupe = true)
      (hfound : s.dedupMap.lookup hash = some caseIndex) :
      PlanStep args s planned key hash
        { s with plan := s.plan.map (addExperiment caseIndex planned.expId) }
  | fresh {e : Entry} (hnew : args.dedupe = true → s.dedupMap.lookup hash = none)
      (hcase : e.caseIndex = s.caseIndex + 1) (hexp : e.experiments = [planned.expId])
      (hkey : e.key = key) (hplanned : Planned args e) :
      PlanStep args s planned key hash
        { plan := s.plan ++ [e], dedupMap := (hash, s.caseIndex + 1) :: s.dedupMap,
          caseIndex := s.caseIndex + 1 }

theorem planRun_spec {s s' : PlanState} {planned : PlannedRun}
    (h : planRun py registry args s planned = .ok s') :
    ∃ key hash, keyOf py registry args planned = .ok key ∧ key.hash = .ok hash ∧
      PlanStep args s planned key hash s' := by
  unfold planRun at h
  simp only [bind_eq_ok] at h
  obtain ⟨⟨scheduler, workload⟩, hplugins, key, hkey, hash, hhash, h⟩ := h
  refine ⟨key, hash, ?_, hhash, ?_⟩
  · simp only [keyOf, bind_eq_ok]
    exact ⟨(scheduler, workload), hplugins, hkey⟩
  · split at h
    · rename_i caseIndex hfound
      obtain rfl := pure_eq_ok.1 h
      obtain ⟨hdedupe, hfound⟩ : args.dedupe = true ∧ s.dedupMap.lookup hash = some caseIndex := by
        simpa using hfound
      exact .shared hdedupe hfound
    · rename_i hnone
      simp only [bind_eq_ok, pure_eq_ok] at h
      obtain ⟨e, he, rfl⟩ := h
      obtain ⟨hcase, hexp, hkey, hplanned⟩ := newEntry_spec he
      exact .fresh (fun hdedupe => by simpa [hdedupe] using hnone) hcase hexp hkey hplanned

/-! ## Any number of iterations -/

/-- The cases of a plan: their indices and their parameters -/
def PlanState.outline (s : PlanState) : List (ℕ × RunKey) :=
  s.plan.map fun e => (e.caseIndex, e.key)

@[simp] theorem addExperiment_caseIndex (c : ℕ) (expId : Json) (e : Entry) :
    (addExperiment c expId e).caseIndex = e.caseIndex := by
  unfold addExperiment
  split <;> rfl

@[simp] theorem addExperiment_key (c : ℕ) (expId : Json) (e : Entry) :
    (addExperiment c expId e).key = e.key := by
  unfold addExperiment
  split <;> rfl

@[simp] theorem addExperiment_stopTime (c : ℕ) (expId : Json) (e : Entry) :
    (addExperiment c expId e).stopTime = e.stopTime := by
  unfold addExperiment
  split <;> rfl

/-- A case keeps its index and its parameters. -/
theorem PlanStep.outline_isPrefix {s s' : PlanState} {planned : PlannedRun} {key : RunKey}
    {hash : HashedKey} (h : PlanStep args s planned key hash s') : s.outline <+: s'.outline := by
  cases h with
  | shared hdedupe hfound => simp [PlanState.outline, Function.comp_def]
  | fresh hnew hcase hexp hkey hplanned => simp [PlanState.outline]

theorem outline_prefix_of_foldlM {runs : List PlannedRun} {s s' : PlanState}
    (h : runs.foldlM (planRun py registry args) s = .ok s') : s.outline <+: s'.outline := by
  induction runs generalizing s with
  | nil =>
    rw [List.foldlM_nil, pure_eq_ok] at h
    rw [h]
  | cons planned runs ih =>
    rw [List.foldlM_cons, bind_eq_ok] at h
    obtain ⟨s₁, hstep, hrest⟩ := h
    obtain ⟨key, hash, -, -, hstep⟩ := planRun_spec hstep
    exact hstep.outline_isPrefix.trans (ih hrest)

/-- The run a key leads to: with de-duplication the first run of the key. -/
def IsFirst (py : Builtins) (registry : BenchmarkPluginRegistry) (args : PlanArgs)
    (runs : List PlannedRun) (hash : HashedKey) (first : PlannedRun) : Prop :=
  runs.find? (fun planned => hashOf py registry args planned = some hash) = some first

theorem IsFirst.append {runs more : List PlannedRun} {hash : HashedKey} {first : PlannedRun}
    (h : IsFirst py registry args runs hash first) :
    IsFirst py registry args (runs ++ more) hash first := by
  rw [IsFirst, List.find?_append, h]
  rfl

/-- What holds of the plan of some runs: the cases are numbered from one, and the map leads from
the key of each run to a case with its parameters, with de-duplication those of the first run of
the key. -/
structure Describes (py : Builtins) (registry : BenchmarkPluginRegistry) (args : PlanArgs)
    (runs : List PlannedRun) (s : PlanState) : Prop where
  indices : s.plan.map Entry.caseIndex = List.range' 1 s.caseIndex
  planned : ∀ e ∈ s.plan, Planned args e
  found : ∀ hash c, s.dedupMap.lookup hash = some c →
    ∃ first key, (args.dedupe = true → IsFirst py registry args runs hash first) ∧
      keyOf py registry args first = .ok key ∧ (c, key) ∈ s.outline
  missing : ∀ hash, s.dedupMap.lookup hash = none →
    ∀ planned ∈ runs, hashOf py registry args planned ≠ some hash

theorem describes_init : Describes py registry args [] {} where
  indices := rfl
  planned := by simp
  found := by simp
  missing := by simp

/-- One iteration keeps the description. -/
theorem Describes.step {runs : List PlannedRun} {s s' : PlanState} {planned : PlannedRun}
    (hs : Describes py registry args runs s) (h : planRun py registry args s planned = .ok s') :
    Describes py registry args (runs ++ [planned]) s' := by
  obtain ⟨key, hash, hkey, hhash, hstep⟩ := planRun_spec h
  have hof : hashOf py registry args planned = some hash := hashOf_eq_some.2 ⟨key, hkey, hhash⟩
  have hout := hstep.outline_isPrefix
  cases hstep with
  | shared hdedupe hfound =>
    refine ⟨?_, ?_, ?_, ?_⟩
    · simpa [Function.comp_def] using hs.indices
    · intro e' he'
      obtain ⟨e, he, rfl⟩ := List.mem_map.1 he'
      obtain ⟨hid, hstop⟩ := hs.planned e he
      exact ⟨hid, by simpa using hstop⟩
    · intro hash' c hc
      obtain ⟨first, key', hfirst, hkey', hmem⟩ := hs.found hash' c hc
      exact ⟨first, key', fun hd => (hfirst hd).append, hkey', hout.subset hmem⟩
    · intro hash' hnone r hr
      rcases List.mem_append.1 hr with hr | hr
      · exact hs.missing hash' hnone r hr
      · obtain rfl := List.mem_singleton.1 hr
        rw [hof]
        rintro ⟨⟩
        simp [hfound] at hnone
  | fresh hnew hcase hexp hkey' hplanned =>
    rename_i e
    refine ⟨?_, ?_, ?_, ?_⟩
    · simp [hs.indices, hcase, List.range'_concat, Nat.add_comm]
    · intro e' he'
      rcases List.mem_append.1 he' with he' | he'
      · exact hs.planned e' he'
      · rw [List.mem_singleton.1 he']
        exact hplanned
    · intro hash' c hc
      rcases eq_or_ne hash' hash with rfl | hne
      · obtain rfl : s.caseIndex + 1 = c := by simpa using hc
        refine ⟨planned, key, fun hd => ?_, hkey, by simp [PlanState.outline, hcase, hkey']⟩
        have hnone : runs.find? (fun r => hashOf py registry args r = some hash') = none :=
          List.find?_eq_none.2 fun r hr => by simpa using hs.missing hash' (hnew hd) r hr
        rw [IsFirst, List.find?_append, hnone]
        simp [hof]
      · rw [List.lookup_cons, beq_eq_false_iff_ne.2 hne] at hc
        obtain ⟨first, key', hfirst, hkeyf, hmem⟩ := hs.found hash' c hc
        exact ⟨first, key', fun hd => (hfirst hd).append, hkeyf, hout.subset hmem⟩
    · intro hash' hnone r hr
      have hne : hash' ≠ hash := by
        rintro rfl
        simp at hnone
      rw [List.lookup_cons, beq_eq_false_iff_ne.2 hne] at hnone
      rcases List.mem_append.1 hr with hr | hr
      · exact hs.missing hash' hnone r hr
      · rw [List.mem_singleton.1 hr, hof]
        rintro ⟨⟩
        exact hne rfl

/-- The description holds of every plan the loop builds. -/
theorem describes_of_foldlM {runs : List PlannedRun} {s : PlanState}
    (h : runs.foldlM (planRun py registry args) {} = .ok s) :
    Describes py registry args runs s := by
  suffices key : ∀ (rest before : List PlannedRun) (s₀ : PlanState),
      Describes py registry args before s₀ → rest.foldlM (planRun py registry args) s₀ = .ok s →
        Describes py registry args (before ++ rest) s from key runs [] {} describes_init h
  intro rest
  induction rest with
  | nil =>
    intro before s₀ hs₀ hfold
    rw [List.foldlM_nil, pure_eq_ok] at hfold
    rw [← hfold, List.append_nil]
    exact hs₀
  | cons planned rest ih =>
    intro before s₀ hs₀ hfold
    rw [List.foldlM_cons, bind_eq_ok] at hfold
    obtain ⟨s₁, hstep, hrest⟩ := hfold
    simpa using ih (before ++ [planned]) s₁ (hs₀.step hstep) hrest

/-- No two cases have the same index. -/
theorem Describes.key_unique {runs : List PlannedRun} {s : PlanState}
    (hs : Describes py registry args runs s) {c : ℕ} {key key' : RunKey}
    (h : (c, key) ∈ s.outline) (h' : (c, key') ∈ s.outline) : key = key' := by
  have hnodup : (s.plan.map Entry.caseIndex).Nodup := by
    rw [hs.indices]
    exact List.nodup_range'
  obtain ⟨e, he, heq⟩ := List.mem_map.1 h
  obtain ⟨e', he', heq'⟩ := List.mem_map.1 h'
  rw [Prod.mk.injEq] at heq heq'
  have hsame : e = e' := List.inj_on_of_nodup_map hnodup he he' (heq.1.trans heq'.1.symm)
  rw [← heq.2, ← heq'.2, hsame]

/-! ## The case of a run -/

/-- `build_run_plan` runs the loop over the runs of all the experiments. -/
theorem buildRunPlan_eq_ok {selected : List Json} {plan : List Entry}
    (h : buildRunPlan py registry args selected = .ok plan) :
    ∃ runs s, plannedRuns selected = .ok runs ∧
      runs.foldlM (planRun py registry args) {} = .ok s ∧ s.plan = plan := by
  simp only [buildRunPlan, bind_eq_ok, pure_eq_ok] at h
  obtain ⟨s, hfold, rfl⟩ := h
  suffices key : ∀ s₀, selected.foldlM (fun s exp => do
      let runs ← experimentRuns exp
      runs.foldlM (planRun py registry args) s) s₀ = .ok s →
        ∃ runs, plannedRuns selected = .ok runs ∧
          runs.foldlM (planRun py registry args) s₀ = .ok s by
    obtain ⟨runs, hruns, hs⟩ := key {} hfold
    exact ⟨runs, s, hruns, hs, rfl⟩
  clear hfold
  induction selected with
  | nil =>
    intro s₀ h
    exact ⟨[], rfl, h⟩
  | cons exp selected ih =>
    intro s₀ h
    simp only [List.foldlM_cons, bind_eq_ok] at h
    obtain ⟨s₁, ⟨runs, hruns, hs₁⟩, hrest⟩ := h
    obtain ⟨rest, hrest, hs⟩ := ih s₁ hrest
    simp only [plannedRuns, bind_eq_ok, pure_eq_ok] at hrest ⊢
    obtain ⟨lists, hlists, rfl⟩ := hrest
    refine ⟨runs ++ lists.flatten, ⟨runs :: lists, ?_, by simp⟩, ?_⟩
    · simp only [List.mapM_cons, bind_eq_ok, pure_eq_ok]
      exact ⟨runs, hruns, lists, hlists, rfl⟩
    · rw [List.foldlM_append, bind_eq_ok]
      exact ⟨s₁, hs₁, hs⟩

/-- What holds of every new case and is kept when a case gets a further experiment holds of all
cases of a plan. -/
theorem forall_of_planRun {P : Entry → Prop} (hnew : ∀ {caseIndex planned key workload scheduler e},
      newEntry py args caseIndex planned key workload scheduler = .ok e → P e)
    (hadd : ∀ {c expId e}, P e → P (addExperiment c expId e)) {s s' : PlanState}
    {planned : PlannedRun} (h : planRun py registry args s planned = .ok s')
    (hs : ∀ e ∈ s.plan, P e) : ∀ e ∈ s'.plan, P e := by
  unfold planRun at h
  simp only [bind_eq_ok] at h
  obtain ⟨⟨scheduler, workload⟩, -, key, -, hash, -, h⟩ := h
  split at h
  next c _ =>
    obtain rfl := pure_eq_ok.1 h
    intro e he
    obtain ⟨e', he', rfl⟩ := List.mem_map.1 he
    exact hadd (hs e' he')
  next =>
    simp only [bind_eq_ok, pure_eq_ok] at h
    obtain ⟨e', he', rfl⟩ := h
    intro e he
    rcases List.mem_append.1 he with he | he
    · exact hs e he
    · rw [List.mem_singleton.1 he]
      exact hnew he'

theorem forall_of_foldlM {P : Entry → Prop} (hnew : ∀ {caseIndex planned key workload scheduler e},
      newEntry py args caseIndex planned key workload scheduler = .ok e → P e)
    (hadd : ∀ {c expId e}, P e → P (addExperiment c expId e)) {runs : List PlannedRun}
    {s s' : PlanState} (h : runs.foldlM (planRun py registry args) s = .ok s')
    (hs : ∀ e ∈ s.plan, P e) : ∀ e ∈ s'.plan, P e := by
  induction runs generalizing s with
  | nil =>
    rw [List.foldlM_nil, pure_eq_ok] at h
    rwa [← h]
  | cons planned runs ih =>
    rw [List.foldlM_cons, bind_eq_ok] at h
    obtain ⟨s₁, hstep, hrest⟩ := h
    exact ih hrest (forall_of_planRun hnew hadd hstep hs)

/-- The case a run is executed as: the one its key leads to right after its iteration. -/
def EntryFor (py : Builtins) (registry : BenchmarkPluginRegistry) (args : PlanArgs)
    (before : List PlannedRun) (planned : PlannedRun) (e : Entry) : Prop :=
  ∃ s hash, (before ++ [planned]).foldlM (planRun py registry args) {} = .ok s ∧
    hashOf py registry args planned = some hash ∧ s.dedupMap.lookup hash = some e.caseIndex

/-- Every run of a plan is executed as one of its cases. -/
theorem exists_entryFor {before after : List PlannedRun} {planned : PlannedRun} {s : PlanState}
    (hs : (before ++ planned :: after).foldlM (planRun py registry args) {} = .ok s) :
    ∃ e ∈ s.plan, EntryFor py registry args before planned e := by
  rw [← List.singleton_append, ← List.append_assoc, List.foldlM_append, bind_eq_ok] at hs
  obtain ⟨s₁, hs₁, hrest⟩ := hs
  have hdesc := describes_of_foldlM hs₁
  obtain ⟨hash, hhash⟩ : ∃ hash, hashOf py registry args planned = some hash := by
    rw [List.foldlM_append, bind_eq_ok] at hs₁
    obtain ⟨s₀, -, hstep⟩ := hs₁
    simp only [List.foldlM_cons, List.foldlM_nil, bind_pure] at hstep
    obtain ⟨key, hash, hkey, hhash, -⟩ := planRun_spec hstep
    exact ⟨hash, hashOf_eq_some.2 ⟨key, hkey, hhash⟩⟩
  cases hlookup : s₁.dedupMap.lookup hash with
  | none => exact absurd hhash (hdesc.missing hash hlookup planned (by simp))
  | some c =>
    obtain ⟨-, key, -, -, hmem⟩ := hdesc.found hash c hlookup
    obtain ⟨e, he, heq⟩ := List.mem_map.1 ((outline_prefix_of_foldlM hrest).subset hmem)
    rw [Prod.mk.injEq] at heq
    exact ⟨e, he, s₁, hash, hs₁, hhash, by rw [hlookup, heq.1]⟩

theorem exists_entryFor_of_buildRunPlan {selected : List Json} {plan : List Entry}
    {before after : List PlannedRun} {planned : PlannedRun}
    (hplan : buildRunPlan py registry args selected = .ok plan)
    (hruns : plannedRuns selected = .ok (before ++ planned :: after)) :
    ∃ e ∈ plan, EntryFor py registry args before planned e := by
  obtain ⟨runs, s, hruns', hfold, rfl⟩ := buildRunPlan_eq_ok hplan
  obtain rfl : before ++ planned :: after = runs := by simpa using hruns.symm.trans hruns'
  exact exists_entryFor hfold

/-- The run whose parameters the case of `planned` has: the first run of the same key when
repeated runs are executed once, else the run itself. -/
def servingRun (py : Builtins) (registry : BenchmarkPluginRegistry) (args : PlanArgs)
    (before : List PlannedRun) (planned : PlannedRun) : PlannedRun :=
  if args.dedupe then
    ((before ++ [planned]).find? fun r =>
      hashOf py registry args r = hashOf py registry args planned).getD planned
  else planned

/-- The case of a run has the parameters of the serving run. -/
theorem EntryFor.key_eq {before after : List PlannedRun} {planned : PlannedRun} {s : PlanState}
    {e : Entry} (h : EntryFor py registry args before planned e)
    (hs : (before ++ planned :: after).foldlM (planRun py registry args) {} = .ok s)
    (he : e ∈ s.plan) :
    keyOf py registry args (servingRun py registry args before planned) = .ok e.key := by
  obtain ⟨s₁, hash, hs₁, hhash, hlookup⟩ := h
  have hlast : (e.caseIndex, e.key) ∈ s.outline := List.mem_map_of_mem he
  have hpre : s₁.outline <+: s.outline := by
    rw [← List.singleton_append, ← List.append_assoc, List.foldlM_append, bind_eq_ok] at hs
    obtain ⟨s₁', hs₁', hrest⟩ := hs
    obtain rfl : s₁ = s₁' := by simpa using hs₁.symm.trans hs₁'
    exact outline_prefix_of_foldlM hrest
  have hunique : ∀ {key}, (e.caseIndex, key) ∈ s.outline → e.key = key :=
    (describes_of_foldlM hs).key_unique hlast
  unfold servingRun
  split
  · rename_i hdedupe
    obtain ⟨first, key, hfirst, hkey, hmem⟩ :=
      (describes_of_foldlM hs₁).found hash e.caseIndex hlookup
    rw [hunique (hpre.subset hmem), hhash, hfirst hdedupe]
    exact hkey
  · rename_i hdedupe
    rw [List.foldlM_append, bind_eq_ok] at hs₁
    obtain ⟨s₀, -, hstep⟩ := hs₁
    simp only [List.foldlM_cons, List.foldlM_nil, bind_pure] at hstep
    obtain ⟨key, hash', hkey, hhash', hstep⟩ := planRun_spec hstep
    obtain rfl : hash = hash' := by
      have hof : hashOf py registry args planned = some hash' :=
        hashOf_eq_some.2 ⟨key, hkey, hhash'⟩
      simpa [hhash] using hof
    cases hstep with
    | shared hd => exact absurd hd hdedupe
    | fresh hnew hcase hexp hkey' hplanned =>
      rename_i e'
      have hc : e'.caseIndex = e.caseIndex := by simpa [hcase] using hlookup
      have hmem : (e.caseIndex, key) ∈ s.outline :=
        hpre.subset (by simp [PlanState.outline, hc, hkey'])
      rw [hunique hmem]
      exact hkey

/-! ## A sample suite -/

/-- A string is itself, anything else a zero. -/
def sampleStr : Json → String
  | .str s => s
  | _ => "0"

theorem sampleStr_str (s : String) : sampleStr (.str s) = s := rfl

theorem toLower_sampleStr (v : Json) (name : String) (hname : isPlainName name = true) :
    CStrings.toLower (sampleStr v) = name ↔ ∃ s, v = .str s ∧ CStrings.toLower s = name := by
  have hzero : CStrings.toLower "0" ≠ name := by
    rintro rfl
    revert hname
    decide +kernel
  cases v with
  | str s => simp [sampleStr]
  | _ => simpa [sampleStr] using hzero

/-- Builtins that behave as the interpreter's on documents of plain letters. -/
def sampleBuiltins : Builtins where
  intOfStr _ := none
  floatOfStr _ := none
  str := sampleStr
  lower := CStrings.toLower
  str_str := sampleStr_str
  lower_str_eq := toLower_sampleStr

def samplePlugin (name : String) : Plugin :=
  { key := name, cliToken := name, displayName := name }

/-- A registry of one scheduler selector and one workload -/
def sampleRegistry : BenchmarkPluginRegistry where
  schedulers := [("all", samplePlugin "all")]
  workloads := [("desktop", samplePlugin "desktop")]
  schedulerAliasToKey := [("all", "all")]
  workloadAliasToKey := [("desktop", "desktop")]

def sampleExperiment (runs : List Json) : Json :=
  .dict [("id", .str "exp1"), ("runs", .list runs)]

/-- A suite of one experiment with the given runs -/
def sampleSuite (runs : List Json) : Json :=
  .dict [("schema_version", .str "suite.v1"), ("benchmark_version", .str "community-v1"),
    ("suite_id", .str "sample"), ("title", .str "Sample"), ("description", .str "Sample"),
    ("defaults", .dict [("scheduler", .str "all"), ("replications", .int 1),
      ("topology", .str "sq"), ("seed_base", .int 1)]),
    ("experiments", .list [sampleExperiment runs])]

/-- A run of the given stop time and options -/
def sampleRun (stopTime : Json) (options : List (String × Json)) : Json :=
  .dict ([("workload", .str "desktop"), ("cores", .int 1), ("num_tasks", .int 10),
    ("stop_time", stopTime)] ++ options)

def sampleArgs (runs : List Json) : PlanArgs :=
  { suite := sampleSuite runs, dedupe := true, schedulerKey := "all", replications := 1,
    seedBase := 1, runsDir := "/runs" }

end RunSuite

end SchedSim
