import SchedSim.RunPlan
import SchedSim.Words
import Mathlib.Data.Fintype.EquivFin
import Mathlib.Data.Nat.SuccPred

/-!
# The plan covers the suite

Every explicit run of the selected experiments is executed as exactly one case, every case is
there for some run, and no two cases write to the same place.  The id of a case is sanitized,
which only changes what stands between its words; one of the words is the index of the case.

* `RunSuite.words_sanitizeId` — sanitizing an id keeps its words.
* `RunSuite.Named.caseIndex_eq` — cases with the same id are the same case.
* `RunSuite.Covers` — what holds of the plan of any number of runs.
* `RunSuite.Covering` — a map from the explicit runs onto the cases of a plan.
* `RunSuite.planCoversSuite` — every plan that is built has one, and its ids are distinct.
-/

namespace SchedSim

namespace RunSuite

open Py Words

/-! ## The words of an id -/

/-- The characters that part the words of an id. -/
def partsWords (c : Char) : Bool := isForeign c || c == '-'

theorem partsWords_of_isForeign {c : Char} (h : isForeign c = true) : partsWords c = true := by
  simp [partsWords, h]

theorem partsWords_of_hyphen {c : Char} (h : (c == '-') = true) : partsWords c = true := by
  simp [partsWords, h]

/-- The characters of words lie between the digits and the small letters. -/
theorem toNat_of_not_isForeign {c : Char} (h : isForeign c = false) :
    45 ≤ c.toNat ∧ c.toNat ≤ 122 := by
  have hletter : c.isAlphanum = true ∨ c = '_' ∨ c = '-' := by
    simpa only [isForeign, Bool.not_eq_false', Bool.or_eq_true, beq_iff_eq, or_assoc] using h
  rcases hletter with h | rfl | rfl
  · have hranges : (decide (c.val ≥ 'A'.val ∧ c.val ≤ 'Z'.val)
        || decide (c.val ≥ 'a'.val) && decide (c.val ≤ 'z'.val)
        || decide (c.val ≥ '0'.val) && decide (c.val ≤ '9'.val)) = true := h
    simp only [Bool.or_eq_true, Bool.and_eq_true, decide_eq_true_eq, ge_iff_le,
      UInt32.le_iff_toNat_le] at hranges
    have hval : c.toNat = c.val.toNat := rfl
    have : '0'.val.toNat = 48 ∧ '9'.val.toNat = 57 ∧ 'A'.val.toNat = 65 ∧ 'Z'.val.toNat = 90 ∧
      'a'.val.toNat = 97 ∧ 'z'.val.toNat = 122 := by decide
    omega
  · decide
  · decide

/-- What `str.strip()` removes is no letter of an id. -/
theorem partsWords_of_isPySpace {c : Char} (h : isPySpace c = true) : partsWords c = true := by
  by_contra hword
  have hforeign : isForeign c = false := by
    rw [partsWords] at hword
    simp_all
  have hbounds := toNat_of_not_isForeign hforeign
  simp only [isPySpace, List.contains_eq_mem, List.mem_cons, List.not_mem_nil, or_false,
    Bool.or_eq_true, Bool.and_eq_true, decide_eq_true_eq] at h
  omega

theorem leading_hyphenate {p : Char → Bool} (hp : ∀ c, p c = true → partsWords c = true)
    (cs : List Char) : leading partsWords (hyphenate p cs) = leading partsWords cs := by
  fun_induction hyphenate p cs with
  | case1 => rfl
  | case2 c hc d rest hd ih =>
    rw [ih, leading_cons_of_sep (hp c hc), leading_cons_of_sep (hp d hd),
      words_cons_of_sep (hp d hd)]
  | case3 c hc d rest hd ih =>
    rw [leading_cons_of_sep (by decide), leading_cons_of_sep (hp c hc), words, ih, words]
  | case4 c hc => rw [leading_cons_of_sep (by decide), leading_cons_of_sep (hp c hc)]
  | case5 c rest hc ih =>
    cases hsep : partsWords c with
    | true => rw [leading_cons_of_sep hsep, leading_cons_of_sep hsep, words, ih, words]
    | false => rw [leading_cons_of_not_sep hsep, leading_cons_of_not_sep hsep, ih]

theorem words_stripChars {p : Char → Bool} (hp : ∀ c, p c = true → partsWords c = true)
    (cs : List Char) : words partsWords (stripChars p cs) = words partsWords cs := by
  rw [stripChars, words_stripped hp, words_dropWhile hp]

/-- Sanitizing an id that has a word keeps its words. -/
theorem words_sanitizeId {value : String} (h : words partsWords value.toList ≠ []) :
    words partsWords (sanitizeId value).toList = words partsWords value.toList := by
  let chars := stripChars (· == '-')
    (hyphenate (· == '-') (hyphenate isForeign (strip value).toList))
  have hkeep : words partsWords chars = words partsWords value.toList := by
    rw [words_stripChars fun _ => partsWords_of_hyphen, words,
      leading_hyphenate fun _ => partsWords_of_hyphen,
      leading_hyphenate fun _ => partsWords_of_isForeign, strip, String.toList_ofList]
    exact words_stripChars (fun _ => partsWords_of_isPySpace) _
  have hid : sanitizeId value
      = if String.ofList chars = "" then "id" else String.ofList chars := rfl
  rw [hid]
  split
  next hempty =>
    rw [← hkeep, ← String.toList_ofList (l := chars), hempty] at h
    exact absurd rfl h
  next => rw [String.toList_ofList, hkeep]

/-! ## The id of a case -/

theorem padded_injective : Function.Injective padded := by
  have hvalue : ∀ n, Nat.ofDigitChars 10 (padded n).toList 0 = n := by
    intro n
    rw [padded, String.toList_append, String.toList_ofList, Nat.ofDigitChars_append,
      Nat.ofDigitChars_replicate_zero, Nat.mul_zero]
    rw [show (toString n).toList = Nat.toDigits 10 n from Nat.toList_repr,
      Nat.ofDigitChars_ten_toDigits]
  intro m n h
  rw [← hvalue m, h, hvalue n]

theorem words_padded (n : ℕ) : words partsWords (padded n).toList = [(padded n).toList] := by
  refine words_of_forall_not_sep ?_ fun c hc => ?_
  · rw [padded, String.toList_append,
      show (toString n).toList = Nat.toDigits 10 n from Nat.toList_repr]
    exact List.append_ne_nil_of_right_ne_nil _ Nat.toDigits_ne_nil
  · have hdigit : c.isDigit = true := by
      rw [padded, String.toList_append, String.toList_ofList, List.mem_append] at hc
      rcases hc with hc | hc
      · rw [List.eq_of_mem_replicate hc]
        rfl
      · exact CStrings.isDigit_of_mem (show c ∈ Nat.toDigits 10 n from Nat.toList_repr ▸ hc)
    have hne : c ≠ '-' := by
      rintro rfl
      exact absurd hdigit (by decide)
    simp [partsWords, isForeign, Char.isAlphanum, hdigit, hne]

variable {py : Builtins} {registry : BenchmarkPluginRegistry} {args : PlanArgs}

/-- The file the output of a case goes to -/
def logPath (runsDir : String) (e : Entry) : String :=
  joinPath (joinPath (joinPath runsDir "logs") "suite_runner") (e.runId ++ ".log")

/-- The id of a case is the sanitized id of the suite, with the index of the case and its
parameters; the artifacts go to the directory of this name. -/
structure Named (args : PlanArgs) (e : Entry) : Prop where
  runId : ∃ suiteId rest, args.suite.item "suite_id" = .ok (.str suiteId) ∧
    e.runId = sanitizeId (suiteId ++ "-" ++ padded e.caseIndex ++ "-" ++ rest)
  artifactDir : ∃ dir, e.artifactDir = joinPath (joinPath args.runsDir dir) e.runId ∧
    ∃ suiteId, args.suite.item "suite_id" = .ok (.str suiteId) ∧ dir = sanitizeId suiteId

theorem words_runId {suiteId rest : String} {n : ℕ} :
    words partsWords (sanitizeId (suiteId ++ "-" ++ padded n ++ "-" ++ rest)).toList
      = words partsWords suiteId.toList ++ (padded n).toList :: words partsWords rest.toList := by
  have hwords : words partsWords (suiteId ++ "-" ++ padded n ++ "-" ++ rest).toList
      = words partsWords suiteId.toList ++ (padded n).toList :: words partsWords rest.toList := by
    have hlist : (suiteId ++ "-" ++ padded n ++ "-" ++ rest).toList
        = suiteId.toList ++ '-' :: ((padded n).toList ++ '-' :: rest.toList) := by
      simp
    rw [hlist, words_append_cons (by decide), words_append_cons (by decide), words_padded]
    rfl
  rw [words_sanitizeId, hwords]
  rw [hwords]
  simp

/-- Cases with the same id are the same case. -/
theorem Named.caseIndex_eq {e e' : Entry} (h : Named args e) (h' : Named args e')
    (heq : e.runId = e'.runId) : e.caseIndex = e'.caseIndex := by
  obtain ⟨suiteId, rest, hitem, hid⟩ := h.runId
  obtain ⟨suiteId', rest', hitem', hid'⟩ := h'.runId
  obtain rfl : suiteId = suiteId' := by simpa using hitem.symm.trans hitem'
  have hwords := congrArg (fun id : String => words partsWords id.toList)
    (hid.symm.trans (heq.trans hid'))
  simp only [words_runId] at hwords
  -- the index is the word after those of the suite
  have hindex := (List.cons.inj (List.append_cancel_left hwords)).1
  exact padded_injective (String.toList_inj.1 hindex)

theorem joinPath_injective (dir : String) : Function.Injective (joinPath dir) := by
  intro name name' h
  unfold joinPath at h
  split at h
  all_goals
    refine String.toList_inj.1 ?_
    have hlist := congrArg String.toList h
    simpa using hlist

theorem named_newEntry {caseIndex : ℕ} {planned : PlannedRun} {key : RunKey}
    {workload scheduler : Plugin} {e : Entry}
    (h : newEntry py args caseIndex planned key workload scheduler = .ok e) : Named args e := by
  simp only [newEntry, bind_eq_ok, pure_eq_ok] at h
  obtain ⟨stop, -, suiteId, hsuite, rfl⟩ := h
  have hitem : args.suite.item "suite_id" = .ok (.str suiteId) := by
    simp only [RunSuite.suiteId, bind_eq_ok] at hsuite
    obtain ⟨v, hv, hstr⟩ := hsuite
    cases v with
    | str s =>
      obtain rfl := pure_eq_ok.1 hstr
      exact hv
    | _ => simp at hstr
  refine ⟨⟨suiteId, workload.key ++ "-" ++ toString key.cores ++ "c-n" ++ toString key.numTasks
    ++ "-t" ++ toString stop ++ topologySuffix py key, hitem, ?_⟩,
    ⟨sanitizeId suiteId, ?_, suiteId, hitem, rfl⟩⟩
  · have hname :
        s!"{suiteId}-{padded caseIndex}-{workload.key}-{key.cores}c-n{key.numTasks}-t{stop}"
          ++ topologySuffix py key
        = suiteId ++ "-" ++ padded caseIndex ++ "-" ++ (workload.key ++ "-" ++ toString key.cores
          ++ "c-n" ++ toString key.numTasks ++ "-t" ++ toString stop ++ topologySuffix py key) := by
      simp only [String.append_assoc]
      rfl
    dsimp only
    rw [hname]
  · dsimp only

theorem named_addExperiment {c : ℕ} {expId : Json} {e : Entry} (h : Named args e) :
    Named args (addExperiment c expId e) := by
  unfold addExperiment
  split
  · exact ⟨h.runId, h.artifactDir⟩
  · exact h

/-! ## The cases of the runs -/

/-- What holds of the plan of some runs, executed as the cases with the given indices. -/
structure Covers (py : Builtins) (registry : BenchmarkPluginRegistry) (args : PlanArgs)
    (runs : List PlannedRun) (s : PlanState) (cases : List ℕ) : Prop where
  length : cases.length = runs.length
  indices : s.plan.map Entry.caseIndex = List.range' 1 s.caseIndex
  within : ∀ c ∈ cases, c ∈ s.plan.map Entry.caseIndex
  onto : ∀ e ∈ s.plan, e.caseIndex ∈ cases
  experiments : ∀ e ∈ s.plan, e.experiments
    = ((runs.zip cases).filter fun r => r.2 = e.caseIndex).map fun r => r.1.expId
  params : ∀ e ∈ s.plan, ∀ r ∈ runs.zip cases, r.2 = e.caseIndex →
    ∃ hash, hashOf py registry args r.1 = some hash ∧ e.key.hash = .ok hash
  found : ∀ hash c, s.dedupMap.lookup hash = some c →
    ∃ e ∈ s.plan, e.caseIndex = c ∧ e.key.hash = .ok hash
  lookup : args.dedupe = true → ∀ r ∈ runs.zip cases, ∃ hash,
    hashOf py registry args r.1 = some hash ∧ s.dedupMap.lookup hash = some r.2
  separate : args.dedupe = false → cases = List.range' 1 s.caseIndex

theorem covers_init : Covers py registry args [] {} [] where
  length := rfl
  indices := rfl
  within := by simp
  onto := by simp
  experiments := by simp
  params := by simp
  found := by simp
  lookup := by simp
  separate _ := rfl

section Step

variable {runs : List PlannedRun} {s s' : PlanState} {cases : List ℕ} {planned : PlannedRun}
  {hash : HashedKey} {c : ℕ}

/-- No two cases have the same index. -/
theorem Covers.eq_of_caseIndex (hs : Covers py registry args runs s cases) {e e' : Entry}
    (he : e ∈ s.plan) (he' : e' ∈ s.plan) (h : e.caseIndex = e'.caseIndex) : e = e' := by
  have hnodup : (s.plan.map Entry.caseIndex).Nodup := by
    rw [hs.indices]
    exact List.nodup_range'
  exact List.inj_on_of_nodup_map hnodup he he' h

theorem Covers.le_caseIndex (hs : Covers py registry args runs s cases)
    (hc : c ∈ s.plan.map Entry.caseIndex) : c ≤ s.caseIndex := by
  rw [hs.indices, List.mem_range'_1] at hc
  omega

/-- A run that joins the case of its key. -/
theorem Covers.shared (hs : Covers py registry args runs s cases)
    (hof : hashOf py registry args planned = some hash) (hdedupe : args.dedupe = true)
    (hfound : s.dedupMap.lookup hash = some c) :
    Covers py registry args (runs ++ [planned])
      { s with plan := s.plan.map (addExperiment c planned.expId) } (cases ++ [c]) := by
  have hzip : (runs ++ [planned]).zip (cases ++ [c]) = runs.zip cases ++ [(planned, c)] :=
    List.zip_append hs.length.symm
  have hindices : (s.plan.map (addExperiment c planned.expId)).map Entry.caseIndex
      = s.plan.map Entry.caseIndex := by simp [Function.comp_def]
  obtain ⟨first, hfirst, rfl, hkey⟩ := hs.found hash c hfound
  refine ⟨by simp [hs.length], hindices.trans hs.indices, fun c hc => ?_, fun e he => ?_,
    fun e he => ?_, fun e he r hr hre => ?_, fun hash' c' hc' => ?_, fun hd r hr => ?_,
    fun hd => ?_⟩
  · rw [hindices]
    rcases List.mem_append.1 hc with hc | hc
    · exact hs.within c hc
    · rw [List.mem_singleton.1 hc]
      exact List.mem_map_of_mem hfirst
  · obtain ⟨e, hmem, rfl⟩ := List.mem_map.1 he
    rw [addExperiment_caseIndex]
    exact List.mem_append_left _ (hs.onto e hmem)
  · obtain ⟨e, hmem, rfl⟩ := List.mem_map.1 he
    rw [hzip, addExperiment_caseIndex, List.filter_append, List.map_append, ← hs.experiments e hmem]
    unfold addExperiment
    split
    next heq => simp [heq]
    next hne => simp [Ne.symm hne]
  · obtain ⟨e, hmem, rfl⟩ := List.mem_map.1 he
    rw [addExperiment_caseIndex] at hre
    rw [addExperiment_key]
    rw [hzip] at hr
    rcases List.mem_append.1 hr with hr | hr
    · exact hs.params e hmem r hr hre
    · rw [List.mem_singleton.1 hr] at hre ⊢
      rw [hs.eq_of_caseIndex hmem hfirst hre.symm]
      exact ⟨hash, hof, hkey⟩
  · obtain ⟨e, he, hec, hekey⟩ := hs.found hash' c' hc'
    exact ⟨_, List.mem_map_of_mem he, by rw [addExperiment_caseIndex, hec],
      by rw [addExperiment_key, hekey]⟩
  · rw [hzip] at hr
    rcases List.mem_append.1 hr with hr | hr
    · exact hs.lookup hd r hr
    · rw [List.mem_singleton.1 hr]
      exact ⟨hash, hof, hfound⟩
  · rw [hdedupe] at hd
    cases hd

/-- A run that gets a case of its own. -/
theorem Covers.fresh (hs : Covers py registry args runs s cases)
    (hof : hashOf py registry args planned = some hash) {e : Entry}
    (hnew : args.dedupe = true → s.dedupMap.lookup hash = none)
    (hcase : e.caseIndex = s.caseIndex + 1) (hexp : e.experiments = [planned.expId])
    (hkey : e.key.hash = .ok hash) :
    Covers py registry args (runs ++ [planned])
      { plan := s.plan ++ [e], dedupMap := (hash, s.caseIndex + 1) :: s.dedupMap,
        caseIndex := s.caseIndex + 1 } (cases ++ [s.caseIndex + 1]) := by
  have hzip : (runs ++ [planned]).zip (cases ++ [s.caseIndex + 1])
      = runs.zip cases ++ [(planned, s.caseIndex + 1)] := List.zip_append hs.length.symm
  -- the index is new
  have hle : ∀ r ∈ runs.zip cases, r.2 ≤ s.caseIndex := fun r hr =>
    hs.le_caseIndex (hs.within r.2 (List.of_mem_zip hr).2)
  have hlePlan : ∀ e' ∈ s.plan, e'.caseIndex ≤ s.caseIndex := fun e' he' =>
    hs.le_caseIndex (List.mem_map_of_mem he')
  refine ⟨by simp [hs.length], ?_, fun c hc => ?_, fun e' he' => ?_,
    fun e' he' => ?_, fun e' he' r hr hre => ?_, fun hash' c' hc' => ?_, fun hd r hr => ?_,
    fun hd => ?_⟩
  · simp [hs.indices, hcase, List.range'_concat, Nat.add_comm]
  · rw [List.map_append]
    rcases List.mem_append.1 hc with hc | hc
    · exact List.mem_append_left _ (hs.within c hc)
    · rw [List.mem_singleton.1 hc]
      exact List.mem_append_right _ (by simp [hcase])
  · rcases List.mem_append.1 he' with he' | he'
    · exact List.mem_append_left _ (hs.onto e' he')
    · rw [List.mem_singleton.1 he', hcase]
      simp
  · rw [hzip, List.filter_append, List.map_append]
    rcases List.mem_append.1 he' with he' | he'
    · have hne : s.caseIndex + 1 ≠ e'.caseIndex := by
        have := hlePlan e' he'
        omega
      simp [← hs.experiments e' he', hne]
    · rw [List.mem_singleton.1 he']
      have hnone : ((runs.zip cases).filter fun r => r.2 = e.caseIndex) = [] := by
        rw [List.filter_eq_nil_iff]
        intro r hr
        have := hle r hr
        simp only [hcase, decide_eq_true_eq]
        omega
      rw [hnone]
      simp [hexp, hcase]
  · rw [hzip] at hr
    rcases List.mem_append.1 he' with he' | he' <;> rcases List.mem_append.1 hr with hr | hr
    · exact hs.params e' he' r hr hre
    · rw [List.mem_singleton.1 hr] at hre
      have := hlePlan e' he'
      omega
    · rw [List.mem_singleton.1 he', hcase] at hre
      have := hle r hr
      omega
    · rw [List.mem_singleton.1 he', List.mem_singleton.1 hr]
      exact ⟨hash, hof, hkey⟩
  · rw [List.lookup_cons] at hc'
    split at hc'
    next heq =>
      rw [beq_iff_eq] at heq
      subst heq
      obtain rfl := Option.some.inj hc'
      exact ⟨e, List.mem_append_right _ (List.mem_singleton_self e), hcase, hkey⟩
    next =>
      obtain ⟨e', he', hec, hekey⟩ := hs.found hash' c' hc'
      exact ⟨e', List.mem_append_left _ he', hec, hekey⟩
  · rw [hzip] at hr
    rcases List.mem_append.1 hr with hr | hr
    · obtain ⟨hash', hof', hfound⟩ := hs.lookup hd r hr
      refine ⟨hash', hof', ?_⟩
      have hne : hash' ≠ hash := by
        rintro rfl
        rw [hnew hd] at hfound
        cases hfound
      rw [List.lookup_cons, beq_eq_false_iff_ne.2 hne]
      exact hfound
    · rw [List.mem_singleton.1 hr]
      exact ⟨hash, hof, by simp⟩
  · rw [hs.separate hd, List.range'_concat, Nat.mul_comm, Nat.mul_one, Nat.add_comm]

/-- One iteration executes its run as one more case, or as one there is. -/
theorem Covers.step (hs : Covers py registry args runs s cases)
    (h : planRun py registry args s planned = .ok s') :
    ∃ c, Covers py registry args (runs ++ [planned]) s' (cases ++ [c]) := by
  obtain ⟨key, hash, hkey, hhash, hstep⟩ := planRun_spec h
  have hof : hashOf py registry args planned = some hash := hashOf_eq_some.2 ⟨key, hkey, hhash⟩
  cases hstep with
  | shared hdedupe hfound => exact ⟨_, hs.shared hof hdedupe hfound⟩
  | fresh hnew hcase hexp hkey' _ => exact ⟨_, hs.fresh hof hnew hcase hexp (hkey' ▸ hhash)⟩

end Step

theorem covers_of_foldlM {runs : List PlannedRun} {s : PlanState}
    (h : runs.foldlM (planRun py registry args) {} = .ok s) :
    ∃ cases, Covers py registry args runs s cases := by
  suffices key : ∀ (rest before : List PlannedRun) (s₀ : PlanState) (cases : List ℕ),
      Covers py registry args before s₀ cases → rest.foldlM (planRun py registry args) s₀ = .ok s →
        ∃ cases, Covers py registry args (before ++ rest) s cases from
    key runs [] {} [] covers_init h
  intro rest
  induction rest with
  | nil =>
    intro before s₀ cases hs₀ hfold
    rw [List.foldlM_nil, pure_eq_ok] at hfold
    rw [← hfold, List.append_nil]
    exact ⟨cases, hs₀⟩
  | cons planned rest ih =>
    intro before s₀ cases hs₀ hfold
    rw [List.foldlM_cons, bind_eq_ok] at hfold
    obtain ⟨s₁, hstep, hrest⟩ := hfold
    obtain ⟨c, hs₁⟩ := hs₀.step hstep
    simpa using ih (before ++ [planned]) s₁ _ hs₁ hrest

/-! ## The plan -/

/-- A map from the explicit runs onto the cases of a plan: a case has the parameters of the keys
of its runs, as Python compares them, and lists their experiments in the order of the runs; runs
share a case exactly when they have the same key, or, without de-duplication, never. -/
structure Covering (py : Builtins) (registry : BenchmarkPluginRegistry) (args : PlanArgs)
    (runs : List PlannedRun) (plan : List Entry) (place : Fin runs.length → Fin plan.length) :
    Prop where
  onto : Function.Surjective place
  params : ∀ i, ∃ hash, hashOf py registry args runs[i] = some hash ∧
    plan[place i].key.hash = .ok hash
  experiments : ∀ j : Fin plan.length, plan[j].experiments
    = ((List.finRange runs.length).filter fun i => place i = j).map fun i => runs[i].expId
  shared : args.dedupe = true → ∀ i j, place i = place j ↔
    hashOf py registry args runs[i] = hashOf py registry args runs[j]
  separate : args.dedupe = false → Function.Bijective place

theorem Covers.covering {runs : List PlannedRun} {s : PlanState} {cases : List ℕ}
    (hs : Covers py registry args runs s cases) :
    ∃ place, Covering py registry args runs s.plan place := by
  have hlength : s.plan.length = s.caseIndex := by
    have := congrArg List.length hs.indices
    rwa [List.length_map, List.length_range'] at this
  -- the case at a position has the next index
  have hindex : ∀ (j : ℕ) (hj : j < s.plan.length), s.plan[j].caseIndex = j + 1 := by
    intro j hj
    have hget : (s.plan.map Entry.caseIndex)[j]? = (List.range' 1 s.caseIndex)[j]? := by
      rw [hs.indices]
    rw [List.getElem?_map, List.getElem?_eq_getElem hj, List.getElem?_range' (by omega)] at hget
    have := Option.some.inj hget
    omega
  let caseOf : Fin runs.length → ℕ := fun i => cases.get (i.cast hs.length.symm)
  have hzip : runs.zip cases = (List.finRange runs.length).map fun i => (runs[i], caseOf i) := by
    refine List.ext_getElem (by simp [hs.length]) fun k hk hk' => ?_
    simp [caseOf]
  have hmem : ∀ i, (runs[i], caseOf i) ∈ runs.zip cases := fun i =>
    hzip ▸ List.mem_map_of_mem (List.mem_finRange i)
  have hbounds : ∀ i, 1 ≤ caseOf i ∧ caseOf i ≤ s.plan.length := by
    intro i
    have hin := hs.within _ (List.get_mem cases (i.cast hs.length.symm))
    rw [hs.indices, List.mem_range'_1] at hin
    show 1 ≤ cases.get _ ∧ cases.get _ ≤ _
    omega
  let place : Fin runs.length → Fin s.plan.length := fun i =>
    ⟨caseOf i - 1, by have := hbounds i; omega⟩
  have hplace : ∀ i j, place i = j ↔ caseOf i = s.plan[j].caseIndex := by
    intro i j
    have := hbounds i
    rw [Fin.ext_iff, Fin.getElem_fin, hindex j.1 j.2]
    show caseOf i - 1 = j.1 ↔ _
    omega
  have honto : Function.Surjective place := by
    intro j
    obtain ⟨k, hk⟩ := List.mem_iff_get.1 (hs.onto _ (List.getElem_mem j.2))
    exact ⟨k.cast hs.length, (hplace _ j).2 hk⟩
  have hparams : ∀ i, ∃ hash, hashOf py registry args runs[i] = some hash ∧
      s.plan[place i].key.hash = .ok hash := fun i =>
    hs.params _ (List.getElem_mem _) _ (hmem i) ((hplace i _).1 rfl)
  refine ⟨place, honto, hparams, fun j => ?_, fun hd i j => ⟨fun heq => ?_, fun heq => ?_⟩,
    fun hd => ?_⟩
  · refine (hs.experiments _ (List.getElem_mem j.2)).trans ?_
    rw [hzip, List.filter_map, List.map_map]
    refine congrArg _ (List.filter_congr fun i _ => ?_)
    exact decide_eq_decide.2 (hplace i j).symm
  · obtain ⟨hash, hi, hkey⟩ := hparams i
    obtain ⟨hash', hj, hkey'⟩ := hparams j
    rw [heq] at hkey
    rw [hi, hj, Except.ok.inj (hkey.symm.trans hkey')]
  · obtain ⟨hash, hi, hlookup⟩ := hs.lookup hd _ (hmem i)
    obtain ⟨hash', hj, hlookup'⟩ := hs.lookup hd _ (hmem j)
    obtain rfl : hash = hash' := Option.some.inj (hi.symm.trans (heq.trans hj))
    have hsame : caseOf i = caseOf j := Option.some.inj (hlookup.symm.trans hlookup')
    exact (hplace i _).2 (hsame.trans ((hplace j _).1 rfl))
  · -- as many cases as runs
    refine (Fintype.bijective_iff_surjective_and_card place).2 ⟨honto, ?_⟩
    rw [Fintype.card_fin, Fintype.card_fin, hlength, ← hs.length, hs.separate hd,
      List.length_range']

theorem nodup_of_injOn {plan : List Entry} {n : ℕ} {β : Type} {f : Entry → β}
    (hindices : plan.map Entry.caseIndex = List.range' 1 n)
    (hf : ∀ e ∈ plan, ∀ e' ∈ plan, f e = f e' → e.caseIndex = e'.caseIndex) :
    (plan.map f).Nodup := by
  have hnodup : (plan.map Entry.caseIndex).Nodup := by
    rw [hindices]
    exact List.nodup_range'
  refine List.Nodup.map_on (fun e he e' he' heq => ?_) (List.Nodup.of_map _ hnodup)
  exact List.inj_on_of_nodup_map hnodup he he' (hf e he e' he' heq)

/-- **The plan covers the suite and never collides**: whatever the document, the selection of
experiments and the setting of de-duplication, the ids, the artifact directories and the log
files of a plan are distinct, and there is a covering map from the explicit runs onto its cases. -/
theorem planCoversSuite (py : Builtins) (registry : BenchmarkPluginRegistry) (args : PlanArgs)
    (selected : List Json) (plan : List Entry)
    (hplan : buildRunPlan py registry args selected = .ok plan) :
    (plan.map Entry.runId).Nodup ∧ (plan.map Entry.artifactDir).Nodup ∧
      (plan.map (logPath args.runsDir)).Nodup ∧
      ∃ runs, plannedRuns selected = .ok runs ∧
        ∃ place, Covering py registry args runs plan place := by
  obtain ⟨runs, s, hruns, hfold, rfl⟩ := buildRunPlan_eq_ok hplan
  have hnamed : ∀ e ∈ s.plan, Named args e :=
    forall_of_foldlM named_newEntry named_addExperiment hfold (by simp)
  obtain ⟨cases, hs⟩ := covers_of_foldlM hfold
  have hid : ∀ e ∈ s.plan, ∀ e' ∈ s.plan, e.runId = e'.runId → e.caseIndex = e'.caseIndex :=
    fun e he e' he' heq => (hnamed e he).caseIndex_eq (hnamed e' he') heq
  refine ⟨nodup_of_injOn hs.indices hid,
    nodup_of_injOn hs.indices fun e he e' he' heq => hid e he e' he' ?_,
    nodup_of_injOn hs.indices fun e he e' he' heq => hid e he e' he' ?_, runs, hruns, hs.covering⟩
  · obtain ⟨dir, hdir, suiteId, hitem, hname⟩ := (hnamed e he).artifactDir
    obtain ⟨dir', hdir', suiteId', hitem', hname'⟩ := (hnamed e' he').artifactDir
    have hsuite : suiteId = suiteId' := by simpa using hitem.symm.trans hitem'
    rw [hdir, hdir', hname, hname', hsuite] at heq
    exact joinPath_injective _ heq
  · unfold logPath at heq
    have hlist := congrArg String.toList (joinPath_injective _ heq)
    refine String.toList_inj.1 ?_
    simpa using hlist

/-- A suite in which a run is repeated -/
theorem planCoversSuite_repeated :
    let run := sampleRun (.int 5) [("topology", .str "sq")]
    let other := sampleRun (.int 7) [("topology", .str "sq")]
    ∃ plan, buildRunPlan sampleBuiltins sampleRegistry (sampleArgs [run, other, run])
        [sampleExperiment [run, other, run]] = .ok plan ∧
      (plan.map Entry.runId).Nodup ∧ (plan.map Entry.artifactDir).Nodup ∧
      (plan.map (logPath "/runs")).Nodup ∧
      ∃ runs, plannedRuns [sampleExperiment [run, other, run]] = .ok runs ∧
        ∃ place, Covering sampleBuiltins sampleRegistry (sampleArgs [run, other, run]) runs plan
          place := by
  intro run other
  obtain ⟨plan, hplan⟩ : ∃ plan, buildRunPlan sampleBuiltins sampleRegistry
      (sampleArgs [run, other, run]) [sampleExperiment [run, other, run]] = .ok plan :=
    Py.exists_ok (by decide +kernel)
  exact ⟨plan, hplan, planCoversSuite sampleBuiltins sampleRegistry (sampleArgs [run, other, run])
    [sampleExperiment [run, other, run]] plan hplan⟩

end RunSuite

end SchedSim
