import SchedSim.BenchmarkSpec
import Mathlib.Data.Fintype.Card
import Mathlib.Data.Set.Finite.Basic
import Mathlib.Logic.Relation

/-!
# Reused runs

`list_suite_specs` of `scripts/aggregate_results.py`, which lists the runs of every experiment of
a suite, those of the experiment it reuses included.  The recursion has a fuel, and what does not
return within any fuel does not return at all.

* `resolvedRuns` — the recursion along `reuse_from_experiment`, with its memo.
* `wellFounded_of_acyclic` — links from finitely many places that never lead back come to an end.
* `suiteSpec_resolves_iff` — the runs of an accepted suite are resolved exactly when every id is a
  key of a dictionary and no experiment reuses itself, directly or through others.
-/

namespace SchedSim

/-! ## Relations without cycles -/

open Relation in
/-- A relation that leads on from finitely many places only, and never back, has no infinite
descent. -/
theorem wellFounded_of_acyclic {α : Type*} {r : α → α → Prop} {sources : Set α}
    (hfinite : sources.Finite) (hsources : ∀ a b, r a b → a ∈ sources)
    (hacyclic : ∀ a, ¬ TransGen r a a) : WellFounded fun b a => r a b := by
  have : Finite sources := hfinite
  have : IsTrans sources fun b a => TransGen r a b :=
    ⟨fun _ _ _ hba hcb => TransGen.trans hcb hba⟩
  have : Std.Irrefl fun b a : sources => TransGen r (a : α) b := ⟨fun a => hacyclic a⟩
  have hwf : WellFounded fun b a : sources => TransGen r (a : α) b :=
    Finite.wellFounded_of_trans_of_irrefl _
  have hacc : ∀ a : sources, Acc (fun b a => r a b) (a : α) := by
    intro a
    induction a using hwf.induction with
    | _ a ih =>
      refine Acc.intro _ fun b hab => ?_
      by_cases hb : b ∈ sources
      · exact ih ⟨b, hb⟩ (TransGen.single hab)
      · exact Acc.intro _ fun c hbc => absurd (hsources b c hbc) hb
  refine ⟨fun a => ?_⟩
  by_cases ha : a ∈ sources
  · exact hacc ⟨a, ha⟩
  · exact Acc.intro _ fun b hab => absurd (hsources a b hab) ha

/-! ## Computations with a fuel -/

/-- A computation that may raise, and is cut off when its fuel is used up. -/
abbrev Fueled (α : Type) := ExceptT PyException Option α

namespace Fueled

variable {α β : Type}

def cutOff : Fueled α := ExceptT.mk none

def ofPy (x : Py α) : Fueled α := ExceptT.mk (some x)

/-- The computation comes to its end, with a value. -/
def Returns (x : Fueled α) (a : α) : Prop := x.run = some (.ok a)

@[simp] theorem not_returns_cutOff {a : α} : ¬ Returns cutOff a := by
  simp [Returns, cutOff]

@[simp] theorem returns_ofPy {x : Py α} {a : α} : Returns (ofPy x) a ↔ x = .ok a := by
  simp [Returns, ofPy]

@[simp] theorem returns_pure {a b : α} : Returns (pure a) b ↔ a = b := by
  simp [Returns]

theorem returns_bind {x : Fueled α} {f : α → Fueled β} {b : β} :
    Returns (x >>= f) b ↔ ∃ a, Returns x a ∧ Returns (f a) b := by
  simp only [Returns, ExceptT.run_bind]
  cases x.run with
  | none => simp
  | some result => cases result <;> simp

theorem Returns.unique {x : Fueled α} {a b : α} (ha : Returns x a) (hb : Returns x b) : a = b := by
  simpa [Returns] using ha.symm.trans hb

end Fueled

namespace AggregateResults

open Py RunSuite Fueled Relation
open ValidateBenchmarkSpec

/-! ## The script -/

/-- The dictionary of resolved runs by experiment -/
abbrev Memo := List (Json.Key × List Json)

/-- `{exp["id"]: exp ... if "id" in exp}`, one experiment more -/
def indexExperiment (entries : List (Json.Key × Json)) (exp : Json) :
    Py (List (Json.Key × Json)) := do
  let present ← exp.contains "id"
  if present = true then do
    let key ← hashed (← exp.item "id")
    return (key, exp) :: entries
  else return entries

/-- `exp_by_id`; of two experiments with one id the later one counts. -/
def expById (experiments : List Json) : Py (List (Json.Key × Json)) :=
  experiments.foldlM indexExperiment []

/-- `resolved_runs`: the runs of an experiment and of the one it reuses, and the memo after it -/
def resolvedRuns (byId : List (Json.Key × Json)) : ℕ → Memo → Json → Fueled (List Json × Memo)
  | 0, _, _ => cutOff
  | fuel + 1, memo, expId => do
    let key ← ofPy (hashed expId)
    match memo.lookup key with
    | some runs => return (runs, memo)
    | none =>
      let exp := (byId.lookup key).getD (.dict [])
      let runs ← ofPy (exp.get "runs" (.list []))
      let runs ← ofPy runs.iterate
      let parent ← ofPy (exp.get "reuse_from_experiment" .null)
      if parent.truthy then do
        let (inherited, memo) ← resolvedRuns byId fuel memo parent
        return (runs ++ inherited, (key, runs ++ inherited) :: memo)
      else return (runs, (key, runs) :: memo)

/-- A run as the aggregation compares it with the summary of an executed one -/
structure RunDef where
  workload : String
  cores : ℤ
  numTasks : ℤ
  stopTime : Double
  topology : Json
  balancer : Json
  workStealing : String

/-- `v is True` -/
def isTrue : Json → Bool
  | .bool b => b
  | _ => false

section

variable (py : Builtins) (spec : Json)

def normalizedRun (run : Json) : Py RunDef := do
  let defaults ← spec.get "defaults" (.dict [])
  let topology ← run.get "topology" (← defaults.get "topology" (.str "sq"))
  let balancer ← (if topology.isStr "mq" then run.get "balancer" (.str "leastloaded")
    else pure (.str "na"))
  let ws ← (if topology.isStr "mq" then run.get "work_stealing" (.bool true)
    else pure (.str "na"))
  let workload ← run.get "workload" (.str "")
  let cores ← py.int (← run.get "cores" (.int 0))
  let numTasks ← py.int (← run.get "num_tasks" (.int 0))
  let stopTime ← py.float (← run.get "stop_time" (.float (Double.ofRat 0)))
  return {
    workload := py.lower (py.str workload)
    cores
    numTasks
    stopTime
    topology
    balancer
    workStealing := if isTrue ws then "on" else if ws.isFalse then "off" else "na" }

/-- An experiment as `list_suite_specs` lists it -/
structure ExperimentSpec where
  id : Json
  runs : List RunDef

/-- One iteration of the loop over the experiments -/
def resolveExperiment (byId : List (Json.Key × Json)) (fuel : ℕ)
    (state : List ExperimentSpec × Memo) (exp : Json) : Fueled (List ExperimentSpec × Memo) := do
  let expId ← ofPy (exp.get "id" .null)
  if expId.truthy then do
    let (runs, memo) ← resolvedRuns byId fuel state.2 expId
    let runs ← ofPy (runs.mapM (normalizedRun py spec))
    return (state.1 ++ [{ id := expId, runs }], memo)
  else return state

/-- What `list_suite_specs` stores under the id of a suite, but the path of the file -/
structure SuiteSpec where
  benchmarkVersion : Json
  experiments : List ExperimentSpec

/-- What `list_suite_specs` makes of one document: its id and what is stored under it, or nothing
where the loop over the files goes on to the next one. -/
def suiteSpec (fuel : ℕ) : Fueled (Option (Json × SuiteSpec)) := do
  match spec with
  | .dict _ =>
    let suiteId ← ofPy (spec.get "suite_id" .null)
    if suiteId.truthy then do
      let experiments ← ofPy (spec.get "experiments" (.list []))
      let experiments ← ofPy experiments.iterate
      let byId ← ofPy (expById experiments)
      let state ← experiments.foldlM (resolveExperiment py spec byId fuel) ([], [])
      let benchmarkVersion ← ofPy (spec.get "benchmark_version" (.str ""))
      return some (suiteId, { benchmarkVersion, experiments := state.1 })
    else return none
  | _ => return none

end

/-! ## Links -/

/-- `exp` is the last experiment with this id. -/
def Named (experiments : List Json) (key : Json.Key) (exp : Json) : Prop :=
  ∃ before after, experiments = before ++ exp :: after ∧ experimentKey exp = .ok key ∧
    ∀ later ∈ after, experimentKey later ≠ .ok key

/-- The experiment with the one id reuses the runs of the other. -/
def Reuses (experiments : List Json) (key parentKey : Json.Key) : Prop :=
  ∃ exp parent, Named experiments key exp ∧ exp.item "reuse_from_experiment" = .ok parent ∧
    parent.truthy = true ∧ parent.key? = some parentKey

/-- What the listing needs of an accepted suite: defaults that are a dictionary, experiments with
an id and with runs that have their fields, and parents that are keys of a dictionary. -/
structure ListChecks (py : Builtins) (doc : Json) (experiments : List Json) : Prop where
  defaults : ∃ fields, doc.item "defaults" = .ok (.dict fields)
  runs : ∀ exp ∈ experiments, ∃ runs, exp.get "runs" (.list []) = .ok (.list runs) ∧
    ∀ run ∈ runs, ValidRun py run
  ids : ∀ exp ∈ experiments, ∃ id, exp.item "id" = .ok id
  parents : ∀ exp ∈ experiments, ∀ parent, exp.item "reuse_from_experiment" = .ok parent →
    parent.truthy = true → ∃ key, parent.key? = some key

variable {py : Builtins} {registry : BenchmarkPluginRegistry} {doc : Json}
  {experiments : List Json}

theorem isDict_of_defaultsChecks {defaults : Json} (h : DefaultsChecks py registry defaults) :
    ∃ fields, defaults = .dict fields := by
  obtain ⟨v, hv, -⟩ := h.topology
  exact isDict_of_item hv

theorem listChecks_of_runner (h : RunSuite.validateSuite py registry doc = .ok ())
    (hlisted : doc.item "experiments" = .ok (.list experiments)) :
    ListChecks py doc experiments := by
  simp only [RunSuite.validateSuite, bind_eq_ok, failIf_eq_ok, forM_eq_ok, exists_const,
    Bool.not_eq_false, mapM_eq_ok] at h
  obtain ⟨-, _, -, -, _, hlisted', -, defaults, hdefaults, _, hchecks, items, hitems, ids, hids,
    heach, hparents⟩ := h
  obtain rfl := Except.ok.inj (hlisted.symm.trans hlisted')
  obtain rfl := Except.ok.inj hitems
  obtain ⟨fields, rfl⟩ := isDict_of_defaultsChecks (runSuite_validateDefaults_eq_ok.1 hchecks)
  refine ⟨⟨fields, hdefaults⟩, fun exp hexp => ?_, fun exp hexp => ?_, fun exp hexp => ?_⟩
  all_goals
    have hexperiment := heach exp hexp
    simp only [RunSuite.validateExperiment, experimentId, bind_eq_ok, failIf_eq_ok, exists_const,
      Bool.not_eq_false, isList_iff, pure_eq_ok] at hexperiment
    obtain ⟨id, ⟨v, hv, hid⟩, hne, _, hruns, ⟨runs, rfl⟩, _, ⟨⟩, hall⟩ := hexperiment
  · refine ⟨runs, hruns, fun run hrun => ?_⟩
    obtain ⟨i, hi⟩ := List.mem_iff_getElem?.1 hrun
    exact validRun_of_validateRun (forM_eq_ok.1 hall (run, i)
      (List.mk_mem_zipIdx_iff_getElem?.2 hi))
  · rcases get_eq_ok.1 hv with hitem | ⟨-, rfl⟩
    · exact ⟨v, hitem⟩
    · rw [py.str_str] at hid
      exact absurd hid.symm hne
  · intro parent hparent htruthy
    obtain ⟨id, -, rfl⟩ := (runSuite_validateReuse_eq_ok (isDict_of_get hruns)).1
      (hparents exp hexp) parent hparent htruthy
    exact ⟨_, rfl⟩

theorem listChecks_of_spec (h : validateDocument py registry doc = .ok ())
    (hlisted : doc.item "experiments" = .ok (.list experiments)) :
    ListChecks py doc experiments := by
  obtain ⟨experiments', hchecks, ids, hspec⟩ := validateDocument_eq_ok.1 h
  obtain rfl : experiments = experiments' := by simpa using hlisted.symm.trans hchecks.listed
  obtain ⟨defaults, hdefaults, hdefaultsChecks⟩ := hchecks.defaults
  obtain ⟨fields, rfl⟩ := isDict_of_defaultsChecks hdefaultsChecks
  refine ⟨⟨fields, hdefaults⟩, fun exp hexp => ?_, fun exp hexp => ?_,
    fun exp hexp parent hparent htruthy => ?_⟩
  · obtain ⟨runs, hruns, hall⟩ := (hchecks.each exp hexp).runs
    exact ⟨runs, hruns, fun run hrun => (hall run hrun).toValidRun⟩
  · exact (contains_eq_true (hchecks.each exp hexp).isDict.choose_spec).1
      (hspec.keys exp hexp "id" (by simp [requiredExperimentKeys]))
  · obtain ⟨id, -, hid⟩ := hspec.parents exp hexp parent hparent htruthy
    exact ⟨id, hid⟩

theorem named_cons {exp first : Json} {key : Json.Key} :
    Named (first :: experiments) key exp ↔ Named experiments key exp ∨
      (∀ later ∈ experiments, experimentKey later ≠ .ok key) ∧ first = exp ∧
        experimentKey first = .ok key := by
  constructor
  · rintro ⟨before, after, hsplit, hkey, hlater⟩
    cases before with
    | nil =>
      obtain ⟨rfl, rfl⟩ := List.cons.inj hsplit
      exact .inr ⟨hlater, rfl, hkey⟩
    | cons _ before =>
      obtain ⟨-, rfl⟩ := List.cons.inj hsplit
      exact .inl ⟨before, after, rfl, hkey, hlater⟩
  · rintro (⟨before, after, rfl, hkey, hlater⟩ | ⟨hlater, rfl, hkey⟩)
    · exact ⟨first :: before, after, rfl, hkey, hlater⟩
    · exact ⟨[], experiments, rfl, hkey, hlater⟩

theorem indexExperiment_eq_ok {entries entries' : List (Json.Key × Json)} {exp id : Json}
    (hid : exp.item "id" = .ok id) :
    indexExperiment entries exp = .ok entries' ↔
      ∃ key, experimentKey exp = .ok key ∧ entries' = (key, exp) :: entries := by
  have hpresent := (contains_eq_true (isDict_of_item hid).choose_spec).2 ⟨id, hid⟩
  simp only [indexExperiment, experimentKey, hpresent, hid, bind_eq_ok, Except.ok.injEq,
    exists_eq_left', if_true, pure_eq_ok]
  exact exists_congr fun key => and_congr Iff.rfl eq_comm

/-- The dictionary leads from an id to the last experiment with it. -/
theorem lookup_of_foldlM {entries entries' : List (Json.Key × Json)}
    (hids : ∀ exp ∈ experiments, ∃ id, exp.item "id" = .ok id)
    (h : experiments.foldlM indexExperiment entries = .ok entries') :
    (∀ exp ∈ experiments, ∃ key, experimentKey exp = .ok key) ∧
      ∀ key exp, entries'.lookup key = some exp ↔ Named experiments key exp ∨
        (∀ later ∈ experiments, experimentKey later ≠ .ok key) ∧ entries.lookup key = some exp := by
  induction experiments generalizing entries with
  | nil =>
    rw [List.foldlM_nil, pure_eq_ok] at h
    subst h
    simp [Named]
  | cons first experiments ih =>
    obtain ⟨⟨id, hid⟩, hids⟩ := List.forall_mem_cons.1 hids
    rw [List.foldlM_cons, bind_eq_ok] at h
    obtain ⟨entries₁, hfirst, hrest⟩ := h
    obtain ⟨firstKey, hkey, rfl⟩ := (indexExperiment_eq_ok hid).1 hfirst
    obtain ⟨hkeys, hlookup⟩ := ih hids hrest
    refine ⟨List.forall_mem_cons.2 ⟨⟨firstKey, hkey⟩, hkeys⟩, fun key exp => ?_⟩
    rw [hlookup, named_cons, or_assoc]
    refine or_congr_right ?_
    rw [List.forall_mem_cons, List.lookup_cons]
    by_cases hsame : key = firstKey
    · subst hsame
      simp [hkey]
    · have hne : experimentKey first ≠ .ok key := by
        rw [hkey]
        simpa using Ne.symm hsame
      simp [hne, beq_false_of_ne hsame]

theorem exists_foldlM_index {entries : List (Json.Key × Json)}
    (hkeys : ∀ exp ∈ experiments, ∃ key, experimentKey exp = .ok key) :
    ∃ entries', experiments.foldlM indexExperiment entries = .ok entries' := by
  induction experiments generalizing entries with
  | nil => exact ⟨entries, rfl⟩
  | cons first experiments ih =>
    obtain ⟨⟨key, hkey⟩, hkeys⟩ := List.forall_mem_cons.1 hkeys
    obtain ⟨id, hid, -⟩ := bind_eq_ok.1 hkey
    obtain ⟨entries', hrest⟩ := ih hkeys
    exact ⟨entries', bind_eq_ok.2 ⟨_, (indexExperiment_eq_ok hid).2 ⟨key, hkey, rfl⟩, hrest⟩⟩

/-- `expById` leads from an id to the last experiment with it. -/
theorem lookup_expById {byId : List (Json.Key × Json)} (hlinks : ListChecks py doc experiments)
    (h : expById experiments = .ok byId) (key : Json.Key) (exp : Json) :
    byId.lookup key = some exp ↔ Named experiments key exp := by
  rw [(lookup_of_foldlM hlinks.ids h).2]
  simp

/-! ## The recursion -/

/-- What a call that returns has found: the runs in the memo, or those of the experiment and of
the one it reuses. -/
theorem returns_resolvedRuns {byId : List (Json.Key × Json)} {fuel : ℕ} {memo : Memo}
    {expId : Json} {key : Json.Key} {result : List Json × Memo} (hkey : expId.key? = some key) :
    Returns (resolvedRuns byId (fuel + 1) memo expId) result ↔
      (∃ runs, memo.lookup key = some runs ∧ result = (runs, memo)) ∨
      memo.lookup key = none ∧ ∃ v runs parent,
        ((byId.lookup key).getD (.dict [])).get "runs" (.list []) = .ok v ∧ v.iterate = .ok runs ∧
        ((byId.lookup key).getD (.dict [])).get "reuse_from_experiment" .null = .ok parent ∧
        (parent.truthy = false ∧ result = (runs, (key, runs) :: memo) ∨
          parent.truthy = true ∧ ∃ inherited memo',
            Returns (resolvedRuns byId fuel memo parent) (inherited, memo') ∧
            result = (runs ++ inherited, (key, runs ++ inherited) :: memo')) := by
  rw [resolvedRuns, returns_bind]
  simp only [returns_ofPy, hashed_eq_ok, hkey, Option.some.injEq, exists_eq_left']
  cases hmemo : memo.lookup key with
  | some runs =>
    constructor
    · intro h
      exact .inl ⟨runs, rfl, (returns_pure.1 h).symm⟩
    · rintro (⟨_, ⟨⟩, rfl⟩ | ⟨⟨⟩, -⟩)
      exact returns_pure.2 rfl
  | none =>
    simp only [returns_bind, returns_ofPy, reduceCtorEq, false_and, exists_false, false_or,
      true_and]
    constructor
    · rintro ⟨v, hv, runs, hruns, parent, hparent, hresult⟩
      refine ⟨v, runs, parent, hv, hruns, hparent, ?_⟩
      split at hresult
      next htruthy =>
        obtain ⟨⟨inherited, memo'⟩, hcall, hresult⟩ := returns_bind.1 hresult
        exact .inr ⟨htruthy, inherited, memo', hcall, (returns_pure.1 hresult).symm⟩
      next htruthy =>
        exact .inl ⟨by simpa using htruthy, (returns_pure.1 hresult).symm⟩
    · rintro ⟨v, runs, parent, hv, hruns, hparent,
        ⟨hfalse, rfl⟩ | ⟨htruthy, inherited, memo', hcall, rfl⟩⟩
      · refine ⟨v, hv, runs, hruns, parent, hparent, ?_⟩
        rw [if_neg (by simp [hfalse])]
        exact returns_pure.2 rfl
      · refine ⟨v, hv, runs, hruns, parent, hparent, ?_⟩
        rw [if_pos htruthy]
        exact returns_bind.2 ⟨(inherited, memo'), hcall, returns_pure.2 rfl⟩

/-- Only a key of a dictionary is looked up. -/
theorem key_of_returns {byId : List (Json.Key × Json)} {fuel : ℕ} {memo : Memo} {expId : Json}
    {result : List Json × Memo} (h : Returns (resolvedRuns byId fuel memo expId) result) :
    ∃ key, expId.key? = some key := by
  cases fuel with
  | zero => exact absurd h not_returns_cutOff
  | succ fuel =>
    rw [resolvedRuns, returns_bind] at h
    obtain ⟨key, hkey, -⟩ := h
    exact ⟨key, hashed_eq_ok.1 (returns_ofPy.1 hkey)⟩

section

variable {byId : List (Json.Key × Json)}
  (hbyId : ∀ key exp, byId.lookup key = some exp ↔ Named experiments key exp)

/-- No experiment of the memo reuses itself. -/
def Clean (experiments : List Json) (memo : Memo) : Prop :=
  ∀ key runs, memo.lookup key = some runs → ¬ TransGen (Reuses experiments) key key

include hbyId

/-- **The runs of an experiment that reuses itself are never resolved**: each call needs another
one, and none of them has put its runs into the memo yet. -/
theorem not_returns_of_cycle {key : Json.Key}
    (hcycle : TransGen (Reuses experiments) key key) (fuel : ℕ) {memo : Memo} {expId : Json}
    (hkey : expId.key? = some key) (hmemo : Clean experiments memo) (result : List Json × Memo) :
    ¬ Returns (resolvedRuns byId fuel memo expId) result := by
  induction fuel generalizing key expId result with
  | zero => exact not_returns_cutOff
  | succ fuel ih =>
    intro hreturns
    obtain ⟨parentKey, hreuses, hback⟩ := TransGen.head'_iff.1 hcycle
    have hnext : TransGen (Reuses experiments) parentKey parentKey := TransGen.tail' hback hreuses
    obtain ⟨exp, parent, hnamed, hparent, htruthy, hparentKey⟩ := hreuses
    rcases (returns_resolvedRuns hkey).1 hreturns with ⟨runs, hruns, -⟩ | ⟨-, v, runs, parent', -,
      -, hparent', hrest⟩
    · exact hmemo key runs hruns hcycle
    · rw [(hbyId key exp).2 hnamed, Option.getD_some, get_of_item hparent] at hparent'
      obtain rfl := Except.ok.inj hparent'
      rcases hrest with ⟨hfalse, -⟩ | ⟨-, inherited, memo', hcall, -⟩
      · rw [htruthy] at hfalse
        cases hfalse
      · exact ih hnext hparentKey (inherited, memo') hcall

/-- A call that returns adds no experiment that reuses itself to the memo. -/
theorem clean_of_returns {fuel : ℕ} {memo memo' : Memo} {expId : Json} {runs : List Json}
    (hmemo : Clean experiments memo)
    (h : Returns (resolvedRuns byId fuel memo expId) (runs, memo')) :
    Clean experiments memo' := by
  induction fuel generalizing expId runs memo' with
  | zero => exact absurd h not_returns_cutOff
  | succ fuel ih =>
    obtain ⟨key, hkey⟩ := key_of_returns h
    have hself : ¬ TransGen (Reuses experiments) key key := fun hcycle =>
      not_returns_of_cycle hbyId hcycle (fuel + 1) hkey hmemo _ h
    have hcons : ∀ {memo : Memo} {runs : List Json}, Clean experiments memo →
        Clean experiments ((key, runs) :: memo) := by
      intro memo runs hmemo k runs' hlookup
      rw [List.lookup_cons] at hlookup
      split at hlookup
      next hsame =>
        rw [beq_iff_eq] at hsame
        exact hsame ▸ hself
      next => exact hmemo k runs' hlookup
    rcases (returns_resolvedRuns hkey).1 h with ⟨_, -, hresult⟩ | ⟨-, v, own, parent, -, -, -,
      ⟨-, hresult⟩ | ⟨-, inherited, memo₁, hcall, hresult⟩⟩
    · rw [(Prod.mk.inj hresult).2]
      exact hmemo
    · rw [(Prod.mk.inj hresult).2]
      exact hcons hmemo
    · rw [(Prod.mk.inj hresult).2]
      exact hcons (ih hcall)

end

/-! ## Links that come to an end -/

/-- The runs a memo holds pass the checks of a run. -/
def Sound (py : Builtins) (memo : Memo) : Prop :=
  ∀ key runs, memo.lookup key = some runs → ∀ run ∈ runs, ValidRun py run

theorem Sound.cons {memo : Memo} {key : Json.Key} {runs : List Json}
    (hmemo : Sound py memo) (hruns : ∀ run ∈ runs, ValidRun py run) :
    Sound py ((key, runs) :: memo) := by
  intro k runs' hlookup
  rw [List.lookup_cons] at hlookup
  split at hlookup
  next =>
    obtain rfl := Option.some.inj hlookup
    exact hruns
  next => exact hmemo k runs' hlookup

/-- From some fuel on, a call returns runs that pass the checks, with every memo of such runs. -/
def Resolves (py : Builtins) (byId : List (Json.Key × Json)) (expId : Json) (fuel : ℕ) : Prop :=
  ∀ memo, Sound py memo → ∃ runs memo',
    Returns (resolvedRuns byId fuel memo expId) (runs, memo') ∧ Sound py memo' ∧
      ∀ run ∈ runs, ValidRun py run

/-- A relation of links that never lead back comes to an end. -/
theorem wellFounded_reuses (hacyclic : ∀ key, ¬ TransGen (Reuses experiments) key key) :
    WellFounded fun parentKey key => Reuses experiments key parentKey := by
  refine @wellFounded_of_acyclic _ _ {key | ∃ exp ∈ experiments, experimentKey exp = .ok key} ?_ ?_
    hacyclic
  · refine Set.Finite.subset (experiments.filterMap fun exp =>
      (experimentKey exp).toOption).finite_toSet ?_
    rintro key ⟨exp, hexp, hkey⟩
    exact List.mem_filterMap.2 ⟨exp, hexp, by rw [hkey]; rfl⟩
  · rintro key parentKey ⟨exp, parent, ⟨before, after, rfl, hkey, -⟩, -⟩
    exact ⟨exp, by simp, hkey⟩

/-- What a call finds under the id of an experiment of an accepted suite, or of none at all. -/
theorem own_of_checks {byId : List (Json.Key × Json)}
    (hbyId : ∀ key exp, byId.lookup key = some exp ↔ Named experiments key exp)
    (hlinks : ListChecks py doc experiments) (key : Json.Key) :
    ∃ runs parent,
      ((byId.lookup key).getD (.dict [])).get "runs" (.list []) = .ok (.list runs) ∧
      (∀ run ∈ runs, ValidRun py run) ∧
      ((byId.lookup key).getD (.dict [])).get "reuse_from_experiment" .null = .ok parent ∧
      (parent.truthy = true → ∃ parentKey, parent.key? = some parentKey ∧
        Reuses experiments key parentKey) := by
  cases hlookup : byId.lookup key with
  | none => exact ⟨[], .null, rfl, by simp, rfl, by simp [Json.truthy]⟩
  | some exp =>
    have hnamed := (hbyId key exp).1 hlookup
    have hexp : exp ∈ experiments := by
      obtain ⟨before, after, rfl, -⟩ := hnamed
      simp
    obtain ⟨runs, hruns, hall⟩ := hlinks.runs exp hexp
    obtain ⟨fields, hfields⟩ := isDict_of_get hruns
    obtain ⟨parent, hparent⟩ : ∃ parent, exp.get "reuse_from_experiment" .null = .ok parent := by
      rw [hfields]
      exact ⟨_, rfl⟩
    refine ⟨runs, parent, hruns, hall, hparent, fun htruthy => ?_⟩
    rcases get_eq_ok.1 hparent with hitem | ⟨-, rfl⟩
    · obtain ⟨parentKey, hparentKey⟩ := hlinks.parents exp hexp parent hitem htruthy
      exact ⟨parentKey, hparentKey, exp, parent, hnamed, hitem, htruthy, hparentKey⟩
    · cases htruthy

/-- **Every call returns where no experiment reuses itself**, by induction along the links. -/
theorem resolves_of_acyclic {byId : List (Json.Key × Json)}
    (hbyId : ∀ key exp, byId.lookup key = some exp ↔ Named experiments key exp)
    (hlinks : ListChecks py doc experiments)
    (hacyclic : ∀ key, ¬ TransGen (Reuses experiments) key key)
    {key : Json.Key} {expId : Json} (hkey : expId.key? = some key) :
    ∃ least, ∀ fuel ≥ least, Resolves py byId expId fuel := by
  induction key using (wellFounded_reuses hacyclic).induction generalizing expId with
  | _ key ih =>
    obtain ⟨runs, parent, hruns, hall, hparent, hreuses⟩ := own_of_checks hbyId hlinks key
    by_cases htruthy : parent.truthy = true
    · obtain ⟨parentKey, hparentKey, hlink⟩ := hreuses htruthy
      obtain ⟨least, hleast⟩ := ih parentKey hlink hparentKey
      refine ⟨least + 1, fun fuel hfuel memo hmemo => ?_⟩
      obtain ⟨fuel, rfl⟩ := Nat.exists_eq_add_of_le' (Nat.one_le_of_lt hfuel)
      cases hlookup : memo.lookup key with
      | some known =>
        exact ⟨known, memo, (returns_resolvedRuns hkey).2 (.inl ⟨known, hlookup, rfl⟩), hmemo,
          hmemo key known hlookup⟩
      | none =>
        obtain ⟨inherited, memo', hcall, hmemo', hinherited⟩ := hleast fuel (by omega) memo hmemo
        have happend : ∀ run ∈ runs ++ inherited, ValidRun py run := by
          intro run hrun
          exact (List.mem_append.1 hrun).elim (hall run) (hinherited run)
        exact ⟨_, _, (returns_resolvedRuns hkey).2 (.inr ⟨hlookup, .list runs, runs, parent, hruns,
          rfl, hparent, .inr ⟨htruthy, inherited, memo', hcall, rfl⟩⟩), hmemo'.cons happend,
          happend⟩
    · refine ⟨1, fun fuel hfuel memo hmemo => ?_⟩
      obtain ⟨fuel, rfl⟩ := Nat.exists_eq_add_of_le' hfuel
      cases hlookup : memo.lookup key with
      | some known =>
        exact ⟨known, memo, (returns_resolvedRuns hkey).2 (.inl ⟨known, hlookup, rfl⟩), hmemo,
          hmemo key known hlookup⟩
      | none =>
        exact ⟨_, _, (returns_resolvedRuns hkey).2 (.inr ⟨hlookup, .list runs, runs, parent, hruns,
          rfl, hparent, .inl ⟨by simpa using htruthy, rfl⟩⟩), hmemo.cons hall, hall⟩

/-! ## The loop over the experiments -/

/-- What holds from some number on of each element holds of all of them from some number on. -/
theorem exists_least {α : Type} {P : α → ℕ → Prop} {l : List α}
    (h : ∀ a ∈ l, ∃ least, ∀ n ≥ least, P a n) : ∃ least, ∀ n ≥ least, ∀ a ∈ l, P a n := by
  induction l with
  | nil => exact ⟨0, by simp⟩
  | cons a l ih =>
    obtain ⟨⟨first, hfirst⟩, hrest⟩ := List.forall_mem_cons.1 h
    obtain ⟨least, hleast⟩ := ih hrest
    refine ⟨max first least, fun n hn => List.forall_mem_cons.2 ⟨hfirst n ?_, hleast n ?_⟩⟩
    · exact (le_max_left _ _).trans hn
    · exact (le_max_right _ _).trans hn

/-- A dictionary can be asked for any field, if there is a default. -/
theorem exists_get {v : Json} (hdict : ∃ fields, v = .dict fields) (key : String) (default : Json) :
    ∃ value, v.get key default = .ok value := by
  obtain ⟨fields, rfl⟩ := hdict
  exact ⟨_, rfl⟩

/-- A run that passes the checks can be listed. -/
theorem exists_normalizedRun {run : Json} (hlinks : ListChecks py doc experiments)
    (hrun : ValidRun py run) : ∃ listed, normalizedRun py doc run = .ok listed := by
  obtain ⟨vcores, cores, hvcores, hcores, -⟩ := hrun.cores
  obtain ⟨vtasks, tasks, hvtasks, htasks, -⟩ := hrun.numTasks
  obtain ⟨vstop, stop, hvstop, hstop, -⟩ := hrun.stopTime
  obtain ⟨fields, hdefaults⟩ := hlinks.defaults
  obtain ⟨vtop, hvtop⟩ := exists_get ⟨fields, rfl⟩ "topology" (.str "sq")
  have hdict := hrun.isDict
  obtain ⟨topology, htopology⟩ := exists_get hdict "topology" vtop
  obtain ⟨workload, hworkload⟩ := exists_get hdict "workload" (.str "")
  have hoption : ∀ key default, ∃ value, (if topology.isStr "mq" then run.get key default
      else pure (.str "na") : Py Json) = .ok value := by
    intro key default
    split
    · exact exists_get hdict key default
    · exact ⟨_, rfl⟩
  obtain ⟨balancer, hbalancer⟩ := hoption "balancer" (.str "leastloaded")
  obtain ⟨ws, hws⟩ := hoption "work_stealing" (.bool true)
  simp only [normalizedRun, bind_eq_ok, pure_eq_ok]
  exact ⟨_, _, get_of_item hdefaults, vtop, hvtop, topology, htopology, balancer,
    hbalancer, ws, hws, workload, hworkload, vcores, get_of_item hvcores, cores, hcores, vtasks,
    get_of_item hvtasks, tasks, htasks, vstop, get_of_item hvstop, stop, hstop, rfl⟩

theorem exists_mapM {α β : Type} {f : α → Py β} {l : List α} (h : ∀ a ∈ l, ∃ b, f a = .ok b) :
    ∃ results, l.mapM f = .ok results := by
  induction l with
  | nil => exact ⟨[], rfl⟩
  | cons a l ih =>
    obtain ⟨⟨b, hb⟩, hrest⟩ := List.forall_mem_cons.1 h
    obtain ⟨results, hresults⟩ := ih hrest
    refine ⟨b :: results, ?_⟩
    rw [mapM_eq_ok] at hresults ⊢
    exact .cons hb hresults

/-- The loop returns when every call of it does. -/
theorem exists_returns_foldlM {byId : List (Json.Key × Json)} {fuel : ℕ}
    {listed : List Json} {state : List ExperimentSpec × Memo}
    (hlinks : ListChecks py doc experiments)
    (hresolves : ∀ exp ∈ listed, ∃ id, exp.item "id" = .ok id ∧
      (id.truthy = true → Resolves py byId id fuel))
    (hmemo : Sound py state.2) :
    ∃ state', Returns (listed.foldlM (resolveExperiment py doc byId fuel) state) state' := by
  induction listed generalizing state with
  | nil => exact ⟨state, returns_pure.2 rfl⟩
  | cons exp listed ih =>
    obtain ⟨⟨id, hid, hresolve⟩, hrest⟩ := List.forall_mem_cons.1 hresolves
    have hstep : ∃ state₁, Returns (resolveExperiment py doc byId fuel state exp) state₁ ∧
        Sound py state₁.2 := by
      simp only [resolveExperiment, returns_bind, returns_ofPy, get_of_item hid, Except.ok.injEq,
        exists_eq_left']
      by_cases htruthy : id.truthy = true
      · obtain ⟨runs, memo', hcall, hmemo', hruns⟩ := hresolve htruthy state.2 hmemo
        obtain ⟨results, hresults⟩ := exists_mapM fun run hrun =>
          exists_normalizedRun hlinks (hruns run hrun)
        refine ⟨(state.1 ++ [{ id, runs := results }], memo'), ?_, hmemo'⟩
        rw [if_pos htruthy]
        exact returns_bind.2 ⟨(runs, memo'), hcall, returns_bind.2 ⟨results,
          returns_ofPy.2 hresults, returns_pure.2 rfl⟩⟩
      · refine ⟨state, ?_, hmemo⟩
        rw [if_neg htruthy]
        exact returns_pure.2 rfl
    obtain ⟨state₁, hstep, hmemo₁⟩ := hstep
    obtain ⟨state', hrun⟩ := ih hrest hmemo₁
    refine ⟨state', ?_⟩
    rw [List.foldlM_cons]
    exact returns_bind.2 ⟨state₁, hstep, hrun⟩

/-- When the loop returns, no experiment of it with an id that is looked at reuses itself. -/
theorem not_cycle_of_foldlM {byId : List (Json.Key × Json)} {fuel : ℕ}
    (hbyId : ∀ key exp, byId.lookup key = some exp ↔ Named experiments key exp)
    {listed : List Json} {state state' : List ExperimentSpec × Memo}
    (hmemo : Clean experiments state.2)
    (h : Returns (listed.foldlM (resolveExperiment py doc byId fuel) state) state') :
    ∀ exp ∈ listed, ∀ id key, exp.item "id" = .ok id → id.truthy = true → id.key? = some key →
      ¬ TransGen (Reuses experiments) key key := by
  induction listed generalizing state with
  | nil => simp
  | cons exp listed ih =>
    rw [List.foldlM_cons, returns_bind] at h
    obtain ⟨state₁, hstep, hrest⟩ := h
    simp only [resolveExperiment, returns_bind, returns_ofPy] at hstep
    obtain ⟨expId, hexpId, hstep⟩ := hstep
    split at hstep
    next htruthy =>
      simp only [returns_bind, returns_ofPy, returns_pure] at hstep
      obtain ⟨⟨runs, memo'⟩, hcall, results, -, rfl⟩ := hstep
      refine List.forall_mem_cons.2 ⟨fun id key hid _ hkey hcycle => ?_,
        ih (clean_of_returns hbyId hmemo hcall) hrest⟩
      obtain rfl : expId = id := by simpa using hexpId.symm.trans (get_of_item hid)
      exact not_returns_of_cycle hbyId hcycle fuel hkey hmemo _ hcall
    next hfalse =>
      obtain rfl := returns_pure.1 hstep
      refine List.forall_mem_cons.2 ⟨fun id key hid htruthy _ => ?_, ih hmemo hrest⟩
      obtain rfl : expId = id := by simpa using hexpId.symm.trans (get_of_item hid)
      exact absurd htruthy hfalse

/-- The truth value of what a key stands for -/
def keyTruthy : Json.Key → Bool
  | .none => false
  | .number x => x ≠ 0
  | .special _ => true
  | .str s => s ≠ ""

theorem truthy_of_key? {v : Json} {key : Json.Key} (h : v.key? = some key) :
    v.truthy = keyTruthy key := by
  cases v with
  | float x =>
    cases x <;> (obtain rfl := Option.some.inj h) <;> rfl
  | bool b =>
    obtain rfl := Option.some.inj h
    cases b <;> simp [keyTruthy, Json.truthy]
  | int n =>
    obtain rfl := Option.some.inj h
    simp [keyTruthy, Json.truthy]
  | list items => cases h
  | dict fields => cases h
  | _ =>
    obtain rfl := Option.some.inj h
    rfl

/-- What is reused leads from an id that is looked at. -/
theorem truthy_of_cycle {key : Json.Key} (hcycle : TransGen (Reuses experiments) key key) :
    keyTruthy key = true := by
  obtain ⟨before, -, exp, parent, -, -, htruthy, hkey⟩ := TransGen.tail'_iff.1 hcycle
  rw [← truthy_of_key? hkey, htruthy]

/-- A suite with an id that is listed has ids that are keys, and no experiment of it reuses
itself. -/
theorem acyclic_of_returns {suiteId : Json} {fuel : ℕ} {result : Option (Json × SuiteSpec)}
    (hlinks : ListChecks py doc experiments)
    (hlisted : doc.item "experiments" = .ok (.list experiments))
    (hsuiteId : doc.item "suite_id" = .ok suiteId) (htruthy : suiteId.truthy = true)
    (h : Returns (suiteSpec py doc fuel) result) :
    (∀ exp ∈ experiments, ∃ key, experimentKey exp = .ok key) ∧
      ∀ key, ¬ TransGen (Reuses experiments) key key := by
  obtain ⟨fields, rfl⟩ := isDict_of_item hlisted
  simp only [suiteSpec, returns_bind, returns_ofPy, get_of_item hsuiteId, Except.ok.injEq,
    exists_eq_left', if_pos htruthy, get_of_item hlisted, Json.iterate] at h
  obtain ⟨byId, hbyId, state, hloop, -⟩ := h
  refine ⟨(lookup_of_foldlM hlinks.ids hbyId).1, fun key hcycle => ?_⟩
  -- an experiment on a cycle is one that the loop asks for
  obtain ⟨_, ⟨exp, parent, ⟨before, after, rfl, hkey, -⟩, -⟩, -⟩ := TransGen.head'_iff.1 hcycle
  obtain ⟨id, hid, hhash⟩ := bind_eq_ok.1 hkey
  have hidKey := hashed_eq_ok.1 hhash
  refine not_cycle_of_foldlM (lookup_expById hlinks hbyId) ?_ hloop exp (by simp) id key hid ?_
    hidKey hcycle
  · simp [Clean]
  · rw [truthy_of_key? hidKey, truthy_of_cycle hcycle]

/-- From some fuel on, every experiment of the loop is resolved. -/
theorem resolves_experiments {byId : List (Json.Key × Json)}
    (hlinks : ListChecks py doc experiments)
    (hbyId : expById experiments = .ok byId)
    (hkeys : ∀ exp ∈ experiments, ∃ key, experimentKey exp = .ok key)
    (hacyclic : ∀ key, ¬ TransGen (Reuses experiments) key key) :
    ∃ fuel, ∀ exp ∈ experiments, ∃ id, exp.item "id" = .ok id ∧
      (id.truthy = true → Resolves py byId id fuel) := by
  have hall : ∀ exp ∈ experiments, ∃ least, ∀ fuel ≥ least, ∃ id, exp.item "id" = .ok id ∧
      (id.truthy = true → Resolves py byId id fuel) := by
    intro exp hexp
    obtain ⟨key, hkey⟩ := hkeys exp hexp
    obtain ⟨id, hid, hhash⟩ := bind_eq_ok.1 hkey
    obtain ⟨least, hleast⟩ := resolves_of_acyclic (lookup_expById hlinks hbyId) hlinks hacyclic
      (hashed_eq_ok.1 hhash)
    exact ⟨least, fun fuel hfuel => ⟨id, hid, fun _ => hleast fuel hfuel⟩⟩
  obtain ⟨least, hleast⟩ := exists_least hall
  exact ⟨least, hleast least le_rfl⟩

/-- A suite with an id is listed if the ids of its experiments are keys and no experiment of it
reuses itself. -/
theorem exists_suiteSpec {suiteId : Json} (hlinks : ListChecks py doc experiments)
    (hlisted : doc.item "experiments" = .ok (.list experiments))
    (hsuiteId : doc.get "suite_id" .null = .ok suiteId) (htruthy : suiteId.truthy = true)
    (hkeys : ∀ exp ∈ experiments, ∃ key, experimentKey exp = .ok key)
    (hacyclic : ∀ key, ¬ TransGen (Reuses experiments) key key) :
    ∃ fuel spec, Returns (suiteSpec py doc fuel) (some (suiteId, spec)) := by
  obtain ⟨fields, rfl⟩ := isDict_of_item hlisted
  obtain ⟨version, hversion⟩ := exists_get ⟨fields, rfl⟩ "benchmark_version" (.str "")
  obtain ⟨byId, hbyId⟩ := exists_foldlM_index hkeys
  obtain ⟨fuel, hfuel⟩ := resolves_experiments hlinks hbyId hkeys hacyclic
  have hmemo : Sound py (([], []) : List ExperimentSpec × Memo).2 := by simp [Sound]
  obtain ⟨state, hloop⟩ := exists_returns_foldlM hlinks hfuel hmemo
  refine ⟨fuel, { benchmarkVersion := version, experiments := state.1 }, ?_⟩
  simp only [suiteSpec, returns_bind, returns_ofPy, hsuiteId, Except.ok.injEq, exists_eq_left',
    if_pos htruthy, returns_pure, get_of_item hlisted, hversion, Json.iterate]
  exact ⟨byId, hbyId, state, hloop, rfl⟩

/-- **The runs of an accepted suite are resolved exactly when the suite is not listed at all for
want of an id, or every id of an experiment is a key of a dictionary and no experiment reuses
itself, directly or through others.** -/
theorem suiteSpec_resolves_iff (py : Builtins) (registry : BenchmarkPluginRegistry) (doc : Json)
    (experiments : List Json)
    (haccepted : RunSuite.validateSuite py registry doc = .ok () ∨
      validateDocument py registry doc = .ok ())
    (hlisted : doc.item "experiments" = .ok (.list experiments)) :
    (∃ fuel spec, Returns (suiteSpec py doc fuel) spec) ↔
      (∀ id, doc.item "suite_id" = .ok id → id.truthy = false) ∨
        (∀ exp ∈ experiments, ∃ key, experimentKey exp = .ok key) ∧
          ∀ key, ¬ TransGen (Reuses experiments) key key := by
  have hlinks : ListChecks py doc experiments :=
    haccepted.elim (fun h => listChecks_of_runner h hlisted) fun h => listChecks_of_spec h hlisted
  obtain ⟨fields, hfields⟩ := isDict_of_item hlisted
  constructor
  · rintro ⟨fuel, spec, h⟩
    rw [or_iff_not_imp_left, not_forall]
    rintro ⟨suiteId, hlooked⟩
    rw [Classical.not_imp, Bool.not_eq_false] at hlooked
    exact acyclic_of_returns hlinks hlisted hlooked.1 hlooked.2 h
  · intro hcondition
    obtain ⟨suiteId, hsuiteId⟩ := exists_get ⟨fields, hfields⟩ "suite_id" .null
    by_cases htruthy : suiteId.truthy = true
    · have hlooked : ¬ ∀ id, doc.item "suite_id" = .ok id → id.truthy = false := by
        intro hall
        rcases get_eq_ok.1 hsuiteId with hitem | ⟨-, rfl⟩
        · rw [hall suiteId hitem] at htruthy
          cases htruthy
        · cases htruthy
      obtain ⟨hkeys, hacyclic⟩ := hcondition.resolve_left hlooked
      obtain ⟨fuel, spec, hspec⟩ :=
        exists_suiteSpec hlinks hlisted hsuiteId htruthy hkeys hacyclic
      exact ⟨fuel, _, hspec⟩
    · refine ⟨0, none, ?_⟩
      subst hfields
      simp only [suiteSpec, returns_bind, returns_ofPy, hsuiteId, Except.ok.injEq, exists_eq_left']
      rw [if_neg htruthy]
      exact returns_pure.2 rfl

/-- Two experiments, of which the second reuses the first, and the first what it is given -/
def sampleLinks (parent : Json) : List Json :=
  [.dict [("id", .str "exp1"), ("title", .str "One"), ("objective", .str "None"),
      ("runs", .list [sampleRun (.int 100) [("topology", .str "sq")]]),
      ("reuse_from_experiment", parent)],
    .dict [("id", .str "exp2"), ("title", .str "Two"), ("objective", .str "None"),
      ("runs", .list []), ("reuse_from_experiment", .str "exp1")]]

def sampleReuse (parent : Json) : Json :=
  .dict [("schema_version", .str "suite.v1"), ("benchmark_version", .str "community-v1"),
    ("suite_id", .str "sample"), ("title", .str "Sample"), ("description", .str "Sample"),
    ("defaults", .dict [("scheduler", .str "all"), ("replications", .int 1),
      ("topology", .str "sq"), ("seed_base", .int 1)]),
    ("experiments", .list (sampleLinks parent))]

/-- One experiment reuses the other, and that one none. -/
theorem suiteSpec_resolves_chain :
    ∃ fuel spec, Returns (suiteSpec sampleBuiltins (sampleReuse .null) fuel) spec := by
  have haccepted : RunSuite.validateSuite sampleBuiltins sampleNames (sampleReuse .null) = .ok () :=
    eq_ok_of_toBool (by decide +kernel)
  have hlink : ∀ key parentKey, Reuses (sampleLinks .null) key parentKey →
      key = .str "exp2" ∧ parentKey = .str "exp1" := by
    rintro key parentKey ⟨exp, parent, ⟨before, after, hsplit, hkey, -⟩, hparent, htruthy, hhash⟩
    have hexp : exp ∈ sampleLinks .null := by
      rw [hsplit]
      simp
    simp only [sampleLinks, List.mem_cons, List.not_mem_nil, or_false] at hexp
    rcases hexp with rfl | rfl
    · cases hparent
      cases htruthy
    · cases hparent
      cases hhash
      cases hkey
      exact ⟨rfl, rfl⟩
  refine (suiteSpec_resolves_iff sampleBuiltins sampleNames _ _ (.inl haccepted) rfl).2
    (.inr ⟨?_, fun key hcycle => ?_⟩)
  · simp only [sampleLinks, List.forall_mem_cons]
    exact ⟨⟨_, rfl⟩, ⟨_, rfl⟩, by simp⟩
  · obtain ⟨_, hfirst, -⟩ := TransGen.head'_iff.1 hcycle
    obtain ⟨_, -, hlast⟩ := TransGen.tail'_iff.1 hcycle
    have hkeys := (hlink _ _ hfirst).1.symm.trans (hlink _ _ hlast).2
    revert hkeys
    decide

/-- **An accepted suite may keep the listing from coming to its end**: two experiments that reuse
each other pass both validators. -/
theorem suiteSpec_resolves_false :
    ¬ ∀ registry doc, RunSuite.validateSuite sampleBuiltins registry doc = .ok () →
      validateDocument sampleBuiltins registry doc = .ok () →
      ∃ fuel spec, Returns (suiteSpec sampleBuiltins doc fuel) spec := by
  intro hall
  have haccepted : RunSuite.validateSuite sampleBuiltins sampleNames (sampleReuse (.str "exp2"))
      = .ok () := eq_ok_of_toBool (by decide +kernel)
  obtain ⟨fuel, spec, hreturns⟩ := hall sampleNames (sampleReuse (.str "exp2")) haccepted
    (eq_ok_of_toBool (by decide +kernel))
  have hone : Reuses (sampleLinks (.str "exp2")) (.str "exp1") (.str "exp2") := by
    refine ⟨_, .str "exp2", ⟨[], _, rfl, rfl, fun later hlater => ?_⟩, rfl, by decide, rfl⟩
    obtain rfl := List.mem_singleton.1 hlater
    have hkey : experimentKey (.dict [("id", .str "exp2"), ("title", .str "Two"),
        ("objective", .str "None"), ("runs", .list []), ("reuse_from_experiment", .str "exp1")])
        = .ok (.str "exp2") := rfl
    rw [hkey]
    decide
  have htwo : Reuses (sampleLinks (.str "exp2")) (.str "exp2") (.str "exp1") :=
    ⟨_, .str "exp1", ⟨[_], [], rfl, rfl, by simp⟩, rfl, by decide, rfl⟩
  have hlinks : ListChecks sampleBuiltins (sampleReuse (.str "exp2")) (sampleLinks (.str "exp2")) :=
    listChecks_of_runner haccepted rfl
  have htruthy : (Json.str "sample").truthy = true := by decide
  exact (acyclic_of_returns hlinks rfl rfl htruthy hreturns).2 _ ((TransGen.single hone).tail htwo)

end AggregateResults

end SchedSim
