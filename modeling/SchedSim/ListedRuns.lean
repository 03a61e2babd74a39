import SchedSim.ReusedRuns

/-!
# The runs an experiment lists

What `list_suite_specs` stores for an experiment of a suite whose links come to an end: the runs of
the last experiment with its id, and those of the experiment that this one reuses, and so on along
the links, in whatever order the memo was filled.

* `Lists` — an experiment has a run, as its own or from an experiment it reuses.
* `mem_resolvedRuns` — the recursion with its memo finds these runs and no others.
* `listing_of_suiteSpec` — what is stored, for every experiment whose id is looked at.
-/

namespace SchedSim

namespace AggregateResults

open Py RunSuite Fueled Relation
open ValidateBenchmarkSpec

/-- The experiment with this id has the run, as its own or from the experiment it reuses. -/
inductive Lists (experiments : List Json) : Json.Key → Json → Prop
  | own {key : Json.Key} {exp v run : Json} {runs : List Json}
      (hnamed : Named experiments key exp) (hv : exp.get "runs" (.list []) = .ok v)
      (hruns : v.iterate = .ok runs) (hrun : run ∈ runs) : Lists experiments key run
  | reused {key parentKey : Json.Key} {run : Json} (hlink : Reuses experiments key parentKey)
      (hlisted : Lists experiments parentKey run) : Lists experiments key run

variable {py : Builtins} {doc : Json} {experiments : List Json}

theorem Named.mem {key : Json.Key} {exp : Json} (h : Named experiments key exp) :
    exp ∈ experiments := by
  obtain ⟨before, after, rfl, -, -⟩ := h
  simp

/-- What is listed for an experiment of a suite that passes the checks is a run that does. -/
theorem Lists.validRun {key : Json.Key} {run : Json} (hlinks : ListChecks py doc experiments)
    (h : Lists experiments key run) : ValidRun py run := by
  induction h with
  | own hnamed hv hruns hrun =>
    obtain ⟨runs, hget, hall⟩ := hlinks.runs _ hnamed.mem
    obtain rfl := Except.ok.inj (hget.symm.trans hv)
    obtain rfl := Except.ok.inj hruns
    exact hall _ hrun
  | reused _ _ ih => exact ih

/-! ## The recursion -/

/-- The memo holds all the runs of the experiments it has. -/
def Complete (experiments : List Json) (memo : Memo) : Prop :=
  ∀ key runs, memo.lookup key = some runs → ∀ run, run ∈ runs ↔ Lists experiments key run

theorem Complete.cons {memo : Memo} {key : Json.Key} {runs : List Json}
    (hmemo : Complete experiments memo) (hruns : ∀ run, run ∈ runs ↔ Lists experiments key run) :
    Complete experiments ((key, runs) :: memo) := by
  intro k runs' hlookup
  rw [List.lookup_cons] at hlookup
  split at hlookup
  next hsame =>
    rw [beq_iff_eq] at hsame
    obtain rfl := Option.some.inj hlookup
    rwa [hsame]
  next => exact hmemo k runs' hlookup

section

variable {byId : List (Json.Key × Json)}
  (hbyId : ∀ key exp, byId.lookup key = some exp ↔ Named experiments key exp)

include hbyId

/-- There is at most one experiment with an id that counts. -/
theorem named_unique {key : Json.Key} {exp exp' : Json} (h : Named experiments key exp)
    (h' : Named experiments key exp') : exp = exp' :=
  Option.some.inj (((hbyId key exp).2 h).symm.trans ((hbyId key exp').2 h'))

/-- An id that no experiment has lists nothing. -/
theorem not_lists_of_lookup {key : Json.Key} (hnone : byId.lookup key = none) (run : Json) :
    ¬ Lists experiments key run := by
  have hnamed : ∀ exp, ¬ Named experiments key exp := by
    intro exp h
    rw [(hbyId key exp).2 h] at hnone
    cases hnone
  rintro (⟨h, -, -, -⟩ | ⟨⟨exp, -, h, -⟩, -⟩)
  · exact hnamed _ h
  · exact hnamed _ h

/-- What a call finds under an id that is looked up: the runs of the experiment, and its link. -/
theorem lists_iff {key : Json.Key} {v : Json} {own : List Json}
    (hv : ((byId.lookup key).getD (.dict [])).get "runs" (.list []) = .ok v)
    (hown : v.iterate = .ok own) (run : Json) :
    Lists experiments key run ↔ run ∈ own ∨
      ∃ parentKey, Reuses experiments key parentKey ∧ Lists experiments parentKey run := by
  cases hlookup : byId.lookup key with
  | none =>
    rw [hlookup] at hv
    obtain rfl := Except.ok.inj hv
    obtain rfl := Except.ok.inj hown
    constructor
    · exact fun h => absurd h (not_lists_of_lookup hbyId hlookup run)
    · rintro (h | ⟨parentKey, hlink, hlisted⟩)
      · cases h
      · exact .reused hlink hlisted
  | some exp =>
    have hnamed := (hbyId key exp).1 hlookup
    rw [hlookup] at hv
    constructor
    · rintro (⟨hnamed', hv', hruns, hrun⟩ | ⟨hlink, hlisted⟩)
      · obtain rfl := named_unique hbyId hnamed hnamed'
        obtain rfl := Except.ok.inj (hv.symm.trans hv')
        obtain rfl := Except.ok.inj (hown.symm.trans hruns)
        exact .inl hrun
      · exact .inr ⟨_, hlink, hlisted⟩
    · rintro (hrun | ⟨parentKey, hlink, hlisted⟩)
      · exact .own hnamed hv hown hrun
      · exact .reused hlink hlisted

/-- The parent that a call finds is the one link the experiment has. -/
theorem reuses_iff_of_parent {key parentKey : Json.Key} {parent : Json}
    (hparent : ((byId.lookup key).getD (.dict [])).get "reuse_from_experiment" .null = .ok parent) :
    Reuses experiments key parentKey ↔ parent.truthy = true ∧ parent.key? = some parentKey := by
  cases hlookup : byId.lookup key with
  | none =>
    rw [hlookup] at hparent
    obtain rfl := Except.ok.inj hparent
    constructor
    · rintro ⟨exp, -, hnamed, -⟩
      rw [(hbyId key exp).2 hnamed] at hlookup
      cases hlookup
    · rintro ⟨⟨⟩, -⟩
  | some exp =>
    have hnamed := (hbyId key exp).1 hlookup
    rw [hlookup, Option.getD_some] at hparent
    constructor
    · rintro ⟨exp', parent', hnamed', hitem, htruthy, hkey⟩
      obtain rfl := named_unique hbyId hnamed hnamed'
      obtain rfl := Except.ok.inj (hparent.symm.trans (get_of_item hitem))
      exact ⟨htruthy, hkey⟩
    · rintro ⟨htruthy, hkey⟩
      rcases get_eq_ok.1 hparent with hitem | ⟨-, rfl⟩
      · exact ⟨exp, parent, hnamed, hitem, htruthy, hkey⟩
      · cases htruthy

/-- **The recursion finds what an experiment lists**, and puts it into the memo. -/
theorem mem_resolvedRuns {fuel : ℕ} {memo memo' : Memo} {expId : Json} {key : Json.Key}
    {runs : List Json} (hmemo : Complete experiments memo) (hkey : expId.key? = some key)
    (h : Returns (resolvedRuns byId fuel memo expId) (runs, memo')) :
    Complete experiments memo' ∧ ∀ run, run ∈ runs ↔ Lists experiments key run := by
  induction fuel generalizing key expId runs memo' with
  | zero => exact absurd h not_returns_cutOff
  | succ fuel ih =>
    rcases (returns_resolvedRuns hkey).1 h with ⟨known, hknown, hresult⟩ | ⟨-, v, own, parent, hv,
      hown, hparent, ⟨hfalse, hresult⟩ | ⟨htruthy, inherited, memo₁, hcall, hresult⟩⟩
    · obtain ⟨rfl, rfl⟩ := Prod.mk.inj hresult
      exact ⟨hmemo, hmemo key runs hknown⟩
    · obtain ⟨rfl, rfl⟩ := Prod.mk.inj hresult
      have hruns : ∀ run, run ∈ runs ↔ Lists experiments key run := by
        intro run
        rw [lists_iff hbyId hv hown run]
        constructor
        · exact .inl
        · rintro (hrun | ⟨parentKey, hlink, -⟩)
          · exact hrun
          · rw [((reuses_iff_of_parent hbyId hparent).1 hlink).1] at hfalse
            cases hfalse
      exact ⟨hmemo.cons hruns, hruns⟩
    · obtain ⟨rfl, rfl⟩ := Prod.mk.inj hresult
      obtain ⟨parentKey, hparentKey⟩ := key_of_returns hcall
      obtain ⟨hmemo₁, hinherited⟩ := ih hparentKey hcall
      have hruns : ∀ run, run ∈ own ++ inherited ↔ Lists experiments key run := by
        intro run
        rw [lists_iff hbyId hv hown run, List.mem_append, hinherited]
        refine or_congr_right ⟨fun hlisted => ⟨parentKey, ?_, hlisted⟩, ?_⟩
        · exact (reuses_iff_of_parent hbyId hparent).2 ⟨htruthy, hparentKey⟩
        · rintro ⟨parentKey', hlink, hlisted⟩
          have hsame := ((reuses_iff_of_parent hbyId hparent).1 hlink).2
          obtain rfl := Option.some.inj (hparentKey.symm.trans hsame)
          exact hlisted
      exact ⟨hmemo₁.cons hruns, hruns⟩

end

/-! ## The listing -/

/-- An experiment as it is stored: its id, and all it lists in the form that is compared -/
structure Listing (py : Builtins) (doc : Json) (experiments : List Json) (stored : ExperimentSpec) :
    Prop where
  id : ∃ exp ∈ experiments, exp.get "id" .null = .ok stored.id
  truthy : stored.id.truthy = true
  runs : ∃ (key : Json.Key) (runs : List Json), stored.id.key? = some key ∧
    (∀ run, run ∈ runs ↔ Lists experiments key run) ∧
    runs.mapM (normalizedRun py doc) = .ok stored.runs

section

variable {byId : List (Json.Key × Json)}
  (hbyId : ∀ key exp, byId.lookup key = some exp ↔ Named experiments key exp)

include hbyId

/-- The loop stores every experiment whose id is looked at, and nothing else. -/
theorem listing_of_foldlM {fuel : ℕ} {listed : List Json}
    {state state' : List ExperimentSpec × Memo} (hsub : listed ⊆ experiments)
    (hmemo : Complete experiments state.2)
    (h : Returns (listed.foldlM (resolveExperiment py doc byId fuel) state) state') :
    ∃ more, state'.1 = state.1 ++ more ∧ (∀ stored ∈ more, Listing py doc experiments stored) ∧
      ∀ exp ∈ listed, ∀ id, exp.get "id" .null = .ok id → id.truthy = true →
        ∃ stored ∈ more, stored.id = id := by
  induction listed generalizing state with
  | nil =>
    obtain rfl := returns_pure.1 h
    exact ⟨[], by simp, by simp, by simp⟩
  | cons exp listed ih =>
    obtain ⟨hexp, hrest⟩ := List.cons_subset.1 hsub
    rw [List.foldlM_cons, returns_bind] at h
    obtain ⟨state₁, hstep, hloop⟩ := h
    simp only [resolveExperiment, returns_bind, returns_ofPy] at hstep
    obtain ⟨id, hid, hstep⟩ := hstep
    split at hstep
    next htruthy =>
      simp only [returns_bind, returns_ofPy, returns_pure] at hstep
      obtain ⟨⟨runs, memo⟩, hcall, runDefs, hrunDefs, rfl⟩ := hstep
      obtain ⟨key, hkey⟩ := key_of_returns hcall
      obtain ⟨hmemo₁, hruns⟩ := mem_resolvedRuns hbyId hmemo hkey hcall
      obtain ⟨more, hmore, hall, honto⟩ := ih hrest hmemo₁ hloop
      refine ⟨{ id, runs := runDefs } :: more, ?_, ?_, ?_⟩
      · rw [hmore, List.append_assoc]
        rfl
      · exact List.forall_mem_cons.2
          ⟨⟨⟨exp, hexp, hid⟩, htruthy, key, runs, hkey, hruns, hrunDefs⟩, hall⟩
      · refine List.forall_mem_cons.2 ⟨fun id' hid' _ => ?_, fun exp' hexp' id' hid' htruthy' => ?_⟩
        · exact ⟨_, List.mem_cons_self, Except.ok.inj (hid.symm.trans hid')⟩
        · obtain ⟨stored, hstored, heq⟩ := honto exp' hexp' id' hid' htruthy'
          exact ⟨stored, List.mem_cons_of_mem _ hstored, heq⟩
    next hfalse =>
      obtain rfl := returns_pure.1 hstep
      obtain ⟨more, hmore, hall, honto⟩ := ih hrest hmemo hloop
      refine ⟨more, hmore, hall, List.forall_mem_cons.2 ⟨fun id' hid' htruthy' => ?_, honto⟩⟩
      obtain rfl := Except.ok.inj (hid.symm.trans hid')
      exact absurd htruthy' hfalse

end

/-- **What is stored for a suite**: its experiments whose ids are looked at, each with the runs it
lists. -/
theorem listing_of_suiteSpec {fuel : ℕ} {suiteId : Json} {spec : SuiteSpec}
    (hlinks : ListChecks py doc experiments)
    (hlisted : doc.item "experiments" = .ok (.list experiments))
    (h : Returns (suiteSpec py doc fuel) (some (suiteId, spec))) :
    (∀ stored ∈ spec.experiments, Listing py doc experiments stored) ∧
      ∀ exp ∈ experiments, ∀ id, exp.get "id" .null = .ok id → id.truthy = true →
        ∃ stored ∈ spec.experiments, stored.id = id := by
  obtain ⟨fields, rfl⟩ := isDict_of_item hlisted
  simp only [suiteSpec, returns_bind, returns_ofPy, get_of_item hlisted, Json.iterate] at h
  obtain ⟨id, -, h⟩ := h
  split at h
  next =>
    simp only [returns_bind, returns_ofPy, returns_pure, Option.some.injEq, Prod.mk.injEq] at h
    obtain ⟨_, ⟨⟩, _, ⟨⟩, byId, hbyId, state, hloop, version, -, -, rfl⟩ := h
    have hmemo : Complete experiments (([], []) : List ExperimentSpec × Memo).2 := by
      simp [Complete]
    obtain ⟨more, hmore, hall, honto⟩ :=
      listing_of_foldlM (lookup_expById hlinks hbyId) (List.Subset.refl _) hmemo hloop
    rw [List.nil_append] at hmore
    rw [hmore]
    exact ⟨hall, honto⟩
  next => cases returns_pure.1 h

end AggregateResults

end SchedSim
