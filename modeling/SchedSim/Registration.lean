import SchedSim.Lts
import SchedSim.RunPlan

/-!
# Registering plugins

`register_scheduler` and `register_workload` of `benchmark/plugins/registry.py`, which do the same
to two tables.  A table leads from names, keys and aliases alike, to keys and from keys to plugins.
A failing registration raises, and what it has written by then stays written: the table after a
call is a result of its own.

* `PluginTable.register` — the method, for either table.
* `BenchmarkPluginRegistry.failedRegistration_iff` — a call that raises changes nothing unless it
  raises for an alias that is taken.
* `BenchmarkPluginRegistry.neverRedirects_iff` — no name is ever redirected exactly when no key is
  an alias of a plugin registered before.
-/

namespace SchedSim

/-- The two kinds of plugins, each with a table. -/
inductive PluginKind
  | scheduler
  | workload
  deriving DecidableEq

/-- The word for the kind in the messages -/
def PluginKind.word : PluginKind → String
  | .scheduler => "scheduler"
  | .workload => "workload"

/-- The two dictionaries of a kind: plugins by key, and keys by name. -/
structure PluginTable where
  plugins : List (String × Plugin) := []
  aliasToKey : List (String × String) := []

/-- `_norm` of a string -/
def normName (py : Builtins) (name : String) : String :=
  norm py (.str name)

namespace PluginTable

variable (py : Builtins) (kind : PluginKind)

/-- `sorted({_norm(a) for a in aliases if _norm(a)})` -/
def normAliases (aliases : List String) : List String :=
  ((aliases.map (normName py)).filter (· ≠ "")).dedup.insertionSort (· ≤ ·)

/-- The plugin as it is stored -/
def normalized (plugin : Plugin) : Plugin where
  key := normName py plugin.key
  cliToken := normName py plugin.cliToken
  displayName := if strip plugin.displayName = "" then plugin.key else strip plugin.displayName
  description := strip plugin.description
  aliases := normAliases py plugin.aliases
  isMeta := plugin.isMeta

/-- The loop over the aliases of a plugin: whether it raises, and the names after it -/
def addAliases (key : String) :
    List String → List (String × String) → Py Unit × List (String × String)
  | [], names => (.ok (), names)
  | name :: rest, names =>
    if name = key then addAliases key rest names
    else
      match names.lookup name with
      | some other =>
        (.error (.valueError
          s!"{kind.word} alias conflict: '{name}' already maps to '{other}'"), names)
      | none => addAliases key rest ((name, key) :: names)

/-- `register_scheduler` and `register_workload`: whether the call raises, and the table after it -/
def register (table : PluginTable) (plugin : Plugin) : Py Unit × PluginTable :=
  let key := normName py plugin.key
  if key = "" then
    (.error (.valueError s!"{kind.word} plugin key must be non-empty"), table)
  else if (table.plugins.lookup key).isSome then
    (.error (.valueError s!"duplicate {kind.word} plugin key: {key}"), table)
  else
    let normalized := normalized py plugin
    if normalized.cliToken = "" then
      (.error (.valueError s!"{kind.word} plugin '{key}' has empty cli_token"), table)
    else
      let (result, names) := addAliases kind key normalized.aliases ((key, key) :: table.aliasToKey)
      (result, { plugins := (key, normalized) :: table.plugins, aliasToKey := names })

end PluginTable

namespace BenchmarkPluginRegistry

variable (py : Builtins) (registry : BenchmarkPluginRegistry)

def table : PluginKind → PluginTable
  | .scheduler => ⟨registry.schedulers, registry.schedulerAliasToKey⟩
  | .workload => ⟨registry.workloads, registry.workloadAliasToKey⟩

def setTable (table : PluginTable) : PluginKind → BenchmarkPluginRegistry
  | .scheduler => { registry with
      schedulers := table.plugins, schedulerAliasToKey := table.aliasToKey }
  | .workload => { registry with
      workloads := table.plugins, workloadAliasToKey := table.aliasToKey }

/-- A call of one of the two methods: whether it raises, and the registry after it -/
def register (kind : PluginKind) (plugin : Plugin) : Py Unit × BenchmarkPluginRegistry :=
  let (result, table) := (registry.table kind).register py kind plugin
  (result, registry.setTable table kind)

def registerScheduler (plugin : Plugin) : Py Unit × BenchmarkPluginRegistry :=
  registry.register py .scheduler plugin

def registerWorkload (plugin : Plugin) : Py Unit × BenchmarkPluginRegistry :=
  registry.register py .workload plugin

/-- `resolve_scheduler` and `resolve_workload` -/
def resolveAs : PluginKind → Json → Option Plugin
  | .scheduler => registry.resolveScheduler py
  | .workload => registry.resolveWorkload py

/-- `sorted(plugins.keys())` -/
def keys (plugins : List (String × Plugin)) : List String :=
  (plugins.map Prod.fst).dedup.insertionSort (· ≤ ·)

def schedulerKeys : List String := keys registry.schedulers

def workloadKeys : List String := keys registry.workloads

/-- One call, whether it raises or not. -/
def Calls (registry : BenchmarkPluginRegistry) (call : Plugin × PluginKind)
    (registry' : BenchmarkPluginRegistry) : Prop :=
  registry' = (registry.register py call.2 call.1).2

/-- One call that does not raise. -/
def Registers (registry : BenchmarkPluginRegistry) (call : Plugin × PluginKind)
    (registry' : BenchmarkPluginRegistry) : Prop :=
  registry.register py call.2 call.1 = (.ok (), registry')

end BenchmarkPluginRegistry

/-! ## A call that raises -/

namespace PluginTable

variable {py : Builtins} {kind : PluginKind} {table : PluginTable} {plugin : Plugin}

/-- The call raises before it stores anything. -/
def Refuses (py : Builtins) (table : PluginTable) (plugin : Plugin) : Prop :=
  normName py plugin.key = "" ∨ (table.plugins.lookup (normName py plugin.key)).isSome ∨
    normName py plugin.cliToken = ""

instance : Decidable (table.Refuses py plugin) := inferInstanceAs (Decidable (_ ∨ _ ∨ _))

theorem register_of_refuses (kind : PluginKind) (h : table.Refuses py plugin) :
    (∃ e, (table.register py kind plugin).1 = .error e) ∧
      (table.register py kind plugin).2 = table := by
  unfold register
  dsimp only
  split
  next => exact ⟨⟨_, rfl⟩, rfl⟩
  next hkey =>
    split
    next => exact ⟨⟨_, rfl⟩, rfl⟩
    next hnew =>
      have htoken : (normalized py plugin).cliToken = "" := (h.resolve_left hkey).resolve_left hnew
      rw [if_pos htoken]
      exact ⟨⟨_, rfl⟩, rfl⟩

/-- Otherwise the plugin is stored under its key, and then the aliases are gone through. -/
theorem register_of_not_refuses (h : ¬ table.Refuses py plugin) :
    table.register py kind plugin =
      ((addAliases kind (normName py plugin.key) (normAliases py plugin.aliases)
          ((normName py plugin.key, normName py plugin.key) :: table.aliasToKey)).1,
        { plugins := (normName py plugin.key, normalized py plugin) :: table.plugins
          aliasToKey := (addAliases kind (normName py plugin.key) (normAliases py plugin.aliases)
            ((normName py plugin.key, normName py plugin.key) :: table.aliasToKey)).2 }) := by
  rw [Refuses, not_or, not_or] at h
  have htoken : (normalized py plugin).cliToken ≠ "" := h.2.2
  unfold register
  dsimp only
  rw [if_neg h.1, if_neg h.2.1, if_neg htoken]
  rfl

/-- No alias of the plugin, but its key itself, is a name that is taken. -/
def FreeAliases (py : Builtins) (table : PluginTable) (plugin : Plugin) : Prop :=
  ∀ name ∈ normAliases py plugin.aliases, name ≠ normName py plugin.key →
    table.aliasToKey.lookup name = none

theorem lookup_cons_eq {β : Type} (name key : String) (value : β) (entries : List (String × β)) :
    ((key, value) :: entries).lookup name
      = if name = key then some value else entries.lookup name := by
  rw [List.lookup_cons]
  by_cases hname : name = key
  · simp [hname]
  · rw [beq_false_of_ne hname, if_neg hname]

/-- The loop over different aliases comes to its end when none of them is taken. -/
theorem addAliases_ok_iff {key : String} {aliases : List String} {names : List (String × String)}
    (hnodup : aliases.Nodup) :
    (addAliases kind key aliases names).1 = .ok () ↔
      ∀ name ∈ aliases, name ≠ key → names.lookup name = none := by
  induction aliases generalizing names with
  | nil => simp [addAliases]
  | cons a rest ih =>
    obtain ⟨hnew, hnodup⟩ := List.nodup_cons.1 hnodup
    rw [List.forall_mem_cons]
    unfold addAliases
    split
    next hkey => simp [ih hnodup, hkey]
    next hkey =>
      cases hlookup : names.lookup a with
      | some other => simp [hkey]
      | none =>
        simp only [ih hnodup, implies_true, true_and]
        refine forall₂_congr fun name hname => ?_
        have hne : name ≠ a := fun hsame => hnew (hsame ▸ hname)
        rw [lookup_cons_eq, if_neg hne]

theorem register_ok_iff (kind : PluginKind) (h : ¬ table.Refuses py plugin) :
    (table.register py kind plugin).1 = .ok () ↔ table.FreeAliases py plugin := by
  have hnodup : (normAliases py plugin.aliases).Nodup :=
    (List.perm_insertionSort _ _).nodup_iff.2 (List.nodup_dedup _)
  rw [register_of_not_refuses h, addAliases_ok_iff hnodup]
  refine forall₃_congr fun name _ hne => ?_
  rw [lookup_cons_eq, if_neg hne]

end PluginTable

namespace BenchmarkPluginRegistry

variable {py : Builtins} {registry registry' : BenchmarkPluginRegistry} {kind kind' : PluginKind}
  {plugin : Plugin}

/-- Every name resolves to the same plugin, and the keys are the same. -/
structure SameNames (py : Builtins) (registry registry' : BenchmarkPluginRegistry) : Prop where
  scheduler : ∀ name, registry'.resolveScheduler py name = registry.resolveScheduler py name
  workload : ∀ name, registry'.resolveWorkload py name = registry.resolveWorkload py name
  schedulerKeys : registry'.schedulerKeys = registry.schedulerKeys
  workloadKeys : registry'.workloadKeys = registry.workloadKeys

@[simp] theorem table_setTable_self (table : PluginTable) :
    (registry.setTable table kind).table kind = table := by
  cases kind <;> rfl

theorem setTable_table : registry.setTable (registry.table kind) kind = registry := by
  cases kind <;> rfl

theorem mem_keys {plugins : List (String × Plugin)} {key : String} :
    key ∈ keys plugins ↔ (plugins.lookup key).isSome := by
  rw [keys, List.mem_insertionSort, List.mem_dedup, ← not_iff_not, Bool.not_eq_true,
    Option.isSome_eq_false_iff, Option.isNone_iff_eq_none, List.lookup_eq_none_iff, List.mem_map]
  constructor
  · intro hne entry hentry
    rw [bne_iff_ne]
    rintro rfl
    exact hne ⟨entry, hentry, rfl⟩
  · rintro hall ⟨entry, hentry, rfl⟩
    simpa using hall entry hentry

/-- The keys of a kind -/
theorem SameNames.keys (h : SameNames py registry registry') :
    keys (registry'.table kind).plugins = keys (registry.table kind).plugins := by
  cases kind with
  | scheduler => exact h.schedulerKeys
  | workload => exact h.workloadKeys

/-- A call that is not refused stores a key that was not there. -/
theorem not_sameNames (h : ¬ (registry.table kind).Refuses py plugin) :
    ¬ SameNames py registry (registry.register py kind plugin).2 := by
  intro hsame
  have hstored : normName py plugin.key ∈
      keys ((registry.register py kind plugin).2.table kind).plugins := by
    rw [register, table_setTable_self, PluginTable.register_of_not_refuses h, mem_keys]
    simp
  rw [hsame.keys, mem_keys] at hstored
  rw [PluginTable.Refuses, not_or, not_or] at h
  exact h.2.1 hstored

/-- **A failed registration changes nothing exactly when it is refused before anything is stored,
or none of its aliases is taken**, so that it does not fail.  The third kind of failure, a conflict
of an alias, is found after the key and the aliases before it have been stored. -/
theorem failedRegistration_iff (py : Builtins) (registry : BenchmarkPluginRegistry)
    (kind : PluginKind) (plugin : Plugin) :
    (∀ e, (registry.register py kind plugin).1 = .error e →
        SameNames py registry (registry.register py kind plugin).2) ↔
      (registry.table kind).Refuses py plugin ∨ (registry.table kind).FreeAliases py plugin := by
  by_cases hrefuses : (registry.table kind).Refuses py plugin
  · obtain ⟨-, htable⟩ := PluginTable.register_of_refuses kind hrefuses
    have hself : (registry.register py kind plugin).2 = registry := by
      rw [register]
      dsimp only
      rw [htable, setTable_table]
    refine iff_of_true (fun e _ => ?_) (.inl hrefuses)
    rw [hself]
    exact ⟨fun _ => rfl, fun _ => rfl, rfl, rfl⟩
  · have hresult : (registry.register py kind plugin).1 =
        ((registry.table kind).register py kind plugin).1 := rfl
    rw [or_iff_right hrefuses, ← PluginTable.register_ok_iff kind hrefuses, hresult]
    constructor
    · intro hall
      cases hcall : ((registry.table kind).register py kind plugin).1 with
      | ok _ => rfl
      | error e => exact absurd (hall e hcall) (not_sameNames hrefuses)
    · intro hok e herror
      rw [hok] at herror
      cases herror

open RunSuite (sampleBuiltins samplePlugin)

/-- **It may leave something behind**: a plugin `new` with the alias `cfs`, a name that is taken,
is not registered, but it has a key from then on. -/
theorem failedRegistration_alias :
    ¬ ∀ registry, Lts.Reachable (Calls sampleBuiltins) {} registry → ∀ kind plugin,
      (∃ e, (registry.register sampleBuiltins kind plugin).1 = .error e) →
      SameNames sampleBuiltins registry (registry.register sampleBuiltins kind plugin).2 := by
  intro hall
  have hstep : Calls sampleBuiltins {} (samplePlugin "cfs", .scheduler)
      (({} : BenchmarkPluginRegistry).register sampleBuiltins .scheduler (samplePlugin "cfs")).2 :=
    rfl
  have hsame := hall _ (Lts.Reachable.refl.tail hstep) .scheduler
    { samplePlugin "new" with aliases := ["cfs"] } ⟨_, rfl⟩
  exact absurd hsame.schedulerKeys (by decide +kernel)

end BenchmarkPluginRegistry

/-! ## Calls that do not raise -/

namespace PluginTable

variable {py : Builtins} {kind : PluginKind} {table table' table₁ : PluginTable}
  {plugin : Plugin} {plugins plugins₁ : List Plugin}

theorem mem_normAliases {aliases : List String} {name : String} :
    name ∈ normAliases py aliases ↔ name ≠ "" ∧ ∃ a ∈ aliases, normName py a = name := by
  rw [normAliases, List.mem_insertionSort, List.mem_dedup, List.mem_filter, List.mem_map, and_comm,
    decide_eq_true_iff]

/-- When the loop over the aliases comes to its end, every alias leads to the key, and none was
taken before. -/
theorem addAliases_eq_ok {key : String} {aliases : List String}
    {names names' : List (String × String)}
    (h : addAliases kind key aliases names = (.ok (), names')) :
    (∀ name, names'.lookup name
      = if name ∈ aliases ∧ name ≠ key then some key else names.lookup name) ∧
      ∀ name ∈ aliases, name ≠ key → names.lookup name = none := by
  induction aliases generalizing names with
  | nil =>
    obtain rfl : names = names' := (Prod.mk.inj h).2
    exact ⟨fun name => by simp, fun name hname => by cases hname⟩
  | cons a rest ih =>
    unfold addAliases at h
    split at h
    next hkey =>
      obtain ⟨hlookup, hfree⟩ := ih h
      subst hkey
      refine ⟨fun name => ?_, fun name hname hne => ?_⟩
      · rw [hlookup name]
        refine if_congr ⟨fun hn => ⟨List.mem_cons_of_mem _ hn.1, hn.2⟩, fun hn => ?_⟩ rfl rfl
        exact ⟨(List.mem_cons.1 hn.1).resolve_left hn.2, hn.2⟩
      · exact hfree name ((List.mem_cons.1 hname).resolve_left hne) hne
    next hkey =>
      split at h
      next => cases (Prod.mk.inj h).1
      next hnone =>
        obtain ⟨hlookup, hfree⟩ := ih h
        refine ⟨fun name => ?_, fun name hname hne => ?_⟩
        · rw [hlookup name, lookup_cons_eq]
          by_cases hname : name = a
          · subst hname
            simp [hkey]
          · simp [hname]
        · rcases List.mem_cons.1 hname with rfl | hrest
          · exact hnone
          · have hfree := hfree name hrest hne
            rw [lookup_cons_eq] at hfree
            split at hfree
            next => cases hfree
            next => exact hfree

/-- What a call that does not raise finds and leaves. -/
structure Stores (py : Builtins) (table : PluginTable) (plugin : Plugin) (table' : PluginTable) :
    Prop where
  key_ne : normName py plugin.key ≠ ""
  key_new : table.plugins.lookup (normName py plugin.key) = none
  alias_new : ∀ name ∈ normAliases py plugin.aliases, name ≠ normName py plugin.key →
    table.aliasToKey.lookup name = none
  plugins : table'.plugins = (normName py plugin.key, normalized py plugin) :: table.plugins
  names : ∀ name, table'.aliasToKey.lookup name
    = if name = normName py plugin.key ∨ name ∈ normAliases py plugin.aliases
      then some (normName py plugin.key) else table.aliasToKey.lookup name

theorem stores_of_register (h : table.register py kind plugin = (.ok (), table')) :
    Stores py table plugin table' := by
  have hrefuses : ¬ table.Refuses py plugin := by
    intro hrefuses
    obtain ⟨⟨e, he⟩, -⟩ := register_of_refuses kind hrefuses
    rw [h] at he
    cases he
  rw [register_of_not_refuses hrefuses] at h
  obtain ⟨hok, rfl⟩ := Prod.mk.inj h
  rw [Refuses, not_or, not_or, Bool.not_eq_true, Option.isSome_eq_false_iff,
    Option.isNone_iff_eq_none] at hrefuses
  obtain ⟨hlookup, hfree⟩ := addAliases_eq_ok (Prod.ext hok rfl)
  refine ⟨hrefuses.1, hrefuses.2.1, fun name hname hne => ?_, rfl, fun name => ?_⟩
  · have hfree := hfree name hname hne
    rwa [lookup_cons_eq, if_neg hne] at hfree
  · show List.lookup name (addAliases kind _ _ _).2 = _
    rw [hlookup name, lookup_cons_eq]
    by_cases hname : name = normName py plugin.key
    · simp [hname]
    · simp [hname]

/-- A plugin by a name that is normalized already. -/
def find (table : PluginTable) (name : String) : Option Plugin :=
  BenchmarkPluginRegistry.resolve table.plugins table.aliasToKey name

theorem find_eq_some {name : String} : table.find name = some plugin ↔
    ∃ key, table.aliasToKey.lookup name = some key ∧ key ≠ "" ∧
      table.plugins.lookup key = some plugin := by
  rw [find, BenchmarkPluginRegistry.resolve]
  cases table.aliasToKey.lookup name with
  | none => simp
  | some key =>
    by_cases hkey : key = ""
    · simp [hkey]
    · simp [hkey]

/-- What holds of the table after the plugins have been registered. -/
structure Holds (py : Builtins) (plugins : List Plugin) (table : PluginTable) : Prop where
  key_ne : ∀ p ∈ plugins, normName py p.key ≠ ""
  stored : ∀ p ∈ plugins, table.plugins.lookup (normName py p.key) = some (normalized py p)
  key_self : ∀ p ∈ plugins, table.aliasToKey.lookup (normName py p.key) = some (normName py p.key)
  source : ∀ name key, table.aliasToKey.lookup name = some key →
    ∃ p ∈ plugins, normName py p.key = key ∧ (name = key ∨ name ∈ normAliases py p.aliases)

theorem Stores.lookup (h : Stores py table plugin table') {key : String} {p : Plugin}
    (hp : table.plugins.lookup key = some p) :
    key ≠ normName py plugin.key ∧ table'.plugins.lookup key = some p := by
  have hne : key ≠ normName py plugin.key := by
    rintro rfl
    rw [h.key_new] at hp
    cases hp
  refine ⟨hne, ?_⟩
  rw [h.plugins, List.lookup_cons, beq_false_of_ne hne]
  exact hp

theorem Stores.lookup_self (h : Stores py table plugin table') :
    table'.plugins.lookup (normName py plugin.key) = some (normalized py plugin) := by
  rw [h.plugins, List.lookup_cons_self]

theorem Stores.holds (h : Stores py table plugin table') (ht : Holds py plugins table) :
    Holds py (plugins ++ [plugin]) table' := by
  refine ⟨fun p hp => ?_, fun p hp => ?_, fun p hp => ?_, fun name key hname => ?_⟩
  · rcases List.mem_append.1 hp with hp | hp
    · exact ht.key_ne p hp
    · rw [List.mem_singleton.1 hp]
      exact h.key_ne
  · rcases List.mem_append.1 hp with hp | hp
    · exact (h.lookup (ht.stored p hp)).2
    · rw [List.mem_singleton.1 hp]
      exact h.lookup_self
  · rcases List.mem_append.1 hp with hp | hp
    · -- an alias of the new plugin that is this key would have been taken
      have hne := (h.lookup (ht.stored p hp)).1
      have hself := ht.key_self p hp
      rw [h.names, if_neg, hself]
      rintro (heq | hmem)
      · exact hne heq
      · rw [h.alias_new _ hmem hne] at hself
        cases hself
    · rw [List.mem_singleton.1 hp, h.names, if_pos (.inl rfl)]
  · rw [h.names] at hname
    split at hname
    next hnew =>
      obtain rfl := Option.some.inj hname
      exact ⟨plugin, by simp, rfl, hnew⟩
    next =>
      obtain ⟨p, hp, hkey⟩ := ht.source name key hname
      exact ⟨p, List.mem_append_left _ hp, hkey⟩

/-- The new key is not an alias of a plugin that is there. -/
def FreshKeys (py : Builtins) (plugins : List Plugin) : Prop :=
  plugins.Pairwise fun earlier later => normName py later.key ∉ normAliases py earlier.aliases

instance : Decidable (FreshKeys py plugins) := inferInstanceAs (Decidable (List.Pairwise _ _))

theorem freshKeys_snoc : FreshKeys py (plugins ++ [plugin]) ↔
    FreshKeys py plugins ∧ ∀ p ∈ plugins, normName py plugin.key ∉ normAliases py p.aliases := by
  simp [FreshKeys, List.pairwise_append]

/-- Under a fresh key nothing is redirected. -/
theorem Stores.find (h : Stores py table plugin table') (ht : Holds py plugins table)
    (hfresh : ∀ p ∈ plugins, normName py plugin.key ∉ normAliases py p.aliases) {name : String}
    {p : Plugin} (hp : table.find name = some p) : table'.find name = some p := by
  obtain ⟨key, hname, hne, hkey⟩ := find_eq_some.1 hp
  obtain ⟨hnew, hkey'⟩ := h.lookup hkey
  refine find_eq_some.2 ⟨key, ?_, hne, hkey'⟩
  rw [h.names, if_neg, hname]
  have hkeyne : name ≠ normName py plugin.key := by
    rintro rfl
    obtain ⟨q, hq, rfl, hself | hmem⟩ := ht.source _ _ hname
    · exact hnew hself.symm
    · exact hfresh q hq hmem
  rintro (heq | hmem)
  · exact hkeyne heq
  · rw [h.alias_new _ hmem hkeyne] at hname
    cases hname

/-- Every alias leads to the plugin it was given for. -/
def AliasesKept (py : Builtins) (plugins : List Plugin) (table : PluginTable) : Prop :=
  ∀ p ∈ plugins, ∀ name ∈ normAliases py p.aliases,
    table.aliasToKey.lookup name = some (normName py p.key)

/-- A registration keeps the aliases exactly when its key is fresh. -/
theorem Stores.aliasesKept_iff (h : Stores py table plugin table') (ht : Holds py plugins table) :
    AliasesKept py (plugins ++ [plugin]) table' ↔ AliasesKept py plugins table ∧
      ∀ p ∈ plugins, normName py plugin.key ∉ normAliases py p.aliases := by
  constructor
  · intro hkept
    have hold : ∀ p ∈ plugins, ∀ name ∈ normAliases py p.aliases,
        ¬ (name = normName py plugin.key ∨ name ∈ normAliases py plugin.aliases) ∧
          table.aliasToKey.lookup name = some (normName py p.key) := by
      intro p hp name hname
      have hkept := hkept p (List.mem_append_left _ hp) name hname
      rw [h.names] at hkept
      split at hkept
      next => exact absurd (Option.some.inj hkept).symm (h.lookup (ht.stored p hp)).1
      next hnot => exact ⟨hnot, hkept⟩
    exact ⟨fun p hp name hname => (hold p hp name hname).2,
      fun p hp hmem => (hold p hp _ hmem).1 (.inl rfl)⟩
  · rintro ⟨hkept, hfresh⟩ p hp name hname
    rw [h.names]
    rcases List.mem_append.1 hp with hp | hp
    · have hne : name ≠ normName py plugin.key := by
        rintro rfl
        exact hfresh p hp hname
      rw [if_neg, hkept p hp name hname]
      rintro (heq | hmem)
      · exact hne heq
      · have hnone := h.alias_new name hmem hne
        rw [hkept p hp name hname] at hnone
        cases hnone
    · rw [List.mem_singleton.1 hp] at hname ⊢
      rw [if_pos (.inr hname)]

theorem holds_empty : Holds py [] {} :=
  ⟨by simp, by simp, by simp, by simp⟩

theorem run_holds (h : Lts.Run (Stores py) {} plugins table) :
    Holds py plugins table ∧ (AliasesKept py plugins table ↔ FreshKeys py plugins) := by
  generalize hinit : ({} : PluginTable) = table₀ at h
  induction h with
  | nil =>
    subst hinit
    exact ⟨holds_empty, fun _ => List.Pairwise.nil, fun _ _ h => by cases h⟩
  | snoc _ hstep ih =>
    obtain ⟨ht, hkept⟩ := ih
    refine ⟨hstep.holds ht, ?_⟩
    rw [hstep.aliasesKept_iff ht, hkept, freshKeys_snoc]

/-- Under fresh keys no name is redirected on the way to a later table. -/
theorem run_find (h₁ : Lts.Run (Stores py) {} plugins₁ table₁)
    (h : Lts.Run (Stores py) table₁ plugins table) (hfresh : FreshKeys py (plugins₁ ++ plugins))
    {name : String} {p : Plugin} (hp : table₁.find name = some p) : table.find name = some p := by
  induction h with
  | nil => exact hp
  | snoc hrun hstep ih =>
    rw [← List.append_assoc, freshKeys_snoc] at hfresh
    exact hstep.find (run_holds (h₁.trans hrun)).1 hfresh.2 (ih hfresh.1)

end PluginTable

namespace BenchmarkPluginRegistry

variable {py : Builtins} {registry registry' registry₁ : BenchmarkPluginRegistry}
  {calls calls₁ : List (Plugin × PluginKind)} {kind : PluginKind}

/-- The plugins of a kind, in the order of their registration -/
def ofKind (calls : List (Plugin × PluginKind)) (kind : PluginKind) : List Plugin :=
  (calls.filter fun call => call.2 = kind).map Prod.fst

theorem resolveAs_eq (kind : PluginKind) (name : Json) :
    registry.resolveAs py kind name = (registry.table kind).find (norm py name) := by
  cases kind <;> rfl

theorem table_setTable_of_ne (table : PluginTable) {kind' : PluginKind} (hne : kind' ≠ kind) :
    (registry.setTable table kind).table kind' = registry.table kind' := by
  cases kind <;> cases kind' <;> first | rfl | exact absurd rfl hne

theorem register_eq_ok {plugin : Plugin}
    (h : registry.register py kind plugin = (.ok (), registry')) :
    ∃ table, (registry.table kind).register py kind plugin = (.ok (), table) ∧
      registry' = registry.setTable table kind := by
  rw [register] at h
  generalize (registry.table kind).register py kind plugin = call at h
  obtain ⟨result, table⟩ := call
  obtain ⟨rfl, rfl⟩ := Prod.mk.inj h
  exact ⟨table, rfl, rfl⟩

/-- Each table goes through the registrations of its own kind. -/
theorem run_tables (h : Lts.Run (Registers py) registry calls registry') (kind : PluginKind) :
    Lts.Run (PluginTable.Stores py) (registry.table kind) (ofKind calls kind)
      (registry'.table kind) := by
  have hstep : ∀ registry call registry' (tables : PluginKind → PluginTable), True →
      (∀ kind, registry.table kind = tables kind) → Registers py registry call registry' →
      ∃ table, PluginTable.Stores py (tables call.2) call.1 table ∧
        ∀ kind, registry'.table kind = Function.update tables call.2 table kind := by
    intro registry call registry' tables _ htables hstep
    obtain ⟨table, hregister, rfl⟩ := register_eq_ok hstep
    rw [htables call.2] at hregister
    refine ⟨table, PluginTable.stores_of_register hregister, fun kind => ?_⟩
    by_cases hkind : kind = call.2
    · subst hkind
      rw [table_setTable_self, Function.update_self]
    · rw [table_setTable_of_ne _ hkind, Function.update_of_ne hkind, htables]
  obtain ⟨tables, hruns, htables⟩ := Lts.Run.project id hstep h (fun _ _ => trivial) fun _ => rfl
  rw [htables kind]
  exact hruns kind

/-- What resolves at some point of the registrations resolves in the same way at their end, and
every key and every alias that was registered resolves to its plugin. -/
structure NeverRedirects (py : Builtins) (calls : List (Plugin × PluginKind))
    (registry : BenchmarkPluginRegistry) : Prop where
  kept : ∀ calls₁ calls₂ registry₁, calls = calls₁ ++ calls₂ →
    Lts.Run (Registers py) {} calls₁ registry₁ → Lts.Run (Registers py) registry₁ calls₂ registry →
    ∀ kind name plugin, registry₁.resolveAs py kind name = some plugin →
      registry.resolveAs py kind name = some plugin
  registered : ∀ call ∈ calls, ∀ name ∈ call.1.key :: call.1.aliases, normName py name ≠ "" →
    registry.resolveAs py call.2 (.str name) = some (PluginTable.normalized py call.1)

theorem mem_ofKind {plugin : Plugin} : plugin ∈ ofKind calls kind ↔ (plugin, kind) ∈ calls := by
  simp [ofKind]

/-- **Registering a plugin never redirects a name exactly when no plugin has a key that is an
alias of a plugin registered before**: only the aliases are checked against the names that are
taken. -/
theorem neverRedirects_iff (py : Builtins) (calls : List (Plugin × PluginKind))
    (registry : BenchmarkPluginRegistry) (h : Lts.Run (Registers py) {} calls registry) :
    NeverRedirects py calls registry ↔
      ∀ kind, PluginTable.FreshKeys py (ofKind calls kind) := by
  have hempty : ∀ kind, ({} : BenchmarkPluginRegistry).table kind = {} := by
    intro kind
    cases kind <;> rfl
  have hruns : ∀ {calls registry}, Lts.Run (Registers py) {} calls registry → ∀ kind,
      Lts.Run (PluginTable.Stores py) {} (ofKind calls kind) (registry.table kind) := by
    intro calls registry h kind
    have := run_tables h kind
    rwa [hempty kind] at this
  constructor
  · intro hnever kind
    obtain ⟨hholds, hiff⟩ := PluginTable.run_holds (hruns h kind)
    refine hiff.1 fun p hp name hname => ?_
    obtain ⟨hne, a, ha, rfl⟩ := PluginTable.mem_normAliases.1 hname
    have hresolves := hnever.registered _ (mem_ofKind.1 hp) a (List.mem_cons_of_mem _ ha) hne
    rw [resolveAs_eq] at hresolves
    obtain ⟨key, hlookup, -, hkey⟩ := PluginTable.find_eq_some.1 hresolves
    obtain ⟨q, hq, rfl, -⟩ := hholds.source _ _ hlookup
    -- the plugin under a key has this key
    have hpq : PluginTable.normalized py q = PluginTable.normalized py p := by
      simpa using (hholds.stored q hq).symm.trans hkey
    exact hlookup.trans (congrArg some (congrArg Plugin.key hpq))
  · intro hfresh
    refine ⟨fun calls₁ calls₂ registry₁ hsplit h₁ h₂ kind name plugin hname => ?_,
      fun call hcall name hname hne => ?_⟩
    · rw [resolveAs_eq] at hname ⊢
      refine PluginTable.run_find (hruns h₁ kind) (run_tables h₂ kind) ?_ hname
      have hfresh := hfresh kind
      rwa [hsplit, ofKind, List.filter_append, List.map_append] at hfresh
    · obtain ⟨hholds, hiff⟩ := PluginTable.run_holds (hruns h call.2)
      have hmem : call.1 ∈ ofKind calls call.2 := mem_ofKind.2 hcall
      rw [resolveAs_eq]
      refine PluginTable.find_eq_some.2 ⟨normName py call.1.key, ?_, hholds.key_ne _ hmem,
        hholds.stored _ hmem⟩
      rcases List.mem_cons.1 hname with rfl | ha
      · exact hholds.key_self _ hmem
      · exact hiff.2 (hfresh call.2) _ hmem _ (PluginTable.mem_normAliases.2 ⟨hne, name, ha, rfl⟩)

open RunSuite (sampleBuiltins samplePlugin)

theorem registers_of_ok (py : Builtins) (registry : BenchmarkPluginRegistry) (kind : PluginKind)
    (plugin : Plugin) (h : (registry.register py kind plugin).1 = .ok ()) :
    Registers py registry (plugin, kind) (registry.register py kind plugin).2 :=
  Prod.ext h rfl

/-- A plugin `cfs` with the alias `fair` -/
def sampleFair : Plugin := { samplePlugin "cfs" with aliases := ["fair"] }

/-- `cfs` and a plugin with another key -/
theorem neverRedirects_two :
    ∃ registry, NeverRedirects sampleBuiltins
      [(sampleFair, .scheduler), (samplePlugin "mlfq", .scheduler)] registry := by
  have hfair := registers_of_ok sampleBuiltins {} .scheduler sampleFair rfl
  have hmlfq := registers_of_ok sampleBuiltins _ .scheduler (samplePlugin "mlfq")
    (show (((({} : BenchmarkPluginRegistry).register sampleBuiltins .scheduler
      sampleFair).2).register
      sampleBuiltins .scheduler (samplePlugin "mlfq")).1 = .ok () from rfl)
  exact ⟨_, (neverRedirects_iff _ _ _ (((Lts.Run.nil _).snoc hfair).snoc hmlfq)).2 fun kind => by
    cases kind <;> decide +kernel⟩

/-- **A key may take over an alias**: a plugin with the key `fair` is found under this name from
then on, and `cfs` is not. -/
theorem neverRedirects_takenOver :
    ¬ ∀ calls registry, Lts.Run (Registers sampleBuiltins) {} calls registry →
      NeverRedirects sampleBuiltins calls registry := by
  intro hall
  have hcfs := registers_of_ok sampleBuiltins {} .scheduler sampleFair rfl
  have hfair := registers_of_ok sampleBuiltins _ .scheduler (samplePlugin "fair")
    (show (((({} : BenchmarkPluginRegistry).register sampleBuiltins .scheduler
      sampleFair).2).register
      sampleBuiltins .scheduler (samplePlugin "fair")).1 = .ok () from rfl)
  have hnever := hall _ _ (((Lts.Run.nil _).snoc hcfs).snoc hfair)
  have hresolves := hnever.registered (sampleFair, .scheduler) (by simp) "fair"
    (by simp [sampleFair]) (by decide +kernel)
  exact absurd hresolves (by decide +kernel)

end BenchmarkPluginRegistry

/-! ## The empty name -/

namespace PluginTable

/-- The loop over the aliases adds no empty name. -/
theorem lookup_empty_addAliases {kind : PluginKind} {key : String} {aliases : List String}
    {names : List (String × String)} (haliases : "" ∉ aliases) (hnames : names.lookup "" = none) :
    (addAliases kind key aliases names).2.lookup "" = none := by
  induction aliases generalizing names with
  | nil => exact hnames
  | cons name rest ih =>
    obtain ⟨hname, hrest⟩ := not_or.1 (List.mem_cons.not.1 haliases)
    unfold addAliases
    split
    next => exact ih hrest hnames
    next =>
      split
      next => exact hnames
      next => exact ih hrest (by rw [lookup_cons_eq, if_neg hname, hnames])

theorem lookup_empty_register {py : Builtins} {kind : PluginKind} {table : PluginTable}
    {plugin : Plugin} (h : table.aliasToKey.lookup "" = none) :
    (table.register py kind plugin).2.aliasToKey.lookup "" = none := by
  by_cases hrefuses : table.Refuses py plugin
  · rw [(register_of_refuses kind hrefuses).2, h]
  · rw [register_of_not_refuses hrefuses]
    rw [Refuses, not_or] at hrefuses
    refine lookup_empty_addAliases (fun hmem => (mem_normAliases.1 hmem).1 rfl) ?_
    rw [lookup_cons_eq, if_neg (Ne.symm hrefuses.1), h]

end PluginTable

namespace BenchmarkPluginRegistry

/-- No registry that comes about by registrations, whether they raise or not, knows the empty
name. -/
theorem lookup_empty_of_reachable {py : Builtins} {registry : BenchmarkPluginRegistry}
    (h : Lts.Reachable (Calls py) {} registry) (kind : PluginKind) :
    (registry.table kind).aliasToKey.lookup "" = none := by
  refine Lts.Reachable.induction (I := fun registry =>
    ∀ kind, (registry.table kind).aliasToKey.lookup "" = none) ?_ ?_ h kind
  · intro kind
    cases kind <;> rfl
  · rintro registry ⟨plugin, kind'⟩ _ - ih rfl kind
    by_cases hkind : kind = kind'
    · subst hkind
      rw [register, table_setTable_self]
      exact PluginTable.lookup_empty_register (ih kind)
    · rw [register, table_setTable_of_ne _ hkind]
      exact ih kind

end BenchmarkPluginRegistry

end SchedSim
