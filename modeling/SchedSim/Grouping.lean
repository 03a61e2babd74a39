import Mathlib.Algebra.BigOperators.Group.List.Basic
import Mathlib.Data.List.Induction
import Mathlib.Data.List.Nodup
import Mathlib.Tactic.Abel

/-!
# Grouping by a key

A table with one entry for each key, built in one pass over a list: every element is added to the
value under its key, which starts from a default.  Entries stand in the order in which their keys
first appear.

* `Grouping.tally_spec` — the keys are those of the elements, each once, and the value under a key
  is what the elements with this key add up to.
* `Grouping.sum_map_tally` — sums over the entries are sums over the elements.
-/

namespace Grouping

variable {α β κ M : Type*} [DecidableEq κ]

/-- Apply a function to the value under a key, which is the default when there is none. -/
def update (default : β) (k : κ) (f : β → β) : List (κ × β) → List (κ × β)
  | [] => [(k, f default)]
  | (k', v) :: rest =>
    if k' = k then (k', f v) :: rest else (k', v) :: update default k f rest

/-- Every element of a list added to the value under its key. -/
def tally (key : α → κ) (default : β) (add : β → α → β) (l : List α) : List (κ × β) :=
  l.foldl (fun table a => update default (key a) (fun v => add v a) table) []

variable {key : α → κ} {default : β} {add : β → α → β} {table : List (κ × β)} {k : κ} {f : β → β}
  {l : List α}

theorem tally_concat (l : List α) (a : α) :
    tally key default add (l ++ [a])
      = update default (key a) (fun v => add v a) (tally key default add l) :=
  List.foldl_concat _ _ _ _

/-! ## One update -/

/-- A new key comes last. -/
theorem keys_update : (update default k f table).map Prod.fst
    = if k ∈ table.map Prod.fst then table.map Prod.fst else table.map Prod.fst ++ [k] := by
  induction table with
  | nil => simp [update]
  | cons entry rest ih =>
    obtain ⟨k', v⟩ := entry
    rw [update]
    by_cases hk : k' = k
    · simp [hk]
    · simp only [if_neg hk, List.map_cons, ih, List.mem_cons, Ne.symm hk, false_or]
      split <;> simp

/-- Other entries are left alone. -/
theorem mem_update {entry : κ × β} (h : entry ∈ update default k f table) (hk : entry.1 ≠ k) :
    entry ∈ table := by
  induction table with
  | nil =>
    rw [update, List.mem_singleton] at h
    exact absurd (congrArg Prod.fst h) hk
  | cons first rest ih =>
    obtain ⟨k', v⟩ := first
    rw [update] at h
    split at h
    next heq =>
      rcases List.mem_cons.1 h with rfl | h
      · exact absurd heq hk
      · exact List.mem_cons_of_mem _ h
    next =>
      rcases List.mem_cons.1 h with rfl | h
      · exact List.mem_cons_self
      · exact List.mem_cons_of_mem _ (ih h)

/-- The value under the key is updated, or new. -/
theorem mem_update_self {v : β} (hnodup : (table.map Prod.fst).Nodup)
    (h : (k, v) ∈ update default k f table) :
    (∃ v', (k, v') ∈ table ∧ v = f v') ∨ k ∉ table.map Prod.fst ∧ v = f default := by
  induction table with
  | nil =>
    rw [update, List.mem_singleton, Prod.mk.injEq] at h
    exact .inr ⟨by simp, h.2⟩
  | cons first rest ih =>
    obtain ⟨k', v'⟩ := first
    rw [List.map_cons, List.nodup_cons] at hnodup
    rw [update] at h
    split at h
    next heq =>
      subst heq
      rcases List.mem_cons.1 h with h | h
      · exact .inl ⟨v', List.mem_cons_self, (Prod.mk.inj h).2⟩
      · exact absurd (List.mem_map_of_mem (f := Prod.fst) h) hnodup.1
    next hne =>
      rcases List.mem_cons.1 h with h | h
      · exact absurd (Prod.mk.inj h).1.symm hne
      · rcases ih hnodup.2 h with ⟨v'', hv, heq⟩ | ⟨hnew, heq⟩
        · exact .inl ⟨v'', List.mem_cons_of_mem _ hv, heq⟩
        · refine .inr ⟨?_, heq⟩
          rw [List.map_cons, List.mem_cons, not_or]
          exact ⟨Ne.symm hne, hnew⟩

/-- What an update adds to one value it adds to the sum over all of them. -/
theorem sum_map_update [AddCommMonoid M] {g : β → M} {x : M} (hdefault : g default = 0)
    (hf : ∀ v, g (f v) = g v + x) :
    ((update default k f table).map fun entry => g entry.2).sum
      = (table.map fun entry => g entry.2).sum + x := by
  induction table with
  | nil => simp [update, hf, hdefault]
  | cons first rest ih =>
    rw [update]
    split
    · simp only [List.map_cons, List.sum_cons, hf]
      abel
    · simp only [List.map_cons, List.sum_cons, ih]
      abel

/-! ## The table -/

/-- The keys of the table are those of the elements, each once, and the value under a key is what
the elements with this key add up to. -/
theorem tally_spec (key : α → κ) (default : β) (add : β → α → β) (l : List α) :
    ((tally key default add l).map Prod.fst).Nodup ∧
      (∀ k, k ∈ (tally key default add l).map Prod.fst ↔ ∃ a ∈ l, key a = k) ∧
      ∀ entry ∈ tally key default add l,
        entry.2 = (l.filter fun a => key a = entry.1).foldl add default := by
  induction l using List.reverseRecOn with
  | nil => simp [tally]
  | append_singleton l a ih =>
    obtain ⟨hnodup, hkeys, hvalue⟩ := ih
    have hmem : ∀ k, k ∈ (tally key default add (l ++ [a])).map Prod.fst
        ↔ ∃ b ∈ l ++ [a], key b = k := by
      intro k
      rw [tally_concat, keys_update]
      have hlast : (∃ b ∈ l ++ [a], key b = k) ↔ (∃ b ∈ l, key b = k) ∨ key a = k := by
        simp only [List.mem_append, List.mem_singleton, or_and_right, exists_or, exists_eq_left]
      rw [hlast, ← hkeys k]
      split
      next hold =>
        constructor
        · exact Or.inl
        · rintro (h | rfl)
          · exact h
          · exact hold
      next => rw [List.mem_append, List.mem_singleton, eq_comm (a := k)]
    refine ⟨?_, hmem, ?_⟩
    · rw [tally_concat, keys_update]
      split
      next => exact hnodup
      next hnew =>
        rw [List.nodup_append]
        refine ⟨hnodup, List.nodup_singleton _, fun k hk k' hk' => ?_⟩
        rw [List.mem_singleton.1 hk']
        rintro rfl
        exact hnew hk
    · rintro ⟨k, v⟩ hentry
      rw [tally_concat] at hentry
      rw [List.filter_append, List.foldl_append]
      by_cases hk : key a = k
      · subst hk
        have hself : [a].filter (fun b => key b = key a) = [a] := by simp
        rw [hself, List.foldl_cons, List.foldl_nil]
        rcases mem_update_self hnodup hentry with ⟨v', hv', rfl⟩ | ⟨hnew, rfl⟩
        · rw [← hvalue _ hv']
        · -- no element had the key before
          have hnil : l.filter (fun b => key b = key a) = [] := by
            rw [List.filter_eq_nil_iff]
            intro b hb hkey
            exact hnew ((hkeys _).2 ⟨b, hb, by simpa using hkey⟩)
          rw [hnil, List.foldl_nil]
      · have hother : [a].filter (fun b => key b = k) = [] := by simp [hk]
        rw [hother, List.foldl_nil]
        exact hvalue _ (mem_update hentry (Ne.symm hk))

/-- When elements are collected, those under a key are the elements with this key, in order. -/
theorem mem_tally_append {group : List α} :
    (k, group) ∈ tally key [] (fun group a => group ++ [a]) l ↔
      group = l.filter (fun a => key a = k) ∧ group ≠ [] := by
  obtain ⟨hnodup, hkeys, hvalue⟩ := tally_spec key [] (fun group a => group ++ [a]) l
  have hcollect : ∀ (as acc : List α), as.foldl (fun group a => group ++ [a]) acc = acc ++ as := by
    intro as
    induction as with
    | nil => simp
    | cons a as ih =>
      intro acc
      simp [ih]
  have hgroup : ∀ {group}, (k, group) ∈ tally key [] (fun group a => group ++ [a]) l →
      group = l.filter (fun a => key a = k) := by
    intro group hentry
    have hfold := hvalue _ hentry
    rwa [hcollect, List.nil_append] at hfold
  constructor
  · intro hentry
    refine ⟨hgroup hentry, ?_⟩
    obtain ⟨a, ha, hkey⟩ := (hkeys k).1 (List.mem_map_of_mem hentry)
    apply List.ne_nil_of_mem (a := a)
    rw [hgroup hentry]
    simp [ha, hkey]
  · rintro ⟨rfl, hne⟩
    obtain ⟨a, ha⟩ := List.exists_mem_of_ne_nil _ hne
    rw [List.mem_filter, decide_eq_true_eq] at ha
    obtain ⟨⟨k', group⟩, hother, rfl⟩ := List.mem_map.1 ((hkeys k).2 ⟨a, ha⟩)
    rwa [← hgroup hother]

/-- A sum over the entries, of what each element adds, is the sum over the elements. -/
theorem sum_map_tally [AddCommMonoid M] {g : β → M} {x : α → M} (hdefault : g default = 0)
    (hadd : ∀ v a, g (add v a) = g v + x a) (l : List α) :
    ((tally key default add l).map fun entry => g entry.2).sum = (l.map x).sum := by
  induction l using List.reverseRecOn with
  | nil => simp [tally]
  | append_singleton l a ih =>
    rw [tally_concat, sum_map_update hdefault fun v => hadd v a, ih, List.map_append,
      List.sum_append]
    simp

end Grouping
