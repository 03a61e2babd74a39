import Mathlib.Data.List.Induction
import Mathlib.Data.List.Nodup

/-!
# Files that are written over

A directory maps names to contents; to write a file replaces the one that has its name.  After any
number of writes there is exactly one file for every name that was written, with what was written
last.

* `LastOf` — nothing after an element of a list has its name.
* `mem_contents` — the files there are after a list of writes.
* `lookup_eq_some_iff_mem` — to find a file is to find its entry.
-/

namespace LastWrite

variable {α κ β : Type*}

/-- `a` is in the list, and nothing after it has its name. -/
def LastOf (name : α → κ) (l : List α) (a : α) : Prop :=
  ∃ before after, l = before ++ a :: after ∧ ∀ b ∈ after, name b ≠ name a

section LastOf

variable {name : α → κ} {l : List α} {a b : α}

theorem LastOf.mem (h : LastOf name l a) : a ∈ l := by
  obtain ⟨before, after, rfl, -⟩ := h
  simp

theorem not_lastOf_nil : ¬ LastOf name [] a := fun h => List.not_mem_nil h.mem

theorem lastOf_concat :
    LastOf name (l ++ [b]) a ↔ a = b ∨ LastOf name l a ∧ name b ≠ name a := by
  constructor
  · rintro ⟨before, after, heq, hafter⟩
    rcases List.eq_nil_or_concat after with rfl | ⟨after', c, rfl⟩
    · left
      obtain ⟨-, hba⟩ := List.append_inj' heq rfl
      exact (List.cons.inj hba).1.symm
    · rw [List.concat_eq_append, ← List.cons_append, ← List.append_assoc] at heq
      obtain ⟨rfl, hcb⟩ := List.append_inj' heq rfl
      obtain rfl : b = c := by simpa using hcb
      right
      constructor
      · exact ⟨before, after', rfl, fun d hd => hafter d (by simp [hd])⟩
      · exact hafter b (by simp)
  · rintro (rfl | ⟨⟨before, after, rfl, hafter⟩, hne⟩)
    · exact ⟨l, [], rfl, by simp⟩
    · refine ⟨before, after ++ [b], by simp, ?_⟩
      intro d hd
      rcases List.mem_append.1 hd with hd | hd
      · exact hafter d hd
      · rwa [List.mem_singleton.1 hd]

end LastOf

variable [DecidableEq κ]

/-- Write a file -/
def put (name : κ) (content : β) (files : List (κ × β)) : List (κ × β) :=
  (name, content) :: files.filter fun file => file.1 ≠ name

/-- The directory after writing some files, in this order -/
def contents (name : α → κ) (content : α → β) (writes : List α) : List (κ × β) :=
  writes.foldl (fun files a => put (name a) (content a) files) []

variable {name : α → κ} {content : α → β} {l : List α} {a b : α}

theorem contents_concat :
    contents name content (l ++ [a]) = put (name a) (content a) (contents name content l) := by
  simp [contents]

theorem nodup_put {files : List (κ × β)} {k : κ} {c : β} (h : (files.map Prod.fst).Nodup) :
    ((put k c files).map Prod.fst).Nodup := by
  rw [put, List.map_cons, List.nodup_cons]
  constructor
  · simp
  · exact h.sublist (List.filter_sublist.map _)

/-- No two files have the same name. -/
theorem nodup_contents : ((contents name content l).map Prod.fst).Nodup := by
  induction l using List.reverseRecOn with
  | nil => simp [contents]
  | append_singleton l a ih =>
    rw [contents_concat]
    exact nodup_put ih

/-- Contents may be encoded before or after they are written. -/
theorem contents_comp {γ : Type*} (content : α → β) (f : β → γ) :
    contents name (fun a => f (content a)) l
      = (contents name content l).map fun file => (file.1, f file.2) := by
  induction l using List.reverseRecOn with
  | nil => simp [contents]
  | append_singleton l a ih => simp [contents_concat, put, ih, List.filter_map, Function.comp_def]

/-- A file has what was written last under its name. -/
theorem mem_contents {k : κ} {c : β} : (k, c) ∈ contents name content l ↔
    ∃ a, LastOf name l a ∧ name a = k ∧ content a = c := by
  induction l using List.reverseRecOn with
  | nil => simp [contents, not_lastOf_nil]
  | append_singleton l b ih =>
    rw [contents_concat, put, List.mem_cons, List.mem_filter, ih]
    constructor
    · rintro (heq | ⟨⟨a, ha, rfl, rfl⟩, hne⟩)
      · cases heq
        exact ⟨b, lastOf_concat.2 (.inl rfl), rfl, rfl⟩
      · exact ⟨a, lastOf_concat.2 (.inr ⟨ha, fun h => by simp [h] at hne⟩), rfl, rfl⟩
    · rintro ⟨a, ha, rfl, rfl⟩
      rcases lastOf_concat.1 ha with rfl | ⟨ha, hne⟩
      · exact .inl rfl
      · exact .inr ⟨⟨a, ha, rfl, rfl⟩, by simpa using fun h => hne h.symm⟩

/-- Where every write has a name of its own, all are there. -/
theorem mem_contents_of_nodup {k : κ} {c : β} (h : (l.map name).Nodup) :
    (k, c) ∈ contents name content l ↔ ∃ a ∈ l, name a = k ∧ content a = c := by
  have hlast : ∀ a ∈ l, LastOf name l a := by
    intro a ha
    obtain ⟨before, after, rfl⟩ := List.append_of_mem ha
    refine ⟨before, after, rfl, ?_⟩
    intro b hb heq
    rw [List.map_append, List.map_cons, List.nodup_append, List.nodup_cons] at h
    apply h.2.1.1
    rw [← heq]
    exact List.mem_map_of_mem hb
  rw [mem_contents]
  constructor
  · rintro ⟨a, ha, heq⟩
    exact ⟨a, ha.mem, heq⟩
  · rintro ⟨a, ha, heq⟩
    exact ⟨a, hlast a ha, heq⟩

omit [DecidableEq κ] in
/-- Where names are distinct, looking one up finds what is there. -/
theorem lookup_eq_some_iff_mem [BEq κ] [LawfulBEq κ] {files : List (κ × β)} {k : κ} {c : β}
    (h : (files.map Prod.fst).Nodup) : files.lookup k = some c ↔ (k, c) ∈ files := by
  rw [List.lookup_eq_some_iff]
  constructor
  · rintro ⟨before, after, rfl, -⟩
    simp
  · intro hmem
    obtain ⟨before, after, rfl⟩ := List.append_of_mem hmem
    refine ⟨before, after, rfl, ?_⟩
    intro file hfile
    have hne : k ≠ file.1 := by
      rintro rfl
      rw [List.map_append, List.map_cons, List.nodup_append] at h
      exact h.2.2 file.1 (List.mem_map_of_mem hfile) file.1 List.mem_cons_self rfl
    simpa using hne

end LastWrite
