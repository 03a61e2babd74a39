import Mathlib.Data.List.Induction
import Mathlib.Data.List.TakeWhile

/-!
# The words and the pieces of a list

The words of a list are its maximal stretches without separators, over any type.  How many
separators stand between two words, and at the ends, makes no difference to them.  The pieces of a
list are what a separator ends, empty ones included, and what is left behind the last separator
unless it is empty.

* `Words.words` — the words, in order.
* `Words.words_append_cons` — a separator parts the words before it from those after it.
* `Words.words_dropWhile`, `Words.words_stripped` — separators at the ends do not count.
* `Words.pieces_flatMap`, `Words.pieces_intercalate` — pieces written one after the other, each
  with a separator behind it or with separators between them, are read back.
-/

namespace Words

variable {α : Type*} {sep p : α → Bool} {c : α} {l l' : List α}

/-- A word that is not empty, in front of others. -/
def gather : List α × List (List α) → List (List α)
  | ([], words) => words
  | (word, words) => word :: words

/-- The word a list begins with, empty if it begins with a separator, and the words after it. -/
def leading (sep : α → Bool) : List α → List α × List (List α)
  | [] => ([], [])
  | c :: l =>
    if sep c then ([], gather (leading sep l)) else (c :: (leading sep l).1, (leading sep l).2)

/-- The words of a list. -/
def words (sep : α → Bool) (l : List α) : List (List α) := gather (leading sep l)

theorem leading_cons_of_sep (h : sep c = true) : leading sep (c :: l) = ([], words sep l) := by
  rw [leading, if_pos h, words]

theorem leading_cons_of_not_sep (h : sep c = false) :
    leading sep (c :: l) = (c :: (leading sep l).1, (leading sep l).2) := by
  rw [leading, if_neg (by simp [h])]

@[simp] theorem words_nil : words sep ([] : List α) = [] := rfl

theorem words_cons_of_sep (h : sep c = true) : words sep (c :: l) = words sep l := by
  rw [words, leading_cons_of_sep h]
  rfl

/-! ## Parting a list at a separator -/

theorem gather_append (w : List α) (ws ws' : List (List α)) :
    gather (w, ws ++ ws') = gather (w, ws) ++ ws' := by
  cases w <;> rfl

theorem leading_append_cons (h : sep c = true) (l l' : List α) :
    leading sep (l ++ c :: l') = ((leading sep l).1, (leading sep l).2 ++ words sep l') := by
  induction l with
  | nil => rw [List.nil_append, leading_cons_of_sep h, leading, List.nil_append]
  | cons d l ih =>
    rw [List.cons_append]
    cases hd : sep d with
    | true =>
      rw [leading_cons_of_sep hd, leading_cons_of_sep hd, words, ih, gather_append]
      rfl
    | false => rw [leading_cons_of_not_sep hd, leading_cons_of_not_sep hd, ih]

/-- A separator parts the words before it from those after it. -/
theorem words_append_cons (h : sep c = true) (l l' : List α) :
    words sep (l ++ c :: l') = words sep l ++ words sep l' := by
  rw [words, leading_append_cons h, gather_append]
  rfl

/-- What has no separators is one word. -/
theorem words_of_forall_not_sep (hne : l ≠ []) (h : ∀ c ∈ l, sep c = false) :
    words sep l = [l] := by
  have hall : ∀ l : List α, (∀ c ∈ l, sep c = false) → leading sep l = (l, []) := by
    intro l
    induction l with
    | nil => exact fun _ => rfl
    | cons c l ih =>
      intro h
      rw [leading_cons_of_not_sep (h c List.mem_cons_self),
        ih fun d hd => h d (List.mem_cons_of_mem _ hd)]
  rw [words, hall l h]
  cases l with
  | nil => exact absurd rfl hne
  | cons => rfl

/-! ## The ends of a list -/

theorem words_dropWhile (hp : ∀ c, p c = true → sep c = true) :
    words sep (l.dropWhile p) = words sep l := by
  induction l with
  | nil => rfl
  | cons c l ih =>
    rw [List.dropWhile_cons]
    split
    next hc => rw [ih, words_cons_of_sep (hp c hc)]
    next => rfl

theorem words_stripped (hp : ∀ c, p c = true → sep c = true) :
    words sep ((l.reverse.dropWhile p).reverse) = words sep l := by
  induction l using List.reverseRecOn with
  | nil => rfl
  | append_singleton l c ih =>
    rw [List.reverse_concat, List.dropWhile_cons]
    split
    next hc => rw [ih, words_append_cons (hp c hc), words_nil, List.append_nil]
    next => rw [← List.reverse_concat, List.reverse_reverse]

/-! ## Pieces -/

variable [DecidableEq α] {d : α} {w : List α}

/-- The pieces of a list, each ended by a separator or by the end of the list. -/
def pieces (d : α) : List α → List (List α)
  | [] => []
  | c :: l =>
    if c = d then [] :: pieces d l
    else
      match pieces d l with
      | [] => [[c]]
      | w :: ws => (c :: w) :: ws

theorem pieces_append_cons (h : d ∉ w) (l : List α) : pieces d (w ++ d :: l) = w :: pieces d l := by
  induction w with
  | nil => rw [List.nil_append, pieces, if_pos rfl]
  | cons c w ih =>
    obtain ⟨hc, hw⟩ := List.ne_and_not_mem_of_not_mem_cons h
    rw [List.cons_append, pieces, if_neg hc.symm, ih hw]

theorem pieces_of_not_mem (hne : w ≠ []) (h : d ∉ w) : pieces d w = [w] := by
  induction w with
  | nil => exact absurd rfl hne
  | cons c w ih =>
    obtain ⟨hc, hw⟩ := List.ne_and_not_mem_of_not_mem_cons h
    rw [pieces, if_neg hc.symm]
    rcases eq_or_ne w [] with rfl | hempty
    · rfl
    · rw [ih hempty hw]

/-- Lists written with a separator behind each of them are the pieces. -/
theorem pieces_flatMap {ws : List (List α)} (h : ∀ w ∈ ws, d ∉ w) :
    pieces d (ws.flatMap (· ++ [d])) = ws := by
  induction ws with
  | nil => rfl
  | cons w ws ih =>
    rw [List.flatMap_cons, List.append_assoc, List.singleton_append,
      pieces_append_cons (h w List.mem_cons_self), ih fun v hv => h v (List.mem_cons_of_mem w hv)]

omit [DecidableEq α] in
theorem not_mem_intercalate {ws : List (List α)} (hc : d ≠ c) (h : ∀ w ∈ ws, d ∉ w) :
    d ∉ [c].intercalate ws := by
  induction ws with
  | nil => exact List.not_mem_nil
  | cons w ws ih =>
    have hrest := ih fun v hv => h v (List.mem_cons_of_mem w hv)
    cases ws with
    | nil =>
      rw [List.intercalate_singleton]
      exact h w List.mem_cons_self
    | cons w' ws =>
      rw [List.intercalate_cons_cons, List.append_assoc, List.singleton_append, List.mem_append,
        List.mem_cons]
      rintro (hw | rfl | hws)
      · exact h w List.mem_cons_self hw
      · exact hc rfl
      · exact hrest hws

/-- Lists written with separators between them are the pieces, unless the last one is empty. -/
theorem pieces_intercalate {ws : List (List α)} (h : ∀ w ∈ ws, d ∉ w)
    (hlast : ∀ w ∈ ws.getLast?, w ≠ []) : pieces d ([d].intercalate ws) = ws := by
  induction ws with
  | nil => rfl
  | cons w ws ih =>
    cases ws with
    | nil =>
      rw [List.intercalate_singleton]
      exact pieces_of_not_mem (hlast w rfl) (h w List.mem_cons_self)
    | cons w' ws =>
      rw [List.intercalate_cons_cons, List.append_assoc, List.singleton_append,
        pieces_append_cons (h w List.mem_cons_self),
        ih (fun v hv => h v (List.mem_cons_of_mem w hv)) (by simpa using hlast)]

end Words
