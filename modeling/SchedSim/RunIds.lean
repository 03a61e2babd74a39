import SchedSim.MetricsRow
import SchedSim.PassThrough
import SchedSim.PlanCover

/-!
# Run ids

The suite runner sanitizes the ids of its runs, and the simulator sanitizes the id it is given.
The two have different rules: one replaces runs of characters and strips, the other goes byte by
byte.

* `IsId` : what an id looks like.
* `RunSuite.isId_sanitizeId`, `RunSuite.sanitizeId_eq_self` : the runner makes ids and leaves them
  alone.
* `CommandLine.sanitizeId_eq_self` : so does the simulator.
* `RunSuite.runId_mem_metricsCells` : the simulator writes the id that the runner gave the case.
-/

namespace SchedSim

/-! ## Ids -/

/-- Two characters that may stand next to each other: not both are hyphens. -/
def Apart (c d : Char) : Prop := ¬ (c = '-' ∧ d = '-')

instance : DecidableRel Apart := fun _ _ => inferInstanceAs (Decidable (¬ _))

/-- Letters, digits, underscores and hyphens, with no two hyphens next to each other and none at
an end. -/
structure IsId (id : String) : Prop where
  ne_empty : id ≠ ""
  chars : ∀ c ∈ id.toList, c.isAlphanum = true ∨ c = '_' ∨ c = '-'
  apart : id.toList.IsChain Apart
  head : ∀ c ∈ id.toList.head?, c ≠ '-'
  last : ∀ c ∈ id.toList.getLast?, c ≠ '-'

/-! ## Stripping -/

section Strip

variable {p : Char → Bool} {cs : List Char}

theorem stripChars_isPrefix : stripChars p cs <+: cs.dropWhile p :=
  List.rdropWhile_prefix p (cs.dropWhile p)

theorem stripChars_isInfix : stripChars p cs <:+: cs :=
  stripChars_isPrefix.isInfix.trans (List.dropWhile_suffix p).isInfix

theorem head_stripChars : ∀ c ∈ (stripChars p cs).head?, p c = false := by
  intro c hc
  obtain ⟨rest, hrest⟩ := List.head?_eq_some_iff.1 hc
  obtain ⟨more, hmore⟩ : stripChars p cs <+: cs.dropWhile p := stripChars_isPrefix
  have hhead : (cs.dropWhile p).head? = some c := by rw [← hmore, hrest]; rfl
  have := List.head?_dropWhile_not p cs
  rw [hhead] at this
  simpa using this

theorem last_stripChars : ∀ c ∈ (stripChars p cs).getLast?, p c = false := by
  intro c hc
  have hne : stripChars p cs ≠ [] := by
    intro hnil
    rw [hnil] at hc
    cases hc
  have hlast : ¬ p ((stripChars p cs).getLast hne) = true :=
    List.rdropWhile_last_not p (cs.dropWhile p) hne
  rw [List.getLast?_eq_some_getLast hne, Option.mem_some_iff] at hc
  rw [← hc]
  simpa using hlast

/-- What has nothing to strip at either end stays as it is. -/
theorem stripChars_eq_self (hhead : ∀ c ∈ cs.head?, p c = false)
    (hlast : ∀ c ∈ cs.getLast?, p c = false) : stripChars p cs = cs := by
  have hleft : cs.dropWhile p = cs := by
    cases cs with
    | nil => rfl
    | cons c rest => exact List.dropWhile_cons_of_neg (by simp [hhead c rfl])
  show (cs.dropWhile p).rdropWhile p = cs
  rw [hleft, List.rdropWhile_eq_self_iff]
  intro hne
  simpa using hlast _ (List.getLast?_eq_some_getLast hne)

end Strip

/-! ## The runner -/

namespace RunSuite

variable {p : Char → Bool} {cs : List Char}

/-- The characters that are kept, and hyphens. -/
theorem mem_hyphenate {c : Char} (h : c ∈ hyphenate p cs) : c = '-' ∨ c ∈ cs ∧ p c = false := by
  fun_induction hyphenate p cs with
  | case1 => cases h
  | case2 d hd e rest he ih => exact (ih h).imp_right fun hc => ⟨List.mem_cons_of_mem d hc.1, hc.2⟩
  | case3 d hd e rest he ih =>
    rcases List.mem_cons.1 h with rfl | h
    · exact .inl rfl
    · exact (ih h).imp_right fun hc => ⟨List.mem_cons_of_mem d hc.1, hc.2⟩
  | case4 d hd => exact .inl (List.mem_singleton.1 h)
  | case5 d rest hd ih =>
    rcases List.mem_cons.1 h with rfl | h
    · exact .inr ⟨List.mem_cons_self, by simpa using hd⟩
    · exact (ih h).imp_right fun hc => ⟨List.mem_cons_of_mem d hc.1, hc.2⟩

/-- A character that is kept comes first if it came first. -/
theorem head_hyphenate {c : Char} {rest : List Char} (hc : ¬ p c = true) :
    (hyphenate p (c :: rest)).head? = some c := by
  unfold hyphenate
  rw [if_neg hc]
  rfl

/-- No two hyphens are left next to each other. -/
theorem isChain_hyphenate (cs : List Char) : (hyphenate (· == '-') cs).IsChain Apart := by
  fun_induction hyphenate (· == '-') cs with
  | case1 => exact .nil
  | case2 c hc d rest hd ih => exact ih
  | case3 c hc d rest hd ih =>
    refine ih.cons fun e he => ?_
    have hhead : (hyphenate (· == '-') (d :: rest)).head? = some d := head_hyphenate hd
    rw [Option.mem_def, hhead, Option.some.injEq] at he
    rintro ⟨-, rfl⟩
    exact hd (by simp [he])
  | case4 c hc => exact .singleton _
  | case5 c rest hc ih =>
    refine ih.cons fun e he => ?_
    rintro ⟨rfl, -⟩
    exact hc (by simp)

/-- Where runs are single hyphens there is nothing to replace. -/
theorem hyphenate_eq_self (hp : ∀ c ∈ cs, p c = true → c = '-') (h : cs.IsChain Apart) :
    hyphenate p cs = cs := by
  fun_induction hyphenate p cs with
  | case1 => rfl
  | case2 c hc d rest hd ih =>
    have hapart := List.isChain_cons_cons.1 h
    exact absurd ⟨hp c (by simp) hc, hp d (by simp) hd⟩ hapart.1
  | case3 c hc d rest hd ih =>
    rw [ih (fun e he => hp e (List.mem_cons_of_mem c he)) h.tail, hp c (by simp) hc]
  | case4 c hc => rw [hp c (by simp) hc]
  | case5 c rest hc ih => rw [ih (fun e he => hp e (List.mem_cons_of_mem c he)) h.tail]

theorem isForeign_eq_false {c : Char} :
    isForeign c = false ↔ c.isAlphanum = true ∨ c = '_' ∨ c = '-' := by
  simp only [isForeign, Bool.not_eq_false', Bool.or_eq_true, beq_iff_eq, or_assoc]

/-- The id of what has no character to keep. -/
theorem isId_id : IsId "id" := by
  have hchars : "id".toList = ['i', 'd'] := String.toList_ofList
  refine ⟨by decide, ?_, ?_, ?_, ?_⟩ <;> rw [hchars]
  · exact List.forall_mem_cons.2 ⟨.inl rfl, List.forall_mem_singleton.2 (.inl rfl)⟩
  · exact List.isChain_pair.2 (by decide)
  · simp
  · simp

/-- Whatever it is given, the runner makes an id. -/
theorem isId_sanitizeId (value : String) : IsId (sanitizeId value) := by
  let kept := hyphenate isForeign (strip value).toList
  let chars := stripChars (· == '-') (hyphenate (· == '-') kept)
  have hid : sanitizeId value
      = if String.ofList chars = "" then "id" else String.ofList chars := rfl
  have hkept : ∀ c ∈ kept, isForeign c = false := by
    intro c hc
    rcases mem_hyphenate hc with rfl | ⟨-, hc⟩
    · decide
    · exact hc
  rw [hid]
  split
  next => exact isId_id
  next hne =>
    refine ⟨hne, ?_, ?_, ?_, ?_⟩ <;> rw [String.toList_ofList]
    · intro c hc
      rw [← isForeign_eq_false]
      rcases mem_hyphenate (stripChars_isInfix.subset hc) with rfl | ⟨hc, -⟩
      · decide
      · exact hkept c hc
    · exact List.IsChain.infix (isChain_hyphenate kept) stripChars_isInfix
    · intro c hc
      simpa using head_stripChars c hc
    · intro c hc
      simpa using last_stripChars c hc

/-- The runner leaves an id alone. -/
theorem sanitizeId_eq_self {id : String} (h : IsId id) : sanitizeId id = id := by
  have hkeep : ∀ c ∈ id.toList, isForeign c = false :=
    fun c hc => isForeign_eq_false.2 (h.chars c hc)
  have hspace : ∀ c ∈ id.toList, isPySpace c = false := by
    intro c hc
    by_contra hs
    have hbounds := toNat_of_not_isForeign (hkeep c hc)
    simp only [isPySpace, List.contains_eq_mem, List.mem_cons, List.not_mem_nil, or_false,
      Bool.not_eq_false, Bool.or_eq_true, Bool.and_eq_true, decide_eq_true_eq] at hs
    omega
  have hstrip : strip id = id := by
    rw [strip, stripChars_eq_self (fun c hc => hspace c (List.mem_of_mem_head? hc))
      (fun c hc => hspace c (List.mem_of_mem_getLast? hc)), String.ofList_toList]
  have hsanitized : stripChars (· == '-') (hyphenate (· == '-') (hyphenate isForeign id.toList))
      = id.toList := by
    rw [hyphenate_eq_self (fun c hc hf => absurd hf (by simp [hkeep c hc])) h.apart,
      hyphenate_eq_self (fun c _ hc => by simpa using hc) h.apart,
      stripChars_eq_self (fun c hc => by simpa using h.head c hc)
        (fun c hc => by simpa using h.last c hc)]
  simp only [sanitizeId, hstrip, hsanitized, String.ofList_toList, if_neg h.ne_empty]

end RunSuite

/-! ## The simulator -/

namespace CommandLine

/-- The bytes of the characters of an id are these characters. -/
theorem map_sanitizeChar {c : Char} (h : RunSuite.isForeign c = false) :
    (String.utf8EncodeChar c).map sanitizeChar = [c] := by
  have hall : ∀ n < 128, RunSuite.isForeign (Char.ofNat n) = false →
      (String.utf8EncodeChar (Char.ofNat n)).map sanitizeChar = [Char.ofNat n] := by
    decide +kernel
  have hbounds := RunSuite.toNat_of_not_isForeign h
  have hc := hall c.toNat (by omega)
  rw [Char.ofNat_toNat] at hc
  exact hc h

/-- The simulator leaves an id alone. -/
theorem sanitizeId_eq_self {id : String} (h : IsId id) : sanitizeId id = id := by
  have hbytes : ∀ cs : List Char, (∀ c ∈ cs, RunSuite.isForeign c = false) →
      (cs.flatMap String.utf8EncodeChar).map sanitizeChar = cs := by
    intro cs hcs
    induction cs with
    | nil => rfl
    | cons c cs ih =>
      rw [List.flatMap_cons, List.map_append, map_sanitizeChar (hcs c List.mem_cons_self),
        ih fun d hd => hcs d (List.mem_cons_of_mem c hd)]
      rfl
  have hout := hbytes id.toList fun c hc => RunSuite.isForeign_eq_false.2 (h.chars c hc)
  simp only [sanitizeId, hout, String.ofList_toList, if_neg h.ne_empty]

theorem setRunId_of_isId {config : Config} (fallback : String) (h : IsId config.runId) :
    setRunId fallback config = config := by
  rw [setRunId, if_neg h.ne_empty, sanitizeId_eq_self h]

end CommandLine

/-! ## From the plan to the artifacts -/

namespace RunSuite

open Py CommandLine MetricsRow

variable {py : Builtins} {registry : BenchmarkPluginRegistry} {args : PlanArgs}

/-- The cases of a plan have ids. -/
theorem isId_runId {selected : List Json} {plan : List Entry}
    (hplan : buildRunPlan py registry args selected = .ok plan) : ∀ e ∈ plan, IsId e.runId := by
  obtain ⟨runs, s, -, hfold, rfl⟩ := buildRunPlan_eq_ok hplan
  have hnamed : ∀ e ∈ s.plan, Named args e :=
    forall_of_foldlM named_newEntry named_addExperiment hfold (by simp)
  intro e he
  obtain ⟨suiteId, rest, -, hid⟩ := (hnamed e he).runId
  rw [hid]
  exact isId_sanitizeId _

/-- The simulator is given the id of the case. -/
theorem runId_of_buildCommand {binPath : String} {suite : Json} {case : Entry} {argv : List String}
    {config : Config} (hcommand : buildCommand binPath suite case = some argv)
    (hparse : parseArgs argv = .ok config) : config.runId = case.runId := by
  obtain ⟨_, _, _, _, _, -, -, -, -, -, rfl⟩ := configOf_of_buildCommand hcommand hparse
  rfl

/-- The row that the simulator writes, started with the command line of a case, has the id of the
case in the `RunId` column. -/
theorem runId_mem_metricsCells {args : PlanArgs} {selected : List Json} {plan : List Entry}
    {case : Entry} {binPath : String} {argv : List String} {config : Config}
    (hplan : buildRunPlan py registry args selected = .ok plan) (hcase : case ∈ plan)
    (hcommand : buildCommand binPath args.suite case = some argv)
    (hparse : parseArgs argv = .ok config) (fallback : String) (metrics : Metrics)
    (schedulerName workloadName : String) (seed : Int64) (replication : Int32) :
    ("RunId", case.runId) ∈ metricsHeader.zip
      (metricsCells metrics schedulerName workloadName (setRunId fallback config) seed
        replication) := by
  have hconfig := runId_of_buildCommand hcommand hparse
  have hid : IsId config.runId := hconfig ▸ isId_runId hplan case hcase
  rw [setRunId_of_isId fallback hid, ← hconfig]
  simp [metricsHeader, metricsCells]

end RunSuite

end SchedSim
