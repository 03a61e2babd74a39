import SchedSim.GoogleTrace
import SchedSim.Grouping
import SchedSim.MinElement
import SchedSim.Task
import Mathlib.Tactic.IntervalCases

/-!
# Matching the events of a trace

`extract_tasks` of `real-time-workloads/google_v3/extract_google_v3.py`: the events of all instances
of a trace are collected by instance, and from the earliest submission, the earliest schedule after
it and the earliest end after that comes a record for the simulator.  Reading the lines and the
messages on the console are left out.

* `ExtractGoogleV3.weight_recordOf_mono` — a higher priority never has less weight.
* `ExtractGoogleV3.matchEvents_cases` — which events a record comes from.
* `ExtractGoogleV3.extractTasks_spec` — which instances have a record, and each at most one.
* `ExtractGoogleV3.extractTasks_perm` — the order of the lines does not matter.
-/

namespace SchedSim

namespace ExtractGoogleV3

/-! ## Priorities -/

/-- `CFS_WEIGHTS`, from nice `-20` to nice `19` -/
def cfsWeights : List ℤ :=
  [88761, 71755, 56483, 46273, 36291,
   29154, 23254, 18705, 14949, 11916,
   9548, 7620, 6100, 4904, 3906,
   3121, 2501, 1991, 1586, 1277,
   1024, 820, 655, 526, 423,
   335, 272, 215, 172, 137,
   110, 87, 70, 56, 45,
   36, 29, 23, 18, 15]

/-- `CFS_WEIGHTS[nice]` -/
def cfsWeight (nice : ℤ) : ℤ := cfsWeights.getD (nice + 20).toNat 0

/-- Map a priority to a nice value; a quotient that is not whole is too far from the next whole
number for its rounding to matter. -/
def mapPriorityToNice (v3Priority : ℤ) : ℤ :=
  if v3Priority < 100 then
    max 10 (min 19 (19 - (v3Priority * 9).tdiv 99))
  else if v3Priority ≤ 115 then
    max 5 (min 9 (9 - ((v3Priority - 100) * 4).tdiv 15))
  else if v3Priority ≤ 119 then
    max 1 (min 4 (4 - ((v3Priority - 116) * 3).tdiv 3))
  else if v3Priority ≤ 359 then
    max (-10) (min 0 (-((v3Priority - 120) * 10).tdiv 239))
  else
    max (-20) (min (-11) (-11 - ((v3Priority - 360) * 9).tdiv 140))

theorem mapPriorityToNice_range (p : ℤ) : -20 ≤ mapPriorityToNice p ∧ mapPriorityToNice p ≤ 19 := by
  unfold mapPriorityToNice
  split_ifs <;> omega

/-- The tiers lie one below the other, and each is mapped downwards. -/
theorem mapPriorityToNice_antitone : Antitone mapPriorityToNice := by
  intro p q hpq
  have hfree := Int.tdiv_le_tdiv (c := 99) (by norm_num) (show p * 9 ≤ q * 9 by omega)
  have hbatch := Int.tdiv_le_tdiv (c := 15) (by norm_num)
    (show (p - 100) * 4 ≤ (q - 100) * 4 by omega)
  have hmid := Int.tdiv_le_tdiv (c := 3) (by norm_num)
    (show (p - 116) * 3 ≤ (q - 116) * 3 by omega)
  have hproduction := Int.tdiv_le_tdiv (c := 239) (by norm_num)
    (show (p - 120) * 10 ≤ (q - 120) * 10 by omega)
  have hmonitoring := Int.tdiv_le_tdiv (c := 140) (by norm_num)
    (show (p - 360) * 9 ≤ (q - 360) * 9 by omega)
  unfold mapPriorityToNice
  split_ifs <;> omega

/-- The table is the one that the simulator has. -/
theorem cfsWeight_eq {a : TaskArgs} (h : -20 ≤ a.nice ∧ a.nice ≤ 19) :
    cfsWeight a.nice = (Task.new a).weight.toNat := by
  obtain ⟨hlow, hhigh⟩ := h
  unfold Task.new
  dsimp only
  generalize a.nice = nice at hlow hhigh
  interval_cases nice <;> decide +kernel

theorem cfsWeight_antitone {nice nice' : ℤ} (hle : nice ≤ nice') (hhigh : nice' ≤ 19) :
    cfsWeight nice' ≤ cfsWeight nice := by
  have hsorted : ∀ i < 40, ∀ j < 40, i ≤ j → cfsWeights.getD j 0 ≤ cfsWeights.getD i 0 := by
    decide +kernel
  apply hsorted <;> omega

/-! ## Events -/

/-- The events that are collected: `SUBMIT`, `SCHEDULE` and `FINISH` -/
inductive EventType where
  | submit
  | schedule
  | finish
  deriving DecidableEq

/-- `event_data` -/
structure EventData where
  time : ℤ
  priority : ℤ
  schedulingClass : ℤ
  cpus : Double
  deriving DecidableEq

/-- A line of the trace, with the instance it belongs to -/
structure TraceEvent (κ : Type) where
  type : EventType
  key : κ
  data : EventData

/-- What is collected for an instance -/
structure TaskEvents where
  submit : List EventData := []
  schedule : List EventData := []
  finish : List EventData := []

section Collect

variable {κ : Type} [DecidableEq κ]

/-- Submissions after the time window are passed over; a window of zero is none. -/
def inWindow (window : Option ℤ) (e : TraceEvent κ) : Bool :=
  match window with
  | none => true
  | some w => w = 0 || e.type ≠ .submit || e.data.time ≤ w

def TaskEvents.add (events : TaskEvents) (e : TraceEvent κ) : TaskEvents :=
  match e.type with
  | .submit => { events with submit := events.submit ++ [e.data] }
  | .schedule => { events with schedule := events.schedule ++ [e.data] }
  | .finish => { events with finish := events.finish ++ [e.data] }

/-- `tasks`, in the order in which the instances turn up -/
def collect (window : Option ℤ) (events : List (TraceEvent κ)) : List (κ × TaskEvents) :=
  Grouping.tally TraceEvent.key {} TaskEvents.add (events.filter (inWindow window))

/-- The events of one kind of one instance -/
def dataOf (window : Option ℤ) (events : List (TraceEvent κ)) (key : κ) (type : EventType) :
    List EventData :=
  (events.filter fun e => inWindow window e ∧ e.key = key ∧ e.type = type).map TraceEvent.data

/-- The events of one instance -/
def eventsOf (window : Option ℤ) (events : List (TraceEvent κ)) (key : κ) : TaskEvents where
  submit := dataOf window events key .submit
  schedule := dataOf window events key .schedule
  finish := dataOf window events key .finish

end Collect

/-! ## Matching -/

/-- The first of the earliest events, if there are any -/
def earliest (events : List EventData) : Option EventData :=
  minElement (fun e e' => e.time < e'.time) events

/-- What becomes of an instance -/
inductive Outcome where
  | noSubmit
  | noSchedule
  | noFinish
  | negativeBurst
  | zeroBurst
  | complete (r : Record)

/-- The record of a submission, a schedule and an end -/
def recordOf (submit schedule finish : EventData) : Record where
  arrivalTimeUs := submit.time / 1000
  cpuBurstDurationUs := (finish.time - schedule.time) / 1000
  nice := mapPriorityToNice submit.priority
  weight := cfsWeight (mapPriorityToNice submit.priority)
  schedulingClass := submit.schedulingClass
  cpuRequest := submit.cpus

/-- A higher priority never has less weight. -/
theorem weight_recordOf_mono {submit submit' : EventData} (h : submit.priority ≤ submit'.priority)
    (schedule finish schedule' finish' : EventData) :
    (recordOf submit schedule finish).weight ≤ (recordOf submit' schedule' finish').weight :=
  cfsWeight_antitone (mapPriorityToNice_antitone h) (mapPriorityToNice_range submit.priority).2

/-- The schedules after the submission, or all if there are none -/
def validSchedules (events : TaskEvents) (submit : EventData) : List EventData :=
  let valid := events.schedule.filter fun e => submit.time ≤ e.time
  if valid = [] then events.schedule else valid

def matchEvents (events : TaskEvents) : Outcome :=
  match earliest events.submit with
  | none => .noSubmit
  | some submit =>
    match earliest (validSchedules events submit) with
    | none => .noSchedule
    | some schedule =>
      match earliest (events.finish.filter fun e => schedule.time ≤ e.time) with
      | none => .noFinish
      | some finish =>
        let r := recordOf submit schedule finish
        if r.cpuBurstDurationUs < 0 then .negativeBurst
        else if r.cpuBurstDurationUs = 0 then .zeroBurst
        else .complete r

/-- `stats` -/
structure Stats where
  complete : ℕ := 0
  noSubmit : ℕ := 0
  noSchedule : ℕ := 0
  noFinish : ℕ := 0
  negativeBurst : ℕ := 0
  zeroBurst : ℕ := 0

def Stats.add (stats : Stats) : Outcome → Stats
  | .noSubmit => { stats with noSubmit := stats.noSubmit + 1 }
  | .noSchedule => { stats with noSchedule := stats.noSchedule + 1 }
  | .noFinish => { stats with noFinish := stats.noFinish + 1 }
  | .negativeBurst => { stats with negativeBurst := stats.negativeBurst + 1 }
  | .zeroBurst => { stats with zeroBurst := stats.zeroBurst + 1 }
  | .complete _ => { stats with complete := stats.complete + 1 }

/-- `max_tasks and stats['complete'] >= max_tasks` -/
def limitReached (maxTasks : Option ℤ) (stats : Stats) : Bool :=
  match maxTasks with
  | none => false
  | some m => m ≠ 0 && m ≤ stats.complete

/-- The loop over the instances -/
def matchAll (maxTasks : Option ℤ) : List TaskEvents → Stats → List Record → Stats × List Record
  | [], stats, records => (stats, records)
  | events :: rest, stats, records =>
    match matchEvents events with
    | .complete r =>
      let stats := stats.add (.complete r)
      if limitReached maxTasks stats then (stats, records ++ [r])
      else matchAll maxTasks rest stats (records ++ [r])
    | other => matchAll maxTasks rest (stats.add other) records

def extractTasks {κ : Type} [DecidableEq κ] (window maxTasks : Option ℤ)
    (events : List (TraceEvent κ)) : Stats × List Record :=
  let (stats, records) := matchAll maxTasks ((collect window events).map Prod.snd) {} []
  (stats, sortRecords records)

/-! ## The earliest event -/

section Earliest

variable {events : List EventData} {e : EventData}

@[simp] theorem earliest_eq_none : earliest events = none ↔ events = [] := by
  simp [earliest]

theorem earliest_mem (h : earliest events = some e) : e ∈ events := minElement_mem h

theorem earliest_le (h : earliest events = some e) : ∀ e' ∈ events, e.time ≤ e'.time := by
  have hleast : ∀ e' ∈ events, (e.time : ℚ) ≤ e'.time := by
    refine minElement_le (f := fun e : EventData => (e.time : ℚ)) ?_ ?_ h
    · intro x b hlt
      exact_mod_cast (of_decide_eq_true hlt).le
    · intro x b hlt
      exact_mod_cast not_lt.1 (of_decide_eq_false hlt)
  intro e' he'
  exact_mod_cast hleast e' he'

theorem exists_earliest (h : events ≠ []) : ∃ e, earliest events = some e :=
  Option.ne_none_iff_exists'.1 fun hnone => h (earliest_eq_none.1 hnone)

end Earliest

/-! ## Which events a record comes from -/

/-- The earliest submission, and the earliest schedule since then, or the earliest at all if there
is none -/
structure Started (events : TaskEvents) (submit schedule : EventData) : Prop where
  submit_mem : submit ∈ events.submit
  submit_le : ∀ e ∈ events.submit, submit.time ≤ e.time
  schedule_mem : schedule ∈ validSchedules events submit
  schedule_le : ∀ e ∈ validSchedules events submit, schedule.time ≤ e.time

/-- And the earliest end since that -/
structure Matched (events : TaskEvents) (submit schedule finish : EventData) : Prop extends
    Started events submit schedule where
  finish_mem : finish ∈ events.finish
  finish_ge : schedule.time ≤ finish.time
  finish_le : ∀ e ∈ events.finish, schedule.time ≤ e.time → finish.time ≤ e.time

section Match

variable {events events' : TaskEvents} {submit schedule finish : EventData} {r : Record}

theorem mem_validSchedules {e : EventData} : e ∈ validSchedules events submit ↔
    e ∈ events.schedule ∧ (submit.time ≤ e.time ∨ ∀ e' ∈ events.schedule,
      e'.time < submit.time) := by
  have hnil : (events.schedule.filter fun e => submit.time ≤ e.time) = [] ↔
      ∀ e' ∈ events.schedule, e'.time < submit.time := by
    simp [List.filter_eq_nil_iff]
  unfold validSchedules
  dsimp only
  split
  next h =>
    rw [hnil] at h
    exact ⟨fun he => ⟨he, .inr h⟩, And.left⟩
  next h =>
    rw [hnil] at h
    simp only [List.mem_filter, decide_eq_true_eq]
    exact and_congr_right fun _ => ⟨.inl, fun hor => hor.resolve_right h⟩

/-- The times of such events are determined. -/
theorem Started.time_eq {submit' schedule' : EventData} (h : Started events submit schedule)
    (h' : Started events submit' schedule') :
    submit.time = submit'.time ∧ schedule.time = schedule'.time := by
  have htime : submit.time = submit'.time :=
    le_antisymm (h.submit_le _ h'.submit_mem) (h'.submit_le _ h.submit_mem)
  have hvalid : validSchedules events submit = validSchedules events submit' := by
    simp only [validSchedules, htime]
  constructor
  · exact htime
  · exact le_antisymm (h.schedule_le _ (hvalid ▸ h'.schedule_mem))
      (h'.schedule_le _ (hvalid ▸ h.schedule_mem))

theorem Matched.time_eq {submit' schedule' finish' : EventData}
    (h : Matched events submit schedule finish) (h' : Matched events submit' schedule' finish') :
    schedule.time = schedule'.time ∧ finish.time = finish'.time := by
  obtain ⟨-, hschedule⟩ := h.toStarted.time_eq h'.toStarted
  refine ⟨hschedule, le_antisymm ?_ ?_⟩
  · exact h.finish_le _ h'.finish_mem (hschedule ▸ h'.finish_ge)
  · exact h'.finish_le _ h.finish_mem (hschedule ▸ h.finish_ge)

/-- Everything that can become of an instance -/
theorem matchEvents_cases (events : TaskEvents) :
    matchEvents events = .noSubmit ∧ events.submit = [] ∨
    matchEvents events = .noSchedule ∧ events.schedule = [] ∨
    matchEvents events = .noFinish ∧ (∀ s c f, ¬ Matched events s c f) ∨
    ∃ submit schedule finish, Matched events submit schedule finish ∧
      matchEvents events = if finish.time - schedule.time < 1000 then .zeroBurst
        else .complete (recordOf submit schedule finish) := by
  cases hsubmit : earliest events.submit with
  | none => exact .inl ⟨by simp [matchEvents, hsubmit], earliest_eq_none.1 hsubmit⟩
  | some submit =>
    cases hschedule : earliest (validSchedules events submit) with
    | none =>
      refine .inr (.inl ⟨by simp [matchEvents, hsubmit, hschedule], ?_⟩)
      have hnil := earliest_eq_none.1 hschedule
      unfold validSchedules at hnil
      dsimp only at hnil
      split at hnil
      next => exact hnil
      next hne => exact absurd hnil hne
    | some schedule =>
      have hstarted : Started events submit schedule := ⟨earliest_mem hsubmit,
        earliest_le hsubmit, earliest_mem hschedule, earliest_le hschedule⟩
      cases hfinish : earliest (events.finish.filter fun e => schedule.time ≤ e.time) with
      | none =>
        refine .inr (.inr (.inl ⟨by simp [matchEvents, hsubmit, hschedule, hfinish], ?_⟩))
        intro s c f hmatched
        obtain ⟨-, htime⟩ := hmatched.toStarted.time_eq hstarted
        apply List.not_mem_nil (a := f)
        rw [← earliest_eq_none.1 hfinish]
        exact List.mem_filter.2 ⟨hmatched.finish_mem,
          decide_eq_true (htime ▸ hmatched.finish_ge)⟩
      | some finish =>
        have hmem := List.mem_filter.1 (earliest_mem hfinish)
        refine .inr (.inr (.inr ⟨submit, schedule, finish,
          ⟨hstarted, hmem.1, of_decide_eq_true hmem.2, ?_⟩, ?_⟩))
        · intro e he hle
          exact earliest_le hfinish e (List.mem_filter.2 ⟨he, decide_eq_true hle⟩)
        · have hge : schedule.time ≤ finish.time := of_decide_eq_true hmem.2
          have hburst : (recordOf submit schedule finish).cpuBurstDurationUs
              = (finish.time - schedule.time) / 1000 := rfl
          simp only [matchEvents, hsubmit, hschedule, hfinish, hburst]
          split_ifs <;> first | rfl | omega

/-- A burst cannot be negative. -/
theorem matchEvents_ne_negativeBurst : matchEvents events ≠ .negativeBurst := by
  rcases matchEvents_cases events with ⟨h, -⟩ | ⟨h, -⟩ | ⟨h, -⟩ | ⟨s, c, f, -, h⟩
  · simp [h]
  · simp [h]
  · simp [h]
  · rw [h]
    split <;> simp

/-- The record of an instance, if it has one -/
def Outcome.record? : Outcome → Option Record
  | .complete r => some r
  | _ => none

/-- A record comes from matched events that are at least a microsecond apart. -/
theorem matchEvents_record (h : (matchEvents events).record? = some r) :
    ∃ submit schedule finish, Matched events submit schedule finish ∧
      1000 ≤ finish.time - schedule.time ∧ r = recordOf submit schedule finish := by
  rcases matchEvents_cases events with ⟨hm, -⟩ | ⟨hm, -⟩ | ⟨hm, -⟩ | ⟨s, c, f, hmatched, hm⟩
  · simp [hm, Outcome.record?] at h
  · simp [hm, Outcome.record?] at h
  · simp [hm, Outcome.record?] at h
  · rw [hm] at h
    split at h
    next => simp [Outcome.record?] at h
    next hlong =>
      refine ⟨s, c, f, hmatched, not_lt.1 hlong, ?_⟩
      simpa [Outcome.record?] using h.symm

/-- Such events have one. -/
theorem exists_record (h : Matched events submit schedule finish)
    (hlong : 1000 ≤ finish.time - schedule.time) : ∃ r, (matchEvents events).record? = some r := by
  rcases matchEvents_cases events with ⟨-, hnil⟩ | ⟨-, hnil⟩ | ⟨-, hno⟩ | ⟨s, c, f, hmatched, hm⟩
  · exact absurd h.submit_mem (by simp [hnil])
  · exact absurd (mem_validSchedules.1 h.schedule_mem).1 (by simp [hnil])
  · exact absurd h (hno _ _ _)
  · obtain ⟨hschedule, hfinish⟩ := h.time_eq hmatched
    rw [hm, if_neg (by omega)]
    exact ⟨_, rfl⟩

end Match

/-! ## The loop -/

/-- The loop stops at the limit, or at the end. -/
theorem matchAll_eq (maxTasks : Option ℤ) (tasks : List TaskEvents) (stats : Stats)
    (records : List Record) : ∃ scanned rest, tasks = scanned ++ rest ∧
    matchAll maxTasks tasks stats records
      = ((scanned.map matchEvents).foldl Stats.add stats,
          records ++ scanned.filterMap fun events => (matchEvents events).record?) ∧
    (rest ≠ [] → limitReached maxTasks ((scanned.map matchEvents).foldl Stats.add stats)) := by
  induction tasks generalizing stats records with
  | nil => exact ⟨[], [], rfl, by simp [matchAll], by simp⟩
  | cons events tasks ih =>
    unfold matchAll
    cases hm : matchEvents events with
    | complete r =>
      dsimp only
      split
      next hlimit =>
        refine ⟨[events], tasks, rfl, ?_, fun _ => ?_⟩
        · simp [hm, Outcome.record?]
        · simpa [hm] using hlimit
      next =>
        obtain ⟨scanned, rest, rfl, heq, hlimit⟩ := ih (stats.add (.complete r)) (records ++ [r])
        refine ⟨events :: scanned, rest, rfl, ?_, ?_⟩
        · rw [heq]
          simp [hm, Outcome.record?]
        · simpa [hm] using hlimit
    | _ =>
      dsimp only
      obtain ⟨scanned, rest, rfl, heq, hlimit⟩ := ih (stats.add (matchEvents events)) records
      rw [hm] at heq hlimit
      refine ⟨events :: scanned, rest, rfl, ?_, ?_⟩
      · rw [heq]
        simp [hm, Outcome.record?]
      · simpa [hm] using hlimit

/-! ## What is collected -/

section Table

variable {κ : Type} [DecidableEq κ] {window : Option ℤ} {events events' : List (TraceEvent κ)}
  {key : κ}

omit [DecidableEq κ] in
theorem foldl_add (l : List (TraceEvent κ)) (acc : TaskEvents) : l.foldl TaskEvents.add acc =
    { submit := acc.submit ++ (l.filter fun e => e.type = .submit).map TraceEvent.data
      schedule := acc.schedule ++ (l.filter fun e => e.type = .schedule).map TraceEvent.data
      finish := acc.finish ++ (l.filter fun e => e.type = .finish).map TraceEvent.data } := by
  induction l generalizing acc with
  | nil => simp
  | cons e l ih =>
    rw [List.foldl_cons, ih]
    cases he : e.type <;> simp [TaskEvents.add, he]

/-- Each instance has the events that are its own. -/
theorem collect_spec (window : Option ℤ) (events : List (TraceEvent κ)) :
    ((collect window events).map Prod.fst).Nodup ∧
      (∀ key, key ∈ (collect window events).map Prod.fst ↔
        ∃ e ∈ events, inWindow window e ∧ e.key = key) ∧
      ∀ entry ∈ collect window events, entry.2 = eventsOf window events entry.1 := by
  obtain ⟨hnodup, hkeys, hvalue⟩ := Grouping.tally_spec TraceEvent.key {} TaskEvents.add
    (events.filter (inWindow window))
  refine ⟨hnodup, fun key => ?_, fun entry hentry => ?_⟩
  · unfold collect
    rw [hkeys key]
    simp only [List.mem_filter, and_assoc]
  · have hdata : ∀ type, (((events.filter (inWindow window)).filter
        fun e => e.key = entry.1).filter fun e => e.type = type).map TraceEvent.data
        = dataOf window events entry.1 type := by
      intro type
      rw [dataOf, List.filter_filter, List.filter_filter]
      congr 2
      funext e
      simp [Bool.and_comm, Bool.and_assoc, and_comm, and_assoc]
    rw [hvalue entry hentry, foldl_add]
    simp only [List.nil_append, hdata]
    rfl

/-- An instance with matched events turns up. -/
theorem mem_keys_of_matched {submit schedule finish : EventData}
    (h : Matched (eventsOf window events key) submit schedule finish) :
    key ∈ (collect window events).map Prod.fst := by
  obtain ⟨-, hkeys, -⟩ := collect_spec window events
  obtain ⟨e, he, -⟩ := List.mem_map.1 h.submit_mem
  simp only [List.mem_filter, decide_eq_true_eq] at he
  exact (hkeys key).2 ⟨e, he.1, he.2.1, he.2.2.1⟩

end Table

/-! ## The records -/

/-- How many instances have been looked at -/
def Stats.total (stats : Stats) : ℕ :=
  stats.complete + stats.noSubmit + stats.noSchedule + stats.noFinish + stats.negativeBurst
    + stats.zeroBurst

section Stats

theorem foldl_stats (tasks : List TaskEvents) (stats : Stats) :
    ((tasks.map matchEvents).foldl Stats.add stats).complete
        = stats.complete + (tasks.filterMap fun events => (matchEvents events).record?).length ∧
      ((tasks.map matchEvents).foldl Stats.add stats).negativeBurst = stats.negativeBurst ∧
      ((tasks.map matchEvents).foldl Stats.add stats).total = stats.total + tasks.length := by
  induction tasks generalizing stats with
  | nil => simp
  | cons events tasks ih =>
    obtain ⟨hcomplete, hnegative, htotal⟩ := ih (stats.add (matchEvents events))
    rw [List.map_cons, List.foldl_cons, hcomplete, hnegative, htotal]
    clear hcomplete hnegative htotal
    cases hm : matchEvents events with
    | negativeBurst => exact absurd hm matchEvents_ne_negativeBurst
    | _ =>
      simp only [List.filterMap_cons, hm, Outcome.record?, Stats.add, Stats.total,
        List.length_cons, true_and]
      omega

end Stats

/-- The instances of a table that have a record, with it -/
def withRecord {κ : Type} (table : List (κ × TaskEvents)) : List (κ × Record) :=
  table.filterMap fun entry => (matchEvents entry.2).record?.map (Prod.mk entry.1)

section WithRecord

variable {κ : Type} {table : List (κ × TaskEvents)} {x : κ × Record}

theorem map_snd_withRecord : (withRecord table).map Prod.snd
    = (table.map Prod.snd).filterMap fun events => (matchEvents events).record? := by
  unfold withRecord
  rw [List.map_filterMap, List.filterMap_map]
  congr 1
  funext entry
  simp

theorem mem_withRecord : x ∈ withRecord table ↔
    ∃ events, (x.1, events) ∈ table ∧ (matchEvents events).record? = some x.2 := by
  unfold withRecord
  rw [List.mem_filterMap]
  constructor
  · rintro ⟨⟨key, events⟩, hentry, hx⟩
    obtain ⟨r, hr, rfl⟩ := Option.map_eq_some_iff.1 hx
    exact ⟨events, hentry, hr⟩
  · rintro ⟨events, hentry, hr⟩
    exact ⟨_, hentry, by simp [hr]⟩

theorem nodup_withRecord (h : (table.map Prod.fst).Nodup) :
    ((withRecord table).map Prod.fst).Nodup := by
  refine h.sublist ?_
  clear h
  induction table with
  | nil => simp [withRecord]
  | cons entry table ih =>
    unfold withRecord
    rw [List.filterMap_cons]
    cases (matchEvents entry.2).record? with
    | none => exact ih.cons entry.1
    | some r => exact ih.cons_cons entry.1

end WithRecord

/-- Two instances: one is submitted twice, the other one has no end. -/
def sampleEvents : List (TraceEvent ℕ) :=
  [⟨.submit, 7, ⟨5000, 200, 2, .ofRat 0⟩⟩, ⟨.schedule, 7, ⟨6000, 200, 2, .ofRat 0⟩⟩,
   ⟨.submit, 8, ⟨5500, 0, 1, .ofRat 0⟩⟩, ⟨.submit, 7, ⟨4000, 103, 2, .ofRat 0⟩⟩,
   ⟨.finish, 7, ⟨9000, 200, 2, .ofRat 0⟩⟩, ⟨.schedule, 8, ⟨7000, 0, 1, .ofRat 0⟩⟩]

section Order

/-- The time of the earliest event does not depend on the order. -/
theorem earliest_perm {l l' : List EventData} (h : l.Perm l') :
    earliest l = none ∧ earliest l' = none ∨
      ∃ e e', earliest l = some e ∧ earliest l' = some e' ∧ e.time = e'.time := by
  by_cases hnil : l = []
  · left
    rw [hnil, List.nil_perm] at h
    simp [hnil, h]
  · right
    obtain ⟨e, he⟩ := exists_earliest hnil
    obtain ⟨e', he'⟩ := exists_earliest fun hnil' => hnil (List.perm_nil.1 (hnil' ▸ h))
    refine ⟨e, e', he, he', le_antisymm ?_ ?_⟩
    · exact earliest_le he e' (h.mem_iff.2 (earliest_mem he'))
    · exact earliest_le he' e (h.mem_iff.1 (earliest_mem he))

theorem validSchedules_perm {events events' : TaskEvents} (submit : EventData)
    (h : events.schedule.Perm events'.schedule) :
    (validSchedules events submit).Perm (validSchedules events' submit) := by
  have hvalid := h.filter fun e => submit.time ≤ e.time
  unfold validSchedules
  dsimp only
  split
  next hnil =>
    rw [hnil, List.nil_perm] at hvalid
    rw [if_pos hvalid]
    exact h
  next hne =>
    have hne' : (events'.schedule.filter fun e => submit.time ≤ e.time) ≠ [] := by
      intro hnil
      rw [hnil, List.perm_nil] at hvalid
      exact hne hvalid
    rw [if_neg hne']
    exact hvalid

/-- What becomes of an instance does not depend on the order of its events, if submissions at the
same time agree. -/
theorem matchEvents_perm {events events' : TaskEvents} (hsubmit : events.submit.Perm events'.submit)
    (hschedule : events.schedule.Perm events'.schedule)
    (hfinish : events.finish.Perm events'.finish)
    (hties : ∀ e ∈ events.submit, ∀ e' ∈ events.submit, e.time = e'.time → e = e') :
    matchEvents events = matchEvents events' := by
  rcases earliest_perm hsubmit with ⟨hs, hs'⟩ | ⟨s, s', hs, hs', htime⟩
  · simp [matchEvents, hs, hs']
  obtain rfl := hties s (earliest_mem hs) s' (hsubmit.mem_iff.2 (earliest_mem hs')) htime
  rcases earliest_perm (validSchedules_perm s hschedule) with ⟨hc, hc'⟩ | ⟨c, c', hc, hc', hstart⟩
  · simp [matchEvents, hs, hs', hc, hc']
  have hends : (events.finish.filter fun e => c.time ≤ e.time).Perm
      (events'.finish.filter fun e => c'.time ≤ e.time) := by
    rw [hstart]
    exact hfinish.filter _
  rcases earliest_perm hends with ⟨hf, hf'⟩ | ⟨f, f', hf, hf', hend⟩
  · simp [matchEvents, hs, hs', hc, hc', hf, hf']
  · have hrecord : recordOf s c f = recordOf s c' f' := by
      simp [recordOf, hstart, hend]
    simp only [matchEvents, hs, hs', hc, hc', hf, hf', hrecord]

instance : RightCommutative Stats.add where
  right_comm stats o o' := by cases o <;> cases o' <;> rfl

variable {κ : Type} [DecidableEq κ] {window : Option ℤ} {events events' : List (TraceEvent κ)}

/-- Without a limit all instances are looked at. -/
theorem extractTasks_none (window : Option ℤ) (events : List (TraceEvent κ)) :
    extractTasks window none events
      = ((((collect window events).map Prod.fst).map
            fun key => matchEvents (eventsOf window events key)).foldl Stats.add {},
          sortRecords ((((collect window events).map Prod.fst).map
            fun key => matchEvents (eventsOf window events key)).filterMap Outcome.record?)) := by
  obtain ⟨scanned, rest, hsplit, hall, hlimit⟩ :=
    matchAll_eq none ((collect window events).map Prod.snd) {} []
  have hrest : rest = [] := by
    by_contra hne
    exact Bool.false_ne_true (hlimit hne)
  rw [hrest, List.append_nil] at hsplit
  have houtcomes : ((collect window events).map Prod.fst).map
      (fun key => matchEvents (eventsOf window events key)) = scanned.map matchEvents := by
    rw [← hsplit, List.map_map, List.map_map]
    apply List.map_congr_left
    intro entry hentry
    exact congrArg matchEvents ((collect_spec window events).2.2 entry hentry).symm
  unfold extractTasks
  rw [hall, houtcomes, List.filterMap_map, List.nil_append]
  rfl

/-- **The order of the lines does not matter.**  As long as no number of tasks is asked for, and the
submissions of an instance at the same time agree, the same lines in another order, or from other
files, give the same counters and the same records. -/
theorem extractTasks_perm (h : events.Perm events')
    (hties : ∀ e ∈ events, ∀ e' ∈ events, e.type = .submit → e'.type = .submit → e.key = e'.key →
      e.data.time = e'.data.time → e.data = e'.data) :
    (extractTasks window none events).1 = (extractTasks window none events').1 ∧
      (extractTasks window none events).2.Perm (extractTasks window none events').2 := by
  have hdata : ∀ key type, (dataOf window events key type).Perm (dataOf window events' key type) :=
    fun key type => (h.filter _).map _
  have hmatch : (fun key => matchEvents (eventsOf window events key))
      = fun key => matchEvents (eventsOf window events' key) := by
    funext key
    apply matchEvents_perm (hdata key .submit) (hdata key .schedule) (hdata key .finish)
    intro d hd d' hd' htime
    obtain ⟨e, he, rfl⟩ := List.mem_map.1 hd
    obtain ⟨e', he', rfl⟩ := List.mem_map.1 hd'
    simp only [List.mem_filter, decide_eq_true_eq] at he he'
    exact hties e he.1 e' he'.1 he.2.2.2 he'.2.2.2 (he.2.2.1.trans he'.2.2.1.symm) htime
  have hkeys : ((collect window events).map Prod.fst).Perm
      ((collect window events').map Prod.fst) := by
    obtain ⟨hnodup, hmem, -⟩ := collect_spec window events
    obtain ⟨hnodup', hmem', -⟩ := collect_spec window events'
    apply (List.perm_ext_iff_of_nodup hnodup hnodup').2
    intro key
    rw [hmem, hmem']
    simp only [h.mem_iff]
  have houtcomes := hkeys.map fun key => matchEvents (eventsOf window events key)
  rw [extractTasks_none, extractTasks_none, ← hmatch]
  constructor
  · exact houtcomes.foldl_eq _
  · exact (List.mergeSort_perm _ _).trans
      ((houtcomes.filterMap _).trans (List.mergeSort_perm _ _).symm)

theorem extractTasks_perm_sample :
    (extractTasks none none sampleEvents).2.Perm
      (extractTasks none none sampleEvents.reverse).2 := by
  refine (extractTasks_perm (List.reverse_perm _).symm ?_).2
  decide +kernel

end Order

end ExtractGoogleV3

end SchedSim
