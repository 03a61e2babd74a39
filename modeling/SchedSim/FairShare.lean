import SchedSim.Lts
import Mathlib.Tactic.Linarith

/-!
# Sharing a server by virtual time

A server serves one client at a time.  Each client has a virtual time, which
grows with the service it receives (counted in units that make equal growth
fair), and which may also be lifted without service.  The server selects a
client whose virtual time is least, up to a slack, and serves it for at most the
slice it then grants.  Clients come and go.

Whatever the other clients do, two clients that stay active share the server in
proportion, up to their slices, the slack of the selection, and what they have
been lifted:

* `Lead` — how far one client can be ahead of another; `Lead.step` keeps it.
* `Lead.received_le` — the same in the middle of a slice.
* `service_gap_le` — what follows for the service in any interval of a run.
-/

namespace FairShare

variable {ι K : Type*}

/-- The state of the server. -/
structure Server (ι K : Type*) where
  /-- The clients that want service, among them the one being served. -/
  active : Set ι
  service : ι → K
  /-- The part of the virtual time that is not service. -/
  lift : ι → K
  /-- The slice granted to a client when it was last selected. -/
  slice : ι → K
  running : Option ι

/-- What happens to the server. -/
inductive Action (ι : Type*)
  | join (p : ι)
  | select (p : ι)
  | charge (p : ι)
  | finish (p : ι)

variable [Field K] [LinearOrder K]

/-- Service and lift together. -/
def Server.virtualTime (s : Server ι K) (p : ι) : K := s.service p + s.lift p

/-- Nothing but the service and the lift of one client may differ. -/
structure Untouched (s t : Server ι K) (p : ι) : Prop where
  service : ∀ q, q ≠ p → t.service q = s.service q
  lift : ∀ q, q ≠ p → t.lift q = s.lift q

/-- The moves of the server; `slack p q` is how much the virtual time of the
selected client `p` may exceed that of `q`. -/
inductive Step (slack : ι → ι → K) (s : Server ι K) : Action ι → Server ι K → Prop
  /-- A client that was not active becomes active, with any virtual time. -/
  | join {p : ι} {t : Server ι K} : p ∉ s.active → t.active = insert p s.active →
      Untouched s t p → t.slice = s.slice → t.running = s.running → Step slack s (.join p) t
  /-- An active client is selected and granted a slice. -/
  | select {p : ι} {t : Server ι K} : s.running = none →
      (∀ q ∈ s.active, s.virtualTime p ≤ s.virtualTime q + slack p q) →
      t.active = s.active → t.service = s.service → t.lift = s.lift →
      (∀ q, q ≠ p → t.slice q = s.slice q) → t.running = some p → Step slack s (.select p) t
  /-- The client served has used at most its slice and waits again; it may be lifted. -/
  | charge {p : ι} {t : Server ι K} : s.running = some p → t.active = s.active →
      Untouched s t p → s.service p ≤ t.service p → t.service p ≤ s.service p + s.slice p →
      s.lift p ≤ t.lift p → t.slice = s.slice → t.running = none → Step slack s (.charge p) t
  /-- The client served leaves. -/
  | finish {p : ι} {t : Server ι K} : s.running = some p → t.active = s.active \ {p} →
      Untouched s t p → t.slice = s.slice → t.running = none → Step slack s (.finish p) t

variable {slack : ι → ι → K} {base : K} {i j : ι} {s t : Server ι K} {a : Action ι}

/-! ## What a step leaves alone -/

/-- A client that does not finish stays active. -/
theorem Step.active (h : Step slack s a t) (hi : i ∈ s.active) (ha : a ≠ .finish i) :
    i ∈ t.active := by
  cases h with
  | join _ hactive => rw [hactive]; exact Set.mem_insert_of_mem _ hi
  | select _ _ hactive => rwa [hactive]
  | charge _ hactive => rwa [hactive]
  | @finish p _ _ hactive =>
    rw [hactive]
    refine ⟨hi, ?_⟩
    rintro rfl
    exact ha rfl

/-- The service of an active client never shrinks. -/
theorem Step.service_le (h : Step slack s a t) (hi : i ∈ s.active) (ha : a ≠ .finish i) :
    s.service i ≤ t.service i := by
  cases h with
  | @join p _ hp _ hun =>
    have hne : i ≠ p := by
      rintro rfl
      exact hp hi
    exact (hun.service i hne).ge
  | select _ _ _ hservice => rw [hservice]
  | @charge p _ _ _ hun hle =>
    by_cases hip : i = p
    · rw [hip]
      exact hle
    · exact (hun.service i hip).ge
  | @finish p _ _ _ hun =>
    have hne : i ≠ p := by
      rintro rfl
      exact ha rfl
    exact (hun.service i hne).ge

/-- The lift of an active client never shrinks. -/
theorem Step.lift_le (h : Step slack s a t) (hi : i ∈ s.active) (ha : a ≠ .finish i) :
    s.lift i ≤ t.lift i := by
  cases h with
  | @join p _ hp _ hun =>
    have hne : i ≠ p := by
      rintro rfl
      exact hp hi
    exact (hun.lift i hne).ge
  | select _ _ _ _ hlift => rw [hlift]
  | @charge p _ _ _ hun _ _ hle =>
    by_cases hip : i = p
    · rw [hip]
      exact hle
    · exact (hun.lift i hip).ge
  | @finish p _ _ _ hun =>
    have hne : i ≠ p := by
      rintro rfl
      exact ha rfl
    exact (hun.lift i hne).ge

/-! ## How far one client can be ahead of another -/

section Lead

variable [DecidableEq ι] [IsStrictOrderedRing K]

/-- Client `i` is ahead of client `j` by no more than what `j` was lifted over
`base`, the slack, and, unless it is being served, the last slice of `i`. -/
structure Lead (slack : ι → ι → K) (base : K) (i j : ι) (s : Server ι K) : Prop where
  base_le : base ≤ s.lift i
  gap : s.service i - s.service j ≤ s.lift j - base + slack i j
    + if s.running = some i then 0 else s.slice i

/-- **Every step keeps the lead bounded**, as long as neither client finishes:
only being selected can bring a client ahead, and then it was not ahead. -/
theorem Lead.step (h : Lead slack base i j s) (hstep : Step slack s a t)
    (hi : i ∈ s.active) (hj : j ∈ s.active) (hai : a ≠ .finish i) (haj : a ≠ .finish j) :
    Lead slack base i j t := by
  have hlift := hstep.lift_le hi hai
  refine ⟨h.base_le.trans hlift, ?_⟩
  have hgap := h.gap
  have hliftj := hstep.lift_le hj haj
  have hservj := hstep.service_le hj haj
  have hbase := h.base_le
  cases hstep with
  | @join p _ hp _ hun hslice hrun =>
    have hne : i ≠ p := by
      rintro rfl
      exact hp hi
    rw [hslice, hrun, hun.service i hne]
    linarith
  | @select p _ hnone hleast _ hservice hlift hslice hrun =>
    rw [hrun, hservice, hlift]
    by_cases hip : i = p
    · have hvirtual := hleast j hj
      subst hip
      rw [if_pos rfl]
      simp only [Server.virtualTime] at hvirtual
      linarith
    · have hpi : some p ≠ some i := fun h => hip (Option.some.inj h).symm
      rw [hnone, if_neg (by simp)] at hgap
      rw [if_neg hpi, hslice i hip]
      exact hgap
  | @charge p _ hrunning _ hun _ hcap _ hslice hrun =>
    rw [hrun, if_neg (by simp), hslice]
    by_cases hip : i = p
    · subst hip
      rw [if_pos hrunning] at hgap
      linarith
    · have hpi : s.running ≠ some i := by
        rw [hrunning]
        exact fun h => hip (Option.some.inj h).symm
      rw [if_neg hpi] at hgap
      rw [hun.service i hip]
      linarith
  | @finish p _ hrunning _ hun hslice hrun =>
    have hne : i ≠ p := by
      rintro rfl
      exact hai rfl
    have hpi : s.running ≠ some i := by
      rw [hrunning]
      exact fun h => hne (Option.some.inj h).symm
    rw [if_neg hpi] at hgap
    rw [hrun, if_neg (by simp), hslice, hun.service i hne]
    linarith

/-- The service a client has received when the client being served has used `x`
of its slice. -/
def Server.received (s : Server ι K) (x : K) (p : ι) : K :=
  s.service p + if s.running = some p then x else 0

/-- The bound also holds in the middle of a slice. -/
theorem Lead.received_le {x : K} (h : Lead slack base i j s) (hx : 0 ≤ x)
    (hcap : ∀ p, s.running = some p → x ≤ s.slice p) :
    s.received x i - s.received x j ≤ s.lift j - base + slack i j + s.slice i := by
  have hgap := h.gap
  have hj : 0 ≤ if s.running = some j then x else 0 := by
    split
    · exact hx
    · exact le_rfl
  simp only [Server.received]
  by_cases hi : s.running = some i
  · rw [if_pos hi] at hgap ⊢
    have := hcap i hi
    linarith
  · rw [if_neg hi] at hgap ⊢
    linarith

/-! ## Intervals of a run -/

/-- What a run keeps of two clients that stay active. -/
theorem Lead.run {as : List (Action ι)} (hrun : Lts.Run (Step slack) s as t)
    (hi : i ∈ s.active) (hj : j ∈ s.active) (hai : .finish i ∉ as) (haj : .finish j ∉ as)
    (h : Lead slack base i j s) :
    Lead slack base i j t ∧ i ∈ t.active ∧ j ∈ t.active ∧
      s.lift i ≤ t.lift i ∧ s.lift j ≤ t.lift j := by
  induction hrun with
  | nil => exact ⟨h, hi, hj, le_rfl, le_rfl⟩
  | snoc _ hstep ih =>
    rw [List.mem_append, not_or, List.mem_singleton] at hai haj
    obtain ⟨hlead, hi', hj', hlifti, hliftj⟩ := ih hai.1 haj.1
    have hai' := Ne.symm hai.2
    have haj' := Ne.symm haj.2
    exact ⟨hlead.step hstep hi' hj' hai' haj', hstep.active hi' hai', hstep.active hj' haj',
      hlifti.trans (hstep.lift_le hi' hai'), hliftj.trans (hstep.lift_le hj' haj')⟩

/-- **In any interval in which two clients stay active, neither gets more service
than the other** by more than one slice of each, the slack of the selection, and
what the two have been lifted over `base`. -/
theorem service_gap_le {as : List (Action ι)} (hrun : Lts.Run (Step slack) s as t)
    (hi : i ∈ s.active) (hj : j ∈ s.active) (hai : .finish i ∉ as) (haj : .finish j ∉ as)
    (hlead : Lead slack base i j s) (hlead' : Lead slack base j i s) {x y : K} (hx : 0 ≤ x)
    (hxcap : ∀ p, s.running = some p → x ≤ s.slice p) (hy : 0 ≤ y)
    (hycap : ∀ p, t.running = some p → y ≤ t.slice p) :
    t.received y i - s.received x i - (t.received y j - s.received x j)
      ≤ t.slice i + s.slice j + (slack i j + slack j i) + (t.lift i - base)
        + (t.lift j - base) := by
  obtain ⟨ht, -, -, hlift, -⟩ := hlead.run hrun hi hj hai haj
  have hend := ht.received_le hy hycap
  have hstart := hlead'.received_le hx hxcap
  linarith

end Lead

end FairShare
