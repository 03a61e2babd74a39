import SchedSim.Lehmer
import SchedSim.Lts
import Mathlib.Data.Nat.Prime.Int
import Mathlib.NumberTheory.LucasPrimality
import Mathlib.Tactic.NormNum.Prime
import Mathlib.Tactic.ReduceModChar

/-!
# The random number streams

`lib/rngs.c`: a Lehmer generator with 256 streams.  `PlantSeeds` sets the seeds of all of them,
`SelectStream` chooses the one that `Random` draws from.  What the clock shows and what is typed
at the prompt comes from outside.

* `Rngs.wellSeeded_of_reachable` — the stream in use always has a seed, and so have all of them
  once they are initialized.
* `Rngs.random_reachable` — what `Random` does in a state of a run, and that it does not overflow.
* `Rngs.random_fullPeriod` — it goes through all seeds before it returns to the first one.
* `Rngs.draws_nodup` — no number is drawn twice, however the streams are interleaved.
-/

namespace SchedSim

/-- The static variables of `rngs.c` -/
structure Rngs where
  seed : Fin 256 → ℤ
  stream : Fin 256
  initialized : Bool

namespace Rngs

/-! ## The library -/

def modulus : ℤ := 2147483647
def multiplier : ℤ := 48271
def check : ℤ := 399268537
/-- The jump multiplier -/
def a256 : ℤ := 22925
/-- The initial seed -/
def default : ℤ := 123456789

/-- `static long seed[STREAMS] = {DEFAULT}`, and no stream selected -/
def initial : Rngs where
  seed := Function.update (fun _ => 0) 0 default
  stream := 0
  initialized := false

/-- The product of a seed as `Random` and `PlantSeeds` compute it -/
def multiply (a x : ℤ) : ℤ :=
  let q := modulus.tdiv a
  let r := modulus.tmod a
  let t := a * x.tmod q - r * x.tdiv q
  if 0 < t then t else t + modulus

/-- The generator after a call of `Random` -/
def advance (g : Rngs) : Rngs :=
  { g with seed := Function.update g.seed g.stream (multiply multiplier (g.seed g.stream)) }

/-- A number between 0 and 1, and the generator after the call -/
def random (g : Rngs) : ℚ × Rngs :=
  (g.advance.seed g.stream / modulus, g.advance)

/-- What a call finds outside the program -/
structure Console where
  /-- What `time` returns, as an unsigned number -/
  time : ℕ
  /-- The numbers that are typed in, one for each time the prompt is shown -/
  answers : List ℤ

/-- The prompt is shown until a number in range is typed in; with no such number the call never
returns. -/
def prompt (answers : List ℤ) : Option ℤ := answers.find? fun x => 0 < x ∧ x < modulus

/-- The seed that `PutSeed` stores, if it returns -/
def storedSeed (x : ℤ) (c : Console) : Option ℤ :=
  let x := if 0 < x then x.tmod modulus else x
  let x := if x < 0 then (c.time : ℤ) % modulus else x
  if x = 0 then prompt c.answers else some x

def putSeed (g : Rngs) (x : ℤ) (c : Console) : Option Rngs :=
  (storedSeed x c).map fun x => { g with seed := Function.update g.seed g.stream x }

def getSeed (g : Rngs) : ℤ := g.seed g.stream

/-- The loop of `PlantSeeds`, after the rounds `j = 1, …, k` -/
def plantLoop (seed : Fin 256 → ℤ) : ℕ → Fin 256 → ℤ
  | 0 => seed
  | k + 1 =>
    let seed := plantLoop seed k
    Function.update seed (Fin.ofNat 256 (k + 1)) (multiply a256 (seed (Fin.ofNat 256 k)))

/-- `PlantSeeds`, with the seed that `PutSeed` finds for stream 0.  The selected stream is the same
afterwards. -/
def plant (g : Rngs) (x : ℤ) : Rngs :=
  { g with seed := plantLoop (Function.update g.seed 0 x) 255, initialized := true }

def plantSeeds (g : Rngs) (x : ℤ) (c : Console) : Option Rngs := (storedSeed x c).map g.plant

/-- `((unsigned int) index) % STREAMS` -/
def streamOf (index : ℤ) : Fin 256 := Fin.ofNat 256 (index % 2 ^ 32).toNat

/-- The seeds are planted if that has not been done yet and the stream is not the default one; the
call of `PlantSeeds` does not need the console. -/
def selectStream (g : Rngs) (index : ℤ) : Rngs :=
  let g := { g with stream := streamOf index }
  if g.initialized = false ∧ g.stream ≠ 0 then g.plant default else g

/-- `TestRandom`: whether the implementation is found to be correct.  None of the seeds it plants
needs the console. -/
def testRandom (g : Rngs) : Bool :=
  let g := g.selectStream 0
  let g := { g with seed := Function.update g.seed g.stream 1 }
  let g := advance^[10000] g
  let ok := g.getSeed = check
  let g := (g.selectStream 1).plant 1
  ok ∧ g.getSeed = a256

/-- The calls a program can make -/
inductive Call
  | random
  | getSeed
  | putSeed (x : ℤ) (c : Console)
  | plantSeeds (x : ℤ) (c : Console)
  | selectStream (index : ℤ)

/-- A call that returns -/
def step (g : Rngs) : Call → Rngs → Prop
  | .random, g' => g' = g.advance
  | .getSeed, g' => g' = g
  | .putSeed x c, g' => g.putSeed x c = some g'
  | .plantSeeds x c, g' => g.plantSeeds x c = some g'
  | .selectStream index, g' => g' = g.selectStream index

/-! ## The constants -/

/-- The prime factors of `modulus - 1`, which is 2 * 3 ^ 2 * 7 * 11 * 31 * 151 * 331 -/
theorem prime_dvd {q : ℕ} (hq : q.Prime) (hdvd : q ∣ 2147483647 - 1) :
    q = 2 ∨ q = 3 ∨ q = 7 ∨ q = 11 ∨ q = 31 ∨ q = 151 ∨ q = 331 := by
  have hfactors : 2147483647 - 1 = 2 * (3 * (3 * (7 * (11 * (31 * (151 * 331)))))) := by norm_num
  have hprime : ∀ {p n : ℕ}, p.Prime → q ∣ p * n → q = p ∨ q ∣ n := fun hp h =>
    (hq.dvd_mul.1 h).imp_left (Nat.prime_dvd_prime_iff_eq hq hp).1
  rw [hfactors] at hdvd
  rcases hprime (by norm_num) hdvd with h | hdvd
  · exact .inl h
  rcases hprime (by norm_num) hdvd with h | hdvd
  · exact .inr (.inl h)
  rcases hprime (by norm_num) hdvd with h | hdvd
  · exact .inr (.inl h)
  rcases hprime (by norm_num) hdvd with h | hdvd
  · exact .inr (.inr (.inl h))
  rcases hprime (by norm_num) hdvd with h | hdvd
  · exact .inr (.inr (.inr (.inl h)))
  rcases hprime (by norm_num) hdvd with h | hdvd
  · exact .inr (.inr (.inr (.inr (.inl h))))
  rcases hprime (by norm_num) hdvd with h | hdvd
  · exact .inr (.inr (.inr (.inr (.inr (.inl h)))))
  · exact .inr (.inr (.inr (.inr (.inr (.inr
      ((Nat.prime_dvd_prime_iff_eq hq (by norm_num)).1 hdvd))))))

theorem multiplier_pow : (48271 : ZMod 2147483647) ^ (2147483647 - 1) = 1 := by reduce_mod_char

/-- The multiplier is a primitive root. -/
theorem multiplier_pow_ne_one {q : ℕ} (hq : q.Prime) (hdvd : q ∣ 2147483647 - 1) :
    (48271 : ZMod 2147483647) ^ ((2147483647 - 1) / q) ≠ 1 := by
  rcases prime_dvd hq hdvd with rfl | rfl | rfl | rfl | rfl | rfl | rfl
  all_goals
    norm_num only
    reduce_mod_char
    decide

theorem prime_modulus : Nat.Prime 2147483647 :=
  lucas_primality _ _ multiplier_pow fun _ => multiplier_pow_ne_one

theorem orderOf_multiplier : orderOf ((48271 : ℕ) : ZMod 2147483647) = 2147483647 - 1 :=
  orderOf_eq_of_pow_and_pow_div_prime (by norm_num) multiplier_pow fun _ => multiplier_pow_ne_one

/-- The generator of `rngs.c` -/
def generator : Lehmer.Generator where
  modulus := 2147483647
  multiplier := 48271
  prime := prime_modulus
  orderOf_multiplier := orderOf_multiplier

theorem cast_modulus : (generator.modulus : ℤ) = modulus := rfl

theorem cast_multiplier : (generator.multiplier : ℤ) = multiplier := rfl

/-- A power of the multiplier, from what it is among the residues -/
theorem multiplier_pow_mod {k r : ℕ}
    (h : (48271 : ZMod 2147483647) ^ k = (r : ZMod 2147483647)) :
    generator.multiplier ^ k % generator.modulus = r % generator.modulus := by
  have hcast : ((generator.multiplier ^ k : ℕ) : ZMod generator.modulus) = (r : ℕ) := by
    rw [Nat.cast_pow]
    exact h
  exact (ZMod.natCast_eq_natCast_iff' _ _ _).1 hcast

/-- The jump multiplier is as good as 8,367,782 steps. -/
theorem multiplier_pow_jump : generator.multiplier ^ 8367782 % generator.modulus = 22925 := by
  have h : (48271 : ZMod 2147483647) ^ 8367782 = 22925 := by reduce_mod_char
  exact multiplier_pow_mod (r := 22925) h

theorem multiplier_pow_check :
    generator.multiplier ^ 10000 % generator.modulus = 399268537 := by
  have h : (48271 : ZMod 2147483647) ^ 10000 = 399268537 := by reduce_mod_char
  exact multiplier_pow_mod (r := 399268537) h

/-! ## The seeds of a stream -/

/-- A seed that the generator can go on from -/
def InRange (x : ℤ) : Prop := 0 < x ∧ x < modulus

instance (x : ℤ) : Decidable (InRange x) := inferInstanceAs (Decidable (_ ∧ _))

theorem inRange_natCast {s : ℕ} : InRange s ↔ generator.InRange s := by
  rw [InRange, Lehmer.Generator.InRange, ← cast_modulus]
  omega

theorem InRange.toNat {x : ℤ} (h : InRange x) : generator.InRange x.toNat := by
  rw [← inRange_natCast, Int.toNat_of_nonneg h.1.le]
  exact h

theorem InRange.not_dvd {x : ℤ} (h : InRange x) {a : ℤ} (ha : InRange a) : ¬modulus ∣ a * x := by
  have hprime : Prime modulus := Nat.prime_iff_prime_int.1 prime_modulus
  intro hdvd
  rcases hprime.dvd_or_dvd hdvd with hdvd | hdvd
  · exact absurd (Int.le_of_dvd ha.1 hdvd) (not_le.2 ha.2)
  · exact absurd (Int.le_of_dvd h.1 hdvd) (not_le.2 h.2)

/-- A multiplier for which no product leaves the range of the modulus -/
structure Multiplier (a : ℤ) : Prop where
  inRange : InRange a
  remainder_le : modulus % a ≤ modulus / a

theorem Multiplier.multiplier : Multiplier multiplier := ⟨by decide, by decide⟩

theorem Multiplier.a256 : Multiplier a256 := ⟨by decide, by decide⟩

theorem modulus_nonneg : 0 ≤ modulus := by decide

theorem multiply_eq_schrage {a x : ℤ} (hx : InRange x) (ha : Multiplier a) :
    multiply a x = if 0 < Lehmer.schrageDifference modulus a x
      then Lehmer.schrageDifference modulus a x
      else Lehmer.schrageDifference modulus a x + modulus := by
  have hq : 0 ≤ modulus / a := Int.ediv_nonneg modulus_nonneg ha.inRange.1.le
  rw [multiply, Int.tmod_eq_emod_of_nonneg hx.1.le, Int.tmod_eq_emod_of_nonneg modulus_nonneg,
    Int.tdiv_eq_ediv_of_nonneg hx.1.le, Int.tdiv_eq_ediv_of_nonneg modulus_nonneg]
  rfl

/-- The product is a product modulo the modulus. -/
theorem multiply_eq {a x : ℤ} (hx : InRange x) (ha : Multiplier a) :
    multiply a x = a * x % modulus := by
  rw [multiply_eq_schrage hx ha]
  exact Lehmer.schrage_eq ha.inRange.1 ha.inRange.2.le ha.remainder_le hx.1.le hx.2
    (hx.not_dvd ha.inRange)

/-- A call of `Random` is a step of the generator. -/
theorem multiply_multiplier {x : ℤ} (hx : InRange x) :
    multiply multiplier x = (generator.step x.toNat : ℕ) := by
  rw [multiply_eq hx .multiplier, Lehmer.Generator.step, Int.natCast_mod, Nat.cast_mul,
    Int.toNat_of_nonneg hx.1.le, cast_modulus, cast_multiplier]

/-- The seeds of neighbouring streams are 8,367,782 steps apart. -/
theorem multiply_a256 {x : ℤ} (hx : InRange x) :
    multiply a256 x = (generator.step^[8367782] x.toNat : ℕ) := by
  rw [multiply_eq hx .a256, generator.iterate_eq_mul_mod hx.toNat.2, multiplier_pow_jump,
    Int.natCast_mod, Nat.cast_mul, Int.toNat_of_nonneg hx.1.le, cast_modulus]
  rfl

theorem InRange.multiply_multiplier {x : ℤ} (hx : InRange x) : InRange (multiply multiplier x) := by
  rw [Rngs.multiply_multiplier hx, inRange_natCast]
  exact hx.toNat.step

theorem InRange.multiply_a256 {x : ℤ} (hx : InRange x) : InRange (multiply a256 x) := by
  rw [Rngs.multiply_a256 hx, inRange_natCast]
  exact hx.toNat.iterate _

/-- The loop of `PlantSeeds` sets the seeds one after the other. -/
theorem plantLoop_eq (seed : Fin 256 → ℤ) {k j : ℕ} (hj : j ≤ k) (hk : k < 256) :
    plantLoop seed k (Fin.ofNat 256 j) = (multiply a256)^[j] (seed 0) := by
  induction k generalizing j with
  | zero =>
    obtain rfl := Nat.le_zero.1 hj
    rfl
  | succ k ih =>
    rw [plantLoop]
    rcases Nat.lt_or_ge k j with hlt | hle
    · obtain rfl : j = k + 1 := by omega
      rw [Function.update_self, ih le_rfl (by omega), Function.iterate_succ_apply']
    · rw [Function.update_of_ne, ih hle (by omega)]
      intro heq
      have := congrArg Fin.val heq
      simp only [Fin.val_ofNat] at this
      omega

/-- After `PlantSeeds` the seeds are 8,367,782 steps apart, whatever they were before. -/
theorem plant_seed (g : Rngs) {x : ℤ} (hx : InRange x) (j : Fin 256) :
    (g.plant x).seed j = (generator.step^[j * 8367782] x.toNat : ℕ) := by
  have hiterate : ∀ k, (multiply a256)^[k] x = (generator.step^[k * 8367782] x.toNat : ℕ) := by
    intro k
    induction k with
    | zero => simp [Int.toNat_of_nonneg hx.1.le]
    | succ k ih =>
      have hrange : InRange (generator.step^[k * 8367782] x.toNat : ℕ) :=
        inRange_natCast.2 (hx.toNat.iterate _)
      rw [Function.iterate_succ_apply', ih, multiply_a256 hrange, Int.toNat_natCast,
        ← Function.iterate_add_apply, Nat.succ_mul, Nat.add_comm]
  rw [← hiterate, plant]
  have := plantLoop_eq (Function.update g.seed 0 x) (Nat.le_of_lt_succ j.isLt) (by norm_num)
  rwa [Fin.ofNat_val_eq_self, Function.update_self] at this

/-! ## What the calls do -/

theorem prompt_inRange {answers : List ℤ} {y : ℤ} (h : prompt answers = some y) : InRange y := by
  have := List.find?_some h
  exact of_decide_eq_true this

/-- What `PutSeed` looks at after its reductions -/
theorem exists_storedSeed_eq (x : ℤ) (c : Console) :
    ∃ z, 0 ≤ z ∧ z < modulus ∧ storedSeed x c = if z = 0 then prompt c.answers else some z := by
  have hmod : ∀ z : ℤ, 0 ≤ z % modulus ∧ z % modulus < modulus := fun z =>
    ⟨Int.emod_nonneg z (by decide), Int.emod_lt_of_pos z (by decide)⟩
  rcases lt_trichotomy 0 x with hpos | hzero | hneg
  · refine ⟨x % modulus, (hmod x).1, (hmod x).2, ?_⟩
    simp only [storedSeed, if_pos hpos, Int.tmod_eq_emod_of_nonneg hpos.le,
      if_neg (not_lt.2 (hmod x).1)]
  · refine ⟨0, le_rfl, by decide, ?_⟩
    simp [storedSeed, ← hzero]
  · refine ⟨c.time % modulus, (hmod _).1, (hmod _).2, ?_⟩
    simp only [storedSeed, if_neg (not_lt.2 hneg.le), if_pos hneg]

/-- Whatever `PutSeed` stores can be gone on from. -/
theorem storedSeed_inRange {x y : ℤ} {c : Console} (h : storedSeed x c = some y) : InRange y := by
  obtain ⟨z, hnonneg, hlt, hz⟩ := exists_storedSeed_eq x c
  rw [hz] at h
  split at h
  next => exact prompt_inRange h
  next hne =>
    obtain rfl := Option.some.inj h
    exact ⟨lt_of_le_of_ne hnonneg (Ne.symm hne), hlt⟩

/-- A seed in range is taken as it is. -/
theorem storedSeed_of_inRange {x : ℤ} (hx : InRange x) (c : Console) : storedSeed x c = some x := by
  have hmod : x.tmod modulus = x := Int.tmod_eq_of_lt hx.1.le hx.2
  have hpos : 0 < x := hx.1
  simp only [storedSeed, if_pos hpos, hmod, if_neg (not_lt.2 hpos.le), if_neg hpos.ne']

theorem inRange_default : InRange default := by decide

/-- A seed is prompted for exactly if it is a multiple of the modulus, or there is no seed and the
clock shows one. -/
theorem storedSeed_eq_none {x : ℤ} {c : Console} (hx : 0 < x) :
    storedSeed x c = none ↔ modulus ∣ x ∧ ∀ y ∈ c.answers, ¬InRange y := by
  have hmod := Int.emod_nonneg x (show modulus ≠ 0 by decide)
  simp only [storedSeed, if_pos hx, Int.tmod_eq_emod_of_nonneg hx.le, if_neg (not_lt.2 hmod)]
  rw [Int.dvd_iff_emod_eq_zero]
  split
  next h => simp [h, prompt, InRange]
  next h => simp [h]

@[simp] theorem stream_plant (g : Rngs) (x : ℤ) : (g.plant x).stream = g.stream := rfl

@[simp] theorem initialized_plant (g : Rngs) (x : ℤ) : (g.plant x).initialized = true := rfl

theorem InRange.plant {x : ℤ} (hx : InRange x) (g : Rngs) (j : Fin 256) :
    InRange ((g.plant x).seed j) := by
  rw [plant_seed g hx]
  exact inRange_natCast.2 (hx.toNat.iterate _)

/-- Once the streams are initialized, only the selection changes. -/
theorem selectStream_of_initialized {g : Rngs} (h : g.initialized = true) (index : ℤ) :
    g.selectStream index = { g with stream := streamOf index } := by
  simp [selectStream, h]

/-- Many calls of `Random` move the stream in use on by as many steps. -/
theorem iterate_advance {g : Rngs} (h : InRange (g.seed g.stream)) (k : ℕ) :
    advance^[k] g = { g with
      seed := Function.update g.seed g.stream
        (generator.step^[k] (g.seed g.stream).toNat : ℕ) } := by
  induction k with
  | zero => simp [Int.toNat_of_nonneg h.1.le]
  | succ k ih =>
    have hrange : InRange (generator.step^[k] (g.seed g.stream).toNat : ℕ) :=
      inRange_natCast.2 (h.toNat.iterate k)
    rw [Function.iterate_succ_apply', ih, advance]
    simp only [Function.update_self, Function.update_idem]
    rw [multiply_multiplier hrange, Int.toNat_natCast, Function.iterate_succ_apply']

theorem iterate_one (k : ℕ) :
    generator.step^[k] 1 = generator.multiplier ^ k % generator.modulus := by
  have hlt : 1 < generator.modulus := generator.prime.one_lt
  rw [generator.iterate_eq_mul_mod hlt, mul_one, Nat.mod_mod]

@[simp] theorem stream_selectStream (g : Rngs) (index : ℤ) :
    (g.selectStream index).stream = streamOf index := by
  rw [selectStream]
  split <;> rfl

/-- **The test of the library succeeds** in every state. -/
theorem testRandom_eq_true (g : Rngs) : g.testRandom = true := by
  have hone : InRange 1 := by decide
  rw [testRandom, decide_eq_true_iff]
  constructor
  · rw [getSeed, iterate_advance (by simp [hone])]
    simp only [Function.update_self]
    rw [Int.toNat_one, iterate_one, multiplier_pow_check]
    rfl
  · rw [getSeed, stream_plant, stream_selectStream _ 1, plant_seed _ hone, Int.toNat_one,
      iterate_one]
    rw [show ((streamOf 1 : Fin 256) : ℕ) * 8367782 = 8367782 from rfl, multiplier_pow_jump]
    rfl

/-! ## Every run -/

/-- The stream in use has a seed, and so have all of them once they are initialized. -/
structure WellSeeded (g : Rngs) : Prop where
  inUse : InRange (g.seed g.stream)
  all : g.initialized = true → ∀ j, InRange (g.seed j)
  first : g.initialized = false → g.stream = 0

theorem WellSeeded.initial : WellSeeded initial where
  inUse := by simp [Rngs.initial, inRange_default]
  all h := absurd h (by simp [Rngs.initial])
  first _ := rfl

theorem WellSeeded.plant (g : Rngs) {x : ℤ} (hx : InRange x) : WellSeeded (g.plant x) where
  inUse := hx.plant g _
  all _ := hx.plant g
  first h := absurd h (by simp)

/-- A new seed for the stream in use -/
theorem WellSeeded.update {g : Rngs} (h : WellSeeded g) {x : ℤ} (hx : InRange x) :
    WellSeeded { g with seed := Function.update g.seed g.stream x } where
  inUse := by simpa
  all hinit j := by
    rcases eq_or_ne j g.stream with rfl | hj
    · simpa
    · simpa [Function.update_of_ne hj] using h.all hinit j
  first := h.first

theorem WellSeeded.selectStream {g : Rngs} (h : WellSeeded g) (index : ℤ) :
    WellSeeded (g.selectStream index) := by
  rw [Rngs.selectStream]
  split
  next => exact .plant _ inRange_default
  next hno =>
    rw [not_and, not_not] at hno
    cases hinit : g.initialized with
    | true => exact ⟨h.all hinit _, fun _ => h.all hinit, fun hfalse => by simp at hfalse⟩
    | false =>
      have hzero : streamOf index = 0 := hno hinit
      refine ⟨?_, fun htrue => by simp at htrue, fun _ => hzero⟩
      show InRange (g.seed (streamOf index))
      rw [hzero, ← h.first hinit]
      exact h.inUse

theorem WellSeeded.advance {g : Rngs} (h : WellSeeded g) : WellSeeded g.advance :=
  h.update h.inUse.multiply_multiplier

theorem modulus_pos : (0 : ℚ) < modulus := by
  rw [modulus]
  norm_num

/-- What `Random` returns -/
theorem random_fst (g : Rngs) :
    g.random.1 = (multiply multiplier (g.seed g.stream) : ℚ) / modulus := by
  simp [random, Rngs.advance]

/-- A number strictly between zero and one -/
theorem WellSeeded.random_mem {g : Rngs} (h : WellSeeded g) : 0 < g.random.1 ∧ g.random.1 < 1 := by
  have hnext := h.inUse.multiply_multiplier
  rw [random_fst, div_lt_one modulus_pos]
  exact ⟨div_pos (Int.cast_pos.2 hnext.1) modulus_pos, by exact_mod_cast hnext.2⟩

/-- Every call that returns keeps the seeds in range. -/
theorem WellSeeded.step {g g' : Rngs} {call : Call} (h : WellSeeded g) (hstep : step g call g') :
    WellSeeded g' := by
  cases call with
  | random =>
    obtain rfl := hstep
    exact h.advance
  | getSeed =>
    obtain rfl := hstep
    exact h
  | putSeed x c =>
    obtain ⟨y, hy, rfl⟩ := Option.map_eq_some_iff.1 hstep
    exact h.update (storedSeed_inRange hy)
  | plantSeeds x c =>
    obtain ⟨y, hy, rfl⟩ := Option.map_eq_some_iff.1 hstep
    exact .plant g (storedSeed_inRange hy)
  | selectStream index =>
    obtain rfl := hstep
    exact h.selectStream index

theorem wellSeeded_of_reachable {g : Rngs} (h : Lts.Reachable step initial g) : WellSeeded g :=
  h.induction .initial fun _ _ _ _ hg hstep => hg.step hstep

/-! ## No overflow -/

/-- The values that `multiply` computes, one after the other -/
def intermediates (a x : ℤ) : List ℤ :=
  let q := modulus.tdiv a
  let r := modulus.tmod a
  let t := a * x.tmod q - r * x.tdiv q
  [x.tmod q, a * x.tmod q, x.tdiv q, r * x.tdiv q, t, if 0 < t then t else t + modulus]

/-- The value fits into a signed word of 32 bits, the least that a `long` has. -/
def FitsWord (y : ℤ) : Prop := -2 ^ 31 ≤ y ∧ y < 2 ^ 31

theorem fitsWord_of_inRange {y : ℤ} (h : 0 ≤ y ∧ y < modulus) : FitsWord y := by
  rw [modulus] at h
  rw [FitsWord]
  omega

theorem fitsWord_intermediates {a x : ℤ} (hx : InRange x) (ha : Multiplier a) :
    ∀ y ∈ intermediates a x, FitsWord y := by
  have hq : 0 < modulus / a := Lehmer.quotient_pos ha.inRange.1 ha.inRange.2.le
  have hq' : modulus / a ≤ modulus := Int.ediv_le_self _ modulus_nonneg
  have hmul := Lehmer.mul_remainder_mem ha.inRange.1 ha.inRange.2.le x
  have hquot := Lehmer.mul_quotient_mem ha.inRange.1 ha.inRange.2.le ha.remainder_le hx.1.le hx.2
  have hproduct : InRange (multiply a x) := by
    rw [multiply_eq hx ha]
    refine ⟨lt_of_le_of_ne (Int.emod_nonneg _ (by decide)) (Ne.symm ?_),
      Int.emod_lt_of_pos _ (by decide)⟩
    exact fun hzero => hx.not_dvd ha.inRange (Int.dvd_of_emod_eq_zero hzero)
  intro y hy
  simp only [intermediates, Int.tmod_eq_emod_of_nonneg hx.1.le,
    Int.tmod_eq_emod_of_nonneg modulus_nonneg, Int.tdiv_eq_ediv_of_nonneg hx.1.le,
    Int.tdiv_eq_ediv_of_nonneg modulus_nonneg, List.mem_cons, List.not_mem_nil, or_false] at hy
  rcases hy with rfl | rfl | rfl | rfl | rfl | rfl
  · exact fitsWord_of_inRange
      ⟨Int.emod_nonneg x hq.ne', (Int.emod_lt_of_pos x hq).trans_le hq'⟩
  · exact fitsWord_of_inRange hmul
  · exact fitsWord_of_inRange
      ⟨Int.ediv_nonneg hx.1.le hq.le, (Int.ediv_le_self _ hx.1.le).trans_lt hx.2⟩
  · exact fitsWord_of_inRange hquot
  · rw [FitsWord]
    rw [modulus] at hmul hquot ⊢
    omega
  · have hfits := fitsWord_of_inRange ⟨hproduct.1.le, hproduct.2⟩
    rwa [multiply_eq_schrage hx ha] at hfits

/-- **Seeds stay in range, and nothing overflows**, in every run of the library, whatever calls it
is made of: the stream in use always has a seed between zero and the modulus, `Random` multiplies
it modulo the modulus and returns a number strictly between zero and one, and neither `Random` nor
`PlantSeeds` computes a value that does not fit into 32 bits. -/
theorem random_reachable {g : Rngs} (h : Lts.Reachable step initial g) :
    InRange (g.seed g.stream) ∧ (g.initialized = true → ∀ j, InRange (g.seed j)) ∧
      g.random.1 = ((multiplier * g.seed g.stream % modulus : ℤ) : ℚ) / modulus ∧
      0 < g.random.1 ∧ g.random.1 < 1 ∧
      (∀ y ∈ intermediates multiplier (g.seed g.stream), FitsWord y) ∧
      ∀ x c g', g.plantSeeds x c = some g' → ∀ j, ∀ y ∈ intermediates a256 (g'.seed j),
        FitsWord y := by
  have hg := wellSeeded_of_reachable h
  obtain ⟨hpos, hlt⟩ := hg.random_mem
  refine ⟨hg.inUse, hg.all, ?_, hpos, hlt, fitsWord_intermediates hg.inUse .multiplier, ?_⟩
  · rw [random_fst, multiply_eq hg.inUse .multiplier]
  · intro x c g' hplant j
    obtain ⟨y, hy, rfl⟩ := Option.map_eq_some_iff.1 hplant
    exact fitsWord_intermediates ((storedSeed_inRange hy).plant g j) .a256

/-- Planting seeds and drawing from the second stream, whose seed is then `A256` -/
theorem random_reachable_planted :
    (((initial.plant 1).selectStream 1).random).1
        = ((multiplier * 22925 % modulus : ℤ) : ℚ) / modulus ∧
      0 < (((initial.plant 1).selectStream 1).random).1 ∧
      (((initial.plant 1).selectStream 1).random).1 < 1 := by
  have hplant : step initial (.plantSeeds 1 ⟨0, []⟩) (initial.plant 1) := by
    show (storedSeed 1 ⟨0, []⟩).map initial.plant = some (initial.plant 1)
    rw [storedSeed_of_inRange (by decide)]
    rfl
  have hreachable : Lts.Reachable step initial ((initial.plant 1).selectStream 1) :=
    ((Lts.Reachable.refl).tail hplant).tail (e := .selectStream 1) rfl
  obtain ⟨-, -, hvalue, hpos, hlt, -, -⟩ := random_reachable hreachable
  have hseed : ((initial.plant 1).selectStream 1).seed
      ((initial.plant 1).selectStream 1).stream = 22925 := by decide +kernel
  rw [hseed] at hvalue
  exact ⟨hvalue, hpos, hlt⟩

/-! ## The period -/

/-- **`Random` has full period** in every state of a run: whatever seed there may be, exactly one of
the next `modulus - 1` calls returns the number that belongs to it, and after them the library is
where it was. -/
theorem random_fullPeriod {g : Rngs} (h : Lts.Reachable step initial g) :
    (∀ y, InRange y → ∃! k, k < 2147483646 ∧ (advance^[k] g).random.1 = (y : ℚ) / modulus) ∧
      advance^[2147483646] g = g := by
  have hg := (wellSeeded_of_reachable h).inUse
  have hmodulus : (modulus : ℚ) ≠ 0 := modulus_pos.ne'
  have hvalue : ∀ k, (advance^[k] g).random.1
      = ((generator.step^[k] (generator.step (g.seed g.stream).toNat) : ℕ) : ℚ) / modulus := by
    intro k
    show ((advance (advance^[k] g)).seed (advance (advance^[k] g)).stream : ℚ) / modulus = _
    rw [← Function.iterate_succ_apply' advance, iterate_advance hg, ← Function.iterate_succ_apply]
    simp
  constructor
  · intro y hy
    obtain ⟨k, ⟨hk, heq⟩, hunique⟩ := hg.toNat.step.existsUnique_iterate hy.toNat
    have hcast : ((y.toNat : ℕ) : ℚ) = y := by
      rw [← Int.cast_natCast, Int.toNat_of_nonneg hy.1.le]
    refine ⟨k, ⟨hk, ?_⟩, ?_⟩
    · rw [hvalue, heq, hcast]
    · rintro l ⟨hl, hdraw⟩
      rw [hvalue, div_left_inj' hmodulus, ← hcast, Nat.cast_inj] at hdraw
      exact hunique l ⟨hl, hdraw⟩
  · rw [iterate_advance hg]
    have hperiod : generator.step^[2147483646] (g.seed g.stream).toNat = (g.seed g.stream).toNat :=
      hg.toNat.iterate_period
    rw [hperiod, Int.toNat_of_nonneg hg.1.le, Function.update_eq_self]

/-- The sequence of the default seed, in which the smallest number comes up once -/
theorem random_fullPeriod_initial :
    (∃! k, k < 2147483646 ∧ (advance^[k] initial).random.1 = ((1 : ℤ) : ℚ) / modulus) ∧
      advance^[2147483646] initial = initial := by
  obtain ⟨honce, hperiod⟩ := random_fullPeriod .refl
  exact ⟨honce 1 (by decide), hperiod⟩

/-! ## Interleaved streams -/

/-- The calls by which numbers are drawn -/
inductive Use
  | select (index : ℤ)
  | random

/-- The numbers drawn -/
def draws (g : Rngs) : List Use → List ℚ
  | [] => []
  | .select index :: us => draws (g.selectStream index) us
  | .random :: us => g.random.1 :: draws g.random.2 us

/-- The streams they are drawn from -/
def drawnFrom (g : Rngs) : List Use → List (Fin 256)
  | [] => []
  | .select index :: us => drawnFrom (g.selectStream index) us
  | .random :: us => g.stream :: drawnFrom g.random.2 us

/-- The numbers are the states of a bank of streams. -/
theorem draws_eq {g : Rngs} (hinit : g.initialized = true) (hg : ∀ j, InRange (g.seed j))
    (us : List Use) :
    g.draws us = (generator.draws (fun j => (g.seed j).toNat) (g.drawnFrom us)).map
      fun s : ℕ => (s : ℚ) / modulus := by
  induction us generalizing g with
  | nil => rfl
  | cons u us ih =>
    cases u with
    | select index =>
      rw [draws, drawnFrom, selectStream_of_initialized hinit]
      exact ih hinit hg
    | random =>
      have hnext := hg g.stream
      have hseeds : (fun j => (g.advance.seed j).toNat) = Function.update
          (fun j => (g.seed j).toNat) g.stream (generator.step (g.seed g.stream).toNat) := by
        funext j
        rcases eq_or_ne j g.stream with rfl | hj
        · simp [advance, multiply_multiplier hnext]
        · simp [advance, hj]
      have hadvance : ∀ j, InRange (g.advance.seed j) := by
        intro j
        rcases eq_or_ne j g.stream with rfl | hj
        · simpa [advance] using hnext.multiply_multiplier
        · simpa [advance, hj] using hg j
      have htail := ih (g := g.advance) hinit hadvance
      rw [draws, drawnFrom, Lehmer.Generator.draws, List.map_cons]
      rw [hseeds] at htail
      refine congrArg₂ List.cons ?_ htail
      rw [random_fst, multiply_multiplier hnext, Int.cast_natCast]

/-- **The streams do not overlap**: after `PlantSeeds`, no number is drawn twice, from whatever
streams and in whatever order numbers are drawn, as long as none of the streams is used more than
8,367,782 times. -/
theorem draws_nodup {g g' : Rngs} {x : ℤ} {c : Console} (h : g.plantSeeds x c = some g')
    {us : List Use} (hcount : ∀ j, (g'.drawnFrom us).count j ≤ 8367782) :
    (g'.draws us).Nodup := by
  obtain ⟨y, hy, rfl⟩ := Option.map_eq_some_iff.1 h
  have hrange := storedSeed_inRange hy
  have hmodulus : (modulus : ℚ) ≠ 0 := modulus_pos.ne'
  rw [draws_eq rfl (hrange.plant g)]
  refine List.Nodup.map ?_ ?_
  · intro s t hst
    exact Nat.cast_injective ((div_left_inj' hmodulus).1 hst)
  · have hseeds : (fun j => ((g.plant y).seed j).toNat)
        = fun j : Fin 256 => generator.step^[j * 8367782] y.toNat := by
      funext j
      rw [plant_seed g hrange, Int.toNat_natCast]
    rw [hseeds]
    exact (hrange.toNat.separated (by decide) hcount).nodup_draws

/-- Two numbers from the first stream and one from the second -/
theorem draws_nodup_three :
    ((initial.plant 1).draws [.random, .random, .select 1, .random]).Nodup := by
  have hplant : initial.plantSeeds 1 ⟨0, []⟩ = some (initial.plant 1) := by
    rw [plantSeeds, storedSeed_of_inRange (by decide)]
    rfl
  exact draws_nodup hplant fun j => List.count_le_length.trans (by decide)

end Rngs

end SchedSim
