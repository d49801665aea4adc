import Cheshire.Sw.Clint

/-!
The measurement of the core frequency: which reads of the timer end the two loops of
`clint_get_core_freq`, and when its last division is one by zero.
-/

namespace Cheshire.Sw.Clint

open Lib

/-! ### The reads that end the loops -/

/-- The first read behind the read `k` that does not ask to go on is the read `n + 1`. -/
structure EndsAt (v : ℕ → U64) (again : U64 → Prop) (k n : ℕ) : Prop where
  le : k ≤ n
  goOn : ∀ i, k < i → i ≤ n → again (v i)
  last : ¬ again (v (n + 1))

/-- The read `a + 1` is the first one past the initial value of the timer. -/
abbrev StartsAt (v : ℕ → U64) (a : ℕ) : Prop := EndsAt v (· = v 0) 0 a

/-- With the start at the read `a + 1`, the read `b + 1` is the first one behind it that is not
below the past-the-end tick. -/
abbrev FinishesAt (v : ℕ → U64) (numTicks : U64) (a b : ℕ) : Prop :=
  EndsAt v (· < v (a + 1) + numTicks) (a + 1) b

/-- What the loops capture when they end at these reads. -/
def capturedAt (v c : ℕ → U64) (a b : ℕ) : Captured where
  startMcycle := c a
  startMtime := v (a + 1)
  endMcycle := c b
  endMtime := v (b + 1)

lemma EndsAt.unique {v : ℕ → U64} {again : U64 → Prop} {k n n' : ℕ} (h : EndsAt v again k n)
    (h' : EndsAt v again k n') : n = n' := by
  have hle : ∀ {m m' : ℕ}, EndsAt v again k m → EndsAt v again k m' → m ≤ m' := by
    intro m m' hm hm'
    by_contra hlt
    exact hm'.last (hm.goOn (m' + 1) (by have := hm'.le; omega) (by omega))
  exact Nat.le_antisymm (hle h h') (hle h' h)

/-- Which read ends a loop depends on the reads up to that one. -/
lemma EndsAt.congr {v v' : ℕ → U64} {again : U64 → Prop} {k n : ℕ} (h : EndsAt v again k n)
    (hv : ∀ i ≤ n + 1, v i = v' i) : EndsAt v' again k n where
  le := h.le
  goOn i hi hin := by
    rw [← hv i (by omega)]
    exact h.goOn i hi hin
  last := by
    rw [← hv (n + 1) (Nat.le_refl _)]
    exact h.last

section Loop

variable {first : Half} {again : U64 → Prop} [DecidablePred again]

/-- One turn of a loop. -/
lemma ends_captureWhile_succ {fuel : ℕ} {s : St} {Q : U64 × U64 → St → Prop}
    {E : Stop → St → Prop} :
    Ends (captureWhile first again (fuel + 1)) s Q E ↔
      if again (reading first s.loads 0) then
        Ends (captureWhile first again fuel) { s.behindRead with mcycle := s.mcycle.tail } Q E
      else Q (s.mcycle.get 0, reading first s.loads 0)
        { s.behindRead with mcycle := s.mcycle.tail } := by
  rw [captureWhile, ends_getMcycle_bind, ends_clintGetMtime_bind]
  split <;> exact Iff.rfl

/-- **What a loop captures**, started behind the read `k` of the trace `v`, with as many reads of
the cycle counter `c` done: the times of the first read that does not ask to go on. -/
lemma ends_captureWhile {v c : ℕ → U64} (fuel : ℕ) {k : ℕ} {s : St}
    (hv : ∀ i, reading first s.loads i = v (k + 1 + i)) (hc : ∀ i, s.mcycle.get i = c (k + i)) :
    Ends (captureWhile first again fuel) s
      (fun r s' => ∃ n, EndsAt v again k n ∧ r = (c n, v (n + 1)) ∧
        (∀ i, reading first s'.loads i = v (n + 2 + i)) ∧ ∀ i, s'.mcycle.get i = c (n + 1 + i))
      (fun e _ => e = .outOfFuel ∧ ∀ i, k < i → i ≤ k + fuel → again (v i)) := by
  induction fuel generalizing k s with
  | zero => exact ⟨rfl, fun i hi hi' => absurd hi' (by omega)⟩
  | succ fuel ih =>
    have hread : reading first s.loads 0 = v (k + 1) := hv 0
    have hv' : ∀ i, reading first s.behindRead.loads i = v (k + 1 + 1 + i) := by
      intro i
      rw [St.behindRead, show 2 = 2 * 1 from rfl, reading_drop, hv]
      congr 1
      omega
    have hc' : ∀ i, s.mcycle.tail.get i = c (k + 1 + i) := by
      intro i
      rw [Stream'.get_tail, hc]
      congr 1
      omega
    rw [ends_captureWhile_succ, hread]
    split
    · rename_i hgo
      refine (ih (s := { s.behindRead with mcycle := s.mcycle.tail }) hv' hc').mono ?_ ?_
      · rintro r s' ⟨n, hn, hr⟩
        refine ⟨n, ⟨by have := hn.le; omega, fun i hi hin => ?_, hn.last⟩, hr⟩
        obtain rfl | hi' : i = k + 1 ∨ k + 1 < i := by omega
        · exact hgo
        · exact hn.goOn i hi' hin
      · rintro e s' ⟨he, hall⟩
        refine ⟨he, fun i hi hin => ?_⟩
        obtain rfl | hi' : i = k + 1 ∨ k + 1 < i := by omega
        · exact hgo
        · exact hall i hi' (by omega)
    · rename_i hstop
      exact ⟨k, ⟨le_rfl, fun i hi hin => absurd hi (by omega), hstop⟩, by rw [hc 0]; rfl, hv', hc'⟩

end Loop

section Run

variable (first : Half) (s : St) {refFreq refTimeInv : U64}

/-- **The times of a run** of `clint_get_core_freq`; without them one of its loops is still in
progress after as many turns as it is given. -/
lemma ends_captureTimes (fuel : ℕ) (hinv : refTimeInv ≠ 0) :
    Ends (captureTimes first fuel refFreq refTimeInv) s
      (fun t _ => ∃ a b, StartsAt (reading first s.loads) a ∧
        FinishesAt (reading first s.loads) (refFreq / refTimeInv) a b ∧
        t = capturedAt (reading first s.loads) s.mcycle.get a b)
      (fun e _ => e = .outOfFuel ∧
        ((∀ i ≤ fuel, reading first s.loads i = reading first s.loads 0) ∨
          ∃ a, StartsAt (reading first s.loads) a ∧ ∀ i, a + 1 < i → i ≤ a + 1 + fuel →
            reading first s.loads i < reading first s.loads (a + 1) + refFreq / refTimeInv)) := by
  have hv : ∀ i, reading first s.behindRead.loads i = reading first s.loads (0 + 1 + i) := by
    intro i
    rw [St.behindRead, show 2 = 2 * 1 from rfl, reading_drop]
    congr 1
    omega
  have hc : ∀ i, s.behindRead.mcycle.get i = s.mcycle.get (0 + i) := by simp [St.behindRead]
  rw [captureTimes, cDiv, if_neg hinv, pure_bind, ends_clintGetMtime_bind]
  refine ends_bind.mpr ((ends_captureWhile fuel hv hc).mono ?_ ?_)
  · rintro ⟨startMcycle, startMtime⟩ s₁ ⟨a, ha, hr, hv₁, hc₁⟩
    obtain ⟨rfl, rfl⟩ := Prod.mk.inj hr
    refine ends_bind.mpr ((ends_captureWhile (k := a + 1) fuel hv₁ hc₁).mono ?_ ?_)
    · rintro ⟨endMcycle, endMtime⟩ s₂ ⟨b, hb, hr, -⟩
      obtain ⟨rfl, rfl⟩ := Prod.mk.inj hr
      exact ⟨a, b, ha, hb, rfl⟩
    · rintro e s₂ ⟨he, hall⟩
      exact ⟨he, .inr ⟨a, ha, hall⟩⟩
  · rintro e s₁ ⟨he, hall⟩
    refine ⟨he, .inl fun i hi => ?_⟩
    obtain rfl | hi' := Nat.eq_zero_or_pos i
    · rfl
    · exact hall i hi' (by omega)

/-- With the reads that end its loops the run gets as far as capturing their times. -/
lemma returns_captureTimes (hinv : refTimeInv ≠ 0) {a b : ℕ}
    (ha : StartsAt (reading first s.loads) a)
    (hb : FinishesAt (reading first s.loads) (refFreq / refTimeInv) a b) {fuel : ℕ}
    (hfuel : b < fuel) :
    Returns (captureTimes first fuel refFreq refTimeInv) s fun t _ =>
      t = capturedAt (reading first s.loads) s.mcycle.get a b := by
  have hab := hb.le
  refine returns_iff_ends.mpr ((ends_captureTimes first s fuel hinv).mono ?_ ?_)
  · rintro t _ ⟨a', b', ha', hb', rfl⟩
    obtain rfl := ha.unique ha'
    obtain rfl := hb.unique hb'
    rfl
  · rintro e _ ⟨-, hstart | ⟨a', ha', hfinish⟩⟩
    · exact ha.last (hstart (a + 1) (by omega))
    · obtain rfl := ha.unique ha'
      exact hb.last (hfinish (b + 1) (by omega) (by omega))

/-- The result of a run from its times. -/
lemma ends_clintGetCoreFreq {fuel : ℕ} {Q : U64 → St → Prop} {E : Stop → St → Prop} :
    Ends (clintGetCoreFreq first fuel refFreq refTimeInv) s Q E ↔
      Ends (captureTimes first fuel refFreq refTimeInv) s
        (fun t s' => if t.endMtime - t.startMtime = 0 then E .divByZero s'
          else Q ((t.endMcycle - t.startMcycle) * refFreq / (t.endMtime - t.startMtime)) s') E := by
  have hdiv : ∀ (x y : U64) (s' : St), Ends (cDiv x y) s' Q E ↔
      if y = 0 then E .divByZero s' else Q (x / y) s' := by
    intro x y s'
    rw [cDiv]
    split <;> exact Iff.rfl
  rw [clintGetCoreFreq, ends_bind]
  simp only [hdiv]

end Run

/-! ### Division by zero -/

/-- No run of the measurement stops at a division by zero. -/
def NeverDividesByZero (first : Half) (s : St) (refFreq refTimeInv : U64) : Prop :=
  ∀ fuel, Ends (clintGetCoreFreq first fuel refFreq refTimeInv) s (fun _ _ => True)
    fun e _ => e ≠ .divByZero

section DivByZero

variable {first : Half} {s : St}

/-- The divisor is zero when the reads that end the two loops return the same. -/
lemma neverDividesByZero_iff_ne {refFreq refTimeInv : U64} (hinv : refTimeInv ≠ 0) :
    NeverDividesByZero first s refFreq refTimeInv ↔
      ∀ a b, StartsAt (reading first s.loads) a →
        FinishesAt (reading first s.loads) (refFreq / refTimeInv) a b →
        reading first s.loads (b + 1) ≠ reading first s.loads (a + 1) := by
  have hsub : ∀ x y : U64, x - y = 0 ↔ x = y := by
    intro x y
    bv_omega
  simp only [NeverDividesByZero, ends_clintGetCoreFreq]
  constructor
  · intro h a b ha hb heq
    obtain ⟨t, s', hrun, rfl⟩ :=
      returns_iff.mp (returns_captureTimes first s hinv ha hb (Nat.lt_succ_self b))
    have hend := h (b + 1)
    unfold Ends at hend
    rw [hrun] at hend
    simp only [capturedAt, hsub, if_pos heq] at hend
    exact hend rfl
  · refine fun h fuel => (ends_captureTimes first s fuel hinv).mono ?_ ?_
    · rintro t s' ⟨a, b, ha, hb, rfl⟩
      simp only [capturedAt, hsub, if_neg (h a b ha hb)]
    · rintro e s' ⟨rfl, -⟩
      decide

/-- As long as there is a tick to wait for and the timer does not overflow meanwhile, the read that
ends the second loop is a later one. -/
lemma FinishesAt.ne {v : ℕ → U64} {numTicks : U64} {a b : ℕ} (hb : FinishesAt v numTicks a b)
    (hticks : 1 ≤ numTicks.toNat) (hover : (v (a + 1)).toNat + numTicks.toNat < 2 ^ 64) :
    v (b + 1) ≠ v (a + 1) := by
  have hlast := hb.last
  intro heq
  rw [heq, BitVec.lt_def, BitVec.toNat_add, Nat.mod_eq_of_lt hover] at hlast
  omega

/-- Otherwise, on a timer that does not go back, it is the very next one. -/
lemma finishesAt_next {v : ℕ → U64} {numTicks : U64} {a : ℕ} (hmono : v (a + 1) ≤ v (a + 2))
    (h : ¬ (1 ≤ numTicks.toNat ∧ (v (a + 1)).toNat + numTicks.toNat < 2 ^ 64)) :
    FinishesAt v numTicks a (a + 1) where
  le := le_rfl
  goOn i hi hin := absurd hi (by omega)
  last := by
    intro (hlt : v (a + 2) < v (a + 1) + numTicks)
    have hnum := numTicks.isLt
    rw [BitVec.le_def] at hmono
    rw [BitVec.lt_def, BitVec.toNat_add] at hlt
    omega

end DivByZero

/-- There is a whole tick in a 2500th of a second, and the timer does not overflow within it. -/
def WholeTick (rtcFreq : U32) (startMtime : U64) : Prop :=
  2500 ≤ rtcFreq.toNat ∧ startMtime.toNat + rtcFreq.toNat / 2500 < 2 ^ 64

lemma wholeTick_iff (rtcFreq : U32) (startMtime : U64) :
    WholeTick rtcFreq startMtime ↔ 1 ≤ (rtcFreq.setWidth 64 / 2500 : U64).toNat ∧
      startMtime.toNat + (rtcFreq.setWidth 64 / 2500 : U64).toNat < 2 ^ 64 := by
  have hnum : (rtcFreq.setWidth 64 / 2500 : U64).toNat = rtcFreq.toNat / 2500 := by
    have := rtcFreq.isLt
    rw [BitVec.toNat_udiv, BitVec.toNat_setWidth, Nat.mod_eq_of_lt (by omega)]
    rfl
  rw [WholeTick, hnum]
  omega

/-- **The measurement does not divide by zero** exactly when there is a whole tick to wait for, or
the read that ends the second loop differs from the one that ended the first; if no read is below
an earlier one, that is the read right behind it. -/
theorem neverDividesByZero_iff (first : Half) (s : St) (rtcFreq : U32) :
    (NeverDividesByZero first s (rtcFreq.setWidth 64) 2500 ↔
      ∀ a b, StartsAt (reading first s.loads) a →
        FinishesAt (reading first s.loads) (rtcFreq.setWidth 64 / 2500) a b →
        WholeTick rtcFreq (reading first s.loads (a + 1)) ∨
          reading first s.loads (b + 1) ≠ reading first s.loads (a + 1)) ∧
    ((∀ k, reading first s.loads k ≤ reading first s.loads (k + 1)) →
      (NeverDividesByZero first s (rtcFreq.setWidth 64) 2500 ↔
        ∀ a, StartsAt (reading first s.loads) a →
          WholeTick rtcFreq (reading first s.loads (a + 1)) ∨
            reading first s.loads (a + 2) ≠ reading first s.loads (a + 1))) := by
  rw [neverDividesByZero_iff_ne (by decide)]
  refine ⟨?_, fun hmono => ⟨fun h a ha => ?_, fun h a b ha hb => ?_⟩⟩
  · refine forall₄_congr fun a b ha hb => ⟨.inr, ?_⟩
    rintro (hwhole | hne)
    · rw [wholeTick_iff] at hwhole
      exact hb.ne hwhole.1 hwhole.2
    · exact hne
  · rw [or_iff_not_imp_left, wholeTick_iff]
    intro hwhole
    exact h a (a + 1) ha (finishesAt_next (hmono (a + 1)) hwhole)
  · by_cases hwhole : WholeTick rtcFreq (reading first s.loads (a + 1))
    · rw [wholeTick_iff] at hwhole
      exact hb.ne hwhole.1 hwhole.2
    · have hne := (h a ha).resolve_left hwhole
      rw [wholeTick_iff] at hwhole
      obtain rfl : b = a + 1 := hb.unique (finishesAt_next (hmono (a + 1)) hwhole)
      exact hne

/-- A timer that ticks once, between the first read and the second. -/
def St.tickedOnce : St := { St.clear with loads := fun k => if k < 2 then 0 else 1 }

/-- On a clock of 32768 Hz the measurement waits for 13 ticks more. -/
theorem neverDividesByZero_32768 :
    NeverDividesByZero .high St.tickedOnce ((32768 : U32).setWidth 64) 2500 := by
  refine ((neverDividesByZero_iff .high St.tickedOnce 32768).2 fun k => ?_).mpr fun a ha => .inl ?_
  · match k with
    | 0 => decide
    | k + 1 => exact BitVec.le_refl _
  · have hone : reading .high St.tickedOnce.loads (a + 1) = 1 := by
      unfold reading St.tickedOnce
      simp only [Stream'.get]
      rw [if_neg (by omega), if_neg (by omega)]
      rfl
    rw [hone]
    exact ⟨by decide, by decide⟩

/-- On a clock of 1000 Hz it waits for none, and divides by the ticks in between. -/
theorem not_neverDividesByZero_1000 :
    ¬ NeverDividesByZero .high St.tickedOnce ((1000 : U32).setWidth 64) 2500 := by
  intro h
  have hend : Stop.divByZero ≠ .divByZero := h 1
  exact hend rfl

end Cheshire.Sw.Clint
