import Cheshire.Lib.Tick
import Cheshire.Sw.ClintFreq

/-!
How far the frequency that `clint_get_core_freq` computes is off, on a timer that ticks at a fixed
rate and is read at a fixed rate or faster.
-/

namespace Cheshire.Sw.Clint

open Lib

/-- The `k`-th read of the timer sees it at the cycle `r k`, reads are `D` cycles apart or less,
and a read of the cycle counter lies between two reads of the timer.  The timer ticks once every
`C` cycles. -/
structure Sampled (first : Half) (s : St) (C D φ : ℕ) (r c : ℕ → ℕ) : Prop where
  pos : 0 < C
  le : D ≤ C
  mtime : ∀ k, reading first s.loads k = BitVec.ofNat 64 (tick C φ (r k))
  mcycle : ∀ k, s.mcycle.get k = BitVec.ofNat 64 (c k)
  mono : ∀ k, r k ≤ r (k + 1)
  apart : ∀ k, r (k + 1) ≤ r k + D
  between : ∀ k, r k ≤ c k ∧ c k ≤ r (k + 1)

section Sampled

variable {first : Half} {s : St} {C D φ : ℕ} {r c : ℕ → ℕ}

lemma Sampled.tick_le_succ (h : Sampled first s C D φ r c) (k : ℕ) :
    tick C φ (r (k + 1)) ≤ tick C φ (r k) + 1 := Lib.tick_le_succ h.pos h.le (h.apart k)

lemma Sampled.tick_mono (h : Sampled first s C D φ r c) {i j : ℕ} (hij : i ≤ j) :
    tick C φ (r i) ≤ tick C φ (r j) :=
  Lib.tick_mono C φ (monotone_nat_of_le_succ h.mono hij)

/-- As long as the timer has not overflowed, a read tells the ticks since the first one. -/
lemma Sampled.toNat_reading (h : Sampled first s C D φ r c) {k n : ℕ}
    (hk : tick C φ (r k) = tick C φ (r 0) + n)
    (hover : (reading first s.loads 0).toNat + n < 2 ^ 64) :
    (reading first s.loads k).toNat = (reading first s.loads 0).toNat + n := by
  rw [h.mtime 0, BitVec.toNat_ofNat] at hover ⊢
  rw [h.mtime k, BitVec.toNat_ofNat, hk]
  omega

/-- Reads that are all the same are all in the first tick. -/
lemma Sampled.tick_eq_first (h : Sampled first s C D φ r c)
    (hover : (reading first s.loads 0).toNat + 1 < 2 ^ 64) {a : ℕ}
    (hsame : ∀ i ≤ a, reading first s.loads i = reading first s.loads 0) :
    tick C φ (r a) = tick C φ (r 0) := by
  induction a with
  | zero => rfl
  | succ a ih =>
    have ha := ih fun i hi => hsame i (by omega)
    have hle := h.tick_le_succ a
    have hge := h.tick_mono (Nat.le_add_right a 1)
    by_contra hne
    have hread := h.toNat_reading (k := a + 1) (n := 1) (by omega) hover
    rw [hsame (a + 1) le_rfl] at hread
    omega

/-- **The start** of the measurement is on the two sides of the first edge. -/
lemma Sampled.starts (h : Sampled first s C D φ r c)
    (hover : (reading first s.loads 0).toNat + 1 < 2 ^ 64) {a : ℕ}
    (ha : StartsAt (reading first s.loads) a) :
    tick C φ (r a) = tick C φ (r 0) ∧ tick C φ (r (a + 1)) = tick C φ (r 0) + 1 := by
  have hfirst : tick C φ (r a) = tick C φ (r 0) := by
    refine h.tick_eq_first hover fun i hi => ?_
    obtain rfl | hi' := Nat.eq_zero_or_pos i
    · rfl
    · exact ha.goOn i hi' hi
  have hle := h.tick_le_succ a
  have hge := h.tick_mono (Nat.le_add_right a 1)
  refine ⟨hfirst, ?_⟩
  by_contra hne
  apply ha.last
  rw [h.mtime, h.mtime 0]
  congr 1
  omega

/-- Reads below the past-the-end tick are all in front of it. -/
lemma Sampled.tick_lt_end (h : Sampled first s C D φ r c) {a N : ℕ} {pastEnd : U64} (hN : 1 ≤ N)
    (hover : (reading first s.loads 0).toNat + 1 + N < 2 ^ 64)
    (hend : pastEnd.toNat = (reading first s.loads 0).toNat + 1 + N)
    (hstart : tick C φ (r (a + 1)) = tick C φ (r 0) + 1) {b : ℕ} (hab : a + 1 ≤ b)
    (hbelow : ∀ i, a + 1 < i → i ≤ b → reading first s.loads i < pastEnd) :
    tick C φ (r b) < tick C φ (r 0) + 1 + N := by
  induction b, hab using Nat.le_induction with
  | base => omega
  | succ b hab ih =>
    have hb := ih fun i hi hib => hbelow i hi (by omega)
    have hle := h.tick_le_succ b
    by_contra hge
    have hread := h.toNat_reading (k := b + 1) (n := 1 + N) (by omega) (by omega)
    have hlt := hbelow (b + 1) (by omega) le_rfl
    rw [BitVec.lt_def] at hlt
    omega

/-- **The end** of the measurement is on the two sides of the edge `N` ticks later. -/
lemma Sampled.finishes (h : Sampled first s C D φ r c) {a b N : ℕ} {numTicks : U64} (hN : 1 ≤ N)
    (hnum : numTicks.toNat = N) (hover : (reading first s.loads 0).toNat + 1 + N < 2 ^ 64)
    (ha : StartsAt (reading first s.loads) a)
    (hb : FinishesAt (reading first s.loads) numTicks a b) :
    tick C φ (r b) < tick C φ (r 0) + 1 + N ∧
      tick C φ (r (b + 1)) = tick C φ (r 0) + 1 + N := by
  have hstart := (h.starts (by omega) ha).2
  have hread := h.toNat_reading hstart (by omega)
  have hend : (reading first s.loads (a + 1) + numTicks).toNat =
      (reading first s.loads 0).toNat + 1 + N := by
    rw [BitVec.toNat_add, hread, hnum, Nat.mod_eq_of_lt hover]
  have hbefore := h.tick_lt_end hN hover hend hstart hb.le hb.goOn
  have hle := h.tick_le_succ b
  have hge := h.tick_mono (Nat.zero_le (b + 1))
  refine ⟨hbefore, ?_⟩
  by_contra hne
  apply hb.last
  obtain ⟨n, hn⟩ := Nat.exists_eq_add_of_le hge
  rw [BitVec.lt_def, hend, h.toNat_reading hn (by omega)]
  omega

/-- The ticks between the reads that end the loops. -/
lemma Sampled.toNat_ticks (h : Sampled first s C D φ r c) {a b N : ℕ} {numTicks : U64} (hN : 1 ≤ N)
    (hnum : numTicks.toNat = N) (hover : (reading first s.loads 0).toNat + 1 + N < 2 ^ 64)
    (ha : StartsAt (reading first s.loads) a)
    (hb : FinishesAt (reading first s.loads) numTicks a b) :
    (reading first s.loads (b + 1) - reading first s.loads (a + 1)).toNat = N := by
  have hstart := h.toNat_reading (h.starts (by omega) ha).2 (by omega)
  have hfinish := h.toNat_reading (n := 1 + N)
    (by rw [(h.finishes hN hnum hover ha hb).2, Nat.add_assoc]) (by omega)
  rw [BitVec.toNat_sub_of_le (by rw [BitVec.le_def]; omega), hstart, hfinish]
  omega

/-- The cycles between the reads of the cycle counter in front of them. -/
lemma Sampled.cycles_near (h : Sampled first s C D φ r c) {a b N : ℕ} {numTicks : U64}
    (hN : 1 ≤ N) (hnum : numTicks.toNat = N)
    (hover : (reading first s.loads 0).toNat + 1 + N < 2 ^ 64)
    (ha : StartsAt (reading first s.loads) a)
    (hb : FinishesAt (reading first s.loads) numTicks a b) :
    c a ≤ c b ∧ c b - c a ≤ N * C + 2 * D ∧ N * C ≤ c b - c a + 2 * D := by
  obtain ⟨hbefore, hstart⟩ := h.starts (by omega) ha
  obtain ⟨hbelow, hend⟩ := h.finishes hN hnum hover ha hb
  have hlater : c a ≤ c b :=
    calc c a ≤ r (a + 1) := (h.between a).2
      _ ≤ r b := monotone_nat_of_le_succ h.mono hb.le
      _ ≤ c b := (h.between b).1
  have hca := count_near_edge h.pos (by omega : tick C φ (r a) < tick C φ (r 0) + 1) hstart.ge
    (h.apart a) (h.between a)
  have hcb := count_near_edge h.pos hbelow hend.ge (h.apart b) (h.between b)
  exact ⟨hlater, count_near_period hca hcb hlater⟩

/-- The difference of two reads of the cycle counter. -/
lemma Sampled.toNat_cycles (h : Sampled first s C D φ r c) {a b : ℕ} (hab : c a ≤ c b)
    (hlt : c b - c a < 2 ^ 64) : (s.mcycle.get b - s.mcycle.get a).toNat = c b - c a := by
  rw [h.mcycle, h.mcycle, BitVec.toNat_sub, BitVec.toNat_ofNat, BitVec.toNat_ofNat]
  omega

end Sampled

/-- A computed frequency that is off the true one, `C` cycles a tick, by `2 * D` cycles in `N`
ticks at most. -/
def FreqNear (C D N : ℕ) (refFreq freq : U64) : Prop :=
  freq.toNat ≤ C * refFreq.toNat + (2 * D * refFreq.toNat / N + 1) ∧
    C * refFreq.toNat ≤ freq.toNat + (2 * D * refFreq.toNat / N + 1)

section Result

variable {first : Half} {s : St} {C D φ : ℕ} {r c : ℕ → ℕ} {refFreq refTimeInv : U64} {N : ℕ}

/-- The last line of `clint_get_core_freq`, on the times the loops capture. -/
lemma freqNear_quotient {cycles ticks : U64} (hN : 1 ≤ N) (hticks : ticks.toNat = N)
    (hmul : (N * C + 2 * D) * refFreq.toNat < 2 ^ 64) (hle : cycles.toNat ≤ N * C + 2 * D)
    (hge : N * C ≤ cycles.toNat + 2 * D) :
    FreqNear C D N refFreq (cycles * refFreq / ticks) := by
  have hprod : cycles.toNat * refFreq.toNat < 2 ^ 64 :=
    lt_of_le_of_lt (Nat.mul_le_mul_right _ hle) hmul
  rw [FreqNear, BitVec.toNat_udiv, BitVec.toNat_mul, Nat.mod_eq_of_lt hprod, hticks]
  exact rate_near hN hle hge

/-- Where the timer goes on, both loops come to an end. -/
lemma Sampled.returns_captureTimes (h : Sampled first s C D φ r c) (hinv : refTimeInv ≠ 0)
    (hnum : (refFreq / refTimeInv).toNat = N) (hN : 1 ≤ N)
    (hover : (reading first s.loads 0).toNat + 1 + N < 2 ^ 64) {K : ℕ}
    (hK : tick C φ (r 0) + 1 + N ≤ tick C φ (r K)) {fuel : ℕ} (hfuel : K < fuel) :
    Returns (captureTimes first fuel refFreq refTimeInv) s fun t _ =>
      ∃ a b, StartsAt (reading first s.loads) a ∧
        FinishesAt (reading first s.loads) (refFreq / refTimeInv) a b ∧
        t = capturedAt (reading first s.loads) s.mcycle.get a b := by
  refine returns_iff_ends.mpr ((ends_captureTimes first s fuel hinv).mono (fun _ _ ht => ht) ?_)
  rintro e _ ⟨-, hstart | ⟨a, ha, hfinish⟩⟩
  · have hsame := h.tick_eq_first (by omega) fun i (hi : i ≤ K) => hstart i (by omega)
    omega
  · have hread := h.toNat_reading (h.starts (by omega) ha).2 (by omega)
    have hlt := h.tick_lt_end (b := a + 1 + K) hN hover
      (by rw [BitVec.toNat_add, hread, hnum, Nat.mod_eq_of_lt hover]) (h.starts (by omega) ha).2
      (by omega) fun i hi hib => hfinish i hi (by omega)
    have hlater := h.tick_mono (by omega : K ≤ a + 1 + K)
    omega

/-- What the captured times give. -/
lemma Sampled.captured_near (h : Sampled first s C D φ r c)
    (hnum : (refFreq / refTimeInv).toNat = N) (hN : 1 ≤ N)
    (hover : (reading first s.loads 0).toNat + 1 + N < 2 ^ 64)
    (hmul : (N * C + 2 * D) * refFreq.toNat < 2 ^ 64) (hfreq : 1 ≤ refFreq.toNat) {t : Captured}
    (ht : ∃ a b, StartsAt (reading first s.loads) a ∧
      FinishesAt (reading first s.loads) (refFreq / refTimeInv) a b ∧
      t = capturedAt (reading first s.loads) s.mcycle.get a b) :
    (t.endMtime - t.startMtime).toNat = N ∧ t.endMtime - t.startMtime ≠ 0 ∧
      FreqNear C D N refFreq
        ((t.endMcycle - t.startMcycle) * refFreq / (t.endMtime - t.startMtime)) := by
  obtain ⟨a, b, ha, hb, rfl⟩ := ht
  have hticks := h.toNat_ticks hN hnum hover ha hb
  obtain ⟨hlater, hle, hge⟩ := h.cycles_near hN hnum hover ha hb
  have hbound : N * C + 2 * D ≤ (N * C + 2 * D) * refFreq.toNat := Nat.le_mul_of_pos_right _ hfreq
  have hcycles := h.toNat_cycles hlater (by omega)
  refine ⟨hticks, fun hzero => ?_, freqNear_quotient hN hticks hmul ?_ ?_⟩
  · have hzero' : reading first s.loads (b + 1) - reading first s.loads (a + 1) = 0 := hzero
    have hnone : (0 : U64).toNat = 0 := rfl
    rw [hzero', hnone] at hticks
    omega
  · exact hcycles.le.trans hle
  · exact hge.trans (Nat.add_le_add_right hcycles.ge _)

end Result

/-- **The measured frequency.**  Where the timer does not overflow in the `N` ticks behind the
first one, these are counted exactly, and the result is the frequency of the core up to `2 * D`
cycles in `N` ticks; where the reads go on forever there is such a result. -/
theorem clintGetCoreFreq_near (first : Half) (s : St) (refFreq refTimeInv : U64) (N C D φ : ℕ)
    (r c : ℕ → ℕ) (h : Sampled first s C D φ r c) (hnum : N = refFreq.toNat / refTimeInv.toNat)
    (hN : 1 ≤ N) (hmul : (N * C + 2 * D) * refFreq.toNat < 2 ^ 64)
    (hover : (reading first s.loads 0).toNat + 1 + N < 2 ^ 64) :
    (∀ fuel, Leaves (captureTimes first fuel refFreq refTimeInv) s fun t _ =>
      (t.endMtime - t.startMtime).toNat = N) ∧
    (∀ fuel, Leaves (clintGetCoreFreq first fuel refFreq refTimeInv) s fun freq _ =>
      FreqNear C D N refFreq freq) ∧
    ((∀ x, ∃ k, x ≤ r k) → ∃ bound, ∀ fuel > bound,
      Returns (clintGetCoreFreq first fuel refFreq refTimeInv) s fun freq _ =>
        FreqNear C D N refFreq freq) := by
  have hinv : refTimeInv ≠ 0 := by
    rintro rfl
    simp [hnum] at hN
  have hticks : (refFreq / refTimeInv).toNat = N := by rw [BitVec.toNat_udiv, hnum]
  have hfreq : 1 ≤ refFreq.toNat := by
    by_contra hzero
    rw [Nat.lt_one_iff.mp (Nat.not_le.mp hzero), Nat.zero_div] at hnum
    omega
  refine ⟨fun fuel => ?_, fun fuel => ?_, fun hforever => ?_⟩
  · exact (ends_captureTimes first s fuel hinv).leaves.mono fun t _ ht =>
      (h.captured_near hticks hN hover hmul hfreq ht).1
  · rw [leaves_iff_ends, ends_clintGetCoreFreq]
    refine (ends_captureTimes first s fuel hinv).mono (fun t _ ht => ?_) fun _ _ _ => trivial
    obtain ⟨-, hne, hnear⟩ := h.captured_near hticks hN hover hmul hfreq ht
    rw [if_neg hne]
    exact hnear
  · -- Some read sees the timer at or past the end.
    obtain ⟨K, hK⟩ := hforever ((tick C φ (r 0) + 1 + N) * C)
    have hend : tick C φ (r 0) + 1 + N ≤ tick C φ (r K) :=
      (Nat.le_div_iff_mul_le h.pos).mpr (hK.trans (Nat.le_add_right _ _))
    refine ⟨K, fun fuel hfuel => ?_⟩
    rw [returns_iff_ends, ends_clintGetCoreFreq, ← returns_iff_ends]
    refine (h.returns_captureTimes hinv hticks hN hover hend hfuel).mono fun t _ ht => ?_
    obtain ⟨-, hne, hnear⟩ := h.captured_near hticks hN hover hmul hfreq ht
    rw [if_neg hne]
    exact hnear

/-! ### Runs on a steady clock -/

/-- A timer that ticks every ten cycles and is read in every cycle. -/
def St.sampledEachCycle (φ : ℕ) : St :=
  { St.clear with
    loads := fun k => BitVec.ofNat 64 (tick 10 φ (k / 2))
    mcycle := fun k => BitVec.ofNat 64 k }

lemma sampled_sampledEachCycle (φ : ℕ) :
    Sampled .high (St.sampledEachCycle φ) 10 1 φ (fun k => k) fun k => k where
  pos := by decide
  le := by decide
  mtime k := by
    have hlow : (2 * k + 1) / 2 = k := by omega
    have hhigh : 2 * k / 2 = k := by omega
    simp [reading, tornRead, St.sampledEachCycle, Stream'.get, hlow, hhigh]
  mcycle _ := rfl
  mono k := Nat.le_succ k
  apart _ := le_rfl
  between k := ⟨le_rfl, Nat.le_succ k⟩

/-- Two ticks of a clock of 2 Hz. -/
theorem clintGetCoreFreq_near_two_ticks :
    ∃ bound, ∀ fuel > bound, Returns (clintGetCoreFreq .high fuel 2 1) (St.sampledEachCycle 3)
      fun freq _ => FreqNear 10 1 2 2 freq :=
  (clintGetCoreFreq_near .high (St.sampledEachCycle 3) 2 1 2 10 1 3 _ _
    (sampled_sampledEachCycle 3) (by decide) (by decide) (by decide) (by decide)).2.2
    fun x => ⟨x, le_rfl⟩

/-- In the last tick of a timer of 64 bits the past-the-end tick is a small number, which the next
read has passed: no tick is counted where there are two. -/
theorem not_clintGetCoreFreq_near_overflow :
    Sampled .high (St.sampledEachCycle (10 * (2 ^ 64 - 2) + 9)) 10 1 (10 * (2 ^ 64 - 2) + 9)
        (fun k => k) (fun k => k) ∧
      ¬ Leaves (captureTimes .high 1 2 1) (St.sampledEachCycle (10 * (2 ^ 64 - 2) + 9))
        fun t _ => (t.endMtime - t.startMtime).toNat = 2 := by
  refine ⟨sampled_sampledEachCycle _, fun h => ?_⟩
  have hticks : (0 : U64).toNat = 2 := h
  exact absurd hticks (by decide)

end Cheshire.Sw.Clint
