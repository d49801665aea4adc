import Cheshire.Lib.Fuel
import Cheshire.Sw.ClintRate
import Cheshire.Sw.ClintSleep

/-!
What the boot ROM needs of the CLINT: its waits come to an end, and the measurement of the core
frequency, which with enough fuel always has the same result, leaves a timer that goes on.
-/

namespace Cheshire.Sw.Clint

open Lib

/-! ### The wait -/

/-- The reads behind some others. -/
lemma reading_iterate {first : Half} {next : St → St} (hnext : ∀ s, (next s).loads = s.loads.drop 2)
    (k i : ℕ) (s : St) :
    reading first (next^[k] s).loads i = reading first s.loads (k + i) := by
  induction k generalizing s with
  | zero => rw [Nat.zero_add, Function.iterate_zero_apply]
  | succ k ih =>
    have hdrop := reading_drop first s.loads (k + i) 1
    rw [Function.iterate_succ_apply, ih, hnext, show k + 1 + i = k + i + 1 by omega]
    exact hdrop

/-- One turn of the wait. -/
lemma run_clintSpinUntil {first : Half} {tgtMtime : U64} (fuel : ℕ) (s : St) :
    (clintSpinUntil first (fuel + 1) tgtMtime).run s =
      if reading first s.loads 0 < tgtMtime then (clintSpinUntil first fuel tgtMtime).run s.behindRead
      else .ok () s.behindRead := by
  rw [clintSpinUntil, run_bind (run_clintGetMtime first s)]
  split <;> rfl

/-- **The wait** comes to an end when some read to come is at the target, behind the first such
read. -/
theorem settles_clintSpinUntil {first : Half} {tgtMtime : U64} {s : St}
    (h : ∃ k, tgtMtime ≤ reading first s.loads k) :
    Settles (fun fuel => clintSpinUntil first fuel tgtMtime) s fun _ t => ∃ k,
      (∀ i < k, reading first s.loads i < tgtMtime) ∧ tgtMtime ≤ reading first s.loads k ∧
        ∀ i, reading first t.loads i = reading first s.loads (k + 1 + i) := by
  have hread (k i : ℕ) : reading first (St.behindRead^[k] s).loads i =
      reading first s.loads (k + i) := reading_iterate (fun _ => rfl) k i s
  obtain ⟨k, hk⟩ := h
  refine (settles_loop run_clintSpinUntil ⟨k, ?_⟩).mono ?_
  · rw [hread]
    exact BitVec.not_lt.mpr hk
  · rintro - t ⟨n, hbefore, hn, -, rfl⟩
    refine ⟨n, fun i hi => ?_, ?_, hread (n + 1)⟩
    · have hlt := hbefore i hi
      rwa [hread] at hlt
    · rw [hread] at hn
      exact BitVec.not_lt.mp hn

/-! ### A loop of the measurement -/

section Loop

variable {first : Half} {again : U64 → Prop} [DecidablePred again]

/-- One turn. -/
lemma run_captureWhile (fuel : ℕ) (s : St) :
    (captureWhile first again (fuel + 1)).run s =
      if again (reading first s.loads 0) then
        (captureWhile first again fuel).run { s.behindRead with mcycle := s.mcycle.tail }
      else .ok (s.mcycle.get 0, reading first s.loads 0)
        { s.behindRead with mcycle := s.mcycle.tail } := by
  have hmtime := run_clintGetMtime first { s with mcycle := s.mcycle.tail }
  have hmcycle : getMcycle.run s = .ok (s.mcycle.get 0) { s with mcycle := s.mcycle.tail } := rfl
  rw [captureWhile, run_bind hmcycle, run_bind hmtime]
  split <;> rfl

/-- The loop comes to an end when some read to come lets it. -/
lemma settles_captureWhile {s : St} (h : ∃ k, ¬ again (reading first s.loads k)) :
    Settles (captureWhile first again) s fun _ _ => True := by
  obtain ⟨k, hk⟩ := h
  refine (settles_loop run_captureWhile ⟨k, ?_⟩).mono fun _ _ _ => trivial
  rwa [reading_iterate (fun _ => rfl) k 0]

/-- A timer that never goes back does so behind the loop. -/
lemma steady_captureWhile (fuel : ℕ) (s : St) :
    Leaves (captureWhile first again fuel) s fun _ s' => Steady first s → Steady first s' := by
  induction fuel generalizing s with
  | zero => trivial
  | succ fuel ih =>
    have hnext : Steady first s → Steady first { s.behindRead with mcycle := s.mcycle.tail } :=
      fun h => ⟨h.behindRead.start, h.behindRead.mono, h.behindRead.between⟩
    rw [leaves_iff_ends, ends_captureWhile_succ]
    split
    · exact (ih _).mono fun _ _ h' h => h' (hnext h)
    · exact hnext

/-- What a loop leaves that comes to an end, started behind the read `k` of the trace `v`. -/
lemma settles_captureWhile_at {v c : ℕ → U64} {k n : ℕ} {s : St} (hn : EndsAt v again k n)
    (hv : ∀ i, reading first s.loads i = v (k + 1 + i)) (hc : ∀ i, s.mcycle.get i = c (k + i)) :
    Settles (captureWhile first again) s fun x s' => x = (c n, v (n + 1)) ∧
      (∀ i, reading first s'.loads i = v (n + 2 + i)) ∧ (∀ i, s'.mcycle.get i = c (n + 1 + i)) ∧
      (Steady first s → Steady first s') := by
  have hle := hn.le
  have hlast : ¬ again (reading first s.loads (n - k)) := by
    rw [hv, show k + 1 + (n - k) = n + 1 by omega]
    exact hn.last
  refine (((settles_captureWhile ⟨_, hlast⟩).and_leaves
    fun fuel => (ends_captureWhile fuel hv hc).leaves).and_leaves
    fun fuel => steady_captureWhile fuel s).mono ?_
  rintro x s' ⟨⟨-, n', hn', hx, hv', hc'⟩, hsteady⟩
  obtain rfl := hn.unique hn'
  exact ⟨hx, hv', hc', hsteady⟩

end Loop

/-! ### The measurement -/

/-- The timer behind the measurement: it is read on from the read `j`. -/
structure Behind (first : Half) (s : St) (j : ℕ) (s' : St) : Prop where
  reads : ∀ i, reading first s'.loads i = reading first s.loads (j + i)
  steady : Steady first s → Steady first s'

section Measure

variable {first : Half} {s : St} {refFreq refTimeInv : U64} {a b : ℕ}

/-- With the reads that end its loops the measurement always captures their times. -/
lemma settles_captureTimes (hinv : refTimeInv ≠ 0) (ha : StartsAt (reading first s.loads) a)
    (hb : FinishesAt (reading first s.loads) (refFreq / refTimeInv) a b) :
    Settles (fun fuel => captureTimes first fuel refFreq refTimeInv) s fun t s' =>
      t = capturedAt (reading first s.loads) s.mcycle.get a b ∧ Behind first s (b + 2) s' := by
  have hv : ∀ i, reading first s.behindRead.loads i = reading first s.loads (0 + 1 + i) := by
    intro i
    rw [St.behindRead, show 2 = 2 * 1 from rfl, reading_drop]
    congr 1
    omega
  have hc : ∀ i, s.behindRead.mcycle.get i = s.mcycle.get (0 + i) := by simp [St.behindRead]
  have hread : Settles (fun _ => clintGetMtime first) s fun x s' =>
      x = reading first s.loads 0 ∧ s' = s.behindRead :=
    ⟨0, _, _, fun _ _ => run_clintGetMtime first s, rfl, rfl⟩
  have hdiv : cDiv refFreq refTimeInv = pure (refFreq / refTimeInv) := if_neg hinv
  unfold captureTimes
  rw [hdiv]
  simp only [pure_bind]
  refine hread.bind ?_
  rintro - - ⟨rfl, rfl⟩
  refine (settles_captureWhile_at ha hv hc).bind ?_
  rintro - s₁ ⟨rfl, hv₁, hc₁, hsteady₁⟩
  refine (settles_captureWhile_at hb hv₁ hc₁).bind ?_
  rintro - s₂ ⟨rfl, hv₂, -, hsteady₂⟩
  exact Settles.of_returns ⟨rfl, hv₂, fun h => hsteady₂ (hsteady₁ h.behindRead)⟩

/-- The whole measurement, with the reads that end its loops, where these differ. -/
lemma settles_clintGetCoreFreq_at (hinv : refTimeInv ≠ 0) (ha : StartsAt (reading first s.loads) a)
    (hb : FinishesAt (reading first s.loads) (refFreq / refTimeInv) a b)
    (hne : reading first s.loads (b + 1) - reading first s.loads (a + 1) ≠ 0) :
    Settles (fun fuel => clintGetCoreFreq first fuel refFreq refTimeInv) s fun freq s' =>
      freq = (s.mcycle.get b - s.mcycle.get a) * refFreq /
          (reading first s.loads (b + 1) - reading first s.loads (a + 1)) ∧
        Behind first s (b + 2) s' := by
  unfold clintGetCoreFreq
  refine (settles_captureTimes hinv ha hb).bind ?_
  rintro _ s' ⟨rfl, hbehind⟩
  refine Settles.of_returns ?_
  rw [cDiv, if_neg (show ¬ (capturedAt _ _ a b).endMtime - (capturedAt _ _ a b).startMtime = 0
    from hne)]
  exact ⟨rfl, hbehind⟩

end Measure

/-! ### The timer that a measurement counts on -/

/-- The timer moves on, and is read again when it has made `n` ticks from there. -/
def Counts (v : ℕ → U64) (n : ℕ) : Prop :=
  ∃ j k, (∀ i < j, v i = v 0) ∧ v j ≠ v 0 ∧ j < k ∧ (v j).toNat + n ≤ (v k).toNat

/-- The reads that end the loops. -/
lemma Counts.exists_endsAt {v : ℕ → U64} {numTicks : U64} (h : Counts v numTicks.toNat) :
    ∃ a b, StartsAt v a ∧ FinishesAt v numTicks a b ∧
      (v (a + 1)).toNat + numTicks.toNat < 2 ^ 64 := by
  classical
  obtain ⟨j, k, hbefore, hj, hjk, hk⟩ := h
  obtain ⟨a, rfl⟩ : ∃ a, j = a + 1 := by
    refine ⟨j - 1, ?_⟩
    have hpos : j ≠ 0 := by
      rintro rfl
      exact hj rfl
    omega
  have hover : (v (a + 1)).toNat + numTicks.toNat < 2 ^ 64 := Nat.lt_of_le_of_lt hk (v k).isLt
  have hend : ∃ m, a + 1 < m ∧ ¬ v m < v (a + 1) + numTicks := by
    refine ⟨k, hjk, BitVec.not_lt.mpr ?_⟩
    rwa [BitVec.le_def, BitVec.toNat_add, Nat.mod_eq_of_lt hover]
  obtain ⟨hlt, hlast⟩ := Nat.find_spec hend
  have hmin := fun m => Nat.find_min hend (m := m)
  obtain ⟨b, hb⟩ : ∃ b, Nat.find hend = b + 1 := ⟨Nat.find hend - 1, by omega⟩
  rw [hb] at hlt hlast hmin
  refine ⟨a, b, ⟨Nat.zero_le a, fun i _ hi => hbefore i (by omega), hj⟩,
    ⟨Nat.le_of_lt_succ hlt, fun i hi hib => ?_, hlast⟩, hover⟩
  by_contra hno
  exact hmin i (by omega) ⟨hi, hno⟩

/-- **The measurement** comes to an end, on a timer that counts its ticks. -/
theorem settles_clintGetCoreFreq {first : Half} {s : St} {refFreq refTimeInv : U64}
    (hinv : refTimeInv ≠ 0) (hticks : 1 ≤ (refFreq / refTimeInv).toNat)
    (h : Counts (reading first s.loads) (refFreq / refTimeInv).toNat) :
    Settles (fun fuel => clintGetCoreFreq first fuel refFreq refTimeInv) s fun _ _ => True := by
  obtain ⟨a, b, ha, hb, hover⟩ := h.exists_endsAt
  have hne := hb.ne hticks hover
  exact (settles_clintGetCoreFreq_at hinv ha hb (by bv_omega)).mono fun _ _ _ => trivial

/-- The wait until `tgtMtime` comes to an end, and behind it the timer counts `n` ticks. -/
def CountsBehind (first : Half) (s : St) (tgtMtime : U64) (n : ℕ) : Prop :=
  ∃ k, (∀ i < k, reading first s.loads i < tgtMtime) ∧ tgtMtime ≤ reading first s.loads k ∧
    Counts (fun i => reading first s.loads (k + 1 + i)) n

/-- Behind the wait the timer counts. -/
lemma CountsBehind.settles {first : Half} {s : St} {tgtMtime : U64} {n : ℕ}
    (h : CountsBehind first s tgtMtime n) :
    Settles (fun fuel => clintSpinUntil first fuel tgtMtime) s fun _ t =>
      Counts (reading first t.loads) n := by
  obtain ⟨k, hbefore, hk, hcounts⟩ := h
  refine (settles_clintSpinUntil ⟨k, hk⟩).mono ?_
  rintro - t ⟨k', hbefore', hk', hread⟩
  obtain rfl : k' = k := by
    rcases Nat.lt_trichotomy k' k with hlt | heq | hlt
    · exact absurd hk' (BitVec.not_le.mpr (hbefore k' hlt))
    · exact heq
    · exact absurd hk (BitVec.not_le.mpr (hbefore' k hlt))
  rwa [show reading first t.loads = fun i => reading first s.loads (k' + 1 + i) from funext hread]

/-! ### The timer that the boot ROM counts on -/

lemma toNat_rtcFreq (rtcFreq : U32) : (rtcFreq.setWidth 64).toNat = rtcFreq.toNat :=
  BitVec.toNat_setWidth_of_le (by decide)

/-- The ticks that the boot ROM counts, of a reference clock of this frequency. -/
def counted (rtcFreq : U32) : ℕ := rtcFreq.toNat / 2500

/-- The first `K` reads are `Sampled`; nothing is said of those behind them. -/
structure SampledTo (first : Half) (s : St) (C D φ : ℕ) (r c : ℕ → ℕ) (K : ℕ) : Prop where
  pos : 0 < C
  le : D ≤ C
  mtime : ∀ k ≤ K, reading first s.loads k = BitVec.ofNat 64 (tick C φ (r k))
  mcycle : ∀ k < K, s.mcycle.get k = BitVec.ofNat 64 (c k)
  mono : ∀ k < K, r k ≤ r (k + 1)
  apart : ∀ k < K, r (k + 1) ≤ r k + D
  between : ∀ k < K, r k ≤ c k ∧ c k ≤ r (k + 1)

/-- The reads as they would be if the timer stopped behind them. -/
lemma SampledTo.exists_sampled {first : Half} {s : St} {C D φ K : ℕ} {r c : ℕ → ℕ}
    (h : SampledTo first s C D φ r c K) :
    ∃ s₀ c₀, Sampled first s₀ C D φ (fun k => r (min k K)) c₀ ∧
      (∀ k ≤ K, reading first s₀.loads k = reading first s.loads k) ∧
      ∀ k < K, s₀.mcycle.get k = s.mcycle.get k := by
  let s₀ : St :=
    { s with
      loads := fun j => .ofNat 64 (tick C φ (r (min (j / 2) K)))
      mcycle := fun k => .ofNat 64 (if k < K then c k else r K) }
  have hread (k : ℕ) : reading first s₀.loads k = .ofNat 64 (tick C φ (r (min k K))) := by
    have hlow : (2 * k + 1) / 2 = k := by omega
    have hhigh : 2 * k / 2 = k := by omega
    cases first <;> simp [reading, tornRead, s₀, Stream'.get, hlow, hhigh]
  have hin {k : ℕ} (hk : k < K) : min k K = k ∧ min (k + 1) K = k + 1 := by omega
  have hout {k : ℕ} (hk : ¬ k < K) : min k K = K ∧ min (k + 1) K = K := by omega
  refine ⟨s₀, fun k => if k < K then c k else r K, ⟨h.pos, h.le, hread, fun _ => rfl, fun k => ?_,
    fun k => ?_, fun k => ?_⟩, fun k hk => ?_, fun k hk => ?_⟩
  · by_cases hk : k < K
    · simp only [hin hk, h.mono k hk]
    · simp only [hout hk, Nat.le_refl]
  · by_cases hk : k < K
    · simp only [hin hk, h.apart k hk]
    · simp only [hout hk, Nat.le_add_right]
  · by_cases hk : k < K
    · simpa only [hin hk, if_pos hk] using h.between k hk
    · simp only [hout hk, if_neg hk, Nat.le_refl, and_self]
  · rw [hread, h.mtime k hk, Nat.min_eq_left hk]
  · rw [h.mcycle k hk]
    show BitVec.ofNat 64 (if k < K then c k else r K) = _
    rw [if_pos hk]

/-- A timer that never goes back and reaches the end of every wait of the boot ROM, and that is read
as it ticks for as long as the boot ROM measures the core frequency, without an overflow in that
time. -/
structure Timed (first : Half) (s : St) (rtcFreq : U32) (C D φ : ℕ) (r c : ℕ → ℕ) : Prop where
  steady : Steady first s
  counts : 1 ≤ counted rtcFreq
  /-- The product of `clint_get_core_freq` does not overflow. -/
  small : (counted rtcFreq * C + 2 * D) * rtcFreq.toNat < 2 ^ 64
  early : (reading first s.loads 0).toNat + 1 + counted rtcFreq < 2 ^ 64
  measured : ∃ K, SampledTo first s C D φ r c K ∧
    tick C φ (r 0) + 1 + counted rtcFreq ≤ tick C φ (r K)
  reaches : ∃ k, rtcFreq.toNat / 1000 + 1 ≤ (reading first s.loads k).toNat

section Timed

variable {first : Half} {s : St} {rtcFreq : U32} {C D φ : ℕ} {r c : ℕ → ℕ}

/-- A later read is not below an earlier one. -/
lemma Steady.reading_mono (h : Steady first s) :
    Monotone fun k => (reading first s.loads k).toNat := by
  refine monotone_nat_of_le_succ fun k => ?_
  have h₁ := (h.between k).2
  have h₂ := h.mono (2 * k + 1)
  have h₃ := (h.between (k + 1)).1
  rw [BitVec.le_def] at h₁ h₂ h₃
  exact h₁.trans (h₂.trans h₃)

/-- **The measurement of the boot ROM** has one result, near the frequency of the core, and behind
it the timer reaches the end of every wait. -/
theorem Timed.settles_clintGetCoreFreq (h : Timed first s rtcFreq C D φ r c) :
    Settles (fun fuel => clintGetCoreFreq first fuel (rtcFreq.setWidth 64) 2500) s fun freq s' =>
      FreqNear C D (counted rtcFreq) (rtcFreq.setWidth 64) freq ∧ Steady first s' ∧
        ∃ k, rtcFreq.toNat / 1000 + 1 ≤ (reading first s'.loads k).toNat := by
  have hrtc := toNat_rtcFreq rtcFreq
  have hinv : (2500 : U64) ≠ 0 := by decide
  have hnum : (rtcFreq.setWidth 64 / 2500 : U64).toNat = counted rtcFreq := by
    rw [BitVec.toNat_udiv, hrtc]
    rfl
  have hcounts := h.counts
  have hfreq : 1 ≤ (rtcFreq.setWidth 64).toNat := by
    rw [hrtc]
    unfold counted at hcounts
    omega
  have hmul : (counted rtcFreq * C + 2 * D) * (rtcFreq.setWidth 64).toNat < 2 ^ 64 := by
    rw [hrtc]
    exact h.small
  obtain ⟨K, hsampled, hK⟩ := h.measured
  obtain ⟨s₀, c₀, hs₀, hread, hcycle⟩ := hsampled.exists_sampled
  have hover : (reading first s₀.loads 0).toNat + 1 + counted rtcFreq < 2 ^ 64 := by
    rw [hread 0 (Nat.zero_le K)]
    exact h.early
  -- the reads that end the loops, in the time that is measured
  have hK₀ : tick C φ (r (min 0 K)) + 1 + counted rtcFreq ≤ tick C φ (r (min K K)) := by
    rwa [Nat.zero_min, Nat.min_self]
  obtain ⟨_, s', -, a, b, ha, hb, -⟩ := returns_iff.mp (hs₀.returns_captureTimes hinv hnum hcounts
    hover hK₀ (Nat.lt_succ_self K))
  have hbK : b < K := by
    by_contra hle
    have hbelow := (hs₀.finishes hcounts hnum hover ha hb).1
    rw [Nat.min_eq_right (Nat.not_lt.mp hle)] at hbelow
    rw [Nat.zero_min] at hbelow
    omega
  have hab := hb.le
  obtain ⟨-, hne, hnear⟩ := hs₀.captured_near hnum hcounts hover hmul hfreq ⟨a, b, ha, hb, rfl⟩
  simp only [capturedAt, hread (a + 1) (by omega), hread (b + 1) (by omega),
    hcycle a (by omega), hcycle b (by omega)] at hne hnear
  have ha' : StartsAt (reading first s.loads) a := by
    have := ha.congr fun i hi => hread i (by omega)
    rwa [hread 0 (by omega)] at this
  have hb' : FinishesAt (reading first s.loads) (rtcFreq.setWidth 64 / 2500) a b := by
    have := hb.congr fun i hi => hread i (by omega)
    rwa [hread (a + 1) (by omega)] at this
  refine (settles_clintGetCoreFreq_at hinv ha' hb' hne).mono ?_
  rintro _ s' ⟨rfl, hbehind⟩
  obtain ⟨k, hk⟩ := h.reaches
  refine ⟨hnear, hbehind.steady h.steady, k, hk.trans ?_⟩
  rw [hbehind.reads]
  exact h.steady.reading_mono (Nat.le_add_left k (b + 2))

end Timed

/-! ### A timer that stops -/

/-- A timer that ticks every 10000 cycles, is read in every cycle and stops after its seventh
tick. -/
def St.sevenTicks : St :=
  { St.clear with
    loads := fun k => .ofNat 64 (tick 10000 0 (min (k / 2) 70000))
    mcycle := fun k => .ofNat 64 (min k 70000) }

lemma reading_sevenTicks (k : ℕ) :
    reading .high St.sevenTicks.loads k = .ofNat 64 (tick 10000 0 (min k 70000)) := by
  have hlow : (2 * k + 1) / 2 = k := by omega
  have hhigh : 2 * k / 2 = k := by omega
  simp [reading, tornRead, St.sevenTicks, Stream'.get, hlow, hhigh]

lemma toNat_ofNat_sevenTicks (k : ℕ) :
    (BitVec.ofNat 64 (tick 10000 0 (min k 70000))).toNat = tick 10000 0 (min k 70000) := by
  have hle : tick 10000 0 (min k 70000) ≤ tick 10000 0 70000 :=
    tick_mono 10000 0 (Nat.min_le_right _ _)
  rw [BitVec.toNat_ofNat]
  exact Nat.mod_eq_of_lt (Nat.lt_of_le_of_lt hle (by decide))

lemma toNat_sevenTicks (k : ℕ) :
    (St.sevenTicks.loads.get k).toNat = tick 10000 0 (min (k / 2) 70000) :=
  toNat_ofNat_sevenTicks (k / 2)

lemma timed_sevenTicks : Timed .high St.sevenTicks 2500 10000 1 0 (fun k => min k 70000)
    fun k => min k 70000 where
  steady :=
    { start := BitVec.le_def.mpr (Nat.zero_le _)
      mono := fun k => by
        rw [BitVec.le_def, toNat_sevenTicks, toNat_sevenTicks]
        exact tick_mono 10000 0 (by omega)
      between := fun k => by
        have hlow : (2 * k + 1) / 2 = k := by omega
        have hhigh : 2 * k / 2 = k := by omega
        rw [BitVec.le_def, BitVec.le_def, toNat_sevenTicks, toNat_sevenTicks, hlow, hhigh,
          reading_sevenTicks, toNat_ofNat_sevenTicks]
        exact ⟨Nat.le_refl _, Nat.le_refl _⟩ }
  counts := by decide
  small := by decide
  early := by decide
  measured :=
    ⟨70000,
      { pos := by decide
        le := by decide
        mtime := fun k _ => reading_sevenTicks k
        mcycle := fun _ _ => rfl
        mono := fun k _ => by omega
        apart := fun k _ => by omega
        between := fun k _ => by omega }, by decide⟩
  reaches := ⟨70000, by decide⟩

/-- A wait of up to five ticks ends with its last tick, and behind it there is another one to
count. -/
lemma countsBehind_sevenTicks {n : ℕ} (hn : n ≤ 5) :
    CountsBehind .high St.sevenTicks (.ofNat 64 n) 1 := by
  have hread (k : ℕ) : (reading .high St.sevenTicks.loads k).toNat = min k 70000 / 10000 := by
    rw [reading_sevenTicks, toNat_ofNat_sevenTicks]
    rfl
  have htgt : (BitVec.ofNat 64 n).toNat = n := by
    rw [BitVec.toNat_ofNat]
    omega
  refine ⟨10000 * n, fun i hi => ?_, ?_, 9999, 19999, fun i hi => ?_, fun heq => ?_, by decide, ?_⟩
  · rw [BitVec.lt_def, hread, htgt]
    omega
  · rw [BitVec.le_def, hread, htgt]
    omega
  · refine BitVec.eq_of_toNat_eq ?_
    rw [hread, hread]
    omega
  · have hnat := congrArg BitVec.toNat heq
    rw [hread, hread] at hnat
    omega
  · rw [hread, hread]
    omega

end Cheshire.Sw.Clint
