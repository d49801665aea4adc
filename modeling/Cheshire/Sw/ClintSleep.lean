import Cheshire.Sw.Clint

/-!
Waiting for the timer: `clint_spin_until` and `clint_spin_ticks` return at or after their target;
`clint_sleep_until` and `clint_sleep_ticks` do so exactly when there is nothing left to wait for.
-/

namespace Cheshire.Sw.Clint

open Lib

/-- The timer never goes back, and each read of it lies between its values at the two loads. -/
structure Steady (first : Half) (s : St) : Prop where
  start : s.now ≤ s.loads.get 0
  mono : ∀ k, s.loads.get k ≤ s.loads.get (k + 1)
  between : ∀ k, s.loads.get (2 * k) ≤ reading first s.loads k ∧
    reading first s.loads k ≤ s.loads.get (2 * k + 1)

/-- `wfi` comes back no earlier than the interrupt of the timer `timerIdx`. -/
def WakesAt (timerIdx : U64) (wfi : St → Option St) : Prop :=
  ∀ s s', wfi s = some s' → s.now ≤ s'.now ∧ mtimecmp timerIdx s.regs ≤ s'.now

/-- Whatever waits until `tgtMtime` returns at a moment when the timer has reached it. -/
def WaitsUntil (wait : CM Unit) (s : St) (tgtMtime : U64) : Prop :=
  Leaves wait s fun _ s' => tgtMtime ≤ s'.now

/-- Whatever waits for `ticks` returns that many ticks after the call or later. -/
def WaitsTicks (wait : CM Unit) (s : St) (ticks : U64) : Prop :=
  Leaves wait s fun _ s' => s.now.toNat + ticks.toNat ≤ s'.now.toNat

section Steady

variable {first : Half} {s : St}

lemma Steady.behindRead (h : Steady first s) : Steady first s.behindRead where
  start := h.mono 1
  mono k := h.mono (k + 2)
  between k := by
    have := h.between (k + 1)
    rw [← reading_drop first s.loads k 1] at this
    exact this

lemma Steady.now_le_reading (h : Steady first s) : s.now ≤ reading first s.loads 0 := by
  have hstart := h.start
  have hread := (h.between 0).1
  rw [BitVec.le_def] at hstart hread ⊢
  exact hstart.trans hread

lemma Steady.reading_le_behind (h : Steady first s) :
    reading first s.loads 0 ≤ s.behindRead.now := (h.between 0).2

/-- The read of a state is not below the target of a wait for as many ticks as there are up to
it. -/
lemma Steady.now_add_le (h : Steady first s) {ticks : U64}
    (hticks : (reading first s.loads 0).toNat + ticks.toNat < 2 ^ 64) :
    s.now.toNat + ticks.toNat ≤ (reading first s.loads 0 + ticks).toNat := by
  have hnow := h.now_le_reading
  rw [BitVec.le_def] at hnow
  rw [BitVec.toNat_add, Nat.mod_eq_of_lt hticks]
  omega

end Steady

section Spin

variable {first : Half} {s : St}

/-- The busy wait returns no earlier than its target. -/
theorem waitsUntil_clintSpinUntil (h : Steady first s) (fuel : ℕ) (tgtMtime : U64) :
    WaitsUntil (clintSpinUntil first fuel tgtMtime) s tgtMtime := by
  induction fuel generalizing s with
  | zero => trivial
  | succ fuel ih =>
    rw [WaitsUntil, clintSpinUntil, leaves_clintGetMtime_bind]
    split
    · exact ih h.behindRead
    · rename_i hreached
      have hbehind := h.reading_le_behind
      rw [leaves_pure]
      rw [BitVec.lt_def] at hreached
      rw [BitVec.le_def] at hbehind ⊢
      omega

theorem waitsTicks_clintSpinTicks (h : Steady first s) (fuel : ℕ) {ticks : U64}
    (hticks : (reading first s.loads 0).toNat + ticks.toNat < 2 ^ 64) :
    WaitsTicks (clintSpinTicks first fuel ticks) s ticks := by
  rw [WaitsTicks, clintSpinTicks, leaves_clintGetMtime_bind]
  refine (waitsUntil_clintSpinUntil h.behindRead fuel _).mono fun _ s' hs' => ?_
  have hadd := h.now_add_le hticks
  rw [BitVec.le_def] at hs'
  omega

end Spin

section Sleep

variable {first : Half} {wfi : St → Option St} {timerIdx : U64} {s : St}

/-- The state in which `clint_sleep_until` waits for the interrupt. -/
def St.armed (s : St) (timerIdx tgtMtime : U64) : St :=
  { s with
    regs := (mtimecmpStores timerIdx tgtMtime).foldl storeReg32 s.regs
    mie := csrBits true s.mie 128
    mstatus := csrBits true s.mstatus 8 }

/-- The wait for an interrupt goes on in the state that `wfi` leaves. -/
lemma leaves_waitForInterrupt {Q : Unit → St → Prop} :
    Leaves (waitForInterrupt wfi) s Q ↔ ∀ s', wfi s = some s' → Q () s' := by
  have hget : ∀ P : St → St → Prop, Leaves (get : CM St) s P ↔ P s s := fun _ => Iff.rfl
  rw [waitForInterrupt, leaves_bind, hget]
  cases wfi s with
  | none => exact iff_of_true trivial fun s' hs' => by cases hs'
  | some s' => exact ⟨fun h s'' hs'' => Option.some.inj hs'' ▸ h, fun h => h s' rfl⟩

/-- The sleeping wait returns at once when the read is below its target, and when `wfi` does
otherwise. -/
lemma leaves_clintSleepUntil {tgtMtime : U64} {Q : Unit → St → Prop} :
    Leaves (clintSleepUntil first wfi timerIdx tgtMtime) s Q ↔
      if reading first s.loads 0 < tgtMtime then Q () s.behindRead
      else ∀ s', wfi (s.behindRead.armed timerIdx tgtMtime) = some s' → Q () s' := by
  rw [clintSleepUntil, leaves_clintGetMtime_bind]
  split
  · exact Iff.rfl
  · exact leaves_waitForInterrupt

/-- The sleeping wait keeps its promise, of a target it is given, exactly when that target has been
reached by its first read. -/
lemma leaves_clintSleepUntil_iff (hwfi : WakesAt timerIdx wfi) (h : Steady first s)
    {tgtMtime : U64} {bound : ℕ} (hbound : bound ≤ tgtMtime.toNat) :
    Leaves (clintSleepUntil first wfi timerIdx tgtMtime) s (fun _ s' => bound ≤ s'.now.toNat) ↔
      bound ≤ (s.loads.get 1).toNat := by
  rw [leaves_clintSleepUntil]
  split
  · exact Iff.rfl
  · rename_i hreached
    have hbehind : reading first s.loads 0 ≤ s.loads.get 1 := h.reading_le_behind
    rw [BitVec.lt_def] at hreached
    rw [BitVec.le_def] at hbehind
    refine iff_of_true (fun s' hs' => ?_) (by omega)
    have hlater : s.loads.get 1 ≤ s'.now := (hwfi _ s' hs').1
    rw [BitVec.le_def] at hlater
    omega

end Sleep

/-- **The waits on the timer.**  The sleeping ones return at or after their target exactly when the
timer is there already as the early-exit test is made; the busy ones do so always. -/
theorem clintSleep_iff (first : Half) (wfi : St → Option St) (timerIdx : U64)
    (hwfi : WakesAt timerIdx wfi) (s : St) (h : Steady first s) (tgtMtime ticks : U64)
    (hticks : (reading first s.loads 0).toNat + ticks.toNat < 2 ^ 64) :
    (WaitsUntil (clintSleepUntil first wfi timerIdx tgtMtime) s tgtMtime ↔
      tgtMtime ≤ s.loads.get 1) ∧
    (WaitsTicks (clintSleepTicks first wfi timerIdx ticks) s ticks ↔
      s.now.toNat + ticks.toNat ≤ (s.loads.get 3).toNat) ∧
    (∀ fuel, WaitsUntil (clintSpinUntil first fuel tgtMtime) s tgtMtime) ∧
    ∀ fuel, WaitsTicks (clintSpinTicks first fuel ticks) s ticks := by
  refine ⟨?_, ?_, fun fuel => waitsUntil_clintSpinUntil h fuel tgtMtime,
    fun fuel => waitsTicks_clintSpinTicks h fuel hticks⟩
  · simp only [WaitsUntil, BitVec.le_def]
    exact leaves_clintSleepUntil_iff hwfi h le_rfl
  · rw [WaitsTicks, clintSleepTicks, leaves_clintGetMtime_bind]
    exact leaves_clintSleepUntil_iff hwfi h.behindRead (h.now_add_le hticks)

/-- A machine that wakes up as soon as the timer reaches the compare register of the timer `0`. -/
def wakeAtCompare (s : St) : Option St :=
  some { s with now := if s.now ≤ mtimecmp 0 s.regs then mtimecmp 0 s.regs else s.now }

/-- A state in front of a timer that stands at `t`. -/
def St.standing (t : U64) : St := { St.clear with now := t, loads := fun _ => t }

lemma wakesAt_wakeAtCompare : WakesAt 0 wakeAtCompare := by
  rintro s _ ⟨⟩
  simp only [BitVec.le_def]
  split
  · exact ⟨‹_›, le_rfl⟩
  · exact ⟨le_rfl, by omega⟩

lemma steady_standing (t : U64) : Steady .high (St.standing t) where
  start := BitVec.le_refl t
  mono _ := BitVec.le_refl t
  between k := by
    have hread : reading .high (St.standing t).loads k = t := join_hi_lo t
    rw [hread]
    exact ⟨BitVec.le_refl t, BitVec.le_refl t⟩

/-- A wait until `3` at the time `5`. -/
theorem clintSleep_target_past :
    WaitsUntil (clintSleepUntil .high wakeAtCompare 0 3) (St.standing 5) 3 :=
  (clintSleep_iff .high wakeAtCompare 0 wakesAt_wakeAtCompare (St.standing 5) (steady_standing 5)
    3 0 (by decide)).1.mpr (by decide)

/-- A wait until `10` that begins at the time `5` returns at the time `5`, and so does a wait for
five ticks. -/
theorem not_clintSleep_target_ahead :
    ¬ WaitsUntil (clintSleepUntil .high wakeAtCompare 0 10) (St.standing 5) 10 ∧
      ¬ WaitsTicks (clintSleepTicks .high wakeAtCompare 0 5) (St.standing 5) 5 := by
  rw [WaitsUntil, WaitsTicks, clintSleepTicks, leaves_clintGetMtime_bind, leaves_clintSleepUntil,
    leaves_clintSleepUntil]
  decide

end Cheshire.Sw.Clint
