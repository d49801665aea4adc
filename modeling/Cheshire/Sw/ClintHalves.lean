import Cheshire.Sw.Clint

/-!
A register of 64 bits that is accessed as two words of 32 bits: the timer, which runs while
`clint_get_mtime` loads it, and a compare register, which the timer is compared with while
`clint_set_mtimecmpx` stores it.
-/

namespace Cheshire.Sw.Clint

open Lib

/-! ### Reading the timer -/

/-- In `d` ticks from `t` on, neither word of the timer carries over. -/
def NoCarry (t : U64) (d : ℕ) : Prop :=
  (lo t).toNat + d % 2 ^ 32 < 2 ^ 32 ∧ (hi t).toNat + d / 2 ^ 32 % 2 ^ 32 < 2 ^ 32

instance (t : U64) (d : ℕ) : Decidable (NoCarry t d) := by unfold NoCarry; infer_instance

/-- A timer that holds `t` at the first load and ticks `ticks k` times between the `k`-th load and
the next. -/
def timer (t : U64) (ticks : ℕ → ℕ) : Stream' U64
  | 0 => t
  | k + 1 => timer t ticks k + BitVec.ofNat 64 (ticks k)

/-- A state in front of the loads of such a timer. -/
def St.timed (s : St) (t : U64) (ticks : ℕ → ℕ) : St := { s with loads := timer t ticks }

/-- The values that `n` successive calls of `clint_get_mtime` return. -/
def calls (first : Half) : ℕ → CM (List U64)
  | 0 => pure []
  | n + 1 => do
    let value ← clintGetMtime first
    return value :: (← calls first n)

section Read

variable (first : Half)

/-- A read lies between the two values of the timer exactly when neither word falls. -/
lemma tornRead_between_iff (t t' : U64) :
    (t ≤ tornRead first t t' ∧ tornRead first t t' ≤ t') ↔ lo t ≤ lo t' ∧ hi t ≤ hi t' := by
  cases first with
  | high =>
    simp only [tornRead, BitVec.le_def, toNat_join, toNat_hi, toNat_lo]
    omega
  | low =>
    simp only [tornRead, BitVec.le_def, toNat_join, toNat_hi, toNat_lo]
    omega

lemma words_le_iff_noCarry (t : U64) (d : ℕ) :
    (lo t ≤ lo (t + BitVec.ofNat 64 d) ∧ hi t ≤ hi (t + BitVec.ofNat 64 d)) ↔ NoCarry t d := by
  have h : t.toNat < 2 ^ 64 := t.isLt
  simp only [NoCarry, BitVec.le_def, toNat_hi, toNat_lo, BitVec.toNat_add, BitVec.toNat_ofNat]
  omega

variable {t : U64} {ticks : ℕ → ℕ}

/-- A read during which neither word carries over is a value the timer has in the meantime. -/
lemma reading_between {k : ℕ} (h : NoCarry (timer t ticks (2 * k)) (ticks (2 * k))) :
    timer t ticks (2 * k) ≤ reading first (timer t ticks) k ∧
      reading first (timer t ticks) k ≤ timer t ticks (2 * k + 1) :=
  (tornRead_between_iff first _ _).mpr ((words_le_iff_noCarry _ _).mpr h)

lemma le_timer_succ {k : ℕ} (h : (timer t ticks k).toNat + ticks k < 2 ^ 64) :
    timer t ticks k ≤ timer t ticks (k + 1) := by
  have hk : (timer t ticks (k + 1)).toNat = (timer t ticks k).toNat + ticks k := by
    simp only [timer, BitVec.toNat_add, BitVec.toNat_ofNat]
    omega
  rw [BitVec.le_def]
  omega

/-- A read does not fall behind an earlier one, where neither of the two nor any read between them
is torn, and the timer does not overflow from one to the next. -/
lemma reading_le_reading {n : ℕ}
    (hread : ∀ k < n, NoCarry (timer t ticks (2 * k)) (ticks (2 * k)))
    (hnext : ∀ k < n, (timer t ticks (2 * k + 1)).toNat + ticks (2 * k + 1) < 2 ^ 64)
    {i j : ℕ} (hij : i ≤ j) (hj : j < n) :
    reading first (timer t ticks) i ≤ reading first (timer t ticks) j := by
  induction j, hij using Nat.le_induction with
  | base => exact BitVec.le_refl _
  | succ j hij ih =>
    have hstep : timer t ticks (2 * j + 1) ≤ timer t ticks (2 * (j + 1)) :=
      le_timer_succ (hnext j (by omega))
    calc reading first (timer t ticks) i
        ≤ reading first (timer t ticks) j := ih (by omega)
      _ ≤ timer t ticks (2 * j + 1) := (reading_between first (hread j (by omega))).2
      _ ≤ timer t ticks (2 * (j + 1)) := hstep
      _ ≤ reading first (timer t ticks) (j + 1) := (reading_between first (hread (j + 1) hj)).1

/-- Successive calls return one reading after the other. -/
lemma returns_calls (n : ℕ) (s : St) :
    Returns (calls first n) s fun values _ =>
      values = (List.range n).map (reading first s.loads) := by
  induction n generalizing s with
  | zero => exact rfl
  | succ n ih =>
    rw [calls, returns_bind]
    unfold Returns
    rw [run_clintGetMtime]
    refine (ih s.behindRead).bind fun values s' hvalues => ?_
    subst hvalues
    rw [returns_pure, List.range_succ_eq_map]
    simp only [List.map_cons, List.map_map, List.cons.injEq, true_and]
    refine List.map_congr_left fun k _ => ?_
    exact reading_drop first s.loads k 1

end Read

/-- **What `clint_get_mtime` returns** lies between the timer at its first load and the timer at
its second exactly when neither word of the timer carries over in between; and in a run of calls of
which none sees a carry, on a timer that does not overflow between two of them, no value is below
an earlier one. -/
theorem clintGetMtime_between_iff (first : Half) (s : St) (t : U64) (ticks : ℕ → ℕ) :
    (Returns (clintGetMtime first) (s.timed t ticks)
        (fun v _ => t ≤ v ∧ v ≤ t + BitVec.ofNat 64 (ticks 0)) ↔ NoCarry t (ticks 0)) ∧
      ∀ n, (∀ k < n, NoCarry (timer t ticks (2 * k)) (ticks (2 * k))) →
        (∀ k < n, (timer t ticks (2 * k + 1)).toNat + ticks (2 * k + 1) < 2 ^ 64) →
        Returns (calls first n) (s.timed t ticks) fun values _ => values.Pairwise (· ≤ ·) := by
  refine ⟨?_, fun n hread hnext => ?_⟩
  · unfold Returns
    rw [run_clintGetMtime]
    exact (tornRead_between_iff first _ _).trans (words_le_iff_noCarry _ _)
  · refine (returns_calls first n _).mono fun values _ hvalues => ?_
    rw [hvalues, List.pairwise_map]
    refine (List.pairwise_lt_range (n := n)).imp_of_mem fun {i j} _ hj hij => ?_
    exact reading_le_reading first hread hnext hij.le (List.mem_range.mp hj)

/-- Three reads of a timer that carries over between the second and the third. -/
theorem clintGetMtime_between_around_carry :
    Returns (calls .high 3) (St.clear.timed 0xFFFFFFFE fun k => k % 2) fun values _ =>
      values.Pairwise (· ≤ ·) := by
  refine (clintGetMtime_between_iff .high St.clear 0xFFFFFFFE (fun k => k % 2)).2 3 ?_ ?_
  · decide
  · decide

/-- One tick from `0xFFFF_FFFF` on, the read is below the timer at both loads or above it at both,
by the order of the loads. -/
theorem not_clintGetMtime_between_at_carry :
    ¬ Returns (clintGetMtime .high) (St.clear.timed 0xFFFFFFFF fun _ => 1)
        (fun v _ => 0xFFFFFFFF ≤ v ∧ v ≤ 0xFFFFFFFF + BitVec.ofNat 64 1) ∧
      ¬ Returns (clintGetMtime .low) (St.clear.timed 0xFFFFFFFF fun _ => 1)
        (fun v _ => 0xFFFFFFFF ≤ v ∧ v ≤ 0xFFFFFFFF + BitVec.ofNat 64 1) := by
  unfold Returns
  rw [run_clintGetMtime, run_clintGetMtime]
  decide

/-! ### Writing a compare register -/

/-- The words of the CLINT when `k` of the stores of `clint_set_mtimecmpx` are done. -/
def regsAfter (timerIdx value : U64) (regs : CInt → U32) (k : ℕ) : CInt → U32 :=
  ((mtimecmpStores timerIdx value).take k).foldl storeReg32 regs

/-- The compare register stays above a timer that stays below its old and its new value, whichever
of the stores are done, and holds the new value in the end. -/
def UpdateOk (s : St) (timerIdx value : U64) : Prop :=
  (∀ mtime : ℕ → U64, (∀ j k, j ≤ k → mtime j ≤ mtime k) →
    (∀ k, mtime k < mtimecmp timerIdx s.regs ∧ mtime k < value) →
    ∀ k, mtime k < mtimecmp timerIdx (regsAfter timerIdx value s.regs k)) ∧
  Returns (clintSetMtimecmpx timerIdx value) s fun _ s' => mtimecmp timerIdx s'.regs = value

section Write

variable (timerIdx value : U64) (regs : CInt → U32)

lemma lo_mtimecmp : lo (mtimecmp timerIdx regs) = regs (mtimecmpLow timerIdx) := by
  apply BitVec.eq_of_toNat_eq
  have := (regs (mtimecmpLow timerIdx)).isLt
  rw [toNat_lo, mtimecmp, toNat_join]
  omega

/-- Between the stores the new upper word stands over the old lower one. -/
lemma mtimecmp_regsAfter_one :
    mtimecmp timerIdx (regsAfter timerIdx value regs 1) =
      join (hi value) (lo (mtimecmp timerIdx regs)) := by
  rw [lo_mtimecmp]
  simp [mtimecmp, regsAfter, mtimecmpStores, storeReg32, mtimecmpLow_ne_high]

lemma mtimecmp_regsAfter_two (k : ℕ) :
    mtimecmp timerIdx (regsAfter timerIdx value regs (k + 2)) = value := by
  simp [mtimecmp, regsAfter, mtimecmpStores, storeReg32, (mtimecmpLow_ne_high timerIdx).symm]

lemma returns_clintSetMtimecmpx (s : St) :
    Returns (clintSetMtimecmpx timerIdx value) s fun _ s' =>
      s' = { s with regs := regsAfter timerIdx value s.regs 2 } := rfl

end Write

/-- The mixed value is below both the old and the new one exactly when the upper word falls while
the lower one rises. -/
lemma mixed_below_iff (old new : U64) :
    (join (hi new) (lo old) < old ∧ join (hi new) (lo old) < new) ↔
      ¬ (hi old ≤ hi new ∨ lo new ≤ lo old) := by
  simp only [BitVec.lt_def, BitVec.le_def, toNat_join, toNat_hi, toNat_lo]
  omega

/-- **An update of a compare register raises no spurious interrupt** exactly when its upper word
does not fall or its lower word does not rise. -/
theorem updateOk_iff (s : St) (timerIdx value : U64) :
    UpdateOk s timerIdx value ↔
      hi (mtimecmp timerIdx s.regs) ≤ hi value ∨ lo value ≤ lo (mtimecmp timerIdx s.regs) := by
  have hret : Returns (clintSetMtimecmpx timerIdx value) s fun _ s' =>
      mtimecmp timerIdx s'.regs = value :=
    (returns_clintSetMtimecmpx timerIdx value s).mono fun _ s' hs' => by
      rw [hs']
      exact mtimecmp_regsAfter_two timerIdx value s.regs 0
  have hmixed := mixed_below_iff (mtimecmp timerIdx s.regs) value
  constructor
  · rintro ⟨hcmp, -⟩
    by_contra hwords
    -- A timer that stands at the mixed value is below the old and the new value, not below it.
    have hbelow := hmixed.mpr hwords
    have hlt := hcmp (fun _ => join (hi value) (lo (mtimecmp timerIdx s.regs)))
      (fun _ _ _ => BitVec.le_refl _) (fun _ => hbelow) 1
    rw [mtimecmp_regsAfter_one] at hlt
    exact BitVec.lt_irrefl _ hlt
  · refine fun hwords => ⟨fun mtime _ hbelow k => ?_, hret⟩
    match k with
    | 0 => exact (hbelow 0).1
    | 1 =>
      rw [mtimecmp_regsAfter_one]
      by_contra hge
      have hold := (hbelow 1).1
      have hnew := (hbelow 1).2
      refine hmixed.mp ⟨?_, ?_⟩ hwords
      · rw [BitVec.lt_def] at hge hold ⊢
        omega
      · rw [BitVec.lt_def] at hge hnew ⊢
        omega
    | k + 2 =>
      rw [mtimecmp_regsAfter_two]
      exact (hbelow (k + 2)).2

/-- From `0x2_0000_0000` to `0x1_8000_0000` the register passes through `0x1_0000_0000`, which a
timer at `0x1_4000_0000` has reached. -/
theorem not_updateOk_falling :
    ¬ UpdateOk { St.clear with regs := fun offs => if offs = mtimecmpHigh 0 then 2 else 0 } 0
      0x180000000 := by
  intro h
  have hlt := h.1 (fun _ => 0x140000000) (fun _ _ _ => BitVec.le_refl _)
    (fun _ => by constructor <;> decide) 1
  revert hlt
  decide

end Cheshire.Sw.Clint
