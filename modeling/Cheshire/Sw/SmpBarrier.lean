import Cheshire.Sw.Smp
import Mathlib.Tactic.IntervalCases

/-!
The barrier holds: no hart leaves `smp_resume` before all have woken up and cleared their flags.

Hart 0 sets its own flag first and clears it after it has set all others.  A hart that waits for
the flags has cleared its own, so flag 0 was set at that time; when it finds flag 0 clear, hart 0
has cleared it, all flags have been set, and from then on a clear flag is one that was cleared.
-/

namespace Cheshire.Sw.Smp

open Lib Lib.Rv64

section Inv

variable (clint regs A : U64) (n : ℕ)

/-- What a hart knows at each place: `k` flags have been set, and `cl` are the harts that have
cleared theirs.  A hart that waits in front of the flag `i` knows that all below it are cleared. -/
def At (j k : ℕ) (cl : ℕ → Prop) : ℕ → (Reg → U64) → Prop
  | 0, r => r .a0 = A
  | 1, r => r .a0 = A ∧ r .t0 = regs
  | 2, r => r .a0 = A ∧ r .t0 = regs
  | 3, r => r .a0 = A >>> 32 ∧ r .t0 = regs
  | 4, _ => True
  | 5, _ => True
  | 6, r => r .t0 = clint
  | 7, r => r .t0 = clint ∧ r .t2 = regs
  | 8, r => r .t0 = clint ∧ r .t2 = .ofNat 64 n
  | 9, r => r .t0 = clint ∧ r .t2 = .ofNat 64 (4 * n)
  -- setting the flags
  | 10, r => k < n ∧ r .t0 = msip clint k ∧ r .t2 = msip clint n
  | 11, r => k < n ∧ r .t0 = msip clint k ∧ r .t2 = msip clint n ∧ r .t1 = 1
  | 12, r => ∃ i, k = i + 1 ∧ r .t0 = msip clint i ∧ r .t2 = msip clint n
  | 13, r => r .t0 = msip clint k ∧ r .t2 = msip clint n
  -- waiting for the own flag, and clearing it
  | 14, _ => True
  | 15, _ => True
  | 16, r => r .t1 &&& 0x8 ≠ 0 → j < k
  | 17, r => r .t1 ≠ 0 → j < k
  | 18, _ => j < k
  | 19, r => j < k ∧ r .t0 = clint
  | 20, r => j < k ∧ r .t0 = clint ∧ r .t1 = .ofNat 64 j
  | 21, r => j < k ∧ r .t0 = clint ∧ r .t1 = .ofNat 64 (4 * j)
  | 22, r => j < k ∧ r .t0 = clint ∧ r .t1 = msip clint j
  | 23, r => j < k ∧ r .t0 = clint
  | 24, r => j < k ∧ r .t0 = clint ∧ r .t2 = regs
  | 25, r => j < k ∧ r .t0 = clint ∧ r .t2 = .ofNat 64 n
  | 26, r => j < k ∧ r .t0 = clint ∧ r .t2 = .ofNat 64 (4 * n)
  -- waiting for the flags of all
  | 27, r => j < k ∧ ∃ i < n, r .t0 = msip clint i ∧ r .t2 = msip clint n ∧ ∀ l < i, cl l
  | 28, r => j < k ∧ ∃ i < n, r .t0 = msip clint i ∧ r .t2 = msip clint n ∧ (∀ l < i, cl l) ∧
      (r .t1 = 0 → cl i)
  | 29, r => j < k ∧ ∃ i < n, r .t0 = msip clint i ∧ r .t2 = msip clint n ∧ ∀ l < i + 1, cl l
  | 30, r => j < k ∧ ∃ i < n, r .t0 = msip clint (i + 1) ∧ r .t2 = msip clint n ∧
      ∀ l < i + 1, cl l
  -- fetching the boot address
  | 31, _ => j < k ∧ ∀ l < n, cl l
  | 32, r => j < k ∧ (∀ l < n, cl l) ∧ r .t0 = regs
  | 33, r => j < k ∧ (∀ l < n, cl l) ∧ r .t0 = regs ∧ r .t1 = A >>> 32
  | 34, r => j < k ∧ (∀ l < n, cl l) ∧ r .t0 = regs ∧ r .t1 = A >>> 32 <<< 32
  | 35, r => j < k ∧ (∀ l < n, cl l) ∧ r .t0 = (A.setWidth 32).setWidth 64 ∧
      r .t1 = A >>> 32 <<< 32
  | 36, r => j < k ∧ (∀ l < n, cl l) ∧ r .t0 = A
  | 37, r => j < k ∧ (∀ l < n, cl l) ∧ r .t0 = A
  | _, _ => False

/-- The hart has cleared its flag. -/
def Cleared (s : Machine) (j : ℕ) : Prop := clearedPc ≤ (s.hart j).pc

instance (s : Machine) (j : ℕ) : Decidable (Cleared s j) :=
  inferInstanceAs (Decidable (clearedPc ≤ (s.hart j).pc))

/-- The invariant, `k` flags having been set. -/
structure InvAt (k : ℕ) (s : Machine) : Prop where
  le : k ≤ n
  start : (s.hart 0).pc ≤ 9 → k = 0
  full : pausePc ≤ (s.hart 0).pc → k = n
  others : ∀ j < n, j ≠ 0 → pausePc ≤ (s.hart j).pc
  num : s.mem.loadW (regs + 76) = .ofNat 32 n
  lo : 2 ≤ (s.hart 0).pc → s.mem.loadW (regs + 16) = A.setWidth 32
  hi : 4 ≤ (s.hart 0).pc → s.mem.loadW (regs + 20) = (A >>> 32).setWidth 32
  flag : ∀ j < n, s.mem.loadW (msip clint j) = if j < k ∧ ¬ Cleared s j then 1 else 0
  at_pc : ∀ j < n, At clint regs A n j k (Cleared s) (s.hart j).pc (s.hart j).regs

variable {clint regs A n}

lemma At.pc_le {j k : ℕ} {cl : ℕ → Prop} {pc : ℕ} {r : Reg → U64}
    (h : At clint regs A n j k cl pc r) : pc ≤ 37 := by
  by_contra hn
  obtain ⟨d, rfl⟩ : ∃ d, pc = d + 38 := ⟨pc - 38, by omega⟩
  exact h

/-- Before the pause nothing is known of the flags that are cleared. -/
lemma At.congr {j k : ℕ} {cl cl' : ℕ → Prop} {pc : ℕ} {r : Reg → U64} (hpc : pc < pausePc)
    (h : At clint regs A n j k cl pc r) : At clint regs A n j k cl' pc r := by
  unfold pausePc at hpc
  interval_cases pc <;> exact h

/-- Knowledge behind the pause is not lost when more flags are set or cleared. -/
lemma At.mono {j k k' : ℕ} {cl cl' : ℕ → Prop} {pc : ℕ} {r : Reg → U64} (hk : k ≤ k')
    (hcl : ∀ l, cl l → cl' l) (hpc : pausePc ≤ pc) (h : At clint regs A n j k cl pc r) :
    At clint regs A n j k' cl' pc r := by
  unfold pausePc at hpc
  have hle : pc ≤ 37 := h.pc_le
  interval_cases pc <;> simp only [At] at h ⊢ <;> grind

/-- A hart that has cleared its flag has seen it set. -/
lemma At.lt_of_cleared {j k : ℕ} {cl : ℕ → Prop} {pc : ℕ} {r : Reg → U64}
    (h : At clint regs A n j k cl pc r) (hpc : clearedPc ≤ pc) : j < k := by
  unfold clearedPc at hpc
  have hle : pc ≤ 37 := h.pc_le
  interval_cases pc <;> exact h.1

/-! ### Addresses and words -/

section Layout

variable (L : Layout clint regs n)
include L

lemma toNat_msip {i : ℕ} (hi : i ≤ n) : (msip clint i).toNat = clint.toNat + 4 * i := by
  have := L.clintLt
  rw [msip, BitVec.toNat_add, BitVec.toNat_ofNat]
  omega

omit L in
lemma msip_succ (i : ℕ) : msip clint i + 4 = msip clint (i + 1) := by
  have h4 : BitVec.ofNat 64 (4 * (i + 1)) = BitVec.ofNat 64 (4 * i) + 4 := by
    rw [Nat.mul_add, BitVec.ofNat_add]
    rfl
  rw [msip, msip, h4, BitVec.add_assoc]

/-- The signed comparison of `blt` orders the flags. -/
lemma slt_msip {i : ℕ} (hi : i ≤ n) :
    (msip clint i).slt (msip clint n) = decide (i < n) := by
  have hlt := L.clintLt
  have h1 := toNat_msip L hi
  have h2 := toNat_msip L (Nat.le_refl n)
  rw [BitVec.slt, BitVec.toInt_eq_toNat_of_lt (by omega), BitVec.toInt_eq_toNat_of_lt (by omega),
    h1, h2]
  exact decide_eq_decide.mpr (by omega)

lemma toNat_regs {o : ℕ} (ho : o ≤ 76) : (regs + BitVec.ofNat 64 o).toNat = regs.toNat + o := by
  have := L.regsLt
  rw [BitVec.toNat_add, BitVec.toNat_ofNat]
  omega

lemma load_msip_store_msip (m : Mem 64) (v : BitVec 32) {i j : ℕ} (hi : i < n) (hj : j < n)
    (hne : i ≠ j) : (m.storeW (msip clint j) v).loadW (msip clint i) = m.loadW (msip clint i) := by
  have := L.clintLt
  have h1 := toNat_msip L (Nat.le_of_lt hi)
  have h2 := toNat_msip L (Nat.le_of_lt hj)
  exact m.loadW_storeW_of_apart v (by omega) (by omega) (by omega)

lemma load_regs_store_msip (m : Mem 64) (v : BitVec 32) {o j : ℕ} (ho : o ≤ 76) (hj : j < n) :
    (m.storeW (msip clint j) v).loadW (regs + BitVec.ofNat 64 o) =
      m.loadW (regs + BitVec.ofNat 64 o) := by
  have := L.clintLt
  have := L.regsLt
  have := L.apart
  have h1 := toNat_regs L ho
  have h2 := toNat_msip L (Nat.le_of_lt hj)
  exact m.loadW_storeW_of_apart v (by omega) (by omega) (by omega)

lemma load_msip_store_regs (m : Mem 64) (v : BitVec 32) {o j : ℕ} (ho : o ≤ 76) (hj : j < n) :
    (m.storeW (regs + BitVec.ofNat 64 o) v).loadW (msip clint j) = m.loadW (msip clint j) := by
  have := L.clintLt
  have := L.regsLt
  have := L.apart
  have h1 := toNat_regs L ho
  have h2 := toNat_msip L (Nat.le_of_lt hj)
  exact m.loadW_storeW_of_apart v (by omega) (by omega) (by omega)

lemma load_regs_store_regs (m : Mem 64) (v : BitVec 32) {o o' : ℕ} (ho : o ≤ 76) (ho' : o' ≤ 76)
    (h : o + 4 ≤ o' ∨ o' + 4 ≤ o) :
    (m.storeW (regs + BitVec.ofNat 64 o) v).loadW (regs + BitVec.ofNat 64 o') =
      m.loadW (regs + BitVec.ofNat 64 o') := by
  have := L.regsLt
  have h1 := toNat_regs L ho
  have h2 := toNat_regs L ho'
  exact m.loadW_storeW_of_apart v (by omega) (by omega) (by omega)

/-- The number of harts as the harts read it, and shifted. -/
lemma signExtend_num : (BitVec.ofNat 32 n).signExtend 64 = BitVec.ofNat 64 n := by
  have := L.numHarts
  have hmsb : (BitVec.ofNat 32 n).msb = false := by
    rw [BitVec.msb_eq_false_iff_two_mul_lt, BitVec.toNat_ofNat]
    omega
  rw [BitVec.signExtend_eq_setWidth_of_msb_false hmsb]
  refine BitVec.eq_of_toNat_eq ?_
  simp only [BitVec.toNat_setWidth, BitVec.toNat_ofNat]
  omega

omit L in
lemma shiftLeft_two (i : ℕ) : BitVec.ofNat 64 i <<< 2 = BitVec.ofNat 64 (4 * i) := by
  refine BitVec.eq_of_toNat_eq ?_
  simp only [BitVec.toNat_shiftLeft, BitVec.toNat_ofNat, Nat.shiftLeft_eq]
  omega

end Layout

/-! ### What a step of one hart means to the others -/

variable {k j : ℕ} {s : Machine} {pc : ℕ} {r : Reg → U64}

/-- How hart `j` may move: only hart 0 sets flags, a cleared flag stays cleared. -/
structure Move (n j k pc k' pc' : ℕ) : Prop where
  le : k ≤ k' ∧ k' ≤ n
  same : j ≠ 0 → k' = k
  cleared : clearedPc ≤ pc → clearedPc ≤ pc'
  other : j ≠ 0 → pausePc ≤ pc'
  start : j = 0 → pc' ≤ 9 → k' = 0
  full : j = 0 → pausePc ≤ pc' → k' = n

/-- A hart that moves, knowing what it should where it gets, does not disturb the others. -/
theorem InvAt.update (h : InvAt clint regs A n k s) (hj : j < n) (hh : s.hart j = ⟨pc, r⟩)
    {k' pc' : ℕ} {r' : Reg → U64} {m' : Mem 64} (hm : Move n j k pc k' pc')
    (hnum : m'.loadW (regs + 76) = .ofNat 32 n)
    (hlo : 2 ≤ ((s.set j ⟨pc', r'⟩ m').hart 0).pc → m'.loadW (regs + 16) = A.setWidth 32)
    (hhi : 4 ≤ ((s.set j ⟨pc', r'⟩ m').hart 0).pc → m'.loadW (regs + 20) = (A >>> 32).setWidth 32)
    (hflag : ∀ l < n, m'.loadW (msip clint l) =
      if l < k' ∧ ¬ Cleared (s.set j ⟨pc', r'⟩ m') l then 1 else 0)
    (hat : At clint regs A n j k' (Cleared (s.set j ⟨pc', r'⟩ m')) pc' r') :
    InvAt clint regs A n k' (s.set j ⟨pc', r'⟩ m') := by
  have hcl : ∀ l, Cleared s l → Cleared (s.set j ⟨pc', r'⟩ m') l := by
    intro l hl
    unfold Cleared at hl ⊢
    by_cases hlj : l = j
    · subst hlj
      rw [hh] at hl
      rw [Machine.set_hart_self]
      exact hm.cleared hl
    · rwa [Machine.set_hart_of_ne _ _ _ hlj]
  refine ⟨hm.le.2, fun hp => ?_, fun hp => ?_, fun l hl hl0 => ?_, hnum, hlo, hhi, hflag,
    fun l hl => ?_⟩
  · by_cases hj0 : j = 0
    · subst hj0
      rw [Machine.set_hart_self] at hp
      exact hm.start rfl hp
    · rw [Machine.set_hart_of_ne _ _ _ (Ne.symm hj0)] at hp
      rw [hm.same hj0]
      exact h.start hp
  · by_cases hj0 : j = 0
    · subst hj0
      rw [Machine.set_hart_self] at hp
      exact hm.full rfl hp
    · rw [Machine.set_hart_of_ne _ _ _ (Ne.symm hj0)] at hp
      rw [hm.same hj0]
      exact h.full hp
  · by_cases hlj : l = j
    · subst hlj
      rw [Machine.set_hart_self]
      exact hm.other hl0
    · rw [Machine.set_hart_of_ne _ _ _ hlj]
      exact h.others l hl hl0
  · by_cases hlj : l = j
    · subst hlj
      rw [Machine.set_hart_self]
      exact hat
    · rw [Machine.set_hart_of_ne _ _ _ hlj]
      rcases Nat.lt_or_ge (s.hart l).pc pausePc with hp | hp
      · -- only hart 0 is there, and the step was none of hart 0
        have hl0 : l = 0 := by
          by_contra hl0
          exact absurd hp (Nat.not_lt.mpr (h.others l hl hl0))
        rw [hm.same fun hj0 => hlj (hl0.trans hj0.symm)]
        exact (h.at_pc l hl).congr hp
      · exact (h.at_pc l hl).mono hm.le.1 hcl hp

/-- Who has cleared a flag, when a hart moves and clears none. -/
lemma cleared_set (hh : s.hart j = ⟨pc, r⟩) {p : ℕ} {q : Reg → U64} {m : Mem 64}
    (hpc : clearedPc ≤ p ↔ clearedPc ≤ pc) : Cleared (s.set j ⟨p, q⟩ m) = Cleared s := by
  funext l
  unfold Cleared
  by_cases hlj : l = j
  · subst hlj
    rw [Machine.set_hart_self, hh]
    exact propext hpc
  · rw [Machine.set_hart_of_ne _ _ _ hlj]

/-- The move is one that matters to nobody else. -/
structure Quiet (n j k pc pc' : ℕ) : Prop extends Move n j k pc k pc' where
  cleared_iff : clearedPc ≤ pc' ↔ clearedPc ≤ pc
  lo : j = 0 → 2 ≤ pc' → 2 ≤ pc
  hi : j = 0 → 4 ≤ pc' → 4 ≤ pc

/-- A quiet step that leaves the memory alone. -/
theorem InvAt.frame (h : InvAt clint regs A n k s) (hj : j < n) (hh : s.hart j = ⟨pc, r⟩)
    {pc' : ℕ} {r' : Reg → U64} (hq : Quiet n j k pc pc')
    (hat : At clint regs A n j k (Cleared s) pc' r') :
    InvAt clint regs A n k (s.set j ⟨pc', r'⟩ s.mem) := by
  have hcl := cleared_set (m := s.mem) (q := r') hh hq.cleared_iff
  have hpc0 {b : ℕ} (h1 : j = 0 → b ≤ pc' → b ≤ pc)
      (h2 : b ≤ ((s.set j ⟨pc', r'⟩ s.mem).hart 0).pc) : b ≤ (s.hart 0).pc := by
    by_cases hj0 : j = 0
    · subst hj0
      rw [Machine.set_hart_self] at h2
      rw [hh]
      exact h1 rfl h2
    · rwa [Machine.set_hart_of_ne _ _ _ (Ne.symm hj0)] at h2
  refine h.update hj hh hq.toMove h.num (fun hp => h.lo (hpc0 hq.lo hp))
    (fun hp => h.hi (hpc0 hq.hi hp)) (fun l hl => ?_) (by rw [hcl]; exact hat)
  rw [h.flag l hl]
  simp only [hcl]

/-- A hart goes on behind the pause, without clearing its flag. -/
lemma InvAt.quiet (h : InvAt clint regs A n k s) (hh : s.hart j = ⟨pc, r⟩) {pc' : ℕ}
    (hpc : pausePc ≤ pc ∧ pausePc ≤ pc' ∧ (clearedPc ≤ pc' ↔ clearedPc ≤ pc)) :
    Quiet n j k pc pc' := by
  have hp : pausePc = 14 := rfl
  refine ⟨⟨⟨Nat.le_refl k, h.le⟩, fun _ => rfl, hpc.2.2.mpr, fun _ => hpc.2.1, fun _ _ => by omega,
    fun hj0 _ => ?_⟩, hpc.2.2, fun _ _ => by omega, fun _ _ => by omega⟩
  subst hj0
  exact h.full (by rw [hh]; exact hpc.1)

/-- Hart 0 goes on in front of the pause, but for its stores. -/
lemma InvAt.quiet_boot (h : InvAt clint regs A n k s) (hh : s.hart 0 = ⟨pc, r⟩) {pc' : ℕ}
    (hpc : pc < pausePc ∧ pc' < pausePc ∧ (pc' ≤ 9 → pc ≤ 9) ∧ (2 ≤ pc' → 2 ≤ pc) ∧
      (4 ≤ pc' → 4 ≤ pc)) : Quiet n 0 k pc pc' := by
  have hp : pausePc = 14 := rfl
  have hc : clearedPc = 23 := rfl
  have hstart := h.start
  rw [hh] at hstart
  exact ⟨⟨⟨Nat.le_refl k, h.le⟩, fun _ => rfl, fun _ => by omega, fun h0 => absurd rfl h0,
    fun _ h9 => hstart (hpc.2.2.1 h9), fun _ _ => by omega⟩, by omega, fun _ => hpc.2.2.2.1,
    fun _ => hpc.2.2.2.2⟩

/-! ### Hart 0 in front of the pause -/

lemma InvAt.here (h : InvAt clint regs A n k s) (hj : j < n) (hh : s.hart j = ⟨pc, r⟩) :
    At clint regs A n j k (Cleared s) pc r := by
  have := h.at_pc j hj
  rwa [hh] at this

/-- Hart 0 stores a half of the boot address: what is stored elsewhere stays. -/
lemma InvAt.store_scratch (L : Layout clint regs n) (h : InvAt clint regs A n k s)
    (hh : s.hart 0 = ⟨pc, r⟩) (hpc : pc ≤ 3) {o : ℕ} (ho : o = 16 ∨ o = 20) (v : BitVec 32)
    (hlo : 2 ≤ pc + 1 → (s.mem.storeW (regs + .ofNat 64 o) v).loadW (regs + 16) = A.setWidth 32)
    (hhi : 4 ≤ pc + 1 →
      (s.mem.storeW (regs + .ofNat 64 o) v).loadW (regs + 20) = (A >>> 32).setWidth 32)
    (hat : At clint regs A n 0 k (Cleared s) (pc + 1) r) :
    InvAt clint regs A n k (s.set 0 ⟨pc + 1, r⟩ (s.mem.storeW (regs + .ofNat 64 o) v)) := by
  have hpz : pausePc = 14 := rfl
  have hcz : clearedPc = 23 := rfl
  have hstart := h.start
  rw [hh] at hstart
  have hcl := cleared_set (m := s.mem.storeW (regs + .ofNat 64 o) v) (p := pc + 1) (q := r) hh
    (by omega)
  have hm : Move n 0 k pc k (pc + 1) :=
    ⟨⟨Nat.le_refl k, h.le⟩, fun _ => rfl, fun _ => by omega, fun h0 => absurd rfl h0,
      fun _ _ => hstart (Nat.le_trans hpc (by decide)), fun _ _ => by omega⟩
  refine h.update L.numHarts.1 hh hm ?_ (fun hp => hlo ?_) (fun hp => hhi ?_) (fun l hl => ?_)
    (by rw [hcl]; exact hat)
  · exact (load_regs_store_regs L s.mem v (by omega) (Nat.le_refl 76) (by omega)).trans h.num
  · rwa [Machine.set_hart_self] at hp
  · rwa [Machine.set_hart_self] at hp
  · rw [load_msip_store_regs L s.mem v (by omega) hl, h.flag l hl]
    simp only [hcl]

/-- Hart 0 sets the next flag. -/
lemma InvAt.set_flag (L : Layout clint regs n) (h : InvAt clint regs A n k s)
    (hh : s.hart 0 = ⟨11, r⟩) (hk : k < n) (ht : r .t0 = msip clint k ∧ r .t2 = msip clint n) :
    InvAt clint regs A n (k + 1) (s.set 0 ⟨12, r⟩ (s.mem.storeW (msip clint k) 1)) := by
  have hcl := cleared_set (m := s.mem.storeW (msip clint k) 1) (p := 12) (q := r) hh (by decide)
  have hm : Move n 0 k 11 (k + 1) 12 :=
    ⟨⟨Nat.le_succ k, hk⟩, fun h0 => absurd rfl h0, fun h => absurd h (by decide),
      fun h0 => absurd rfl h0, fun _ h => absurd h (by decide), fun _ h => absurd h (by decide)⟩
  have hlo := h.lo
  have hhi := h.hi
  rw [hh] at hlo hhi
  refine h.update L.numHarts.1 hh hm ?_ (fun _ => ?_) (fun _ => ?_) (fun l hl => ?_)
    ⟨k, rfl, ht.1, ht.2⟩
  · exact (load_regs_store_msip L s.mem 1 (Nat.le_refl 76) hk).trans h.num
  · exact (load_regs_store_msip L s.mem 1 (o := 16) (by decide) hk).trans (hlo (show 2 ≤ 11 by decide))
  · exact (load_regs_store_msip L s.mem 1 (o := 20) (by decide) hk).trans (hhi (show 4 ≤ 11 by decide))
  · simp only [hcl]
    by_cases hlk : l = k
    · subst hlk
      -- a hart that has cleared its flag has seen it set
      have hnot : ¬ Cleared s l := fun hc => absurd ((h.at_pc l hl).lt_of_cleared hc) (lt_irrefl l)
      rw [Mem.loadW_storeW_self _ _ _ (by decide), if_pos ⟨Nat.lt_succ_self l, hnot⟩]
    · rw [load_msip_store_msip L s.mem 1 hl hk hlk, h.flag l hl]
      congr 1
      rw [eq_iff_iff]
      constructor
      · rintro ⟨h1, h2⟩
        exact ⟨by omega, h2⟩
      · rintro ⟨h1, h2⟩
        exact ⟨by omega, h2⟩

/-- Hart 0 publishes the boot address and sets the flags one after another. -/
theorem InvAt.step_boot (L : Layout clint regs n) (h : InvAt clint regs A n k s)
    (hh : s.hart 0 = ⟨pc, r⟩) (hpc : pc < pausePc) {i : Instr} {csr : Csr → U64} {h' : Hart}
    {m' : Mem 64} (hcode : (bootNextStage clint regs)[pc]? = some i)
    (hexec : i.exec csr ⟨pc, r⟩ s.mem = some (h', m')) :
    ∃ k', InvAt clint regs A n k' (s.set 0 h' m') := by
  have hn : 0 < n := L.numHarts.1
  have hat := h.here hn hh
  unfold pausePc at hpc
  interval_cases pc <;> obtain rfl := Option.some.inj hcode <;>
    obtain ⟨rfl, rfl⟩ := Prod.mk.inj (Option.some.inj hexec)
  case «0» =>
    have hq : Quiet n 0 k 0 1 := h.quiet_boot hh (by decide)
    exact ⟨k, h.frame hn hh hq ⟨hat, rfl⟩⟩
  case «1» =>
    obtain ⟨ha, ht⟩ := hat
    have := h.store_scratch L hh (by decide) (o := 16) (.inl rfl) (A.setWidth 32)
      (fun _ => Mem.loadW_storeW_self _ _ _ (by decide)) (fun h4 => absurd h4 (by decide)) ⟨ha, ht⟩
    refine ⟨k, ?_⟩
    show InvAt clint regs A n k
      (s.set 0 ⟨2, r⟩ (s.mem.storeW (r .t0 + 16) ((r .a0).setWidth 32)))
    rw [ha, ht]
    exact this
  case «2» =>
    obtain ⟨ha, ht⟩ := hat
    have hq : Quiet n 0 k 2 3 := h.quiet_boot hh (by decide)
    have hhi : r .a0 >>> 32 = A >>> 32 := by rw [ha]
    exact ⟨k, h.frame hn hh hq ⟨hhi, ht⟩⟩
  case «3» =>
    obtain ⟨ha, ht⟩ := hat
    have hlo := h.lo
    rw [hh] at hlo
    have := h.store_scratch L hh (by decide) (o := 20) (.inr rfl) ((A >>> 32).setWidth 32)
      (fun _ => (load_regs_store_regs L s.mem _ (o := 20) (by decide) (by decide) (by decide)).trans
        (hlo (show 2 ≤ 3 by decide)))
      (fun _ => Mem.loadW_storeW_self _ _ _ (by decide)) trivial
    refine ⟨k, ?_⟩
    show InvAt clint regs A n k
      (s.set 0 ⟨4, r⟩ (s.mem.storeW (r .t0 + 20) ((r .a0).setWidth 32)))
    rw [ha, ht]
    exact this
  case «4» =>
    have hq : Quiet n 0 k 4 5 := h.quiet_boot hh (by decide)
    exact ⟨k, h.frame hn hh hq trivial⟩
  case «5» =>
    have hq : Quiet n 0 k 5 6 := h.quiet_boot hh (by decide)
    exact ⟨k, h.frame hn hh hq rfl⟩
  case «6» =>
    have hq : Quiet n 0 k 6 7 := h.quiet_boot hh (by decide)
    exact ⟨k, h.frame hn hh hq ⟨hat, rfl⟩⟩
  case «7» =>
    obtain ⟨ht0, ht2⟩ := hat
    have hq : Quiet n 0 k 7 8 := h.quiet_boot hh (by decide)
    have hnum : (s.mem.loadW (r .t2 + 76)).signExtend 64 = .ofNat 64 n := by
      rw [ht2, h.num, signExtend_num L]
    exact ⟨k, h.frame hn hh hq ⟨ht0, hnum⟩⟩
  case «8» =>
    obtain ⟨ht0, ht2⟩ := hat
    have hq : Quiet n 0 k 8 9 := h.quiet_boot hh (by decide)
    have hshift : r .t2 <<< 2 = .ofNat 64 (4 * n) := by rw [ht2, shiftLeft_two]
    exact ⟨k, h.frame hn hh hq ⟨ht0, hshift⟩⟩
  case «9» =>
    obtain ⟨ht0, ht2⟩ := hat
    have hq : Quiet n 0 k 9 10 := h.quiet_boot hh (by decide)
    have hk : k = 0 := by
      have := h.start
      rw [hh] at this
      exact this (show 9 ≤ 9 by decide)
    have hbase : r .t0 = msip clint k := by
      rw [ht0, hk, msip]
      simp
    have hend : r .t0 + r .t2 = msip clint n := by rw [ht0, ht2, msip]
    exact ⟨k, h.frame hn hh hq ⟨by omega, hbase, hend⟩⟩
  case «10» =>
    obtain ⟨hk, ht0, ht2⟩ := hat
    have hq : Quiet n 0 k 10 11 := h.quiet_boot hh (by decide)
    exact ⟨k, h.frame hn hh hq ⟨hk, ht0, ht2, rfl⟩⟩
  case «11» =>
    obtain ⟨hk, ht0, ht2, ht1⟩ := hat
    refine ⟨k + 1, ?_⟩
    show InvAt clint regs A n (k + 1)
      (s.set 0 ⟨12, r⟩ (s.mem.storeW (r .t0 + 0) ((r .t1).setWidth 32)))
    have haddr : r .t0 + 0 = msip clint k := by simp [ht0]
    rw [haddr, ht1]
    exact h.set_flag L hh hk ⟨ht0, ht2⟩
  case «12» =>
    obtain ⟨i, hk, ht0, ht2⟩ := hat
    have hq : Quiet n 0 k 12 13 := h.quiet_boot hh (by decide)
    have hnext : r .t0 + 4 = msip clint k := by rw [ht0, msip_succ, hk]
    exact ⟨k, h.frame hn hh hq ⟨hnext, ht2⟩⟩
  case «13» =>
    obtain ⟨ht0, ht2⟩ := hat
    have hslt : (r .t0).slt (r .t2) = decide (k < n) := by rw [ht0, ht2, slt_msip L h.le]
    refine ⟨k, ?_⟩
    show InvAt clint regs A n k
      (s.set 0 ⟨if (r .t0).slt (r .t2) then 10 else 14, r⟩ s.mem)
    rw [hslt]
    by_cases hk : k < n
    · have hq : Quiet n 0 k 13 10 := h.quiet_boot hh (by decide)
      rw [decide_eq_true hk]
      exact h.frame hn hh hq ⟨hk, ht0, ht2⟩
    · -- all flags are set
      have hkn : k = n := Nat.le_antisymm h.le (Nat.le_of_not_lt hk)
      have hq : Quiet n 0 k 13 14 :=
        ⟨⟨⟨Nat.le_refl k, h.le⟩, fun _ => rfl, fun h => absurd h (by decide),
          fun h0 => absurd rfl h0, fun _ h => absurd h (by decide), fun _ _ => hkn⟩, by decide,
          fun _ _ => by decide, fun _ _ => by decide⟩
      rw [decide_eq_false hk]
      exact h.frame hn hh hq trivial

/-! ### Any hart behind the pause -/

/-- A hart clears its own flag. -/
lemma InvAt.clear_flag (L : Layout clint regs n) (h : InvAt clint regs A n k s) (hj : j < n)
    (hh : s.hart j = ⟨22, r⟩) (hjk : j < k) (ht : r .t0 = clint) :
    InvAt clint regs A n k (s.set j ⟨23, r⟩ (s.mem.storeW (msip clint j) 0)) := by
  have hj0 : j = 0 → (s.hart 0).pc = 22 := by
    rintro rfl
    rw [hh]
  have hpc0 {b : ℕ} (hb : b ≤ 22)
      (hp : b ≤ ((s.set j ⟨23, r⟩ (s.mem.storeW (msip clint j) 0)).hart 0).pc) :
      b ≤ (s.hart 0).pc := by
    by_cases h0 : j = 0
    · rw [hj0 h0]
      exact hb
    · rwa [Machine.set_hart_of_ne _ _ _ (Ne.symm h0)] at hp
  have hm : Move n j k 22 k 23 :=
    ⟨⟨Nat.le_refl k, h.le⟩, fun _ => rfl, fun _ => by decide, fun _ => by decide,
      fun _ h => absurd h (by decide), fun h0 _ => h.full (by rw [hj0 h0]; decide)⟩
  refine h.update hj hh hm ?_ (fun hp => ?_) (fun hp => ?_) (fun l hl => ?_) ⟨hjk, ht⟩
  · exact (load_regs_store_msip L s.mem 0 (Nat.le_refl 76) hj).trans h.num
  · exact (load_regs_store_msip L s.mem 0 (o := 16) (by decide) hj).trans
      (h.lo (hpc0 (by decide) hp))
  · exact (load_regs_store_msip L s.mem 0 (o := 20) (by decide) hj).trans
      (h.hi (hpc0 (by decide) hp))
  · by_cases hlj : l = j
    · subst hlj
      have hc : Cleared (s.set l ⟨23, r⟩ (s.mem.storeW (msip clint l) 0)) l := by
        rw [Cleared, Machine.set_hart_self]
        exact Nat.le_refl 23
      rw [Mem.loadW_storeW_self _ _ _ (by decide), if_neg fun hn => hn.2 hc]
    · have hc : Cleared (s.set j ⟨23, r⟩ (s.mem.storeW (msip clint j) 0)) l = Cleared s l := by
        rw [Cleared, Machine.set_hart_of_ne _ _ _ hlj, Cleared]
      rw [load_msip_store_msip L s.mem 0 hl hj hlj, h.flag l hl]
      simp only [hc]

/-- A flag that is found clear by a hart that has cleared its own, and has found all flags in
front of it cleared, has been cleared. -/
lemma InvAt.cleared_of_zero (h : InvAt clint regs A n k s) (hjk : j < k) {i : ℕ} (hi : i < n)
    (hcl : ∀ l < i, Cleared s l) (hz : s.mem.loadW (msip clint i) = 0) : Cleared s i := by
  have hik : i < k := by
    rcases Nat.eq_zero_or_pos i with rfl | hpos
    · omega
    · -- hart 0 has cleared its flag, so all have been set
      have h0 : clearedPc ≤ (s.hart 0).pc := hcl 0 hpos
      rw [h.full (Nat.le_trans (by decide) h0)]
      exact hi
  by_contra hn
  rw [h.flag i hi, if_pos ⟨hik, hn⟩] at hz
  cases hz

/-- Once all harts have cleared their flags, both halves of the boot address are there. -/
lemma InvAt.scratch (L : Layout clint regs n) (h : InvAt clint regs A n k s)
    (hcl : ∀ l < n, Cleared s l) : s.mem.loadW (regs + 16) = A.setWidth 32 ∧
      s.mem.loadW (regs + 20) = (A >>> 32).setWidth 32 := by
  have h0 : clearedPc ≤ (s.hart 0).pc := hcl 0 L.numHarts.1
  exact ⟨h.lo (Nat.le_trans (by decide) h0), h.hi (Nat.le_trans (by decide) h0)⟩

lemma setWidth_high (A : U64) : ((A >>> 32).setWidth 32).setWidth 64 = A >>> 32 := by
  refine BitVec.eq_of_toNat_eq ?_
  have := A.isLt
  simp only [BitVec.toNat_setWidth, BitVec.toNat_ushiftRight, Nat.shiftRight_eq_div_pow]
  omega

lemma low_or_high (A : U64) : (A.setWidth 32).setWidth 64 ||| A >>> 32 <<< 32 = A := by
  refine BitVec.eq_of_getLsbD_eq fun i hi => ?_
  simp only [BitVec.getLsbD_or, BitVec.getLsbD_setWidth, BitVec.getLsbD_shiftLeft,
    BitVec.getLsbD_ushiftRight]
  by_cases h : i < 32
  · simp [h, hi]
  · have hadd : 32 + (i - 32) = i := by omega
    simp [h, hi, hadd]

/-- A hart waits for its flag, clears it, waits for all flags, and fetches the boot address. -/
theorem InvAt.step_resume (L : Layout clint regs n) (h : InvAt clint regs A n k s) (hj : j < n)
    (hh : s.hart j = ⟨pc, r⟩) (hpc : pausePc ≤ pc) {i : Instr} {csr : Csr → U64} {h' : Hart}
    {m' : Mem 64} (hcode : (bootNextStage clint regs)[pc]? = some i)
    (hcsr : CsrOk clint j s.mem csr) (hexec : i.exec csr ⟨pc, r⟩ s.mem = some (h', m')) :
    InvAt clint regs A n k (s.set j h' m') := by
  have hat := h.here hj hh
  have hle := hat.pc_le
  unfold pausePc at hpc
  interval_cases pc <;> obtain rfl := Option.some.inj hcode
  case «37» => cases hexec
  all_goals obtain ⟨rfl, rfl⟩ := Prod.mk.inj (Option.some.inj hexec)
  case «14» =>
    have hq : Quiet n j k 14 15 := h.quiet hh (by decide)
    exact h.frame hj hh hq trivial
  case «15» =>
    have hq : Quiet n j k 15 16 := h.quiet hh (by decide)
    have hset : csr .mip &&& 0x8 ≠ 0 → j < k := by
      intro hm
      have hbit := hcsr.2.mp hm
      rw [h.flag j hj] at hbit
      by_contra hjk
      rw [if_neg fun hn => hjk hn.1] at hbit
      cases hbit
    exact h.frame hj hh hq hset
  case «16» =>
    have hq : Quiet n j k 16 17 := h.quiet hh (by decide)
    exact h.frame hj hh hq hat
  case «17» =>
    show InvAt clint regs A n k (s.set j ⟨if r .t1 == 0 then 14 else 18, r⟩ s.mem)
    by_cases ht : r .t1 = 0
    · have hq : Quiet n j k 17 14 := h.quiet hh (by decide)
      rw [beq_iff_eq.mpr ht]
      exact h.frame hj hh hq trivial
    · have hq : Quiet n j k 17 18 := h.quiet hh (by decide)
      rw [beq_false_of_ne ht]
      exact h.frame hj hh hq (hat ht)
  case «18» =>
    have hq : Quiet n j k 18 19 := h.quiet hh (by decide)
    exact h.frame hj hh hq ⟨hat, rfl⟩
  case «19» =>
    have hq : Quiet n j k 19 20 := h.quiet hh (by decide)
    exact h.frame hj hh hq ⟨hat.1, hat.2, hcsr.1⟩
  case «20» =>
    obtain ⟨hjk, ht0, ht1⟩ := hat
    have hq : Quiet n j k 20 21 := h.quiet hh (by decide)
    have hshift : r .t1 <<< 2 = .ofNat 64 (4 * j) := by rw [ht1, shiftLeft_two]
    exact h.frame hj hh hq ⟨hjk, ht0, hshift⟩
  case «21» =>
    obtain ⟨hjk, ht0, ht1⟩ := hat
    have hq : Quiet n j k 21 22 := h.quiet hh (by decide)
    have hadd : r .t1 + r .t0 = msip clint j := by rw [ht0, ht1, msip, BitVec.add_comm]
    exact h.frame hj hh hq ⟨hjk, ht0, hadd⟩
  case «22» =>
    obtain ⟨hjk, ht0, ht1⟩ := hat
    show InvAt clint regs A n k (s.set j ⟨23, r⟩ (s.mem.storeW (r .t1 + 0) 0))
    have haddr : r .t1 + 0 = msip clint j := by simp [ht1]
    rw [haddr]
    exact h.clear_flag L hj hh hjk ht0
  case «23» =>
    have hq : Quiet n j k 23 24 := h.quiet hh (by decide)
    exact h.frame hj hh hq ⟨hat.1, hat.2, rfl⟩
  case «24» =>
    obtain ⟨hjk, ht0, ht2⟩ := hat
    have hq : Quiet n j k 24 25 := h.quiet hh (by decide)
    have hnum : (s.mem.loadW (r .t2 + 76)).signExtend 64 = .ofNat 64 n := by
      rw [ht2, h.num, signExtend_num L]
    exact h.frame hj hh hq ⟨hjk, ht0, hnum⟩
  case «25» =>
    obtain ⟨hjk, ht0, ht2⟩ := hat
    have hq : Quiet n j k 25 26 := h.quiet hh (by decide)
    have hshift : r .t2 <<< 2 = .ofNat 64 (4 * n) := by rw [ht2, shiftLeft_two]
    exact h.frame hj hh hq ⟨hjk, ht0, hshift⟩
  case «26» =>
    obtain ⟨hjk, ht0, ht2⟩ := hat
    have hq : Quiet n j k 26 27 := h.quiet hh (by decide)
    have hend : r .t0 + r .t2 = msip clint n := by rw [ht0, ht2, msip]
    have hbase : r .t0 = msip clint 0 := by
      rw [ht0, msip]
      simp
    exact h.frame hj hh hq ⟨hjk, 0, L.numHarts.1, hbase, hend, fun l hl => absurd hl (by omega)⟩
  case «27» =>
    obtain ⟨hjk, i, hi, ht0, ht2, hcl⟩ := hat
    have hq : Quiet n j k 27 28 := h.quiet hh (by decide)
    have hseen : (s.mem.loadW (r .t0 + 0)).signExtend 64 = 0 → Cleared s i := by
      have haddr : r .t0 + 0 = msip clint i := by simp [ht0]
      rw [haddr]
      intro hz
      refine h.cleared_of_zero hjk hi hcl ?_
      rw [h.flag i hi] at hz ⊢
      split at hz
      · exact absurd hz (by decide)
      · rename_i hn
        rw [if_neg hn]
    exact h.frame hj hh hq ⟨hjk, i, hi, ht0, ht2, hcl, hseen⟩
  case «28» =>
    obtain ⟨hjk, i, hi, ht0, ht2, hcl, hseen⟩ := hat
    show InvAt clint regs A n k (s.set j ⟨if r .t1 != 0 then 27 else 29, r⟩ s.mem)
    by_cases ht : r .t1 = 0
    · have hq : Quiet n j k 28 29 := h.quiet hh (by decide)
      rw [bne_eq_false_iff_eq.mpr ht]
      refine h.frame hj hh hq ⟨hjk, i, hi, ht0, ht2, fun l hl => ?_⟩
      rcases Nat.lt_succ_iff_lt_or_eq.mp hl with hl | rfl
      · exact hcl l hl
      · exact hseen ht
    · have hq : Quiet n j k 28 27 := h.quiet hh (by decide)
      rw [bne_iff_ne.mpr ht]
      exact h.frame hj hh hq ⟨hjk, i, hi, ht0, ht2, hcl⟩
  case «29» =>
    obtain ⟨hjk, i, hi, ht0, ht2, hcl⟩ := hat
    have hq : Quiet n j k 29 30 := h.quiet hh (by decide)
    have hnext : r .t0 + 4 = msip clint (i + 1) := by rw [ht0, msip_succ]
    exact h.frame hj hh hq ⟨hjk, i, hi, hnext, ht2, hcl⟩
  case «30» =>
    obtain ⟨hjk, i, hi, ht0, ht2, hcl⟩ := hat
    have hslt : (r .t0).slt (r .t2) = decide (i + 1 < n) := by rw [ht0, ht2, slt_msip L hi]
    show InvAt clint regs A n k (s.set j ⟨if (r .t0).slt (r .t2) then 27 else 31, r⟩ s.mem)
    rw [hslt]
    by_cases hin : i + 1 < n
    · have hq : Quiet n j k 30 27 := h.quiet hh (by decide)
      rw [decide_eq_true hin]
      exact h.frame hj hh hq ⟨hjk, i + 1, hin, ht0, ht2, hcl⟩
    · have hq : Quiet n j k 30 31 := h.quiet hh (by decide)
      rw [decide_eq_false hin]
      exact h.frame hj hh hq ⟨hjk, fun l hl => hcl l (by omega)⟩
  case «31» =>
    have hq : Quiet n j k 31 32 := h.quiet hh (by decide)
    exact h.frame hj hh hq ⟨hat.1, hat.2, rfl⟩
  case «32» =>
    obtain ⟨hjk, hcl, ht0⟩ := hat
    have hq : Quiet n j k 32 33 := h.quiet hh (by decide)
    have hhi : (s.mem.loadW (r .t0 + 20)).setWidth 64 = A >>> 32 := by
      rw [ht0, (h.scratch L hcl).2, setWidth_high]
    exact h.frame hj hh hq ⟨hjk, hcl, ht0, hhi⟩
  case «33» =>
    obtain ⟨hjk, hcl, ht0, ht1⟩ := hat
    have hq : Quiet n j k 33 34 := h.quiet hh (by decide)
    have hshift : r .t1 <<< 32 = A >>> 32 <<< 32 := by rw [ht1]
    exact h.frame hj hh hq ⟨hjk, hcl, ht0, hshift⟩
  case «34» =>
    obtain ⟨hjk, hcl, ht0, ht1⟩ := hat
    have hq : Quiet n j k 34 35 := h.quiet hh (by decide)
    have hlo : (s.mem.loadW (r .t0 + 16)).setWidth 64 = (A.setWidth 32).setWidth 64 := by
      rw [ht0, (h.scratch L hcl).1]
    exact h.frame hj hh hq ⟨hjk, hcl, hlo, ht1⟩
  case «35» =>
    obtain ⟨hjk, hcl, ht0, ht1⟩ := hat
    have hq : Quiet n j k 35 36 := h.quiet hh (by decide)
    have hor : r .t0 ||| r .t1 = A := by rw [ht0, ht1, low_or_high]
    exact h.frame hj hh hq ⟨hjk, hcl, hor⟩
  case «36» =>
    obtain ⟨hjk, hcl, ht0⟩ := hat
    have hq : Quiet n j k 36 37 := h.quiet hh (by decide)
    exact h.frame hj hh hq ⟨hjk, hcl, ht0⟩

/-! ### All runs -/

/-- The invariant holds at the start, before any flag is set. -/
lemma Init.invAt (h : Init clint regs A n s) : InvAt clint regs A n 0 s := by
  obtain ⟨hpc, ha⟩ := h.boot
  refine ⟨Nat.zero_le n, fun _ => rfl, fun hp => ?_, fun j hj h0 => ?_, h.num, fun hp => ?_,
    fun hp => ?_, fun j hj => ?_, fun j hj => ?_⟩
  · rw [hpc] at hp
    exact absurd hp (by decide)
  · exact (h.paused j hj h0).ge
  · omega
  · omega
  · rw [h.flags j hj, if_neg fun hn => Nat.not_lt_zero j hn.1]
  · by_cases h0 : j = 0
    · subst h0
      rw [hpc]
      exact ha
    · rw [h.paused j hj h0]
      trivial

/-- One instruction of one hart. -/
theorem InvAt.step (L : Layout clint regs n) {s' : Machine} (hj : j < n)
    (hs : HartStep (bootNextStage clint regs) (CsrOk clint) j s s')
    (h : InvAt clint regs A n k s) : ∃ k', InvAt clint regs A n k' s' := by
  obtain ⟨i, csr, h', m', hcode, hcsr, hexec, rfl⟩ := hs
  rcases Nat.lt_or_ge (s.hart j).pc pausePc with hp | hp
  · obtain rfl : j = 0 := by
      by_contra h0
      exact absurd hp (Nat.not_lt.mpr (h.others j hj h0))
    exact h.step_boot L rfl hp hcode hexec
  · exact ⟨k, h.step_resume L hj rfl hp hcode hcsr hexec⟩

variable {s₀ : Machine}

theorem Init.reach (L : Layout clint regs n) (h₀ : Init clint regs A n s₀)
    (hr : Reach (bootNextStage clint regs) (CsrOk clint) n s₀ s) :
    ∃ k, InvAt clint regs A n k s := by
  refine Reach.inv (I := fun s => ∃ k, InvAt clint regs A n k s) hr ⟨0, h₀.invAt⟩ ?_
  rintro j s s' hj hs ⟨k, h⟩
  exact h.step L hj hs

/-- A hart that has left the barrier has found all flags cleared. -/
lemma At.all_cleared {cl : ℕ → Prop} (h : At clint regs A n j k cl pc r) (hpc : leftPc ≤ pc) :
    ∀ l < n, cl l := by
  unfold leftPc at hpc
  have hle := h.pc_le
  interval_cases pc
  · exact h.2
  all_goals exact h.2.1

/-- The jump is at the end, and its register holds the boot address. -/
lemma At.jump {cl : ℕ → Prop} (h : At clint regs A n j k cl pc r) {i : Instr} {a : U64}
    (hcode : (bootNextStage clint regs)[pc]? = some i) (ha : i.jump ⟨pc, r⟩ = some a) :
    a = A ∧ ∀ l < n, cl l := by
  have hle := h.pc_le
  interval_cases pc <;> obtain rfl := Option.some.inj hcode
  case «37» =>
    obtain ⟨-, hcl, ht0⟩ := h
    have hget : r .t0 + 0 = a := Option.some.inj ha
    refine ⟨?_, hcl⟩
    rw [← hget, ht0]
    exact BitVec.add_zero A
  all_goals cases ha

/-- The 64-bit address that two words of the registers make up. -/
def joined (lo hi : BitVec 32) : U64 := lo.setWidth 64 ||| hi.setWidth 64 <<< 32

/-- **No hart leaves the barrier before all have woken up and cleared their flags**, whatever the
interleaving, and every hart that jumps jumps to the address that hart 0 was given, which is the
one in `SCRATCH[4]` and `SCRATCH[5]`.  The address is the operand of the `jalr`, of which the hart
drops the lowest bit. -/
theorem barrier_holds (L : Layout clint regs n) (h₀ : Init clint regs A n s₀)
    (hr : Reach (bootNextStage clint regs) (CsrOk clint) n s₀ s) :
    ((∃ j < n, leftPc ≤ (s.hart j).pc) →
      ∀ i < n, wokenPc ≤ (s.hart i).pc ∧ Cleared s i ∧ s.mem.loadW (msip clint i) = 0) ∧
    ∀ j < n, ∀ i a, (bootNextStage clint regs)[(s.hart j).pc]? = some i →
      i.jump (s.hart j) = some a →
      a = A ∧ a = joined (s.mem.loadW (regs + 16)) (s.mem.loadW (regs + 20)) := by
  obtain ⟨k, h⟩ := h₀.reach L hr
  constructor
  · rintro ⟨j, hj, hleft⟩ i hi
    have hcl : ∀ l < n, Cleared s l := (h.at_pc j hj).all_cleared hleft
    refine ⟨Nat.le_trans (by decide) (hcl i hi), hcl i hi, ?_⟩
    rw [h.flag i hi, if_neg fun hn => hn.2 (hcl i hi)]
  · intro j hj i a hcode ha
    obtain ⟨haA, hcl⟩ := (h.at_pc j hj).jump hcode ha
    obtain ⟨hlo, hhi⟩ := h.scratch L hcl
    refine ⟨haA, ?_⟩
    rw [haA, joined, hlo, hhi, setWidth_high, low_or_high]

end Inv

/-! ### Two harts at the addresses of the linker script -/

/-- `__base_clint`. -/
def baseClint : U64 := 0x02040000

/-- `__base_regs`. -/
def baseRegs : U64 := 0x03000000

/-- The status registers as the memory determines them. -/
def csrOf (clint : U64) (j : ℕ) (m : Mem 64) : Csr → U64
  | .mhartid => .ofNat 64 j
  | .mip => if (m.loadW (msip clint j)).getLsbD 0 then 0x8 else 0

lemma csrOk_csrOf (clint : U64) (j : ℕ) (m : Mem 64) : CsrOk clint j m (csrOf clint j m) := by
  refine ⟨rfl, ?_⟩
  rw [csrOf]
  cases (m.loadW (msip clint j)).getLsbD 0 <;> decide

/-- Hart 0 is about to publish an address, hart 1 pauses. -/
def twoHarts : Machine where
  hart j := ⟨if j = 0 then 0 else pausePc, fun r => if r = .a0 then 0x123456789abcdef0 else 0⟩
  mem := Mem.storeW (fun _ => 0) (baseRegs + 76) 2

/-- Hart 0 sets both flags, hart 1 and then hart 0 clear theirs, and hart 0 goes on to the jump. -/
def bootOrder : List ℕ := List.replicate 18 0 ++ List.replicate 9 1 ++ List.replicate 27 0

theorem barrier_holds_twoHarts :
    ∃ s, Reach (bootNextStage baseClint baseRegs) (CsrOk baseClint) 2 twoHarts s ∧
      ((s.hart 0).pc = 37 ∧ (s.hart 1).pc = 23) ∧
      ((∃ j < 2, leftPc ≤ (s.hart j).pc) →
        ∀ i < 2, wokenPc ≤ (s.hart i).pc ∧ Cleared s i ∧ s.mem.loadW (msip baseClint i) = 0) ∧
      ∀ j < 2, ∀ i a, (bootNextStage baseClint baseRegs)[(s.hart j).pc]? = some i →
        i.jump (s.hart j) = some a → a = 0x123456789abcdef0 ∧
          a = joined (s.mem.loadW (baseRegs + 16)) (s.mem.loadW (baseRegs + 20)) := by
  have L : Layout baseClint baseRegs 2 := ⟨by decide, by decide, by decide, by decide⟩
  have h₀ : Init baseClint baseRegs 0x123456789abcdef0 2 twoHarts :=
    ⟨⟨rfl, rfl⟩, by decide, by decide +kernel, by decide +kernel⟩
  have hpcs : (Machine.run (bootNextStage baseClint baseRegs) (csrOf baseClint) bootOrder
      twoHarts).map (fun s => ((s.hart 0).pc, (s.hart 1).pc)) = some (37, 23) := by
    decide +kernel
  obtain ⟨s, hrun, hpc⟩ := Option.map_eq_some_iff.mp hpcs
  have hr : Reach (bootNextStage baseClint baseRegs) (CsrOk baseClint) 2 twoHarts s :=
    Reach.of_run (fun j _ m => csrOk_csrOf baseClint j m) _ _ _ (by decide) hrun
  exact ⟨s, hr, Prod.mk.inj hpc, barrier_holds L h₀ hr⟩

end Cheshire.Sw.Smp
