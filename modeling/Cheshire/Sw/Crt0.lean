import Cheshire.Lib.Rv64Call
import Cheshire.Sw.Base

/-!
The start-up code of the boot software and of the programs it loads (`crt0.S`), on hart 0: from
`_start` through `main` to the return of `_exit`.  The stack and the global pointer of the caller
are saved on the new stack, but the global pointer only after the linked one has replaced it.
-/

namespace Cheshire.Sw.Crt0

open Lib Lib.Rv64 StateTransition

/-! ### The code -/

/-- The symbols of the linker script, and the functions behind `crt0.S`. -/
structure Syms where
  stackPointer : U64
  globalPointer : U64
  bssStart : U64
  bssEnd : U64
  trapHandlerWrap : U64
  main : U64
  baseRegs : U64

variable (syms : Syms)

/-- `_start`, up to the loop over the `.bss` section. -/
def start : List Op :=
  [.csrci .mstatus 10,
   .base (.csrr .t0 .mhartid),
   .base (.beqz .t0 5),
   -- 1:
   .base .wfi,
   .j 3,
   -- 2:
   .mv .t1 .sp,
   .base (.la .t0 syms.stackPointer),
   .base (.beqz .t0 9),
   .mv .sp .t0,
   -- 1:
   .base (.la .t0 syms.globalPointer),
   .base (.beqz .t0 12),
   .mv .gp .t0,
   -- 1:
   .base (.addi .sp .sp (-24)),
   .sd .t1 0 .sp,
   .sd .gp 8 .sp,
   .sd .ra 16 .sp,
   .base (.la .t0 syms.trapHandlerWrap),
   .csrw .mtvec .t0,
   .base (.la .t0 syms.bssStart),
   .base (.la .t1 syms.bssEnd),
   .sub .t2 .t1 .t0,
   .base (.li .a0 0)]

/-- `_zero_bss_loop` and `_zero_bss_rem`. -/
def zeroBss : List Op :=
  [.base (.addi .t4 .t2 (-32)),
   .blez .t2 37,
   .base (.blt .t4 .zero 33),
   .sd .a0 0 .t0,
   .sd .a0 8 .t0,
   .sd .a0 16 .t0,
   .sd .a0 24 .t0,
   .base (.addi .t2 .t2 (-32)),
   .base (.addi .t0 .t0 32),
   .bgt .t2 .zero 22,
   .j 37,
   -- _zero_bss_rem:
   .sb .a0 0 .t0,
   .base (.addi .t2 .t2 (-1)),
   .base (.addi .t0 .t0 1),
   .bgt .t2 .zero 33]

/-- `_fp_init`, up to the call of `main`. -/
def fpInit : List Op :=
  [.base (.li .t1 1),
   .base (.slli .t1 .t1 13),
   .csrs .mstatus .t1,
   .fcvtDL 0 .zero] ++
  ((List.range 31).map fun i => .fmvD (i + 1) 0) ++
  [.csrc .mstatus .t1,
   .base .fence]

/-- `_exit`. -/
def exit : List Op :=
  [.ld .ra 16 .sp,
   .ld .gp 8 .sp,
   .ld .sp 0 .sp,
   .base (.slli .t0 .a0 1),
   .ori .t0 .t0 1,
   .base (.la .t1 syms.baseRegs),
   .base (.sw .t0 8 .t1), -- regs.SCRATCH[2]
   .ret]

/-- `crt0.S`, from `_start` to the end of `_exit`. -/
def crt0 : List Op := start syms ++ zeroBss ++ fpInit ++ [.call syms.main] ++ exit syms

/-- In front of `la t0, __bss_start`. -/
def bssPc : ℕ := 18

/-- `_zero_bss_loop`. -/
def zeroBssPc : ℕ := 22

/-- `_zero_bss_rem`. -/
def zeroBssRemPc : ℕ := 33

/-- `_fp_init`. -/
def fpInitPc : ℕ := 37

/-- The call of `main`. -/
def callPc : ℕ := 74

/-- The return of `_exit`. -/
def retPc : ℕ := 82

variable (env : Env)

/-- Hart 0 runs `crt0.S`. -/
abbrev Runs (syms : Syms) (env : Env) : Hart × Mem 64 → Hart × Mem 64 → Prop :=
  Reaches (next (crt0 syms) env)

/-! ### The entry -/

/-- The frame on the new stack. -/
def frame (syms : Syms) (r : Regs) : U64 :=
  (if syms.stackPointer = 0 then r .sp else syms.stackPointer) - 24

/-- What is saved in the frame. -/
def saved (syms : Syms) (r : Regs) : List Byte :=
  toLe 8 (r .sp).toNat ++
    toLe 8 (if syms.globalPointer = 0 then r .gp else syms.globalPointer).toNat ++
      toLe 8 (r .ra).toNat

/-- A pointer is set when it is linked as nonzero. -/
lemma runs_init (p : ℕ) {sym : U64} {rd : Reg} (hzero : rd ≠ .zero) (ht0 : rd ≠ .t0)
    (hla : (crt0 syms)[p]? = some (.base (.la .t0 sym)))
    (hbeqz : (crt0 syms)[p + 1]? = some (.base (.beqz .t0 (p + 3))))
    (hmv : (crt0 syms)[p + 2]? = some (.mv rd .t0)) (r : Regs) (m : Mem 64) :
    ∃ r', Runs syms env (⟨p, r⟩, m) (⟨p + 3, r'⟩, m) ∧ r' rd = (if sym = 0 then r rd else sym) ∧
      ∀ x, x ≠ rd → x ≠ .t0 → r' x = r x := by
  have h₁ : next (crt0 syms) env (⟨p, r⟩, m) = some (⟨p + 1, setReg r .t0 sym⟩, m) := by
    simp only [next, hla]
    rfl
  have h₂ : next (crt0 syms) env (⟨p + 1, setReg r .t0 sym⟩, m) =
      some (Hart.branch ⟨p + 1, setReg r .t0 sym⟩ (sym == 0) (p + 3), m) := by
    simp only [next, hbeqz]
    rfl
  by_cases h : sym = 0
  · rw [beq_iff_eq.mpr h] at h₂
    refine ⟨setReg r .t0 sym, reaches_of_next h₁ (.single h₂), ?_, fun x _ hx => setReg_of_ne r sym hx⟩
    rw [if_pos h, setReg_of_ne r sym ht0]
  · rw [beq_false_of_ne h] at h₂
    have h₃ : next (crt0 syms) env (⟨p + 2, setReg r .t0 sym⟩, m) =
        some (⟨p + 3, setReg (setReg r .t0 sym) rd sym⟩, m) := by
      simp only [next, hmv]
      rfl
    refine ⟨setReg (setReg r .t0 sym) rd sym, reaches_of_next h₁ (reaches_of_next h₂ (.single h₃)),
      ?_, fun x hx hx' => ?_⟩
    · rw [if_neg h, setReg_self _ _ hzero]
    · rw [setReg_of_ne _ _ hx, setReg_of_ne r sym hx']

/-- The registers of the loop over the `.bss` section are set up. -/
lemma runs_setupBss (r : Regs) (m : Mem 64) : ∃ r', Runs syms env (⟨bssPc, r⟩, m) (⟨zeroBssPc, r'⟩, m) ∧
    r' .sp = r .sp ∧ r' .t0 = syms.bssStart ∧ r' .t2 = syms.bssEnd - syms.bssStart ∧ r' .a0 = 0 :=
  ⟨_, reaches_of_nexts 4 rfl, rfl, rfl, rfl, rfl⟩

/-- **The entry** saves the stack pointer, the global pointer that is current by then, and the
return address. -/
theorem runs_start (h0 : env.csr .mhartid = 0) (r : Regs) (m : Mem 64) :
    ∃ r', Runs syms env (⟨0, r⟩, m) (⟨zeroBssPc, r'⟩, m.write (frame syms r) (saved syms r)) ∧
      r' .sp = frame syms r ∧ r' .t0 = syms.bssStart ∧ r' .t2 = syms.bssEnd - syms.bssStart ∧
        r' .a0 = 0 := by
  -- hart 0 is not parked
  have hpark : Runs syms env (⟨0, r⟩, m) (⟨6, setReg (setReg r .t0 0) .t1 (r .sp)⟩, m) := by
    refine reaches_of_next rfl (reaches_of_next rfl (reaches_of_next rfl ?_))
    show Runs syms env (Hart.branch ⟨2, setReg r .t0 (env.csr .mhartid)⟩ (env.csr .mhartid == 0) 5, m) _
    rw [h0]
    exact reaches_of_nexts 1 rfl
  obtain ⟨r₁, h₁, hsp, hr₁⟩ := runs_init syms env 6 (show Reg.sp ≠ .zero by decide)
    (by decide) rfl rfl rfl (setReg (setReg r .t0 0) .t1 (r .sp)) m
  obtain ⟨r₂, h₂, hgp, hr₂⟩ := runs_init syms env 9 (show Reg.gp ≠ .zero by decide)
    (by decide) rfl rfl rfl r₁ m
  have hgp' : r₂ .gp = if syms.globalPointer = 0 then r .gp else syms.globalPointer := by
    rw [hgp, hr₁ .gp (by decide) (by decide)]
    rfl
  have ht1 : r₂ .t1 = r .sp := by
    rw [hr₂ .t1 (by decide) (by decide), hr₁ .t1 (by decide) (by decide)]
    rfl
  have hra : r₂ .ra = r .ra := by
    rw [hr₂ .ra (by decide) (by decide), hr₁ .ra (by decide) (by decide)]
    rfl
  have hframe : r₂ .sp + -24 = frame syms r := by
    rw [hr₂ .sp (by decide) (by decide), hsp, frame, BitVec.sub_eq_add_neg]
    rfl
  have hsave : Runs syms env (⟨12, r₂⟩, m) (⟨16, setReg r₂ .sp (r₂ .sp + -24)⟩,
      ((m.storeD (r₂ .sp + -24 + 0) (r₂ .t1)).storeD (r₂ .sp + -24 + 8) (r₂ .gp)).storeD
        (r₂ .sp + -24 + 16) (r₂ .ra)) := reaches_of_nexts 4 rfl
  rw [hframe, ht1, hgp', hra] at hsave
  have htrap (r : Regs) (m : Mem 64) : Runs syms env (⟨16, r⟩, m)
      (⟨bssPc, setReg r .t0 syms.trapHandlerWrap⟩, m) := reaches_of_nexts 2 rfl
  have hwrites : m.write (frame syms r) (saved syms r) =
      ((m.storeD (frame syms r + 0) (r .sp)).storeD (frame syms r + 8)
        (if syms.globalPointer = 0 then r .gp else syms.globalPointer)).storeD
          (frame syms r + 16) (r .ra) := by
    unfold saved Mem.storeD
    rw [Mem.write_append _ _ _ _ (by simp), Mem.write_append _ _ _ _ (by simp), List.length_append,
      length_toLe, length_toLe, show frame syms r + 0 = frame syms r from BitVec.add_zero _]
    rfl
  obtain ⟨r', hsetup, hsp', hloop⟩ := runs_setupBss syms env
    (setReg (setReg r₂ .sp (frame syms r)) .t0 syms.trapHandlerWrap) (m.write (frame syms r) (saved syms r))
  rw [hwrites] at hsetup ⊢
  exact ⟨r', hpark.trans (h₁.trans (h₂.trans (hsave.trans ((htrap _ _).trans hsetup)))), hsp', hloop⟩

/-! ### The `.bss` section -/

/-- So many zeros. -/
abbrev zeros (n : ℕ) : List Byte := List.replicate n 0

/-- Zeros behind zeros. -/
lemma write_zeros (m : Mem 64) (a : U64) {i k : ℕ} (h : i + k ≤ 2 ^ 64) :
    (m.write a (zeros i)).write (a + BitVec.ofNat 64 i) (zeros k) = m.write a (zeros (i + k)) := by
  have happ := Mem.write_append m a (zeros i) (zeros k) (by simpa using h)
  rw [List.length_replicate, List.replicate_append_replicate] at happ
  exact happ.symm

lemma toInt_ofNat {k : ℕ} (hk : k < 2 ^ 63) : (BitVec.ofNat 64 k).toInt = k := by
  rw [BitVec.toInt_eq_toNat_of_lt, BitVec.toNat_ofNat, Nat.mod_eq_of_lt (by omega)]
  rw [BitVec.toNat_ofNat]
  omega

/-- A counter is positive when its number is. -/
lemma zero_slt_ofNat {k : ℕ} (hk : k < 2 ^ 63) : (0 : U64).slt (BitVec.ofNat 64 k) = decide (0 < k) := by
  rw [BitVec.slt, toInt_ofNat hk]
  simp

lemma ofNat_sub_ofNat {k j : ℕ} (h : j ≤ k) :
    BitVec.ofNat 64 k + -BitVec.ofNat 64 j = BitVec.ofNat 64 (k - j) := by
  rw [← BitVec.sub_eq_add_neg, BitVec.sub_eq_iff_eq_add, ← BitVec.ofNat_add, Nat.sub_add_cancel h]

/-- A turn of `_zero_bss_rem`. -/
lemma runs_rem_turn (m : Mem 64) (a : U64) {k i : ℕ} {r : Regs} (hk : k + 1 < 2 ^ 63)
    (hi : i + 1 ≤ 2 ^ 64) (ht2 : r .t2 = BitVec.ofNat 64 (k + 1)) (ht0 : r .t0 = a + BitVec.ofNat 64 i)
    (ha0 : r .a0 = 0) : Runs syms env (⟨zeroBssRemPc, r⟩, m.write a (zeros i))
      (⟨if 0 < k then zeroBssRemPc else fpInitPc,
        setReg (setReg r .t2 (BitVec.ofNat 64 k)) .t0 (a + BitVec.ofNat 64 (i + 1))⟩,
        m.write a (zeros (i + 1))) := by
  have hbody (m : Mem 64) : Runs syms env (⟨zeroBssRemPc, r⟩, m)
      (Hart.branch ⟨36, setReg (setReg r .t2 (r .t2 + -1)) .t0 (r .t0 + 1)⟩
        ((0 : U64).slt (r .t2 + -1)) zeroBssRemPc, m.write (r .t0 + 0) [(r .a0).setWidth 8]) :=
    reaches_of_nexts 4 rfl
  have hcount : r .t2 + -1 = BitVec.ofNat 64 k := by
    rw [ht2]
    exact ofNat_sub_ofNat (Nat.le_add_left 1 k)
  have hnext : r .t0 + 1 = a + BitVec.ofNat 64 (i + 1) := by
    rw [ht0, BitVec.ofNat_add, ← BitVec.add_assoc]
    rfl
  have hstore : (m.write a (zeros i)).write (r .t0 + 0) [(r .a0).setWidth 8] =
      m.write a (zeros (i + 1)) := by
    rw [ha0, ht0, show a + BitVec.ofNat 64 i + 0 = a + BitVec.ofNat 64 i from BitVec.add_zero _]
    exact write_zeros m a hi
  have hturn := hbody (m.write a (zeros i))
  rw [hcount, hnext, hstore, zero_slt_ofNat (by omega)] at hturn
  by_cases h : 0 < k <;> simpa [Hart.branch, h, fpInitPc] using hturn

/-- `_zero_bss_rem`, with `k + 1` bytes to go. -/
lemma runs_rem (m : Mem 64) (a : U64) : ∀ (k i : ℕ) (r : Regs), k + 1 < 2 ^ 63 →
    i + (k + 1) ≤ 2 ^ 64 → r .t2 = BitVec.ofNat 64 (k + 1) → r .t0 = a + BitVec.ofNat 64 i →
    r .a0 = 0 → ∃ r', Runs syms env (⟨zeroBssRemPc, r⟩, m.write a (zeros i))
      (⟨fpInitPc, r'⟩, m.write a (zeros (i + (k + 1)))) ∧ r' .sp = r .sp := by
  intro k
  induction k with
  | zero =>
    intro i r hk hi ht2 ht0 ha0
    exact ⟨_, runs_rem_turn syms env m a hk hi ht2 ht0 ha0, rfl⟩
  | succ k ih =>
    intro i r hk hi ht2 ht0 ha0
    have hturn := runs_rem_turn syms env m a hk (by omega) ht2 ht0 ha0
    rw [if_pos (Nat.succ_pos k)] at hturn
    obtain ⟨r', hrest, hsp⟩ := ih (i + 1) (setReg (setReg r .t2 (BitVec.ofNat 64 (k + 1))) .t0
      (a + BitVec.ofNat 64 (i + 1))) (by omega) (by omega) rfl rfl ha0
    rw [show i + 1 + (k + 1) = i + (k + 1 + 1) by omega] at hrest
    exact ⟨r', hturn.trans hrest, hsp⟩

/-- The loop ends, or goes on with single bytes, or with four words. -/
lemma runs_pick (r : Regs) (m : Mem 64) : Runs syms env (⟨zeroBssPc, r⟩, m)
    (⟨if (r .t2).sle 0 then fpInitPc else if (r .t2 + -32).slt 0 then zeroBssRemPc else 25,
      setReg r .t4 (r .t2 + -32)⟩, m) := by
  have h₁ : next (crt0 syms) env (⟨zeroBssPc, r⟩, m) = some (⟨23, setReg r .t4 (r .t2 + -32)⟩, m) := rfl
  have h₂ (r : Regs) : next (crt0 syms) env (⟨23, r⟩, m) =
      some (Hart.branch ⟨23, r⟩ ((r .t2).sle 0) fpInitPc, m) := rfl
  have h₃ (r : Regs) : next (crt0 syms) env (⟨24, r⟩, m) =
      some (Hart.branch ⟨24, r⟩ ((r .t4).slt 0) zeroBssRemPc, m) := rfl
  replace h₂ := h₂ (setReg r .t4 (r .t2 + -32))
  replace h₃ := h₃ (setReg r .t4 (r .t2 + -32))
  rw [setReg_of_ne r _ (by decide)] at h₂
  rw [setReg_self r _ (by decide)] at h₃
  cases h : (r .t2).sle 0 with
  | true =>
    rw [h] at h₂
    rw [if_pos rfl]
    exact reaches_of_next h₁ (.single h₂)
  | false =>
    rw [h] at h₂
    rw [if_neg Bool.false_ne_true]
    cases h' : (r .t2 + -32).slt 0 with
    | true =>
      rw [h'] at h₃
      rw [if_pos rfl]
      exact reaches_of_next h₁ (reaches_of_next h₂ (.single h₃))
    | false =>
      rw [h'] at h₃
      rw [if_neg Bool.false_ne_true]
      exact reaches_of_next h₁ (reaches_of_next h₂ (.single h₃))

/-- Four words of zeros. -/
lemma storeD_zeros (m : Mem 64) (a : U64) {i : ℕ} (hi : i + 32 ≤ 2 ^ 64) :
    ((((m.write a (zeros i)).storeD (a + BitVec.ofNat 64 i + 0) 0).storeD
      (a + BitVec.ofNat 64 i + 8) 0).storeD (a + BitVec.ofNat 64 i + 16) 0).storeD
        (a + BitVec.ofNat 64 i + 24) 0 = m.write a (zeros (i + 32)) := by
  have hword (j : ℕ) (hj : i + j + 8 ≤ 2 ^ 64) :
      (m.write a (zeros (i + j))).storeD (a + BitVec.ofNat 64 i + BitVec.ofNat 64 j) 0 =
        m.write a (zeros (i + j + 8)) := by
    rw [BitVec.add_assoc, ← BitVec.ofNat_add]
    exact write_zeros m a hj
  have h0 := hword 0 (by omega)
  have h8 := hword 8 (by omega)
  have h16 := hword 16 (by omega)
  have h24 := hword 24 (by omega)
  rw [Nat.add_zero] at h0
  calc _ = (((m.write a (zeros (i + 8))).storeD (a + BitVec.ofNat 64 i + 8) 0).storeD
        (a + BitVec.ofNat 64 i + 16) 0).storeD (a + BitVec.ofNat 64 i + 24) 0 := by rw [← h0]; rfl
    _ = ((m.write a (zeros (i + 16))).storeD (a + BitVec.ofNat 64 i + 16) 0).storeD
        (a + BitVec.ofNat 64 i + 24) 0 := by rw [← h8]; rfl
    _ = (m.write a (zeros (i + 24))).storeD (a + BitVec.ofNat 64 i + 24) 0 := by rw [← h16]; rfl
    _ = m.write a (zeros (i + 32)) := h24

/-- The body of `_zero_bss_loop` that stores four words. -/
lemma runs_words (m : Mem 64) (a : U64) {k i : ℕ} {r : Regs} (h32 : 32 ≤ k) (hk : k < 2 ^ 63)
    (hi : i + k ≤ 2 ^ 64) (ht2 : r .t2 = BitVec.ofNat 64 k) (ht0 : r .t0 = a + BitVec.ofNat 64 i)
    (ha0 : r .a0 = 0) : Runs syms env (⟨25, r⟩, m.write a (zeros i))
      (⟨if 32 < k then zeroBssPc else 32, setReg (setReg r .t2 (BitVec.ofNat 64 (k - 32))) .t0
        (a + BitVec.ofNat 64 (i + 32))⟩, m.write a (zeros (i + 32))) := by
  have hcount : r .t2 + -32 = BitVec.ofNat 64 (k - 32) := by
    rw [ht2]
    exact ofNat_sub_ofNat h32
  have hnext : r .t0 + 32 = a + BitVec.ofNat 64 (i + 32) := by
    rw [ht0, BitVec.ofNat_add, ← BitVec.add_assoc]
    rfl
  have hstores (m : Mem 64) : Runs syms env (⟨25, r⟩, m) (⟨29, r⟩,
      (((m.storeD (r .t0 + 0) (r .a0)).storeD (r .t0 + 8) (r .a0)).storeD (r .t0 + 16)
        (r .a0)).storeD (r .t0 + 24) (r .a0)) := reaches_of_nexts 4 rfl
  have hcounts (m : Mem 64) : Runs syms env (⟨29, r⟩, m)
      (Hart.branch ⟨31, setReg (setReg r .t2 (r .t2 + -32)) .t0 (r .t0 + 32)⟩
        ((0 : U64).slt (r .t2 + -32)) zeroBssPc, m) := reaches_of_nexts 3 rfl
  have hstore := hstores (m.write a (zeros i))
  rw [ha0, ht0, storeD_zeros m a (by omega)] at hstore
  have hcount' := hcounts (m.write a (zeros (i + 32)))
  rw [hcount, hnext, zero_slt_ofNat (by omega)] at hcount'
  by_cases h : 32 < k
  · rw [decide_eq_true (by omega)] at hcount'
    rw [if_pos h]
    exact hstore.trans hcount'
  · rw [decide_eq_false (by omega)] at hcount'
    rw [if_neg h]
    exact hstore.trans hcount'

/-- **The loop** clears the bytes that are left. -/
theorem runs_zeroBss (m : Mem 64) (a : U64) : ∀ (n k i : ℕ) (r : Regs), k ≤ n → k < 2 ^ 63 →
    i + k ≤ 2 ^ 64 → r .t2 = BitVec.ofNat 64 k → r .t0 = a + BitVec.ofNat 64 i → r .a0 = 0 →
    ∃ r', Runs syms env (⟨zeroBssPc, r⟩, m.write a (zeros i))
      (⟨fpInitPc, r'⟩, m.write a (zeros (i + k))) ∧ r' .sp = r .sp := by
  intro n
  induction n with
  | zero =>
    intro k i r hn hk _ ht2 _ _
    obtain rfl : k = 0 := by omega
    have hpick := runs_pick syms env r (m.write a (zeros i))
    rw [ht2, if_pos (by decide)] at hpick
    exact ⟨_, hpick, rfl⟩
  | succ n ih =>
    intro k i r hn hk hi ht2 ht0 ha0
    have hpick := runs_pick syms env r (m.write a (zeros i))
    rcases Nat.eq_zero_or_pos k with rfl | hpos
    · exact ih 0 i r (Nat.zero_le n) hk hi ht2 ht0 ha0
    have hle : (BitVec.ofNat 64 k).sle 0 = false := by
      rw [BitVec.sle, toInt_ofNat hk]
      simp
      omega
    rw [ht2, if_neg (Bool.eq_false_iff.mp hle)] at hpick
    by_cases h32 : 32 ≤ k
    · have hneg : (BitVec.ofNat 64 k + -32).slt 0 = false := by
        rw [show BitVec.ofNat 64 k + -32 = BitVec.ofNat 64 (k - 32) from ofNat_sub_ofNat h32,
          BitVec.slt, toInt_ofNat (by omega)]
        simp
      rw [if_neg (Bool.eq_false_iff.mp hneg)] at hpick
      have hwords := runs_words syms env (i := i)
        (r := setReg r .t4 (BitVec.ofNat 64 k + -32)) m a h32 hk hi ht2 ht0 ha0
      by_cases hlast : 32 < k
      · rw [if_pos hlast] at hwords
        obtain ⟨r', hrest, hsp⟩ := ih (k - 32) (i + 32)
          (setReg (setReg (setReg r .t4 (BitVec.ofNat 64 k + -32)) .t2 (BitVec.ofNat 64 (k - 32)))
            .t0 (a + BitVec.ofNat 64 (i + 32))) (by omega) (by omega) (by omega) rfl rfl ha0
        rw [show i + 32 + (k - 32) = i + k by omega] at hrest
        exact ⟨r', hpick.trans (hwords.trans hrest), hsp⟩
      · obtain rfl : k = 32 := by omega
        rw [if_neg hlast] at hwords
        exact ⟨_, hpick.trans (hwords.trans (reaches_of_nexts 1 rfl)), rfl⟩
    · have hneg : (BitVec.ofNat 64 k + -32).slt 0 = true := by
        have hborrow : BitVec.ofNat 64 k + -32 = BitVec.ofNat 64 (k + 2 ^ 64 - 32) := by
          bv_omega
        rw [hborrow, BitVec.slt, decide_eq_true_iff, BitVec.toInt_eq_toNat_cond, BitVec.toNat_ofNat,
          Nat.mod_eq_of_lt (by omega), if_neg (by omega)]
        show _ < (0 : ℤ)
        omega
      rw [if_pos hneg] at hpick
      obtain ⟨j, rfl⟩ : ∃ j, k = j + 1 := ⟨k - 1, by omega⟩
      obtain ⟨r', hrest, hsp⟩ := runs_rem syms env m a j i
        (setReg r .t4 (BitVec.ofNat 64 (j + 1) + -32)) hk hi ht2 ht0 ha0
      exact ⟨r', hpick.trans hrest, hsp⟩

/-- The section is cleared, when its end is not below its start. -/
theorem runs_clearBss (m : Mem 64) {r : Regs} (ht0 : r .t0 = syms.bssStart)
    (ht2 : r .t2 = syms.bssEnd - syms.bssStart) (ha0 : r .a0 = 0) :
    ∃ r', Runs syms env (⟨zeroBssPc, r⟩, m) (⟨fpInitPc, r'⟩, m.write syms.bssStart
      (zeros (syms.bssEnd - syms.bssStart).toInt.toNat)) ∧ r' .sp = r .sp := by
  rw [← ht2]
  by_cases hpos : (r .t2).toInt ≤ 0
  · have hpick := runs_pick syms env r m
    rw [if_pos (show (r .t2).sle 0 = true from decide_eq_true hpos)] at hpick
    rw [Int.toNat_eq_zero.mpr hpos]
    exact ⟨_, hpick, rfl⟩
  · have hlt := BitVec.toInt_lt (x := r .t2)
    have hcount : r .t2 = BitVec.ofNat 64 (r .t2).toInt.toNat := by
      refine BitVec.eq_of_toInt_eq ?_
      rw [toInt_ofNat (by omega)]
      omega
    have hloop := runs_zeroBss syms env m syms.bssStart _ (r .t2).toInt.toNat 0 r
      (Nat.le_refl _) (by omega) (by omega) hcount (by rw [ht0]; exact (BitVec.add_zero _).symm) ha0
    rw [Nat.zero_add] at hloop
    exact hloop

/-! ### From `main` to the return -/

/-- The floating-point registers are cleared. -/
lemma runs_fpInit (r : Regs) (m : Mem 64) : Runs syms env (⟨fpInitPc, r⟩, m)
    (⟨callPc, setReg (setReg r .t1 1) .t1 (1 <<< 13)⟩, m) := by
  have hset : Runs syms env (⟨fpInitPc, r⟩, m)
      (⟨39, setReg (setReg r .t1 1) .t1 (1 <<< 13)⟩, m) := reaches_of_nexts 2 rfl
  have hclear (r : Regs) : Runs syms env (⟨39, r⟩, m) (⟨callPc, r⟩, m) := reaches_of_nexts 35 rfl
  exact hset.trans (hclear _)

/-- What `main` makes of the registers and the memory. -/
def mainResult (syms : Syms) (env : Env) (r : Regs) (m : Mem 64) : Regs × Mem 64 :=
  env.fns syms.main (setReg r .ra (env.place (callPc + 1))) m

/-- `main` is called. -/
lemma runs_call (r : Regs) (m : Mem 64) : Runs syms env (⟨callPc, r⟩, m)
    (⟨callPc + 1, (mainResult syms env r m).1⟩, (mainResult syms env r m).2) := .single rfl

/-- `_exit` restores the three registers from the frame. -/
lemma runs_exit (r : Regs) (m : Mem 64) : ∃ r' m', Runs syms env (⟨callPc + 1, r⟩, m) (⟨retPc, r'⟩, m') ∧
    r' .ra = m.loadD (r .sp + 16) ∧ r' .gp = m.loadD (r .sp + 8) ∧ r' .sp = m.loadD (r .sp) ∧
      r' .a0 = r .a0 := by
  have hloads : Runs syms env (⟨callPc + 1, r⟩, m) (⟨78, setReg (setReg (setReg r .ra
      (m.loadD (r .sp + 16))) .gp (m.loadD (r .sp + 8))) .sp (m.loadD (r .sp + 0))⟩, m) :=
    reaches_of_nexts 3 rfl
  have hstore (r : Regs) : Runs syms env (⟨78, r⟩, m) (⟨retPc, setReg (setReg (setReg r .t0
      (r .a0 <<< 1)) .t0 (r .a0 <<< 1 ||| 1)) .t1 syms.baseRegs⟩,
        m.storeW (syms.baseRegs + 8) ((r .a0 <<< 1 ||| 1).setWidth 32)) := reaches_of_nexts 4 rfl
  rw [show r .sp + 0 = r .sp from BitVec.add_zero _] at hloads
  exact ⟨_, _, hloads.trans (hstore _), rfl, rfl, rfl, rfl⟩

/-! ### The run -/

/-- The address is in the `.bss` section, whose length is taken as a signed number. -/
def InBss (syms : Syms) (x : U64) : Prop :=
  (x - syms.bssStart).toNat < (syms.bssEnd - syms.bssStart).toInt.toNat

instance (syms : Syms) (x : U64) : Decidable (InBss syms x) := by unfold InBss; infer_instance

/-- The memory behind the loop. -/
lemma write_bss_apply (m : Mem 64) (x : U64) : m.write syms.bssStart
    (zeros (syms.bssEnd - syms.bssStart).toInt.toNat) x = if InBss syms x then 0 else m x := by
  split
  · next hin =>
    unfold InBss at hin
    rw [Mem.write, List.getD_eq_getElem _ _ (by simpa using hin), List.getElem_replicate]
  · next hout => exact Mem.write_outside m (by simpa [Mem.Outside, InBss] using hout)

/-- What should be saved in the frame. -/
def wanted (r : Regs) : List Byte :=
  toLe 8 (r .sp).toNat ++ toLe 8 (r .gp).toNat ++ toLe 8 (r .ra).toNat

/-- **The frame holds what it should**, byte by byte: zeros where it lies in the `.bss` section, and
what is saved elsewhere. -/
def FrameKept (syms : Syms) (r : Regs) : Prop :=
  ∀ i < 24, (if InBss syms (frame syms r + BitVec.ofNat 64 i) then 0 else (saved syms r).getD i 0) =
    (wanted r).getD i 0

instance (syms : Syms) (r : Regs) : Decidable (FrameKept syms r) := by
  unfold FrameKept; infer_instance

/-- Control returns to the caller, with the stack pointer, the global pointer and the return address
of the entry, and with what `main` has returned. -/
def ReturnsToCaller (syms : Syms) (env : Env) (r : Regs) (m : Mem 64) : Prop :=
  ∃ h m', (h, m') ∈ eval (next (crt0 syms) env) (⟨0, r⟩, m) ∧ (crt0 syms)[h.pc]? = some .ret ∧
    h.regs .ra = r .ra ∧ h.regs .sp = r .sp ∧ h.regs .gp = r .gp ∧
      ∃ r₁ m₁, Runs syms env (⟨0, r⟩, m) (⟨callPc, r₁⟩, m₁) ∧
        h.regs .a0 = (mainResult syms env r₁ m₁).1 .a0

/-- **A run of `crt0.S`** calls `main` with the cleared `.bss` section behind the frame, and returns
what the frame holds then. -/
theorem runs_crt0 (h0 : env.csr .mhartid = 0) (hmain : Obeys 24 (env.fns syms.main)) (r : Regs)
    (m : Mem 64) : ∃ r₁ m₁ r' m', Runs syms env (⟨0, r⟩, m) (⟨callPc, r₁⟩, m₁) ∧
      Runs syms env (⟨callPc, r₁⟩, m₁) (⟨retPc, r'⟩, m') ∧
        m₁ = (m.write (frame syms r) (saved syms r)).write syms.bssStart
          (zeros (syms.bssEnd - syms.bssStart).toInt.toNat) ∧
        r' .ra = m₁.loadD (frame syms r + 16) ∧ r' .gp = m₁.loadD (frame syms r + 8) ∧
          r' .sp = m₁.loadD (frame syms r) ∧ r' .a0 = (mainResult syms env r₁ m₁).1 .a0 := by
  obtain ⟨ra, hstart, hsp, ht0, ht2, ha0⟩ := runs_start syms env h0 r m
  obtain ⟨rb, hbss, hsp'⟩ := runs_clearBss syms env (m.write (frame syms r) (saved syms r))
    ht0 ht2 ha0
  have hcall := (hstart.trans hbss).trans (runs_fpInit syms env rb _)
  generalize hm₁ : (m.write (frame syms r) (saved syms r)).write syms.bssStart
    (zeros (syms.bssEnd - syms.bssStart).toInt.toNat) = m₁ at hcall
  generalize hr₁ : setReg (setReg rb .t1 1) .t1 (1 <<< 13) = r₁ at hcall
  have hframe : r₁ .sp = frame syms r := by
    rw [← hr₁, ← hsp, ← hsp']
    rfl
  -- `main` leaves the stack pointer and the frame alone
  have hsp₂ : (mainResult syms env r₁ m₁).1 .sp = frame syms r := by
    rw [← hframe]
    exact hmain.saved _ m₁ .sp (by decide)
  have hkept : ∀ i < 24, (mainResult syms env r₁ m₁).2 (frame syms r + BitVec.ofNat 64 i) =
      m₁ (frame syms r + BitVec.ofNat 64 i) := by
    intro i hi
    refine hmain.frame _ m₁ _ ?_
    rw [setReg_of_ne _ _ (by decide), hframe, Mem.Outside,
      Mem.toNat_add_sub_self _ (Nat.lt_trans hi (by decide))]
    omega
  have hload (o : ℕ) (ho : o + 8 ≤ 24) :
      (mainResult syms env r₁ m₁).2.loadD (frame syms r + BitVec.ofNat 64 o) =
        m₁.loadD (frame syms r + BitVec.ofNat 64 o) := by
    unfold Mem.loadD
    refine congrArg _ (congrArg _ (Mem.slice_congr fun i hi => ?_))
    rw [BitVec.add_assoc, ← BitVec.ofNat_add]
    exact hkept (o + i) (by omega)
  obtain ⟨r', m', hexit, hra, hgp, hsp', ha0'⟩ := runs_exit syms env
    (mainResult syms env r₁ m₁).1 (mainResult syms env r₁ m₁).2
  have h8 := hload 8 (by decide)
  have h16 := hload 16 (by decide)
  have hzero := hload 0 (by decide)
  rw [show frame syms r + BitVec.ofNat 64 0 = frame syms r from BitVec.add_zero _] at hzero
  rw [hsp₂] at hra hgp hsp'
  exact ⟨r₁, m₁, r', m', hcall, (runs_call syms env r₁ m₁).trans hexit, rfl, hra.trans h16, hgp.trans h8,
    hsp'.trans hzero, ha0'⟩

lemma length_saved (r : Regs) : (saved syms r).length = 24 := by simp [saved]

lemma length_wanted (r : Regs) : (wanted r).length = 24 := by simp [wanted]

/-- What is in the frame when `main` is called. -/
lemma frameKept_iff (r : Regs) (m : Mem 64) : FrameKept syms r ↔
    ((m.write (frame syms r) (saved syms r)).write syms.bssStart
      (zeros (syms.bssEnd - syms.bssStart).toInt.toNat)).slice (frame syms r) 24 = wanted r := by
  have hbyte (i : ℕ) (hi : i < 24) : ((m.write (frame syms r) (saved syms r)).write syms.bssStart
      (zeros (syms.bssEnd - syms.bssStart).toInt.toNat)) (frame syms r + BitVec.ofNat 64 i) =
      if InBss syms (frame syms r + BitVec.ofNat 64 i) then 0 else (saved syms r).getD i 0 := by
    have hsaved := @Mem.write_apply 64 m (frame syms r) (saved syms r) i
      (by rw [length_saved]; exact hi) (by omega)
    rw [write_bss_apply, hsaved, List.getD_eq_getElem]
  constructor
  · intro h
    refine List.ext_getElem (by rw [Mem.length_slice, length_wanted]) fun i h₁ h₂ => ?_
    rw [length_wanted] at h₂
    rw [Mem.getElem_slice, hbyte i h₂, h i h₂, List.getD_eq_getElem]
  · intro h i hi
    rw [← hbyte i hi, ← h, Mem.getD_slice _ _ hi]

/-- The frame is three words. -/
lemma slice_eq_wanted_iff (m : Mem 64) (a : U64) (r : Regs) : m.slice a 24 = wanted r ↔
    m.loadD a = r .sp ∧ m.loadD (a + 8) = r .gp ∧ m.loadD (a + 16) = r .ra := by
  have hsplit : m.slice a 24 = m.slice a 8 ++ m.slice (a + 8) 8 ++ m.slice (a + 16) 8 := by
    rw [show 24 = 8 + 8 + 8 from rfl, Mem.slice_append, Mem.slice_append]
    rfl
  rw [hsplit, wanted, Mem.loadD_eq_iff, Mem.loadD_eq_iff, Mem.loadD_eq_iff]
  constructor
  · intro h
    obtain ⟨h', hra⟩ := List.append_inj h (by simp)
    obtain ⟨hsp, hgp⟩ := List.append_inj h' (by simp)
    exact ⟨hsp, hgp, hra⟩
  · rintro ⟨hsp, hgp, hra⟩
    rw [hsp, hgp, hra]

/-- **The caller gets its registers back exactly when** the frame keeps what it should hold. -/
theorem returnsToCaller_iff (h0 : env.csr .mhartid = 0) (hmain : Obeys 24 (env.fns syms.main))
    (r : Regs) (m : Mem 64) : ReturnsToCaller syms env r m ↔ FrameKept syms r := by
  obtain ⟨r₁, m₁, r', m', hcall, hret, hm₁, hra, hgp, hsp, ha0⟩ :=
    runs_crt0 syms env h0 hmain r m
  have heval : (⟨retPc, r'⟩, m') ∈ eval (next (crt0 syms) env) (⟨0, r⟩, m) :=
    mem_eval.mpr ⟨hcall.trans hret, rfl⟩
  rw [frameKept_iff syms r m, ← hm₁, slice_eq_wanted_iff, ← hsp, ← hgp, ← hra]
  constructor
  · rintro ⟨h, m'', hmem, -, hra', hsp', hgp', -⟩
    obtain ⟨rfl, rfl⟩ := Prod.mk.inj (Part.mem_unique hmem heval)
    exact ⟨hsp', hgp', hra'⟩
  · rintro ⟨hsp', hgp', hra'⟩
    exact ⟨⟨retPc, r'⟩, m', heval, rfl, hra', hsp', hgp', r₁, m₁, hcall, ha0⟩

/-- A program in the SPM that keeps the stack of its caller, with the given global pointer. -/
def sampleSyms (globalPointer : U64) : Syms where
  stackPointer := 0
  globalPointer
  bssStart := 0x1000_0400
  bssEnd := 0x1000_0440
  trapHandlerWrap := 0x1000_0200
  main := 0x1000_0300
  baseRegs := 0x0300_0000

/-- A `main` that returns 42. -/
def sampleEnv : Env where
  place pc := 0x1000_0000 + BitVec.ofNat 64 (4 * pc)
  fns _ r m := (setReg r .a0 42, m)
  csr _ := 0

/-- The registers of the boot ROM. -/
def sampleRegs : Regs
  | .sp => 0x1000_FFF8
  | .gp => 0x0200_1800
  | .ra => 0x0200_0420
  | _ => 0

lemma obeys_sampleEnv (sym : U64) : Obeys 24 (sampleEnv.fns sym) where
  saved r m x hx := setReg_of_ne r 42 (by rintro rfl; revert hx; decide)
  frame _ _ _ _ := rfl

/-- Without a linked global pointer the boot ROM gets its own back. -/
theorem returnsToCaller_unlinked :
    ReturnsToCaller (sampleSyms 0) sampleEnv sampleRegs (fun _ => 0) :=
  (returnsToCaller_iff _ _ rfl (obeys_sampleEnv _) _ _).mpr (by decide)

/-- With one, the boot ROM goes on with the global pointer of the program. -/
theorem not_returnsToCaller_linked :
    ¬ ReturnsToCaller (sampleSyms 0x1000_0C00) sampleEnv sampleRegs (fun _ => 0) := by
  rw [returnsToCaller_iff _ _ rfl (obeys_sampleEnv _)]
  decide

end Cheshire.Sw.Crt0
