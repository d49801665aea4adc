import Cheshire.Lib.Rv64
import Cheshire.Sw.Base

/-!
The SMP barrier of the boot ROM (`smp.h`, and `boot_next_stage` of `cheshire_bootrom.S`).
-/

namespace Cheshire.Sw.Smp

open Lib Lib.Rv64

/-- The macro `smp_resume`, assembled from the place `base` on; its labels `1`, `2` and `3` are the
places `base + 5`, `base + 9` and `base + 22`. -/
def smpResume (clint regs : U64) (base : ℕ) (reg1 reg2 reg3 : Reg) : List Instr :=
  [.la reg1 clint,
   .la reg3 regs,
   .lw reg3 76 reg3, -- regs.NUM_INT_HARTS
   .slli reg3 reg3 2,
   .add reg3 reg1 reg3,
   -- 1:
   .li reg2 1,
   .sw reg2 0 reg1,
   .addi reg1 reg1 4,
   .blt reg1 reg3 (base + 5),
   -- 2:
   .wfi,
   .csrr reg2 .mip,
   .andi reg2 reg2 0x8,
   .beqz reg2 (base + 9),
   .la reg1 clint,
   .csrr reg2 .mhartid,
   .slli reg2 reg2 2,
   .add reg2 reg2 reg1,
   .sw .zero 0 reg2,
   .la reg3 regs,
   .lw reg3 76 reg3, -- regs.NUM_INT_HARTS
   .slli reg3 reg3 2,
   .add reg3 reg1 reg3,
   -- 3:
   .lw reg2 0 reg1,
   .bnez reg2 (base + 22),
   .addi reg1 reg1 4,
   .blt reg1 reg3 (base + 22)]

/-- `boot_next_stage`. -/
def bootNextStage (clint regs : U64) : List Instr :=
  [.la .t0 regs,
   .sw .a0 16 .t0, -- regs.SCRATCH[4]
   .srli .a0 .a0 32,
   .sw .a0 20 .t0, -- regs.SCRATCH[5]
   .fence] ++
  smpResume clint regs 5 .t0 .t1 .t2 ++
  [.la .t0 regs,
   .lwu .t1 20 .t0, -- regs.SCRATCH[5]
   .slli .t1 .t1 32,
   .lwu .t0 16 .t0, -- regs.SCRATCH[4]
   .or .t0 .t0 .t1,
   .csrr .a0 .mhartid,
   .jalr .ra 0 .t0]

/-- The label `2` of `smp_resume`, where `smp_pause` sends all harts but the first. -/
def pausePc : ℕ := 14

/-- The place behind the loop in which a hart waits for its flag. -/
def wokenPc : ℕ := 18

/-- The place behind the store with which a hart clears its flag. -/
def clearedPc : ℕ := 23

/-- The place behind `smp_resume`. -/
def leftPc : ℕ := 31

/-- The `msip` word of a hart. -/
def msip (clint : U64) (j : ℕ) : U64 := clint + .ofNat 64 (4 * j)

/-- A machine with `n` harts, whose `msip` words do not collide with the registers of the SoC. -/
structure Layout (clint regs : U64) (n : ℕ) : Prop where
  numHarts : 1 ≤ n ∧ n < 2 ^ 31
  clintLt : clint.toNat + 4 * n < 2 ^ 63
  regsLt : regs.toNat + 80 < 2 ^ 63
  apart : clint.toNat + 4 * n ≤ regs.toNat ∨ regs.toNat + 80 ≤ clint.toNat

/-- Hart 0 enters `boot_next_stage` with the address `A`, the others pause, no flag is set. -/
structure Init (clint regs A : U64) (n : ℕ) (s : Machine) : Prop where
  boot : (s.hart 0).pc = 0 ∧ (s.hart 0).regs .a0 = A
  paused : ∀ j < n, j ≠ 0 → (s.hart j).pc = pausePc
  flags : ∀ j < n, s.mem.loadW (msip clint j) = 0
  num : s.mem.loadW (regs + 76) = .ofNat 32 n

/-- `mhartid` is the number of the hart, and `mip.MSIP` its `msip` word. -/
def CsrOk (clint : U64) (j : ℕ) (m : Mem 64) (csr : Csr → U64) : Prop :=
  csr .mhartid = .ofNat 64 j ∧
    (csr .mip &&& 0x8 ≠ 0 ↔ (m.loadW (msip clint j)).getLsbD 0 = true)

end Cheshire.Sw.Smp
