import Cheshire.Sim.Handshake
import Cheshire.Sim.JtagPreload
import Cheshire.Sim.UartExec
import Cheshire.Sw.Crt0

/-!
The exit code of a program, from what `main` returns to what the testbench decodes: over JTAG and
the serial link from the word that `_exit` stores in `scratch[2]`, over the UART from the four
bytes that the debug server sends.
-/

namespace Cheshire.Sim.ExitCode

open Lib Lib.Rv64 Sw

/-! ### The two `_exit`s -/

/-- `__base_regs`. -/
def baseRegs : U64 := 0x0300_0000

/-- `_exit` of the boot ROM. -/
def bootromExit : List Op :=
  [.base (.slli .a0 .a0 1),
   .ori .a0 .a0 1,
   .base (.la .t0 baseRegs),
   .base (.sw .a0 8 .t0), -- regs.SCRATCH[2]
   -- 1:
   .base .wfi,
   .j 4]

/-- `_exit` of `crt0.S` up to its return, with what `main` has returned in `a0`. -/
def crt0Exit (syms : Crt0.Syms) (env : Env) (r : Regs) (m : Mem 64) : Option (Hart × Mem 64) :=
  nexts (Crt0.crt0 syms) env 7 (⟨Crt0.callPc + 1, r⟩, m)

/-- The one of the boot ROM, up to its last loop. -/
def bootromRun (env : Env) (r : Regs) (m : Mem 64) : Option (Hart × Mem 64) :=
  nexts bootromExit env 4 (⟨0, r⟩, m)

/-! ### The host -/

/-- What `SBData0` holds behind a write of `SBAddress0` that reads the word there. -/
def sbData0 (d : Jtag.Dm) : BitVec 32 :=
  BitVec.ofNat 32 (ofLe (d.mem.slice d.sbAddress (2 ^ d.sbcs.sbaccess)))

/-- A turn of the loop of `jtag_poll_bit0`: the data, when the loop ends with it. -/
def jtagPollBit0 (addr : BitVec 64) (d : Jtag.Dm) : Option (BitVec 32) :=
  let d := Jtag.jtagWrite d (.sbcs ⟨false, true, false, 2⟩)
  let d := Jtag.jtagWrite d (.sbAddress1 (addr.extractLsb' 32 32))
  let d := Jtag.jtagWrite d (.sbAddress0 (addr.extractLsb' 0 32))
  let data := sbData0 d
  if data.getLsbD 0 then some data else none

/-- `CHESHIRE_SCRATCH_2_OFFSET` from `AmRegs`. -/
def scratch2 : BitVec 64 := 0x0300_0008

/-- `jtag_wait_for_eoc`, in a turn of its poll. -/
def jtagWaitForEoc (d : Jtag.Dm) : Option (BitVec 32) := do
  let exitCode ← jtagPollBit0 scratch2 d
  return exitCode >>> 1

/-- `slink_wait_for_eoc`, in a turn of its poll. -/
def slinkWaitForEoc (m : Mem 48) : Option (BitVec 32) := do
  let exitCode ← Slink.slinkPollBit0 (Slink.scratchAddr 2) m
  return exitCode >>> 1

/-- The memory of a core, as the 48 address bits of the bus see it. -/
def onBus (m : Mem 64) : Mem 48 := fun a => m (a.setWidth 64)

/-! ### Success and failure -/

/-- The host decodes a code from this memory, which is nonzero exactly when `r` is. -/
structure DecodesOk (r : BitVec 32) (m : Mem 64) : Prop where
  jtag : ∀ d : Jtag.Dm, d.mem = m → ∃ code, jtagWaitForEoc d = some code ∧ (code ≠ 0 ↔ r ≠ 0)
  slink : ∃ code, slinkWaitForEoc (onBus m) = some code ∧ (code ≠ 0 ↔ r ≠ 0)

/-- **All modes agree** on the success of a program whose `main` returns `r`. -/
structure ExitOk (r : BitVec 32) : Prop where
  crt0 : ∀ (syms : Crt0.Syms) (env : Env) (regs : Regs) (m m' : Mem 64) (h : Hart),
    syms.baseRegs = baseRegs → (regs .a0).setWidth 32 = r →
    crt0Exit syms env regs m = some (h, m') → DecodesOk r m' ∧
      (Uart.assemble (toLe 4 ((h.regs .a0).setWidth 32 : BitVec 32).toNat) ≠ 0 ↔ r ≠ 0)
  bootrom : ∀ (env : Env) (regs : Regs) (m m' : Mem 64) (h : Hart), (regs .a0).setWidth 32 = r →
    bootromRun env regs m = some (h, m') → DecodesOk r m'

section Word

variable {r : BitVec 32}

/-- What `crt0.S` leaves. -/
lemma crt0Exit_eq (syms : Crt0.Syms) (env : Env) (regs : Regs) (m : Mem 64) :
    ∃ regs', crt0Exit syms env regs m = some (⟨Crt0.retPc, regs'⟩,
      m.storeW (syms.baseRegs + 8) (Slink.exitWord (regs .a0))) ∧ regs' .a0 = regs .a0 :=
  ⟨_, rfl, rfl⟩

/-- What the boot ROM leaves. -/
lemma bootromRun_eq (env : Env) (regs : Regs) (m : Mem 64) :
    ∃ regs', bootromRun env regs m = some (⟨4, regs'⟩,
      m.storeW (baseRegs + 8) (Slink.exitWord (regs .a0))) := ⟨_, rfl⟩

/-- A poll over JTAG reads the word in memory. -/
lemma jtagPollBit0_eq (addr : BitVec 64) (d : Jtag.Dm) : jtagPollBit0 addr d =
    if (d.mem.loadW addr).getLsbD 0 then some (d.mem.loadW addr) else none := by
  have haddr := Jtag.sbAddress_writes (Jtag.jtagWrite d (.sbcs ⟨false, true, false, 2⟩)) addr
  unfold jtagPollBit0 sbData0
  simp only
  rw [haddr]
  rfl

/-- The serial link sees the same word. -/
lemma scratch_onBus (m : Mem 64) : Slink.scratch (onBus m) 2 = m.loadW scratch2 := by
  have haddr : ∀ i < 4, (Slink.scratchAddr 2 + BitVec.ofNat 48 i).setWidth 64 =
      scratch2 + BitVec.ofNat 64 i := by decide
  have hslice : (onBus m).slice (Slink.scratchAddr 2) 4 = m.slice scratch2 4 :=
    List.map_congr_left fun i hi => congrArg m (haddr i (List.mem_range.mp hi))
  rw [Slink.scratch, hslice]
  rfl

lemma exitWord_getLsbD_zero (a0 : U64) : (Slink.exitWord a0).getLsbD 0 = true := by
  simp [Slink.exitWord]

/-- The codes that the host decodes from the word of `_exit` are the lower 31 bits. -/
lemma decodes_exitWord (a0 : U64) (m : Mem 64) (d : Jtag.Dm)
    (hd : d.mem = m.storeW scratch2 (Slink.exitWord a0)) :
    jtagWaitForEoc d = some (Slink.exitWord a0 >>> 1) ∧
      slinkWaitForEoc (onBus d.mem) = some (Slink.exitWord a0 >>> 1) := by
  have hword : d.mem.loadW scratch2 = Slink.exitWord a0 := by
    rw [hd]
    exact Mem.loadW_storeW_self m scratch2 _ (by decide)
  have hbit := exitWord_getLsbD_zero a0
  constructor
  · rw [jtagWaitForEoc, jtagPollBit0_eq, hword, if_pos hbit]
    rfl
  · rw [slinkWaitForEoc, Slink.slinkPollBit0_scratch, scratch_onBus, hword, if_pos hbit]
    rfl

lemma exitCode_ne_zero_iff {a0 : U64} (h : a0.setWidth 32 = r) (hr : r ≠ 0x80000000) :
    Slink.exitWord a0 >>> 1 ≠ 0 ↔ r ≠ 0 := by
  have hcode := Slink.toNat_exitCode r
  have hlt := r.isLt
  have hmin : r.toNat ≠ 2 ^ 31 := fun hmin => hr (BitVec.eq_of_toNat_eq hmin)
  rw [Slink.exitWord_eq h, not_iff_not, ← BitVec.toNat_inj, ← BitVec.toNat_inj, hcode]
  show _ = 0 ↔ _ = 0
  omega

/-- **Every word of `_exit` but one** is decoded to the success it stands for. -/
lemma decodesOk_exitWord {a0 : U64} (h : a0.setWidth 32 = r) (hr : r ≠ 0x80000000) (m : Mem 64) :
    DecodesOk r (m.storeW scratch2 (Slink.exitWord a0)) where
  jtag d hd := ⟨_, (decodes_exitWord a0 m d hd).1, exitCode_ne_zero_iff h hr⟩
  slink := ⟨_, (decodes_exitWord a0 m ⟨Jtag.jtagInitSbcs, 0, 0, _⟩ rfl).2,
    exitCode_ne_zero_iff h hr⟩

end Word

/-- A `main` that has returned `r`. -/
def returnRegs (r : BitVec 32) : Regs
  | .a0 => r.signExtend 64
  | _ => 0

/-- The least integer is decoded as a zero. -/
lemma not_exitOk_of_min {r : BitVec 32} (hr : r = 0x80000000) : ¬ ExitOk r := by
  subst hr
  intro h
  obtain ⟨regs', heq, -⟩ :=
    crt0Exit_eq (Crt0.sampleSyms 0) Crt0.sampleEnv (returnRegs 0x80000000) fun _ => 0
  obtain ⟨code, hcode, hzero⟩ := (h.crt0 _ _ _ _ _ _ rfl (by decide) heq).1.slink
  have hdecoded := (decodes_exitWord (returnRegs 0x80000000 .a0) (fun _ => 0)
    ⟨Jtag.jtagInitSbcs, 0, 0, _⟩ rfl).2
  obtain rfl := Option.some.inj (hdecoded.symm.trans hcode)
  exact hzero.mpr (by decide) (by decide)

/-- **Success and failure** of a program are told apart in all modes exactly when it does not
return the least integer, of which the word in `scratch[2]` has no bit left. -/
theorem exitOk_iff (r : BitVec 32) : ExitOk r ↔ r ≠ 0x80000000 := by
  constructor
  · exact fun h hr => not_exitOk_of_min hr h
  · intro hr
    refine ⟨fun syms env regs m m' h hbase ha0 hrun => ?_, fun env regs m m' h ha0 hrun => ?_⟩
    · obtain ⟨regs', heq, hkept⟩ := crt0Exit_eq syms env regs m
      rw [heq] at hrun
      obtain ⟨rfl, rfl⟩ := Prod.mk.inj (Option.some.inj hrun)
      rw [hbase]
      refine ⟨decodesOk_exitWord ha0 hr m, ?_⟩
      show Uart.assemble (toLe 4 ((regs' .a0).setWidth 32 : BitVec 32).toNat) ≠ 0 ↔ r ≠ 0
      rw [hkept, ha0, Uart.assemble_toLe]
    · obtain ⟨regs', heq⟩ := bootromRun_eq env regs m
      rw [heq] at hrun
      obtain ⟨rfl, rfl⟩ := Prod.mk.inj (Option.some.inj hrun)
      exact decodesOk_exitWord ha0 hr m

/-- `INT_MIN` is reported as a success over JTAG and the serial link. -/
theorem not_exitOk_intMin : ¬ ExitOk 0x80000000 := not_exitOk_of_min rfl

end Cheshire.Sim.ExitCode
