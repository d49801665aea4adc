import Cheshire.Lib.Rv64
import Cheshire.Sw.BootChain
import Cheshire.Sw.BootEeprom
import Cheshire.Sw.ClintBoot

/-!
`main` of the boot ROM: the boot mode and the reference clock are read from the registers, the core
frequency is measured, and each of the three autonomous boots gets what has been measured.  How far
that may be off decides what core a boot works on.
-/

namespace Cheshire.Sw.Boot

open Lib Lib.Rv64 Gpt GptMem
open Clint (Half Timed FreqNear Steady reading counted toNat_rtcFreq)
open I2c (Prompt SetsUp)

/-! ### The code -/

/-- The devices of a board, with the parameters of their hosts. -/
structure Board (σ κ : Type) where
  card : SpiSdcard.SetupDif σ
  flash : SpiS25fs512s.Dif σ
  flashHost : HostSetup σ
  eeprom : I2c.Dif σ
  eepromSetup : I2c.Setup σ κ
  /-- What the time that passes does to the devices. -/
  elapse : U64 → σ → σ
  /-- `SPI_HOST_PARAM_NUM_C_S` -/
  numCs : CInt
  /-- The depth of the FIFOs of the SPI host. -/
  spiDepth : ℕ+
  /-- `I2C_PARAM_FIFO_DEPTH` -/
  i2cDepth : U64
  /-- What C leaves open in the driver of the card. -/
  undef : SpiSdcard.Undefined
  /-- Where the swap buffer of the card's driver lies. -/
  swap : U64 → U64

section Code

variable {σ κ : Type} (b : Board σ κ) (first : Half) (vars : Vars) (ptrs : BootPtrs)
  (passive : U64 → GptMem.PollM (St σ) Launch) (fuel : ℕ)

/-- `*reg32(&__base_regs, offs)`. -/
def loadReg (offs : U64) : GptMem.PollM (St σ) U32 := fun s =>
  .ok (s.mem.loadW (0x0300_0000 + offs)) s

/-- `boot_i2c_24fc1025`, which leaves the CLINT alone. -/
def bootEeprom (coreFreq : U64) : GptMem.PollM (St σ) Launch :=
  zoom (fun s => ⟨s.mem, s.dev⟩) (fun t s => ⟨t.mem, t.dev, s.clint⟩) id
    (bootI2c24fc1025 b.i2cDepth vars ptrs fuel b.eeprom b.eepromSetup coreFreq)

/-- The `switch` of `main`, with `boot_passive` and the variables and the pointers of the boots as
parameters. -/
def boot (bootmode rtcFreq : U32) (coreFreq : U64) : GptMem.PollM (St σ) Launch :=
  if bootmode = 1 then
    bootSpiSdcard b.elapse b.numCs b.spiDepth first vars ptrs fuel b.card b.undef b.swap coreFreq
      (rtcFreq.setWidth 64)
  else if bootmode = 2 then
    bootSpiS25fs512s b.elapse b.numCs b.spiDepth first vars ptrs fuel b.flash b.flashHost coreFreq
      (rtcFreq.setWidth 64)
  else if bootmode = 3 then bootEeprom b vars ptrs fuel coreFreq
  else passive coreFreq

/-- `main`. -/
def main : GptMem.PollM (St σ) Launch := do
  let bootmode ← loadReg 0x40 -- regs.BOOT_MODE
  let rtcFreq ← loadReg 0x44 -- regs.RTC_FREQ
  let coreFreq ← onClint b.elapse (Clint.clintGetCoreFreq first fuel (rtcFreq.setWidth 64) 2500)
  boot b first vars ptrs passive fuel bootmode rtcFreq coreFreq

end Code

/-! ### The media of the boot modes -/

/-- How far the measured frequency may be off, of reads of the timer `D` cycles apart. -/
def freqError (D : ℕ) (rtcFreq : U32) : ℕ := 2 * D * rtcFreq.toNat / counted rtcFreq + 1

/-- **What a boot mode boots from**: the device that it reads, up and running or not yet, on a core
of `C` cycles in each tick of the reference clock.  The card takes a core that is measured at 24 MHz
or more, the flash one at 4 Hz or more, the EEPROM one at 1 GHz or less. -/
inductive Source {σ κ : Type} (b : Board σ κ) (rtcFreq : U32) (C D : ℕ) (d : σ) :
    (bootmode : U32) → (own : U64 → Prop) → Vars → (disk : Mem 64) → (U64 → U64 → ℕ → Prop) → Prop
  | sdcard {content : ℕ → Byte} {served : Set ℕ} {coming : σ → Stream' Byte}
      {view : σ → SpiSdcard.View} {bus : σ → SpiSdcard.Bus} {Up : σ → Prop} {vars : Vars}
      {lo hi : ℕ} (hc : BootCard b.spiDepth b.card (sdcard b.numCs) b.undef content served b.elapse
        coming view bus Up)
      (hcs : (0 : CInt).slt b.numCs = true) (hoff : ∀ t, (view (b.elapse t d)).stage = .off)
      (hf : Frame b.swap vars lo hi)
      (hcore : 24000000 + freqError D rtcFreq ≤ C * rtcFreq.toNat) :
      Source b rtcFreq C D d 1 (OnStack lo hi) vars (cardDisk content) (OnCard served)
  | flash {content : Mem 32} {clock : σ → U64} {on : σ → Bool} {Up : σ → Prop} {vars : Vars}
      (hf : BootFlash b.spiDepth b.flash b.flashHost 1 content (rtcFreq.setWidth 64) b.elapse clock
        on Up)
      (hdepth : 4 * (b.spiDepth : ℕ) < 2 ^ 63) (hcs : (1 : CInt).slt b.numCs = true)
      (hv : vars.Ok fun _ => False) (hcore : 4 + freqError D rtcFreq ≤ C * rtcFreq.toNat) :
      Source b rtcFreq C D d 2 (fun _ => False) vars (flashDisk content) OnFlash
  | eeprom {content : Mem 16} {view : σ → I2c.Host} {turns : ℕ} {own : U64 → Prop} {vars : Vars}
      (hp : Prompt b.eeprom view turns) (hset : SetsUp b.eepromSetup view)
      (hd : 1 ≤ b.i2cDepth.toNat) (hd' : b.i2cDepth.toNat ∣ 128)
      (hrest : ∀ t, (view (b.elapse t d)).fmt = [] ∧ (view (b.elapse t d)).content = content)
      (hv : vars.Ok own) (hcore : 1 + freqError D rtcFreq ≤ C * rtcFreq.toNat)
      (hmax : C * rtcFreq.toNat + freqError D rtcFreq ≤ 1000000000) :
      Source b rtcFreq C D d 3 own vars (eepromDisk content) (OnEeprom b.i2cDepth own)

section Main

variable {σ κ : Type} {b : Board σ κ} {first : Half} {vars : Vars} {ptrs : BootPtrs}
  {passive : U64 → GptMem.PollM (St σ) Launch} {rtcFreq : U32} {C D φ : ℕ} {r c : ℕ → ℕ}

/-- What is measured, from both sides. -/
lemma measured_bounds {freq : U64}
    (h : FreqNear C D (counted rtcFreq) (rtcFreq.setWidth 64) freq) :
    freq.toNat ≤ C * rtcFreq.toNat + freqError D rtcFreq ∧
      C * rtcFreq.toNat ≤ freq.toNat + freqError D rtcFreq := by
  rw [FreqNear, toNat_rtcFreq] at h
  exact h

/-- The target of a wait of up to a millisecond. -/
lemma waitTarget_le {k : U64} (hk : k.toNat ≤ 1000) :
    ((k * rtcFreq.setWidth 64) / (1000 * 1000) + 1 : U64).toNat ≤ rtcFreq.toNat / 1000 + 1 := by
  have hrtc := toNat_rtcFreq rtcFreq
  have hlt := rtcFreq.isLt
  have hle : k.toNat * rtcFreq.toNat ≤ 1000 * rtcFreq.toNat := Nat.mul_le_mul_right _ hk
  have hmul : (k * rtcFreq.setWidth 64).toNat = k.toNat * rtcFreq.toNat := by
    rw [BitVec.toNat_mul, hrtc]
    exact Nat.mod_eq_of_lt (by omega)
  have hdiv : k.toNat * rtcFreq.toNat / 1000000 ≤ rtcFreq.toNat / 1000 := by omega
  rw [BitVec.toNat_add, BitVec.toNat_udiv, hmul]
  exact (Nat.mod_le _ _).trans (Nat.add_le_add_right hdiv 1)

/-- **The boot of a mode**, with a core frequency that has been measured. -/
theorem boot_source {bootmode : U32} {d : σ} {own : U64 → Prop} {disk : Mem 64}
    {On : U64 → U64 → ℕ → Prop} (hsrc : Source b rtcFreq C D d bootmode own vars disk On)
    {coreFreq : U64} (hnear : FreqNear C D (counted rtcFreq) (rtcFreq.setWidth 64) coreFreq)
    {s : St σ} {t : U64} (hdev : s.dev = b.elapse t d) (hsteady : Steady first s.clint)
    (hreach : ∃ k, rtcFreq.toNat / 1000 + 1 ≤ (reading first s.clint.loads k).toNat) {p : ℕ}
    (hd : Bootable disk On vars ptrs.codeBuf p) (hbuf : Buffer own ptrs.codeBuf (bytesOf disk p)) :
    Finishes (fun fuel => boot b first vars ptrs passive fuel bootmode rtcFreq coreFreq) s
      fun l s' => l = launch ptrs ∧ Booted own vars disk ptrs.codeBuf p s.mem s'.mem := by
  obtain ⟨hle, hge⟩ := measured_bounds hnear
  obtain ⟨k, hk⟩ := hreach
  cases hsrc with
  | sdcard hc hcs hoff hf hcore =>
    have hwait : (1000 * rtcFreq.setWidth 64) / (1000 * 1000) + 1 ≤ reading first s.clint.loads k :=
      (waitTarget_le (by decide)).trans hk
    have hcore' : 24 * 1000 * 1000 ≤ coreFreq := by
      rw [BitVec.le_def]
      show 24000000 ≤ _
      omega
    refine (bootSpiSdcard_boots hc hcs hcore' (Clint.settles_clintSpinUntil ⟨k, hwait⟩) ?_ hf hd
      hbuf).mono fun _ _ h => h.2
    rw [hdev]
    exact hoff t
  | flash hf hdepth hcs hv hcore =>
    have hwait : (350 * rtcFreq.setWidth 64) / (1000 * 1000) + 1 ≤ reading first s.clint.loads k :=
      (waitTarget_le (by decide)).trans hk
    have hcore' : 4 ≤ coreFreq := by
      rw [BitVec.le_def]
      show 4 ≤ _
      omega
    have hrtc : (rtcFreq.setWidth 64).toNat < 2 ^ 32 := by
      rw [toNat_rtcFreq]
      exact rtcFreq.isLt
    exact (bootSpiS25fs512s_boots hdepth hf hcs hcore' hrtc hsteady
      (Clint.settles_clintSpinUntil ⟨k, hwait⟩) hv hd hbuf).mono fun _ _ h => h.2
  | @eeprom _ view _ _ _ hp hset hd₁ hd₂ hrest hv hcore hmax =>
    have hpos : coreFreq ≠ 0 := by
      intro h
      have hzero : coreFreq.toNat = 0 := by rw [h]; rfl
      omega
    have hmax' : coreFreq ≤ 1000000000 := by
      rw [BitVec.le_def]
      show _ ≤ 1000000000
      omega
    obtain ⟨hfmt, hcont⟩ := hrest t
    rw [← hdev] at hfmt hcont
    obtain ⟨bound, hboot⟩ := bootI2c24fc1025_boots (s := ⟨s.mem, s.dev⟩) hp hset hd₁ hd₂ hpos hmax'
      hfmt hcont hv hd hbuf
    exact ⟨bound, fun fuel hfuel => returns_zoom.mpr ((hboot fuel hfuel).mono fun _ _ h => h.2)⟩

/-- **The autonomous boot**, from the registers on: on a core that is fast enough for the device of
the boot mode, by as much as the measurement may be off, the first zero-stage loader on the device
that fits goes to the SPM, where the next stage is entered. -/
theorem main_boots {s : St σ} (ht : Timed first s.clint rtcFreq C D φ r c)
    (hrtc : s.mem.loadW 0x0300_0044 = rtcFreq) {bootmode : U32}
    (hmode : s.mem.loadW 0x0300_0040 = bootmode) {own : U64 → Prop} {disk : Mem 64}
    {On : U64 → U64 → ℕ → Prop} (hsrc : Source b rtcFreq C D s.dev bootmode own vars disk On)
    {p : ℕ} (hd : Bootable disk On vars ptrs.codeBuf p)
    (hbuf : Buffer own ptrs.codeBuf (bytesOf disk p)) :
    Finishes (fun fuel => main b first vars ptrs passive fuel) s fun l s' => l = launch ptrs ∧
      Booted own vars disk ptrs.codeBuf p s.mem s'.mem := by
  have hload (offs : U64) (v : U32) (hv : s.mem.loadW (0x0300_0000 + offs) = v) :
      Settles (fun _ => loadReg offs) s fun x s' => v = x ∧ s = s' :=
    ⟨0, _, _, fun _ _ => rfl, hv.symm, rfl⟩
  unfold main
  refine (hload 0x40 bootmode hmode).bind_finishes ?_
  rintro _ _ ⟨rfl, rfl⟩
  refine (hload 0x44 rtcFreq hrtc).bind_finishes ?_
  rintro _ _ ⟨rfl, rfl⟩
  refine (Settles.zoom (Q := fun freq (s' : St σ) => s'.mem = s.mem ∧
    (∃ t, s'.dev = b.elapse t s.dev) ∧
      FreqNear C D (counted rtcFreq) (rtcFreq.setWidth 64) freq ∧ Steady first s'.clint ∧
      ∃ k, rtcFreq.toNat / 1000 + 1 ≤ (reading first s'.clint.loads k).toNat)
    (ht.settles_clintGetCoreFreq.mono fun _ t h => ⟨rfl, ⟨t.now, rfl⟩, h⟩)).bind_finishes ?_
  rintro coreFreq s₁ ⟨hmem, ⟨t, hdev⟩, hnear, hsteady, hreach⟩
  rw [← hmem]
  exact boot_source hsrc hnear hdev hsteady hreach hd hbuf

end Main

/-! ### A board with a flash -/

/-- A host of the I2C bus whose functions all fail. -/
def noI2c : I2c.Dif Powering where
  getFifoLevels d := ((1, ⟨0, 0, 0, 0⟩), d)
  hostSetEnabled _ d := (1, d)
  writeByte _ _ _ d := (1, d)
  readByte d := ((1, 0), d)
  spinTicks _ d := d

/-- A board without a card and without an EEPROM. -/
def flashBoard (content : Mem 32) : Board Powering Unit where
  card :=
    { poweringHost with
      transactionCsaat := fun _ _ d => ((1, []), d)
      transaction := fun _ _ d => ((1, []), d) }
  flash := poweringDif content
  flashHost := poweringHost
  eeprom := noI2c
  eepromSetup :=
    { init := fun d => (1, d)
      resetAcqFifo := fun d => (1, d)
      resetFmtFifo := fun d => (1, d)
      resetRxFifo := fun d => (1, d)
      resetTxFifo := fun d => (1, d)
      computeTiming := fun _ => (1, ())
      configure := fun _ d => (1, d) }
  elapse := Powering.elapse
  numCs := 2
  spiDepth := 64
  i2cDepth := 64
  undef := ⟨0, 0⟩
  swap _ := 0

/-- The registers that choose the flash, with a reference clock of 2500 Hz. -/
def flashRegs : Mem 64 :=
  Mem.storeW (Mem.storeW (fun _ => 0) 0x0300_0044 2500) 0x0300_0040 2

/-- The boot from that board, on a core of 25 MHz. -/
theorem main_boots_flash : ∃ bound, ∀ fuel ≥ bound,
    Returns (main (flashBoard (onFlashOf chainDisk)) .high sampleVars samplePtrs
        (fun _ => throw none) fuel) ⟨flashRegs, ⟨0, false, 0⟩, Clint.St.sevenTicks⟩ fun l s' =>
      l = launch samplePtrs ∧ Booted (fun _ => False) sampleVars (flashDisk (onFlashOf chainDisk))
        samplePtrs.codeBuf 1 flashRegs s'.mem := by
  have hon : ∀ buf addr len, addr.toNat + len ≤ 0x600000 → OnFlash buf addr len :=
    fun _ _ _ h => Nat.le_trans h (by decide)
  have hbelow : Below (flashDisk (onFlashOf chainDisk)) 0x600000 := by decide
  have hboot : Bootable (flashDisk (onFlashOf chainDisk)) OnFlash sampleVars samplePtrs.codeBuf 1 :=
    hbelow.bootable hon (show disk64 (flashDisk (onFlashOf chainDisk)) 0x200 = _ by decide)
      (by decide) (by decide) (by decide) _ _
  have hbuf : Buffer (fun _ => False) samplePtrs.codeBuf
      (bytesOf (flashDisk (onFlashOf chainDisk)) 1) :=
    buffer_of_own (fun _ h => h.elim) (by decide) (by decide) (by decide)
  have hsrc : Source (flashBoard (onFlashOf chainDisk)) 2500 10000 1 ⟨0, false, 0⟩ 2
      (fun _ => False) sampleVars (flashDisk (onFlashOf chainDisk)) OnFlash :=
    .flash (bootFlash_poweringDif _ (by decide)) (by decide) (by decide)
      (sampleVars_ok fun _ h => h.elim) (by decide)
  have hrtc : flashRegs.loadW 0x0300_0044 = 2500 := by decide
  have hmode : flashRegs.loadW 0x0300_0040 = 2 := by decide
  exact main_boots Clint.timed_sevenTicks hrtc hmode hsrc hboot hbuf

end Cheshire.Sw.Boot
