import Cheshire.Sw.ClintBoot
import Cheshire.Sw.GptMem
import Cheshire.Sw.S25fs512sUp
import Cheshire.Sw.SdCardUp
import Cheshire.Sw.SdCardWake

/-!
The autonomous boots of the boot ROM (`boot_spi_sdcard` and `boot_spi_s25fs512s`): the device is set
up, the timer is waited for, and the partition with the zero-stage loader goes from the disk to the
SPM.  Each driver is a medium for the GPT reader.
-/

namespace Cheshire.Sw.Boot

open Lib Gpt GptMem
open Clint (Half)

/-! ### The code -/

/-- What the boot ROM works on: the memory, the host with its device, and the CLINT. -/
structure St (σ : Type) where
  mem : Mem 64
  dev : σ
  clint : Clint.St

section Code

variable {σ : Type}

/-- A function of the SD card driver. -/
def onCard {δ α : Type} (err : δ → Option CInt) (m : EStateM δ (SpiSdcard.St σ) α) :
    GptMem.PollM (St σ) α :=
  zoom (fun s => ⟨s.mem, s.dev⟩) (fun t s => ⟨t.mem, t.dev, s.clint⟩) err m

/-- A function of the flash driver. -/
def onFlash {α : Type} (m : SpiS25fs512s.PollM (SpiS25fs512s.St σ) α) : GptMem.PollM (St σ) α :=
  zoom (fun s => ⟨s.mem, s.dev⟩) (fun t s => ⟨t.mem, t.dev, s.clint⟩) id m

/-- A function of the CLINT driver; it stops only while it has not come to an end.  What the time
that it takes does to the device is `elapse`. -/
def onClint {α : Type} (elapse : U64 → σ → σ) (m : Clint.CM α) : GptMem.PollM (St σ) α :=
  zoom St.clint (fun t s => ⟨s.mem, elapse t.now s.dev, t⟩) (fun _ => none) m

/-- The handle of `boot_spi_sdcard`: the last physical chip select is the designated dummy. -/
def sdcard (numCs : CInt) : SpiSdcard.Handle := ⟨0, numCs - 1⟩

/-- `spi_sdcard_read_checkcrc` as a read callback; its swap buffer lies where the buffer of the
caller says. -/
def sdcardRead (dif : SpiSdcard.Dif σ) (numCs : CInt) (undef : SpiSdcard.Undefined) (depth : ℕ+)
    (swap : U64 → U64) : ReadFn (St σ) := fun buf addr len =>
  onCard some (SpiSdcard.spiSdcardReadCheckcrc dif (sdcard numCs) undef depth (swap buf) buf addr
    len)

variable (elapse : U64 → σ → σ) (numCs : CInt) (depth : ℕ+) (first : Half) (vars : Vars)
    (ptrs : BootPtrs) (fuel : ℕ)

/-- `boot_spi_sdcard`, up to the jump of `boot_next_stage`. -/
def bootSpiSdcard (dif : SpiSdcard.SetupDif σ) (undef : SpiSdcard.Undefined) (swap : U64 → U64)
    (coreFreq rtcFreq : U64) : GptMem.PollM (St σ) Launch := do
  onCard id
    (SpiSdcard.spiSdcardInit dif undef numCs (sdcard numCs) (24 * 1000 * 1000) coreFreq fuel)
  onClint elapse (Clint.clintSpinUntil first fuel ((1000 * rtcFreq) / (1000 * 1000) + 1))
  gptBootPartElseRaw St.mem (sdcardRead dif.toDif numCs undef depth swap) vars bootSpmMaxLbas
    (some bootZslTypeGuid) none fuel ptrs

/-- The handle of `boot_spi_s25fs512s`: up to a quarter of the core frequency, or 40 MHz. -/
def s25fs512s (coreFreq : U64) : SpiS25fs512s.Handle := ⟨cMin (40 * 1000 * 1000) (coreFreq / 4), 1⟩

/-- `spi_s25fs512s_single_read` as a read callback. -/
def flashRead (dif : SpiS25fs512s.Dif σ) (handle : SpiS25fs512s.Handle) (depth : ℕ+) (fuel : ℕ) :
    ReadFn (St σ) := fun buf addr len =>
  onFlash (SpiS25fs512s.spiS25fs512sSingleRead dif handle depth fuel buf addr len)

/-- `boot_spi_s25fs512s`, up to the jump of `boot_next_stage`. -/
def bootSpiS25fs512s (dif : SpiS25fs512s.Dif σ) (host : HostSetup σ) (coreFreq rtcFreq : U64) :
    GptMem.PollM (St σ) Launch := do
  zoom (fun s => ⟨s.mem, s.dev⟩) (fun t s => ⟨t.mem, t.dev, s.clint⟩) some
    (SpiS25fs512s.spiS25fs512sInit host numCs (s25fs512s coreFreq) coreFreq)
  onClint elapse (Clint.clintSpinUntil first fuel ((350 * rtcFreq) / (1000 * 1000) + 1))
  gptBootPartElseRaw St.mem (flashRead dif (s25fs512s coreFreq) depth fuel) vars bootSpmMaxLbas
    (some bootZslTypeGuid) none fuel ptrs

end Code

/-! ### The SD card -/

section Sdcard

variable {σ : Type} {numCs : CInt} {depth : ℕ+} {dif : SpiSdcard.SetupDif σ}
  {undef : SpiSdcard.Undefined} {elapse : U64 → σ → σ} {content : ℕ → Byte} {served : Set ℕ}
  {bus : σ → SpiSdcard.Bus} {Up : σ → Prop} {coming : σ → Stream' Byte}
  {view : σ → SpiSdcard.View} {swap : U64 → U64}

/-- The bytes of the card, as a disk. -/
def cardDisk (content : ℕ → Byte) : Mem 64 := fun a => content a.toNat

/-- A range that the block addresses of the card reach, and whose blocks it serves. -/
def OnCard (served : Set ℕ) (_ addr : U64) (len : ℕ) : Prop :=
  addr.toNat + len ≤ 2 ^ 41 ∧ ∀ i < len, (addr.toNat + i) / 512 ∈ served

/-- The part of the stack from `lo` to `hi`. -/
def OnStack (lo hi : ℕ) (x : U64) : Prop := lo ≤ x.toNat ∧ x.toNat < hi

/-- The stack of a stage: the swap buffers of the driver lie from `lo` to `hi`, and the variables of
the reader lie elsewhere. -/
structure Frame (swap : U64 → U64) (vars : Vars) (lo hi : ℕ) : Prop where
  lo_pos : 0 < lo
  hi_le : hi ≤ 2 ^ 64
  swap_in : ∀ buf, lo ≤ (swap buf).toNat ∧ (swap buf).toNat + 512 ≤ hi
  vars_ok : vars.Ok (OnStack lo hi)

/-- A buffer that is apart from the stack of the driver is apart from the swap buffer. -/
lemma Frame.buffers {vars : Vars} {lo hi : ℕ} (hf : Frame swap vars lo hi) {buf len : U64}
    (hlen : len ≠ 0) (hbuf : Buffer (OnStack lo hi) buf len.toNat) :
    SpiSdcard.Buffers (swap buf) buf len where
  buf_pos := hbuf.ne_zero
  buf_le := hbuf.le
  swap_pos h := by
    have hsw := hf.swap_in buf
    rw [h] at hsw
    exact absurd hsw.1 (Nat.not_le.mpr hf.lo_pos)
  swap_le := (hf.swap_in buf).2.trans hf.hi_le
  apart := by
    have hle := hbuf.le
    have hhi := hf.hi_le
    have hsw := hf.swap_in buf
    have hpos : 0 < len.toNat := Nat.pos_of_ne_zero fun h => hlen (BitVec.eq_of_toNat_eq h)
    by_contra hno
    -- the first byte that the two share
    have hshared := hbuf.apart ((swap buf).toNat - buf.toNat) (by omega)
    refine hshared ⟨?_, ?_⟩ <;> rw [BitVec.toNat_add, BitVec.toNat_ofNat] <;> omega

/-- The card can be read. -/
def Readable (bus : σ → SpiSdcard.Bus) (Up : σ → Prop) (d : σ) : Prop :=
  Up d ∧ (bus d).phase = .idle

/-- The clock up to which a card can be read. -/
def maxReadClock : U64 := 25000000

/-- A card that can be booted from: it wakes up, and when it is ready it can be read from then on,
whatever time passes.  The mask that C leaves open keeps nothing of the bytes of `buf` that were
never written, so that the check word passes. -/
structure BootCard (depth : ℕ+) (dif : SpiSdcard.SetupDif σ) (handle : SpiSdcard.Handle)
    (undef : SpiSdcard.Undefined) (content : ℕ → Byte) (served : Set ℕ) (elapse : U64 → σ → σ)
    (coming : σ → Stream' Byte) (view : σ → SpiSdcard.View) (bus : σ → SpiSdcard.Bus)
    (Up : σ → Prop) : Prop where
  clear : undef.Clear
  wakes : SpiSdcard.Wakes dif handle coming view
  up : SpiSdcard.CardUp depth dif.toDif handle content served bus Up
  readable : ∀ clock d, clock ≤ maxReadClock → view d = ⟨.ready, clock, true⟩ → Readable bus Up d
  stays : ∀ t d, Readable bus Up d → Readable bus Up (elapse t d)

/-- **The SD card is a medium**, which leaves the timer alone. -/
theorem medium_sdcard
    (hc : SpiSdcard.CardUp depth dif.toDif (sdcard numCs) content served bus Up) {vars : Vars}
    {lo hi : ℕ} (hf : Frame swap vars lo hi) (P : Clint.St → Prop) :
    Medium St.mem (sdcardRead dif.toDif numCs undef depth swap) (cardDisk content)
      (fun s => Readable bus Up s.dev ∧ P s.clint) (OnCard served) (OnStack lo hi) where
  reads := by
    rintro buf addr len s ⟨⟨hup, hidle⟩, hP⟩ ⟨hon, hserved⟩ hbuf
    refine returns_zoom.mpr ((hc.returns_read (s := ⟨s.mem, s.dev⟩) (fun h => hf.buffers h hbuf)
      (show addr.toNat + _ + _ < _ by omega) (fun i hi => by omega) hserved hup hidle).mono ?_)
    rintro - s' ⟨hready', hbytes, hkept⟩
    refine ⟨⟨hready', hP⟩, fun i hi => ?_, fun x hout hx => hkept x hout ?_⟩
    · refine (hbytes i hi).trans (congrArg content ?_)
      rw [BitVec.toNat_add, BitVec.toNat_ofNat]
      omega
    · have hsw := hf.swap_in buf
      have hhi := hf.hi_le
      unfold OnStack at hx
      have hlt := x.isLt
      unfold Mem.Outside
      rw [BitVec.toNat_sub]
      omega

/-- What a disk must be like to boot the entry `p`: it is the first one to hold a zero-stage loader
that fits, and what is read up to there lies on the medium. -/
structure Bootable (disk : Mem 64) (On : U64 → U64 → ℕ → Prop) (vars : Vars) (codeBuf : U64)
    (p : ℕ) : Prop where
  signed : Signed disk
  first : IsLeast (viableIdx disk bootSpmMaxLbas (some bootZslTypeGuid) none) p
  signature : On vars.sig 0x200 8
  table : TableOn disk On vars bootSpmMaxLbas (some bootZslTypeGuid) none
  part : On codeBuf (0x200 * (part disk p).lbaBegin) (bytesOf disk p)

/-- The memory behind the boot of an entry: the code buffer holds the partition, and besides the
variables of the reader and the stack of the driver nothing else has changed. -/
def Booted (own : U64 → Prop) (vars : Vars) (disk : Mem 64) (codeBuf : U64) (p : ℕ)
    (m m' : Mem 64) : Prop :=
  Loaded own vars disk codeBuf (0x200 * (part disk p).lbaBegin) (bytesOf disk p) m m'

/-- The GPT reader comes to an end on a medium. -/
theorem finishes_gpt {S : Type} {mem : S → Mem 64} {read : ℕ → ReadFn S} {disk : Mem 64}
    {Ready : S → Prop} {On : U64 → U64 → ℕ → Prop} {own : U64 → Prop} {vars : Vars}
    {ptrs : BootPtrs} {p bound : ℕ} (hm : ∀ fuel ≥ bound, Medium mem (read fuel) disk Ready On own)
    (hv : vars.Ok own) (hd : Bootable disk On vars ptrs.codeBuf p)
    (hbuf : Buffer own ptrs.codeBuf (bytesOf disk p)) {s : S} (hs : Ready s) :
    Finishes (fun fuel => gptBootPartElseRaw mem (read fuel) vars bootSpmMaxLbas
        (some bootZslTypeGuid) none fuel ptrs) s fun l s' => Ready s' ∧
      l = launch ptrs ∧ Booted own vars disk ptrs.codeBuf p (mem s) (mem s') := by
  refine ⟨max bound ((header disk).count.toNat + 1), fun fuel hfuel => ?_⟩
  exact returns_boot_part (hm fuel (Nat.le_trans (Nat.le_max_left ..) hfuel)) hv
    hd.signature hd.signed hd.table (Nat.le_trans (Nat.le_max_right ..) hfuel) (by decide)
    hd.first hd.part hbuf hs

/-- **The boot from an SD card.**  Whatever the card is busy for, it is set up, and the first
zero-stage loader on it that fits goes to the SPM, where the next stage is entered.  What the wait
leaves of the timer is `P`. -/
theorem bootSpiSdcard_boots
    (hc : BootCard depth dif (sdcard numCs) undef content served elapse coming view bus Up)
    (hcs : (0 : CInt).slt numCs = true) {coreFreq rtcFreq : U64}
    (hcore : 24 * 1000 * 1000 ≤ coreFreq) {first : Half} {s : St σ} {P : Clint.St → Prop}
    (hwait : Settles (fun fuel =>
      Clint.clintSpinUntil first fuel ((1000 * rtcFreq) / (1000 * 1000) + 1)) s.clint
      fun _ t => P t)
    (hoff : (view s.dev).stage = .off) {vars : Vars} {lo hi : ℕ} (hf : Frame swap vars lo hi)
    {ptrs : BootPtrs} {p : ℕ}
    (hd : Bootable (cardDisk content) (OnCard served) vars ptrs.codeBuf p)
    (hbuf : Buffer (OnStack lo hi) ptrs.codeBuf (bytesOf (cardDisk content) p)) :
    Finishes (fun fuel =>
        bootSpiSdcard elapse numCs depth first vars ptrs fuel dif undef swap coreFreq rtcFreq) s
        fun l s' =>
      (Readable bus Up s'.dev ∧ P s'.clint) ∧ l = launch ptrs ∧
        Booted (OnStack lo hi) vars (cardDisk content) ptrs.codeBuf p s.mem s'.mem := by
  have hdummy : (numCs - 1).slt numCs = true := by
    rw [BitVec.slt_iff_toInt_lt] at hcs ⊢
    have h1 : (numCs - 1).toInt = numCs.toInt - 1 := by
      have hlt := BitVec.toInt_lt (x := numCs)
      have h0 : (0 : CInt).toInt = 0 := rfl
      rw [BitVec.toInt_sub, show (1 : CInt).toInt = 1 from rfl]
      refine Int.bmod_eq_of_le ?_ ?_ <;> omega
    omega
  have hslow : SpiSdcard.initClock ≤ coreFreq := by
    rw [BitVec.le_def] at hcore ⊢
    exact Nat.le_trans (by decide) hcore
  have hspi : (24 * 1000 * 1000 : U64) ≠ 0 ∧ (24 * 1000 * 1000 : U64) ≤ 25 * 1000 * 1000 := by
    decide
  have hinit := SpiSdcard.settles_init (s := ⟨s.mem, s.dev⟩) hc.wakes hc.clear hcs hdummy hspi.1
    hspi.2 hcore hslow hoff
  unfold bootSpiSdcard
  refine (Settles.zoom (Q := fun _ (s' : St σ) => s'.mem = s.mem ∧ Readable bus Up s'.dev ∧
    s'.clint = s.clint) (hinit.mono ?_)).bind_finishes ?_
  · rintro - s' ⟨hmem, hview⟩
    exact ⟨hmem, hc.readable _ _ (by decide) hview, rfl⟩
  rintro - s₁ ⟨hmem₁, hready₁, hclint₁⟩
  refine (Settles.zoom (Q := fun _ (s' : St σ) => s'.mem = s.mem ∧ Readable bus Up s'.dev ∧
    P s'.clint) (Settles.mono (by rwa [hclint₁]) ?_)).bind_finishes ?_
  · exact fun _ _ hP => ⟨hmem₁, hc.stays _ _ hready₁, hP⟩
  rintro - s₂ ⟨hmem₂, hready₂⟩
  have hmedium : ∀ fuel ≥ 0, Medium St.mem (sdcardRead dif.toDif numCs undef depth swap)
      (cardDisk content) (fun s => Readable bus Up s.dev ∧ P s.clint) (OnCard served)
      (OnStack lo hi) := fun _ _ => medium_sdcard hc.up hf P
  have hgpt := finishes_gpt hmedium hf.vars_ok hd hbuf hready₂
  rwa [hmem₂] at hgpt

end Sdcard

/-! ### The flash -/

/-- The bytes of the flash, as a disk. -/
def flashDisk (content : Mem 32) : Mem 64 := fun a => content (a.setWidth 32)

/-- A range that the addresses of the flash reach. -/
def OnFlash (_ addr : U64) (len : ℕ) : Prop := addr.toNat + len ≤ 2 ^ 32

/-- A flash that can be booted from: it is up when it has had its power for 300 us, and the host has
been set up, and it stays up whatever time passes. -/
structure BootFlash {σ : Type} (depth : ℕ+) (dif : SpiS25fs512s.Dif σ) (host : HostSetup σ)
    (csid : CInt) (content : Mem 32) (rtcFreq : U64) (elapse : U64 → σ → σ) (clock : σ → U64)
    (on : σ → Bool) (Up : σ → Prop) : Prop where
  setsUp : SpiS25fs512s.SetsUp host csid clock on
  up : SpiS25fs512s.FlashUp depth dif csid content Up
  powers : ∀ t d, clock d < 50 * 1000 * 1000 → on d = true →
    300 * rtcFreq.toNat ≤ 1000000 * t.toNat → Up (elapse t d)
  stays : ∀ t d, Up d → Up (elapse t d)

section Flash

variable {σ : Type} {elapse : U64 → σ → σ} {numCs : CInt} {depth : ℕ+} {dif : SpiS25fs512s.Dif σ}
  {host : HostSetup σ} {content : Mem 32} {Up : σ → Prop} {clock : σ → U64} {on : σ → Bool}
  {coreFreq rtcFreq : U64}

lemma s25fs512s_spiFreq_lt (coreFreq : U64) :
    (s25fs512s coreFreq).spiFreq < 50 * 1000 * 1000 := by
  rw [BitVec.lt_def]
  show (cMin (40 * 1000 * 1000) (coreFreq / 4)).toNat < _
  rw [toNat_cMin]
  exact Nat.lt_of_le_of_lt (Nat.min_le_left ..) (by decide)

/-- **The flash is a medium**, which leaves the timer alone. -/
theorem medium_flash (hdepth : 4 * (depth : ℕ) < 2 ^ 63)
    (hf : SpiS25fs512s.FlashUp depth dif (s25fs512s coreFreq).csid content Up) {fuel : ℕ}
    (hfuel : 2 ^ 32 < fuel) (P : Clint.St → Prop) :
    Medium (St.mem (σ := σ)) (flashRead dif (s25fs512s coreFreq) depth fuel) (flashDisk content)
      (fun s => Up s.dev ∧ P s.clint) OnFlash (fun _ => False) where
  reads := by
    rintro buf addr len s ⟨hup, hP⟩ hon hbuf
    have hread := hf.returns_read buf (s := ⟨s.mem, s.dev⟩) (s25fs512s_spiFreq_lt coreFreq)
      hdepth hon hfuel hup
    refine returns_zoom.mpr (hread.mono ?_)
    rintro - s' ⟨hup', hmem⟩
    refine ⟨⟨hup', hP⟩, fun i hi => ?_, fun x hout _ => ?_⟩
    · show s'.mem _ = content _
      have hi' : i < (content.slice (addr.setWidth 32) len.toNat).length := by
        rwa [Mem.length_slice]
      rw [hmem, Mem.write_apply s.mem buf hi' (by omega), Mem.getElem_slice,
        SpiS25fs512s.setWidth_add_ofNat]
    · show s'.mem x = s.mem x
      rw [hmem, Mem.write_outside s.mem (by rwa [Mem.length_slice])]

/-- The target of the wait, in ticks: at least as long as the flash takes to power up. -/
lemma le_target (hrtc : rtcFreq.toNat < 2 ^ 32) {t : U64}
    (ht : (350 * rtcFreq) / (1000 * 1000) + 1 ≤ t) : 300 * rtcFreq.toNat ≤ 1000000 * t.toNat := by
  have hmul : (350 * rtcFreq).toNat = 350 * rtcFreq.toNat := by
    rw [BitVec.toNat_mul]
    exact Nat.mod_eq_of_lt (by show 350 * _ < _; omega)
  have hadd : ((350 * rtcFreq) / (1000 * 1000) + 1).toNat = 350 * rtcFreq.toNat / 1000000 + 1 := by
    rw [BitVec.toNat_add, BitVec.toNat_udiv, hmul]
    exact Nat.mod_eq_of_lt (by show 350 * rtcFreq.toNat / 1000000 + 1 < _; omega)
  rw [BitVec.le_def, hadd] at ht
  omega

/-- **The boot from a flash.**  The wait lets the flash power up, which takes it 300 us; then the
first zero-stage loader on it that fits goes to the SPM, where the next stage is entered.  What the
wait leaves of the timer is `P`. -/
theorem bootSpiS25fs512s_boots (hdepth : 4 * (depth : ℕ) < 2 ^ 63)
    (hf : BootFlash depth dif host 1 content rtcFreq elapse clock on Up)
    (hcs : (1 : CInt).slt numCs = true) (hcore : 4 ≤ coreFreq) (hrtc : rtcFreq.toNat < 2 ^ 32)
    {first : Half} {s : St σ} {P : Clint.St → Prop} (hsteady : Clint.Steady first s.clint)
    (hwait : Settles (fun fuel =>
      Clint.clintSpinUntil first fuel ((350 * rtcFreq) / (1000 * 1000) + 1)) s.clint
      fun _ t => P t)
    {vars : Vars} (hv : vars.Ok fun _ => False) {ptrs : BootPtrs} {p : ℕ}
    (hd : Bootable (flashDisk content) OnFlash vars ptrs.codeBuf p)
    (hbuf : Buffer (fun _ => False) ptrs.codeBuf (bytesOf (flashDisk content) p)) :
    Finishes (fun fuel =>
        bootSpiS25fs512s elapse numCs depth first vars ptrs fuel dif host coreFreq rtcFreq) s
      fun l s' => (Up s'.dev ∧ P s'.clint) ∧ l = launch ptrs ∧
        Booted (fun _ => False) vars (flashDisk content) ptrs.codeBuf p s.mem s'.mem := by
  have hfreq : (s25fs512s coreFreq).spiFreq.toNat = min 40000000 (coreFreq.toNat / 4) := by
    show (cMin (40 * 1000 * 1000) (coreFreq / 4)).toNat = _
    rw [toNat_cMin, BitVec.toNat_udiv]
    rfl
  have hcore' : 4 ≤ coreFreq.toNat := hcore
  have h0 : (s25fs512s coreFreq).spiFreq ≠ 0 := fun h => by
    rw [h] at hfreq
    have hz : (0 : U64).toNat = 0 := rfl
    omega
  have hle : (s25fs512s coreFreq).spiFreq ≤ coreFreq := by
    rw [BitVec.le_def]
    omega
  have hset' : SpiS25fs512s.SetsUp host (s25fs512s coreFreq).csid clock on := hf.setsUp
  have hinit := SpiS25fs512s.returns_spiS25fs512sInit hset' hcs h0 hle ⟨s.mem, s.dev⟩
  unfold bootSpiS25fs512s
  refine (Settles.zoom (Q := fun _ (s' : St σ) => s'.mem = s.mem ∧
    clock s'.dev < 50 * 1000 * 1000 ∧ on s'.dev = true ∧ s'.clint = s.clint)
    (Settles.of_returns (hinit.mono ?_))).bind_finishes ?_
  · rintro - s' ⟨hmem, hclock, hon⟩
    refine ⟨hmem, ?_, hon, rfl⟩
    show clock s'.dev < _
    rw [hclock]
    exact s25fs512s_spiFreq_lt coreFreq
  rintro - s₁ ⟨hmem₁, hclock₁, hon₁, hclint₁⟩
  rw [← hclint₁] at hwait hsteady
  have hpowered := hwait.and_leaves (fun fuel => Clint.waitsUntil_clintSpinUntil hsteady fuel _)
  refine (Settles.zoom (Q := fun _ (s' : St σ) => s'.mem = s.mem ∧ Up s'.dev ∧ P s'.clint)
    (hpowered.mono ?_)).bind_finishes ?_
  · rintro - t ⟨hP, ht⟩
    exact ⟨hmem₁, hf.powers _ _ hclock₁ hon₁ (le_target hrtc ht), hP⟩
  rintro - s₂ ⟨hmem₂, hup₂⟩
  have hmedium : ∀ fuel ≥ 2 ^ 32 + 1, Medium (St.mem (σ := σ))
      (flashRead dif (s25fs512s coreFreq) depth fuel) (flashDisk content)
      (fun s => Up s.dev ∧ P s.clint) OnFlash fun _ => False :=
    fun fuel hfuel => medium_flash hdepth hf.up hfuel P
  have hgpt := finishes_gpt hmedium hv hd hbuf hup₂
  rwa [hmem₂] at hgpt

end Flash

end Cheshire.Sw.Boot
