import Cheshire.Sw.BootDisk
import Cheshire.Sw.I2cUp

/-!
The third autonomous boot of the boot ROM (`boot_i2c_24fc1025`).  The EEPROM is a medium for the GPT
reader as far as what its driver fetches beyond the end of a buffer falls on memory that nothing
else needs: the header of the table does not start on a FIFO boundary.
-/

namespace Cheshire.Sw.Boot

open Lib Gpt GptMem
open I2c (Dif Setup Host Prompt SetsUp Idle fetched i2c24fc1025Init i2c24fc1025Read)

/-- `boot_i2c_24fc1025`, up to the jump of `boot_next_stage`, with `I2C_PARAM_FIFO_DEPTH` a
parameter. -/
def bootI2c24fc1025 {σ κ : Type} (depth : U64) (vars : Vars) (ptrs : BootPtrs) (fuel : ℕ)
    (dif : Dif σ) (setup : Setup σ κ) (coreFreq : U64) : GptMem.PollM (I2c.St σ) Launch := do
  i2c24fc1025Init dif setup coreFreq
  gptBootPartElseRaw I2c.St.mem (i2c24fc1025Read dif depth fuel) vars bootSpmMaxLbas
    (some bootZslTypeGuid) none fuel ptrs

/-! ### The EEPROM as a medium -/

/-- The bytes of the first block of the EEPROM, as a disk. -/
def eepromDisk (content : Mem 16) : Mem 64 := fun a => content (a.setWidth 16)

/-- A range of the first block, and a buffer behind which what is fetched beyond its end falls on
`own`. -/
structure OnEeprom (depth : U64) (own : U64 → Prop) (buf addr : U64) (len : ℕ) : Prop where
  range : addr.toNat + len ≤ 0x1_0000
  spill : ∀ i, len ≤ i → i < fetched depth addr (.ofNat 64 len) → own (buf + .ofNat 64 i)

section Medium

variable {σ κ : Type} {dif : Dif σ} {setup : Setup σ κ} {view : σ → Host} {turns fuel : ℕ}
  {content : Mem 16} {depth : U64} {own : U64 → Prop}

lemma le_fetched (depth addr len : U64) : len.toNat ≤ fetched depth addr len := by
  unfold fetched
  split
  · exact Nat.le_refl _
  · exact Nat.le_max_left _ _

/-- Nothing is fetched beyond the end from a FIFO boundary on. -/
lemma onEeprom_of_aligned {buf addr : U64} {len : ℕ} (halign : addr % depth = 0)
    (hrange : addr.toNat + len ≤ 0x1_0000) : OnEeprom depth own buf addr len where
  range := hrange
  spill i hlen hi := by
    rw [fetched, if_pos halign, BitVec.toNat_ofNat, Nat.mod_eq_of_lt (by omega)] at hi
    exact absurd hi (Nat.not_lt.mpr hlen)

/-- The EEPROM holds the content, and its host is idle. -/
def EepromReady (view : σ → Host) (content : Mem 16) (s : I2c.St σ) : Prop :=
  Idle (view s.dev) ∧ (view s.dev).content = content

/-- **The EEPROM is a medium.** -/
theorem medium_eeprom (hp : Prompt dif view turns) (hd : 1 ≤ depth.toNat)
    (hd' : depth.toNat ∣ 128) (hfuel : 0x1_0000 + turns + 3 ≤ fuel) :
    Medium I2c.St.mem (i2c24fc1025Read dif depth fuel) (eepromDisk content)
      (EepromReady view content) (OnEeprom depth own) own where
  reads := by
    rintro buf addr len s ⟨hidle, hcont⟩ hon hbuf
    have hrange := hon.range
    have hread : Returns (i2c24fc1025Read dif depth fuel buf addr len) s _ :=
      hp.returns_read hd hd' (by omega) hfuel hidle
    refine hread.mono ?_
    rintro - s' ⟨hidle', hcont', hmem⟩
    rw [hcont] at hmem
    refine ⟨⟨hidle', hcont'.trans hcont⟩, fun i hi => ?_, fun x hout hx => ?_⟩
    · have hlen : i < (Mem.slice content (addr.setWidth 16) (fetched depth addr len)).length := by
        rw [Mem.length_slice]
        exact Nat.lt_of_lt_of_le hi (le_fetched _ _ _)
      have haddr : addr.setWidth 16 + BitVec.ofNat 16 i = (addr + .ofNat 64 i).setWidth 16 := by
        refine BitVec.eq_of_toNat_eq ?_
        simp only [BitVec.toNat_add, BitVec.toNat_setWidth, BitVec.toNat_ofNat]
        omega
      rw [hmem, Mem.write_apply s.mem buf hlen (by omega), Mem.getElem_slice, haddr]
      rfl
    · rw [hmem, Mem.write_outside s.mem]
      rw [Mem.length_slice]
      by_contra hin
      have hspill := hon.spill (x - buf).toNat hout
      rw [BitVec.ofNat_toNat, BitVec.setWidth_eq, Mem.add_toNat_sub] at hspill
      exact hx (hspill (Nat.not_le.mp hin))

/-- **The boot from an EEPROM.**  The host is set up, and the first zero-stage loader on the EEPROM
that fits goes to the SPM, where the next stage is entered; besides the variables of the reader only
what lies behind them, as far as the FIFO boundary, has changed. -/
theorem bootI2c24fc1025_boots (hp : Prompt dif view turns) (hset : SetsUp setup view)
    (hd : 1 ≤ depth.toNat) (hd' : depth.toNat ∣ 128) {coreFreq : U64} (hpos : coreFreq ≠ 0)
    (hmax : coreFreq ≤ 1000000000) {s : I2c.St σ} (hrest : (view s.dev).fmt = [])
    (hcont : (view s.dev).content = content) {vars : Vars} (hv : vars.Ok own) {ptrs : BootPtrs}
    {p : ℕ} (hdisk : Bootable (eepromDisk content) (OnEeprom depth own) vars ptrs.codeBuf p)
    (hbuf : Buffer own ptrs.codeBuf (bytesOf (eepromDisk content) p)) :
    Finishes (fun fuel => bootI2c24fc1025 depth vars ptrs fuel dif setup coreFreq) s fun l s' =>
      EepromReady view content s' ∧ l = launch ptrs ∧
        Booted own vars (eepromDisk content) ptrs.codeBuf p s.mem s'.mem := by
  have hinit := hp.returns_i2c24fc1025Init hset hpos hmax hrest
  unfold bootI2c24fc1025
  refine (Settles.of_returns hinit).bind_finishes ?_
  rintro - s₁ ⟨hmem₁, hidle₁, hcont₁⟩
  have hmedium : ∀ fuel ≥ 0x1_0000 + turns + 3, Medium I2c.St.mem (i2c24fc1025Read dif depth fuel)
      (eepromDisk content) (EepromReady view content) (OnEeprom depth own) own :=
    fun fuel hfuel => medium_eeprom hp hd hd' hfuel
  have hgpt := finishes_gpt hmedium hv hdisk hbuf ⟨hidle₁, hcont₁.trans hcont⟩
  rwa [hmem₁] at hgpt

end Medium

/-! ### An EEPROM with a loader -/

/-- An enabled host works off its FIFO before the first poll is over. -/
lemma prompt_instant : Prompt I2c.instant id 1 where
  toContract := I2c.contract_instant
  levels_ok h hs := by
    refine ⟨if_pos ?_, rfl, rfl⟩
    unfold I2c.Host.atPoll
    split
    · exact ⟨Nat.zero_lt_succ _, hs.2⟩
    · exact ⟨hs.1, Nat.lt_of_le_of_lt (I2c.length_rx_le h) hs.2⟩
  enable_ok _ _ := rfl
  write_ok _ _ _ := rfl
  read_ok _ _ := rfl
  prompt h hen _ := by
    show h.atPoll.fmt = []
    rw [I2c.Host.atPoll, if_pos (show h.enabled = true from hen)]
    rfl

/-- A host that can be set up. -/
def instantSetup : Setup Host Unit where
  init h := (0, h)
  resetAcqFifo h := (0, h)
  resetFmtFifo h := (0, { h with fmt := [] })
  resetRxFifo h := (0, { h with rx := [] })
  resetTxFifo h := (0, h)
  computeTiming t := (if t.clockPeriodNanos = 0 then 2 else 0, ())
  configure _ h := (0, h)

lemma setsUp_instantSetup : SetsUp instantSetup id where
  init h := ⟨rfl, h, .refl, rfl⟩
  acq h := ⟨rfl, h, .refl, rfl⟩
  fmt h := ⟨rfl, h, .refl, rfl⟩
  rx h := ⟨rfl, h, .refl, rfl⟩
  tx h := ⟨rfl, h, .refl, rfl⟩
  timing _ ht := if_neg ht
  configure _ h := ⟨rfl, h, .refl, rfl⟩

/-- A table with one entry, of three blocks. -/
def loaderEeprom : Mem 16 :=
  let m : Mem 16 := fun _ => 0
  let m := m.write 0x200 (toLe 8 0x5452415020494645)
  let m := m.write 0x248 (toLe 8 2 ++ toLe 4 1 ++ toLe 4 128)
  m.write 0x400 (toLe 8 0x4CE4FD950269B26A ++ toLe 8 0x622C41011494CF98 ++ toLe 16 0 ++
    toLe 8 34 ++ toLe 8 36)

/-- Variables with room behind the header and the extent. -/
def roomyVars : Vars := ⟨0x1000_FE00, 0x1000_FE10, 0x1000_FE60, 0x1000_FE90⟩

/-- The bytes behind the header, and behind the extent, that a FIFO of 64 entries fills. -/
def Room (x : U64) : Prop :=
  (0x1000_FE20 ≤ x.toNat ∧ x.toNat < 0x1000_FE48) ∨ (0x1000_FE70 ≤ x.toNat ∧ x.toNat < 0x1000_FE80)

instance (x : U64) : Decidable (Room x) := by unfold Room; infer_instance

lemma roomyVars_ok : roomyVars.Ok Room where
  sig := ⟨by decide, by decide, by decide⟩
  hf := ⟨by decide, by decide, by decide⟩
  dim := ⟨by decide, by decide, by decide⟩
  guid := ⟨by decide, by decide, by decide⟩
  hf_dim := by
    unfold Apart Mem.Outside
    decide
  hf_guid := by
    unfold Apart Mem.Outside
    decide
  dim_guid := by
    unfold Apart Mem.Outside
    decide

lemma bootable_loaderEeprom :
    Bootable (eepromDisk loaderEeprom) (OnEeprom 64 Room) roomyVars 0x1000_0000 0 := by
  have hreach {p : ℕ} (hp : Reached (eepromDisk loaderEeprom) bootSpmMaxLbas
      (some bootZslTypeGuid) none p) : p = 0 := by
    have hcount : (header (eepromDisk loaderEeprom)).count.toNat = 1 := by decide
    have hlt := hp.1
    omega
  refine ⟨?_, ⟨⟨by decide, by decide⟩, fun q _ => Nat.zero_le q⟩, ?_, ⟨?_, ?_, ?_, ?_⟩, ?_⟩
  · show disk64 (eepromDisk loaderEeprom) 0x200 = _
    decide
  · exact onEeprom_of_aligned (by decide) (by decide)
  · refine ⟨by decide, fun i hlo hi => ?_⟩
    have hi' : i < 56 := hi
    show Room (0x1000_FE10 + .ofNat 64 i)
    unfold Room
    bv_omega
  · rintro p hp
    obtain rfl := hreach hp
    have haddr : peOffs (header (eepromDisk loaderEeprom)) 0 + 0x20 = 0x420 := by decide
    rw [haddr]
    refine ⟨by decide, fun i hlo hi => ?_⟩
    have hi' : i < 32 := hi
    show Room (0x1000_FE60 + .ofNat 64 i)
    unfold Room
    bv_omega
  · rintro - p hp
    obtain rfl := hreach hp
    exact onEeprom_of_aligned (by decide) (by decide)
  · exact fun h => absurd rfl h
  · exact onEeprom_of_aligned (by decide) (by decide)

/-- The loader is booted from that EEPROM. -/
theorem bootI2c24fc1025_boots_loader : ∃ bound, ∀ fuel ≥ bound,
    Returns (bootI2c24fc1025 64 roomyVars ⟨0x0200_0000, 0x1000_F000, 0x1000_0000, 0x0200_1800⟩ fuel
        I2c.instant instantSetup 50000000)
      ⟨fun _ => 0, ⟨false, [], [], ⟨fun _ => loaderEeprom, false, 0, .idle⟩⟩⟩ fun _ s' =>
      ∀ i < 1536, s'.mem (0x1000_0000 + .ofNat 64 i) =
        eepromDisk loaderEeprom (0x200 * 34 + .ofNat 64 i) := by
  have hbytes : bytesOf (eepromDisk loaderEeprom) 0 = 1536 := by decide
  have hbegin : (part (eepromDisk loaderEeprom) 0).lbaBegin = 34 := by decide
  have hbuf : Buffer Room 0x1000_0000 (bytesOf (eepromDisk loaderEeprom) 0) := by
    rw [hbytes]
    refine ⟨by decide, by decide, fun i hi h => ?_⟩
    unfold Room at h
    bv_omega
  let ptrs : BootPtrs := ⟨0x0200_0000, 0x1000_F000, 0x1000_0000, 0x0200_1800⟩
  let s : I2c.St Host :=
    ⟨fun _ => 0, ⟨false, [], [], ⟨fun _ => loaderEeprom, false, 0, .idle⟩⟩⟩
  have hd : 1 ≤ (64 : U64).toNat := by decide
  have hd' : (64 : U64).toNat ∣ 128 := by decide
  have hpos : (50000000 : U64) ≠ 0 := by decide
  have hmax : (50000000 : U64) ≤ 1000000000 := by decide
  have hrest : (id s.dev : Host).fmt = [] := rfl
  have hcont : (id s.dev : Host).content = loaderEeprom := rfl
  have hdisk : Bootable (eepromDisk loaderEeprom) (OnEeprom 64 Room) roomyVars ptrs.codeBuf 0 :=
    bootable_loaderEeprom
  refine (bootI2c24fc1025_boots prompt_instant setsUp_instantSetup hd hd' hpos hmax hrest hcont
    roomyVars_ok hdisk hbuf).mono ?_
  rintro l s' ⟨-, -, hload⟩
  have hcopied := hload.copied
  rwa [hbytes, hbegin] at hcopied

end Cheshire.Sw.Boot
