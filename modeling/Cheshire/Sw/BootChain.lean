import Cheshire.Sw.BootDisk
import Cheshire.Sw.ZslMem

/-!
The two stages of an autonomous boot: the boot ROM loads the zero-stage loader from a medium to the
SPM, and hands its read function over; the loader measures the core frequency, and reads the device
tree and the firmware with that function, from the same medium to DRAM.
-/

namespace Cheshire.Sw.Boot

open Lib Gpt GptMem ZslMem
open Zsl (Payload Part deviceTree firmware bootZslDtb bootZslFw)
open Clint (Half Counts CountsBehind reading)

/-! ### The chain -/

/-- How the chain may stop short of the firmware: with what the boot ROM returns, or where the
loader spins. -/
abbrev Halt := Option CInt ⊕ Option Zsl.Caught

/-- The boot ROM, and then the loader with its own global pointer and variables.  The functions that
lie at each address are `fns`. -/
def chain {S : Type} (mem : S → Mem 64) (boot : GptMem.PollM S Launch)
    (coreFreq : GptMem.PollM S U64) (console : Console S) (fns : (fn gp priv : U64) → ReadFn S)
    (vars : Vars) (fuel : ℕ) (zslGp : U64) (dtbSt fwSt : Zsl.Stack) : EStateM Halt S Payload := do
  let l ← zoom id (fun s _ => s) Sum.inl boot
  zoom (fun s => ⟨s, zslGp⟩) (fun t _ => t.dev) Sum.inr
    (ZslMem.main mem coreFreq console fns vars fuel dtbSt fwSt
      ⟨l.scratch0, l.scratch1, l.scratch3⟩)

/-- The pointers go through the scratch registers, the lowest bit of the function is free, and there
is a global pointer. -/
structure Passes (ptrs : BootPtrs) : Prop where
  read_lt : ptrs.read.toNat < 2 ^ 32
  read_even : ptrs.read &&& 1 = 0
  priv_lt : ptrs.priv.toNat < 2 ^ 32
  gp_lt : ptrs.gp.toNat < 2 ^ 32
  gp_ne : ptrs.gp ≠ 0

section Passes

lemma setWidth_setWidth_of_lt {x : U64} (h : x.toNat < 2 ^ 32) :
    (x.setWidth 32).setWidth 64 = x := by
  refine BitVec.eq_of_toNat_eq ?_
  simp only [BitVec.toNat_setWidth]
  omega

variable {ptrs : BootPtrs}

lemma or_one_and_not_one {x : U64} (heven : x &&& 1 = 0) :
    (x.setWidth 32 ||| 1) &&& ~~~1 = x.setWidth 32 := by
  refine BitVec.eq_of_getLsbD_eq fun i hi => ?_
  rw [BitVec.getLsbD_and, BitVec.getLsbD_or, BitVec.getLsbD_not]
  rcases Nat.eq_zero_or_pos i with rfl | hpos
  · have h0 := congrArg (fun y : U64 => y.getLsbD 0) heven
    have hx : x.getLsbD 0 = false := by simpa using h0
    simpa using hx
  · have h1 : (1 : U32).getLsbD i = false := by
      show (1#32).getLsbD i = false
      rw [BitVec.getLsbD_one]
      simpa using Nat.ne_of_gt hpos
    rw [h1]
    simp [hi]

lemma Passes.read (h : Passes ptrs) :
    ((launch ptrs).scratch0 &&& ~~~1).setWidth 64 = ptrs.read := by
  show ((ptrs.read.setWidth 32 ||| 1) &&& ~~~1).setWidth 64 = _
  rw [or_one_and_not_one h.read_even, setWidth_setWidth_of_lt h.read_lt]

lemma Passes.scratch3_ne (h : Passes ptrs) : (launch ptrs).scratch3 ≠ 0 := by
  intro h0
  have hback := setWidth_setWidth_of_lt h.gp_lt
  rw [show ptrs.gp.setWidth 32 = 0 from h0] at hback
  exact h.gp_ne hback.symm

lemma launch_gpt (ptrs : BootPtrs) : (launch ptrs).scratch0 &&& 1 ≠ 0 := by
  intro h
  have h0 := congrArg (fun y : U32 => y.getLsbD 0) h
  have hbit : ((launch ptrs).scratch0 &&& 1).getLsbD 0 = true := by
    show ((ptrs.read.setWidth 32 ||| 1) &&& 1 : U32).getLsbD 0 = true
    simp
  rw [hbit] at h0
  exact Bool.noConfusion h0

end Passes

/-! ### Both stages -/

section Chain

variable {S : Type} {mem : S → Mem 64} {disk : Mem 64} {Ready₀ Ready : S → Prop}
  {On : U64 → U64 → ℕ → Prop} {own own' : U64 → Prop} {vars vars' : Vars} {ptrs : BootPtrs}

/-- The memory behind the chain: the entry `z` of the loader is in the SPM, the entries `p` of the
device tree and `q` of the firmware are in DRAM, and besides what `Own` describes nothing else has
changed. -/
structure Chained (Own : U64 → Prop) (disk : Mem 64) (codeBuf : U64) (z p q : ℕ) (m m' : Mem 64) :
    Prop where
  zsl : ∀ i < bytesOf disk z, m' (codeBuf + .ofNat 64 i) =
    disk (0x200 * (part disk z).lbaBegin + .ofNat 64 i)
  dtb : ∀ i < bytesOf disk p, m' (bootZslDtb + .ofNat 64 i) =
    disk (0x200 * (part disk p).lbaBegin + .ofNat 64 i)
  fw : ∀ i < bytesOf disk q, m' (bootZslFw + .ofNat 64 i) =
    disk (0x200 * (part disk q).lbaBegin + .ofNat 64 i)
  kept : ∀ x, ¬ Own x → Mem.Outside codeBuf (bytesOf disk z) x →
    Mem.Outside bootZslDtb (bytesOf disk p) x → Mem.Outside bootZslFw (bytesOf disk q) x →
      m' x = m x

/-- Where the chain ends: in the firmware, or in a loader that spins for what the disk lacks. -/
def ChainEnds (Own : U64 → Prop) (disk : Mem 64) (codeBuf : U64) (z : ℕ)
    (m : EStateM Halt S Payload) (mem : S → Mem 64) (s : S) : Prop :=
  Ends m s
    (fun payload s' => payload = ⟨bootZslFw, 0, bootZslDtb, 0⟩ ∧ ∃ p q, FirstOf disk deviceTree p ∧
      FirstOf disk firmware q ∧ Chained Own disk codeBuf z p q (mem s) (mem s'))
    fun e _ => ∃ pt, (pt = deviceTree ∨ pt = firmware) ∧ e = .inr (some ⟨"No", pt⟩) ∧ NoneOf disk pt

/-- What the loader and its read function write besides what they load lies below the DRAM, apart
from the loader itself. -/
structure LoaderApart (own : U64 → Prop) (vars : Vars) (codeBuf : U64) (n : ℕ) : Prop where
  vars_ok : vars.Ok own
  own_lt : ∀ x, own x → x < bootZslFw
  mine_lt : ∀ x, vars.Mine x → x < bootZslFw
  code_le : codeBuf.toNat + n ≤ bootZslFw.toNat
  own_apart : ∀ i < n, ¬ own (codeBuf + .ofNat 64 i)
  mine_apart : ∀ i < n, ¬ vars.Mine (codeBuf + .ofNat 64 i)

lemma outside_of_lt {dst x : U64} {n : ℕ} (hlt : x.toNat < dst.toNat)
    (hle : dst.toNat + n ≤ 2 ^ 64) :
    Mem.Outside dst n x := by
  unfold Mem.Outside
  rw [BitVec.toNat_sub]
  omega

/-- The loader stays where it is while it loads. -/
lemma chained_of_staged {z p q : ℕ} {m m₁ m₂ : Mem 64}
    (ha : LoaderApart own' vars' ptrs.codeBuf (bytesOf disk z)) (hp : FirstOf disk deviceTree p)
    (hq : FirstOf disk firmware q) (h₁ : Booted own vars disk ptrs.codeBuf z m m₁)
    (h₂ : Staged own' vars' disk p q m₁ m₂) :
    Chained (fun x => own x ∨ vars.Mine x ∨ own' x ∨ vars'.Mine x) disk ptrs.codeBuf z p q m
      m₂ where
  zsl i hi := by
    have hle := ha.code_le
    have haddr : (ptrs.codeBuf + .ofNat 64 i).toNat < 0x8000_0000 := by
      have hbase : bootZslFw.toNat = 0x8000_0000 := rfl
      rw [BitVec.toNat_add, BitVec.toNat_ofNat]
      omega
    have hpmax : bytesOf disk p ≤ 0x200 * 64 := bytesOf_le hp
    have hqmax : bytesOf disk q ≤ 0x200 * 8192 := bytesOf_le hq
    have hdtb : Mem.Outside bootZslDtb (bytesOf disk p) (ptrs.codeBuf + .ofNat 64 i) :=
      outside_of_lt (Nat.lt_trans haddr (by decide)) (by show 0x8080_0000 + _ ≤ _; omega)
    have hfw : Mem.Outside bootZslFw (bytesOf disk q) (ptrs.codeBuf + .ofNat 64 i) :=
      outside_of_lt haddr (by show 0x8000_0000 + _ ≤ _; omega)
    rw [h₂.kept _ (ha.own_apart i hi) (ha.mine_apart i hi) hdtb hfw]
    exact h₁.copied i hi
  dtb := h₂.dtb
  fw := h₂.fw
  kept x hx hz hp hq := by
    simp only [not_or] at hx
    rw [h₂.kept x hx.2.2.1 hx.2.2.2 hp hq, h₁.kept x hx.1 hx.2.1 hz]

lemma ChainEnds.mono {Own Own' : U64 → Prop} {codeBuf : U64} {z : ℕ} {m : EStateM Halt S Payload}
    {s : S} (h : ChainEnds Own disk codeBuf z m mem s) (hOwn : ∀ x, Own x → Own' x) :
    ChainEnds Own' disk codeBuf z m mem s := by
  refine Ends.mono h ?_ fun _ _ he => he
  rintro payload s' ⟨hpayload, p, q, hp, hq, hch⟩
  exact ⟨hpayload, p, q, hp, hq, hch.zsl, hch.dtb, hch.fw,
    fun x hx => hch.kept x fun h => hx (hOwn x h)⟩

/-- **The chain**: where the boot ROM boots the entry `z` from a medium, the measurement comes to an
end, and the function that is handed over reads the same medium, the firmware is entered or the
loader spins. -/
theorem exists_chainEnds {boot : ℕ → GptMem.PollM S Launch} {coreFreq : ℕ → GptMem.PollM S U64}
    {console : Console S} {fns : ℕ → (fn gp priv : U64) → ReadFn S} {z : ℕ} {s : S}
    (hboot : Finishes boot s fun l s' =>
      Ready₀ s' ∧ l = launch ptrs ∧ Booted own vars disk ptrs.codeBuf z (mem s) (mem s'))
    (hfreq : ∃ bound, ∀ fuel ≥ bound, ∀ s, Ready₀ s →
      Returns (coreFreq fuel) s fun _ s' => Ready s' ∧ mem s' = mem s)
    (hcons : console.Ok mem Ready) (hpass : Passes ptrs) {bound : ℕ} (hm : ∀ fuel ≥ bound,
      Medium mem (fns fuel ptrs.read ptrs.gp ptrs.priv) disk Ready On own')
    (ha : LoaderApart own' vars' ptrs.codeBuf (bytesOf disk z))
    (hdtb : PartOn disk On vars' deviceTree) (hfw : PartOn disk On vars' firmware) (zslGp : U64)
    (dtbSt fwSt : Zsl.Stack) :
    ∃ bound, ∀ fuel ≥ bound,
      ChainEnds (fun x => own x ∨ vars.Mine x ∨ own' x ∨ vars'.Mine x) disk ptrs.codeBuf z
        (chain mem (boot fuel) (coreFreq fuel) console (fns fuel) vars' fuel zslGp dtbSt fwSt) mem
        s := by
  obtain ⟨boundBoot, hret⟩ := hboot
  obtain ⟨boundFreq, hfreq⟩ := hfreq
  refine ⟨boundBoot + boundFreq + bound + (header disk).count.toNat + 1, fun fuel hfuel => ?_⟩
  unfold ChainEnds chain
  refine Ends.bind (P := fun l s' => Ready₀ s' ∧ l = launch ptrs ∧
    Booted own vars disk ptrs.codeBuf z (mem s) (mem s'))
    (ends_zoom.mpr (hret fuel (by omega)).ends) ?_
  rintro - s₁ ⟨hs₁, rfl, hbooted⟩
  have hmedium := hm fuel (by omega)
  rw [← hpass.read, ← setWidth_setWidth_of_lt hpass.gp_lt,
    ← setWidth_setWidth_of_lt hpass.priv_lt] at hmedium
  have hgpt : (⟨(launch ptrs).scratch0, (launch ptrs).scratch1, (launch ptrs).scratch3⟩ :
      Zsl.Regs).scratch0 &&& 1 ≠ 0 := launch_gpt ptrs
  refine ends_zoom.mpr ((ends_main hgpt hpass.scratch3_ne hmedium ha.vars_ok ha.own_lt ha.mine_lt
    hdtb hfw (by omega) dtbSt fwSt hcons (hfreq fuel (by omega) s₁ hs₁)).mono ?_ ?_)
  · rintro payload s' ⟨-, hpayload, p, q, hp, hq, hstaged⟩
    exact ⟨hpayload, p, q, hp, hq, chained_of_staged ha hp hq hbooted hstaged⟩
  · rintro e s' (⟨he, hnone⟩ | ⟨he, hnone⟩)
    · exact ⟨deviceTree, .inl rfl, congrArg Sum.inr he, hnone⟩
    · exact ⟨firmware, .inr rfl, congrArg Sum.inr he, hnone⟩

end Chain

/-! ### From a card, and from a flash -/

section Media

variable {σ : Type} {elapse : U64 → σ → σ} {numCs : CInt} {depth : ℕ+} {coreFreq rtcFreq : U64}
  {first : Half} {s : St σ} {vars vars' : Vars} {ptrs : BootPtrs} {z : ℕ} {console : Console (St σ)}

/-- The measurement of the loader, on the timer that the boot ROM has left. -/
lemma exists_measures {Up : σ → Prop} (hstays : ∀ t d, Up d → Up (elapse t d))
    (hrtc : 2500 ≤ rtcFreq.toNat) {t₀ : Clint.St}
    (hcounts : Counts (reading first t₀.loads) (rtcFreq / 2500).toNat) :
    ∃ bound, ∀ fuel ≥ bound, ∀ s : St σ, Up s.dev ∧ s.clint = t₀ →
      Returns (onClint elapse (Clint.clintGetCoreFreq first fuel rtcFreq 2500)) s fun _ s' =>
        Up s'.dev ∧ s'.mem = s.mem := by
  have hticks : 1 ≤ (rtcFreq / 2500).toNat := by
    rw [BitVec.toNat_udiv]
    exact (Nat.one_le_div_iff (by decide)).mpr hrtc
  obtain ⟨bound, freq, t, hrun, -⟩ := Clint.settles_clintGetCoreFreq (by decide) hticks hcounts
  refine ⟨bound, fun fuel hfuel s ⟨hup, hclint⟩ => returns_zoom.mpr ?_⟩
  rw [hclint]
  exact returns_iff.mpr ⟨freq, t, hrun fuel hfuel, hstays _ _ hup, rfl⟩

/-- **The chain from an SD card.** -/
theorem sdcard_chainEnds {dif : SpiSdcard.SetupDif σ} {undef : SpiSdcard.Undefined}
    {content : ℕ → Byte} {served : Set ℕ} {bus : σ → SpiSdcard.Bus} {Up : σ → Prop}
    {coming : σ → Stream' Byte} {view : σ → SpiSdcard.View} {swap swap' : U64 → U64}
    (hc : BootCard depth dif (sdcard numCs) undef content served elapse coming view bus Up)
    (hcs : (0 : CInt).slt numCs = true) (hcore : 24 * 1000 * 1000 ≤ coreFreq)
    (hrtc : 2500 ≤ rtcFreq.toNat)
    (htimer : CountsBehind first s.clint ((1000 * rtcFreq) / (1000 * 1000) + 1)
      (rtcFreq / 2500).toNat)
    (hoff : (view s.dev).stage = .off) {lo hi lo' hi' : ℕ} (hf : Frame swap vars lo hi)
    (hd : Bootable (cardDisk content) (OnCard served) vars ptrs.codeBuf z)
    (hbuf : Buffer (OnStack lo hi) ptrs.codeBuf (bytesOf (cardDisk content) z))
    (hcons : console.Ok St.mem fun s => Readable bus Up s.dev) (hpass : Passes ptrs)
    (hf' : Frame swap' vars' lo' hi')
    (ha : LoaderApart (OnStack lo' hi') vars' ptrs.codeBuf (bytesOf (cardDisk content) z))
    (hdtb : PartOn (cardDisk content) (OnCard served) vars' deviceTree)
    (hfw : PartOn (cardDisk content) (OnCard served) vars' firmware)
    {fns : (fn gp priv : U64) → ReadFn (St σ)}
    (hfns : fns ptrs.read ptrs.gp ptrs.priv = sdcardRead dif.toDif numCs undef depth swap')
    (zslGp : U64) (dtbSt fwSt : Zsl.Stack) :
    ∃ bound, ∀ fuel ≥ bound,
      ChainEnds (fun x => OnStack lo hi x ∨ vars.Mine x ∨ OnStack lo' hi' x ∨ vars'.Mine x)
        (cardDisk content) ptrs.codeBuf z
        (chain St.mem
          (bootSpiSdcard elapse numCs depth first vars ptrs fuel dif undef swap coreFreq rtcFreq)
          (onClint elapse (Clint.clintGetCoreFreq first fuel rtcFreq 2500)) console fns vars' fuel
          zslGp dtbSt fwSt) St.mem s := by
  obtain ⟨_, t₀, hcounts, hwait⟩ := htimer.settles.exists_eq
  have hm : ∀ fuel ≥ 0, Medium St.mem ((fun _ : ℕ => fns) fuel ptrs.read ptrs.gp ptrs.priv)
      (cardDisk content) (fun s => Readable bus Up s.dev) (OnCard served) (OnStack lo' hi') := by
    intro _ _
    show Medium St.mem (fns ptrs.read ptrs.gp ptrs.priv) _ _ _ _
    rw [hfns]
    simpa only [and_true] using medium_sdcard hc.up hf' fun _ => True
  exact exists_chainEnds
    (bootSpiSdcard_boots hc hcs hcore (hwait.mono fun _ _ h => h.2) hoff hf hd hbuf)
    (exists_measures hc.stays hrtc hcounts) hcons hpass hm ha hdtb hfw zslGp dtbSt fwSt

/-- **The chain from a flash.** -/
theorem flash_chainEnds {dif : SpiS25fs512s.Dif σ} {host : HostSetup σ} {content : Mem 32}
    {clock : σ → U64} {on : σ → Bool} {Up : σ → Prop} (hdepth : 4 * (depth : ℕ) < 2 ^ 63)
    (hf : BootFlash depth dif host 1 content rtcFreq elapse clock on Up)
    (hcs : (1 : CInt).slt numCs = true) (hcore : 4 ≤ coreFreq) (hrtc : 2500 ≤ rtcFreq.toNat)
    (hrtc' : rtcFreq.toNat < 2 ^ 32) (hsteady : Clint.Steady first s.clint)
    (htimer : CountsBehind first s.clint ((350 * rtcFreq) / (1000 * 1000) + 1)
      (rtcFreq / 2500).toNat)
    (hv : vars.Ok fun _ => False) (hd : Bootable (flashDisk content) OnFlash vars ptrs.codeBuf z)
    (hbuf : Buffer (fun _ => False) ptrs.codeBuf (bytesOf (flashDisk content) z))
    (hcons : console.Ok St.mem fun s => Up s.dev) (hpass : Passes ptrs)
    (ha : LoaderApart (fun _ => False) vars' ptrs.codeBuf (bytesOf (flashDisk content) z))
    (hdtb : PartOn (flashDisk content) OnFlash vars' deviceTree)
    (hfw : PartOn (flashDisk content) OnFlash vars' firmware)
    {fns : ℕ → (fn gp priv : U64) → ReadFn (St σ)}
    (hfns : ∀ fuel, fns fuel ptrs.read ptrs.gp ptrs.priv =
      flashRead dif (s25fs512s coreFreq) depth fuel) (zslGp : U64) (dtbSt fwSt : Zsl.Stack) :
    ∃ bound, ∀ fuel ≥ bound,
      ChainEnds (fun x => vars.Mine x ∨ vars'.Mine x) (flashDisk content) ptrs.codeBuf z
        (chain St.mem (bootSpiS25fs512s elapse numCs depth first vars ptrs fuel dif host coreFreq
          rtcFreq) (onClint elapse (Clint.clintGetCoreFreq first fuel rtcFreq 2500)) console
          (fns fuel) vars' fuel zslGp dtbSt fwSt) St.mem s := by
  obtain ⟨_, t₀, hcounts, hwait⟩ := htimer.settles.exists_eq
  have hm : ∀ fuel ≥ 2 ^ 32 + 1, Medium St.mem (fns fuel ptrs.read ptrs.gp ptrs.priv)
      (flashDisk content) (fun s => Up s.dev) OnFlash fun _ => False := by
    intro fuel hfuel
    rw [hfns]
    simpa only [and_true] using medium_flash hdepth hf.up hfuel fun _ => True
  have hboot := bootSpiS25fs512s_boots hdepth hf hcs hcore hrtc' hsteady
    (hwait.mono fun _ _ h => h.2) hv hd hbuf
  obtain ⟨bound, hends⟩ := exists_chainEnds hboot (exists_measures hf.stays hrtc hcounts) hcons
    hpass hm ha hdtb hfw zslGp dtbSt fwSt
  refine ⟨bound, fun fuel hfuel => (hends fuel hfuel).mono ?_⟩
  rintro x (h | h | h | h)
  · exact h.elim
  · exact .inl h
  · exact h.elim
  · exact .inr h

end Media

/-! ### A disk with all three -/

/-- Where the variables of the reader lie, behind the buffer. -/
def sampleVars : Vars := ⟨0x1000_FF00, 0x1000_FF10, 0x1000_FF20, 0x1000_FF30⟩

/-- Memory between the buffer and the variables. -/
lemma buffer_of_own {own : U64 → Prop}
    (hown : ∀ x, own x → 0x1000_F000 ≤ x.toNat ∧ x.toNat < 0x1000_FF00) {p : U64} {n : ℕ}
    (hp : p ≠ 0) (hle : p.toNat + n ≤ 2 ^ 64)
    (hrange : p.toNat + n ≤ 0x1000_F000 ∨ 0x1000_FF00 ≤ p.toNat) : Buffer own p n := by
  refine ⟨hp, hle, fun i hi h => ?_⟩
  have hin := hown _ h
  rw [BitVec.toNat_add, BitVec.toNat_ofNat] at hin
  omega

lemma mine_sampleVars {x : U64} (h : sampleVars.Mine x) :
    0x1000_FF00 ≤ x.toNat ∧ x.toNat < 0x1000_FF40 := by
  by_contra hno
  have hout : ∀ (p : U64) (n : ℕ), 0x1000_FF00 ≤ p.toNat → p.toNat + n ≤ 0x1000_FF40 →
      Mem.Outside p n x := by
    intro p n hlo hhi
    unfold Mem.Outside
    rw [BitVec.toNat_sub]
    omega
  exact h ⟨hout _ _ (by decide) (by decide), hout _ _ (by decide) (by decide),
    hout _ _ (by decide) (by decide), hout _ _ (by decide) (by decide)⟩

lemma sampleVars_ok {own : U64 → Prop}
    (hown : ∀ x, own x → 0x1000_F000 ≤ x.toNat ∧ x.toNat < 0x1000_FF00) : sampleVars.Ok own where
  sig := buffer_of_own hown (by decide) (by decide) (by decide)
  hf := buffer_of_own hown (by decide) (by decide) (by decide)
  dim := buffer_of_own hown (by decide) (by decide) (by decide)
  guid := buffer_of_own hown (by decide) (by decide) (by decide)
  hf_dim := by
    unfold Apart Mem.Outside
    decide
  hf_guid := by
    unfold Apart Mem.Outside
    decide
  dim_guid := by
    unfold Apart Mem.Outside
    decide

/-- What the table of a disk leads to lies below `limit`. -/
def Below (disk : Mem 64) (limit : ℕ) : Prop :=
  0x258 ≤ limit ∧ ∀ p < (header disk).count.toNat,
    (peOffs (header disk) p + 0x20).toNat + 16 ≤ limit ∧
    (peOffs (header disk) p).toNat + 16 ≤ limit ∧
    (0x200 * (part disk p).lbaBegin).toNat + bytesOf disk p ≤ limit

instance (disk : Mem 64) (limit : ℕ) : Decidable (Below disk limit) :=
  inferInstanceAs (Decidable (_ ∧ _))

section Below

variable {disk : Mem 64} {On : U64 → U64 → ℕ → Prop} {limit : ℕ}

lemma Below.tableOn (hb : Below disk limit)
    (hon : ∀ buf addr len, addr.toNat + len ≤ limit → On buf addr len)
    (vars : Vars) (maxLbas : U64) (g : Guid) : TableOn disk On vars maxLbas (some g) none where
  hdr := hon _ _ _ (Nat.le_trans (by decide) hb.1)
  extent p hp := hon _ _ _ (hb.2 p hp.1).1
  type _ p hp := hon _ _ _ (hb.2 p hp.1).2.1
  ident h := absurd rfl h

/-- A medium that reaches far enough boots the second entry of a disk. -/
lemma Below.bootable (hb : Below disk limit)
    (hon : ∀ buf addr len, addr.toNat + len ≤ limit → On buf addr len)
    (hsigned : Signed disk) (hcount : 1 < (header disk).count.toNat)
    (h₀ : ¬ Viable disk bootSpmMaxLbas (some bootZslTypeGuid) none 0)
    (h₁ : Viable disk bootSpmMaxLbas (some bootZslTypeGuid) none 1) (vars : Vars) (codeBuf : U64) :
    Bootable disk On vars codeBuf 1 where
  signed := hsigned
  first := by
    refine ⟨⟨hcount, h₁⟩, fun q hq => ?_⟩
    rcases Nat.eq_zero_or_pos q with rfl | hpos
    · exact absurd hq.2 h₀
    · exact hpos
  signature := hon _ _ _ (Nat.le_trans (by decide) hb.1)
  table := hb.tableOn hon _ _ _
  part := hon _ _ _ (hb.2 1 hcount).2.2

end Below

/-- A disk on a card. -/
def onCardOf (disk : Mem 64) (n : ℕ) : Byte := disk (.ofNat 64 n)

lemma cardDisk_onCardOf (disk : Mem 64) : cardDisk (onCardOf disk) = disk := by
  funext a
  rw [cardDisk, onCardOf, BitVec.ofNat_toNat, BitVec.setWidth_eq]

/-- The mask is all ones, and `buf` was zero before the check word came. -/
lemma bootCard_wakingDif (size : ℕ) (content : ℕ → Byte) :
    BootCard 64 (SpiSdcard.wakingDif size content) (sdcard 2) ⟨-1, 0⟩ content {b | b < size}
      (fun _ d => d) (fun d => d.bus.coming) SpiSdcard.Waking.view SpiSdcard.Waking.bus
      SpiSdcard.Waking.Up where
  clear := by
    unfold SpiSdcard.Undefined.Clear
    decide
  wakes := SpiSdcard.wakes_wakingDif size content (2 - 1)
  up := SpiSdcard.cardUp_wakingDif 64 size content _
  readable clock d _ hview := by
    have hready : d.view.stage = .ready := by rw [hview]
    exact ⟨.inl hready, d.idle hready⟩
  stays _ _ h := h

/-- A disk on a flash. -/
def onFlashOf (disk : Mem 64) : Mem 32 := fun a => disk (a.setWidth 64)

/-- A host with a flash, and the time. -/
structure Powering where
  clock : U64
  on : Bool
  now : U64

/-- The flash has had its power for long enough, at 1 kHz. -/
def Powering.Up (d : Powering) : Prop :=
  d.clock < 50 * 1000 * 1000 ∧ d.on = true ∧ 300 * 1000 ≤ 1000000 * d.now.toNat

instance (d : Powering) : Decidable d.Up := inferInstanceAs (Decidable (_ ∧ _))

/-- The flash gives its bytes once it is up. -/
def poweringDif (content : Mem 32) : SpiS25fs512s.Dif Powering where
  transaction _ segs d :=
    ((0, match segs with
      | [.opcode _, .address a, .rx n] => if d.Up then content.slice a n else []
      | _ => []), d)

/-- Its host. -/
def poweringHost : HostSetup Powering where
  init d := (0, d)
  reset d := d
  configureCs cfg _ d := (0, ⟨cfg.spiClock, d.on, d.now⟩)
  enable _ d := d
  outputSetEnabled b d := (0, ⟨d.clock, b, d.now⟩)

lemma setsUp_poweringHost : SpiS25fs512s.SetsUp poweringHost 1 Powering.clock Powering.on where
  init _ := rfl
  configure _ _ _ _ := ⟨rfl, rfl⟩
  enable _ _ := rfl
  output _ _ := ⟨rfl, rfl, rfl⟩

lemma flashUp_poweringDif (depth : ℕ+) (content : Mem 32) :
    SpiS25fs512s.FlashUp depth (poweringDif content) 1 content Powering.Up where
  reads a n d _ hup := by
    refine ⟨?_, hup⟩
    show ((0 : CInt), if d.Up then content.slice (.ofNat 32 a) n else []) = _
    rw [if_pos hup]

/-- Time passes, and never goes back. -/
def Powering.elapse (t : U64) (d : Powering) : Powering :=
  ⟨d.clock, d.on, if d.now ≤ t then t else d.now⟩

lemma Powering.le_elapse (t : U64) (d : Powering) :
    t.toNat ≤ (d.elapse t).now.toNat ∧ d.now.toNat ≤ (d.elapse t).now.toNat := by
  unfold Powering.elapse
  by_cases h : d.now ≤ t
  · rw [if_pos h]
    exact ⟨Nat.le_refl _, h⟩
  · rw [if_neg h]
    exact ⟨BitVec.le_def.mp (BitVec.le_of_lt (BitVec.not_le.mp h)), Nat.le_refl _⟩

lemma bootFlash_poweringDif (content : Mem 32) {rtcFreq : U64} (hrtc : 1000 ≤ rtcFreq.toNat) :
    BootFlash 64 (poweringDif content) poweringHost 1 content rtcFreq Powering.elapse Powering.clock
      Powering.on Powering.Up where
  setsUp := setsUp_poweringHost
  up := flashUp_poweringDif 64 content
  powers t d hclock hon ht := by
    have hle := (d.le_elapse t).1
    refine ⟨hclock, hon, ?_⟩
    show 300 * 1000 ≤ 1000000 * (d.elapse t).now.toNat
    omega
  stays t d hup := by
    have hle := (d.le_elapse t).2
    obtain ⟨hclock, hon, hnow⟩ := hup
    exact ⟨hclock, hon, hnow.trans (Nat.mul_le_mul_left _ hle)⟩

/-- A UART that takes what is printed. -/
def promptConsole (S : Type) : Console S := ⟨fun _ => pure (), pure ()⟩

lemma promptConsole_ok {S : Type} (mem : S → Mem 64) (Ready : S → Prop) :
    (promptConsole S).Ok mem Ready where
  init _ _ hs := ⟨hs, rfl⟩
  print _ hs := ⟨hs, rfl⟩

/-- A disk with four entries: one that is too long, the loader, a device tree and a firmware. -/
def chainDisk : Mem 64 :=
  let m : Mem 64 := fun _ => 0
  let m := m.write 0x200 (toLe 8 0x5452415020494645)
  let m := m.write 0x248 (toLe 8 2 ++ toLe 4 4 ++ toLe 4 128)
  let m := m.write 0x420 (toLe 8 34 ++ toLe 8 1000)
  let m := m.write 0x480 (toLe 8 0x4CE4FD950269B26A ++ toLe 8 0x622C41011494CF98 ++ toLe 16 0 ++
    toLe 8 2048 ++ toLe 8 2100)
  let m := m.write 0x500 (toLe 8 0x42DE2AEFBA442F61 ++ toLe 8 0x9DCB3A5DD7E43392 ++ toLe 16 0 ++
    toLe 8 2200 ++ toLe 8 2230)
  m.write 0x580 (toLe 8 0x4B0D3F5B99EC86DA ++ toLe 8 0x59F8A5CFBAC44B8F ++ toLe 16 0 ++
    toLe 8 3000 ++ toLe 8 9000)

/-- What its table leads to lies below the LBA 12288. -/
lemma below_chainDisk : Below chainDisk 0x600000 := by
  decide

lemma Below.partOn {disk : Mem 64} {On : U64 → U64 → ℕ → Prop} {limit : ℕ} (hb : Below disk limit)
    (hon : ∀ buf addr len, addr.toNat + len ≤ limit → On buf addr len) (vars : Vars) (pt : Part) :
    PartOn disk On vars pt where
  table := hb.tableOn hon _ _ _
  copy p hp := hon _ _ _ (hb.2 p hp.1.1).2.2

/-- A loader with its stack and its variables behind it. -/
lemma loaderApart_sampleVars {own : U64 → Prop}
    (hown : ∀ x, own x → 0x1000_F000 ≤ x.toNat ∧ x.toNat < 0x1000_FF00) {n : ℕ} (hn : n ≤ 0xF000) :
    LoaderApart own sampleVars 0x1000_0000 n := by
  have hcode : ∀ i < n, ((0x1000_0000 : U64) + .ofNat 64 i).toNat < 0x1000_F000 := by
    intro i hi
    rw [BitVec.toNat_add, BitVec.toNat_ofNat]
    show (0x1000_0000 + i % 2 ^ 64) % 2 ^ 64 < _
    omega
  refine ⟨sampleVars_ok hown, fun x hx => ?_, fun x hx => ?_, ?_, fun i hi h => ?_,
    fun i hi h => ?_⟩
  · rw [BitVec.lt_def]
    exact Nat.lt_trans (hown x hx).2 (by decide)
  · rw [BitVec.lt_def]
    exact Nat.lt_trans (mine_sampleVars hx).2 (by decide)
  · show 0x1000_0000 + n ≤ 0x8000_0000
    omega
  · exact Nat.not_le.mpr (hcode i hi) (hown _ h).1
  · have hlt := hcode i hi
    have hle := (mine_sampleVars h).1
    omega

lemma passes_samplePtrs : Passes samplePtrs := by
  constructor <;> decide

/-- The chain from a card with that disk: the variables of both stages lie at the same place. -/
theorem sdcard_chainEnds_sample :
    ∃ bound, ∀ fuel ≥ bound, ChainEnds
      (fun x => OnStack 0x1000_F000 0x1000_F200 x ∨ sampleVars.Mine x ∨
        OnStack 0x1000_F400 0x1000_F600 x ∨ sampleVars.Mine x) chainDisk 0x1000_0000 1
      (chain St.mem (bootSpiSdcard (fun _ d => d) 2 64 .high sampleVars samplePtrs fuel
          (SpiSdcard.wakingDif 12288 (onCardOf chainDisk)) ⟨-1, 0⟩ (fun _ => 0x1000_F000) 50000000
          2500)
        (onClint (fun _ d => d) (Clint.clintGetCoreFreq .high fuel 2500 2500)) (promptConsole _)
        (fun _ _ _ => sdcardRead (SpiSdcard.wakingDif 12288 (onCardOf chainDisk)).toDif 2 ⟨-1, 0⟩ 64
          fun _ => 0x1000_F400) sampleVars fuel 0x1000_1800 ⟨0, 0⟩ ⟨0, 0⟩) St.mem
      ⟨fun _ => 0, ⟨⟨.off, 0, false⟩, ⟨Stream'.const 0xFF, .idle⟩, fun _ => rfl⟩,
        Clint.St.sevenTicks⟩ := by
  have hon : ∀ buf addr len, addr.toNat + len ≤ 0x600000 → OnCard {b | b < 12288} buf addr len := by
    refine fun _ addr len h => ⟨Nat.le_trans h (by decide), fun i hi => ?_⟩
    show (addr.toNat + i) / 512 < 12288
    omega
  have hown : ∀ x, OnStack 0x1000_F000 0x1000_F200 x →
      0x1000_F000 ≤ x.toNat ∧ x.toNat < 0x1000_FF00 :=
    fun x hx => ⟨hx.1, Nat.lt_trans hx.2 (by decide)⟩
  have hown' : ∀ x, OnStack 0x1000_F400 0x1000_F600 x →
      0x1000_F000 ≤ x.toNat ∧ x.toNat < 0x1000_FF00 :=
    fun x hx => ⟨Nat.le_trans (by decide) hx.1, Nat.lt_trans hx.2 (by decide)⟩
  have hboot : Bootable chainDisk (OnCard {b | b < 12288}) sampleVars samplePtrs.codeBuf 1 :=
    below_chainDisk.bootable hon (show disk64 chainDisk 0x200 = _ by decide) (by decide) (by decide)
      (by decide) _ _
  have hbytes : bytesOf chainDisk 1 ≤ 0xF000 := by decide
  have hbuf : Buffer (OnStack 0x1000_F000 0x1000_F200) samplePtrs.codeBuf (bytesOf chainDisk 1) :=
    buffer_of_own hown (by decide) (by decide) (by decide)
  have hloader := loaderApart_sampleVars hown' hbytes
  have hdtb := below_chainDisk.partOn hon sampleVars deviceTree
  have hfw := below_chainDisk.partOn hon sampleVars firmware
  have hdisk := cardDisk_onCardOf chainDisk
  generalize onCardOf chainDisk = content at hdisk ⊢
  rw [← hdisk] at hboot hbuf hloader hdtb hfw ⊢
  exact sdcard_chainEnds (bootCard_wakingDif 12288 _) (by decide) (by decide) (by decide)
    (Clint.countsBehind_sevenTicks (n := 3) (by decide)) rfl
    ⟨by decide, by decide, fun _ => ⟨by decide, by decide⟩, sampleVars_ok hown⟩ hboot hbuf
    (promptConsole_ok _ _) passes_samplePtrs
    ⟨by decide, by decide, fun _ => ⟨by decide, by decide⟩, sampleVars_ok hown'⟩ hloader hdtb hfw
    rfl _ _ _

/-- The chain from a flash with that disk. -/
theorem flash_chainEnds_sample :
    ∃ bound, ∀ fuel ≥ bound, ChainEnds (fun x => sampleVars.Mine x ∨ sampleVars.Mine x)
      (flashDisk (onFlashOf chainDisk)) 0x1000_0000 1
      (chain St.mem (bootSpiS25fs512s Powering.elapse 2 64 .high sampleVars samplePtrs fuel
          (poweringDif (onFlashOf chainDisk)) poweringHost 50000000 2500)
        (onClint Powering.elapse (Clint.clintGetCoreFreq .high fuel 2500 2500)) (promptConsole _)
        (fun _ _ _ => flashRead (poweringDif (onFlashOf chainDisk)) (s25fs512s 50000000) 64 fuel)
        sampleVars fuel 0x1000_1800 ⟨0, 0⟩ ⟨0, 0⟩) St.mem
      ⟨fun _ => 0, ⟨0, false, 0⟩, Clint.St.sevenTicks⟩ := by
  have hon : ∀ buf addr len, addr.toNat + len ≤ 0x600000 → OnFlash buf addr len :=
    fun _ _ _ h => Nat.le_trans h (by decide)
  have hbelow : Below (flashDisk (onFlashOf chainDisk)) 0x600000 := by decide
  have hboot : Bootable (flashDisk (onFlashOf chainDisk)) OnFlash sampleVars samplePtrs.codeBuf 1 :=
    hbelow.bootable hon (show disk64 (flashDisk (onFlashOf chainDisk)) 0x200 = _ by decide)
      (by decide) (by decide) (by decide) _ _
  have hbytes : bytesOf (flashDisk (onFlashOf chainDisk)) 1 ≤ 0xF000 := by decide
  have hbuf : Buffer (fun _ => False) samplePtrs.codeBuf
      (bytesOf (flashDisk (onFlashOf chainDisk)) 1) :=
    buffer_of_own (fun _ h => h.elim) (by decide) (by decide) (by decide)
  exact flash_chainEnds (by decide) (bootFlash_poweringDif _ (by decide)) (by decide) (by decide)
    (by decide) (by decide) Clint.timed_sevenTicks.steady
    (Clint.countsBehind_sevenTicks (n := 1) (by decide)) (sampleVars_ok fun _ h => h.elim) hboot
    hbuf (promptConsole_ok _ _) passes_samplePtrs (loaderApart_sampleVars (fun _ h => h.elim) hbytes)
    (hbelow.partOn hon _ _) (hbelow.partOn hon _ _) (fun _ => rfl) _ _ _

end Cheshire.Sw.Boot
