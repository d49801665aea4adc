import Cheshire.Sw.S25fs512sRead
import Cheshire.Sw.SpiHost

/-!
The S25FS512S set up and in use: `spi_s25fs512s_init`, and reads of a flash that is up.
-/

namespace Cheshire.Sw.SpiS25fs512s

open Lib

/-! ### The setup -/

section Code

variable {σ : Type}

/-- `CHECK_CALL` on a function that sets up the host. -/
def checkSetup (call : σ → CInt × σ) : CM (St σ) Unit := fun s =>
  if (call s.dev).1 ≠ 0 then .error (call s.dev).1 ⟨s.mem, (call s.dev).2⟩
  else .ok () ⟨s.mem, (call s.dev).2⟩

/-- A function that sets up the host and returns nothing. -/
def callSetup (call : σ → σ) : CM (St σ) Unit := fun s => .ok () ⟨s.mem, call s.dev⟩

/-- `spi_s25fs512s_init`, with `SPI_HOST_PARAM_NUM_C_S` being `numCs`. -/
def spiS25fs512sInit (host : HostSetup σ) (numCs : CInt) (handle : Handle) (coreFreq : U64) :
    CM (St σ) Unit := do
  checkAssert 0x12 (handle.csid.slt numCs = true)
  checkAssert 0x13 (handle.spiFreq ≠ 0)
  checkAssert 0x14 (handle.spiFreq ≤ coreFreq)
  checkSetup host.init
  callSetup host.reset
  let config : HostConfig := ⟨⟨0xF, 0xF, 0xF⟩, false, false, false, coreFreq, handle.spiFreq⟩
  checkSetup (host.configureCs config handle.csid)
  callSetup (host.enable true)
  checkSetup (host.outputSetEnabled true)

end Code

/-- A host that can be set up: it takes a clock that is not above its own. -/
structure SetsUp {σ : Type} (host : HostSetup σ) (csid : CInt) (clock : σ → U64) (on : σ → Bool) :
    Prop where
  init : ∀ s, (host.init s).1 = 0
  configure : ∀ cfg s, cfg.spiClock ≠ 0 → cfg.spiClock ≤ cfg.peripheralClockFreqHz →
    (host.configureCs cfg csid s).1 = 0 ∧ clock (host.configureCs cfg csid s).2 = cfg.spiClock
  enable : ∀ b s, clock (host.enable b s) = clock s
  output : ∀ b s, (host.outputSetEnabled b s).1 = 0 ∧
    clock (host.outputSetEnabled b s).2 = clock s ∧ on (host.outputSetEnabled b s).2 = b

section Setup

variable {σ : Type} {host : HostSetup σ} {handle : Handle} {clock : σ → U64} {on : σ → Bool}

lemma returns_checkSetup {call : σ → CInt × σ} {s : St σ} {Q : Unit → St σ → Prop}
    (h0 : (call s.dev).1 = 0) (hQ : Q () ⟨s.mem, (call s.dev).2⟩) :
    Returns (checkSetup call) s Q := by
  have hrun : (checkSetup call).run s = .ok () ⟨s.mem, (call s.dev).2⟩ := if_neg (not_not.mpr h0)
  exact returns_iff.mpr ⟨_, _, hrun, hQ⟩

/-- **The setup** of the host gives the flash its clock. -/
theorem returns_spiS25fs512sInit (hset : SetsUp host handle.csid clock on) {numCs : CInt}
    {coreFreq : U64} (hcsid : handle.csid.slt numCs = true) (h0 : handle.spiFreq ≠ 0)
    (hle : handle.spiFreq ≤ coreFreq) (s : St σ) :
    Returns (spiS25fs512sInit host numCs handle coreFreq) s fun _ s' =>
      s'.mem = s.mem ∧ clock s'.dev = handle.spiFreq ∧ on s'.dev = true := by
  unfold spiS25fs512sInit
  refine returns_bind.mpr (returns_checkAssert.mpr ⟨hcsid, ?_⟩)
  refine returns_bind.mpr (returns_checkAssert.mpr ⟨h0, ?_⟩)
  refine returns_bind.mpr (returns_checkAssert.mpr ⟨hle, ?_⟩)
  refine returns_bind.mpr (returns_checkSetup (hset.init _) ?_)
  refine returns_bind.mpr ?_
  obtain ⟨hret, hclock⟩ := hset.configure
    ⟨⟨0xF, 0xF, 0xF⟩, false, false, false, coreFreq, handle.spiFreq⟩
    (host.reset (host.init s.dev).2) h0 hle
  refine returns_bind.mpr (returns_checkSetup hret ?_)
  refine returns_bind.mpr ?_
  obtain ⟨hret', hclock', hon⟩ := hset.output true (host.enable true _)
  refine returns_checkSetup hret' ⟨rfl, ?_, hon⟩
  rw [hclock', hset.enable, hclock]

end Setup

/-! ### Reads -/

/-- **A flash that is up**: a transaction that reads as many bytes as the FIFO can hold gives them,
and the flash stays up. -/
structure FlashUp {σ : Type} (depth : ℕ+) (dif : Dif σ) (csid : CInt) (content : Mem 32)
    (Up : σ → Prop) : Prop where
  reads : ∀ a n s, n ≤ 4 * (depth : ℕ) → Up s →
    (dif.transaction csid (readSegs a n) s).1 = (0, content.slice (.ofNat 32 a) n) ∧
    Up (dif.transaction csid (readSegs a n) s).2

section Up

variable {σ : Type} {dif : Dif σ} {handle : Handle} {depth : ℕ+} {content : Mem 32} {Up : σ → Prop}
  {m : Mem 64} {buf addr len : U64}

/-- The flash is up, and the first `k` bytes are in the buffer. -/
structure Filled (Up : σ → Prop) (content : Mem 32) (buf addr : U64) (m : Mem 64) (k : ℕ)
    (s : St σ) : Prop where
  up : Up s.dev
  mem : s.mem = m.write buf (content.slice (addr.setWidth 32) k)

/-- A chunk of a read. -/
lemma FlashUp.returns_chunk (hf : FlashUp depth dif handle.csid content Up)
    (hrange : addr.toNat + len.toNat ≤ 2 ^ 32) {offs k : ℕ} {s : St σ} (hk : k ≤ 4 * (depth : ℕ))
    (hle : offs + k ≤ len.toNat) (hs : Filled Up content buf addr m offs s) :
    Returns (singleReadChunk dif handle (buf + .ofNat 64 offs) (addr + .ofNat 64 offs)
      (.ofNat 64 k))
      s fun _ s' => Filled Up content buf addr m (offs + k) s' := by
  have haddr : (addr + .ofNat 64 offs).setWidth 32 = BitVec.ofNat 32 (addr.toNat + offs) := by
    refine BitVec.eq_of_toNat_eq ?_
    simp only [BitVec.toNat_setWidth, BitVec.toNat_add, BitVec.toNat_ofNat]
    omega
  have hrx : (BitVec.ofNat 64 k).toNat = k := by
    rw [BitVec.toNat_ofNat]
    exact Nat.mod_eq_of_lt (by omega)
  obtain ⟨hret, hup⟩ := hf.reads (addr.toNat + offs) k s.dev hk hs.up
  unfold singleReadChunk
  rw [haddr, hrx]
  show Returns (checkRx dif handle _ (readSegs (addr.toNat + offs) k)) s _
  refine returns_iff_ends.mpr (ends_checkRx (fun _ => ⟨hup, ?_⟩) fun h0 => ?_)
  · have hslice :
        BitVec.ofNat 32 (addr.toNat + offs) = addr.setWidth 32 + BitVec.ofNat 32 offs := by
      rw [← haddr, setWidth_add_ofNat]
    show s.mem.write _ (dif.transaction handle.csid (readSegs (addr.toNat + offs) k) s.dev).1.2 = _
    rw [hret, hs.mem, write_chunk m content (Nat.le_of_eq (Mem.length_slice _ _ k)) (by omega),
      hslice, Mem.slice_append]
  · exact h0 (by rw [hret])

variable (buf) in
/-- **A read of a flash that is up.** -/
theorem FlashUp.returns_read (hf : FlashUp depth dif handle.csid content Up)
    (hfreq : handle.spiFreq < 50 * 1000 * 1000) (hdepth : 4 * (depth : ℕ) < 2 ^ 63)
    (hrange : addr.toNat + len.toNat ≤ 2 ^ 32) {fuel : ℕ} (hfuel : 2 ^ 32 < fuel) {s : St σ}
    (hup : Up s.dev) :
    Returns (spiS25fs512sSingleRead dif handle depth fuel buf addr len) s fun _ s' =>
      Up s'.dev ∧ s'.mem = s.mem.write buf (content.slice (addr.setWidth 32) len.toNat) := by
  have hstep : ∀ offs k s', 1 ≤ k → k ≤ 4 * (depth : ℕ) → offs + k ≤ len.toNat →
      Filled Up content buf addr s.mem offs s' →
      Ends (singleReadChunk dif handle (buf + .ofNat 64 offs) (addr + .ofNat 64 offs) (.ofNat 64 k))
        s' (fun _ s'' => Filled Up content buf addr s.mem (offs + k) s'') fun _ _ => False :=
    fun offs k s' _ hk hle hs => (hf.returns_chunk hrange hk hle hs).ends
  have hzero : Filled Up content buf addr s.mem (min (0 : U64).toNat len.toNat) s := by
    rw [show (0 : U64).toNat = 0 from rfl, Nat.zero_min]
    exact ⟨hup, rfl⟩
  unfold spiS25fs512sSingleRead
  rw [if_pos hfreq]
  have hloop := ends_readLoop hdepth (by omega) hstep fuel 0 s hzero
  refine returns_iff_ends.mpr (hloop.mono (fun _ s' hs' => ⟨hs'.up, hs'.mem⟩) ?_)
  rintro e s' (⟨-, hle⟩ | h)
  · omega
  · exact h

end Up

end Cheshire.Sw.SpiS25fs512s
