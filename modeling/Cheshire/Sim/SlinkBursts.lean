import Cheshire.Sim.SlinkPreload

/-!
The bursts of `slink_elf_preload`.  They are as long as the address of the section says nothing of
where pages end: a section that does not start with a burst's alignment is cut across the boundaries
of its pages.
-/

namespace Cheshire.Sim.Slink

open Lib Lib.Axi Lib.Load

/-! ### The calls -/

/-- A call of `slink_write_beats` by `slink_elf_preload`. -/
structure Write where
  addr : Addr
  beats : List (BitVec 64)

/-- The call at the byte `i` of a section.  The address is computed as a `longint`. -/
def writeAt (addr : BitVec 64) (bf : List Byte) (i : ℕ) : Write :=
  ⟨(addr + .ofNat 64 (if i = 0 then 0 else i - addr.toNat % AxiStrbWidth)).setWidth 48,
    beatsFrom bf (addr.toNat % AxiStrbWidth) i 0⟩

/-- The calls from the byte `i` of a section on. -/
def writesFrom (addr : BitVec 64) (bf : List Byte) (i : ℕ) : List Write :=
  if i ≤ bf.length then writeAt addr bf i :: writesFrom addr bf (i + SlinkBurstBytes) else []
termination_by bf.length + 1 - i
decreasing_by
  unfold SlinkBurstBytes
  omega

/-- The burst on the address channel. -/
def Write.ax (w : Write) : AxBeat 48 := ⟨w.addr, BitVec.ofNat 8 (w.beats.length - 1), AxiStrbBits⟩

/-- All beats lie in the page of the first one. -/
def Write.InPage (w : Write) : Prop :=
  ∀ j < w.beats.length, (w.ax.addrOf j).toNat / 4096 = w.addr.toNat / 4096

/-- A legal burst of AXI4 that increments its address. -/
structure Write.Legal (w : Write) : Prop where
  nonempty : 1 ≤ w.beats.length
  short : w.beats.length ≤ 256
  inPage : w.InPage

/-- A section, on the bus. -/
def onBus (addr : BitVec 64) (bf : List Byte) : Piece 48 := ⟨addr.setWidth 48, bf⟩

lemma lane_onBus (addr : BitVec 64) (bf : List Byte) :
    lane (onBus addr bf).addr = addr.toNat % AxiStrbWidth := by
  unfold lane onBus AxiStrbWidth
  rw [BitVec.toNat_setWidth]
  omega

lemma addr_writeAt (addr : BitVec 64) (bf : List Byte) (i : ℕ) : (writeAt addr bf i).addr =
    BitVec.ofNat 48 ((onBus addr bf).addr.toNat +
      if i = 0 then 0 else i - (onBus addr bf).addr.toNat % AxiStrbWidth) := by
  have hlane := lane_onBus addr bf
  unfold lane at hlane
  rw [hlane, writeAt, onBus]
  refine BitVec.eq_of_toNat_eq ?_
  simp only [BitVec.toNat_setWidth, BitVec.toNat_add, BitVec.toNat_ofNat]
  omega

/-- **The calls are those of the preload.** -/
theorem burstsFrom_eq_writes (addr : BitVec 64) (bf : List Byte) (i : ℕ) (m : Mem 48) :
    burstsFrom (onBus addr bf) i m = (writesFrom addr bf i).foldlM
      (fun m w => slinkWriteBeats w.addr AxiStrbBits w.beats m) m := by
  induction i using writesFrom.induct bf generalizing m with
  | case1 i hi ih =>
    have hbeats : beatsFrom bf (lane (onBus addr bf).addr) i 0 = (writeAt addr bf i).beats := by
      rw [lane_onBus]
      rfl
    have hlen : i ≤ (onBus addr bf).bytes.length := hi
    rw [burstsFrom, writesFrom, if_pos hlen, if_pos hi, List.foldlM_cons, addr_writeAt, ← hbeats]
    refine congrArg _ (funext fun m' => ?_)
    exact ih m'
  | case2 i hi =>
    have hlen : ¬ i ≤ (onBus addr bf).bytes.length := hi
    rw [burstsFrom, writesFrom, if_neg hlen, if_neg hi]
    rfl

/-- There is a call at every multiple of the length of a burst. -/
lemma mem_writesFrom {addr : BitVec 64} {bf : List Byte} {w : Write} (i : ℕ) :
    w ∈ writesFrom addr bf i ↔
      ∃ k, i + SlinkBurstBytes * k ≤ bf.length ∧ w = writeAt addr bf (i + SlinkBurstBytes * k) := by
  induction i using writesFrom.induct bf with
  | case1 i hi ih =>
    rw [writesFrom, if_pos hi, List.mem_cons, ih]
    constructor
    · rintro (rfl | ⟨k, hk, rfl⟩)
      · exact ⟨0, hi, rfl⟩
      · have hnext : i + SlinkBurstBytes * (k + 1) = i + SlinkBurstBytes + SlinkBurstBytes * k := by
          ring
        exact ⟨k + 1, hnext ▸ hk, by rw [hnext]⟩
    · rintro ⟨k, hk, rfl⟩
      cases k with
      | zero => exact .inl rfl
      | succ k =>
        have hnext : i + SlinkBurstBytes * (k + 1) = i + SlinkBurstBytes + SlinkBurstBytes * k := by
          ring
        exact .inr ⟨k, hnext ▸ hk, by rw [hnext]⟩
  | case2 i hi =>
    rw [writesFrom, if_neg hi]
    refine iff_of_false List.not_mem_nil ?_
    rintro ⟨k, hk, -⟩
    omega

/-! ### Their beats and addresses -/

lemma length_writeAt (addr : BitVec 64) (bf : List Byte) (i : ℕ) : (writeAt addr bf i).beats.length =
    min 128 ((bf.length + addr.toNat % 8 - i + 7) / 8) := by
  have hbeats := beatsFrom_eq (onBus addr bf) i (beatCount (onBus addr bf) i) 0 (Nat.add_zero _)
  rw [lane_onBus, Nat.mul_zero] at hbeats
  have hcount : beatCount (onBus addr bf) i = min 128 ((bf.length + addr.toNat % 8 - i + 7) / 8) := by
    rw [beatCount, lane_onBus]
    rfl
  rw [writeAt, ← hcount]
  show (beatsFrom (onBus addr bf).bytes _ i 0).length = _
  rw [hbeats]
  simp

/-- The bus word in which a call starts. -/
lemma word_writeAt (addr : BitVec 64) (bf : List Byte) {i : ℕ} (hi : SlinkBurstBytes ∣ i) :
    (writeAt addr bf i).addr.toNat / 8 * 8 = (addr.toNat / 8 * 8 + i) % 2 ^ 48 := by
  unfold SlinkBurstBytes at hi
  rw [writeAt]
  simp only [BitVec.toNat_setWidth, BitVec.toNat_add, BitVec.toNat_ofNat, AxiStrbWidth]
  split
  · omega
  · omega

/-- A burst stays in its page when its bus words do. -/
lemma inPage_iff {w : Write} (hpos : 1 ≤ w.beats.length) (hle : w.beats.length ≤ 256) :
    w.InPage ↔ w.addr.toNat / 8 * 8 % 4096 + 8 * w.beats.length ≤ 4096 := by
  have hlt := w.addr.isLt
  have haddr (j : ℕ) (hj : j ≠ 0) (hj256 : j < 256) :
      (w.ax.addrOf j).toNat = (w.addr.toNat / 8 * 8 + 8 * j) % 2 ^ 48 := by
    rw [AxBeat.addrOf, if_neg hj]
    simp only [Write.ax, AxiStrbBits, BitVec.toNat_add, BitVec.toNat_shiftLeft,
      BitVec.toNat_ushiftRight, BitVec.toNat_ofNat, Nat.shiftLeft_eq, Nat.shiftRight_eq_div_pow]
    omega
  constructor
  · intro hpage
    -- the last beat lies in the page
    rcases Nat.eq_or_lt_of_le hpos with h1 | h1
    · omega
    · have hlast := hpage (w.beats.length - 1) (by omega)
      rw [haddr _ (by omega) (by omega)] at hlast
      omega
  · intro hsum j hj
    by_cases h0 : j = 0
    · subst h0
      rfl
    · rw [haddr j h0 (by omega)]
      omega

/-! ### Sections -/

/-- The call at the byte `i` stays in its page when it has no beats or few enough. -/
lemma inPage_writeAt (addr : BitVec 64) (bf : List Byte) {i : ℕ} (hi : SlinkBurstBytes ∣ i) :
    (writeAt addr bf i).InPage ↔ min 128 ((bf.length + addr.toNat % 8 - i + 7) / 8) = 0 ∨
      (addr.toNat / 8 * 8 + i) % 4096 +
        8 * min 128 ((bf.length + addr.toNat % 8 - i + 7) / 8) ≤ 4096 := by
  have hlen := length_writeAt addr bf i
  rcases Nat.eq_zero_or_pos (writeAt addr bf i).beats.length with h0 | hpos
  · rw [← hlen, h0]
    refine iff_of_true (fun j hj => ?_) (.inl rfl)
    rw [h0] at hj
    exact absurd hj (Nat.not_lt_zero j)
  · rw [inPage_iff hpos (by omega), word_writeAt addr bf hi, hlen]
    omega

/-- **All bursts of a section stay in their pages exactly when** it starts in the first bus word of
a burst, or lies in one page. -/
theorem writes_inPage_iff (addr : BitVec 64) (bf : List Byte) :
    (∀ w ∈ writesFrom addr bf 0, w.InPage) ↔
      addr.toNat % 1024 < 8 ∨ addr.toNat / 4096 = (addr.toNat + bf.length - 1) / 4096 := by
  constructor
  · intro hall
    by_contra hnot
    rw [not_or] at hnot
    obtain ⟨hstart, hpages⟩ := hnot
    -- the burst that holds the last byte of the first page
    obtain ⟨k, hk⟩ : ∃ k, k = (4095 - addr.toNat / 8 * 8 % 4096) / 1024 := ⟨_, rfl⟩
    have hpage := hall (writeAt addr bf (0 + SlinkBurstBytes * k))
      ((mem_writesFrom 0).mpr ⟨k, by unfold SlinkBurstBytes; omega, rfl⟩)
    rw [Nat.zero_add, inPage_writeAt addr bf (Nat.dvd_mul_right _ _)] at hpage
    unfold SlinkBurstBytes at hpage
    omega
  · rintro h w hw
    obtain ⟨k, hk, rfl⟩ := (mem_writesFrom 0).mp hw
    rw [Nat.zero_add] at hk ⊢
    rw [inPage_writeAt addr bf (Nat.dvd_mul_right _ _)]
    unfold SlinkBurstBytes at hk ⊢
    omega

/-- No call is without beats when the section does not end with a whole aligned burst. -/
theorem writes_nonempty_iff (addr : BitVec 64) (bf : List Byte) :
    (∀ w ∈ writesFrom addr bf 0, 1 ≤ w.beats.length) ↔
      ¬ (8 ∣ addr.toNat ∧ SlinkBurstBytes ∣ bf.length) := by
  constructor
  · rintro hall ⟨halign, k, hk⟩
    have hlast := hall (writeAt addr bf (0 + SlinkBurstBytes * k))
      ((mem_writesFrom 0).mpr ⟨k, by omega, rfl⟩)
    rw [length_writeAt] at hlast
    omega
  · intro hnot w hw
    obtain ⟨k, hk, rfl⟩ := (mem_writesFrom 0).mp hw
    rw [length_writeAt]
    unfold SlinkBurstBytes at *
    omega

/-- **All bursts of a section are legal exactly when** none of them is empty, and the section starts
in the first bus word of a burst or lies in one page. -/
theorem writes_legal_iff (addr : BitVec 64) (bf : List Byte) :
    (∀ w ∈ writesFrom addr bf 0, w.Legal) ↔ ¬ (8 ∣ addr.toNat ∧ SlinkBurstBytes ∣ bf.length) ∧
      (addr.toNat % 1024 < 8 ∨ addr.toNat / 4096 = (addr.toNat + bf.length - 1) / 4096) := by
  rw [← writes_nonempty_iff, ← writes_inPage_iff]
  constructor
  · exact fun h => ⟨fun w hw => (h w hw).nonempty, fun w hw => (h w hw).inPage⟩
  · rintro ⟨hnonempty, hpage⟩ w hw
    refine ⟨hnonempty w hw, ?_, hpage w hw⟩
    obtain ⟨k, -, rfl⟩ := (mem_writesFrom 0).mp hw
    rw [length_writeAt]
    omega

/-- A section of 512 bytes across the end of a page is sent in one burst. -/
theorem not_writes_legal_acrossPages :
    ¬ ∀ w ∈ writesFrom 0x8000_0F00 (List.replicate 512 0xA5) 0, w.Legal := by
  intro h
  have hpage := (writes_inPage_iff 0x8000_0F00 (List.replicate 512 0xA5)).mp
    fun w hw => (h w hw).inPage
  rw [List.length_replicate] at hpage
  exact absurd hpage (by decide)

end Cheshire.Sim.Slink
