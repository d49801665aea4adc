import Cheshire.Lib.CrcPoly
import Cheshire.Sw.SpiSdcardCmd

/-!
The checksum of a block.  The table computes the remainder of the message, and a read that checks it
returns normally only if every block has been followed by its own, whatever calls of the host fail.
-/

namespace Cheshire.Sw.SpiSdcard

open Lib Polynomial

/-! ### The remainder -/

/-- The bytes of a half word are swapped. -/
def bswap16 (x : BitVec 16) : BitVec 16 := x.extractLsb' 0 8 ++ x.extractLsb' 8 8

/-- The checksum of a block, bit by bit. -/
def dataCrc (data : List Byte) : BitVec 16 := Crc.remainderBits 0x1021 (data.flatMap Crc.bitsOf)

lemma dataCrc_eq (data : List Byte) : dataCrc data = Crc.remainder 0x1021 data :=
  (Crc.remainder_eq_bits (by decide) 0x1021 data).symm

/-- **The table computes the checksum**, and swaps its bytes. -/
theorem crc16_eq (data : List Byte) : crc16 data = bswap16 (dataCrc data) := by
  rw [crc16, crc16State_eq, ← dataCrc_eq]
  generalize dataCrc data = r
  refine BitVec.eq_of_getLsbD_eq fun i hi => ?_
  rw [bswap16, BitVec.getLsbD_append]
  interval_cases i <;> simp

/-- The generator of the checksum. -/
lemma divisor_crc16 : Crc.divisor (0x1021 : BitVec 16) = X ^ 16 + X ^ 12 + X ^ 5 + 1 := by
  have hpoly : Crc.ofVec (0x1021 : BitVec 16) = X ^ 12 + X ^ 5 + 1 := by
    have hbits : ∀ i < 16, (0x1021 : BitVec 16).getLsbD i = decide (i = 0 ∨ i = 5 ∨ i = 12) := by
      decide
    rw [Crc.ofVec, Finset.sum_congr rfl fun i hi => by rw [hbits i (Finset.mem_range.mp hi)]]
    simp [Finset.sum_range_succ, Crc.coeffOf]
    ring
  rw [Crc.divisor, hpoly]
  ring

/-- **The checksum, as a polynomial.** -/
theorem ofVec_dataCrc (data : List Byte) : Crc.ofVec (dataCrc data) =
    (Crc.ofBits (data.flatMap Crc.bitsOf) * X ^ 16) %ₘ (X ^ 16 + X ^ 12 + X ^ 5 + 1) := by
  rw [dataCrc, Crc.ofVec_remainderBits (by decide), divisor_crc16]

/-! ### Transfers that may fail -/

section Leaves

variable {σ : Type} {depth : ℕ+} {dif : Dif σ} {handle : Handle} {undef : Undefined}
  {miso : σ → Stream' Byte}

/-- A host whose calls may fail: one that succeeds has taken the next bytes on MISO. -/
def HostSound (dif : Dif σ) (miso : σ → Stream' Byte) : Prop := ∀ csid seg s,
  (dif.transactionCsaat csid seg s).1.1 = 0 →
    (dif.transactionCsaat csid seg s).1.2 = seg.received (miso s) ∧
    miso (dif.transactionCsaat csid seg s).2 = (miso s).drop seg.bytes

/-- A segment that is received. -/
lemma leaves_segment (hs : HostSound dif miso) (seg : Segment) (s : St σ) :
    Leaves (checkDif (dif.transactionCsaat handle.csid seg)) s fun r s' =>
      r = seg.received (miso s.dev) ∧ s'.mem = s.mem ∧
        miso s'.dev = (miso s.dev).drop seg.bytes := by
  refine leaves_checkDif fun h0 => ?_
  obtain ⟨hret, hnext⟩ := hs handle.csid seg s.dev h0
  exact ⟨hret, rfl, hnext⟩

/-- Bytes are received. -/
lemma leaves_rx (hs : HostSound dif miso) (n : ℕ) (s : St σ) :
    Leaves (xferCsaat dif handle true none n) s fun r s' => r = (miso s.dev).take n ∧
      s'.mem = s.mem ∧ miso s'.dev = (miso s.dev).drop n :=
  leaves_xfer (leaves_segment hs (.rx n) s)

/-- Bytes are sent. -/
lemma leaves_tx (hs : HostSound dif miso) (bs : List Byte) (n : ℕ) (s : St σ) :
    Leaves (xferCsaat dif handle false (some bs) n) s fun _ s' =>
      miso s'.dev = (miso s.dev).drop (bs.take n).length := by
  unfold xferCsaat
  refine leaves_bind.mpr (returns_checkAssert.mpr ⟨fun h => Bool.false_ne_true h.2, ?_⟩).leaves
  exact (leaves_segment hs (.tx (bs.take n)) s).mono fun _ _ h => h.2.2

/-- A byte is received. -/
lemma leaves_rxByte (hs : HostSound dif miso) (s : St σ) :
    Leaves (xferByte dif handle) s fun x s' => x = (miso s.dev).head ∧ s'.mem = s.mem ∧
      miso s'.dev = (miso s.dev).tail := by
  refine (leaves_rx hs 1 s).bind ?_
  rintro r s' ⟨rfl, hmem, hmiso⟩
  exact ⟨rfl, hmem, hmiso⟩

/-- **A poll** that returns normally has got its answer. -/
theorem leaves_poll (hs : HostSound dif miso) (err : CInt) (again : Byte → Bool) :
    ∀ (timeout : ℕ) (s : St σ), Leaves (poll dif handle err again timeout) s fun x s' =>
      s'.mem = s.mem ∧ Answers again timeout (miso s.dev) x (miso s'.dev) := by
  intro timeout
  induction timeout with
  | zero => exact fun s => trivial
  | succ k ih =>
    intro s
    rw [poll]
    refine (leaves_rxByte hs s).bind ?_
    rintro x s₁ ⟨rfl, hmem₁, hmiso₁⟩
    by_cases hk : k = 0
    · rw [if_pos hk]
      trivial
    rw [if_neg hk]
    by_cases hagain : again (miso s.dev).head
    · rw [if_pos hagain]
      refine (ih s₁).mono ?_
      rintro x s₂ ⟨hmem₂, hans⟩
      refine ⟨hmem₂.trans hmem₁, answers_succ.mpr ⟨hk, ?_⟩⟩
      rwa [if_pos hagain, ← hmiso₁]
    · rw [if_neg hagain]
      refine ⟨hmem₁, answers_succ.mpr ⟨hk, ?_⟩⟩
      rw [if_neg hagain]
      exact ⟨rfl, hmiso₁⟩

/-! ### Blocks -/

/-- Bytes received to a pointer. -/
lemma leaves_rxTo (hs : HostSound dif miso) {p : U64} (hp : p ≠ 0) (n : ℕ) (s : St σ) :
    Leaves (xferTo dif handle p n) s fun _ s' =>
      s'.mem = s.mem.write p ((miso s.dev).take n) ∧ miso s'.dev = (miso s.dev).drop n := by
  unfold xferTo
  rw [bne_iff_ne.mpr hp]
  refine (leaves_rx hs n s).bind ?_
  rintro r s' ⟨rfl, hmem, hmiso⟩
  rw [if_neg hp]
  refine ⟨?_, hmiso⟩
  show s'.mem.write p _ = _
  rw [hmem]

/-- The chunks of a block are stored one behind the other. -/
theorem leaves_rxChunks (hs : HostSound dif miso) {p : U64}
    (hnull : ∀ i < 512, p + .ofNat 64 i ≠ 0) (s : St σ) :
    Leaves (readChunks dif handle depth p 0) s fun _ s' =>
      s'.mem = s.mem.write p ((miso s.dev).take 512) ∧ miso s'.dev = (miso s.dev).drop 512 := by
  refine leaves_iff_ends.mpr (ends_readChunks (I := fun o s' =>
    s'.mem = s.mem.write p ((miso s.dev).take o) ∧ miso s'.dev = (miso s.dev).drop o) ⟨rfl, rfl⟩ ?_)
  rintro offs k s₁ ho hk - ⟨hmem₁, hmiso₁⟩
  refine leaves_iff_ends.mp ((leaves_rxTo hs (hnull offs ho) k s₁).mono ?_)
  rintro - s₂ ⟨hmem₂, hmiso₂⟩
  refine ⟨?_, by rw [hmiso₂, hmiso₁, Stream'.drop_drop]⟩
  rw [hmem₂, hmem₁, hmiso₁, Stream'.take_add]
  exact write_chunk s.mem p (Stream'.length_take _ _) (by rwa [Stream'.length_take])

lemma leaves_loadBytes {p : U64} {n : ℕ} {s : St σ} {Q : List Byte → St σ → Prop} :
    Leaves (loadBytes p n) s Q ↔ Q (s.mem.slice p n) s := Iff.rfl

lemma leaves_memcpy {dst src len : U64} {s : St σ} {Q : Unit → St σ → Prop}
    (h : ∀ m, Q () ⟨m, s.dev⟩) : Leaves (memcpy dst src len) s Q := h _

/-- **A block** that is taken has come with its checksum. -/
theorem leaves_readBlock (hs : HostSound dif miso) {buf len swap firstOffs lastLen b : U64}
    (hnull : ∀ i < 512, blockBuf buf len swap firstOffs lastLen b + .ofNat 64 i ≠ 0) (s : St σ) :
    Leaves (readBlock dif handle depth (buf - firstOffs) len swap firstOffs lastLen true b) s
      fun _ s' => BlockOk true (miso s.dev) (miso s'.dev) := by
  unfold readBlock
  refine (leaves_poll hs 0x19 (fun x => x == 0xFF) 10000 s).bind ?_
  rintro token s₁ ⟨-, htok⟩
  by_cases htoken : token = 0xFE
  rotate_left
  · rw [if_neg htoken]
    trivial
  subst htoken
  rw [if_pos rfl]
  obtain ⟨p, hp⟩ : ∃ p, p = blockBuf buf len swap firstOffs lastLen b := ⟨_, rfl⟩
  rw [← hp] at hnull
  simp only [place_eq, ← hp]
  refine (leaves_rxChunks hs hnull s₁).bind ?_
  rintro - s₂ ⟨hmem₂, hmiso₂⟩
  refine (leaves_rx hs 2 s₂).bind ?_
  rintro crc s₃ ⟨rfl, hmem₃, hmiso₃⟩
  -- the checksum is computed from what has been received
  have hslice : s₃.mem.slice p 512 = (miso s₁.dev).take 512 := by
    rw [hmem₃, hmem₂, slice_block _ _ (Stream'.length_take _ _)]
  refine leaves_bind.mpr (leaves_loadBytes.mpr ?_)
  by_cases hcrc : BitVec.ofNat 16 (ofLe ((miso s₂.dev).take 2)) = crc16 (s₃.mem.slice p 512)
  rotate_left
  · rw [if_pos ⟨trivial, hcrc⟩]
    trivial
  rw [if_neg fun h => h.2 hcrc]
  rw [hslice, hmiso₂, crc_eq_iff (Stream'.length_take _ _)] at hcrc
  have hblock : BlockOk true (miso s.dev) (miso s₃.dev) := by
    refine ⟨_, htok, ?_, fun _ => hcrc⟩
    rw [hmiso₃, hmiso₂, Stream'.drop_drop]
  -- what is left is done in memory
  have hdone (m : Mem 64) : BlockOk true (miso s.dev) (miso (St.dev ⟨m, s₃.dev⟩)) := hblock
  split
  · exact leaves_memcpy hdone
  · split
    · exact leaves_memcpy hdone
    · split
      · exact leaves_memcpy hdone
      · exact hblock

/-- The blocks, one after another. -/
lemma blocksOk_succ {checkCrc : Bool} {t v : Stream' Byte} (h : BlockOk checkCrc t v) :
    ∀ {n : ℕ} {u : Stream' Byte}, BlocksOk checkCrc n u t → BlocksOk checkCrc (n + 1) u v := by
  intro n
  induction n with
  | zero =>
    rintro u rfl
    exact ⟨v, h, rfl⟩
  | succ n ih =>
    rintro u ⟨w, hw, hrest⟩
    exact ⟨w, hw, ih hrest⟩

theorem leaves_blocks (hs : HostSound dif miso) {buf len swap firstOffs lastLen : U64} {n : ℕ}
    (hnull : ∀ b < n, ∀ i < 512,
      blockBuf buf len swap firstOffs lastLen (.ofNat 64 b) + .ofNat 64 i ≠ 0) (s : St σ) :
    Leaves ((List.range n).forM fun b => readBlock dif handle depth (buf - firstOffs) len swap
        firstOffs lastLen true (.ofNat 64 b)) s
      fun _ s' => BlocksOk true n (miso s.dev) (miso s'.dev) := by
  refine Leaves.forM_range (I := fun k (s' : St σ) => BlocksOk true k (miso s.dev) (miso s'.dev))
    (show miso s.dev = miso s.dev from rfl) ?_
  intro k s₁ hk hblocks
  refine (leaves_readBlock hs (hnull k hk) s₁).mono fun _ s₂ hblock => ?_
  exact blocksOk_succ hblock hblocks

/-- A command whose response has come in time. -/
lemma leaves_readCmd (hs : HostSound dif miso) {c : U64} (hne : c &&& 0xFF ≠ 0x4C) (s : St σ) :
    Leaves (cmd dif handle c .r1 true) s fun _ s' =>
      ∃ x, Answers (fun x => x &&& 0x80 != 0) 8 ((miso s.dev).drop 6) x (miso s'.dev) := by
  unfold cmd
  refine (leaves_tx hs (toLe 8 c.toNat) 6 s).bind ?_
  intro _ s₁ hmiso
  have hlen : ((toLe 8 c.toNat).take 6).length = 6 := by simp
  rw [hlen] at hmiso
  rw [if_neg hne]
  refine (leaves_poll hs 0x12 (fun x => x &&& 0x80 != 0) 8 s₁).bind ?_
  rintro r s₂ ⟨-, hans⟩
  rw [hmiso] at hans
  exact ⟨r, hans⟩

/-- The blocks that a call has transferred came with their checksums: behind the answer to the
command there are as many as asked for, and the two bytes behind each one are its checksum, the
high byte first. -/
def Received (n : ℕ) (u : Stream' Byte) : Prop :=
  ∃ x v t, Answers (fun x => x &&& 0x80 != 0) 8 (u.drop 6) x v ∧ BlocksOk true n v t

/-- **A read that checks the checksums** returns normally only if all of them were right. -/
theorem leaves_readBlocks (hs : HostSound dif miso) {buf block len swap firstOffs lastLen : U64}
    (hnull : ∀ b < len.toNat, ∀ i < 512,
      blockBuf buf len swap firstOffs lastLen (.ofNat 64 b) + .ofNat 64 i ≠ 0) (s : St σ) :
    Leaves (readBlocks dif handle undef depth buf block len swap firstOffs lastLen true) s fun _ _ =>
      len ≠ 0 → Received len.toNat (miso s.dev) := by
  unfold readBlocks
  by_cases hlen : len = 0
  · rw [if_pos hlen]
    exact fun hne => absurd hlen hne
  rw [if_neg hlen]
  obtain ⟨op, hop⟩ : ∃ op : Byte, op = if len > 1 then 0x52 else 0x51 := ⟨_, rfl⟩
  have hno12 : buildCmd op (block.setWidth 32) &&& 0xFF ≠ 0x4C := by
    rw [buildCmd_and, hop]
    split <;> decide
  rw [← hop]
  refine (leaves_readCmd hs hno12 s).bind ?_
  rintro - s₁ ⟨x, hans⟩
  refine (leaves_blocks hs hnull s₁).bind ?_
  intro _ s₂ hblocks
  have hreceived : Received len.toNat (miso s.dev) := ⟨x, _, _, hans, hblocks⟩
  split
  · exact leaves_true.mono fun _ _ _ _ => hreceived
  · exact leaves_true.mono fun _ _ _ _ => hreceived

/-- **The checksum of the driver**: it is the remainder of the message with its bytes swapped, and a
read that checks it returns normally only if every block came with its own. -/
theorem crc16_checks (hs : HostSound dif miso) {buf block len swap firstOffs lastLen : U64}
    (hnull : ∀ b < len.toNat, ∀ i < 512,
      blockBuf buf len swap firstOffs lastLen (.ofNat 64 b) + .ofNat 64 i ≠ 0) (s : St σ) :
    (∀ data, crc16 data = bswap16 (dataCrc data) ∧ Crc.ofVec (dataCrc data) =
      (Crc.ofBits (data.flatMap Crc.bitsOf) * X ^ 16) %ₘ (X ^ 16 + X ^ 12 + X ^ 5 + 1)) ∧
    Leaves (readBlocks dif handle undef depth buf block len swap firstOffs lastLen true) s fun _ _ =>
      len ≠ 0 → Received len.toNat (miso s.dev) :=
  ⟨fun data => ⟨crc16_eq data, ofVec_dataCrc data⟩, leaves_readBlocks hs hnull s⟩

end Leaves

lemma hostSound_wiredDif : HostSound wiredDif Wires.miso := fun _ _ _ _ => ⟨rfl, rfl⟩

/-- A block of zeros is read with its checksum. -/
theorem crc16_checks_zeros :
    Leaves (readBlocks wiredDif ⟨0, 1⟩ ⟨0, 0⟩ 16 0x1000 0 1 0x8000 0 512 true)
    ⟨fun _ => 0, ⟨List.replicate 6 0xFF ++ₛ ([0x00, 0xFE] ++ₛ Stream'.const 0), []⟩⟩ fun _ _ =>
      (1 : U64) ≠ 0 → Received 1 (List.replicate 6 0xFF ++ₛ ([0x00, 0xFE] ++ₛ Stream'.const 0)) := by
  refine (crc16_checks hostSound_wiredDif ?_ _).2
  exact place_zeros

end Cheshire.Sw.SpiSdcard
