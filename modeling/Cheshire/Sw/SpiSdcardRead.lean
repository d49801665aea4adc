import Cheshire.Sw.SdCard
import Mathlib.Tactic.IntervalCases

/-!
Reads of the SD card give the bytes of the card, and write nothing else.
-/

namespace Cheshire.Sw.SpiSdcard

open Lib

/-! ### Commands on the wire -/

/-- A byte of a number. -/
lemma ofNat_byte {w : ℕ} (x : BitVec w) (k : ℕ) :
    BitVec.ofNat 8 (x.toNat / 256 ^ k) = (x >>> (8 * k)).setWidth 8 := by
  have hpow : 256 ^ k = 2 ^ (8 * k) := by
    rw [pow_mul]
    rfl
  rw [hpow, ← Nat.shiftRight_eq_div_pow, ← BitVec.toNat_ushiftRight, BitVec.ofNat_toNat]

lemma toLe_reverse (arg : U32) : (toLe 4 arg.toNat).reverse =
    [(arg >>> 24).setWidth 8, (arg >>> 16).setWidth 8, (arg >>> 8).setWidth 8,
      arg.setWidth 8] := by
  have h := fun k => (ofNat_byte arg k).symm
  have h0 := h 0
  rw [BitVec.ushiftRight_zero] at h0
  rw [h 3, h 2, h 1, h0]
  simp [toLe, Nat.div_div_eq_div_mul]

/-- **The bytes of a command** are its frame on the wire. -/
theorem take_buildCmd (opcode : Byte) (arg : U32) :
    (toLe 8 (buildCmd opcode arg).toNat).take 6 =
      frame opcode arg (crc7 ((toLe 8 (cmdBody opcode arg).toNat).take 5) <<< 1 ||| 1) := by
  rw [buildCmd]
  generalize crc7 ((toLe 8 (cmdBody opcode arg).toNat).take 5) = q
  rw [frame, toLe_reverse]
  refine List.ext_getElem (by simp) fun k hk _ => ?_
  have hk6 : k < 6 := by simpa using hk
  rw [List.getElem_take, getElem_toLe, ofNat_byte]
  refine BitVec.eq_of_getLsbD_eq fun i hi => ?_
  unfold cmdBody
  interval_cases k <;> interval_cases i <;> simp

/-- The low byte of a command is its opcode. -/
lemma buildCmd_and (opcode : Byte) (arg : U32) :
    buildCmd opcode arg &&& 0xFF = opcode.setWidth 64 := by
  rw [buildCmd]
  generalize crc7 ((toLe 8 (cmdBody opcode arg).toNat).take 5) = q
  refine BitVec.eq_of_getLsbD_eq fun i hi => ?_
  unfold cmdBody
  rcases Nat.lt_or_ge i 8 with h | h
  · interval_cases i <;> simp
  · have hff : (0xFF : U64).getLsbD i = false := by
      interval_cases i <;> rfl
    rw [BitVec.getLsbD_and, hff, Bool.and_false, BitVec.getLsbD_setWidth,
      BitVec.getLsbD_of_ge opcode i h, Bool.and_false]

/-! ### The checksum of a block -/

theorem crc16Lookup_eq : ∀ x : Byte, crc16Lookup.getD x.toNat 0 = Crc.byte 0x1021 0 x := by
  decide +kernel

/-- **The table computes the remainder.** -/
theorem crc16State_eq (data : List Byte) : crc16State data = Crc.remainder 0x1021 data := by
  refine congrArg (fun f => data.foldl f 0) ?_
  funext state x
  rw [crc16Lookup_eq, Crc.byte_eq (by decide) 0x1021 state x]

/-- A number of two bytes. -/
lemma ofNat_ofLe_pair (hi lo : Byte) : BitVec.ofNat 16 (ofLe [lo, hi]) = hi ++ lo := by
  have h := lo.isLt
  refine BitVec.eq_of_toNat_eq ?_
  rw [BitVec.toNat_append, ← Nat.shiftLeft_add_eq_or_of_lt lo.isLt, Nat.shiftLeft_eq,
    BitVec.toNat_ofNat]
  simp only [ofLe]
  omega

/-- The two bytes of the checksum, high byte first, are what the driver compares with. -/
lemma ofLe_blockCrc (data : List Byte) :
    BitVec.ofNat 16 (ofLe (toLe 2 (Crc.remainder 0x1021 data : BitVec 16).toNat).reverse) =
      crc16 data := by
  rw [crc16, crc16State_eq]
  generalize (Crc.remainder 0x1021 data : BitVec 16) = r
  have hbytes : (toLe 2 r.toNat).reverse = [(r >>> 8).setWidth 8, r.setWidth 8] := by
    have h0 := ofNat_byte r 0
    have h1 := ofNat_byte r 1
    rw [BitVec.ushiftRight_zero, pow_zero, Nat.div_one] at h0
    rw [pow_one] at h1
    rw [toLe, toLe, toLe, h0, h1]
    rfl
  rw [hbytes, ofNat_ofLe_pair]
  refine BitVec.eq_of_getLsbD_eq fun i hi => ?_
  rw [BitVec.getLsbD_append]
  interval_cases i <;> simp

/-! ### Transfers -/

section Card

variable {σ : Type} {depth : ℕ+} {dif : Dif σ} {handle : Handle} {undef : Undefined}
  {content : ℕ → Byte} {served : Set ℕ} {bus : σ → Bus}

lemma returns_checkDif {call : σ → (CInt × List Byte) × σ} {s : St σ}
    {Q : List Byte → St σ → Prop} (h0 : (call s.dev).1.1 = 0)
    (hQ : Q (call s.dev).1.2 ⟨s.mem, (call s.dev).2⟩) : Returns (checkDif call) s Q := by
  have hrun : (checkDif call).run s = .ok (call s.dev).1.2 ⟨s.mem, (call s.dev).2⟩ :=
    if_neg (not_not.mpr h0)
  unfold Returns
  rw [hrun]
  exact hQ

lemma take_append_stream {l : List Byte} {n : ℕ} (hl : l.length = n) (t : Stream' Byte) :
    (l ++ₛ t).take n = l := by
  subst hl
  exact (Stream'.take_append_of_le_length _ l t (Nat.le_refl _)).trans List.take_length

lemma drop_append_stream {l : List Byte} {n : ℕ} (hl : l.length = n) (t : Stream' Byte) :
    (l ++ₛ t).drop n = t := by
  subst hl
  exact Stream'.drop_append_stream l t

/-- A receive segment gives the next bytes. -/
theorem returns_rx (hc : CardOk depth dif handle content served bus) {l : List Byte} {n : ℕ}
    {t : Stream' Byte} {ph : Phase} {s : St σ} (hl : l.length = n) (hn : n ≤ 4 * (depth : ℕ))
    (hb : bus s.dev = ⟨l ++ₛ t, ph⟩) :
    Returns (xferCsaat dif handle true none n) s fun r s' =>
      r = l ∧ s'.mem = s.mem ∧ bus s'.dev = ⟨t, ph⟩ := by
  obtain ⟨hret, hbus⟩ := hc.rx n s.dev hn
  rw [hb] at hret hbus
  simp only [take_append_stream hl, drop_append_stream hl] at hret hbus
  unfold xferCsaat
  refine returns_bind.mpr (returns_checkAssert.mpr ⟨fun h => Bool.false_ne_true h.1, ?_⟩)
  refine returns_checkDif ?_ ⟨?_, rfl, hbus⟩
  · rw [if_pos rfl, hret]
  · rw [if_pos rfl, hret]

/-- A byte. -/
theorem returns_xferByte (hc : CardOk depth dif handle content served bus) {x : Byte}
    {t : Stream' Byte} {ph : Phase} {s : St σ} (hb : bus s.dev = ⟨Stream'.cons x t, ph⟩) :
    Returns (xferByte dif handle) s fun y s' => y = x ∧ s'.mem = s.mem ∧ bus s'.dev = ⟨t, ph⟩ := by
  have h1 : 1 ≤ 4 * (depth : ℕ) := by
    have := depth.pos
    omega
  refine (returns_rx hc (l := [x]) rfl h1 hb).bind ?_
  rintro r s' ⟨rfl, hmem, hbus⟩
  exact ⟨rfl, hmem, hbus⟩

/-- **A poll that is answered in time** ends with the byte it has been waiting for. -/
theorem returns_poll (hc : CardOk depth dif handle content served bus) {err : CInt}
    {again : Byte → Bool} {x : Byte} {t : Stream' Byte} {ph : Phase} (hx : again x = false) :
    ∀ (fill : List Byte) (timeout : ℕ) (s : St σ), fill.length + 1 < timeout →
      (∀ y ∈ fill, again y = true) → bus s.dev = ⟨fill ++ₛ Stream'.cons x t, ph⟩ →
      Returns (poll dif handle err again timeout) s fun y s' =>
        y = x ∧ s'.mem = s.mem ∧ bus s'.dev = ⟨t, ph⟩ := by
  intro fill
  induction fill with
  | nil =>
    intro timeout s hlen _ hb
    obtain ⟨k, rfl⟩ : ∃ k, timeout = k + 1 := ⟨timeout - 1, by omega⟩
    rw [List.length_nil] at hlen
    rw [poll]
    refine (returns_xferByte hc hb).bind ?_
    rintro y s' ⟨rfl, hmem, hbus⟩
    rw [if_neg (by omega), if_neg (by rw [hx]; exact Bool.false_ne_true)]
    exact ⟨rfl, hmem, hbus⟩
  | cons z fill ih =>
    intro timeout s hlen hagain hb
    obtain ⟨k, rfl⟩ : ∃ k, timeout = k + 1 := ⟨timeout - 1, by omega⟩
    rw [List.length_cons] at hlen
    rw [List.forall_mem_cons] at hagain
    rw [poll]
    refine (returns_xferByte hc hb).bind ?_
    rintro y s' ⟨rfl, hmem, hbus⟩
    rw [if_neg (by omega), if_pos hagain.1]
    rw [← hmem]
    exact ih k s' (by omega) hagain.2 hbus

theorem Answers.returns_poll (hc : CardOk depth dif handle content served bus) {err : CInt}
    {again : Byte → Bool} {timeout : ℕ} {x : Byte} {u t : Stream' Byte} {ph : Phase} {s : St σ}
    (h : Answers again timeout u x t) (hb : bus s.dev = ⟨u, ph⟩) :
    Returns (poll dif handle err again timeout) s fun y s' =>
      y = x ∧ s'.mem = s.mem ∧ bus s'.dev = ⟨t, ph⟩ := by
  obtain ⟨fill, hlen, hagain, hx, rfl⟩ := h
  exact SpiSdcard.returns_poll hc hx fill timeout s hlen hagain hb

/-! ### Commands -/

lemma returns_tx {bs : List Byte} {n : ℕ} {s : St σ} {Q : List Byte → St σ → Prop}
    (h0 : (dif.transactionCsaat handle.csid (.tx (bs.take n)) s.dev).1.1 = 0)
    (hQ : ∀ r, Q r ⟨s.mem, (dif.transactionCsaat handle.csid (.tx (bs.take n)) s.dev).2⟩) :
    Returns (xferCsaat dif handle false (some bs) n) s Q := by
  unfold xferCsaat
  refine returns_bind.mpr (returns_checkAssert.mpr ⟨fun h => Bool.false_ne_true h.2, ?_⟩)
  exact returns_checkDif h0 (hQ _)

/-- The card is released. -/
theorem returns_csfree (hc : CardOk depth dif handle content served bus) (s : St σ) :
    Returns (csfree dif handle) s fun _ s' => s'.mem = s.mem ∧
      (bus s'.dev).phase = if (bus s.dev).phase = .multiple then .multiple else .idle := by
  obtain ⟨h0, hph⟩ := hc.free s.dev
  unfold csfree
  exact returns_bind.mpr (returns_checkDif h0 ⟨rfl, hph⟩)

/-- A command with a plain response, to which the card answers. -/
theorem returns_cmd (hc : CardOk depth dif handle content served bus) {c : U64} {bs : List Byte}
    {x : Byte} {u v : Stream' Byte} {ph : Phase} {s : St σ} (hwire : (toLe 8 c.toNat).take 6 = bs)
    (hne : c &&& 0xFF ≠ 0x4C) (h0 : (dif.transactionCsaat handle.csid (.tx bs) s.dev).1.1 = 0)
    (hb : bus (dif.transactionCsaat handle.csid (.tx bs) s.dev).2 = ⟨u, ph⟩)
    (hans : Answers (fun x => x &&& 0x80 != 0) 8 u x v) :
    Returns (cmd dif handle c .r1 true) s fun _ s' =>
      s'.mem = s.mem ∧ bus s'.dev = ⟨v, ph⟩ := by
  subst hwire
  unfold cmd
  refine returns_bind.mpr (returns_tx h0 fun _ => ?_)
  rw [if_neg hne]
  refine (hans.returns_poll hc hb).bind ?_
  rintro r s' ⟨-, hmem, hbus⟩
  exact ⟨hmem, hbus⟩

/-- **CMD12** ends a read of many blocks, and the card is released. -/
theorem returns_stop (hc : CardOk depth dif handle content served bus) {s : St σ}
    (hph : (bus s.dev).phase = .multiple) :
    Returns (cmdCheck dif handle undef 0x61000000004C .r1b false 0) s fun _ s' =>
      s'.mem = s.mem ∧ (bus s'.dev).phase = .idle := by
  obtain ⟨stuff, x, y, u, v, w, h0, hb, hresp, hbusy⟩ := hc.stop s.dev hph
  have hwire : (toLe 8 (0x61000000004C : U64).toNat).take 6 = frame 0x4C 0 0x61 := by decide
  have hcmd : Returns (cmd dif handle 0x61000000004C .r1b false) s fun _ s' =>
      s'.mem = s.mem ∧ (bus s'.dev).phase = .idle := by
    unfold cmd
    rw [← hwire] at h0 hb
    refine returns_bind.mpr (returns_tx h0 fun _ => ?_)
    rw [if_pos (by decide)]
    refine (returns_xferByte hc hb).bind ?_
    rintro - s₁ ⟨-, hmem₁, hb₁⟩
    refine (hresp.returns_poll hc hb₁).bind ?_
    rintro - s₂ ⟨-, hmem₂, hb₂⟩
    refine (hbusy.returns_poll hc hb₂).bind ?_
    rintro - s₃ ⟨-, hmem₃, hb₃⟩
    refine (returns_csfree hc s₃).bind ?_
    rintro - s₄ ⟨hmem₄, hph₄⟩
    rw [hb₃] at hph₄
    refine ⟨?_, hph₄⟩
    rw [hmem₄, hmem₃, hmem₂, hmem₁]
  unfold cmdCheck
  refine hcmd.bind ?_
  intro bs s' hs'
  exact hs'

/-! ### A block -/

/-- Bytes received to a pointer are stored there. -/
theorem returns_xferTo (hc : CardOk depth dif handle content served bus) {p : U64} {l : List Byte}
    {n : ℕ} {t : Stream' Byte} {ph : Phase} {s : St σ} (hp : p ≠ 0) (hl : l.length = n)
    (hn : n ≤ 4 * (depth : ℕ)) (hb : bus s.dev = ⟨l ++ₛ t, ph⟩) :
    Returns (xferTo dif handle p n) s fun _ s' =>
      s'.mem = s.mem.write p l ∧ bus s'.dev = ⟨t, ph⟩ := by
  unfold xferTo
  rw [bne_iff_ne.mpr hp]
  refine (returns_rx hc hl hn hb).bind ?_
  rintro r s' ⟨rfl, hmem, hbus⟩
  rw [if_neg hp]
  refine ⟨?_, hbus⟩
  show s'.mem.write p r = s.mem.write p r
  rw [hmem]

/-- **The rule of the loop over the chunks** of a block: `I` holds behind the bytes that have been
received. -/
theorem ends_readChunks {p : U64} {I : ℕ → St σ → Prop} {E : CInt → St σ → Prop} {s : St σ}
    (h₀ : I 0 s) (hstep : ∀ offs k s, offs < 512 → offs + k ≤ 512 → k ≤ 4 * (depth : ℕ) → I offs s →
      Ends (xferTo dif handle (p + .ofNat 64 offs) k) s (fun _ s' => I (offs + k) s') E) :
    Ends (readChunks dif handle depth p 0) s (fun _ s' => I 512 s') E := by
  have hloop : ∀ (m offs : ℕ) (s : St σ), 512 - offs ≤ m → I (min offs 512) s →
      Ends (readChunks dif handle depth p offs) s (fun _ s' => I 512 s') E := by
    intro m
    induction m with
    | zero =>
      intro offs s hm h
      rw [readChunks, if_neg (by omega)]
      rwa [Nat.min_eq_right (by omega)] at h
    | succ m ih =>
      intro offs s hm h
      have hdepth := depth.pos
      rw [readChunks]
      by_cases ho : offs < 512
      · rw [if_pos ho]
        rw [Nat.min_eq_left (Nat.le_of_lt ho)] at h
        have hnext : offs + min (4 * (depth : ℕ)) (512 - offs) = min (offs + 4 * depth) 512 := by
          omega
        refine (hstep offs _ s ho (by omega) (Nat.min_le_left _ _) h).bind fun _ s' hs' => ?_
        exact ih (offs + 4 * depth) s' (by omega) (hnext ▸ hs')
      · rw [if_neg ho]
        rwa [Nat.min_eq_right (Nat.le_of_not_lt ho)] at h
  exact hloop 512 0 s (Nat.sub_le _ _) h₀

/-- A chunk is stored behind the ones before it. -/
lemma write_chunk (m : Mem 64) (p : U64) {done chunk : List Byte} {offs : ℕ}
    (hlen : done.length = offs) (hle : offs + chunk.length ≤ 512) :
    (m.write p done).write (p + .ofNat 64 offs) chunk = m.write p (done ++ chunk) := by
  subst hlen
  exact (Mem.write_append m p done chunk (Nat.le_trans hle (by decide))).symm

/-- What has been stored as a block is there. -/
lemma slice_block (m : Mem 64) (p : U64) {data : List Byte} (hlen : data.length = 512) :
    (m.write p data).slice p 512 = data := by
  have hself := Mem.slice_write_self m p data (by rw [hlen]; decide)
  rwa [hlen] at hself

/-- **The chunks of a block** store its data, whatever the depth of the FIFO. -/
theorem returns_readChunks (hc : CardOk depth dif handle content served bus) {p : U64}
    {t : Stream' Byte} {ph : Phase} (hp : ∀ i < 512, p + .ofNat 64 i ≠ 0) {data : List Byte} {s : St σ}
    (hlen : data.length = 512) (hb : bus s.dev = ⟨data ++ₛ t, ph⟩) :
    Returns (readChunks dif handle depth p 0) s fun _ s' =>
      s'.mem = s.mem.write p data ∧ bus s'.dev = ⟨t, ph⟩ := by
  have htake : data.take 512 = data := List.take_of_length_le (Nat.le_of_eq hlen)
  have hdrop : data.drop 512 = [] := List.drop_eq_nil_of_le (Nat.le_of_eq hlen)
  refine (returns_iff_ends.mpr (ends_readChunks (I := fun o s' =>
    s'.mem = s.mem.write p (data.take o) ∧ bus s'.dev = ⟨data.drop o ++ₛ t, ph⟩) ⟨rfl, hb⟩ ?_)).mono ?_
  rotate_left
  · rintro - s' hs'
    rwa [htake, hdrop] at hs'
  rintro offs k s₁ ho hk hd ⟨hmem₁, hb₁⟩
  have hdone : (data.take offs).length = offs := by
    rw [List.length_take]
    omega
  have hchunk : ((data.drop offs).take k).length = k := by
    rw [List.length_take, List.length_drop]
    omega
  rw [← List.take_append_drop k (data.drop offs), Stream'.append_append_stream, List.drop_drop] at hb₁
  refine ((returns_xferTo hc (hp offs ho) hchunk hd hb₁).mono ?_).ends
  rintro - s₂ ⟨hmem₂, hb₂⟩
  refine ⟨?_, hb₂⟩
  rw [hmem₂, hmem₁, List.take_add]
  exact write_chunk s.mem p hdone (by rwa [hchunk])

lemma returns_loadBytes {p : U64} {n : ℕ} {s : St σ} {Q : List Byte → St σ → Prop} :
    Returns (loadBytes p n) s Q ↔ Q (s.mem.slice p n) s := Iff.rfl

/-- A flag of the loop over the blocks: at the end of the transfer there is something to cut off. -/
lemma decide_cut {P : Prop} [Decidable P] {v d : U64} {n : ℕ}
    (h : n = if P then v.toNat else d.toNat) : decide (P ∧ v ≠ d) = decide (n ≠ d.toNat) := by
  refine decide_eq_decide.mpr ?_
  rw [h]
  by_cases hP : P
  · rw [if_pos hP, and_iff_right hP, ne_eq, ne_eq, BitVec.toNat_inj]
  · rw [if_neg hP]
    exact iff_of_false (fun hn => hP hn.1) (fun hn => hn rfl)

lemma eq_ofNat_of_cut {P : Prop} [Decidable P] {v : U64} {d n : ℕ}
    (h : n = if P then v.toNat else d) (hn : n ≠ d) : v = .ofNat 64 n := by
  split at h
  · rw [h, BitVec.ofNat_toNat, BitVec.setWidth_eq]
  · exact absurd h hn

/-- Out of a block in the swap buffer, what is asked for is copied. -/
lemma returns_memcpy {dst src len swap p : U64} {B lo hi : ℕ} {t : Stream' Byte} {ph : Phase}
    {m : Mem 64} {s : St σ} (hb : bus s.dev = ⟨t, ph⟩)
    (hm : s.mem = m.write swap (blockData content B)) (hlt : lo ≤ hi) (hle : hi ≤ 512)
    (hdst : dst = p + .ofNat 64 lo) (hsrc : src = swap + .ofNat 64 lo) (hlen : len.toNat = hi - lo) :
    Returns (memcpy dst src len) s fun _ s' => bus s'.dev = ⟨t, ph⟩ ∧
      ∃ m' : Mem 64, (∀ x, Mem.Outside swap 512 x → m' x = m x) ∧
        s'.mem = m'.write (p + .ofNat 64 lo) (cardBytes content (512 * B + lo) (hi - lo)) := by
  have hdata : (blockData content B).length = 512 := length_cardBytes ..
  refine ⟨hb, s.mem, fun x hx => ?_, ?_⟩
  · rw [hm]
    exact Mem.write_outside m (by rwa [hdata])
  · have hslice : s.mem.slice src len.toNat = cardBytes content (512 * B + lo) (hi - lo) := by
      rw [hm, hlen, hsrc,
        Mem.slice_write_part m swap (blockData content B) (by omega) (by rw [hdata]; decide)]
      exact take_drop_cardBytes content hlt hle
    show s.mem.write dst (s.mem.slice src len.toNat) = _
    rw [hslice, hdst]

/-- A block of which the bytes from `lo` to `hi` are asked for is stored there; what is not asked
for gets no further than the swap buffer. -/
theorem returns_readBlock (hc : CardOk depth dif handle content served bus)
    {buf len swap firstOffs lastLen b : U64} {checkCrc : Bool} {B lo hi : ℕ} {u t : Stream' Byte}
    {ph : Phase} {s : St σ} (hlo : lo = if b = 0 then firstOffs.toNat else 0)
    (hhi : hi = if b = len - 1 then lastLen.toNat else 512) (hlt : lo ≤ hi) (hle : hi ≤ 512)
    (hswap : ∀ i < 512, swap + .ofNat 64 i ≠ 0)
    (hdst : lo = 0 → hi = 512 → ∀ i < 512, buf + 512 * b + .ofNat 64 i ≠ 0)
    (hblk : Block content B u t) (hb : bus s.dev = ⟨u, ph⟩) :
    Returns (readBlock dif handle depth buf len swap firstOffs lastLen checkCrc b) s fun _ s' =>
      bus s'.dev = ⟨t, ph⟩ ∧ ∃ m : Mem 64, (∀ x, Mem.Outside swap 512 x → m x = s.mem x) ∧
        s'.mem = m.write (buf + 512 * b + .ofNat 64 lo)
          (cardBytes content (512 * B + lo) (hi - lo)) := by
  obtain ⟨v, htok, hv⟩ := hblk
  have hfirst : decide (b = 0 ∧ firstOffs ≠ 0) = decide (lo ≠ 0) := decide_cut (d := 0) hlo
  have hlast : decide (b = len - 1 ∧ lastLen ≠ 512) = decide (hi ≠ 512) := decide_cut (d := 512) hhi
  have hfo : lo ≠ 0 → firstOffs = .ofNat 64 lo := eq_ofNat_of_cut hlo
  have hll : hi ≠ 512 → lastLen = .ofNat 64 hi := eq_ofNat_of_cut hhi
  have hdata : (blockData content B).length = 512 := length_cardBytes ..
  unfold readBlock
  refine (htok.returns_poll hc hb).bind ?_
  rintro token s₁ ⟨rfl, hmem₁, hb₁⟩
  rw [hv, Stream'.append_append_stream] at hb₁
  rw [if_pos rfl]
  simp only [hfirst, hlast]
  obtain ⟨p, hp⟩ : ∃ p, p = if decide (lo ≠ 0) || decide (hi ≠ 512) then swap else buf + 512 * b :=
    ⟨_, rfl⟩
  rw [← hp]
  have hnull : ∀ i < 512, p + .ofNat 64 i ≠ 0 := by
    rw [hp]
    split
    · exact hswap
    · rename_i h
      rw [Bool.or_eq_true, decide_eq_true_iff, decide_eq_true_iff, not_or, not_not, not_not] at h
      exact hdst h.1 h.2
  refine (returns_readChunks hc hnull hdata hb₁).bind ?_
  rintro - s₂ ⟨hmem₂, hb₂⟩
  refine (returns_rx hc (by rw [List.length_reverse, length_toLe]) (by
    have := depth.pos
    omega) hb₂).bind ?_
  rintro crc s₃ ⟨rfl, hmem₃, hb₃⟩
  have hmem : s₃.mem = s.mem.write p (blockData content B) := by
    rw [hmem₃, hmem₂, hmem₁]
  have hslice : s₃.mem.slice p 512 = blockData content B := by
    rw [hmem, slice_block s.mem p hdata]
  have hcrc : BitVec.ofNat 16 (ofLe (toLe 2 (blockCrc content B).toNat).reverse) =
      crc16 (blockData content B) := ofLe_blockCrc _
  refine returns_bind.mpr (returns_loadBytes.mpr ?_)
  rw [hslice, if_neg fun h => h.2 hcrc]
  by_cases hl : lo = 0
  · have h1 : decide (lo ≠ 0) = false := decide_eq_false (not_not.mpr hl)
    have hdst0 : buf + 512 * b = buf + 512 * b + .ofNat 64 lo := by rw [hl, BitVec.add_zero]
    have hsrc0 : swap = swap + .ofNat 64 lo := by rw [hl, BitVec.add_zero]
    by_cases hh : hi = 512
    · -- the whole block is asked for, and has been read to its place
      have h2 : decide (hi ≠ 512) = false := decide_eq_false (not_not.mpr hh)
      rw [h1, h2] at hp ⊢
      refine ⟨hb₃, s.mem, fun _ _ => rfl, ?_⟩
      have hp' : p = buf + 512 * b := hp
      rw [hmem, hp', ← hdst0, hl, hh]
      rfl
    · have h2 : decide (hi ≠ 512) = true := decide_eq_true hh
      rw [h1, h2] at hp ⊢
      rw [hp] at hmem
      refine returns_memcpy hb₃ hmem hlt hle hdst0 hsrc0 ?_
      rw [hll hh, hl, BitVec.toNat_ofNat]
      omega
  · have h1 : decide (lo ≠ 0) = true := decide_eq_true hl
    have hfo' := hfo hl
    by_cases hh : hi = 512
    · have h2 : decide (hi ≠ 512) = false := decide_eq_false (not_not.mpr hh)
      rw [h1, h2] at hp ⊢
      rw [hp] at hmem
      refine returns_memcpy hb₃ hmem hlt hle (by rw [hfo']) (by rw [hfo']) ?_
      rw [hfo', hh]
      bv_omega
    · have h2 : decide (hi ≠ 512) = true := decide_eq_true hh
      rw [h1, h2] at hp ⊢
      rw [hp] at hmem
      refine returns_memcpy hb₃ hmem hlt hle (by rw [hfo']) (by rw [hfo']) ?_
      rw [hfo', hll hh]
      bv_omega

/-! ### All blocks -/

/-- A transfer of `len` bytes from the address `addr` on takes `n` blocks from `block` on, and of
those all behind the offset `first` in the first, and in front of the offset `last` in the last. -/
structure Plan (addr len block first n last : ℕ) : Prop where
  addr_eq : addr = 512 * block + first
  len_eq : 512 * (n - 1) + last = first + len
  first_lt : first < 512
  last_le : 1 ≤ last ∧ last ≤ 512
  n_pos : 1 ≤ n

/-- Each block has a byte that is asked for. -/
lemma Plan.exists_byte {addr len block first n last i : ℕ} (hp : Plan addr len block first n last)
    (hlen : 1 ≤ len) (hi : i < n) : ∃ k < len, (addr + k) / 512 = block + i := by
  obtain ⟨haddr, hend, hfirst, hlast, -⟩ := hp
  refine ⟨512 * i - first, ?_, ?_⟩
  · omega
  · omega

/-- How many bytes the first `k` blocks give. -/
def doneLen (len first k : ℕ) : ℕ := min (512 * k - first) len

/-- Where the bytes that are asked for begin in a block. -/
def loOf (first k : ℕ) : ℕ := if k = 0 then first else 0

/-- Where the bytes that are asked for end in a block. -/
def hiOf (n last k : ℕ) : ℕ := if k = n - 1 then last else 512

/-- The blocks fit together. -/
lemma Plan.step {addr len block first n last k : ℕ} (hp : Plan addr len block first n last)
    (hlen : 1 ≤ len) (hk : k < n) : first ≤ 512 * k + loOf first k ∧
      doneLen len first k = 512 * k + loOf first k - first ∧ loOf first k ≤ hiOf n last k ∧
      hiOf n last k ≤ 512 ∧
      doneLen len first (k + 1) = doneLen len first k + (hiOf n last k - loOf first k) := by
  obtain ⟨-, h1, h2, h3, h4⟩ := hp
  unfold doneLen loOf hiOf
  split <;> split <;> omega

lemma Plan.doneLen_last {addr len block first n last : ℕ} (hp : Plan addr len block first n last) :
    doneLen len first n = len := by
  obtain ⟨-, h1, h2, h3, h4⟩ := hp
  unfold doneLen
  omega

/-- The buffer of the caller and the swap buffer. -/
structure Buffers (swap buf len : U64) : Prop where
  buf_pos : buf ≠ 0
  buf_le : buf.toNat + len.toNat ≤ 2 ^ 64
  swap_pos : swap ≠ 0
  swap_le : swap.toNat + 512 ≤ 2 ^ 64
  apart : buf.toNat + len.toNat ≤ swap.toNat ∨ swap.toNat + 512 ≤ buf.toNat

lemma add_ofNat_ne_zero {p : U64} {i : ℕ} (hp : p ≠ 0) (hi : p.toNat + i < 2 ^ 64) :
    p + .ofNat 64 i ≠ 0 := by
  intro h
  have h0 : p.toNat ≠ 0 := fun h0 => hp (BitVec.eq_of_toNat_eq h0)
  have hz : (p + .ofNat 64 i).toNat = 0 := by rw [h]; rfl
  rw [BitVec.toNat_add, BitVec.toNat_ofNat] at hz
  omega

/-- The aligned buffer starts below the buffer, but what is stored is stored inside. -/
lemma sub_add_block (buf : U64) {first k i : ℕ} (h : first ≤ 512 * k + i) :
    buf - .ofNat 64 first + 512 * .ofNat 64 k + .ofNat 64 i =
      buf + .ofNat 64 (512 * k + i - first) := by
  have hmul : (512 : U64) * .ofNat 64 k = .ofNat 64 (512 * k) := (BitVec.ofNat_mul 512 k).symm
  have hsum : BitVec.ofNat 64 (512 * k) + .ofNat 64 i =
      .ofNat 64 first + .ofNat 64 (512 * k + i - first) := by
    rw [← BitVec.ofNat_add, ← BitVec.ofNat_add, Nat.add_sub_of_le h]
  rw [hmul, BitVec.add_assoc, hsum, ← BitVec.add_assoc, BitVec.sub_add_cancel]

/-- **The loop over the blocks** puts the bytes of the card into the buffer. -/
theorem returns_blocks (hc : CardOk depth dif handle content served bus)
    {swap buf len firstOffs lastLen lenBlocks : U64} {addr block first n last : ℕ} {checkCrc : Bool}
    {u t : Stream' Byte} {ph : Phase} {s : St σ} (hbuf : Buffers swap buf len) (hlen : 1 ≤ len.toNat)
    (hp : Plan addr len.toNat block first n last) (hfirst : firstOffs = .ofNat 64 first)
    (hlast : lastLen = .ofNat 64 last) (hn : lenBlocks.toNat = n) (hblk : Blocks content block n u t)
    (hb : bus s.dev = ⟨u, ph⟩) :
    Returns ((List.range n).forM fun b => readBlock dif handle depth (buf - firstOffs) lenBlocks swap
      firstOffs lastLen checkCrc (.ofNat 64 b)) s fun _ s' => bus s'.dev = ⟨t, ph⟩ ∧
        ∀ x, Mem.Outside swap 512 x →
          s'.mem x = s.mem.write buf (cardBytes content addr len.toNat) x := by
  have hL := len.isLt
  have hnlt : n < 2 ^ 64 := hn ▸ lenBlocks.isLt
  have hlast' := hp.last_le
  have hfirst' := hp.first_lt
  refine (Returns.forM_range (I := fun k s' => ∃ v, Blocks content (block + k) (n - k) v t ∧
    bus s'.dev = ⟨v, ph⟩ ∧ ∀ x, Mem.Outside swap 512 x →
      s'.mem x = s.mem.write buf (cardBytes content addr (doneLen len.toNat first k)) x)
    ⟨u, hblk, hb, fun x _ => ?_⟩ ?_).mono ?_
  · have h0 : doneLen len.toNat first 0 = 0 := by
      unfold doneLen
      omega
    rw [h0]
    rfl
  · -- a block more
    rintro k s₁ hk ⟨v, hblk', hb₁, hmem₁⟩
    obtain ⟨hle, hdone, hlohi, hhi, hnext⟩ := hp.step hlen hk
    obtain ⟨m, hm⟩ : ∃ m, n - k = m + 1 := ⟨n - k - 1, by omega⟩
    rw [hm] at hblk'
    obtain ⟨w, hone, hrest⟩ := hblk'
    have hk64 : (BitVec.ofNat 64 k).toNat = k := by
      rw [BitVec.toNat_ofNat, Nat.mod_eq_of_lt (by omega)]
    have hlo : loOf first k = if BitVec.ofNat 64 k = 0 then firstOffs.toNat else 0 := by
      have hiff : BitVec.ofNat 64 k = 0 ↔ k = 0 := by
        rw [← BitVec.toNat_inj, hk64]
        rfl
      rw [if_congr hiff rfl rfl, hfirst, BitVec.toNat_ofNat, Nat.mod_eq_of_lt (by omega), loOf]
    have hhi' : hiOf n last k =
        if BitVec.ofNat 64 k = lenBlocks - 1 then lastLen.toNat else 512 := by
      have hiff : BitVec.ofNat 64 k = lenBlocks - 1 ↔ k = n - 1 := by
        have hpred : (lenBlocks - 1).toNat = n - 1 := by bv_omega
        rw [← BitVec.toNat_inj, hk64, hpred]
      rw [if_congr hiff rfl rfl, hlast, BitVec.toNat_ofNat, Nat.mod_eq_of_lt (by omega), hiOf]
    have hnull : loOf first k = 0 → hiOf n last k = 512 →
        ∀ i < 512, buf - firstOffs + 512 * .ofNat 64 k + .ofNat 64 i ≠ 0 := by
      intro hl hh i hi
      rw [hfirst, sub_add_block buf (by omega)]
      refine add_ofNat_ne_zero hbuf.buf_pos ?_
      have := hbuf.buf_le
      unfold doneLen at hdone hnext
      omega
    refine (returns_readBlock hc hlo hhi' hlohi hhi
      (fun i hi => add_ofNat_ne_zero hbuf.swap_pos (by have := hbuf.swap_le; omega)) hnull hone
      hb₁).mono ?_
    rintro - s₂ ⟨hb₂, m', hm', hmem₂⟩
    refine ⟨w, ?_, hb₂, fun x hx => ?_⟩
    · rw [show n - (k + 1) = m by omega, ← Nat.add_assoc]
      exact hrest
    · have haddr : 512 * (block + k) + loOf first k = addr + doneLen len.toNat first k := by
        have := hp.addr_eq
        omega
      have happ := Mem.write_append s.mem buf (cardBytes content addr (doneLen len.toNat first k))
        (cardBytes content (addr + doneLen len.toNat first k) (hiOf n last k - loOf first k)) (by
          rw [length_cardBytes, length_cardBytes, ← hnext]
          exact Nat.le_trans (Nat.min_le_right _ _) (Nat.le_of_lt hL))
      rw [length_cardBytes] at happ
      rw [hmem₂, hfirst, sub_add_block buf hle, ← hdone, haddr, hnext, cardBytes_append, happ]
      exact Mem.write_congr ((hm' x hx).trans (hmem₁ x hx)) _ _
  · rintro - s' ⟨v, hv, hb', hmem'⟩
    rw [Nat.sub_self] at hv
    obtain rfl : v = t := hv
    rw [hp.doneLen_last] at hmem'
    exact ⟨hb', hmem'⟩

/-! ### Whole reads -/

/-- `__spi_sdcard_read_blocks` on a plan for its buffer. -/
theorem returns_readBlocks (hc : CardOk depth dif handle content served bus)
    {swap buf len block firstOffs lastLen lenBlocks : U64} {addr first n last : ℕ} {checkCrc : Bool}
    {s : St σ} (hbuf : Buffers swap buf len) (hlen : 1 ≤ len.toNat)
    (hp : Plan addr len.toNat block.toNat first n last) (hfirst : firstOffs = .ofNat 64 first)
    (hlast : lastLen = .ofNat 64 last) (hn : lenBlocks.toNat = n)
    (hcard : block.toNat + n ≤ 2 ^ 32) (hserved : ∀ i < n, block.toNat + i ∈ served)
    (hidle : (bus s.dev).phase = .idle) :
    Returns (readBlocks dif handle undef depth buf block lenBlocks swap firstOffs lastLen checkCrc) s
      fun _ s' => (bus s'.dev).phase = .idle ∧ ∀ x, Mem.Outside swap 512 x →
        s'.mem x = s.mem.write buf (cardBytes content addr len.toNat) x := by
  have hpos := hp.n_pos
  have harg : (block.setWidth 32).toNat = block.toNat := by
    rw [BitVec.toNat_setWidth, Nat.mod_eq_of_lt (by omega)]
  have hne : lenBlocks ≠ 0 := by
    rintro rfl
    exact absurd hpos (by rw [← hn]; decide)
  have hstart : (block.setWidth 32).toNat ∈ served := by
    rw [harg]
    exact hserved 0 hpos
  unfold readBlocks
  rw [if_neg hne, hn]
  by_cases h1 : lenBlocks > 1
  · obtain ⟨x, u, h0, hph, hans, hblocks⟩ := hc.multiple (block.setWidth 32)
      (crc7 ((toLe 8 (cmdBody 0x52 (block.setWidth 32)).toNat).take 5) <<< 1 ||| 1) s.dev hstart hidle
    rw [harg] at hblocks
    obtain ⟨v, hblk⟩ := hblocks n hserved
    rw [if_pos h1, if_pos h1]
    refine (returns_cmd hc (take_buildCmd _ _) (by rw [buildCmd_and]; decide) h0
      (congrArg (Bus.mk _) hph) hans).bind ?_
    rintro - s₁ ⟨hmem₁, hb₁⟩
    refine (returns_blocks hc hbuf hlen hp hfirst hlast hn hblk hb₁).bind ?_
    rintro - s₂ ⟨hb₂, hmem₂⟩
    refine (returns_stop hc (by rw [hb₂])).mono ?_
    rintro - s₃ ⟨hmem₃, hph₃⟩
    rw [← hmem₁, hmem₃]
    exact ⟨hph₃, hmem₂⟩
  · have hn1 : n = 1 := by
      rw [gt_iff_lt, BitVec.lt_def, hn] at h1
      have : (1 : U64).toNat = 1 := rfl
      omega
    subst hn1
    obtain ⟨x, u, v, h0, hph, hans, hblk⟩ := hc.single (block.setWidth 32)
      (crc7 ((toLe 8 (cmdBody 0x51 (block.setWidth 32)).toNat).take 5) <<< 1 ||| 1) s.dev hstart hidle
    rw [harg] at hblk
    rw [if_neg h1, if_neg h1]
    refine (returns_cmd hc (take_buildCmd _ _) (by rw [buildCmd_and]; decide) h0
      (congrArg (Bus.mk _) hph) hans).bind ?_
    rintro - s₁ ⟨hmem₁, hb₁⟩
    refine (returns_blocks hc hbuf hlen hp hfirst hlast hn ⟨v, hblk, rfl⟩ hb₁).bind ?_
    rintro - s₂ ⟨hb₂, hmem₂⟩
    refine (returns_csfree hc s₂).mono ?_
    rintro - s₃ ⟨hmem₃, hph₃⟩
    rw [hb₂] at hph₃
    rw [← hmem₁, hmem₃]
    exact ⟨hph₃, hmem₂⟩

/-- The block numbers and offsets that `__spi_sdcard_read` computes fit together. -/
lemma plan_read {addr len : U64} (haddr : addr.toNat + len.toNat + 511 < 2 ^ 64)
    (hlen : 1 ≤ len.toNat) :
    Plan addr.toNat len.toNat (addr / 512).toNat (addr % 512).toNat
      ((len + addr % 512 + 511) / 512).toNat
      (if (addr + len) % 512 = 0 then 512 else (addr + len) % 512 : U64).toNat := by
  have h512 : (512 : U64).toNat = 512 := rfl
  have hdiv : (addr / 512).toNat = addr.toNat / 512 := by rw [BitVec.toNat_udiv, h512]
  have hmod : (addr % 512).toNat = addr.toNat % 512 := by rw [BitVec.toNat_umod, h512]
  have hsum : (addr + len).toNat = addr.toNat + len.toNat := by
    rw [BitVec.toNat_add, Nat.mod_eq_of_lt (by omega)]
  have hend : ((addr + len) % 512).toNat = (addr.toNat + len.toNat) % 512 := by
    rw [BitVec.toNat_umod, h512, hsum]
  have hblocks : ((len + addr % 512 + 511) / 512).toNat =
      (len.toNat + addr.toNat % 512 + 511) / 512 := by
    have h511 : (511 : U64).toNat = 511 := rfl
    rw [BitVec.toNat_udiv, BitVec.toNat_add, BitVec.toNat_add, hmod, h512, h511]
    omega
  have hlast : (if (addr + len) % 512 = 0 then 512 else (addr + len) % 512 : U64).toNat =
      if (addr.toNat + len.toNat) % 512 = 0 then 512 else (addr.toNat + len.toNat) % 512 := by
    have hiff : (addr + len) % 512 = 0 ↔ (addr.toNat + len.toNat) % 512 = 0 := by
      rw [← hend, ← BitVec.toNat_inj]
      rfl
    by_cases h : (addr.toNat + len.toNat) % 512 = 0
    · rw [if_pos (hiff.mpr h), if_pos h, h512]
    · rw [if_neg fun hn => h (hiff.mp hn), if_neg h, hend]
  rw [hdiv, hmod, hblocks, hlast]
  constructor
  · omega
  · split <;> omega
  · omega
  · split <;> omega
  · omega

/-- The buffer holds the bytes of the card, and nothing beside it and the swap buffer has changed. -/
def Delivered (content : ℕ → Byte) (swap buf : U64) (addr len : ℕ) (m m' : Mem 64) : Prop :=
  (∀ i < len, m' (buf + .ofNat 64 i) = content (addr + i)) ∧
    ∀ x, Mem.Outside buf len x → Mem.Outside swap 512 x → m' x = m x

lemma Buffers.outside_swap {swap buf len : U64} (h : Buffers swap buf len) {i : ℕ}
    (hi : i < len.toNat) : Mem.Outside swap 512 (buf + .ofNat 64 i) := by
  have h1 := h.buf_le
  have h2 := h.swap_le
  have h3 := h.apart
  unfold Mem.Outside
  rw [BitVec.toNat_sub, BitVec.toNat_add, BitVec.toNat_ofNat]
  omega

/-- `__spi_sdcard_read`. -/
theorem returns_read (hc : CardOk depth dif handle content served bus) {swap buf addr len : U64}
    {s : St σ} (hbuf : len ≠ 0 → Buffers swap buf len)
    (haddr : addr.toNat + len.toNat + 511 < 2 ^ 64)
    (hcard : ∀ i < len.toNat, (addr.toNat + i) / 512 < 2 ^ 32)
    (hserved : ∀ i < len.toNat, (addr.toNat + i) / 512 ∈ served)
    (hidle : (bus s.dev).phase = .idle) (checkCrc : Bool) :
    Returns (read dif handle undef depth swap buf addr len checkCrc) s fun _ s' =>
      (bus s'.dev).phase = .idle ∧
        Delivered content swap buf addr.toNat len.toNat s.mem s'.mem := by
  unfold read
  by_cases h0 : len = 0
  · rw [if_pos h0]
    subst h0
    exact ⟨hidle, fun i hi => absurd hi (Nat.not_lt_zero i), fun _ _ _ => rfl⟩
  have hlen : 1 ≤ len.toNat := by
    have : len.toNat ≠ 0 := fun h => h0 (BitVec.eq_of_toNat_eq h)
    omega
  have hb := hbuf h0
  have hp := plan_read haddr hlen
  rw [if_neg h0]
  have hback : ∀ v : U64, v = .ofNat 64 v.toNat := fun v => by
    rw [BitVec.ofNat_toNat, BitVec.setWidth_eq]
  refine (returns_readBlocks hc hb hlen hp (hback _) (hback _) rfl ?_ ?_ hidle).mono ?_
  · -- the last byte lies in the last block
    have hlast := hcard (len.toNat - 1) (by omega)
    obtain ⟨h1, h2, h3, h4, h5⟩ := hp
    omega
  · intro i hi
    obtain ⟨k, hk, hblock⟩ := hp.exists_byte hlen hi
    exact hblock ▸ hserved k hk
  · rintro - s' ⟨hph, hmem⟩
    refine ⟨hph, fun i hi => ?_, fun x hx hswap => ?_⟩
    · rw [hmem _ (hb.outside_swap hi),
        Mem.write_apply s.mem buf (by rwa [length_cardBytes]) (by have := len.isLt; omega),
        getElem_cardBytes]
    · rw [hmem x hswap]
      exact Mem.write_outside s.mem (by rwa [length_cardBytes])

/-- **A read gives the bytes of the card**, whatever its alignment and the depth of the FIFO, with
the checksums checked or not: it returns without an error, and leaves the card idle. -/
theorem returns_spiSdcardRead (hc : CardOk depth dif handle content served bus)
    {swap buf addr len : U64} {s : St σ} (hbuf : len ≠ 0 → Buffers swap buf len)
    (haddr : addr.toNat + len.toNat + 511 < 2 ^ 64)
    (hcard : ∀ i < len.toNat, (addr.toNat + i) / 512 < 2 ^ 32)
    (hserved : ∀ i < len.toNat, (addr.toNat + i) / 512 ∈ served)
    (hidle : (bus s.dev).phase = .idle) :
    (Returns (spiSdcardReadCheckcrc dif handle undef depth swap buf addr len) s fun _ s' =>
      (bus s'.dev).phase = .idle ∧
        Delivered content swap buf addr.toNat len.toNat s.mem s'.mem) ∧
    Returns (spiSdcardReadIgnorecrc dif handle undef depth swap buf addr len) s fun _ s' =>
      (bus s'.dev).phase = .idle ∧
        Delivered content swap buf addr.toNat len.toNat s.mem s'.mem :=
  ⟨returns_read hc hbuf haddr hcard hserved hidle true,
    returns_read hc hbuf haddr hcard hserved hidle false⟩

end Card

/-! ### A card that answers at once -/

/-- A block behind one fill byte; a card of `size` blocks has nothing to send for those behind. -/
def promptBlock (size : ℕ) (content : ℕ → Byte) (b : ℕ) : List Byte :=
  if b < size then
    0xFF :: 0xFE :: (blockData content b ++ (toLe 2 (blockCrc content b).toNat).reverse)
  else List.replicate 516 0xFF

/-- All blocks from `b` on. -/
def promptBlocks (size : ℕ) (content : ℕ → Byte) (b : ℕ) : Stream' Byte :=
  fun i => (promptBlock size content (b + i / 516)).getD (i % 516) 0xFF

/-- What the card does on a command. -/
def promptRespond (size : ℕ) (content : ℕ → Byte) (bs : List Byte) (s : Bus) : Bus :=
  let arg := ofLe ((bs.drop 1).take 4).reverse
  if bs.head? = some 0x51 ∧ s.phase = .idle then
    ⟨[0xFF, 0x00] ++ₛ (promptBlock size content arg ++ₛ Stream'.const 0xFF), .single⟩
  else if bs.head? = some 0x52 ∧ s.phase = .idle then
    ⟨[0xFF, 0x00] ++ₛ promptBlocks size content arg, .multiple⟩
  else if bs.head? = some 0x4C ∧ s.phase = .multiple then
    ⟨[0xFF, 0xFF, 0x00, 0x00, 0xFF] ++ₛ Stream'.const 0xFF, .idle⟩
  else s

/-- A host with that card. -/
def promptDif (size : ℕ) (content : ℕ → Byte) : Dif Bus where
  transactionCsaat _ seg s :=
    match seg with
    | .tx bs => ((0, []), promptRespond size content bs s)
    | .rx n => ((0, s.coming.take n), ⟨s.coming.drop n, s.phase⟩)
    | .dummy _ => ((0, []), s)
  transaction _ _ s := ((0, []), ⟨s.coming, if s.phase = .multiple then .multiple else .idle⟩)

lemma length_promptBlock (size : ℕ) (content : ℕ → Byte) (b : ℕ) :
    (promptBlock size content b).length = 516 := by
  unfold promptBlock
  split
  · rw [List.length_cons, List.length_cons, List.length_append, List.length_reverse, length_toLe,
      blockData, length_cardBytes]
  · rw [List.length_replicate]

lemma promptBlocks_eq (size : ℕ) (content : ℕ → Byte) (b : ℕ) :
    promptBlocks size content b =
      promptBlock size content b ++ₛ promptBlocks size content (b + 1) := by
  have hlen := length_promptBlock size content b
  refine Stream'.ext fun i => ?_
  rcases Nat.lt_or_ge i 516 with h | h
  · rw [Stream'.get_append_left _ _ _ (by rwa [hlen])]
    show (promptBlock size content (b + i / 516)).getD (i % 516) 0xFF = _
    rw [Nat.div_eq_of_lt h, Nat.mod_eq_of_lt h, Nat.add_zero,
      List.getD_eq_getElem _ _ (by rwa [hlen])]
  · obtain ⟨k, rfl⟩ : ∃ k, i = 516 + k := ⟨i - 516, by omega⟩
    have hright := Stream'.get_append_right k (promptBlock size content b)
      (promptBlocks size content (b + 1))
    rw [hlen] at hright
    rw [hright]
    show (promptBlock size content (b + (516 + k) / 516)).getD ((516 + k) % 516) 0xFF =
      (promptBlock size content (b + 1 + k / 516)).getD (k % 516) 0xFF
    rw [Nat.add_mod_left, Nat.add_div_left k (by decide), Nat.add_comm (k / 516), ← Nat.add_assoc]

/-- The token comes behind one fill byte. -/
lemma block_promptBlock {size : ℕ} (content : ℕ → Byte) {b : ℕ} (hb : b < size)
    (t : Stream' Byte) : Block content b (promptBlock size content b ++ₛ t) t := by
  rw [promptBlock, if_pos hb]
  exact ⟨_, ⟨[0xFF], by decide, by decide, rfl, rfl⟩, rfl⟩

lemma blocks_promptBlocks {size : ℕ} (content : ℕ → Byte) : ∀ n b : ℕ,
    (∀ i < n, b + i < size) → ∃ v, Blocks content b n (promptBlocks size content b) v := by
  intro n
  induction n with
  | zero =>
    intro b _
    exact ⟨_, rfl⟩
  | succ n ih =>
    intro b hserved
    have hrest : ∀ i < n, b + 1 + i < size := fun i hi => by
      have := hserved (i + 1) (by omega)
      omega
    obtain ⟨v, hv⟩ := ih (b + 1) hrest
    refine ⟨v, promptBlocks size content (b + 1), ?_, hv⟩
    rw [promptBlocks_eq size content b]
    exact block_promptBlock content (hserved 0 (by omega)) _

lemma arg_frame (op : Byte) (arg : U32) (crc : Byte) :
    ofLe (((frame op arg crc).drop 1).take 4).reverse = arg.toNat := by
  have htake : ((frame op arg crc).drop 1).take 4 = (toLe 4 arg.toNat).reverse := by
    rw [frame, List.drop_one, List.cons_append, List.tail_cons,
      List.take_left' (by rw [List.length_reverse, length_toLe])]
  rw [htake, List.reverse_reverse, ofLe_toLe_of_lt arg.isLt]

lemma promptRespond_single (size : ℕ) (content : ℕ → Byte) (arg : U32) (crc : Byte) {s : Bus}
    (hidle : s.phase = .idle) : promptRespond size content (frame 0x51 arg crc) s =
      ⟨[0xFF, 0x00] ++ₛ (promptBlock size content arg.toNat ++ₛ Stream'.const 0xFF), .single⟩ := by
  rw [promptRespond, arg_frame]
  exact if_pos ⟨rfl, hidle⟩

lemma promptRespond_multiple (size : ℕ) (content : ℕ → Byte) (arg : U32) (crc : Byte) {s : Bus}
    (hidle : s.phase = .idle) : promptRespond size content (frame 0x52 arg crc) s =
      ⟨[0xFF, 0x00] ++ₛ promptBlocks size content arg.toNat, .multiple⟩ := by
  rw [promptRespond, arg_frame]
  exact (if_neg fun h => absurd (Option.some.inj h.1) (by decide)).trans (if_pos ⟨rfl, hidle⟩)

lemma promptRespond_stop (size : ℕ) (content : ℕ → Byte) {s : Bus} (hmulti : s.phase = .multiple) :
    promptRespond size content (frame 0x4C 0 0x61) s =
      ⟨[0xFF, 0xFF, 0x00, 0x00, 0xFF] ++ₛ Stream'.const 0xFF, .idle⟩ := by
  rw [promptRespond, if_neg fun h => absurd (Option.some.inj h.1) (by decide),
    if_neg fun h => absurd (Option.some.inj h.1) (by decide)]
  exact if_pos ⟨rfl, hmulti⟩

/-- The response comes behind one fill byte. -/
lemma answers_prompt (t : Stream' Byte) :
    Answers (fun x => x &&& 0x80 != 0) 8 ([0xFF, 0x00] ++ₛ t) 0x00 t :=
  ⟨[0xFF], by decide, by decide, rfl, rfl⟩

/-- It keeps the contract for the blocks that it has. -/
theorem cardOk_promptDif (depth : ℕ+) (handle : Handle) (size : ℕ) (content : ℕ → Byte) :
    CardOk depth (promptDif size content) handle content {b | b < size} id := by
  constructor
  · exact fun n s _ => ⟨rfl, rfl⟩
  · intro arg crc s hserved hidle
    have hs := promptRespond_single size content arg crc (s := s) hidle
    refine ⟨0x00, promptBlock size content arg.toNat ++ₛ Stream'.const 0xFF, Stream'.const 0xFF,
      rfl, congrArg Bus.phase hs, ?_, block_promptBlock content hserved _⟩
    show Answers _ 8 (promptRespond size content (frame 0x51 arg crc) s).coming _ _
    rw [hs]
    exact answers_prompt _
  · intro arg crc s _ hidle
    have hs := promptRespond_multiple size content arg crc (s := s) hidle
    refine ⟨0x00, promptBlocks size content arg.toNat, rfl, congrArg Bus.phase hs, ?_,
      fun n hn => blocks_promptBlocks content n arg.toNat hn⟩
    show Answers _ 8 (promptRespond size content (frame 0x52 arg crc) s).coming _ _
    rw [hs]
    exact answers_prompt _
  · intro s hmulti
    have hs := promptRespond_stop size content hmulti
    refine ⟨0xFF, 0x00, 0xFF, [0xFF, 0x00, 0x00, 0xFF] ++ₛ Stream'.const 0xFF,
      [0x00, 0xFF] ++ₛ Stream'.const 0xFF, Stream'.const 0xFF, rfl, hs, answers_prompt _, ?_⟩
    exact ⟨[0x00], by decide, by decide, rfl, rfl⟩
  · exact fun s => ⟨rfl, rfl⟩

/-- 600 bytes from the address 496 on, the end of a block, a block, and the start of a block, from a
card of three blocks. -/
theorem returns_spiSdcardRead_prompt :
    (Returns (spiSdcardReadCheckcrc (promptDif 3 fun a => .ofNat 8 a) ⟨0, 1⟩ ⟨0, 0⟩ 64 0x1000
        0x2000 496 600)
      ⟨fun _ => 0, ⟨Stream'.const 0xFF, .idle⟩⟩ fun _ s' => s'.dev.phase = .idle ∧
        Delivered (fun a => .ofNat 8 a) 0x1000 0x2000 496 600 (fun _ => 0) s'.mem) ∧
    Returns (spiSdcardReadIgnorecrc (promptDif 3 fun a => .ofNat 8 a) ⟨0, 1⟩ ⟨0, 0⟩ 64 0x1000
        0x2000 496 600)
      ⟨fun _ => 0, ⟨Stream'.const 0xFF, .idle⟩⟩ fun _ s' => s'.dev.phase = .idle ∧
        Delivered (fun a => .ofNat 8 a) 0x1000 0x2000 496 600 (fun _ => 0) s'.mem :=
  returns_spiSdcardRead (cardOk_promptDif 64 ⟨0, 1⟩ 3 _)
    (fun _ => ⟨by decide, by decide, by decide, by decide, by decide⟩) (by decide)
    (fun i hi => by
      have hlen : (600 : U64).toNat = 600 := rfl
      have haddr : (496 : U64).toNat = 496 := rfl
      omega)
    (fun i hi => by
      have hlen : (600 : U64).toNat = 600 := rfl
      have haddr : (496 : U64).toNat = 496 := rfl
      show (496 + i) / 512 < 3
      omega) rfl

end Cheshire.Sw.SpiSdcard
