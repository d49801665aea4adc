import Cheshire.Sw.SpiSdcardRead

/-!
How `__spi_sdcard_read_blocks` ends.  Where the card answers in time and with the right checksums,
the card is released and a stream of blocks is stopped; every other answer ends the call with the
chip select still asserted.
-/

namespace Cheshire.Sw.SpiSdcard

open Lib

/-! ### The wires -/

/-- A transaction of the host; `held` tells that it left the chip select asserted. -/
structure Transfer where
  csid : CInt
  seg : Segment
  held : Bool

/-- The wires: the bytes to come on MISO, and the transactions so far. -/
structure Wires where
  miso : Stream' Byte
  sent : List Transfer

/-- How many bytes a segment takes. -/
def Segment.bytes : Segment → ℕ
  | .tx buf => buf.length
  | .rx length => length
  | .dummy length => length / 8

/-- What a segment receives. -/
def Segment.received (u : Stream' Byte) : Segment → List Byte
  | .tx _ => []
  | .rx length => u.take length
  | .dummy _ => []

/-- The FIFO can hold what the segment receives. -/
def Segment.Fits (depth : ℕ+) : Segment → Prop
  | .tx _ => True
  | .rx length => length ≤ 4 * (depth : ℕ)
  | .dummy _ => True

/-- The wires behind a transaction. -/
def Wires.next (w : Wires) (t : Transfer) : Wires := ⟨w.miso.drop t.seg.bytes, w.sent ++ [t]⟩

/-- A host whose calls all succeed, with any bytes on MISO. -/
structure HostOk {σ : Type} (depth : ℕ+) (dif : Dif σ) (wires : σ → Wires) : Prop where
  csaat : ∀ csid seg s, seg.Fits depth →
    (dif.transactionCsaat csid seg s).1 = (0, seg.received (wires s).miso) ∧
    wires (dif.transactionCsaat csid seg s).2 = (wires s).next ⟨csid, seg, true⟩
  free : ∀ csid seg s, seg.Fits depth →
    (dif.transaction csid seg s).1 = (0, seg.received (wires s).miso) ∧
    wires (dif.transaction csid seg s).2 = (wires s).next ⟨csid, seg, false⟩

/-- The transaction of `__spi_sdcard_csfree`. -/
def freeing (handle : Handle) : Transfer := ⟨handle.csidDummy, .dummy 8, false⟩

/-- The transaction sends a command to the card. -/
def Transfer.Sends (handle : Handle) (opcode : Byte) (t : Transfer) : Prop :=
  ∃ arg crc, t = ⟨handle.csid, .tx (frame opcode arg crc), true⟩

/-- Every CMD18 has a CMD12 behind it. -/
def Stopped (handle : Handle) : List Transfer → Prop
  | [] => True
  | t :: ts => (t.Sends handle 0x52 → ∃ t' ∈ ts, t'.Sends handle 0x4C) ∧ Stopped handle ts

/-- The transactions of a call that leaves the card as it should: the last one releases it, and no
stream of blocks is open. -/
structure Tidy (handle : Handle) (ts : List Transfer) : Prop where
  freed : ts.getLast? = some (freeing handle)
  stopped : Stopped handle ts

/-- The transactions from `s` to `s'` satisfy `P`. -/
def Between {σ : Type} (wires : σ → Wires) (P : List Transfer → Prop) (s s' : St σ) : Prop :=
  ∃ ts, (wires s'.dev).sent = (wires s.dev).sent ++ ts ∧ P ts

/-! ### What the card sends -/

/-- A block comes in time, where `checkCrc` with the checksum of its data. -/
def BlockOk (checkCrc : Bool) (u t : Stream' Byte) : Prop :=
  ∃ v, Answers (fun x => x == 0xFF) 10000 u 0xFE v ∧ t = v.drop 514 ∧
    (checkCrc = true → (v.drop 512).take 2 =
      (toLe 2 (Crc.remainder 0x1021 (v.take 512) : BitVec 16).toNat).reverse)

/-- `n` blocks come in time. -/
def BlocksOk (checkCrc : Bool) : ℕ → Stream' Byte → Stream' Byte → Prop
  | 0, u, t => u = t
  | n + 1, u, t => ∃ v, BlockOk checkCrc u v ∧ BlocksOk checkCrc n v t

/-- Behind its seven bytes CMD12 is answered in time, and the card is not busy for too long. -/
def StopOk (u : Stream' Byte) : Prop :=
  ∃ x y v t, Answers (fun x => x &&& 0x80 != 0) 8 (u.drop 7) x v ∧
    Answers (fun x => x == 0) 10000 v y t

/-- The card serves a read of `n` blocks: it answers to the command and sends the blocks, and if
there are several it answers to CMD12. -/
def Served (checkCrc : Bool) (n : ℕ) (u : Stream' Byte) : Prop :=
  ∃ x v t, Answers (fun x => x &&& 0x80 != 0) 8 (u.drop 6) x v ∧ BlocksOk checkCrc n v t ∧
    (1 < n → StopOk t)

/-- Where a block is received to. -/
def blockBuf (buf len swap firstOffs lastLen b : U64) : U64 :=
  if (b = 0 ∧ firstOffs ≠ 0) ∨ (b = len - 1 ∧ lastLen ≠ 512) then swap
  else buf - firstOffs + 512 * b

/-! ### Answers -/

/-- A poll takes one byte, and goes on if it is polled again. -/
lemma answers_succ {again : Byte → Bool} {k : ℕ} {u t : Stream' Byte} {x : Byte} :
    Answers again (k + 1) u x t ↔ k ≠ 0 ∧
      if again u.head then Answers again k u.tail x t else x = u.head ∧ t = u.tail := by
  constructor
  · rintro ⟨fill, hlen, hagain, hx, rfl⟩
    refine ⟨by omega, ?_⟩
    cases fill with
    | nil =>
      show if again x then _ else x = x ∧ t = t
      rw [hx]
      exact ⟨rfl, rfl⟩
    | cons y fill =>
      rw [List.forall_mem_cons] at hagain
      show if again y then Answers again k (fill ++ₛ Stream'.cons x t) x t else _
      rw [if_pos hagain.1]
      rw [List.length_cons] at hlen
      exact ⟨fill, by omega, hagain.2, hx, rfl⟩
  · rintro ⟨hk, h⟩
    split at h
    · next hhead =>
      obtain ⟨fill, hlen, hagain, hx, hu⟩ := h
      refine ⟨u.head :: fill, ?_, ?_, hx, ?_⟩
      · rw [List.length_cons]
        omega
      · rw [List.forall_mem_cons]
        exact ⟨hhead, hagain⟩
      · rw [Stream'.cons_append_stream, ← hu, Stream'.eta]
    · next hhead =>
      obtain ⟨rfl, rfl⟩ := h
      refine ⟨[], ?_, ?_, Bool.eq_false_of_not_eq_true hhead, ?_⟩
      · rw [List.length_nil]
        omega
      · exact fun y hy => absurd hy List.not_mem_nil
      · rw [Stream'.nil_append_stream, Stream'.eta]

lemma not_answers_zero {again : Byte → Bool} {u t : Stream' Byte} {x : Byte} :
    ¬ Answers again 0 u x t := by
  rintro ⟨fill, hlen, -⟩
  exact absurd hlen (Nat.not_lt_zero _)

/-- A poll has one answer. -/
theorem Answers.unique {again : Byte → Bool} {x y : Byte} {t v : Stream' Byte} :
    ∀ {k : ℕ} {u : Stream' Byte}, Answers again k u x t → Answers again k u y v → x = y ∧ t = v := by
  intro k
  induction k with
  | zero =>
    intro u h _
    exact absurd h not_answers_zero
  | succ k ih =>
    intro u h h'
    obtain ⟨-, h⟩ := answers_succ.mp h
    obtain ⟨-, h'⟩ := answers_succ.mp h'
    split at h
    · next hhead =>
      rw [if_pos hhead] at h'
      exact ih h h'
    · next hhead =>
      rw [if_neg hhead] at h'
      exact ⟨h.1.trans h'.1.symm, h.2.trans h'.2.symm⟩

theorem BlockOk.unique {checkCrc : Bool} {u t v : Stream' Byte} (h : BlockOk checkCrc u t)
    (h' : BlockOk checkCrc u v) : t = v := by
  obtain ⟨w, hw, rfl, -⟩ := h
  obtain ⟨w', hw', rfl, -⟩ := h'
  rw [(hw.unique hw').2]

/-! ### Transfers -/

/-- A transfer under the asserted chip select that is no command. -/
def Transfer.Quiet (t : Transfer) : Prop := t.held = true ∧ ∀ bs, t.seg ≠ .tx bs

section Ends

variable {σ : Type} {depth : ℕ+} {dif : Dif σ} {handle : Handle} {undef : Undefined}
  {wires : σ → Wires}

lemma Between.trans {P Q R : List Transfer → Prop} {s s' s'' : St σ} (h : Between wires P s s')
    (h' : Between wires Q s' s'') (hR : ∀ ts us, P ts → Q us → R (ts ++ us)) :
    Between wires R s s'' := by
  obtain ⟨ts, hts, hP⟩ := h
  obtain ⟨us, hus, hQ⟩ := h'
  exact ⟨ts ++ us, by rw [hus, hts, List.append_assoc], hR ts us hP hQ⟩

/-- Nothing but bytes has been taken from the card since `s`. -/
def Reads (wires : σ → Wires) : St σ → St σ → Prop := Between wires fun ts => ∀ t ∈ ts, t.Quiet

lemma Reads.refl (s : St σ) : Reads wires s s :=
  ⟨[], (List.append_nil _).symm, fun _ ht => absurd ht List.not_mem_nil⟩

lemma Reads.trans {s s' s'' : St σ} (h : Reads wires s s') (h' : Reads wires s' s'') :
    Reads wires s s'' :=
  Between.trans h h' fun _ _ hts hus => List.forall_mem_append.mpr ⟨hts, hus⟩

/-- The next `n` bytes have been taken. -/
structure Took (wires : σ → Wires) (n : ℕ) (s s' : St σ) : Prop where
  miso : (wires s'.dev).miso = (wires s.dev).miso.drop n
  reads : Reads wires s s'

lemma Took.trans {n k : ℕ} {s s' s'' : St σ} (h : Took wires n s s') (h' : Took wires k s' s'') :
    Took wires (n + k) s s'' :=
  ⟨by rw [h'.miso, h.miso, Stream'.drop_drop], h.reads.trans h'.reads⟩

/-- A segment that is no command. -/
lemma returns_quiet (hh : HostOk depth dif wires) (seg : Segment) (hfits : seg.Fits depth)
    (htx : ∀ bs, seg ≠ .tx bs) (s : St σ) :
    Returns (checkDif (dif.transactionCsaat handle.csid seg)) s fun r s' =>
      r = seg.received (wires s.dev).miso ∧ s'.mem = s.mem ∧ Took wires seg.bytes s s' := by
  obtain ⟨hret, hnext⟩ := hh.csaat handle.csid seg s.dev hfits
  refine returns_checkDif (by rw [hret]) ⟨by rw [hret], rfl, ?_, ?_⟩
  · show (wires _).miso = _
    rw [hnext]
    rfl
  · refine ⟨[⟨handle.csid, seg, true⟩], ?_, List.forall_mem_singleton.mpr ⟨rfl, htx⟩⟩
    show (wires _).sent = _
    rw [hnext]
    rfl

/-- Bytes are received. -/
theorem returns_receive (hh : HostOk depth dif wires) {n : ℕ} (hn : n ≤ 4 * (depth : ℕ))
    (s : St σ) : Returns (xferCsaat dif handle true none n) s fun r s' =>
      r = (wires s.dev).miso.take n ∧ s'.mem = s.mem ∧ Took wires n s s' := by
  unfold xferCsaat
  refine returns_bind.mpr (returns_checkAssert.mpr ⟨fun h => Bool.false_ne_true h.1, ?_⟩)
  exact returns_quiet hh (.rx n) hn (fun bs h => Segment.noConfusion h) s

/-- A byte is received. -/
theorem returns_receiveByte (hh : HostOk depth dif wires) (s : St σ) :
    Returns (xferByte dif handle) s fun x s' =>
      x = (wires s.dev).miso.head ∧ s'.mem = s.mem ∧ Took wires 1 s s' := by
  have hn : 1 ≤ 4 * (depth : ℕ) := by
    have := depth.pos
    omega
  refine (returns_receive hh hn s).bind ?_
  rintro r s' ⟨rfl, hmem, htook⟩
  exact ⟨rfl, hmem, htook⟩

/-- **A poll** ends with the answer, or with its error if there is none in time. -/
theorem ends_poll (hh : HostOk depth dif wires) (err : CInt) (again : Byte → Bool) :
    ∀ (timeout : ℕ) (s : St σ), Ends (poll dif handle err again timeout) s
      (fun x s' => s'.mem = s.mem ∧ Reads wires s s' ∧
        Answers again timeout (wires s.dev).miso x (wires s'.dev).miso)
      fun e s' => e = err ∧ Reads wires s s' ∧
        ∀ x t, ¬ Answers again timeout (wires s.dev).miso x t := by
  intro timeout
  induction timeout with
  | zero =>
    intro s
    exact ⟨rfl, Reads.refl s, fun x t => not_answers_zero⟩
  | succ k ih =>
    intro s
    rw [poll]
    refine (returns_receiveByte hh s).ends.bind ?_
    rintro x s₁ ⟨rfl, hmem₁, hmiso₁, hreads₁⟩
    rw [← Stream'.tail_eq_drop] at hmiso₁
    by_cases hk : k = 0
    · rw [if_pos hk]
      exact ⟨rfl, hreads₁, fun x t h => (answers_succ.mp h).1 hk⟩
    rw [if_neg hk]
    by_cases hagain : again (wires s.dev).miso.head
    · rw [if_pos hagain]
      refine (ih s₁).mono ?_ ?_
      · rintro x s₂ ⟨hmem₂, hreads₂, hans⟩
        refine ⟨hmem₂.trans hmem₁, hreads₁.trans hreads₂, answers_succ.mpr ⟨hk, ?_⟩⟩
        rwa [if_pos hagain, ← hmiso₁]
      · rintro e s₂ ⟨he, hreads₂, hnone⟩
        refine ⟨he, hreads₁.trans hreads₂, fun x t h => hnone x t ?_⟩
        have hrest := (answers_succ.mp h).2
        rwa [if_pos hagain, ← hmiso₁] at hrest
    · rw [if_neg hagain]
      refine ⟨hmem₁, hreads₁, answers_succ.mpr ⟨hk, ?_⟩⟩
      rw [if_neg hagain]
      exact ⟨rfl, hmiso₁⟩

/-! ### Blocks -/

/-- Bytes received to a pointer; the null pointer makes them dummy cycles. -/
theorem returns_receiveTo (hh : HostOk depth dif wires) (p : U64) {n : ℕ}
    (hn : n ≤ 4 * (depth : ℕ)) (s : St σ) : Returns (xferTo dif handle p n) s fun _ s' =>
      Took wires n s s' ∧ (p ≠ 0 → s'.mem = s.mem.write p ((wires s.dev).miso.take n)) := by
  unfold xferTo
  by_cases hp : p = 0
  · have hbytes : (Segment.dummy (8 * n)).bytes = n := Nat.mul_div_cancel_left n (by decide)
    subst hp
    refine Returns.bind (P := fun _ s' => Took wires n s s') ?_ ?_
    · unfold xferCsaat
      refine returns_bind.mpr (returns_checkAssert.mpr ⟨fun h => Bool.false_ne_true h.1, ?_⟩)
      refine (returns_quiet hh (.dummy (8 * n)) trivial (fun bs h => Segment.noConfusion h)
        s).mono ?_
      rintro r s' ⟨-, -, htook⟩
      rwa [hbytes] at htook
    · intro r s' htook
      rw [if_pos rfl]
      exact ⟨htook, fun h => absurd rfl h⟩
  · rw [bne_iff_ne.mpr hp]
    refine (returns_receive hh hn s).bind ?_
    rintro r s' ⟨rfl, hmem, htook⟩
    rw [if_neg hp]
    refine ⟨⟨htook.miso, htook.reads⟩, fun _ => ?_⟩
    show s'.mem.write p _ = _
    rw [hmem]

/-- The chunks of a block take its bytes, and store them unless there is a null pointer. -/
theorem returns_takeChunks (hh : HostOk depth dif wires) (p : U64) (s : St σ) :
    Returns (readChunks dif handle depth p 0) s fun _ s' => Took wires 512 s s' ∧
      ((∀ i < 512, p + .ofNat 64 i ≠ 0) → s'.mem = s.mem.write p ((wires s.dev).miso.take 512)) := by
  refine returns_iff_ends.mpr (ends_readChunks (I := fun o s' => Took wires o s s' ∧
    ((∀ i < 512, p + .ofNat 64 i ≠ 0) → s'.mem = s.mem.write p ((wires s.dev).miso.take o))) ?_ ?_)
  · exact ⟨⟨rfl, Reads.refl s⟩, fun _ => rfl⟩
  rintro offs k s₁ ho hk hd ⟨htook₁, hmem₁⟩
  refine ((returns_receiveTo hh _ hd s₁).mono ?_).ends
  rintro - s₂ ⟨htook₂, hmem₂⟩
  refine ⟨htook₁.trans htook₂, fun hnull => ?_⟩
  rw [hmem₂ (hnull offs ho), hmem₁ hnull, htook₁.miso, Stream'.take_add]
  exact write_chunk s.mem p (Stream'.length_take _ _) (by rwa [Stream'.length_take])

lemma ends_loadBytes {p : U64} {n : ℕ} {s : St σ} {Q : List Byte → St σ → Prop}
    {E : CInt → St σ → Prop} : Ends (loadBytes p n) s Q E ↔ Q (s.mem.slice p n) s := Iff.rfl

lemma ends_memcpy {dst src len : U64} {s : St σ} {Q : Unit → St σ → Prop} {E : CInt → St σ → Prop}
    (h : ∀ m, Q () ⟨m, s.dev⟩) : Ends (memcpy dst src len) s Q E := h _

/-- The checksum that has been received is compared with the one of the data. -/
lemma crc_eq_iff {crc data : List Byte} (hlen : crc.length = 2) :
    BitVec.ofNat 16 (ofLe crc) = crc16 data ↔
      crc = (toLe 2 (Crc.remainder 0x1021 data : BitVec 16).toNat).reverse := by
  rw [← ofLe_blockCrc]
  constructor
  · intro h
    have hrev : (toLe 2 (Crc.remainder 0x1021 data : BitVec 16).toNat).reverse.length = 2 := by
      rw [List.length_reverse, length_toLe]
    refine ofLe_inj (hlen.trans hrev.symm) ?_
    have hlt := ofLe_lt crc
    have hlt' := ofLe_lt (toLe 2 (Crc.remainder 0x1021 data : BitVec 16).toNat).reverse
    rw [hlen] at hlt
    rw [hrev] at hlt'
    have hnat := congrArg BitVec.toNat h
    rwa [BitVec.toNat_ofNat, BitVec.toNat_ofNat, Nat.mod_eq_of_lt (by omega),
      Nat.mod_eq_of_lt (by omega)] at hnat
  · rintro rfl
    rfl

/-- Where a turn of the loop puts its block. -/
lemma place_eq {buf len swap firstOffs lastLen b : U64} :
    (if decide (b = 0 ∧ firstOffs ≠ 0) || decide (b = len - 1 ∧ lastLen ≠ 512) then swap
      else buf - firstOffs + 512 * b) = blockBuf buf len swap firstOffs lastLen b := by
  rw [blockBuf]
  refine if_congr ?_ rfl rfl
  rw [Bool.or_eq_true, decide_eq_true_iff, decide_eq_true_iff]

/-- **A block** is taken when it comes in time; otherwise the loop ends with an error. -/
theorem ends_readBlock (hh : HostOk depth dif wires) {buf len swap firstOffs lastLen b : U64}
    {checkCrc : Bool} (hnull : checkCrc = true →
      ∀ i < 512, blockBuf buf len swap firstOffs lastLen b + .ofNat 64 i ≠ 0) (s : St σ) :
    Ends (readBlock dif handle depth (buf - firstOffs) len swap firstOffs lastLen checkCrc b) s
      (fun _ s' => Reads wires s s' ∧ BlockOk checkCrc (wires s.dev).miso (wires s'.dev).miso)
      fun _ s' => Reads wires s s' ∧ ∀ t, ¬ BlockOk checkCrc (wires s.dev).miso t := by
  have hdepth := depth.pos
  unfold readBlock
  refine ((ends_poll hh 0x19 (fun x => x == 0xFF) 10000 s).mono (fun _ _ h => h) ?_).bind ?_
  · rintro e s' ⟨-, hreads, hnone⟩
    exact ⟨hreads, fun t ⟨v, htok, _⟩ => hnone _ _ htok⟩
  rintro token s₁ ⟨-, hreads₁, htok⟩
  by_cases htoken : token = 0xFE
  rotate_left
  · -- an unexpected token
    rw [if_neg htoken]
    exact ⟨hreads₁, fun t ⟨v, htok', _⟩ => htoken (htok.unique htok').1⟩
  subst htoken
  rw [if_pos rfl]
  obtain ⟨p, hp⟩ : ∃ p, p = blockBuf buf len swap firstOffs lastLen b := ⟨_, rfl⟩
  rw [← hp] at hnull
  simp only [place_eq, ← hp]
  refine (returns_takeChunks hh p s₁).ends.bind ?_
  rintro - s₂ ⟨htook₂, hmem₂⟩
  refine (returns_receive hh (by omega) s₂).ends.bind ?_
  rintro crc s₃ ⟨rfl, hmem₃, htook₃⟩
  have hreads₃ : Reads wires s s₃ := hreads₁.trans (htook₂.reads.trans htook₃.reads)
  have hmiso₃ : (wires s₃.dev).miso = (wires s₁.dev).miso.drop 514 :=
    (htook₂.trans htook₃).miso
  refine ends_bind.mpr (ends_loadBytes.mpr ?_)
  -- the checksum of what has been received
  have hcheck : checkCrc = true → (BitVec.ofNat 16 (ofLe ((wires s₂.dev).miso.take 2)) =
      crc16 (s₃.mem.slice p 512) ↔ ((wires s₁.dev).miso.drop 512).take 2 =
        (toLe 2 (Crc.remainder 0x1021 ((wires s₁.dev).miso.take 512) : BitVec 16).toNat).reverse) := by
    intro hc
    have hslice : s₃.mem.slice p 512 = (wires s₁.dev).miso.take 512 := by
      rw [hmem₃, hmem₂ (hnull hc), slice_block _ _ (Stream'.length_take _ _)]
    rw [hslice, htook₂.miso, crc_eq_iff (Stream'.length_take _ _)]
  by_cases hcrc : checkCrc = true ∧
      BitVec.ofNat 16 (ofLe ((wires s₂.dev).miso.take 2)) ≠ crc16 (s₃.mem.slice p 512)
  · rw [if_pos hcrc]
    refine ⟨hreads₃, fun t ⟨v, htok', _, hsum⟩ => hcrc.2 ((hcheck hcrc.1).mpr ?_)⟩
    rw [(htok.unique htok').2]
    exact hsum hcrc.1
  · rw [if_neg hcrc]
    have hok : BlockOk checkCrc (wires s.dev).miso (wires s₃.dev).miso := by
      refine ⟨_, htok, hmiso₃, fun hc => (hcheck hc).mp ?_⟩
      exact not_not.mp fun hne => hcrc ⟨hc, hne⟩
    -- what is left is done in memory
    have hdone (m : Mem 64) : Reads wires s ⟨m, s₃.dev⟩ ∧
        BlockOk checkCrc (wires s.dev).miso (wires s₃.dev).miso := ⟨hreads₃, hok⟩
    split
    · exact ends_memcpy hdone
    · split
      · exact ends_memcpy hdone
      · split
        · exact ends_memcpy hdone
        · exact hdone s₃.mem

/-- **The loop over the blocks** goes through when all of them come in time. -/
theorem ends_blocks (hh : HostOk depth dif wires) {buf len swap firstOffs lastLen : U64}
    {checkCrc : Bool} {n : ℕ} (hnull : checkCrc = true → ∀ b < n, ∀ i < 512,
      blockBuf buf len swap firstOffs lastLen (.ofNat 64 b) + .ofNat 64 i ≠ 0) (s : St σ) :
    Ends ((List.range n).forM fun b => readBlock dif handle depth (buf - firstOffs) len swap
        firstOffs lastLen checkCrc (.ofNat 64 b)) s
      (fun _ s' => Reads wires s s' ∧ BlocksOk checkCrc n (wires s.dev).miso (wires s'.dev).miso)
      fun _ s' => Reads wires s s' ∧ ∀ t, ¬ BlocksOk checkCrc n (wires s.dev).miso t := by
  refine (Ends.forM_range (I := fun k s' => Reads wires s s' ∧ ∀ t,
    BlocksOk checkCrc n (wires s.dev).miso t ↔ BlocksOk checkCrc (n - k) (wires s'.dev).miso t)
    ⟨Reads.refl s, fun _ => Iff.rfl⟩ ?_).mono ?_ fun _ _ h => h
  · -- the blocks that are left are served when this one and those behind it are
    rintro k s₁ hk ⟨hreads₁, hiff⟩
    obtain ⟨m, hm⟩ : ∃ m, n - k = m + 1 := ⟨n - k - 1, by omega⟩
    have hm' : n - (k + 1) = m := by omega
    rw [hm] at hiff
    rw [hm']
    refine (ends_readBlock hh (fun hc => hnull hc k hk) s₁).mono ?_ ?_
    · rintro - s₂ ⟨hreads₂, hblock⟩
      refine ⟨hreads₁.trans hreads₂, fun t => (hiff t).trans ⟨?_, fun h => ⟨_, hblock, h⟩⟩⟩
      rintro ⟨v, hv, hrest⟩
      rwa [hblock.unique hv]
    · rintro e s₂ ⟨hreads₂, hnone⟩
      refine ⟨hreads₁.trans hreads₂, fun t ht => ?_⟩
      obtain ⟨v, hv, -⟩ := (hiff t).mp ht
      exact hnone v hv
  · rintro - s' ⟨hreads, hiff⟩
    rw [Nat.sub_self] at hiff
    exact ⟨hreads, (hiff _).mpr rfl⟩

theorem BlocksOk.unique {checkCrc : Bool} {t v : Stream' Byte} : ∀ {n : ℕ} {u : Stream' Byte},
    BlocksOk checkCrc n u t → BlocksOk checkCrc n u v → t = v := by
  intro n
  induction n with
  | zero => exact fun h h' => h.symm.trans h'
  | succ n ih =>
    rintro u ⟨w, hw, h⟩ ⟨w', hw', h'⟩
    obtain rfl := hw.unique hw'
    exact ih h h'

/-! ### Commands -/

/-- A command, and then only bytes that are taken. -/
def Led (handle : Handle) (bs : List Byte) (ts : List Transfer) : Prop :=
  ∃ rest, ts = ⟨handle.csid, .tx bs, true⟩ :: rest ∧ ∀ t ∈ rest, t.Quiet

lemma Led.reads {bs : List Byte} {s s' s'' : St σ} (h : Between wires (Led handle bs) s s')
    (h' : Reads wires s' s'') : Between wires (Led handle bs) s s'' := by
  refine Between.trans h h' ?_
  rintro - us ⟨rest, rfl, hrest⟩ hus
  exact ⟨rest ++ us, List.cons_append .., List.forall_mem_append.mpr ⟨hrest, hus⟩⟩

lemma Led.held {bs : List Byte} {ts : List Transfer} (h : Led handle bs ts) :
    ∀ t ∈ ts, t.held = true := by
  obtain ⟨rest, rfl, hrest⟩ := h
  exact List.forall_mem_cons.mpr ⟨rfl, fun t ht => (hrest t ht).1⟩

/-- The six bytes of a command are sent. -/
lemma returns_send (hh : HostOk depth dif wires) {c : U64} {bs : List Byte}
    (hwire : (toLe 8 c.toNat).take 6 = bs) (s : St σ) :
    Returns (xferCsaat dif handle false (some (toLe 8 c.toNat)) 6) s fun _ s' =>
      (wires s'.dev).miso = (wires s.dev).miso.drop 6 ∧ Between wires (Led handle bs) s s' := by
  obtain ⟨hret, hnext⟩ := hh.csaat handle.csid (.tx bs) s.dev trivial
  have hlen : bs.length = 6 := by
    rw [← hwire, List.length_take, length_toLe]
    decide
  subst hwire
  refine returns_tx (by rw [hret]) fun _ => ⟨?_, [⟨handle.csid, .tx _, true⟩], ?_, [], rfl, ?_⟩
  · show (wires _).miso = _
    rw [hnext, ← hlen]
    rfl
  · show (wires _).sent = _
    rw [hnext]
    rfl
  · exact fun _ ht => absurd ht List.not_mem_nil

/-- The card is released. -/
theorem returns_free (hh : HostOk depth dif wires) (s : St σ) :
    Returns (csfree dif handle) s fun _ s' => Between wires (fun ts => ts = [freeing handle]) s s' := by
  obtain ⟨hret, hnext⟩ := hh.free handle.csidDummy (.dummy 8) s.dev trivial
  unfold csfree
  refine returns_bind.mpr (returns_checkDif (by rw [hret]) ⟨_, ?_, rfl⟩)
  show (wires _).sent = _
  rw [hnext]
  rfl

/-- CMD17 and CMD18 go through when they are answered in time. -/
theorem ends_command (hh : HostOk depth dif wires) {c : U64} {bs : List Byte}
    (hwire : (toLe 8 c.toNat).take 6 = bs) (hne : c &&& 0xFF ≠ 0x4C) (s : St σ) :
    Ends (cmd dif handle c .r1 true) s
      (fun _ s' => Between wires (Led handle bs) s s' ∧ ∃ x, Answers (fun x => x &&& 0x80 != 0) 8
        ((wires s.dev).miso.drop 6) x (wires s'.dev).miso)
      fun _ s' => Between wires (Led handle bs) s s' ∧ ∀ x t, ¬ Answers (fun x => x &&& 0x80 != 0) 8
        ((wires s.dev).miso.drop 6) x t := by
  unfold cmd
  refine (returns_send hh hwire s).ends.bind ?_
  rintro - s₁ ⟨hmiso, hled⟩
  rw [if_neg hne]
  refine ((ends_poll hh 0x12 (fun x => x &&& 0x80 != 0) 8 s₁).mono (fun _ _ h => h) ?_).bind ?_
  · rintro e s₂ ⟨-, hreads, hnone⟩
    rw [hmiso] at hnone
    exact ⟨Led.reads hled hreads, hnone⟩
  · rintro r s₂ ⟨-, hreads, hans⟩
    rw [hmiso] at hans
    exact ⟨Led.reads hled hreads, r, hans⟩

/-- CMD12, and then the card is released. -/
def Closes (handle : Handle) (ts : List Transfer) : Prop :=
  ∃ us, Led handle (frame 0x4C 0 0x61) us ∧ ts = us ++ [freeing handle]

/-- **CMD12** goes through when the card answers in time. -/
theorem ends_stop (hh : HostOk depth dif wires) (s : St σ) :
    Ends (cmdCheck dif handle undef 0x61000000004C .r1b false 0) s
      (fun _ s' => Between wires (Closes handle) s s' ∧ StopOk (wires s.dev).miso)
      fun _ s' => Between wires (Led handle (frame 0x4C 0 0x61)) s s' ∧
        ¬ StopOk (wires s.dev).miso := by
  have hwire : (toLe 8 (0x61000000004C : U64).toNat).take 6 = frame 0x4C 0 0x61 := by decide
  have hcmd : Ends (cmd dif handle 0x61000000004C .r1b false) s
      (fun _ s' => Between wires (Closes handle) s s' ∧ StopOk (wires s.dev).miso)
      fun _ s' => Between wires (Led handle (frame 0x4C 0 0x61)) s s' ∧
        ¬ StopOk (wires s.dev).miso := by
    unfold cmd
    refine (returns_send hh hwire s).ends.bind ?_
    rintro - s₁ ⟨hmiso₁, hled₁⟩
    rw [if_pos (by decide)]
    refine (returns_receiveByte hh s₁).ends.bind ?_
    rintro - s₂ ⟨-, -, hmiso₂, hreads₂⟩
    rw [hmiso₁, Stream'.drop_drop] at hmiso₂
    have hled₂ := Led.reads hled₁ hreads₂
    refine ((ends_poll hh 0x12 (fun x => x &&& 0x80 != 0) 8 s₂).mono (fun _ _ h => h) ?_).bind ?_
    · rintro e s₃ ⟨-, hreads₃, hnone⟩
      rw [hmiso₂] at hnone
      exact ⟨Led.reads hled₂ hreads₃, fun ⟨x, _, v, _, hresp, _⟩ => hnone x v hresp⟩
    rintro r s₃ ⟨-, hreads₃, hresp⟩
    rw [hmiso₂] at hresp
    have hled₃ := Led.reads hled₂ hreads₃
    refine ((ends_poll hh 0x13 (fun x => x == 0) 10000 s₃).mono (fun _ _ h => h) ?_).bind ?_
    · rintro e s₄ ⟨-, hreads₄, hnone⟩
      refine ⟨Led.reads hled₃ hreads₄, fun ⟨_, y, v, t, hresp', hbusy⟩ => hnone y t ?_⟩
      rwa [(hresp.unique hresp').2]
    rintro y s₄ ⟨-, hreads₄, hbusy⟩
    refine (returns_free hh s₄).ends.bind ?_
    rintro - s₅ hfree
    refine ⟨Between.trans (Led.reads hled₃ hreads₄) hfree ?_, r, y, _, _, hresp, hbusy⟩
    rintro us - hus rfl
    exact ⟨us, hus, rfl⟩
  unfold cmdCheck
  exact hcmd.bind fun _ _ h => h

/-! ### The whole call -/

lemma stopped_of_forall {ts : List Transfer} (h : ∀ t ∈ ts, ¬ t.Sends handle 0x52) :
    Stopped handle ts := by
  induction ts with
  | nil => trivial
  | cons t ts ih =>
    rw [List.forall_mem_cons] at h
    exact ⟨fun ht => absurd ht h.1, ih h.2⟩

lemma sends_frame_iff {op op' : Byte} {arg : U32} {crc : Byte} :
    Transfer.Sends handle op' ⟨handle.csid, .tx (frame op arg crc), true⟩ ↔ op' = op := by
  constructor
  · rintro ⟨arg', crc', h⟩
    injection h with _ h
    injection h with h
    exact (List.cons.inj h).1.symm
  · rintro rfl
    exact ⟨arg, crc, rfl⟩

lemma Transfer.Quiet.not_sends {t : Transfer} {op : Byte} (h : t.Quiet) : ¬ t.Sends handle op := by
  rintro ⟨arg, crc, rfl⟩
  exact h.2 _ rfl

lemma not_sends_freeing {op : Byte} : ¬ (freeing handle).Sends handle op := by
  rintro ⟨arg, crc, h⟩
  injection h with _ h
  cases h

/-- No stream of blocks is opened by another command. -/
lemma Led.not_sends {op : Byte} {arg : U32} {crc : Byte} {ts : List Transfer} (hop : op ≠ 0x52)
    (h : Led handle (frame op arg crc) ts) : ∀ t ∈ ts, ¬ t.Sends handle 0x52 := by
  obtain ⟨rest, rfl, hrest⟩ := h
  refine List.forall_mem_cons.mpr ⟨fun hs => hop (sends_frame_iff.mp hs).symm, fun t ht => ?_⟩
  exact (hrest t ht).not_sends

/-- A single block is read, and the card is released. -/
lemma tidy_single {arg : U32} {crc : Byte} {ts : List Transfer}
    (h : Led handle (frame 0x51 arg crc) ts) : Tidy handle (ts ++ [freeing handle]) := by
  refine ⟨List.getLast?_concat, stopped_of_forall (List.forall_mem_append.mpr ⟨?_, ?_⟩)⟩
  · exact h.not_sends (by decide)
  · exact List.forall_mem_singleton.mpr not_sends_freeing

/-- Several blocks are read, and the stream is stopped. -/
lemma tidy_multiple {arg : U32} {crc : Byte} {ts us : List Transfer}
    (h : Led handle (frame 0x52 arg crc) ts) (h' : Closes handle us) : Tidy handle (ts ++ us) := by
  obtain ⟨rest, rfl, hrest⟩ := h
  obtain ⟨us, hled, rfl⟩ := h'
  refine ⟨?_, fun _ => ?_, stopped_of_forall ?_⟩
  · rw [← List.append_assoc]
    exact List.getLast?_concat
  · obtain ⟨rest', rfl, -⟩ := hled
    exact ⟨_, List.mem_append_right _ (List.mem_cons_self ..), sends_frame_iff.mpr rfl⟩
  · refine List.forall_mem_append.mpr ⟨fun t ht => (hrest t ht).not_sends, ?_⟩
    refine List.forall_mem_append.mpr ⟨hled.not_sends (by decide), ?_⟩
    exact List.forall_mem_singleton.mpr not_sends_freeing

/-- Where every transaction has left the chip select asserted, the card has not been released. -/
lemma not_tidy {P : List Transfer → Prop} {s s' : St σ} (h : Between wires P s s')
    (hP : ∀ ts, P ts → ∀ t ∈ ts, t.held = true) : ¬ Between wires (Tidy handle) s s' := by
  obtain ⟨ts, hts, hPts⟩ := h
  rintro ⟨us, hus, htidy⟩
  rw [hts, List.append_cancel_left_eq] at hus
  subst hus
  exact absurd (hP ts hPts _ (List.mem_of_getLast? htidy.freed)) Bool.false_ne_true

/-- The call returns normally when the card serves it, and is tidy then; with an error it never
is. -/
theorem ends_readBlocks (hh : HostOk depth dif wires) {buf block len swap firstOffs lastLen : U64}
    {checkCrc : Bool} (hlen : 1 ≤ len.toNat) (hnull : checkCrc = true → ∀ b < len.toNat, ∀ i < 512,
      blockBuf buf len swap firstOffs lastLen (.ofNat 64 b) + .ofNat 64 i ≠ 0) (s : St σ) :
    Ends (readBlocks dif handle undef depth buf block len swap firstOffs lastLen checkCrc) s
      (fun _ s' => Served checkCrc len.toNat (wires s.dev).miso ∧ Between wires (Tidy handle) s s')
      fun _ s' => ¬ Served checkCrc len.toNat (wires s.dev).miso ∧
        ¬ Between wires (Tidy handle) s s' := by
  have hne : len ≠ 0 := by
    rintro rfl
    exact absurd hlen (by decide)
  have hone : len > 1 ↔ 1 < len.toNat := BitVec.lt_def
  obtain ⟨op, hop⟩ : ∃ op : Byte, op = if len > 1 then 0x52 else 0x51 := ⟨_, rfl⟩
  have hno12 : buildCmd op (block.setWidth 32) &&& 0xFF ≠ 0x4C := by
    rw [buildCmd_and, hop]
    split
    · decide
    · decide
  unfold readBlocks
  rw [if_neg hne, ← hop]
  refine ((ends_command hh (take_buildCmd _ _) hno12 s).mono (fun _ _ h => h) ?_).bind ?_
  · rintro e s₁ ⟨hled, hnone⟩
    exact ⟨fun ⟨x, v, t, hans, _⟩ => hnone x v hans, not_tidy hled fun ts => Led.held⟩
  rintro - s₁ ⟨hled₁, x, hans⟩
  refine ((ends_blocks hh hnull s₁).mono (fun _ _ h => h) ?_).bind ?_
  · rintro e s₂ ⟨hreads₂, hnone⟩
    refine ⟨fun ⟨x', v, t, hans', hblocks, _⟩ => hnone t ?_,
      not_tidy (Led.reads hled₁ hreads₂) fun ts => Led.held⟩
    rwa [(hans.unique hans').2]
  rintro - s₂ ⟨hreads₂, hblocks⟩
  have hled₂ := Led.reads hled₁ hreads₂
  by_cases h1 : len > 1
  · rw [if_pos h1] at hop ⊢
    subst hop
    refine (ends_stop hh s₂).mono ?_ ?_
    · rintro - s₃ ⟨hcloses, hstop⟩
      exact ⟨⟨x, _, _, hans, hblocks, fun _ => hstop⟩,
        Between.trans hled₂ hcloses fun _ _ => tidy_multiple⟩
    · rintro e s₃ ⟨hled₃, hstop⟩
      refine ⟨fun ⟨x', v, t, hans', hblocks', hstop'⟩ => hstop ?_, not_tidy
        (Between.trans hled₂ hled₃ fun _ _ h h' => List.forall_mem_append.mpr ⟨h.held, h'.held⟩)
        fun _ h => h⟩
      rw [← (hans.unique hans').2] at hblocks'
      rw [hblocks.unique hblocks']
      exact hstop' (hone.mp h1)
  · rw [if_neg h1] at hop ⊢
    subst hop
    refine ((returns_free hh s₂).mono ?_).ends
    rintro - s₃ hfree
    refine ⟨⟨x, _, _, hans, hblocks, fun h => absurd (hone.mpr h) h1⟩,
      Between.trans hled₂ hfree ?_⟩
    rintro ts - hts rfl
    exact tidy_single hts

/-- **A call of `__spi_sdcard_read_blocks` is tidy exactly when the card serves it**, whatever code
it returns. -/
theorem readBlocks_tidy_iff (hh : HostOk depth dif wires)
    {buf block len swap firstOffs lastLen : U64} {checkCrc : Bool} (hlen : 1 ≤ len.toNat)
    (hnull : checkCrc = true → ∀ b < len.toNat, ∀ i < 512,
      blockBuf buf len swap firstOffs lastLen (.ofNat 64 b) + .ofNat 64 i ≠ 0) (s : St σ) :
    Ends (readBlocks dif handle undef depth buf block len swap firstOffs lastLen checkCrc) s
      (fun _ s' => Between wires (Tidy handle) s s')
      (fun _ s' => Between wires (Tidy handle) s s') ↔
        Served checkCrc len.toNat (wires s.dev).miso :=
  ends_all_iff (ends_readBlocks hh hlen hnull s)

end Ends

/-! ### A host with given bytes on MISO -/

/-- A host whose calls all succeed. -/
def wiredDif : Dif Wires where
  transactionCsaat csid seg w := ((0, seg.received w.miso), w.next ⟨csid, seg, true⟩)
  transaction csid seg w := ((0, seg.received w.miso), w.next ⟨csid, seg, false⟩)

theorem hostOk_wiredDif (depth : ℕ+) : HostOk depth wiredDif id where
  csaat _ _ _ _ := ⟨rfl, rfl⟩
  free _ _ _ _ := ⟨rfl, rfl⟩

lemma take_const (x : Byte) (n : ℕ) : (Stream'.const x).take n = List.replicate n x := by
  induction n with
  | zero => rfl
  | succ n ih => rw [Stream'.take_succ, Stream'.tail_const, ih, List.replicate_succ]; rfl

/-- The checksum of zeros. -/
lemma remainder_zeros (n : ℕ) : (Crc.remainder 0x1021 (List.replicate n 0) : BitVec 16) = 0 := by
  have hbyte : Crc.byte 0x1021 (0 : BitVec 16) 0 = 0 := by decide
  induction n with
  | zero => rfl
  | succ n ih =>
    rw [List.replicate_succ, Crc.remainder, List.foldl_cons, hbyte]
    exact ih

/-- The card answers at once and sends a block of zeros. -/
lemma served_zeros :
    Served true 1 (List.replicate 6 0xFF ++ₛ ([0x00, 0xFE] ++ₛ Stream'.const 0)) := by
  have hnone : ∀ y ∈ ([] : List Byte), (y &&& 0x80 != 0) = true := fun _ h => absurd h List.not_mem_nil
  have hblock : BlockOk true ([0xFE] ++ₛ Stream'.const 0) (Stream'.const 0) := by
    refine ⟨Stream'.const 0, ⟨[], by decide, fun _ h => absurd h List.not_mem_nil, by decide, rfl⟩,
      (Stream'.drop_const 514 0).symm, fun _ => ?_⟩
    rw [Stream'.drop_const, take_const, take_const, remainder_zeros]
    decide
  exact ⟨0x00, [0xFE] ++ₛ Stream'.const 0, _, ⟨[], by decide, hnone, by decide, rfl⟩,
    ⟨_, hblock, rfl⟩, fun h => absurd h (by decide)⟩

/-- A block at 0x1000 does not reach the null pointer. -/
lemma place_zeros : ∀ b < 1, ∀ i < 512,
    blockBuf 0x1000 1 0x8000 0 512 (.ofNat 64 b) + .ofNat 64 i ≠ 0 := by
  intro b hb i hi
  obtain rfl : b = 0 := Nat.lt_one_iff.mp hb
  have hbuf : blockBuf 0x1000 1 0x8000 0 512 (.ofNat 64 0) = 0x1000 := by decide
  have hsmall : (0x1000 : U64).toNat = 0x1000 := rfl
  rw [hbuf]
  exact add_ofNat_ne_zero (by decide) (by omega)

/-- A block of zeros is read, and the card released. -/
theorem readBlocks_tidy_zeros :
    Ends (readBlocks wiredDif ⟨0, 1⟩ ⟨0, 0⟩ 16 0x1000 0 1 0x8000 0 512 true)
      ⟨fun _ => 0, ⟨List.replicate 6 0xFF ++ₛ ([0x00, 0xFE] ++ₛ Stream'.const 0), []⟩⟩
      (fun _ s' => Between id (Tidy ⟨0, 1⟩) ⟨fun _ => 0,
        ⟨List.replicate 6 0xFF ++ₛ ([0x00, 0xFE] ++ₛ Stream'.const 0), []⟩⟩ s')
      fun _ s' => Between id (Tidy ⟨0, 1⟩) ⟨fun _ => 0,
        ⟨List.replicate 6 0xFF ++ₛ ([0x00, 0xFE] ++ₛ Stream'.const 0), []⟩⟩ s' := by
  refine (readBlocks_tidy_iff (hostOk_wiredDif 16) (by decide) (fun _ => ?_) _).mpr served_zeros
  exact place_zeros

/-- Zeros are an answer to a command, and no token. -/
lemma not_served_zeros : ¬ Served false 2 (Stream'.const 0) := by
  rintro ⟨x, v, t, hans, ⟨w, ⟨u, htok, -⟩, -⟩, -⟩
  obtain ⟨-, hv⟩ := answers_succ.mp hans
  rw [Stream'.drop_const, if_neg (by decide)] at hv
  obtain ⟨-, rfl⟩ := hv
  obtain ⟨-, ht⟩ := answers_succ.mp htok
  rw [Stream'.tail_const, if_neg (by decide)] at ht
  exact absurd ht.1 (by decide)

/-- A card that answers to CMD18 and then sends zeros is neither released nor stopped. -/
theorem not_readBlocks_tidy_badToken :
    ¬ Ends (readBlocks wiredDif ⟨0, 1⟩ ⟨0, 0⟩ 16 0x1000 0 2 0x8000 0 512 false)
      ⟨fun _ => 0, ⟨Stream'.const 0, []⟩⟩
      (fun _ s' => Between id (Tidy ⟨0, 1⟩) ⟨fun _ => 0, ⟨Stream'.const 0, []⟩⟩ s')
      fun _ s' => Between id (Tidy ⟨0, 1⟩) ⟨fun _ => 0, ⟨Stream'.const 0, []⟩⟩ s' :=
  fun h => not_served_zeros ((ends_all_iff (ends_readBlocks (hostOk_wiredDif 16) (by decide)
    (fun h => absurd h Bool.false_ne_true) _)).mp h)

end Cheshire.Sw.SpiSdcard
