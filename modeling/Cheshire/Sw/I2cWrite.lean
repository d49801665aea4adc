import Cheshire.Sw.I2cRead

/-!
Writes of the EEPROM.  A chunk is meant to go out in two halves, but the second one takes its bytes
and its address from behind the chunk, so the last chunk of a write reaches past the buffer and past
the range in the EEPROM.
-/

namespace Cheshire.Sw.I2c

open Lib

/-- The host in the state a run ends with. -/
def devOf {σ α : Type} : EStateM.Result (Option CInt) (St σ) α → σ
  | .ok _ s => s.dev
  | .error _ s => s.dev

/-- The EEPROM has got the bytes of the buffer, and nothing else. -/
structure Written {σ : Type} (view : σ → Host) (buf addr len : U64) (s s' : St σ) : Prop where
  content : (view s'.dev).content =
    (view s.dev).content.write (addr.setWidth 16) (s.mem.slice buf len.toNat)
  upper : (view s'.dev).outcome.2.mem true = (view s.dev).outcome.2.mem true

/-- A write depends on no byte outside its buffer; when it succeeds the EEPROM has got the buffer,
and a read that succeeds gives it back. -/
def WriteOk (depth addr len : U64) : Prop :=
  ∀ (σ : Type) (dif : Dif σ) (view : σ → Host), Contract dif view →
    ∀ (fuel : ℕ) (buf : U64) (s : St σ),
      (∀ m : Mem 64, m.slice buf len.toNat = s.mem.slice buf len.toNat →
        devOf ((i2c24fc1025Write dif depth fuel buf addr len).run ⟨m, s.dev⟩) =
          devOf ((i2c24fc1025Write dif depth fuel buf addr len).run s)) ∧
      Leaves (i2c24fc1025Write dif depth fuel buf addr len) s fun _ s' =>
        Written view buf addr len s s' ∧ ∀ (fuel' : ℕ) (dst : U64),
          Leaves (i2c24fc1025Read dif depth fuel' dst addr len) s' fun _ s'' =>
            s''.mem.slice dst len.toNat = s.mem.slice buf len.toNat

/-! ### The program of a half -/

/-- What a half puts into the format FIFO. -/
def writeProgram (addr : U64) (bs : List Byte) : List (Byte × Fmt) :=
  [((ctrlWaddr addr).setWidth 8, .start), ((addr >>> 8 &&& 0xFF).setWidth 8, .tx),
    ((addr &&& 0xFF).setWidth 8, .tx)] ++ bs.map fun b => (b, .tx)

/-- The bytes that a half sends: those in front of the last one, as far as half the FIFO holds them,
and the last one. -/
def sentBytes (depth : U64) (m : Mem 64) (buf len : U64) : List Byte :=
  m.slice buf (cMin (len - 1) (depth / 2)).toNat ++ [m (buf + (len - 1))]

/-- Bytes sent one after another are stored one after another. -/
lemma foldl_exec_tx (rx : List Byte) : ∀ (bs : List Byte) (e : Eeprom), e.phase = .write →
    bs.length ≤ 2 ^ 16 → ((bs.map fun b => (b, Fmt.tx)).foldl exec (rx, e)).1 = rx ∧
      ((bs.map fun b => (b, Fmt.tx)).foldl exec (rx, e)).2.mem e.block =
        Mem.write (e.mem e.block) e.ptr bs := by
  intro bs
  induction bs with
  | nil =>
    intro e _ _
    exact ⟨rfl, rfl⟩
  | cons b bs ih =>
    intro e he hlen
    rw [List.length_cons] at hlen
    obtain ⟨e', he'⟩ : ∃ e' : Eeprom, e' = e.send b := ⟨_, rfl⟩
    have hphase : e'.phase = .write := by rw [he', Eeprom.send, he]
    have hblock : e'.block = e.block := by rw [he', Eeprom.send, he]
    have hptr : e'.ptr = e.ptr + 1 := by rw [he', Eeprom.send, he]
    have hmem : e'.mem e.block = Mem.write (e.mem e.block) e.ptr [b] := by
      rw [he', Eeprom.send, he, Mem.write_singleton]
      simp only [true_and]
    obtain ⟨hrx, hrest⟩ := ih e' hphase (by omega)
    have happ := Mem.write_append (e.mem e.block) e.ptr [b] bs (by
      rw [List.length_singleton]
      omega)
    rw [hblock, hptr, hmem] at hrest
    rw [List.map_cons, List.foldl_cons, exec, ← he']
    refine ⟨hrx, ?_⟩
    rw [hrest]
    exact happ.symm

/-- Carrying out the program of a half stores its bytes from its address on. -/
theorem outcome_writeProgram (addr : U64) {bs : List Byte} (hlen : bs.length ≤ 2 ^ 16) (b : Bool)
    (e : Eeprom) : (Host.mk b (writeProgram addr bs) [] e).outcome.1 = [] ∧
      (Host.mk b (writeProgram addr bs) [] e).content =
        Mem.write (e.mem false) (addr.setWidth 16) bs := by
  obtain ⟨hrx, hmem⟩ := foldl_exec_tx [] bs ⟨e.mem, false, addr.setWidth 16, .write⟩ rfl hlen
  have hprogram : (Host.mk b (writeProgram addr bs) [] e).outcome =
      (bs.map fun b => (b, Fmt.tx)).foldl exec
        ([], ⟨e.mem, false, addr.setWidth 16, .write⟩) := by
    rw [Host.outcome, writeProgram, List.foldl_append, setWidth_ctrlWaddr]
    simp only [List.foldl_cons, List.foldl_nil, exec, send_address]
  rw [Host.content, hprogram]
  exact ⟨hrx, hmem⟩

lemma writeProgram_append (addr : U64) (bs cs : List Byte) :
    writeProgram addr (bs ++ cs) = writeProgram addr bs ++ cs.map fun b => (b, Fmt.tx) := by
  rw [writeProgram, List.map_append, ← List.append_assoc]
  rfl

/-! ### The FIFO -/

lemma toNat_half (depth : U64) : (depth / 2).toNat = depth.toNat / 2 := BitVec.toNat_udiv

/-- An even depth that divides a page. -/
lemma depth_bounds {depth : U64} (hd : depth.toNat ∣ 128) (heven : 2 ∣ depth.toNat) :
    2 ≤ depth.toNat ∧ depth.toNat ≤ 128 := by
  have hpos : depth.toNat ≠ 0 := fun h => by
    rw [h, zero_dvd_iff] at hd
    cases hd
  exact ⟨by omega, Nat.le_of_dvd (by decide) hd⟩

lemma half_lt {depth : U64} (hd : 2 ≤ depth.toNat) : depth > depth / 2 := by
  rw [gt_iff_lt, BitVec.lt_def, toNat_half]
  omega

/-- What is left of a full chunk is another half. -/
lemma sub_half {depth : U64} (heven : 2 ∣ depth.toNat) : depth - depth / 2 = depth / 2 := by
  refine BitVec.eq_of_toNat_eq ?_
  rw [BitVec.toNat_sub_of_le (by rw [BitVec.le_def, toNat_half]; omega), toNat_half]
  omega

/-- A chunk that fills the FIFO. -/
lemma cMin_full {depth len offs : U64} (h : offs.toNat + depth.toNat ≤ len.toNat) :
    cMin depth (len - offs) = depth := by
  refine BitVec.eq_of_toNat_eq ?_
  rw [toNat_cMin, BitVec.toNat_sub_of_le (by rw [BitVec.le_def]; omega)]
  omega

/-- A half has at most 65 bytes: the FIFO divides a page. -/
lemma length_sentBytes {depth : U64} (hd : depth.toNat ≤ 128) (m : Mem 64) (buf len : U64) :
    (sentBytes depth m buf len).length ≤ 65 := by
  rw [sentBytes, List.length_append, Mem.length_slice, List.length_singleton, toNat_cMin, toNat_half]
  omega

/-- The first byte that a half sends is the first of its buffer. -/
lemma head_sentBytes {depth len : U64} (hd : 2 ≤ depth.toNat) (hlen : 1 ≤ len.toNat) (m : Mem 64)
    (buf : U64) : (sentBytes depth m buf len).head? = some (m buf) := by
  have hpred : (len - 1).toNat = len.toNat - 1 := by bv_omega
  rcases hn : (cMin (len - 1) (depth / 2)).toNat with _ | n
  · have h1 : len - 1 = 0 := by
      rw [toNat_cMin, toNat_half, hpred] at hn
      refine BitVec.eq_of_toNat_eq (hpred.trans ?_)
      show len.toNat - 1 = 0
      omega
    have hlast : buf + (len - 1) = buf := by
      rw [h1]
      exact BitVec.add_zero buf
    rw [sentBytes, hn, hlast]
    rfl
  · rw [sentBytes, hn, Mem.slice_succ]
    rfl

/-- From a FIFO boundary on all chunks are aligned. -/
lemma access_aligned {σ : Type} {dif : Dif σ} {depth buf addr len : U64} {fuel : ℕ} {write : Bool}
    (hd : depth.toNat ∣ 128) (haddr : depth.toNat ∣ addr.toNat) :
    access dif depth fuel buf addr len write = accessLoop dif depth buf addr len write fuel 0 := by
  rw [access, if_pos (umod_eq_zero hd)]
  show (if addr % depth ≠ 0 then _ else _) = _
  rw [if_neg (not_not.mpr (umod_eq_zero haddr))]

/-! ### The chunks -/

section Chunk

variable {σ : Type} {dif : Dif σ} {view : σ → Host}

/-- **One half**: its bytes are stored from its address on, and if more than half the FIFO was asked
for, another half follows. -/
theorem leaves_writeHalf (hc : Contract dif view) {depth buf addr len : U64} {fuel : ℕ} {s : St σ}
    {Q : Unit → St σ → Prop} (hd : depth.toNat ≤ 128)
    (hnext : ∀ s', s'.mem = s.mem → (view s'.dev).content =
      (view s.dev).content.write (addr.setWidth 16) (sentBytes depth s.mem buf len) →
        Leaves (if len > depth / 2 then
          accessChunk dif depth fuel (buf + len) (addr + len) (len - depth / 2) true
          else pure ()) s' Q) :
    Leaves (accessChunk dif depth (fuel + 1) buf addr len true) s Q := by
  rw [accessChunk]
  refine leaves_quiesce hc fun e s₁ hs₁ he => ?_
  refine (leaves_writeByte hc hs₁ _ _ _).bind fun _ s₂ hs₂ => ?_
  refine (leaves_writeByte hc hs₂ _ _ _).bind fun _ s₃ hs₃ => ?_
  refine (leaves_writeByte hc hs₃ _ _ _).bind fun _ s₄ hs₄ => ?_
  simp only [if_true] at hs₄ ⊢
  refine (Leaves.forM_range (I := fun k => Queued view s.mem e (writeProgram addr (s.mem.slice buf k)))
    hs₄ ?_).bind ?_
  · -- a byte more
    rintro k s₅ - hs₅
    refine leaves_bind.mpr (leaves_loadByte.mpr ?_)
    rw [hs₅.1, Mem.slice_append, Mem.slice_one, writeProgram_append]
    exact leaves_writeByte hc hs₅ _ _ _
  · rintro - s₅ hs₅
    refine leaves_bind.mpr (leaves_loadByte.mpr ?_)
    rw [hs₅.1]
    refine (leaves_writeByte hc hs₅ _ _ _).bind fun _ s₆ hs₆ => ?_
    have hprogram : writeProgram addr (sentBytes depth s.mem buf len) =
        writeProgram addr (s.mem.slice buf (cMin (len - 1) (depth / 2)).toNat) ++
          [(s.mem (buf + (len - 1)), Fmt.tx)] := writeProgram_append _ _ _
    rw [← hprogram] at hs₆
    refine (leaves_enable hc hs₆).bind ?_
    rintro - s₇ ⟨hmem₇, hview₇⟩
    refine hnext s₇ hmem₇ ?_
    have hlen := length_sentBytes hd s.mem buf len
    rw [hview₇, (outcome_writeProgram addr (by omega) true e).2, he]

/-- A chunk that fills the FIFO stores a byte from behind its buffer behind its range. -/
theorem leaves_writeChunk (hc : Contract dif view) {depth buf addr : U64} (hd : 2 ≤ depth.toNat)
    (hd' : depth.toNat ≤ 128) (heven : 2 ∣ depth.toNat) (fuel : ℕ) (s : St σ) :
    Leaves (accessChunk dif depth fuel buf addr depth true) s fun _ s' => s'.mem = s.mem ∧
      (view s'.dev).content ((addr + depth).setWidth 16) = s.mem (buf + depth) := by
  rcases fuel with _ | fuel
  · trivial
  refine leaves_writeHalf hc hd' fun s₁ hmem₁ _ => ?_
  rw [if_pos (half_lt hd), sub_half heven]
  rcases fuel with _ | fuel
  · trivial
  refine leaves_writeHalf hc hd' fun s₂ hmem₂ hcontent₂ => ?_
  rw [if_neg (show ¬ depth / 2 > depth / 2 from BitVec.lt_irrefl _)]
  refine ⟨hmem₂.trans hmem₁, ?_⟩
  rw [hcontent₂, hmem₁]
  exact Mem.write_head _ _ (head_sentBytes hd (by rw [toNat_half]; omega) _ _)

/-- **The chunks** of a write up to `len` have stored the byte behind the buffer. -/
theorem leaves_writeLoop (hc : Contract dif view) {depth buf addr len : U64} {m : Mem 64}
    (hd : 2 ≤ depth.toNat) (hd' : depth.toNat ≤ 128) (heven : 2 ∣ depth.toNat)
    (hlen : depth.toNat ∣ len.toNat) (hlen' : len.toNat ≤ 0x1_0000) :
    ∀ (fuel : ℕ) (offs : U64) (s : St σ), depth.toNat ∣ offs.toNat → offs.toNat ≤ len.toNat →
      s.mem = m →
      (offs ≠ 0 → (view s.dev).content ((addr + offs).setWidth 16) = m (buf + offs)) →
      Leaves (accessLoop dif depth buf addr len true fuel offs) s fun _ s' => s'.mem = m ∧
        (len ≠ 0 → (view s'.dev).content ((addr + len).setWidth 16) = m (buf + len)) := by
  intro fuel
  induction fuel with
  | zero =>
    intro offs s _ _ _ _
    trivial
  | succ fuel ih =>
    intro offs s hdvd hle hmem hoffs
    rw [accessLoop]
    by_cases hlt : offs < len
    · have hnat := BitVec.lt_def.mp hlt
      have hroom : depth.toNat ≤ len.toNat - offs.toNat :=
        Nat.le_of_dvd (by omega) (Nat.dvd_sub hlen hdvd)
      have hsum : (offs + depth).toNat = offs.toNat + depth.toNat := by
        rw [BitVec.toNat_add, Nat.mod_eq_of_lt (by omega)]
      rw [if_pos hlt, cMin_full (by omega)]
      refine (leaves_writeChunk hc hd hd' heven fuel s).bind ?_
      rintro - s₁ ⟨hmem₁, hcontent₁⟩
      refine ih (offs + depth) s₁ ?_ (by omega) (hmem₁.trans hmem) fun _ => ?_
      · rw [hsum]
        exact Nat.dvd_add hdvd (Nat.dvd_refl _)
      · rw [← BitVec.add_assoc, ← BitVec.add_assoc, hcontent₁, hmem]
    · obtain rfl : offs = len := by
        refine BitVec.eq_of_toNat_eq ?_
        rw [BitVec.lt_def] at hlt
        omega
      rw [if_neg hlt]
      exact ⟨hmem, hoffs⟩

/-- **A write that succeeds** has stored the byte behind its buffer behind its range. -/
theorem leaves_write (hc : Contract dif view) {depth buf addr len : U64} {fuel : ℕ}
    (hd : depth.toNat ∣ 128) (heven : 2 ∣ depth.toNat) (haddr : depth.toNat ∣ addr.toNat)
    (hlen : depth.toNat ∣ len.toNat) (hrange : addr.toNat + len.toNat ≤ 0x1_0000) (h0 : len ≠ 0)
    (s : St σ) : Leaves (i2c24fc1025Write dif depth fuel buf addr len) s fun _ s' =>
      (view s'.dev).content ((addr + len).setWidth 16) = s.mem (buf + len) := by
  obtain ⟨hd₂, hd'⟩ := depth_bounds hd heven
  rw [i2c24fc1025Write, access_aligned hd haddr]
  refine (leaves_writeLoop hc hd₂ hd' heven hlen (by omega) fuel 0 s (Nat.dvd_zero _)
    (Nat.zero_le _) rfl fun h => absurd rfl h).mono ?_
  rintro - s' ⟨-, hcontent⟩
  exact hcontent h0

end Chunk

/-! ### On the host that works at once -/

/-- When its levels are next asked for, the host has nothing to do and nothing received. -/
def Calm (h : Host) : Prop := h.atPoll.fmt = [] ∧ h.atPoll.rx = []

lemma calm_writeProgram {depth : U64} (hd : depth.toNat ≤ 128) (m : Mem 64) (buf addr len : U64)
    (e : Eeprom) : Calm ⟨true, writeProgram addr (sentBytes depth m buf len), [], e⟩ := by
  have hlen := length_sentBytes hd m buf len
  exact ⟨rfl, (outcome_writeProgram addr (by omega) true e).1⟩

/-- A half comes to its end. -/
theorem returns_writeHalf_instant {depth buf addr len : U64} {fuel : ℕ} {m : Mem 64} {h : Host}
    {Q : Unit → St Host → Prop} (hd : depth.toNat ≤ 128) (hcalm : Calm h)
    (hnext : ∀ h', Calm h' → Returns (if len > depth / 2 then
      accessChunk instant depth (fuel + 1) (buf + len) (addr + len) (len - depth / 2) true
      else pure ()) ⟨m, h'⟩ Q) :
    Returns (accessChunk instant depth (fuel + 2) buf addr len true) ⟨m, h⟩ Q := by
  obtain ⟨hfmt, hrx⟩ := hcalm
  obtain ⟨en, e, hrest⟩ : ∃ en e, h.atPoll = ⟨en, [], [], e⟩ := ⟨_, _, by rw [← hfmt, ← hrx]⟩
  rw [accessChunk]
  refine returns_quiesce hrest ?_
  refine (returns_writeByte _ _ _).bind ?_
  rintro - s₄ rfl
  refine (returns_writeByte _ _ _).bind ?_
  rintro - s₅ rfl
  refine (returns_writeByte _ _ _).bind ?_
  rintro - s₆ rfl
  simp only [if_true]
  refine (Returns.forM_range (I := fun k s => s = ⟨m, ⟨false, writeProgram addr (m.slice buf k), [], e⟩⟩)
    rfl ?_).bind ?_
  · rintro k s₇ - rfl
    refine returns_bind.mpr ?_
    rw [Mem.slice_append, Mem.slice_one, writeProgram_append]
    exact returns_writeByte _ _ _
  · rintro - s₇ rfl
    refine returns_bind.mpr ((returns_writeByte _ _ _).bind ?_)
    rintro - s₈ rfl
    have hprogram : writeProgram addr (sentBytes depth m buf len) =
        writeProgram addr (m.slice buf (cMin (len - 1) (depth / 2)).toNat) ++
          [(m (buf + (len - 1)), Fmt.tx)] := writeProgram_append _ _ _
    refine Returns.bind (P := fun _ s => s = ⟨m, ⟨true, writeProgram addr (sentBytes depth m buf len),
      [], e⟩⟩) (returns_checkDif rfl (by rw [hprogram]; rfl)) ?_
    rintro - s₉ rfl
    exact hnext _ (calm_writeProgram hd m buf addr len e)

/-- A chunk comes to its end. -/
theorem returns_writeChunk_instant {depth buf addr : U64} (hd : 2 ≤ depth.toNat)
    (hd' : depth.toNat ≤ 128) (heven : 2 ∣ depth.toNat) (fuel : ℕ) {m : Mem 64} {h : Host}
    (hcalm : Calm h) : Returns (accessChunk instant depth (fuel + 3) buf addr depth true) ⟨m, h⟩
      fun _ s' => Calm s'.dev := by
  refine returns_writeHalf_instant hd' hcalm fun h₁ hcalm₁ => ?_
  rw [if_pos (half_lt hd), sub_half heven]
  refine returns_writeHalf_instant hd' hcalm₁ fun h₂ hcalm₂ => ?_
  rw [if_neg (show ¬ depth / 2 > depth / 2 from BitVec.lt_irrefl _)]
  exact hcalm₂

/-- **A write of `k` chunks** comes to its end. -/
theorem returns_writeLoop_instant {depth buf addr len : U64} (hd : 2 ≤ depth.toNat)
    (hd' : depth.toNat ≤ 128) (heven : 2 ∣ depth.toNat) (hlen : len.toNat ≤ 0x1_0000) :
    ∀ (k : ℕ) (offs : U64) (s : St Host), offs.toNat + k * depth.toNat = len.toNat → Calm s.dev →
      Returns (accessLoop instant depth buf addr len true (k + 3) offs) s fun _ _ => True := by
  intro k
  induction k with
  | zero =>
    intro offs s hoffs _
    have hge : ¬ offs < len := by
      rw [BitVec.lt_def]
      omega
    rw [accessLoop, if_neg hge]
    trivial
  | succ k ih =>
    intro offs s hoffs hcalm
    rw [Nat.succ_mul] at hoffs
    have hsum : (offs + depth).toNat = offs.toNat + depth.toNat := by
      rw [BitVec.toNat_add, Nat.mod_eq_of_lt (by omega)]
    rw [accessLoop, if_pos (by rw [BitVec.lt_def]; omega), cMin_full (by omega)]
    refine (returns_writeChunk_instant hd hd' heven k hcalm).bind ?_
    rintro - s₁ hcalm₁
    exact ih (offs + depth) s₁ (by omega) hcalm₁

/-! ### The result -/

/-- Nothing is nothing to write. -/
lemma writeOk_zero {depth addr : U64} (hd : depth.toNat ∣ 128) (haddr : depth.toNat ∣ addr.toNat) :
    WriteOk depth addr 0 := by
  intro σ dif view hc fuel buf s
  rw [i2c24fc1025Write, access_aligned hd haddr]
  cases fuel with
  | zero => exact ⟨fun m _ => rfl, trivial⟩
  | succ fuel =>
    have hge : ¬ (0 : U64) < 0 := BitVec.lt_irrefl _
    rw [accessLoop, if_neg hge]
    exact ⟨fun m _ => rfl, ⟨rfl, rfl⟩, fun fuel' dst => leaves_iff.mpr fun _ _ _ => rfl⟩

/-- A write stores a byte from behind its buffer. -/
lemma not_writeOk {depth addr len : U64} (hd : depth.toNat ∣ 128) (heven : 2 ∣ depth.toNat)
    (haddr : depth.toNat ∣ addr.toNat) (hlen : depth.toNat ∣ len.toNat)
    (hrange : addr.toNat + len.toNat ≤ 0x1_0000) (h0 : len ≠ 0) : ¬ WriteOk depth addr len := by
  intro h
  obtain ⟨hd₂, hd'⟩ := depth_bounds hd heven
  obtain ⟨k, hk⟩ := hlen
  -- a buffer of zeros with ones behind it, and an EEPROM of zeros
  obtain ⟨m, hm⟩ : ∃ m : Mem 64, m = fun x => if Mem.Outside 0 len.toNat x then 1 else 0 := ⟨_, rfl⟩
  obtain ⟨s, hs⟩ : ∃ s : St Host, s = ⟨m, ⟨true, [], [], ⟨fun _ _ => 0, false, 0, .idle⟩⟩⟩ := ⟨_, rfl⟩
  have hin : m.slice 0 len.toNat = List.replicate len.toNat 0 := by
    refine List.ext_getElem (by simp) fun i h₁ h₂ => ?_
    rw [Mem.length_slice] at h₁
    have hi : ¬ Mem.Outside 0 len.toNat (0 + BitVec.ofNat 64 i) := by
      rw [Mem.Outside, Mem.toNat_add_sub_self 0 (by have := len.isLt; omega)]
      omega
    rw [Mem.getElem_slice, List.getElem_replicate, hm]
    exact if_neg hi
  have hout : m (0 + len) = 1 := by
    rw [hm]
    have hself : (0 : U64) + len - 0 = len := by simp
    refine if_pos ?_
    rw [Mem.Outside, hself]
  have hrun : Returns (i2c24fc1025Write instant depth (k + 3) 0 addr len) s fun _ _ => True := by
    rw [i2c24fc1025Write, access_aligned hd haddr]
    refine returns_writeLoop_instant hd₂ hd' heven (by omega) k 0 s ?_ ?_
    · rw [hk, Nat.mul_comm]
      exact Nat.zero_add _
    · rw [hs]
      exact ⟨rfl, rfl⟩
  obtain ⟨_, s', hrun, -⟩ := returns_iff.mp hrun
  have hbehind := leaves_iff.mp (leaves_write contract_instant hd heven haddr ⟨k, hk⟩ hrange h0 s)
    _ _ hrun
  have hwritten := (leaves_iff.mp (h Host instant id contract_instant (k + 3) 0 s).2 _ _ hrun).1
  have hzero : s'.dev.content ((addr + len).setWidth 16) = 0 := by
    refine (congrFun hwritten.content _).trans ?_
    rw [hs, hin]
    exact congrFun (Mem.write_const 0 (addr.setWidth 16) len.toNat) _
  have hone : s'.dev.content ((addr + len).setWidth 16) = 1 := by
    refine Eq.trans hbehind ?_
    rw [hs]
    exact hout
  rw [hzero] at hone
  cases hone

/-- **A write is right only when there is nothing to write.** -/
theorem writeOk_iff {depth addr len : U64} (hd : depth.toNat ∣ 128) (heven : 2 ∣ depth.toNat)
    (haddr : depth.toNat ∣ addr.toNat) (hlen : depth.toNat ∣ len.toNat)
    (hrange : addr.toNat + len.toNat ≤ 0x1_0000) : WriteOk depth addr len ↔ len = 0 := by
  constructor
  · intro h
    by_contra h0
    exact not_writeOk hd heven haddr hlen hrange h0 h
  · rintro rfl
    exact writeOk_zero hd haddr

/-- Nothing is written to the second page. -/
theorem writeOk_nothing : WriteOk 64 0x80 0 :=
  (writeOk_iff (by decide) (by decide) (by decide) (by decide) (by decide)).mpr rfl

/-- A chunk of 64 bytes is not written without damage. -/
theorem not_writeOk_chunk : ¬ WriteOk 64 0x40 64 :=
  not_writeOk (by decide) (by decide) (by decide) (by decide) (by decide) (by decide)

end Cheshire.Sw.I2c
