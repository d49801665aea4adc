import Cheshire.Sw.I2c24fc1025
import Mathlib.Tactic.IntervalCases

/-!
Reads of the EEPROM.  A read of `len` bytes fetches whole chunks from its first FIFO boundary on,
and before it all the bytes up to that boundary, however few were asked for.
-/

namespace Cheshire.Sw.I2c

open Lib

/-- What the driver relies on: between and within its calls the host makes any number of steps,
and each call that succeeds has its effect. -/
structure Contract {σ : Type} (dif : Dif σ) (view : σ → Host) : Prop where
  levels : ∀ s, (dif.getFifoLevels s).1.1 = 0 → Run (view s) (view (dif.getFifoLevels s).2) ∧
    (dif.getFifoLevels s).1.2.fmt.toNat = (view (dif.getFifoLevels s).2).fmt.length ∧
    (dif.getFifoLevels s).1.2.rx.toNat = (view (dif.getFifoLevels s).2).rx.length
  enable : ∀ b s, (dif.hostSetEnabled b s).1 = 0 → ∃ h, Run (view s) h ∧
    view (dif.hostSetEnabled b s).2 = { h with enabled := b }
  write : ∀ b f q s, (dif.writeByte b f q s).1 = 0 → ∃ h, Run (view s) h ∧
    view (dif.writeByte b f q s).2 = { h with fmt := h.fmt ++ [(b, f)] }
  read : ∀ s, (dif.readByte s).1.1 = 0 → ∃ h, Run (view s) h ∧ ∀ b t, h.rx = b :: t →
    (dif.readByte s).1.2 = b ∧ view (dif.readByte s).2 = { h with rx := t }
  spin : ∀ n s, Run (view s) (view (dif.spinTicks n s))

/-- The first block of the EEPROM, once what is queued has been carried out. -/
def Host.content (h : Host) : Mem 16 := h.outcome.2.mem false

/-- A read that succeeds leaves the bytes of the EEPROM in the buffer, and writes nothing else. -/
def ReadOk (depth addr len : U64) : Prop :=
  ∀ (σ : Type) (dif : Dif σ) (view : σ → Host), Contract dif view →
    ∀ (fuel : ℕ) (buf : U64) (s : St σ),
      Leaves (i2c24fc1025Read dif depth fuel buf addr len) s fun _ s' =>
        (∀ i < len.toNat, s'.mem (buf + .ofNat 64 i) =
          (view s.dev).content (.ofNat 16 (addr.toNat + i))) ∧
        ∀ x, Mem.Outside buf len.toNat x → s'.mem x = s.mem x

/-- A number is a multiple of another one. -/
lemma umod_eq_zero {a b : U64} (h : b.toNat ∣ a.toNat) : a % b = 0 := by
  refine BitVec.eq_of_toNat_eq ?_
  rw [BitVec.toNat_umod]
  exact Nat.mod_eq_zero_of_dvd h

/-! ### The program of a chunk -/

/-- What a chunk puts into the format FIFO. -/
def readProgram (addr len : U64) : List (Byte × Fmt) :=
  [((ctrlWaddr addr).setWidth 8, .start), ((addr >>> 8 &&& 0xFF).setWidth 8, .tx),
    ((addr &&& 0xFF).setWidth 8, .txStop), ((ctrlWaddr addr ||| 0x1).setWidth 8, .start),
    (len.setWidth 8, .rx)]

/-- The block select never reaches the control byte. -/
theorem setWidth_ctrlWaddr (addr : U64) : (ctrlWaddr addr).setWidth 8 = (0xA0 : Byte) := by
  refine BitVec.eq_of_getLsbD_eq fun i hi => ?_
  unfold ctrlWaddr
  interval_cases i <;> simp

lemma setWidth_ctrlRdata (addr : U64) : (ctrlWaddr addr ||| 0x1).setWidth 8 = (0xA1 : Byte) := by
  rw [BitVec.setWidth_or, setWidth_ctrlWaddr]
  decide

lemma addr_bytes (addr : U64) : (addr >>> 8 &&& 0xFF).setWidth 8 ++ (addr &&& 0xFF).setWidth 8 =
    (addr.setWidth 16 : BitVec 16) := by
  refine BitVec.eq_of_getLsbD_eq fun i hi => ?_
  simp only [BitVec.getLsbD_append, BitVec.getLsbD_setWidth, BitVec.getLsbD_and,
    BitVec.getLsbD_ushiftRight]
  interval_cases i <;> simp

/-- The control byte and the two address bytes set the pointer into the first block. -/
lemma send_address (addr : U64) (e : Eeprom) :
    ((e.start 0xA0).send ((addr >>> 8 &&& 0xFF).setWidth 8)).send ((addr &&& 0xFF).setWidth 8) =
      ⟨e.mem, false, addr.setWidth 16, .write⟩ := by
  have hhigh (x : Byte) (y : BitVec 8) : ((x ++ y : BitVec 16) >>> 8).setWidth 8 = x := by
    refine BitVec.eq_of_getLsbD_eq fun i hi => ?_
    simp only [BitVec.getLsbD_setWidth, BitVec.getLsbD_ushiftRight, BitVec.getLsbD_append, hi]
    simp
  have hw : (0xA0 : Byte) &&& 0xF6 = 0xA0 ∧ (0xA0 : Byte).getLsbD 3 = false ∧
      (0xA0 : Byte).getLsbD 0 = false := by decide
  rw [Eeprom.start, if_pos hw.1, hw.2.1, hw.2.2]
  simp only [Eeprom.send, Bool.false_eq_true, if_false, hhigh, addr_bytes]

/-- Carrying out the program of a chunk delivers the bytes from its address on. -/
theorem outcome_readProgram {addr len : U64} (hlen : 1 ≤ len.toNat) (hlen' : len.toNat < 256)
    (b : Bool) (e : Eeprom) :
    (Host.mk b (readProgram addr len) [] e).outcome.1 =
      Mem.slice (e.mem false) (addr.setWidth 16) len.toNat ∧
    (Host.mk b (readProgram addr len) [] e).content = e.mem false := by
  have hcount : rxCount (len.setWidth 8) = len.toNat := by
    have hne : len.setWidth 8 ≠ (0 : Byte) := fun h => by
      have := congrArg BitVec.toNat h
      simp only [BitVec.toNat_setWidth] at this
      have h0 : (0 : Byte).toNat = 0 := rfl
      omega
    rw [rxCount, if_neg hne, BitVec.toNat_setWidth]
    omega
  have hsend : ((((e.start 0xA0).send ((addr >>> 8 &&& 0xFF).setWidth 8)).send
      ((addr &&& 0xFF).setWidth 8)).stop).start 0xA1 =
        ⟨e.mem, false, addr.setWidth 16, .read⟩ := by
    have hr : (0xA1 : Byte) &&& 0xF6 = 0xA0 ∧ (0xA1 : Byte).getLsbD 3 = false ∧
        (0xA1 : Byte).getLsbD 0 = true := by decide
    rw [send_address, Eeprom.start, if_pos hr.1, hr.2.1, hr.2.2]
    rfl
  have hfetch := Eeprom.fetches_eq len.toNat ⟨e.mem, false, addr.setWidth 16, .read⟩ rfl
  simp only [Host.content, Host.outcome, readProgram, List.foldl_cons, List.foldl_nil, exec,
    setWidth_ctrlWaddr, setWidth_ctrlRdata, hsend, hcount, hfetch, List.nil_append, and_self]

/-! ### One chunk -/

section Chunk

variable {σ : Type} {dif : Dif σ} {view : σ → Host}

lemma leaves_checkDif {α : Type} {call : σ → (CInt × α) × σ} {s : St σ} {Q : α → St σ → Prop}
    (h : (call s.dev).1.1 = 0 → Q (call s.dev).1.2 ⟨s.mem, (call s.dev).2⟩) :
    Leaves (checkDif call) s Q := by
  rw [leaves_iff]
  intro a s' hrun
  by_cases hret : (call s.dev).1.1 = 0
  · have hok : (checkDif call).run s = .ok (call s.dev).1.2 ⟨s.mem, (call s.dev).2⟩ := by
      show checkDif call s = _
      rw [checkDif, if_neg (not_not.mpr hret)]
    rw [hok] at hrun
    cases hrun
    exact h hret
  · have herr : (checkDif call).run s = .error (some (call s.dev).1.1) ⟨s.mem, (call s.dev).2⟩ := by
      show checkDif call s = _
      rw [checkDif, if_pos hret]
    rw [herr] at hrun
    cases hrun

lemma leaves_loadByte {p : U64} {s : St σ} {Q : Byte → St σ → Prop} :
    Leaves (loadByte p) s Q ↔ Q (s.mem p) s := Iff.rfl

/-- A poll lets the host run on, and ends when its levels are no longer busy. -/
theorem leaves_pollLevels (hc : Contract dif view) (busy : Levels → Bool) :
    ∀ (fuel : ℕ) (s : St σ), Leaves (pollLevels dif busy fuel) s fun _ s' =>
      s'.mem = s.mem ∧ Run (view s.dev) (view s'.dev) ∧ ∃ l : Levels, busy l = false ∧
        l.fmt.toNat = (view s'.dev).fmt.length ∧ l.rx.toNat = (view s'.dev).rx.length := by
  intro fuel
  induction fuel with
  | zero =>
    intro s
    trivial
  | succ fuel ih =>
    intro s
    refine Leaves.bind (P := fun l s' => s'.mem = s.mem ∧ Run (view s.dev) (view s'.dev) ∧
      l.fmt.toNat = (view s'.dev).fmt.length ∧ l.rx.toNat = (view s'.dev).rx.length)
      (leaves_checkDif fun h => ?_) ?_
    · obtain ⟨hrun, hfmt, hrx⟩ := hc.levels s.dev h
      exact ⟨rfl, hrun, hfmt, hrx⟩
    · rintro l s₁ ⟨hmem, hrun, hfmt, hrx⟩
      rcases hb : busy l with _ | _
      · simp only [Bool.false_eq_true, if_false, leaves_pure]
        exact ⟨hmem, hrun, l, hb, hfmt, hrx⟩
      · simp only [if_true]
        refine (ih s₁).mono ?_
        rintro - s₂ ⟨hmem₂, hrun₂, hl⟩
        exact ⟨hmem₂.trans hmem, hrun.trans hrun₂, hl⟩

/-- The host is disabled, with `f` queued and nothing received. -/
def Queued (view : σ → Host) (m : Mem 64) (e : Eeprom) (f : List (Byte × Fmt)) (s : St σ) : Prop :=
  s.mem = m ∧ view s.dev = ⟨false, f, [], e⟩

/-- A disabled host takes an entry and does nothing else. -/
lemma leaves_writeByte (hc : Contract dif view) {m : Mem 64} {e : Eeprom}
    {f : List (Byte × Fmt)} {s : St σ} (hs : Queued view m e f s) (b : Byte) (k : Fmt) (q : Bool) :
    Leaves (checkDif' (dif.writeByte b k q)) s fun _ => Queued view m e (f ++ [(b, k)]) := by
  obtain ⟨hmem, hview⟩ := hs
  refine leaves_checkDif fun h => ?_
  obtain ⟨h₁, hrun, hv⟩ := hc.write b k q s.dev h
  have hrest := hrun.eq_of_rest (Or.inl (by rw [hview]))
  rw [hrest, hview] at hv
  exact ⟨hmem, hv⟩

/-- A disabled host that is enabled has done nothing yet. -/
lemma leaves_enable (hc : Contract dif view) {m : Mem 64} {e : Eeprom} {f : List (Byte × Fmt)}
    {s : St σ} (hs : Queued view m e f s) : Leaves (checkDif' (dif.hostSetEnabled true)) s fun _ s' =>
      s'.mem = m ∧ view s'.dev = ⟨true, f, [], e⟩ := by
  obtain ⟨hmem, hview⟩ := hs
  refine leaves_checkDif fun h => ?_
  obtain ⟨h₁, hrun, hv⟩ := hc.enable true s.dev h
  have hrest := hrun.eq_of_rest (Or.inl (by rw [hview]))
  rw [hrest, hview] at hv
  exact ⟨hmem, hv⟩

/-- The start of a chunk: what was queued has been carried out, and the host is disabled. -/
lemma leaves_quiesce (hc : Contract dif view) {fuel : ℕ} {s : St σ} {k : PollM (St σ) Unit}
    {Q : Unit → St σ → Prop} (hk : ∀ e s', Queued view s.mem e [] s' →
      e.mem false = (view s.dev).content → Leaves k s' Q) :
    Leaves (do
      pollLevels dif (fun l => l.fmt != 0 || l.rx != 0 || l.tx != 0 || l.acq != 0) fuel
      spinTicks dif 1
      checkDif' (dif.hostSetEnabled false)
      k) s Q := by
  refine (leaves_pollLevels hc _ fuel s).bind ?_
  rintro - s₁ ⟨hmem, hrun, l, hbusy, hfmt, hrx⟩
  simp only [Bool.or_eq_false_iff, bne_eq_false_iff_eq] at hbusy
  obtain ⟨⟨⟨hf, hr⟩, -⟩, -⟩ := hbusy
  rw [hf] at hfmt
  rw [hr] at hrx
  have hfmt₁ : (view s₁.dev).fmt = [] := List.eq_nil_of_length_eq_zero hfmt.symm
  have hrx₁ : (view s₁.dev).rx = [] := List.eq_nil_of_length_eq_zero hrx.symm
  have hout : (view s₁.dev).content = (view s.dev).content := by
    rw [Host.content, hrun.outcome_eq, Host.content]
  have hcontent : (view s₁.dev).content = (view s₁.dev).dev.mem false := by
    rw [Host.content, Host.outcome, hfmt₁]
    rfl
  refine Leaves.bind (P := fun _ s' => s'.mem = s.mem ∧ view s'.dev = view s₁.dev) ?_ ?_
  · exact ⟨hmem, (hc.spin 1 s₁.dev).eq_of_rest (Or.inr hfmt₁)⟩
  · rintro - s₂ ⟨hmem₂, hview₂⟩
    refine Leaves.bind (P := fun _ => Queued view s.mem (view s₁.dev).dev [])
      (leaves_checkDif fun h => ?_) fun _ s₃ hs₃ => hk _ s₃ hs₃ (hcontent.symm.trans hout)
    obtain ⟨h₁, hrun₁, hv⟩ := hc.enable false s₂.dev h
    have hrest := hrun₁.eq_of_rest (Or.inr (by rw [hview₂, hfmt₁]))
    rw [hrest, hview₂, hfmt₁, hrx₁] at hv
    exact ⟨hmem₂, hv⟩

/-- The bytes that are still to come, once the host works on the program of a chunk. -/
structure Coming (view : σ → Host) (bs : List Byte) (c : Mem 16) (s : St σ) : Prop where
  bytes : (view s.dev).outcome.1 = bs
  content : (view s.dev).content = c

/-- Fetching the received bytes one by one. -/
lemma leaves_readBytes (hc : Contract dif view) {bs : List Byte} {c : Mem 16} {s : St σ}
    (hs : Coming view bs c s) (hlen : bs.length ≤ (view s.dev).rx.length)
    (hlen' : bs.length < 2 ^ 64) (buf : U64) :
    Leaves ((List.range bs.length).forM fun b => do
      let x ← checkDif dif.readByte
      storeByte (buf + .ofNat 64 b) x) s
    fun _ s' => s'.mem = s.mem.write buf bs ∧ (view s'.dev).content = c := by
  have h₀ : s.mem = s.mem.write buf (bs.take 0) ∧ Coming view (bs.drop 0) c s ∧
      bs.length ≤ (view s.dev).rx.length + 0 := ⟨rfl, hs, hlen⟩
  refine Leaves.mono (Leaves.forM_range (I := fun k s' => s'.mem = s.mem.write buf (bs.take k) ∧
    Coming view (bs.drop k) c s' ∧ bs.length ≤ (view s'.dev).rx.length + k) h₀ ?_) ?_
  rotate_left
  · rintro - s' ⟨hmem, hcoming, -⟩
    rw [List.take_length] at hmem
    exact ⟨hmem, hcoming.content⟩
  · rintro k s₁ hk ⟨hmem, ⟨hbytes, hcont⟩, hrx⟩
    refine Leaves.bind (P := fun x s' => s'.mem = s₁.mem ∧ bs[k]? = some x ∧
      Coming view (bs.drop (k + 1)) c s' ∧ bs.length ≤ (view s'.dev).rx.length + (k + 1))
      (leaves_checkDif fun h => ?_) ?_
    · obtain ⟨h₁, hrun, hread⟩ := hc.read s₁.dev h
      have hpre := hrun.rx_prefix.length_le
      have hout : h₁.outcome.1 = bs.drop k := by rw [hrun.outcome_eq, hbytes]
      have hcont₁ : h₁.content = c := by rw [Host.content, hrun.outcome_eq, ← hcont, Host.content]
      rcases hrx₁ : h₁.rx with _ | ⟨b, t⟩
      · rw [hrx₁] at hpre
        simp only [List.length_nil] at hpre
        omega
      · obtain ⟨hb, hv⟩ := hread b t hrx₁
        rw [Host.outcome_eq, hrx₁, List.cons_append, List.drop_eq_getElem_cons hk] at hout
        obtain ⟨hbk, htail⟩ := List.cons.inj hout
        refine ⟨rfl, ?_, ⟨?_, ?_⟩, ?_⟩
        · rw [hb, hbk, List.getElem?_eq_getElem hk]
        · show (view (dif.readByte s₁.dev).2).outcome.1 = _
          rw [hv, Host.outcome_eq, ← htail]
        · show (view (dif.readByte s₁.dev).2).content = c
          rw [hv, ← hcont₁, Host.content, Host.outcome_eq, Host.content, Host.outcome_eq]
        · show bs.length ≤ (view (dif.readByte s₁.dev).2).rx.length + (k + 1)
          rw [hrx₁, List.length_cons] at hpre
          rw [hv]
          show bs.length ≤ t.length + (k + 1)
          omega
    · rintro x s₂ ⟨hmem₂, hx, hcoming, hrx₂⟩
      refine ⟨?_, ⟨hcoming.bytes, hcoming.content⟩, hrx₂⟩
      show s₂.mem.write (buf + .ofNat 64 k) [x] = _
      have hlt : (bs.take k).length = k := List.length_take_of_le (Nat.le_of_lt hk)
      have happ := Mem.write_append s.mem buf (bs.take k) [x] (by
        rw [hlt, List.length_singleton]
        omega)
      rw [List.take_add_one, hx, Option.toList_some, happ, hlt, hmem₂, hmem]

/-- **A chunk reads what it is asked for**, from the first block. -/
theorem leaves_readChunk (hc : Contract dif view) {depth buf addr len : U64} {fuel : ℕ}
    (hlen : 1 ≤ len.toNat) (hlen' : len.toNat < 256) (s : St σ) :
    Leaves (accessChunk dif depth fuel buf addr len false) s fun _ s' =>
      s'.mem = s.mem.write buf (Mem.slice (view s.dev).content (addr.setWidth 16) len.toNat) ∧
      (view s'.dev).content = (view s.dev).content := by
  rcases fuel with _ | fuel
  · trivial
  rw [accessChunk]
  refine leaves_quiesce hc fun e s₁ hs₁ he => ?_
  refine (leaves_writeByte hc hs₁ _ _ _).bind fun _ s₂ hs₂ => ?_
  refine (leaves_writeByte hc hs₂ _ _ _).bind fun _ s₃ hs₃ => ?_
  refine (leaves_writeByte hc hs₃ _ _ _).bind fun _ s₄ hs₄ => ?_
  simp only [Bool.false_eq_true, if_false] at hs₄ ⊢
  refine (leaves_writeByte hc hs₄ _ _ _).bind fun _ s₅ hs₅ => ?_
  refine (leaves_writeByte hc hs₅ _ _ _).bind fun _ s₆ hs₆ => ?_
  obtain ⟨hbytes, hcont⟩ := @outcome_readProgram addr len hlen hlen' true e
  refine (leaves_enable (f := readProgram addr len) hc hs₆).bind ?_
  rintro - s₇ ⟨hmem₇, hview₇⟩
  refine (leaves_pollLevels hc _ fuel s₇).bind ?_
  rintro - s₈ ⟨hmem₈, hrun, l, hbusy, -, hrx⟩
  rw [hview₇] at hrun
  have hcoming : Coming view (Mem.slice (e.mem false) (addr.setWidth 16) len.toNat)
      (e.mem false) s₈ :=
    ⟨by rw [hrun.outcome_eq, hbytes], by rw [Host.content, hrun.outcome_eq]; exact hcont⟩
  have hall : len.toNat ≤ (view s₈.dev).rx.length := by
    have hge := of_decide_eq_false hbusy
    rw [BitVec.lt_def, BitVec.toNat_setWidth] at hge
    have := l.rx.isLt
    omega
  have hread := leaves_readBytes hc hcoming (by simpa using hall)
    (by simpa using len.isLt) buf
  rw [Mem.length_slice] at hread
  rw [← he]
  refine hread.mono ?_
  rintro - s' ⟨hmem, hcont'⟩
  refine ⟨?_, hcont'⟩
  rw [hmem, hmem₈, hmem₇]

/-! ### The whole access -/

/-- The aligned chunks: from `offs` on, `w` bytes being there, up to `len`. -/
theorem leaves_accessLoop (hc : Contract dif view) {depth buf addr len : U64} {m : Mem 64}
    {c : Mem 16} (hd : 1 ≤ depth.toNat) (hd' : depth.toNat ≤ 128) (hlen : len.toNat ≤ 0x1_0000) :
    ∀ (fuel : ℕ) (offs : U64) (w : ℕ) (s : St σ), (offs < len → w = offs.toNat) →
      s.mem = m.write buf (Mem.slice c (addr.setWidth 16) w) → (view s.dev).content = c →
      Leaves (accessLoop dif depth buf addr len false fuel offs) s fun _ s' =>
        s'.mem = m.write buf (Mem.slice c (addr.setWidth 16)
          (if offs < len then len.toNat else w)) := by
  intro fuel
  induction fuel with
  | zero =>
    intro offs w s _ _ _
    trivial
  | succ fuel ih =>
    intro offs w s hw hmem hcont
    rw [accessLoop]
    by_cases hlt : offs < len
    · obtain rfl := hw hlt
      have hnat := BitVec.lt_def.mp hlt
      have hchunk : (cMin depth (len - offs)).toNat = min depth.toNat (len.toNat - offs.toNat) := by
        rw [toNat_cMin, BitVec.toNat_sub_of_le (Nat.le_of_lt hnat)]
      rw [if_pos hlt, if_pos hlt]
      refine (leaves_readChunk hc (by omega) (by omega) s).bind ?_
      rintro - s' ⟨hmem', hcont'⟩
      have haddr : (addr + offs).setWidth 16 = addr.setWidth 16 + BitVec.ofNat 16 offs.toNat := by
        refine BitVec.eq_of_toNat_eq ?_
        simp only [BitVec.toNat_setWidth, BitVec.toNat_add, BitVec.toNat_ofNat]
        omega
      have hbuf : buf + offs = buf + BitVec.ofNat 64 offs.toNat := by
        rw [BitVec.ofNat_toNat, BitVec.setWidth_eq]
      have hwrite : s'.mem = m.write buf (Mem.slice c (addr.setWidth 16)
          (offs.toNat + (cMin depth (len - offs)).toNat)) := by
        have happ := Mem.write_append m buf (Mem.slice c (addr.setWidth 16) offs.toNat)
          (Mem.slice c (addr.setWidth 16 + BitVec.ofNat 16 offs.toNat)
            (cMin depth (len - offs)).toNat)
        rw [Mem.length_slice, Mem.length_slice] at happ
        rw [Mem.slice_append, happ (by omega), hmem', hcont, haddr, hmem, hbuf]
      have hoffs : (offs + depth).toNat = offs.toNat + depth.toNat := by
        rw [BitVec.toNat_add, Nat.mod_eq_of_lt (by omega)]
      refine (ih (offs + depth) _ s' (fun h => ?_) hwrite (hcont'.trans hcont)).mono ?_
      · rw [BitVec.lt_def] at h
        omega
      · rintro - s'' hmem''
        rw [hmem'']
        split
        · rfl
        · rename_i hge
          rw [BitVec.lt_def] at hge
          congr 2
          omega
    · rw [if_neg hlt, if_neg hlt]
      exact hmem

/-- The bytes a read fetches: those up to the next FIFO boundary in any case. -/
def fetched (depth addr len : U64) : ℕ :=
  if addr % depth = 0 then len.toNat else max len.toNat (depth.toNat - (addr % depth).toNat)

/-- **A read that succeeds** has written the bytes it fetched, and nothing else. -/
theorem leaves_read (hc : Contract dif view) {depth buf addr len : U64} {fuel : ℕ}
    (hd : 1 ≤ depth.toNat) (hd' : depth.toNat ∣ 128) (hlen : len.toNat ≤ 0x1_0000) (s : St σ) :
    Leaves (i2c24fc1025Read dif depth fuel buf addr len) s fun _ s' =>
      s'.mem = s.mem.write buf
        (Mem.slice (view s.dev).content (addr.setWidth 16) (fetched depth addr len)) := by
  have hd'' : depth.toNat ≤ 128 := Nat.le_of_dvd (by decide) hd'
  have hassert : (128 : U64) % depth = 0 := umod_eq_zero hd'
  have hmod : (addr % depth).toNat < depth.toNat := by
    rw [BitVec.toNat_umod]
    exact Nat.mod_lt _ hd
  rw [i2c24fc1025Read, access, if_pos hassert]
  show Leaves (if addr % depth ≠ 0 then _ else _) s _
  by_cases hoffs : addr % depth = 0
  · rw [if_neg (not_not.mpr hoffs), fetched, if_pos hoffs]
    refine (leaves_accessLoop hc hd hd'' hlen fuel 0 0 s (fun _ => rfl) rfl rfl).mono ?_
    rintro - s' hmem
    rw [hmem]
    split
    · rfl
    · rename_i hge
      have hzero : len.toNat = 0 := by
        rw [BitVec.lt_def] at hge
        exact Nat.eq_zero_of_not_pos hge
      rw [hzero]
  · have hsub : (depth - addr % depth).toNat = depth.toNat - (addr % depth).toNat :=
      BitVec.toNat_sub_of_le (Nat.le_of_lt hmod)
    rw [if_pos hoffs, fetched, if_neg hoffs]
    refine (leaves_readChunk hc (by omega) (by omega) s).bind ?_
    rintro - s₁ ⟨hmem₁, hcont₁⟩
    refine (leaves_accessLoop hc hd hd'' hlen fuel _ _ s₁ (fun _ => rfl) hmem₁ hcont₁).mono ?_
    rintro - s' hmem
    rw [hmem, hsub]
    split
    · rename_i hlt
      rw [BitVec.lt_def, hsub] at hlt
      rw [Nat.max_eq_left (Nat.le_of_lt hlt)]
    · rename_i hge
      rw [BitVec.lt_def, hsub] at hge
      rw [Nat.max_eq_right (Nat.le_of_not_lt hge)]

end Chunk

/-! ### A host that works at once -/

/-- The host when the format FIFO has been worked off. -/
def Host.settle (h : Host) : Host := ⟨h.enabled, [], h.outcome.1, h.outcome.2⟩

lemma run_rx (f : List (Byte × Fmt)) (k : ℕ) : ∀ (n : Byte) (rx : List Byte) (e : Eeprom),
    rxCount n = k → Run ⟨true, (n, .rx) :: f, rx, e⟩
      ⟨true, f, rx ++ (e.fetches k).1, (e.fetches k).2⟩ := by
  induction k with
  | zero =>
    intro n rx e hn
    unfold rxCount at hn
    split at hn
    · cases hn
    · rename_i h0
      exact absurd (BitVec.eq_of_toNat_eq hn) h0
  | succ k ih =>
    intro n rx e hn
    by_cases h1 : n = 1
    · subst h1
      obtain rfl : k = 0 := by
        rw [rxCount_one] at hn
        omega
      exact Relation.ReflTransGen.single Step.rx
    · rw [rxCount_pred h1] at hn
      have hstep : Step ⟨true, (n, .rx) :: f, rx, e⟩
          ⟨true, if n = 1 then f else (n - 1, .rx) :: f, rx ++ [e.fetch.1], e.fetch.2⟩ := Step.rx
      rw [if_neg h1] at hstep
      have hrest := ih (n - 1) (rx ++ [e.fetch.1]) e.fetch.2 (by omega)
      rw [List.append_assoc] at hrest
      exact Relation.ReflTransGen.head hstep hrest

/-- An enabled host gets there. -/
theorem run_settle (f : List (Byte × Fmt)) : ∀ (rx : List Byte) (e : Eeprom),
    Run ⟨true, f, rx, e⟩ (Host.settle ⟨true, f, rx, e⟩) := by
  induction f with
  | nil =>
    intro rx e
    exact Relation.ReflTransGen.refl
  | cons x f ih =>
    rintro rx e
    obtain ⟨b, k⟩ := x
    cases k with
    | start => exact Relation.ReflTransGen.head Step.start (ih _ _)
    | tx => exact Relation.ReflTransGen.head Step.tx (ih _ _)
    | txStop => exact Relation.ReflTransGen.head Step.txStop (ih _ _)
    | rx => exact (run_rx f _ b rx e rfl).trans (ih _ _)

/-- The host when its levels are asked for: an enabled one has worked off its FIFO by then. -/
def Host.atPoll (h : Host) : Host := if h.enabled then h.settle else h

/-- A host that works at once, and whose calls all succeed. -/
def instant : Dif Host where
  getFifoLevels h :=
    ((if h.atPoll.fmt.length < 256 ∧ h.atPoll.rx.length < 256 then 0 else 1,
      ⟨.ofNat 8 h.atPoll.fmt.length, .ofNat 8 h.atPoll.rx.length, 0, 0⟩), h.atPoll)
  hostSetEnabled b h := (0, { h with enabled := b })
  writeByte b f _ h := (0, { h with fmt := h.fmt ++ [(b, f)] })
  readByte h := ((0, h.rx.headD 0), { h with rx := h.rx.tail })
  spinTicks _ h := h

theorem contract_instant : Contract instant id where
  levels h hret := by
    have hlt : h.atPoll.fmt.length < 256 ∧ h.atPoll.rx.length < 256 := by
      by_contra hn
      simp [instant, hn] at hret
    refine ⟨?_, ?_, ?_⟩
    · show Run h h.atPoll
      obtain ⟨en, f, rx, e⟩ := h
      cases en
      · exact Relation.ReflTransGen.refl
      · exact run_settle f rx e
    · show (BitVec.ofNat 8 h.atPoll.fmt.length).toNat = h.atPoll.fmt.length
      rw [BitVec.toNat_ofNat, Nat.mod_eq_of_lt hlt.1]
    · show (BitVec.ofNat 8 h.atPoll.rx.length).toNat = h.atPoll.rx.length
      rw [BitVec.toNat_ofNat, Nat.mod_eq_of_lt hlt.2]
  enable b h _ := ⟨h, Relation.ReflTransGen.refl, rfl⟩
  write b f q h _ := ⟨h, Relation.ReflTransGen.refl, rfl⟩
  read h _ := ⟨h, Relation.ReflTransGen.refl, fun b t hrx => by
    show h.rx.headD 0 = b ∧ ({ h with rx := h.rx.tail } : Host) = { h with rx := t }
    rw [hrx]
    exact ⟨rfl, rfl⟩⟩
  spin n h := Relation.ReflTransGen.refl

section Instant

variable {m : Mem 64}

lemma returns_checkDif {σ α : Type} {call : σ → (CInt × α) × σ} {s : St σ} {Q : α → St σ → Prop}
    (h0 : (call s.dev).1.1 = 0) (hQ : Q (call s.dev).1.2 ⟨s.mem, (call s.dev).2⟩) :
    Returns (checkDif call) s Q := by
  have hok : (checkDif call).run s = .ok (call s.dev).1.2 ⟨s.mem, (call s.dev).2⟩ := by
    show checkDif call s = _
    rw [checkDif, if_neg (not_not.mpr h0)]
  exact returns_iff.mpr ⟨_, _, hok, hQ⟩

lemma returns_pollLevels {busy : Levels → Bool} {h : Host} (hf : h.atPoll.fmt.length < 256)
    (hr : h.atPoll.rx.length < 256) (hb : busy ⟨.ofNat 8 h.atPoll.fmt.length,
      .ofNat 8 h.atPoll.rx.length, 0, 0⟩ = false) (fuel : ℕ) :
    Returns (pollLevels instant busy (fuel + 1)) ⟨m, h⟩ fun _ s' => s' = ⟨m, h.atPoll⟩ := by
  refine Returns.bind (P := fun l s' => busy l = false ∧ s' = ⟨m, h.atPoll⟩)
    (returns_checkDif (if_pos ⟨hf, hr⟩) ⟨hb, rfl⟩) ?_
  rintro l s' ⟨hl, rfl⟩
  simp [hl]

lemma returns_writeByte {f : List (Byte × Fmt)} {e : Eeprom} (b : Byte) (k : Fmt) (q : Bool) :
    Returns (checkDif' (instant.writeByte b k q)) ⟨m, ⟨false, f, [], e⟩⟩
      fun _ s' => s' = ⟨m, ⟨false, f ++ [(b, k)], [], e⟩⟩ :=
  returns_checkDif rfl rfl

/-- The start of a chunk on this host. -/
lemma returns_quiesce {h : Host} {en : Bool} {e : Eeprom} {fuel : ℕ} {k : PollM (St Host) Unit}
    {Q : Unit → St Host → Prop} (hrest : h.atPoll = ⟨en, [], [], e⟩)
    (hk : Returns k ⟨m, ⟨false, [], [], e⟩⟩ Q) :
    Returns (do
      pollLevels instant (fun l => l.fmt != 0 || l.rx != 0 || l.tx != 0 || l.acq != 0) (fuel + 1)
      spinTicks instant 1
      checkDif' (instant.hostSetEnabled false)
      k) ⟨m, h⟩ Q := by
  refine (returns_pollLevels (by rw [hrest]; exact Nat.zero_lt_succ _)
    (by rw [hrest]; exact Nat.zero_lt_succ _) (by rw [hrest]; rfl) fuel).bind ?_
  rintro - s₁ rfl
  rw [hrest]
  refine Returns.bind (P := fun _ s => s = ⟨m, ⟨en, [], [], e⟩⟩) (returns_iff.mpr
    ⟨(), _, rfl, rfl⟩) ?_
  rintro - s₂ rfl
  refine Returns.bind (P := fun _ s => s = ⟨m, ⟨false, [], [], e⟩⟩) (returns_checkDif rfl rfl) ?_
  rintro - s₃ rfl
  exact hk

/-- On this host a chunk is read. -/
theorem returns_readChunk_instant {depth buf addr len : U64} (hlen : 1 ≤ len.toNat)
    (hlen' : len.toNat < 256) (fuel : ℕ) (en : Bool) (e : Eeprom) :
    Returns (accessChunk instant depth (fuel + 2) buf addr len false) ⟨m, ⟨en, [], [], e⟩⟩
      fun _ _ => True := by
  have hrest : (Host.mk en [] [] e).atPoll = ⟨en, [], [], e⟩ := by
    cases en <;> rfl
  have hfull : (Host.mk true (readProgram addr len) [] e).atPoll.rx.length = len.toNat := by
    show (Host.mk true (readProgram addr len) [] e).outcome.1.length = len.toNat
    rw [(outcome_readProgram hlen hlen' true e).1, Mem.length_slice]
  rw [accessChunk]
  refine returns_quiesce hrest ?_
  refine (returns_writeByte _ _ _).bind ?_
  rintro - s₄ rfl
  refine (returns_writeByte _ _ _).bind ?_
  rintro - s₅ rfl
  refine (returns_writeByte _ _ _).bind ?_
  rintro - s₆ rfl
  simp only [Bool.false_eq_true, if_false]
  refine (returns_writeByte _ _ _).bind ?_
  rintro - s₇ rfl
  refine (returns_writeByte _ _ _).bind ?_
  rintro - s₈ rfl
  refine Returns.bind (P := fun _ s => s = ⟨m, ⟨true, readProgram addr len, [], e⟩⟩)
    (returns_checkDif rfl rfl) ?_
  rintro - s₉ rfl
  refine (returns_pollLevels (by simp [Host.atPoll, Host.settle]) (by rw [hfull]; exact hlen')
    ?_ fuel).bind ?_
  · rw [hfull, decide_eq_false_iff_not, BitVec.lt_def, BitVec.toNat_setWidth, BitVec.toNat_ofNat]
    omega
  · rintro - s₁₀ -
    refine Returns.forM_range (I := fun _ _ => True) trivial fun k s _ _ => ?_
    exact Returns.bind (P := fun _ _ => True) (returns_checkDif rfl trivial) fun _ _ _ => trivial

end Instant

/-! ### The result -/

/-- A read that ends before the first FIFO boundary succeeds on this host, and has fetched the
bytes up to the boundary. -/
lemma exists_overrun {depth addr len : U64} (hd : 1 ≤ depth.toNat) (hd' : depth.toNat ∣ 128)
    (hoffs : addr % depth ≠ 0) (hlt : len.toNat < depth.toNat - (addr % depth).toNat) (buf : U64)
    (s : St Host) (hs : s.dev.fmt = [] ∧ s.dev.rx = []) :
    Returns (i2c24fc1025Read instant depth 2 buf addr len) s fun _ _ => True := by
  have hassert : (128 : U64) % depth = 0 := umod_eq_zero hd'
  have hmod : (addr % depth).toNat < depth.toNat := by
    rw [BitVec.toNat_umod]
    exact Nat.mod_lt _ hd
  have hd'' : depth.toNat ≤ 128 := Nat.le_of_dvd (by decide) hd'
  have hsub : (depth - addr % depth).toNat = depth.toNat - (addr % depth).toNat :=
    BitVec.toNat_sub_of_le (Nat.le_of_lt hmod)
  obtain ⟨m, ⟨en, f, rx, e⟩⟩ := s
  obtain ⟨rfl, rfl⟩ : f = [] ∧ rx = [] := hs
  rw [i2c24fc1025Read, access, if_pos hassert]
  show Returns (if addr % depth ≠ 0 then _ else _) _ _
  rw [if_pos hoffs]
  refine (returns_readChunk_instant (by omega) (by omega) 0 en e).bind fun _ s' _ => ?_
  rw [accessLoop, if_neg (by rw [BitVec.lt_def, hsub]; omega)]
  trivial

/-- A read that leaves what lies outside its buffer alone starts on a FIFO boundary, or reaches the
next one. -/
theorem ReadOk.boundary {depth addr len : U64} (hd : 1 ≤ depth.toNat) (hd' : depth.toNat ∣ 128)
    (hlen : addr.toNat + len.toNat ≤ 0x1_0000) (h : ReadOk depth addr len) :
    addr % depth = 0 ∨ depth.toNat - (addr % depth).toNat ≤ len.toNat := by
  by_contra hn
  rw [not_or, not_le] at hn
  obtain ⟨hoffs, hlt⟩ := hn
  -- a memory of zeros, and an EEPROM of ones
  have hrun := exists_overrun hd hd' hoffs hlt 0
    ⟨fun _ => 0, ⟨true, [], [], ⟨fun _ _ => 1, false, 0, .idle⟩⟩⟩ ⟨rfl, rfl⟩
  obtain ⟨_, s', hrun, -⟩ := returns_iff.mp hrun
  have hkeep := (leaves_iff.mp (h Host instant id contract_instant 2 0 _) _ _ hrun).2
  have hmem := leaves_iff.mp (leaves_read contract_instant hd hd' (by omega) _) _ _ hrun
  have hfetched : len.toNat < fetched depth addr len := by
    rw [fetched, if_neg hoffs]
    omega
  have hbig : fetched depth addr len < 2 ^ 64 := by
    have := depth.isLt
    have := len.isLt
    rw [fetched, if_neg hoffs]
    omega
  have hone : s'.mem (0 + BitVec.ofNat 64 len.toNat) = 1 := by
    rw [hmem, Mem.write_apply _ _ (by simpa using hfetched) len.isLt, Mem.getElem_slice]
    rfl
  have hzero : s'.mem (0 + BitVec.ofNat 64 len.toNat) = 0 := by
    refine hkeep _ ?_
    rw [Mem.Outside, Mem.toNat_add_sub_self 0 len.isLt]
  rw [hone] at hzero
  cases hzero

/-- **A read is right exactly when** it starts on a FIFO boundary or reaches the next one. -/
theorem readOk_iff {depth addr len : U64} (hd : 1 ≤ depth.toNat) (hd' : depth.toNat ∣ 128)
    (hlen : addr.toNat + len.toNat ≤ 0x1_0000) :
    ReadOk depth addr len ↔
      addr % depth = 0 ∨ depth.toNat - (addr % depth).toNat ≤ len.toNat := by
  constructor
  · exact ReadOk.boundary hd hd' hlen
  · intro h σ dif view hc fuel buf s
    have hfetched : fetched depth addr len = len.toNat := by
      unfold fetched
      split
      · rfl
      · rename_i hoffs
        exact Nat.max_eq_left (h.resolve_left hoffs)
    refine (leaves_read hc hd hd' (by omega) s).mono fun _ s' hmem => ?_
    rw [hfetched] at hmem
    obtain ⟨hin, hout⟩ := (Mem.eq_write_iff (by rw [Mem.length_slice]; omega)).mp hmem
    simp only [Mem.length_slice] at hin hout
    refine ⟨fun i hi => ?_, hout⟩
    rw [hin i hi, Mem.getElem_slice]
    congr 1
    refine BitVec.eq_of_toNat_eq ?_
    simp only [BitVec.toNat_add, BitVec.toNat_setWidth, BitVec.toNat_ofNat]
    omega

/-- Sixteen bytes from the middle of a page of 64 are not read without damage. -/
theorem not_readOk_short : ¬ ReadOk 64 0x48 16 := fun h =>
  absurd (h.boundary (by decide) (by decide) (by decide)) (by decide)

/-- A page of 64 bytes is read. -/
theorem readOk_page : ReadOk 64 0x40 64 :=
  (readOk_iff (by decide) (by decide) (by decide)).mpr (Or.inl (by decide))

end Cheshire.Sw.I2c
