import Cheshire.Sw.SpiS25fs512s

/-!
Reads of the S25FS512S.  A read is cut into chunks that the FIFO of the host can hold; they cover
the range one behind the other, and a chunk that fails ends the read with its code.
-/

namespace Cheshire.Sw.SpiS25fs512s

open Lib

/-! ### The loop -/

section Loop

variable {σ : Type} {dif : Dif σ} {handle : Handle} {depth : ℕ+} {buf addr len : U64}

/-- **The rule of the loop over the chunks**, with the invariant `I` on the bytes that are read. -/
theorem ends_readLoop {I : ℕ → St σ → Prop} {E : Option CInt → St σ → Prop}
    (hdepth : 4 * (depth : ℕ) < 2 ^ 63) (hlen : len.toNat ≤ 2 ^ 32)
    (hstep : ∀ offs k s, 1 ≤ k → k ≤ 4 * (depth : ℕ) → offs + k ≤ len.toNat → I offs s →
      Ends (singleReadChunk dif handle (buf + .ofNat 64 offs) (addr + .ofNat 64 offs) (.ofNat 64 k)) s
        (fun _ s' => I (offs + k) s') E) :
    ∀ (fuel : ℕ) (offs : U64) (s : St σ), I (min offs.toNat len.toNat) s →
      Ends (readLoop dif handle depth buf addr len fuel offs) s (fun _ s' => I len.toNat s')
        fun e s' => (e = none ∧ fuel ≤ len.toNat - offs.toNat) ∨ E e s' := by
  have hpos := depth.pos
  intro fuel
  induction fuel with
  | zero =>
    intro offs s _
    exact .inl ⟨rfl, Nat.zero_le _⟩
  | succ fuel ih =>
    intro offs s hI
    rw [readLoop]
    by_cases hlt : offs < len
    · have hnat := BitVec.lt_def.mp hlt
      obtain ⟨k, hk⟩ : ∃ k, k = min (4 * (depth : ℕ)) (len.toNat - offs.toNat) := ⟨_, rfl⟩
      have hchunk : cMin (.ofNat 64 (4 * depth)) (len - offs) = BitVec.ofNat 64 k := by
        refine BitVec.eq_of_toNat_eq ?_
        rw [toNat_cMin, BitVec.toNat_sub_of_le (Nat.le_of_lt hnat), BitVec.toNat_ofNat,
          BitVec.toNat_ofNat, Nat.mod_eq_of_lt (by omega), Nat.mod_eq_of_lt (by omega), hk]
      have hoffs : (offs + .ofNat 64 (4 * depth)).toNat = offs.toNat + 4 * depth := by
        rw [BitVec.toNat_add, BitVec.toNat_ofNat]
        omega
      have hself : offs = BitVec.ofNat 64 offs.toNat := by
        rw [BitVec.ofNat_toNat, BitVec.setWidth_eq]
      have hmin : min offs.toNat len.toNat = offs.toNat := Nat.min_eq_left (Nat.le_of_lt hnat)
      rw [hmin] at hI
      rw [if_pos hlt, hchunk]
      have hread := hstep offs.toNat k s (by omega) (by omega) (by omega) hI
      rw [← hself] at hread
      refine (hread.mono (fun _ _ h => h) fun _ _ h => .inr h).bind ?_
      intro _ s₁ hI₁
      have hsum : min (offs + .ofNat 64 (4 * depth)).toNat len.toNat = offs.toNat + k := by
        rw [hoffs]
        omega
      refine (ih _ s₁ (by rwa [hsum])).mono (fun _ _ h => h) ?_
      rintro e s₂ (⟨he, hfuel⟩ | he)
      · refine .inl ⟨he, ?_⟩
        rw [hoffs] at hfuel
        omega
      · exact .inr he
    · have hge : min offs.toNat len.toNat = len.toNat := by
        rw [BitVec.lt_def] at hlt
        omega
      rw [if_neg hlt]
      rwa [hge] at hI

/-- One more chunk in the buffer. -/
lemma write_chunk (m : Mem 64) (c : Mem 32) {offs k : ℕ} {bs : List Byte} (hbs : bs.length ≤ k)
    (hle : offs + k ≤ 2 ^ 64) : (m.write buf (c.slice (addr.setWidth 32) offs)).write
      (buf + .ofNat 64 offs) bs = m.write buf (c.slice (addr.setWidth 32) offs ++ bs) := by
  have happ := Mem.write_append m buf (c.slice (addr.setWidth 32) offs) bs (by
    rw [Mem.length_slice]
    omega)
  rw [happ, Mem.length_slice]

/-- The address of a chunk. -/
lemma setWidth_add_ofNat (addr : U64) (offs : ℕ) :
    (addr + .ofNat 64 offs).setWidth 32 = addr.setWidth 32 + BitVec.ofNat 32 offs := by
  refine BitVec.eq_of_toNat_eq ?_
  simp only [BitVec.toNat_setWidth, BitVec.toNat_add, BitVec.toNat_ofNat]
  omega

end Loop

/-! ### The transactions -/

/-- The segments that read `n` bytes from the address `a` on. -/
def readSegs (a n : ℕ) : List Segment := [.opcode 0x13, .address (.ofNat 32 a), .rx n]

/-- A host with a flash behind it, which records its transactions and their codes.  A read gives
the bytes of the flash, or it fails when it has received at most as many as asked for. -/
structure Reader {σ : Type} (depth : ℕ+) (dif : Dif σ) (handle : Handle) (content : Mem 32)
    (sent : σ → List (List Segment × CInt)) : Prop where
  sent : ∀ segs s, sent (dif.transaction handle.csid segs s).2 =
    sent s ++ [(segs, (dif.transaction handle.csid segs s).1.1)]
  data : ∀ a n s, n ≤ 4 * (depth : ℕ) →
    (dif.transaction handle.csid (readSegs a n) s).1.1 = 0 →
      (dif.transaction handle.csid (readSegs a n) s).1.2 = content.slice (.ofNat 32 a) n
  part : ∀ a n s, (dif.transaction handle.csid (readSegs a n) s).1.2.length ≤ n

/-- The transactions read `k` bytes from the address `a` on, one chunk behind the other. -/
def Chain (depth : ℕ+) : (a k : ℕ) → List (List Segment × CInt) → Prop
  | _, k, [] => k = 0
  | a, k, t :: ts => ∃ n, 1 ≤ n ∧ n ≤ 4 * (depth : ℕ) ∧ n ≤ k ∧ t = (readSegs a n, 0) ∧
      Chain depth (a + n) (k - n) ts

/-- A chunk more. -/
lemma Chain.concat {depth : ℕ+} {n : ℕ} (h1 : 1 ≤ n) (hn : n ≤ 4 * (depth : ℕ)) :
    ∀ {ts : List (List Segment × CInt)} {a k : ℕ}, Chain depth a k ts →
      Chain depth a (k + n) (ts ++ [(readSegs (a + k) n, 0)]) := by
  intro ts
  induction ts with
  | nil =>
    rintro a k rfl
    exact ⟨n, h1, hn, by omega, rfl, Nat.sub_eq_zero_of_le (by omega)⟩
  | cons t ts ih =>
    rintro a k ⟨i, hi, hidepth, hik, rfl, hrest⟩
    refine ⟨i, hi, hidepth, by omega, rfl, ?_⟩
    have hmore := ih hrest
    have haddr : a + i + (k - i) = a + k := by omega
    have hleft : k - i + n = k + n - i := by omega
    rwa [haddr, hleft] at hmore

section Reads

variable {σ : Type} {dif : Dif σ} {handle : Handle} {depth : ℕ+} {content : Mem 32}
  {sent : σ → List (List Segment × CInt)}

/-- The first `k` bytes have been read: the transactions cover them, and they are in the buffer. -/
structure Covered (sent : σ → List (List Segment × CInt)) (depth : ℕ+) (content : Mem 32)
    (buf addr : U64) (s : St σ) (k : ℕ) (s' : St σ) : Prop where
  sent : ∃ ts, sent s'.dev = sent s.dev ++ ts ∧ Chain depth addr.toNat k ts
  mem : s'.mem = s.mem.write buf (content.slice (addr.setWidth 32) k)

/-- A read that has failed: its code is the one of the last transaction.  The chunks before it are
in the buffer, and at most the range of this one has been written behind them. -/
structure Failed (dif : Dif σ) (handle : Handle) (sent : σ → List (List Segment × CInt))
    (depth : ℕ+) (content : Mem 32) (buf addr len : U64) (s : St σ) (ret : CInt) (s' : St σ) :
    Prop where
  nonzero : ret ≠ 0
  part : ∃ ts k n bs, sent s'.dev = sent s.dev ++ (ts ++ [(readSegs (addr.toNat + k) n, ret)]) ∧
    (∃ t, (dif.transaction handle.csid (readSegs (addr.toNat + k) n) t).1.1 = ret) ∧
    Chain depth addr.toNat k ts ∧ 1 ≤ n ∧ n ≤ 4 * (depth : ℕ) ∧ k + n ≤ len.toNat ∧
    bs.length ≤ n ∧ s'.mem = s.mem.write buf (content.slice (addr.setWidth 32) k ++ bs)

/-- What a transaction receives is in memory, whether it fails or not. -/
lemma ends_checkRx {p : U64} {segs : List Segment} {s : St σ} {Q : Unit → St σ → Prop}
    {E : Option CInt → St σ → Prop}
    (hok : (dif.transaction handle.csid segs s.dev).1.1 = 0 →
      Q () ⟨s.mem.write p (dif.transaction handle.csid segs s.dev).1.2,
        (dif.transaction handle.csid segs s.dev).2⟩)
    (hfail : (dif.transaction handle.csid segs s.dev).1.1 ≠ 0 →
      E (some (dif.transaction handle.csid segs s.dev).1.1)
        ⟨s.mem.write p (dif.transaction handle.csid segs s.dev).1.2,
          (dif.transaction handle.csid segs s.dev).2⟩) :
    Ends (checkRx dif handle p segs) s Q E := by
  unfold Ends EStateM.run checkRx
  by_cases h0 : (dif.transaction handle.csid segs s.dev).1.1 = 0
  · rw [if_neg (not_not.mpr h0)]
    exact hok h0
  · rw [if_pos h0]
    exact hfail h0

/-- A chunk of a read. -/
lemma ends_singleReadChunk (hr : Reader depth dif handle content sent) {buf addr len : U64}
    (hrange : addr.toNat + len.toNat ≤ 2 ^ 32) {s s₁ : St σ} {offs k : ℕ} (h1 : 1 ≤ k)
    (hk : k ≤ 4 * (depth : ℕ)) (hle : offs + k ≤ len.toNat)
    (h : Covered sent depth content buf addr s offs s₁) :
    Ends (singleReadChunk dif handle (buf + .ofNat 64 offs) (addr + .ofNat 64 offs) (.ofNat 64 k)) s₁
      (fun _ s' => Covered sent depth content buf addr s (offs + k) s')
      fun e s' => ∃ ret, e = some ret ∧ Failed dif handle sent depth content buf addr len s ret s' := by
  obtain ⟨⟨ts, hsent, hchain⟩, hmem⟩ := h
  have haddr : (addr + .ofNat 64 offs).setWidth 32 = BitVec.ofNat 32 (addr.toNat + offs) := by
    refine BitVec.eq_of_toNat_eq ?_
    simp only [BitVec.toNat_setWidth, BitVec.toNat_add, BitVec.toNat_ofNat]
    omega
  have hrx : (BitVec.ofNat 64 k).toNat = k := by
    rw [BitVec.toNat_ofNat]
    exact Nat.mod_eq_of_lt (by omega)
  have hnext := hr.sent (readSegs (addr.toNat + offs) k) s₁.dev
  have hpart := hr.part (addr.toNat + offs) k s₁.dev
  unfold singleReadChunk
  rw [haddr, hrx]
  show Ends (checkRx dif handle _ (readSegs (addr.toNat + offs) k)) s₁ _ _
  refine ends_checkRx (fun h0 => ?_) fun h0 => ?_
  · have hdata := hr.data _ _ s₁.dev hk h0
    have hslice : BitVec.ofNat 32 (addr.toNat + offs) = addr.setWidth 32 + BitVec.ofNat 32 offs := by
      rw [← haddr, setWidth_add_ofNat]
    refine ⟨⟨ts ++ [(readSegs (addr.toNat + offs) k, 0)], ?_, hchain.concat h1 hk⟩, ?_⟩
    · show sent (dif.transaction handle.csid (readSegs (addr.toNat + offs) k) s₁.dev).2 = _
      rw [hnext, hsent, h0, List.append_assoc]
    · show s₁.mem.write _ (dif.transaction handle.csid (readSegs (addr.toNat + offs) k) s₁.dev).1.2 = _
      rw [hdata, hmem, write_chunk s.mem content (Nat.le_of_eq (Mem.length_slice _ _ k)) (by omega),
        hslice, Mem.slice_append]
  · refine ⟨_, rfl, h0, ts, offs, k, _, ?_, ⟨s₁.dev, rfl⟩, hchain, h1, hk, hle, hpart, ?_⟩
    · show sent (dif.transaction handle.csid (readSegs (addr.toNat + offs) k) s₁.dev).2 = _
      rw [hnext, hsent, List.append_assoc]
    · show s₁.mem.write _ (dif.transaction handle.csid (readSegs (addr.toNat + offs) k) s₁.dev).1.2 = _
      rw [hmem, write_chunk s.mem content hpart (by omega)]

/-- **A read** ends with all of its bytes, or with the code of the transaction that has failed. -/
theorem ends_read (hr : Reader depth dif handle content sent) {buf addr len : U64}
    (hfreq : handle.spiFreq < 50 * 1000 * 1000) (hdepth : 4 * (depth : ℕ) < 2 ^ 63)
    (hrange : addr.toNat + len.toNat ≤ 2 ^ 32) (fuel : ℕ) (s : St σ) :
    Ends (spiS25fs512sSingleRead dif handle depth fuel buf addr len) s
      (fun _ s' => Covered sent depth content buf addr s len.toNat s')
      fun e s' => (e = none ∧ fuel ≤ len.toNat) ∨
        ∃ ret, e = some ret ∧ Failed dif handle sent depth content buf addr len s ret s' := by
  unfold spiS25fs512sSingleRead
  rw [if_pos hfreq]
  refine (ends_readLoop (I := Covered sent depth content buf addr s) hdepth (by omega) ?_ fuel 0
    s ?_)
  · exact fun offs k s₁ h1 hk hle hI => ends_singleReadChunk hr hrange h1 hk hle hI
  · have h0 : min (0 : U64).toNat len.toNat = 0 := Nat.zero_min _
    rw [h0]
    exact ⟨⟨[], (List.append_nil _).symm, rfl⟩, rfl⟩

/-- **Reads of the flash**: every read comes to an end, with all of its bytes in the buffer or with
the code of the transaction that has failed.  Where no transaction fails it returns 0. -/
theorem singleRead_ok (hr : Reader depth dif handle content sent) {buf addr len : U64}
    (hfreq : handle.spiFreq < 50 * 1000 * 1000) (hdepth : 4 * (depth : ℕ) < 2 ^ 63)
    (hrange : addr.toNat + len.toNat ≤ 2 ^ 32) (s : St σ) :
    (∃ fuel₀, ∀ fuel ≥ fuel₀, Ends (spiS25fs512sSingleRead dif handle depth fuel buf addr len) s
      (fun _ s' => Covered sent depth content buf addr s len.toNat s')
      fun e s' => ∃ ret, e = some ret ∧
        Failed dif handle sent depth content buf addr len s ret s') ∧
    ((∀ a n t, 1 ≤ n → n ≤ 4 * (depth : ℕ) →
        (dif.transaction handle.csid (readSegs a n) t).1.1 = 0) →
      ∃ fuel, Returns (spiS25fs512sSingleRead dif handle depth fuel buf addr len) s fun _ s' =>
        Covered sent depth content buf addr s len.toNat s') := by
  constructor
  · refine ⟨len.toNat + 1, fun fuel hfuel => (ends_read hr hfreq hdepth hrange fuel s).mono (fun _ _ h => h) ?_⟩
    rintro e s' (⟨-, hle⟩ | he)
    · exact absurd hfuel (by omega)
    · exact he
  · intro hok
    refine ⟨len.toNat + 1, (ends_read hr hfreq hdepth hrange _ s).returns ?_⟩
    rintro e s' (⟨-, hle⟩ | ⟨ret, -, hne, ts, k, n, bs, -, ⟨t, ht⟩, -, h1, hn, -⟩)
    · exact absurd hle (by omega)
    · exact hne (ht.symm.trans (hok _ n t h1 hn))

end Reads

/-! ### A host with given content -/

/-- A host whose reads all succeed. -/
def contentDif (content : Mem 32) : Dif (List (List Segment × CInt)) where
  transaction _ segs sent :=
    ((0, match segs with
      | [.opcode _, .address a, .rx n] => content.slice a n
      | _ => []), sent ++ [(segs, 0)])

lemma reader_contentDif (depth : ℕ+) (handle : Handle) (content : Mem 32) :
    Reader depth (contentDif content) handle content id where
  sent _ _ := rfl
  data _ _ _ _ _ := rfl
  part a n _ := Nat.le_of_eq (Mem.length_slice content (.ofNat 32 a) n)

/-- Nine bytes are read in three chunks. -/
theorem singleRead_ok_nine :
    ∃ fuel, Returns (spiS25fs512sSingleRead (contentDif fun a => a.setWidth 8) ⟨1000, 0⟩ 1 fuel
      0x1000 0x20 9) ⟨fun _ => 0, []⟩ fun _ s' =>
        Covered id 1 (fun a => a.setWidth 8) 0x1000 0x20 ⟨fun _ => 0, []⟩ 9 s' :=
  (singleRead_ok (reader_contentDif 1 ⟨1000, 0⟩ _) (by decide) (by decide) (by decide) _).2
    fun _ _ _ _ _ => rfl

end Cheshire.Sw.SpiS25fs512s
