import Cheshire.Lib.Load
import Cheshire.Sim.Slink
import Mathlib.Data.List.Pairwise

/-!
Preloading a binary over the serial link (`slink_elf_preload` of `vip_cheshire_soc.sv`).  A section
is written in bursts of whole bus words.  The loop over the bursts runs over the bytes of the
section, and not over the bytes of the bus words that hold them: what an unaligned start pushes
out of the last burst is not written, and a section of whole aligned bursts ends with an empty one.
-/

namespace Cheshire.Sim.Slink

open Lib Lib.Axi Lib.Load

abbrev SlinkBurstBytes : ℕ := 1024

/-! ### The task -/

/-- The byte of a beat that is `c` bytes behind the bus word of the section's start. -/
def beatByte (bf : List Byte) (busOffset c : ℕ) : Byte :=
  if c < busOffset then 0
  else if c - busOffset ≥ bf.length then 0
  else bf.getD (c - busOffset) 0

/-- The loop over the beats of a burst, which breaks behind the end of the section. -/
def beatsFrom (bf : List Byte) (busOffset i b : ℕ) : List (BitVec 64) :=
  if b < SlinkBurstBytes then
    if ((i + b : ℕ) : ℤ) - busOffset ≥ bf.length then []
    else
      ofLanes ((List.range AxiStrbWidth).map fun e => beatByte bf busOffset (i + b + e)) ::
        beatsFrom bf busOffset i (b + AxiStrbWidth)
  else []
termination_by SlinkBurstBytes - b
decreasing_by
  unfold SlinkBurstBytes AxiStrbWidth at *
  omega

/-- The loop over the bursts of a section. -/
def burstsFrom (sec : Piece 48) (i : ℕ) (m : Mem 48) : Except String (Mem 48) :=
  if i ≤ sec.bytes.length then do
    let beats := beatsFrom sec.bytes (lane sec.addr) i 0
    let writeAddr := sec.addr.toNat + if i = 0 then 0 else i - sec.addr.toNat % AxiStrbWidth
    let m ← slinkWriteBeats (BitVec.ofNat 48 writeAddr) AxiStrbBits beats m
    burstsFrom sec (i + SlinkBurstBytes) m
  else return m
termination_by sec.bytes.length + 1 - i
decreasing_by
  unfold SlinkBurstBytes
  omega

/-- `slink_elf_preload`, of the sections that the loader gives. -/
def slinkElfPreload (secs : List (Piece 48)) (m : Mem 48) : Except String (Mem 48) :=
  secs.foldlM (fun m sec => burstsFrom sec 0 m) m

/-! ### A burst -/

/-- The bytes of the beat `k` of a burst. -/
def beatBytes (sec : Piece 48) (i k : ℕ) : List Byte :=
  (List.range AxiStrbWidth).map fun e => beatByte sec.bytes (lane sec.addr) (i + 8 * k + e)

/-- The bytes of the first `n` beats of a burst. -/
def words (sec : Piece 48) (i n : ℕ) : List Byte :=
  (List.range (8 * n)).map fun e => beatByte sec.bytes (lane sec.addr) (i + e)

/-- The number of beats of the burst from the byte `i` on. -/
def beatCount (sec : Piece 48) (i : ℕ) : ℕ :=
  min 128 ((sec.bytes.length + lane sec.addr - i + 7) / 8)

lemma beatByte_of_le (bf : List Byte) {busOffset c : ℕ} (h : busOffset ≤ c) :
    beatByte bf busOffset c = bf.getD (c - busOffset) 0 := by
  rw [beatByte, if_neg (by omega)]
  split
  · next hend => rw [List.getD_eq_default _ _ hend]
  · rfl

lemma lane_lt (addr : Addr) : lane addr < 8 := Nat.mod_lt _ (by decide)

/-- The loop over the beats, by the number of them that are left. -/
lemma beatsFrom_eq (sec : Piece 48) (i : ℕ) : ∀ (n j : ℕ), n + j = beatCount sec i →
    beatsFrom sec.bytes (lane sec.addr) i (8 * j) =
      (List.range' j n).map fun k => ofLanes (beatBytes sec i k) := by
  intro n
  induction n with
  | zero =>
    intro j hj
    unfold beatCount at hj
    rw [beatsFrom, SlinkBurstBytes]
    split
    · rw [if_pos (by omega)]
      rfl
    · rfl
  | succ n ih =>
    intro j hj
    have hnext := ih (j + 1) (by omega)
    unfold beatCount at hj
    rw [beatsFrom, if_pos (by unfold SlinkBurstBytes; omega), if_neg (by omega), AxiStrbWidth,
      show 8 * j + 8 = 8 * (j + 1) by omega, hnext, List.range'_succ, List.map_cons]
    rfl

/-- The beats one after another are the bytes one after another. -/
lemma flatten_beatBytes (sec : Piece 48) (i : ℕ) : ∀ n : ℕ,
    ((List.range n).map (beatBytes sec i)).flatten = words sec i n := by
  intro n
  induction n with
  | zero => rfl
  | succ n ih =>
    rw [List.range_succ, List.map_append, List.flatten_append, ih, words, words, Nat.mul_succ,
      List.range_add, List.map_append, List.map_map]
    simp [beatBytes, Function.comp_def, Nat.add_assoc]

/-- **A burst** writes its words, and fails when there are none. -/
theorem slinkWriteBeats_eq (sec : Piece 48) (i : ℕ) (addr : Addr) (m : Mem 48) :
    slinkWriteBeats addr AxiStrbBits (beatsFrom sec.bytes (lane sec.addr) i 0) m =
      if beatCount sec i = 0 then .error "[SLINK] Zero-length write requested!"
      else .ok (m.write addr ((words sec i (beatCount sec i)).drop (lane addr))) := by
  have hbeats := beatsFrom_eq sec i (beatCount sec i) 0 (Nat.add_zero _)
  rw [Nat.mul_zero, ← List.range_eq_range'] at hbeats
  rw [hbeats]
  by_cases h : beatCount sec i = 0
  · rw [if_pos h, h]
    rfl
  · have hlanes : ∀ l ∈ (List.range (beatCount sec i)).map (beatBytes sec i), l.length = 8 := by
      intro l hl
      obtain ⟨k, _, rfl⟩ := List.mem_map.mp hl
      simp [beatBytes]
    have hsend := slinkWriteBeats_ofLanes addr (by simpa using h) hlanes
      (by simp [beatCount]) m
    rw [List.map_map, flatten_beatBytes] at hsend
    rw [if_neg h]
    exact hsend

/-- The words of the first burst start at the bus word of the section. -/
lemma words_first (sec : Piece 48) (n : ℕ) :
    (words sec 0 n).drop (lane sec.addr) = sec.stream (8 * n - lane sec.addr) := by
  refine List.ext_getElem (by simp [words]) fun j _ _ => ?_
  simp [words, Piece.stream, beatByte_of_le]

/-- The words of a later burst go on where the burst before it ended. -/
lemma words_later (sec : Piece 48) {i : ℕ} (hi : lane sec.addr ≤ i) (n : ℕ) :
    sec.stream (i - lane sec.addr) ++ words sec i n = sec.stream (i + 8 * n - lane sec.addr) := by
  rw [show i + 8 * n - lane sec.addr = i - lane sec.addr + 8 * n by omega, Piece.stream_add]
  congr 1
  refine List.map_congr_left fun e _ => ?_
  rw [beatByte_of_le _ (by omega), show i + e - lane sec.addr = i - lane sec.addr + e by omega]

/-! ### A section -/

/-- The number of bytes of a section and behind it that are sent: whole bus words, in as many
bursts as the length alone has. -/
def sent (sec : Piece 48) : ℕ :=
  min (8 * ((sec.bytes.length + lane sec.addr + 7) / 8))
    (SlinkBurstBytes * (sec.bytes.length / SlinkBurstBytes + 1)) - lane sec.addr

/-- The last burst of the section is empty. -/
def Empty (sec : Piece 48) : Prop := lane sec.addr = 0 ∧ SlinkBurstBytes ∣ sec.bytes.length

instance (sec : Piece 48) : Decidable (Empty sec) := by unfold Empty; infer_instance

/-- The section lies in the address space. -/
def Fits (sec : Piece 48) : Prop := sec.addr.toNat + sec.bytes.length ≤ 2 ^ 48

instance (sec : Piece 48) : Decidable (Fits sec) := by unfold Fits; infer_instance

/-- The burst from the byte `i` on goes on where the bursts before it ended. -/
theorem burst_at (sec : Piece 48) (hfits : Fits sec) {i : ℕ} (hi : SlinkBurstBytes ∣ i)
    (hle : i ≤ sec.bytes.length) (m : Mem 48) :
    slinkWriteBeats (BitVec.ofNat 48 (sec.addr.toNat +
        if i = 0 then 0 else i - sec.addr.toNat % AxiStrbWidth)) AxiStrbBits
      (beatsFrom sec.bytes (lane sec.addr) i 0)
      (m.write sec.addr (sec.stream (i - lane sec.addr))) =
      if beatCount sec i = 0 then .error "[SLINK] Zero-length write requested!"
      else .ok (m.write sec.addr (sec.stream (i + 8 * beatCount sec i - lane sec.addr))) := by
  have hlane : sec.addr.toNat % AxiStrbWidth = lane sec.addr := rfl
  have hlt := lane_lt sec.addr
  rw [slinkWriteBeats_eq, hlane]
  by_cases h0 : i = 0
  · -- the strobes leave the lanes below the section out
    subst h0
    rw [if_pos rfl, Nat.add_zero, BitVec.ofNat_toNat, BitVec.setWidth_eq, words_first, Nat.zero_sub,
      Nat.zero_add]
    rfl
  · unfold SlinkBurstBytes at hi
    have hcount : i + 8 * beatCount sec i - lane sec.addr ≤ 2 ^ 48 := by
      have hword : 8 * (sec.addr.toNat / 8) + lane sec.addr = sec.addr.toNat :=
        Nat.div_add_mod sec.addr.toNat 8
      unfold Fits at hfits
      unfold beatCount
      omega
    have haddr : BitVec.ofNat 48 (sec.addr.toNat + (i - lane sec.addr)) =
        sec.addr + BitVec.ofNat 48 (i - lane sec.addr) := by
      rw [BitVec.ofNat_add, BitVec.ofNat_toNat, BitVec.setWidth_eq]
    have halign : lane (BitVec.ofNat 48 (sec.addr.toNat + (i - lane sec.addr))) = 0 := by
      unfold lane AxiStrbWidth at *
      rw [BitVec.toNat_ofNat]
      omega
    have happ := Mem.write_append m sec.addr (sec.stream (i - lane sec.addr))
      (words sec i (beatCount sec i)) (by simp [words]; omega)
    rw [Piece.length_stream, words_later sec (by omega)] at happ
    rw [if_neg h0, halign, List.drop_zero, haddr, happ]

/-- **A section** is sent, or a burst of it is empty. -/
theorem burstsFrom_eq (sec : Piece 48) (hfits : Fits sec) (m : Mem 48) : ∀ (k i : ℕ),
    i + SlinkBurstBytes * k = SlinkBurstBytes * (sec.bytes.length / SlinkBurstBytes) →
    burstsFrom sec i (m.write sec.addr (sec.stream (i - lane sec.addr))) =
      if Empty sec then .error "[SLINK] Zero-length write requested!"
      else .ok (m.write sec.addr (sec.stream (sent sec))) := by
  have hlt := lane_lt sec.addr
  intro k
  induction k with
  | zero =>
    intro i hi
    unfold SlinkBurstBytes at hi
    have hempty : beatCount sec i = 0 ↔ Empty sec := by
      unfold beatCount Empty SlinkBurstBytes
      omega
    have hsent : i + 8 * beatCount sec i - lane sec.addr = sent sec := by
      unfold beatCount sent SlinkBurstBytes
      omega
    have hburst := burst_at sec hfits (i := i) (by unfold SlinkBurstBytes; omega)
      (by omega) m
    simp only [hempty, hsent] at hburst
    rw [burstsFrom, if_pos (by omega)]
    simp only [hburst]
    split
    · rfl
    · show burstsFrom sec (i + SlinkBurstBytes) _ = _
      rw [burstsFrom, if_neg (by unfold SlinkBurstBytes; omega)]
      rfl
  | succ k ih =>
    intro i hi
    have hnext := ih (i + SlinkBurstBytes) (by unfold SlinkBurstBytes at *; omega)
    unfold SlinkBurstBytes at hi
    have hcount : beatCount sec i = 128 := by
      unfold beatCount
      omega
    rw [burstsFrom, if_pos (by omega)]
    have hburst := burst_at sec hfits (i := i) (by unfold SlinkBurstBytes; omega)
      (by omega) m
    rw [hcount, if_neg (show ¬ 128 = 0 by decide)] at hburst
    simp only [hburst]
    exact hnext

/-! ### The binary -/

/-- The binary is loaded section by section, unless one of them ends with an empty burst. -/
theorem slinkElfPreload_eq : ∀ (secs : List (Piece 48)) (m : Mem 48), (∀ sec ∈ secs, Fits sec) →
    slinkElfPreload secs m =
      if ∃ sec ∈ secs, Empty sec then .error "[SLINK] Zero-length write requested!"
      else .ok (load sent secs m) := by
  intro secs
  induction secs with
  | nil =>
    intro m _
    rw [if_neg (by simp)]
    rfl
  | cons sec secs ih =>
    intro m hfits
    rw [List.forall_mem_cons] at hfits
    have hsec := burstsFrom_eq sec hfits.1 m (sec.bytes.length / SlinkBurstBytes) 0 (Nat.zero_add _)
    rw [Nat.zero_sub] at hsec
    rw [slinkElfPreload, List.foldlM_cons]
    by_cases hempty : Empty sec
    · rw [if_pos hempty] at hsec
      rw [if_pos ⟨sec, List.mem_cons_self, hempty⟩]
      exact congrArg (· >>= _) hsec
    · rw [if_neg hempty] at hsec
      have hiff : (∃ q ∈ sec :: secs, Empty q) ↔ ∃ q ∈ secs, Empty q := by
        simp [hempty]
      simp only [hiff, load_cons]
      rw [← ih _ hfits.2]
      exact congrArg (· >>= fun m => slinkElfPreload secs m) hsec

lemma toNat_offs {p : Piece 48} {x : BitVec 48} {k : ℕ} (h : p.offs x < k)
    (hk : p.addr.toNat + k ≤ 2 ^ 48) : p.addr.toNat + p.offs x = x.toNat := by
  unfold Piece.offs at *
  rw [BitVec.toNat_sub] at *
  omega

/-- Zeros never fall on what is left out: where they are, the bus word has been begun. -/
lemma not_inPad_of_lost {p q : Piece 48} (hp : Fits p) (hq : Fits q) (hlen : 1 ≤ q.bytes.length)
    (happ : p = q ∨ p.Apart q) {x : BitVec 48} (hlost : p.Lost (sent p) x) :
    ¬ q.InPad (sent q) x := by
  intro hpad
  rcases happ with rfl | happ
  · exact absurd hlost.2 (Nat.not_lt.mpr hpad.1)
  have hword (p : Piece 48) : 8 * (p.addr.toNat / 8) + lane p.addr = p.addr.toNat :=
    Nat.div_add_mod p.addr.toNat 8
  obtain ⟨hlo, hhas⟩ := hlost
  obtain ⟨hbehind, hsent⟩ := hpad
  have hpw := hword p
  have hqw := hword q
  unfold Fits at hp hq
  have hpx := toNat_offs hhas hp
  have hqx := toNat_offs hsent (by unfold sent SlinkBurstBytes; omega)
  unfold Piece.Has at hhas
  have hplane := lane_lt p.addr
  have hqlane := lane_lt q.addr
  -- the last byte of `q` is in the same bus word, at or behind its start
  have hlast : q.addr.toNat + (q.bytes.length - 1) < x.toNat ∧
      8 * (x.toNat / 8) ≤ q.addr.toNat + (q.bytes.length - 1) := by
    unfold sent at hsent
    omega
  have hstart : p.addr.toNat ≤ 8 * (x.toNat / 8) := by
    unfold sent SlinkBurstBytes at hlo
    omega
  refine happ (BitVec.ofNat 48 (q.addr.toNat + (q.bytes.length - 1))) ?_ ?_
  · unfold Piece.Has Piece.offs
    rw [BitVec.toNat_sub, BitVec.toNat_ofNat]
    omega
  · unfold Piece.Has Piece.offs
    rw [BitVec.toNat_sub, BitVec.toNat_ofNat]
    omega

/-- **The preload ends and the binary is in memory** exactly when no section ends with an empty
burst, the bytes that are left out were there before, and the zeros behind the sections fall on
zeros of the sections before. -/
theorem slinkElfPreload_iff {secs : List (Piece 48)} (m : Mem 48)
    (hsecs : ∀ sec ∈ secs, 1 ≤ sec.bytes.length ∧ Fits sec) (happ : secs.Pairwise Piece.Apart) :
    (∃ m', slinkElfPreload secs m = .ok m' ∧ Holds secs m') ↔
      (∀ sec ∈ secs, ¬ Empty sec) ∧
        (∀ sec ∈ secs, ∀ x, sec.Lost (sent sec) x → m x = sec.byteAt x) ∧
        secs.Pairwise (Spares sent) := by
  have hpair : ∀ p ∈ secs, ∀ q ∈ secs, p = q ∨ p.Apart q := by
    intro p hp q hq
    by_cases hpq : p = q
    · exact .inl hpq
    · exact .inr (happ.forall hp hq hpq)
  have hholds := holds_load_iff (n := sent) secs m
    (fun p hp => Nat.le_trans (Nat.le_add_left _ _) (hsecs p hp).2) happ
    fun p hp q hq x => not_inPad_of_lost (hsecs p hp).2 (hsecs q hq).2 (hsecs q hq).1
      (hpair p hp q hq)
  rw [slinkElfPreload_eq secs m fun sec hsec => (hsecs sec hsec).2]
  by_cases hempty : ∃ sec ∈ secs, Empty sec
  · obtain ⟨sec, hsec, h⟩ := hempty
    rw [if_pos ⟨sec, hsec, h⟩]
    refine iff_of_false ?_ fun hnone => hnone.1 sec hsec h
    rintro ⟨m', h', -⟩
    cases h'
  · rw [if_neg hempty]
    have hnone : ∀ sec ∈ secs, ¬ Empty sec := fun sec hsec h => hempty ⟨sec, hsec, h⟩
    constructor
    · rintro ⟨m', h', hm'⟩
      obtain rfl := Except.ok.inj h'
      obtain ⟨hspare, hlost⟩ := hholds.mp hm'
      exact ⟨hnone, hlost, hspare⟩
    · rintro ⟨-, hlost, hspare⟩
      exact ⟨_, rfl, hholds.mpr ⟨hspare, hlost⟩⟩

/-- Two sections of four bytes in one bus word. -/
def twoHalves : List (Piece 48) :=
  [⟨0x8000_0000, [1, 2, 3, 4]⟩, ⟨0x8000_0004, [5, 6, 7, 8]⟩]

theorem slinkElfPreload_halves :
    ∃ m', slinkElfPreload twoHalves (fun _ => 0) = .ok m' ∧ Holds twoHalves m' := by
  refine (slinkElfPreload_iff _ (by decide) ?_).mpr ⟨by decide, ?_, ?_⟩
  · refine List.pairwise_pair.mpr fun x hp hq => ?_
    simp only [Piece.Has, Piece.offs, List.length_cons, List.length_nil] at hp hq
    bv_omega
  · have hsent : ∀ sec ∈ twoHalves, sec.bytes.length ≤ sent sec := by decide
    intro sec hsec x hx
    exact absurd hx.2 (Nat.not_lt.mpr (Nat.le_trans (hsent sec hsec) hx.1))
  · refine List.pairwise_pair.mpr fun x _ hpad => ?_
    have hsent : sent ⟨0x8000_0004, [5, 6, 7, 8]⟩ = 4 := by decide
    rw [Piece.InPad, hsent] at hpad
    exact absurd hpad.2 (Nat.not_lt.mpr hpad.1)

/-- A section of one aligned burst. -/
def oneBurst : Piece 48 := ⟨0x8000_0000, List.replicate 1024 0xA5⟩

/-- Behind a whole burst comes an empty one, which is fatal. -/
theorem not_slinkElfPreload_oneBurst :
    ¬ ∃ m', slinkElfPreload [oneBurst] (fun _ => 0) = .ok m' ∧ Holds [oneBurst] m' := by
  have hfits : Fits oneBurst := by
    unfold Fits oneBurst
    rw [List.length_replicate]
    decide
  have hempty : Empty oneBurst := by
    unfold Empty oneBurst SlinkBurstBytes
    rw [List.length_replicate]
    decide
  rintro ⟨m', h, -⟩
  rw [slinkElfPreload_eq _ _ (by simpa using hfits), if_pos ⟨_, List.mem_singleton_self _, hempty⟩]
    at h
  cases h

end Cheshire.Sim.Slink
