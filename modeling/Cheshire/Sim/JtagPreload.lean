import Cheshire.Lib.Load

/-!
Preloading a binary over JTAG (`jtag_elf_preload` of `vip_cheshire_soc.sv`).  The loop over the
words of a section runs up to and including its length, so eight zeros land behind every section.
-/

namespace Cheshire.Sim.Jtag

open Lib Lib.Load

/-! ### The debug module -/

/-- `dm::sbcs_t`, as far as it is written. -/
structure Sbcs where
  sbautoincrement : Bool
  sbreadonaddr : Bool
  sbreadondata : Bool
  sbaccess : ℕ

/-- The registers of the debug module that reach the system bus, and the memory on the bus. -/
structure Dm where
  sbcs : Sbcs
  sbAddress : BitVec 64
  sbData1 : BitVec 32
  mem : Mem 64

/-- A write of the debug module interface (`dm::dm_csr_e` with its data). -/
inductive Dmi where
  | sbcs (v : Sbcs)
  | sbAddress1 (v : BitVec 32)
  | sbAddress0 (v : BitVec 32)
  | sbData1 (v : BitVec 32)
  | sbData0 (v : BitVec 32)

/-- `jtag_write`, the waits apart.  A write of `SBData0` stores what the data registers hold. -/
def jtagWrite (d : Dm) : Dmi → Dm
  | .sbcs v => { d with sbcs := v }
  | .sbAddress1 v => { d with sbAddress := v ++ d.sbAddress.setWidth 32 }
  | .sbAddress0 v => { d with sbAddress := (d.sbAddress >>> 32).setWidth 32 ++ v }
  | .sbData1 v => { d with sbData1 := v }
  | .sbData0 v =>
    { d with
      mem := d.mem.write d.sbAddress ((toLe 8 (d.sbData1 ++ v).toNat).take (2 ^ d.sbcs.sbaccess))
      sbAddress :=
        if d.sbcs.sbautoincrement then d.sbAddress + BitVec.ofNat 64 (2 ^ d.sbcs.sbaccess)
        else d.sbAddress }

/-! ### The task -/

/-- `JtagInitSbcs`. -/
def jtagInitSbcs : Sbcs := ⟨true, false, true, 3⟩

/-- `{bf[i+3], bf[i+2], bf[i+1], bf[i]}`; out of range the array reads as zero. -/
def word (bf : List Byte) (i : ℕ) : BitVec 32 :=
  bf.getD (i + 3) 0 ++ bf.getD (i + 2) 0 ++ bf.getD (i + 1) 0 ++ bf.getD i 0

/-- The loop over the words of a section. -/
def writeWords (bf : List Byte) (i : ℕ) (d : Dm) : Dm :=
  if i ≤ bf.length then
    let d := jtagWrite d (.sbData1 (word bf (i + 4)))
    let d := jtagWrite d (.sbData0 (word bf i))
    writeWords bf (i + 8) d
  else d
termination_by bf.length + 1 - i

/-- The body of the loop over the sections. -/
def preloadSection (d : Dm) (sec : Piece 64) : Dm :=
  let d := jtagWrite d (.sbcs jtagInitSbcs)
  -- the address as a 64-bit double
  let d := jtagWrite d (.sbAddress1 (sec.addr.extractLsb' 32 32))
  let d := jtagWrite d (.sbAddress0 (sec.addr.extractLsb' 0 32))
  writeWords sec.bytes 0 d

/-- `jtag_elf_preload`, of the sections that the loader gives. -/
def jtagElfPreload (secs : List (Piece 64)) (d : Dm) : Dm := secs.foldl preloadSection d

/-! ### What a section leaves -/

/-- The number of bytes that are written for a section. -/
def written (sec : Piece 64) : ℕ := 8 * (sec.bytes.length / 8 + 1)

/-- The two data registers hold the next eight bytes. -/
lemma toLe_words (bf : List Byte) (i : ℕ) : toLe 8 (word bf (i + 4) ++ word bf i).toNat =
    (List.range 8).map fun j => bf.getD (i + j) 0 := by
  have happ {v k : ℕ} (x : BitVec v) (y : BitVec k) :
      (x ++ y).toNat = x.toNat * 2 ^ k + y.toNat := by
    rw [BitVec.toNat_append, ← Nat.shiftLeft_add_eq_or_of_lt y.isLt, Nat.shiftLeft_eq]
  have hnum : (word bf (i + 4) ++ word bf i).toNat =
      ofLe ((List.range 8).map fun j => bf.getD (i + j) 0) := by
    have hrange : List.range 8 = [0, 1, 2, 3, 4, 5, 6, 7] := rfl
    simp only [word, happ, hrange, List.map_cons, List.map_nil, ofLe, Nat.add_assoc, Nat.add_zero,
      Nat.reduceAdd]
    omega
  have hlen : ((List.range 8).map fun j => bf.getD (i + j) 0).length = 8 := rfl
  have hround := toLe_ofLe ((List.range 8).map fun j => bf.getD (i + j) 0)
  rw [hlen] at hround
  rw [hnum, hround]

/-- **The loop over the words** writes on from where it is, up to eight bytes at a time. -/
theorem mem_writeWords (sec : Piece 64) {m : Mem 64} (hsize : written sec ≤ 2 ^ 64) :
    ∀ (k i : ℕ) (d : Dm), i + 8 * k = written sec → 8 ∣ i → d.sbcs = jtagInitSbcs →
      d.sbAddress = sec.addr + BitVec.ofNat 64 i → d.mem = m.write sec.addr (sec.stream i) →
      (writeWords sec.bytes i d).mem = m.write sec.addr (sec.stream (written sec)) := by
  intro k
  induction k with
  | zero =>
    intro i d hi _ _ _ hmem
    have hend : ¬ i ≤ sec.bytes.length := by
      unfold written at hi
      omega
    rw [writeWords, if_neg hend, hmem, ← hi, Nat.mul_zero, Nat.add_zero]
  | succ k ih =>
    intro i d hi hdvd hcs haddr hmem
    have hgo : i ≤ sec.bytes.length := by
      unfold written at hi
      omega
    rw [writeWords, if_pos hgo]
    refine ih (i + 8) _ (by omega) (by omega) hcs ?_ ?_
    · show (if d.sbcs.sbautoincrement then d.sbAddress + BitVec.ofNat 64 (2 ^ d.sbcs.sbaccess)
        else d.sbAddress) = _
      rw [hcs, haddr, BitVec.ofNat_add, ← BitVec.add_assoc]
      rfl
    · show d.mem.write d.sbAddress ((toLe 8 (word sec.bytes (i + 4) ++ word sec.bytes i).toNat).take
        (2 ^ d.sbcs.sbaccess)) = _
      have htake : (2 : ℕ) ^ jtagInitSbcs.sbaccess = 8 := rfl
      have hlen := Piece.length_stream sec i
      have happ := Mem.write_append m sec.addr (sec.stream i)
        ((List.range 8).map fun j => sec.bytes.getD (i + j) 0)
        (by rw [hlen, List.length_map, List.length_range]; omega)
      rw [hlen] at happ
      rw [hcs, htake, List.take_of_length_le (by rw [length_toLe]), toLe_words, hmem, haddr,
        Piece.stream_add, happ]

/-- The two writes of an address. -/
lemma sbAddress_writes (d : Dm) (addr : BitVec 64) :
    (jtagWrite (jtagWrite d (.sbAddress1 (addr.extractLsb' 32 32)))
      (.sbAddress0 (addr.extractLsb' 0 32))).sbAddress = addr := by
  have hhigh (x y : BitVec 32) : ((x ++ y) >>> 32).setWidth 32 = x := by
    refine BitVec.eq_of_getLsbD_eq fun i hi => ?_
    rw [BitVec.getLsbD_setWidth, BitVec.getLsbD_ushiftRight, BitVec.getLsbD_append,
      if_neg (by omega), Nat.add_sub_cancel_left]
    simp [hi]
  show ((addr.extractLsb' 32 32 ++ d.sbAddress.setWidth 32) >>> 32).setWidth 32 ++
    addr.extractLsb' 0 32 = addr
  rw [hhigh]
  refine BitVec.eq_of_getLsbD_eq fun i hi => ?_
  rw [BitVec.getLsbD_append]
  split
  · next h => simp [h]
  · next h => simp [Nat.not_lt.mp h, show i - 32 < 32 by omega]

/-- A section is written with zeros behind its end. -/
theorem mem_preloadSection (sec : Piece 64) (hsize : written sec ≤ 2 ^ 64) (d : Dm) :
    (preloadSection d sec).mem = d.mem.write sec.addr (sec.stream (written sec)) := by
  refine mem_writeWords sec hsize (sec.bytes.length / 8 + 1) 0 _ (by simp [written]) (by simp)
    rfl ?_ rfl
  rw [BitVec.add_zero]
  exact sbAddress_writes (jtagWrite d (.sbcs jtagInitSbcs)) sec.addr

/-- The binary is loaded, with zeros behind every section. -/
theorem mem_jtagElfPreload : ∀ (secs : List (Piece 64)) (d : Dm),
    (∀ sec ∈ secs, written sec ≤ 2 ^ 64) → (jtagElfPreload secs d).mem = load written secs d.mem := by
  intro secs
  induction secs with
  | nil =>
    intro d _
    rfl
  | cons sec secs ih =>
    intro d hsize
    rw [List.forall_mem_cons] at hsize
    rw [load_cons, ← mem_preloadSection sec hsize.1]
    exact ih (preloadSection d sec) hsize.2

/-! ### The result -/

/-- The eight bytes behind a section. -/
def Behind (sec : Piece 64) (x : BitVec 64) : Prop := sec.InPad (sec.bytes.length + 8) x

/-- **The sections arrive and nothing else changes** exactly when, of the eight bytes behind each
section, those of an earlier section are zero, and those of no section were. -/
theorem jtagElfPreload_iff {secs : List (Piece 64)} (d : Dm)
    (hsize : ∀ sec ∈ secs, 8 ∣ sec.bytes.length ∧ sec.bytes.length + 8 < 2 ^ 63)
    (happ : secs.Pairwise Piece.Apart) :
    Holds secs (jtagElfPreload secs d).mem ∧ Unchanged secs d.mem (jtagElfPreload secs d).mem ↔
      secs.Pairwise (fun p q => ∀ x, p.Has x → Behind q x → p.byteAt x = 0) ∧
      ∀ sec ∈ secs, ∀ x, Behind sec x → (∀ p ∈ secs, ¬ p.Has x) → d.mem x = 0 := by
  have hwritten : ∀ sec ∈ secs, written sec = sec.bytes.length + 8 := by
    intro sec hsec
    have := (hsize sec hsec).1
    unfold written
    omega
  have hle : ∀ sec ∈ secs, written sec ≤ 2 ^ 64 := by
    intro sec hsec
    have := (hsize sec hsec).2
    rw [hwritten sec hsec]
    omega
  have hlost : ∀ sec ∈ secs, ∀ x, ¬ sec.Lost (written sec) x := by
    rintro sec hsec x ⟨hge, hlt⟩
    rw [hwritten sec hsec] at hge
    unfold Piece.Has at hlt
    omega
  have hspares : secs.Pairwise (Spares written) ↔
      secs.Pairwise fun p q => ∀ x, p.Has x → Behind q x → p.byteAt x = 0 := by
    refine List.Pairwise.iff_of_mem fun {p q} _ hq => ?_
    rw [Spares, hwritten q hq]
    rfl
  rw [mem_jtagElfPreload secs d hle, unchanged_load_iff, holds_load_iff secs d.mem
    (fun sec hsec => by have := (hsize sec hsec).2; omega) happ
    fun p hp q _ x h => absurd h (hlost p hp x), hspares]
  refine and_congr ?_ ?_
  · exact ⟨And.left, fun h => ⟨h, fun p hp x hx => absurd hx (hlost p hp x)⟩⟩
  · refine forall₂_congr fun sec hsec => ?_
    rw [hwritten sec hsec]
    rfl

/-- A section of eight bytes. -/
def eightBytes (addr : BitVec 64) : Piece 64 := ⟨addr, List.replicate 8 0xA5⟩

/-- A debug module in front of an empty memory. -/
def emptyDm : Dm := ⟨jtagInitSbcs, 0, 0, fun _ => 0⟩

/-- A section that follows in the list and ends where another begins wipes its first bytes. -/
theorem not_jtagElfPreload_backwards :
    ¬ Holds [eightBytes 0x8000_0008, eightBytes 0x8000_0000]
      (jtagElfPreload [eightBytes 0x8000_0008, eightBytes 0x8000_0000] emptyDm).mem := by
  rw [mem_jtagElfPreload _ _ (by decide)]
  intro h
  have := h (eightBytes 0x8000_0008) List.mem_cons_self
  revert this
  decide +kernel

/-- Written the other way round both sections are there. -/
theorem jtagElfPreload_forwards :
    Holds [eightBytes 0x8000_0000, eightBytes 0x8000_0008]
        (jtagElfPreload [eightBytes 0x8000_0000, eightBytes 0x8000_0008] emptyDm).mem ∧
      Unchanged [eightBytes 0x8000_0000, eightBytes 0x8000_0008] emptyDm.mem
        (jtagElfPreload [eightBytes 0x8000_0000, eightBytes 0x8000_0008] emptyDm).mem := by
  refine (jtagElfPreload_iff emptyDm (by decide) ?_).mpr ⟨?_, fun _ _ _ _ _ => rfl⟩
  · refine List.pairwise_pair.mpr fun x hp hq => ?_
    simp only [Piece.Has, Piece.offs, eightBytes, List.length_replicate] at hp hq
    bv_omega
  · refine List.pairwise_pair.mpr fun x hp hq => ?_
    simp only [Behind, Piece.InPad, Piece.Has, Piece.offs, eightBytes, List.length_replicate]
      at hp hq
    bv_omega

end Cheshire.Sim.Jtag
