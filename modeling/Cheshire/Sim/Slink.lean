import Cheshire.Lib.Axi

/-!
The serial link of the testbench (`slink_write_beats` and `slink_write_32` of
`vip_cheshire_soc.sv`), in front of the bus of the default configuration: 48 address bits and
64 data bits.
-/

namespace Cheshire.Sim.Slink

open Lib Lib.Axi

/-- `addr_t`. -/
abbrev Addr := BitVec 48

abbrev AxiStrbWidth : ℕ := 8

abbrev AxiStrbBits : ℕ := 3

/-- `addr[AxiStrbBits-1:0]`. -/
def lane (addr : Addr) : ℕ := addr.toNat % AxiStrbWidth

/-- `slink_write_beats`, up to the response.  The strobes of the first beat start at the lane of
the address. -/
def slinkWriteBeats (addr : Addr) (size : ℕ) (beats : List (BitVec 64)) (m : Mem 48) :
    Except String (Mem 48) :=
  if beats.length = 0 then .error "[SLINK] Zero-length write requested!"
  else
    let ax : AxBeat 48 := ⟨addr, BitVec.ofNat 8 (beats.length - 1), size⟩
    .ok (burst ax ((List.range (ax.len.toNat + 1)).map fun i =>
      ⟨beats.getD i 0, if i = 0 then strobes (2 ^ size) (lane addr) else BitVec.allOnes 8⟩) m)

/-- `slink_write_32`. -/
def slinkWrite32 (addr : Addr) (data : BitVec 32) (m : Mem 48) : Except String (Mem 48) :=
  slinkWriteBeats addr 2 [data.setWidth 64 <<< (8 * lane addr)] m

/-- The data of `slink_read_beats`, of one beat. -/
def slinkReadBeat (addr : Addr) (m : Mem 48) : BitVec 64 := ofLanes (m.slice (word addr) 8)

/-- A turn of the loop of `slink_poll_bit0`: the data, when the loop ends with it. -/
def slinkPollBit0 (addr : Addr) (m : Mem 48) : Option (BitVec 32) :=
  let data := (slinkReadBeat addr m >>> lane addr).setWidth 32
  if data.getLsbD 0 then some data else none

/-! ### What is stored -/

lemma strobes_full : strobes 8 0 = BitVec.allOnes 8 := by decide

/-- **Whole bus words** that are written to any address: what lies below it is left out. -/
theorem slinkWriteBeats_ofLanes (addr : Addr) {ls : List (List Byte)} (hne : ls ≠ [])
    (hlen : ∀ l ∈ ls, l.length = 8) (hmax : ls.length ≤ 256) (m : Mem 48) :
    slinkWriteBeats addr AxiStrbBits (ls.map ofLanes) m =
      .ok (m.write addr (ls.flatten.drop (lane addr))) := by
  obtain ⟨l, ls, rfl⟩ := List.exists_cons_of_ne_nil hne
  rw [List.length_cons] at hmax
  have hax : (BitVec.ofNat 8 ((l :: ls).length - 1)).toNat + 1 = (l :: ls).length := by
    rw [BitVec.toNat_ofNat, List.length_cons, Nat.add_sub_cancel, Nat.mod_eq_of_lt (by omega)]
  have hbeats : ((List.range (l :: ls).length).map fun i : ℕ =>
      (⟨((l :: ls).map ofLanes).getD i 0,
        if i = 0 then strobes (2 ^ AxiStrbBits) (lane addr) else BitVec.allOnes 8⟩ : WBeat)) =
      ⟨ofLanes l, strobes 8 (lane addr)⟩ :: ls.map fun l => ⟨ofLanes l, strobes 8 0⟩ := by
    refine List.ext_getElem (by simp) fun i h₁ _ => ?_
    rw [List.length_map, List.length_range, List.length_cons] at h₁
    cases i with
    | zero => simp [AxiStrbBits]
    | succ i => simp [strobes_full, show i < ls.length by omega]
  rw [slinkWriteBeats, if_neg (by simp)]
  simp only [List.length_map]
  rw [hax, hbeats]
  exact congrArg _ (burst_eq ⟨addr, _, AxiStrbBits⟩ rfl (by decide) hlen (by omega) m)

/-- **A word** at an address that is a multiple of four. -/
theorem slinkWrite32_eq (addr : Addr) (halign : 4 ∣ addr.toNat) (data : BitVec 32) (m : Mem 48) :
    slinkWrite32 addr data m = .ok (m.write addr (toLe 4 data.toNat)) := by
  have hlane : lane addr = 0 ∨ lane addr = 4 := by
    unfold lane AxiStrbWidth
    omega
  have hdata : (data.setWidth 64 <<< (8 * lane addr)).toNat / 256 ^ lane addr = data.toNat := by
    have hlt := data.isLt
    rw [BitVec.toNat_shiftLeft, BitVec.toNat_setWidth, Nat.shiftLeft_eq]
    rcases hlane with h | h <;> rw [h] <;> omega
  have hburst := burst_single (by decide) ⟨addr, 0, 2⟩
    (data.setWidth 64 <<< (8 * lane addr)) (2 ^ 2) m
  rw [drop_toLe, show addr.toNat % 8 = lane addr from rfl, hdata,
    take_toLe (by omega)] at hburst
  exact congrArg _ hburst

/-! ### What is read -/

/-- A read at the start of a bus word gives the bytes from there on. -/
lemma setWidth_slinkReadBeat (addr : Addr) (halign : 8 ∣ addr.toNat) (m : Mem 48) :
    (slinkReadBeat addr m >>> lane addr).setWidth 32 = BitVec.ofNat 32 (ofLe (m.slice addr 4)) := by
  have hlane : lane addr = 0 := Nat.mod_eq_zero_of_dvd halign
  have hword := word_add addr
  rw [show addr.toNat % 8 = 0 from hlane, BitVec.add_zero] at hword
  have hlow : ofLe (m.slice addr 8) =
      ofLe (m.slice addr 4) + 256 ^ 4 * ofLe (m.slice (addr + BitVec.ofNat 48 4) 4) := by
    rw [Mem.slice_append m addr 4 4, ofLe_append, Mem.length_slice]
  rw [hlane, slinkReadBeat, hword, ofLanes, BitVec.ushiftRight_zero]
  refine BitVec.eq_of_toNat_eq ?_
  rw [BitVec.toNat_setWidth, BitVec.toNat_ofNat, BitVec.toNat_ofNat, hlow]
  omega

end Cheshire.Sim.Slink
