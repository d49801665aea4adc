import Cheshire.Lib.Rv64
import Cheshire.Sim.Slink

/-!
A word that `slink_write_32` stores and `slink_poll_bit0` reads back, on a bus that moves the four
bytes of a word in the lanes its address selects.  The write shifts its data by as many bytes as
the address is into the bus word, the poll by as many bits.
-/

namespace Cheshire.Sim.Slink

open Lib Lib.Axi

/-- A beat of a read of four bytes, of which the other four lanes hold `other`. -/
def narrowBeat (addr : Addr) (other : BitVec 32) (m : Mem 48) : BitVec 64 :=
  if lane addr = 0 then other ++ m.loadW addr else m.loadW addr ++ other

/-- The rest of a turn of the loop of `slink_poll_bit0`, with its beat: the data, when the loop ends
with it. -/
def pollBeat (addr : Addr) (beat : BitVec 64) : Option (BitVec 32) :=
  let data := (beat >>> lane addr).setWidth 32
  if data.getLsbD 0 then some data else none

/-- The word is stored, and nothing else is changed; and the first beat that is read ends the poll
with the word. -/
def WordOk (addr : Addr) (v other : BitVec 32) (m : Mem 48) : Prop :=
  ∃ m', slinkWrite32 addr v m = .ok m' ∧
    (m'.slice addr 4 = toLe 4 v.toNat ∧ ∀ x, Mem.Outside addr 4 x → m' x = m x) ∧
    pollBeat addr (narrowBeat addr other m') = some v

section Word

variable {addr : Addr}

lemma lane_of_dvd (h : 4 ∣ addr.toNat) : lane addr = 0 ∧ 8 ∣ addr.toNat ∨
    lane addr = 4 ∧ ¬ 8 ∣ addr.toNat := by
  unfold lane AxiStrbWidth
  omega

lemma ofLanes_eq_append (a : Addr) (m : Mem 48) :
    ofLanes (m.slice a 8) = m.loadW (a + 4) ++ m.loadW a := by
  have hbytes : (256 : ℕ) ^ 4 = 2 ^ 32 := by norm_num
  have hlow := ofLe_lt (m.slice a 4)
  have hhigh := ofLe_lt (m.slice (a + 4) 4)
  rw [Mem.length_slice, hbytes] at hlow hhigh
  have hsplit : ofLe (m.slice a 8) = ofLe (m.slice a 4) + 2 ^ 32 * ofLe (m.slice (a + 4) 4) := by
    rw [Mem.slice_append m a 4 4, ofLe_append, Mem.length_slice, hbytes]
    rfl
  refine BitVec.eq_of_toNat_eq ?_
  rw [BitVec.toNat_append, Mem.loadW, Mem.loadW, BitVec.toNat_ofNat, BitVec.toNat_ofNat,
    Nat.mod_eq_of_lt hlow, Nat.mod_eq_of_lt hhigh, ← Nat.shiftLeft_add_eq_or_of_lt hlow,
    Nat.shiftLeft_eq, ofLanes, BitVec.toNat_ofNat, hsplit]
  omega

/-- A memory that returns whole bus words returns the other half of the word. -/
lemma slinkReadBeat_eq_narrowBeat (h : 4 ∣ addr.toNat) (m : Mem 48) : slinkReadBeat addr m =
    narrowBeat addr (m.loadW (if lane addr = 0 then addr + 4 else addr - 4)) m := by
  have hword := word_add addr
  rcases lane_of_dvd h with ⟨hlane, -⟩ | ⟨hlane, -⟩
  · rw [show addr.toNat % 8 = 0 from hlane, BitVec.add_zero] at hword
    rw [slinkReadBeat, hword, ofLanes_eq_append, narrowBeat, if_pos hlane, if_pos hlane]
  · rw [show addr.toNat % 8 = 4 from hlane] at hword
    have hsub : word addr = addr - 4 := by
      have hcancel := congrArg (· - 4) hword
      exact (BitVec.add_sub_cancel _ _).symm.trans hcancel
    rw [slinkReadBeat, ofLanes_eq_append, narrowBeat, if_neg (by omega), if_neg (by omega), hsub,
      BitVec.sub_add_cancel]

/-- On a memory that returns whole bus words a turn of the poll is the one of a narrow beat. -/
theorem slinkPollBit0_eq (h : 4 ∣ addr.toNat) (m : Mem 48) : slinkPollBit0 addr m =
    pollBeat addr (narrowBeat addr (m.loadW (if lane addr = 0 then addr + 4 else addr - 4)) m) := by
  rw [← slinkReadBeat_eq_narrowBeat h]
  rfl

/-- What the poll makes of its beat. -/
lemma pollBeat_narrowBeat (h : 4 ∣ addr.toNat) (v other : BitVec 32) (hv : v.getLsbD 0 = true)
    {m : Mem 48} (hm : m.loadW addr = v) : pollBeat addr (narrowBeat addr other m) = some v ↔
      8 ∣ addr.toNat ∨ v = v <<< 28 ||| other >>> 4 := by
  have hpoll : ∀ data : BitVec 32, (if data.getLsbD 0 then some data else none) = some v ↔
      v = data := by
    intro data
    constructor
    · intro hdata
      split at hdata
      · exact (Option.some.inj hdata).symm
      · cases hdata
    · rintro rfl
      rw [if_pos hv]
  unfold pollBeat narrowBeat
  rw [hm]
  rcases lane_of_dvd h with ⟨hlane, hdvd⟩ | ⟨hlane, hdvd⟩
  · have hdata : ((other ++ v) >>> 0).setWidth 32 = v := by
      rw [BitVec.ushiftRight_zero, BitVec.setWidth_append, dif_pos le_rfl, BitVec.setWidth_eq]
    rw [if_pos hlane, hlane, hpoll, hdata]
    exact iff_of_true rfl (.inl hdvd)
  · have hdata : ((v ++ other) >>> 4).setWidth 32 = v <<< 28 ||| other >>> 4 := by
      refine BitVec.eq_of_getLsbD_eq fun k hk => ?_
      simp only [BitVec.getLsbD_setWidth, BitVec.getLsbD_ushiftRight, BitVec.getLsbD_append,
        BitVec.getLsbD_or, BitVec.getLsbD_shiftLeft, hk, decide_true, Bool.true_and]
      by_cases hlow : 4 + k < 32
      · simp [hlow, show k < 28 by omega]
      · simp [hlow, show ¬ k < 28 by omega, show 4 + k - 32 = k - 28 by omega,
          BitVec.getLsbD_of_ge other (4 + k) (by omega)]
    rw [if_neg (show ¬ lane addr = 0 by omega), hlane, hpoll, hdata, or_iff_right hdvd]

end Word

/-- **A word is written and read back** exactly when its address is that of a bus word, or the
other half of the bus word happens to hold the bits that the poll takes for it. -/
theorem wordOk_iff (addr : Addr) (haddr : 4 ∣ addr.toNat) (v : BitVec 32)
    (hv : v.getLsbD 0 = true) (other : BitVec 32) (m : Mem 48) :
    WordOk addr v other m ↔ 8 ∣ addr.toNat ∨ v = v <<< 28 ||| other >>> 4 := by
  have hlen : (toLe 4 v.toNat).length = 4 := length_toLe 4 _
  have hwrite := slinkWrite32_eq addr haddr v m
  have hpoll := pollBeat_narrowBeat haddr v other hv
    (Mem.loadW_storeW_self m addr v (by decide))
  constructor
  · rintro ⟨m', hm', -, hread⟩
    rw [hwrite] at hm'
    obtain rfl := Except.ok.inj hm'
    exact hpoll.mp hread
  · refine fun hok => ⟨_, hwrite, ⟨?_, fun x hx => ?_⟩, hpoll.mpr hok⟩
    · have hslice := Mem.slice_write_self m addr (toLe 4 v.toNat) (by rw [hlen]; norm_num)
      rwa [hlen] at hslice
    · refine Mem.write_outside m ?_
      rw [hlen]
      exact hx

/-- A word at a multiple of eight. -/
theorem wordOk_aligned : WordOk 0x0300_0008 0x0000_0055 0xFFFF_FFFF fun _ => 0 :=
  (wordOk_iff 0x0300_0008 (by decide) 0x0000_0055 (by decide) 0xFFFF_FFFF _).mpr (by decide)

/-- Of a word in the upper lanes the poll sees four bits at most. -/
theorem not_wordOk_upperLanes : ¬ WordOk 0x0300_000C 0x0000_0001 0 fun _ => 0 := by
  rintro ⟨m', hm', -, hread⟩
  rw [slinkWrite32_eq _ (by decide)] at hm'
  obtain rfl := Except.ok.inj hm'
  revert hread
  decide

end Cheshire.Sim.Slink
