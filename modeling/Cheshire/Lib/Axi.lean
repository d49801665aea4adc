import Cheshire.Lib.Mem

/-!
A memory on an AXI bus eight bytes wide.  A write burst has an address and a list of beats, each
with a strobe for every byte lane; a burst that increments its address leaves an unaligned start
at its first beat, and stores from the next aligned address on.
-/

namespace Cheshire.Lib.Axi

variable {w : ℕ}

/-- A beat on the address channel, of a burst that increments its address. -/
structure AxBeat (w : ℕ) where
  addr : BitVec w
  len : BitVec 8
  size : ℕ

/-- A beat on the write data channel. -/
structure WBeat where
  data : BitVec 64
  strb : BitVec 8

/-- The address of the beat `j`. -/
def AxBeat.addrOf (ax : AxBeat w) (j : ℕ) : BitVec w :=
  if j = 0 then ax.addr else (ax.addr >>> ax.size <<< ax.size) + BitVec.ofNat w (j * 2 ^ ax.size)

/-- The start of the bus word of an address. -/
def word (a : BitVec w) : BitVec w := a >>> 3 <<< 3

/-- The memory after a beat: the lanes whose strobes are set are stored. -/
def strobed (m : Mem w) (a : BitVec w) (b : WBeat) : Mem w := fun x =>
  if b.strb.getLsbD (x - word a).toNat then b.data.extractLsb' (8 * (x - word a).toNat) 8 else m x

/-- The memory after the beats of a burst from the beat `j` on. -/
def burstFrom (ax : AxBeat w) : ℕ → List WBeat → Mem w → Mem w
  | _, [], m => m
  | j, b :: bs, m => burstFrom ax (j + 1) bs (strobed m (ax.addrOf j) b)

/-- The memory after a write burst. -/
def burst (ax : AxBeat w) (bs : List WBeat) (m : Mem w) : Mem w := burstFrom ax 0 bs m

/-- The data of a beat whose lanes hold the bytes, the lowest first. -/
def ofLanes (l : List Byte) : BitVec 64 := BitVec.ofNat 64 (ofLe l)

/-- `n` strobes from the lane `o` on. -/
def strobes (n o : ℕ) : BitVec 8 := ~~~(BitVec.allOnes 8 <<< n) <<< o

/-- What a burst stores somewhere depends only on what was there. -/
lemma burst_congr {m m' : Mem w} {x : BitVec w} (h : m x = m' x) (ax : AxBeat w)
    (bs : List WBeat) : burst ax bs m x = burst ax bs m' x := by
  unfold burst
  generalize 0 = j
  induction bs generalizing j m m' with
  | nil => exact h
  | cons b bs ih =>
    refine ih ?_ (j + 1)
    unfold strobed
    rw [h]

/-! ### Lanes -/

lemma extractLsb'_ofLanes {l : List Byte} (hl : l.length = 8) {e : ℕ} (he : e < 8) :
    (ofLanes l).extractLsb' (8 * e) 8 = l.getD e 0 := by
  have hlt : ofLe l < 2 ^ 64 := by
    have := ofLe_lt l
    rw [hl] at this
    calc ofLe l < 256 ^ 8 := this
      _ = 2 ^ 64 := by norm_num
  have hround := toLe_ofLe l
  rw [hl] at hround
  have hbyte : l.getD e 0 = BitVec.ofNat 8 (ofLe l / 256 ^ e) := by
    rw [← hround, List.getD_eq_getElem _ _ (by rw [length_toLe]; exact he), getElem_toLe, hround]
  rw [hbyte]
  refine BitVec.eq_of_toNat_eq ?_
  have hpow : 256 ^ e = 2 ^ (8 * e) := by
    rw [pow_mul]
    norm_num
  rw [BitVec.extractLsb'_toNat, ofLanes, BitVec.toNat_ofNat, BitVec.toNat_ofNat,
    Nat.mod_eq_of_lt hlt, Nat.shiftRight_eq_div_pow, hpow]

lemma getLsbD_strobes (n o e : ℕ) :
    (strobes n o).getLsbD e = decide (o ≤ e ∧ e < o + n ∧ e < 8) := by
  unfold strobes
  rw [BitVec.getLsbD_shiftLeft, BitVec.getLsbD_not, BitVec.getLsbD_shiftLeft,
    BitVec.getLsbD_allOnes, Bool.eq_iff_iff]
  simp only [Bool.and_eq_true, Bool.not_eq_eq_eq_not, Bool.not_true, Bool.not_false,
    Bool.and_eq_false_iff, decide_eq_true_eq, decide_eq_false_iff_not]
  omega

/-- An address is as far behind the start of its bus word as its three low bits say. -/
lemma word_add (a : BitVec w) : word a + BitVec.ofNat w (a.toNat % 8) = a := by
  refine BitVec.eq_of_toNat_eq ?_
  have hle : a.toNat / 2 ^ 3 * 2 ^ 3 ≤ a.toNat := Nat.div_mul_le_self _ _
  have hword : (word a).toNat = a.toNat / 2 ^ 3 * 2 ^ 3 := by
    rw [word, BitVec.toNat_shiftLeft, BitVec.toNat_ushiftRight, Nat.shiftLeft_eq,
      Nat.shiftRight_eq_div_pow, Nat.mod_eq_of_lt (Nat.lt_of_le_of_lt hle a.isLt)]
  rw [BitVec.toNat_add, hword, BitVec.toNat_ofNat,
    Nat.mod_eq_of_lt (a := a.toNat % 8) (Nat.lt_of_le_of_lt (Nat.mod_le _ _) a.isLt)]
  rw [Nat.mod_eq_of_lt (by omega)]
  omega

/-- **A beat is a write** of the lanes that are strobed from its address on. -/
theorem strobed_eq (hw : 3 ≤ w) (m : Mem w) (a : BitVec w) {l : List Byte} (hl : l.length = 8)
    (n : ℕ) : strobed m a ⟨ofLanes l, strobes n (a.toNat % 8)⟩ =
      m.write a ((l.drop (a.toNat % 8)).take n) := by
  have hsize : 8 ≤ 2 ^ w := Nat.pow_le_pow_right (n := 2) (by decide) hw
  have ho : a.toNat % 8 < 8 := Nat.mod_lt _ (by decide)
  have hwrap : a.toNat % 8 < 2 ^ w := Nat.lt_of_le_of_lt (Nat.mod_le _ _) a.isLt
  have hlen : ((l.drop (a.toNat % 8)).take n).length = min n (8 - a.toNat % 8) := by
    rw [List.length_take, List.length_drop, hl]
  funext x
  have hoffs := Mem.toNat_sub_add x (word a) hwrap
  rw [word_add] at hoffs
  unfold strobed Mem.write
  rw [getLsbD_strobes]
  have hlt := (x - word a).isLt
  generalize (x - word a).toNat = e at *
  generalize (x - a).toNat = k at *
  generalize a.toNat % 8 = o at *
  by_cases h : o ≤ e ∧ e < o + n ∧ e < 8
  · obtain ⟨h₁, h₂, h₃⟩ := h
    rw [if_pos h₁] at hoffs
    subst hoffs
    rw [if_pos (by simp [h₁, h₂, h₃]), extractLsb'_ofLanes hl h₃,
      List.getD_eq_getElem (l := (l.drop o).take n) _ (by omega), List.getElem_take,
      List.getElem_drop, List.getD_eq_getElem _ _ (by omega)]
    congr 1
    omega
  · rw [if_neg (by simpa using h), List.getD_eq_default]
    rw [hlen]
    split at hoffs <;> omega

/-- A beat of one bus word with any data. -/
theorem burst_single (hw : 3 ≤ w) (ax : AxBeat w) (d : BitVec 64) (n : ℕ) (m : Mem w) :
    burst ax [⟨d, strobes n (ax.addr.toNat % 8)⟩] m =
      m.write ax.addr (((toLe 8 d.toNat).drop (ax.addr.toNat % 8)).take n) := by
  have hd : ofLanes (toLe 8 d.toNat) = d := by
    rw [ofLanes, ofLe_toLe_of_lt (Nat.lt_of_lt_of_eq d.isLt (by norm_num)), BitVec.ofNat_toNat,
      BitVec.setWidth_eq]
  have hbeat := strobed_eq hw m ax.addr (length_toLe 8 d.toNat) n
  rw [hd] at hbeat
  rw [burst, burstFrom, burstFrom, AxBeat.addrOf, if_pos rfl, hbeat]

/-! ### Bursts of whole words -/

lemma length_flatten {ls : List (List Byte)} (h : ∀ l ∈ ls, l.length = 8) :
    ls.flatten.length = 8 * ls.length := by
  rw [List.length_flatten, List.map_congr_left h, List.map_const', List.sum_replicate_nat,
    Nat.mul_comm]

/-- Beats whose lanes are all strobed, from an aligned address on. -/
lemma burstFrom_eq (ax : AxBeat w) (hsize : ax.size = 3) (hw : 3 ≤ w) :
    ∀ (ls : List (List Byte)) (j : ℕ) (m : Mem w), 1 ≤ j → (∀ l ∈ ls, l.length = 8) →
      8 * ls.length ≤ 2 ^ w →
      burstFrom ax j (ls.map fun l => ⟨ofLanes l, strobes 8 0⟩) m =
        m.write (word ax.addr + BitVec.ofNat w (8 * j)) ls.flatten := by
  have hdvd : 8 ∣ 2 ^ w := by
    calc 8 = 2 ^ 3 := rfl
      _ ∣ 2 ^ w := pow_dvd_pow 2 hw
  intro ls
  induction ls with
  | nil =>
    intro j m _ _ _
    rfl
  | cons l ls ih =>
    intro j m hj hlen hfit
    rw [List.forall_mem_cons] at hlen
    rw [List.length_cons] at hfit
    have haddr : ax.addrOf j = word ax.addr + BitVec.ofNat w (8 * j) := by
      rw [AxBeat.addrOf, if_neg (by omega), hsize, word, Nat.mul_comm]
      rfl
    have halign : (ax.addrOf j).toNat % 8 = 0 := by
      rw [haddr, word, BitVec.toNat_add, BitVec.toNat_shiftLeft, BitVec.toNat_ofNat,
        Nat.shiftLeft_eq]
      have h1 := Nat.mod_mod_of_dvd (ax.addr.toNat >>> 3 * 2 ^ 3) hdvd
      have h2 := Nat.mod_mod_of_dvd (8 * j) hdvd
      rw [BitVec.toNat_ushiftRight, Nat.mod_mod_of_dvd _ hdvd]
      omega
    have hbeat := strobed_eq hw m (ax.addrOf j) hlen.1 8
    rw [halign, List.drop_zero, List.take_of_length_le (by omega)] at hbeat
    rw [List.map_cons, burstFrom, hbeat, ih (j + 1) _ (by omega) hlen.2 (by omega), haddr,
      List.flatten_cons, Mem.write_append]
    · rw [hlen.1, BitVec.add_assoc, ← BitVec.ofNat_add]
      rfl
    · rw [hlen.1, length_flatten hlen.2]
      omega

/-- **A burst of whole words is one write.**  The lanes below its address are not strobed in the
first beat. -/
theorem burst_eq (ax : AxBeat w) (hsize : ax.size = 3) (hw : 3 ≤ w) {l : List Byte}
    {ls : List (List Byte)} (hlen : ∀ k ∈ l :: ls, k.length = 8)
    (hfit : 8 * (ls.length + 1) ≤ 2 ^ w) (m : Mem w) :
    burst ax (⟨ofLanes l, strobes 8 (ax.addr.toNat % 8)⟩ ::
        ls.map fun l => ⟨ofLanes l, strobes 8 0⟩) m =
      m.write ax.addr ((l :: ls).flatten.drop (ax.addr.toNat % 8)) := by
  have ho : ax.addr.toNat % 8 < 8 := Nat.mod_lt _ (by decide)
  rw [List.forall_mem_cons] at hlen
  have hfirst : ax.addrOf 0 = ax.addr := rfl
  have hbeat := strobed_eq hw m ax.addr hlen.1 8
  rw [List.take_of_length_le (by rw [List.length_drop]; omega)] at hbeat
  have hrest := length_flatten hlen.2
  have hnext : word ax.addr + BitVec.ofNat w (8 * 1) =
      ax.addr + BitVec.ofNat w (l.drop (ax.addr.toNat % 8)).length := by
    rw [List.length_drop, hlen.1]
    nth_rewrite 2 [← word_add ax.addr]
    rw [BitVec.add_assoc, ← BitVec.ofNat_add]
    congr 2
    omega
  rw [burst, burstFrom, hfirst, hbeat, burstFrom_eq ax hsize hw ls 1 _ (Nat.le_refl 1) hlen.2
    (by omega), hnext, List.flatten_cons, List.drop_append_of_le_length (by omega),
    Mem.write_append]
  rw [List.length_drop, hrest, hlen.1]
  omega

end Cheshire.Lib.Axi
