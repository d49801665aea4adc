import Cheshire.Lib.Bytes
import Cheshire.Lib.Parity

/-!
Cyclic redundancy checks that take the most significant bit first: the remainder of a message bit
by bit, and a byte at a time from a table.
-/

namespace Cheshire.Lib.Crc

variable {w : ℕ}

/-- The remainder after one more bit that is zero. -/
def shift (poly s : BitVec w) : BitVec w := if s.msb then s <<< 1 ^^^ poly else s <<< 1

/-- The remainder after `k` more bits that are zero. -/
def shifts (poly : BitVec w) : ℕ → BitVec w → BitVec w
  | 0, s => s
  | k + 1, s => shift poly (shifts poly k s)

/-- The remainder after one more byte of the message. -/
def byte (poly s : BitVec w) (x : Byte) : BitVec w :=
  shifts poly 8 (s ^^^ x.setWidth w <<< (w - 8))

/-- The remainder of a message. -/
def remainder (poly : BitVec w) (msg : List Byte) : BitVec w := msg.foldl (byte poly) 0

/-- The remainder after one more bit of the message. -/
def bit (poly s : BitVec w) (b : Bool) : BitVec w :=
  shift poly (s ^^^ if b then BitVec.twoPow w (w - 1) else 0)

/-- The remainder of a message, bit by bit. -/
def remainderBits (poly : BitVec w) (msg : List Bool) : BitVec w := msg.foldl (bit poly) 0

/-- The bits of a vector, the most significant first. -/
def bitsOf {n : ℕ} (x : BitVec n) : List Bool := (List.range n).map fun i => x.getMsbD i

/-! ### Linearity -/

theorem shift_xor (poly a b : BitVec w) :
    shift poly (a ^^^ b) = shift poly a ^^^ shift poly b := by
  unfold shift
  rw [BitVec.msb_xor, BitVec.shiftLeft_xor_distrib]
  cases a.msb <;> cases b.msb <;> simp only [Bool.xor_true, Bool.xor_false, Bool.not_false,
    Bool.not_true, Bool.false_eq_true, if_true, if_false]
  · ac_rfl
  · ac_rfl
  · calc a <<< 1 ^^^ b <<< 1 = a <<< 1 ^^^ b <<< 1 ^^^ (poly ^^^ poly) := by
          rw [BitVec.xor_self, BitVec.xor_zero]
      _ = _ := by ac_rfl

theorem shifts_xor (poly : BitVec w) (k : ℕ) (a b : BitVec w) :
    shifts poly k (a ^^^ b) = shifts poly k a ^^^ shifts poly k b := by
  induction k with
  | zero => rfl
  | succ k ih => rw [shifts, ih, shift_xor, shifts, shifts]

/-- A remainder whose high `k` bits are clear only moves up. -/
theorem shifts_of_lt (poly s : BitVec w) :
    ∀ k ≤ w, s.toNat < 2 ^ (w - k) → shifts poly k s = s <<< k := by
  intro k
  induction k with
  | zero =>
    intro _ _
    rw [shifts, BitVec.shiftLeft_zero]
  | succ k ih =>
    intro hk hs
    have hpow : 2 ^ (w - (k + 1)) * 2 ^ k * 2 = 2 ^ w := by
      rw [← pow_add, ← pow_succ]
      congr 1
      omega
    have hlt : s.toNat * 2 ^ k < 2 ^ (w - (k + 1)) * 2 ^ k :=
      Nat.mul_lt_mul_of_pos_right hs (Nat.two_pow_pos k)
    have hmsb : (s <<< k).msb = false := by
      rw [BitVec.msb_eq_false_iff_two_mul_lt, BitVec.toNat_shiftLeft, Nat.shiftLeft_eq,
        Nat.mod_eq_of_lt (by omega)]
      omega
    have hk' : s.toNat < 2 ^ (w - k) :=
      Nat.lt_of_lt_of_le hs (Nat.pow_le_pow_right (by decide) (by omega))
    rw [shifts, ih (by omega) hk', shift, hmsb, if_neg Bool.false_ne_true, BitVec.shiftLeft_add]

/-! ### The table -/

/-- A remainder is its high byte and the bits below it. -/
lemma split_high (hw : 8 ≤ w) (s : BitVec w) :
    s = ((s >>> (w - 8)).setWidth 8).setWidth w <<< (w - 8) ^^^ (s.setWidth (w - 8)).setWidth w := by
  refine BitVec.eq_of_getLsbD_eq fun i hi => ?_
  simp only [BitVec.getLsbD_xor, BitVec.getLsbD_shiftLeft, BitVec.getLsbD_setWidth,
    BitVec.getLsbD_ushiftRight]
  by_cases h : i < w - 8
  · simp [h, hi]
  · have hadd : w - 8 + (i - (w - 8)) = i := by omega
    have hlt : i - (w - 8) < 8 := by omega
    simp [h, hi, hadd, hlt, show i - (w - 8) < w by omega]

lemma low_shiftLeft (s : BitVec w) : (s.setWidth (w - 8)).setWidth w <<< 8 = s <<< 8 := by
  refine BitVec.eq_of_getLsbD_eq fun i hi => ?_
  simp only [BitVec.getLsbD_shiftLeft, BitVec.getLsbD_setWidth, hi, decide_true, Bool.true_and]
  by_cases h : i < 8
  · simp [h]
  · simp [show i - 8 < w by omega, show i - 8 < w - 8 by omega]

/-- **A byte at a time**: the table has the remainder of each byte, and the rest moves up. -/
theorem byte_eq (hw : 8 ≤ w) (poly s : BitVec w) (x : Byte) :
    byte poly s x = byte poly 0 (x ^^^ (s >>> (w - 8)).setWidth 8) ^^^ s <<< 8 := by
  have hlow : ((s.setWidth (w - 8)).setWidth w).toNat < 2 ^ (w - 8) := by
    rw [BitVec.toNat_setWidth]
    exact Nat.lt_of_le_of_lt (Nat.mod_le _ _) (s.setWidth (w - 8)).isLt
  have hxor : s ^^^ x.setWidth w <<< (w - 8) =
      (0#w ^^^ (x ^^^ (s >>> (w - 8)).setWidth 8).setWidth w <<< (w - 8)) ^^^
        (s.setWidth (w - 8)).setWidth w := by
    rw [BitVec.setWidth_xor, BitVec.shiftLeft_xor_distrib, BitVec.zero_xor]
    conv_lhs => rw [split_high hw s]
    ac_rfl
  rw [byte, hxor, shifts_xor, shifts_of_lt poly _ 8 hw hlow, low_shiftLeft]
  rfl

/-! ### Bit by bit -/

lemma shifts_shift (poly s : BitVec w) (k : ℕ) : shifts poly k (shift poly s) = shifts poly (k + 1) s := by
  induction k with
  | zero => rfl
  | succ k ih =>
    rw [shifts, ih]
    rfl

/-- Bits that are put at the high end of a remainder. -/
def high (w : ℕ) : List Bool → BitVec w
  | [] => 0
  | b :: l => (if b then BitVec.twoPow w (w - 1) else 0) ^^^ high w l >>> 1

lemma getLsbD_high : ∀ (l : List Bool) (i : ℕ),
    (high w l).getLsbD i = (decide (i < w) && l.getD (w - 1 - i) false) := by
  intro l
  induction l with
  | nil =>
    intro i
    simp [high]
  | cons b l ih =>
    intro i
    have htop : (if b then BitVec.twoPow w (w - 1) else 0).getLsbD i =
        (b && decide (i < w) && decide (i = w - 1)) := by
      cases b
      · simp
      · rw [if_pos rfl, BitVec.getLsbD_twoPow, Bool.true_and, ← Bool.decide_and, ← Bool.decide_and]
        exact decide_eq_decide.mpr (by omega)
    rw [high, BitVec.getLsbD_xor, BitVec.getLsbD_ushiftRight, ih, htop]
    by_cases hi : i < w
    · rcases Nat.lt_or_ge (1 + i) w with h | h
      · -- a bit of the rest
        obtain ⟨k, hk⟩ : ∃ k, w - 1 - i = k + 1 := ⟨w - 2 - i, by omega⟩
        have hk' : w - 1 - (1 + i) = k := by omega
        simp [hi, h, hk, hk', show ¬ i = w - 1 by omega]
      · have h0 : w - 1 - i = 0 := by omega
        obtain rfl : i = w - 1 := by omega
        rw [h0]
        simp [hi, show ¬ 1 + (w - 1) < w by omega]
    · simp [hi, show ¬ 1 + i < w by omega]

/-- Bits that are taken one after another can be put in all at once. -/
theorem foldl_bit (poly : BitVec w) : ∀ (l : List Bool) (s : BitVec w), l.length ≤ w →
    l.foldl (bit poly) s = shifts poly l.length (s ^^^ high w l) := by
  intro l
  induction l with
  | nil =>
    intro s _
    simp [high, shifts]
  | cons b l ih =>
    intro s hlen
    rw [List.length_cons] at hlen
    -- nothing is lost when the rest moves down by one place
    have hrest : shift poly (high w l >>> 1) = high w l := by
      have hmsb : (high w l >>> 1).msb = false := by
        rw [BitVec.msb_eq_getLsbD_last, BitVec.getLsbD_ushiftRight, getLsbD_high]
        simp [show ¬ 1 + (w - 1) < w by omega]
      rw [shift, hmsb, if_neg Bool.false_ne_true]
      refine BitVec.eq_of_getLsbD_eq fun i hi => ?_
      rw [BitVec.getLsbD_shiftLeft, BitVec.getLsbD_ushiftRight]
      rcases Nat.eq_zero_or_pos i with rfl | hpos
      · have hlow : (high w l).getLsbD 0 = false := by
          rw [getLsbD_high, List.getD_eq_default _ _ (by omega), Bool.and_false]
        simp [hlow]
      · simp [hi, show ¬ i < 1 by omega, show 1 + (i - 1) = i by omega]
    rw [List.foldl_cons, ih _ (by omega), List.length_cons, ← shifts_shift, bit, high,
      ← BitVec.xor_assoc, shift_xor poly _ (high w l >>> 1), hrest]

lemma high_bitsOf (hw : 8 ≤ w) (x : Byte) : high w (bitsOf x) = x.setWidth w <<< (w - 8) := by
  refine BitVec.eq_of_getLsbD_eq fun i hi => ?_
  rw [getLsbD_high, BitVec.getLsbD_shiftLeft, BitVec.getLsbD_setWidth]
  by_cases h : i < w - 8
  · rw [List.getD_eq_default _ _ (by simp [bitsOf]; omega)]
    simp [h]
  · have hlt : w - 1 - i < (bitsOf x).length := by
      simp only [bitsOf, List.length_map, List.length_range]
      omega
    rw [List.getD_eq_getElem _ _ hlt]
    simp [bitsOf, BitVec.getMsbD_eq_getLsbD, hi, h, show w - 1 - i < 8 by omega,
      show 7 - (w - 1 - i) = i - (w - 8) by omega, show i - (w - 8) < w by omega]

/-- **A byte is its eight bits.** -/
theorem byte_eq_bits (hw : 8 ≤ w) (poly s : BitVec w) (x : Byte) :
    byte poly s x = (bitsOf x).foldl (bit poly) s := by
  have hlen : (bitsOf x).length = 8 := by simp [bitsOf]
  rw [foldl_bit poly _ s (by omega), hlen, high_bitsOf hw, byte]

/-- **A message is its bits.** -/
theorem remainder_eq_bits (hw : 8 ≤ w) (poly : BitVec w) (msg : List Byte) :
    remainder poly msg = remainderBits poly (msg.flatMap bitsOf) := by
  have hfun : byte poly = fun s x => (bitsOf x).foldl (bit poly) s := by
    funext s x
    exact byte_eq_bits hw poly s x
  rw [remainder, remainderBits, List.foldl_flatMap, hfun]

/-! ### Messages of a fixed length -/

@[simp] lemma length_bitsOf {n : ℕ} (x : BitVec n) : (bitsOf x).length = n := by simp [bitsOf]

lemma bitsOf_append {n m : ℕ} (x : BitVec n) (y : BitVec m) :
    bitsOf (x ++ y) = bitsOf x ++ bitsOf y := by
  refine List.ext_getElem (by simp) fun i h₁ h₂ => ?_
  simp only [bitsOf, List.getElem_map, List.getElem_range, BitVec.getMsbD_append,
    List.getElem_append, List.length_map, List.length_range]
  split <;> split <;> first | rfl | omega

lemma bitsOf_xor {n : ℕ} (x y : BitVec n) :
    bitsOf (x ^^^ y) = List.zipWith Bool.xor (bitsOf x) (bitsOf y) := by
  refine List.ext_getElem (by simp) fun i h₁ h₂ => ?_
  simp [bitsOf]

lemma bit_xor (poly s t : BitVec w) (a b : Bool) :
    bit poly (s ^^^ t) (a ^^ b) = bit poly s a ^^^ bit poly t b := by
  unfold bit
  rw [← shift_xor]
  congr 1
  have hbits : (if a ^^ b then BitVec.twoPow w (w - 1) else 0) =
      (if a then BitVec.twoPow w (w - 1) else 0) ^^^ if b then BitVec.twoPow w (w - 1) else 0 := by
    cases a <;> cases b <;> simp
  rw [hbits]
  ac_rfl

lemma foldl_bit_xor (poly : BitVec w) : ∀ (l l' : List Bool) (s t : BitVec w),
    l.length = l'.length → (List.zipWith Bool.xor l l').foldl (bit poly) (s ^^^ t) =
      l.foldl (bit poly) s ^^^ l'.foldl (bit poly) t := by
  intro l
  induction l with
  | nil =>
    intro l' s t hlen
    obtain rfl := List.eq_nil_of_length_eq_zero hlen.symm
    rfl
  | cons a l ih =>
    intro l' s t hlen
    cases l' with
    | nil => cases hlen
    | cons b l' =>
      rw [List.zipWith_cons_cons, List.foldl_cons, List.foldl_cons, List.foldl_cons, bit_xor]
      exact ih l' _ _ (Nat.succ.inj hlen)

/-- The remainder of messages of one length respects the exclusive or. -/
theorem xorHom_remainderBits {n : ℕ} (poly : BitVec w) :
    XorHom fun x : BitVec n => remainderBits poly (bitsOf x) := by
  intro a b
  have h := foldl_bit_xor poly (bitsOf a) (bitsOf b) 0 0 (by simp)
  rw [BitVec.xor_self, ← bitsOf_xor] at h
  exact h

end Cheshire.Lib.Crc
