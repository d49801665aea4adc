import Cheshire.Lib.Crc
import Mathlib

/-!
What a cyclic redundancy check computes: the bits of a message are the coefficients of a polynomial
over the field of two elements, and the remainder is the one of its product with `X ^ w`.
-/

namespace Cheshire.Lib.Crc

open Polynomial

variable {w : ℕ}

/-- The coefficient of a bit. -/
def coeffOf (b : Bool) : ZMod 2 := if b then 1 else 0

/-- The polynomial whose coefficients are given, the highest first. -/
noncomputable def ofBits (l : List Bool) : (ZMod 2)[X] :=
  l.foldl (fun p b => X * p + C (coeffOf b)) 0

/-- The polynomial of a bit vector. -/
noncomputable def ofVec (s : BitVec w) : (ZMod 2)[X] :=
  ∑ i ∈ Finset.range w, C (coeffOf (s.getLsbD i)) * X ^ i

/-- The divisor: `poly` is what it has below `X ^ w`. -/
noncomputable def divisor (poly : BitVec w) : (ZMod 2)[X] := X ^ w + ofVec poly

lemma coeff_ofVec (s : BitVec w) (n : ℕ) : (ofVec s).coeff n = coeffOf (s.getLsbD n) := by
  rw [ofVec, finsetSum_coeff]
  simp only [coeff_C_mul_X_pow]
  rw [Finset.sum_ite_eq]
  by_cases hn : n < w
  · rw [if_pos (Finset.mem_range.mpr hn)]
  · rw [if_neg fun h => hn (Finset.mem_range.mp h), BitVec.getLsbD_of_ge _ _ (Nat.not_lt.mp hn)]
    rfl

lemma degree_ofVec_lt (s : BitVec w) : (ofVec s).degree < w := by
  rw [degree_lt_iff_coeff_zero]
  intro m hm
  rw [coeff_ofVec, BitVec.getLsbD_of_ge _ _ hm]
  rfl

lemma monic_divisor (poly : BitVec w) : (divisor poly).Monic := monic_X_pow_add (degree_ofVec_lt poly)

lemma degree_divisor (poly : BitVec w) : (divisor poly).degree = w := by
  rw [divisor, degree_add_eq_left_of_degree_lt, degree_X_pow]
  rw [degree_X_pow]
  exact degree_ofVec_lt poly

lemma ofVec_xor (s t : BitVec w) : ofVec (s ^^^ t) = ofVec s + ofVec t := by
  ext n
  rw [coeff_add, coeff_ofVec, coeff_ofVec, coeff_ofVec, BitVec.getLsbD_xor]
  cases s.getLsbD n <;> cases t.getLsbD n <;> decide

/-- A bit at the high end. -/
lemma ofVec_top (hw : 0 < w) (b : Bool) :
    ofVec (if b then BitVec.twoPow w (w - 1) else 0) = C (coeffOf b) * X ^ (w - 1) := by
  ext n
  rw [coeff_ofVec, coeff_C_mul, coeff_X_pow]
  cases b
  · simp [coeffOf]
  · rw [if_pos rfl, BitVec.getLsbD_twoPow]
    by_cases hn : n = w - 1
    · subst hn
      simp [coeffOf, hw]
    · simp [coeffOf, hn, show ¬ w - 1 = n from fun h => hn h.symm]

/-- **A shift** multiplies by `X`, and takes the divisor away when there is something to take it
from. -/
theorem ofVec_shift (hw : 0 < w) (poly s : BitVec w) :
    ofVec (shift poly s) = X * ofVec s + C (coeffOf s.msb) * divisor poly := by
  have hleft : ofVec (s <<< 1) = X * ofVec s + C (coeffOf s.msb) * X ^ w := by
    ext n
    rw [coeff_ofVec, coeff_add, coeff_C_mul, coeff_X_pow, BitVec.getLsbD_shiftLeft,
      BitVec.msb_eq_getLsbD_last]
    cases n with
    | zero => simp [coeffOf, show ¬ 0 = w by omega]
    | succ n =>
      rw [coeff_X_mul, coeff_ofVec]
      by_cases hn : n + 1 = w
      · subst hn
        -- the bit that is shifted out
        rw [if_pos rfl, Nat.add_sub_cancel]
        cases s.getLsbD n <;> simp [coeffOf, CharTwo.add_self_eq_zero]
      · rw [if_neg hn]
        by_cases hlt : n + 1 < w
        · simp [hlt]
        · simp [hlt, BitVec.getLsbD_of_ge s n (by omega), coeffOf]
  unfold shift divisor
  cases hmsb : s.msb
  · rw [if_neg Bool.false_ne_true, hleft, hmsb]
    simp [coeffOf]
  · rw [if_pos rfl, ofVec_xor, hleft, hmsb]
    simp only [coeffOf, if_true, C_1, one_mul, add_assoc]

lemma ofVec_bit (hw : 0 < w) (poly s : BitVec w) (b : Bool) : ∃ c, ofVec (bit poly s b) =
    X * ofVec s + C (coeffOf b) * X ^ w + c * divisor poly := by
  have hpow : X * X ^ (w - 1) = (X ^ w : (ZMod 2)[X]) := by
    rw [← pow_succ']
    congr 1
    omega
  have hshift := ofVec_shift hw poly (s ^^^ if b then BitVec.twoPow w (w - 1) else 0)
  rw [ofVec_xor, ofVec_top hw, mul_add, mul_left_comm, hpow] at hshift
  exact ⟨_, hshift⟩

lemma ofBits_concat (l : List Bool) (b : Bool) :
    ofBits (l ++ [b]) = X * ofBits l + C (coeffOf b) := by
  simp [ofBits]

/-- **The remainder, as a polynomial.** -/
theorem ofVec_remainderBits (hw : 0 < w) (poly : BitVec w) (msg : List Bool) :
    ofVec (remainderBits poly msg) = (ofBits msg * X ^ w) %ₘ divisor poly := by
  suffices h : ∃ q, ofVec (remainderBits poly msg) + divisor poly * q = ofBits msg * X ^ w by
    obtain ⟨q, hq⟩ := h
    refine (div_modByMonic_unique q _ (monic_divisor poly) ⟨hq, ?_⟩).2.symm
    rw [degree_divisor]
    exact degree_ofVec_lt _
  induction msg using List.reverseRecOn with
  | nil =>
    refine ⟨0, ?_⟩
    have hzero : ofVec (0 : BitVec w) = 0 := by
      simp [ofVec, coeffOf]
    rw [remainderBits, ofBits, List.foldl_nil, List.foldl_nil, hzero, mul_zero, zero_mul, add_zero]
  | append_singleton msg b ih =>
    obtain ⟨q, hq⟩ := ih
    obtain ⟨c, hc⟩ := ofVec_bit hw poly (remainderBits poly msg) b
    have hstep : remainderBits poly (msg ++ [b]) = bit poly (remainderBits poly msg) b := by
      simp [remainderBits]
    refine ⟨X * q + c, ?_⟩
    have htwo : c * divisor poly + c * divisor poly = 0 := CharTwo.add_self_eq_zero _
    calc ofVec (remainderBits poly (msg ++ [b])) + divisor poly * (X * q + c)
        = X * (ofVec (remainderBits poly msg) + divisor poly * q) + C (coeffOf b) * X ^ w +
            (c * divisor poly + c * divisor poly) := by
          rw [hstep, hc]
          ring
      _ = (X * ofBits msg + C (coeffOf b)) * X ^ w := by
          rw [htwo, hq]
          ring
      _ = ofBits (msg ++ [b]) * X ^ w := by rw [ofBits_concat]

end Cheshire.Lib.Crc
