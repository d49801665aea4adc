import Mathlib.Data.List.GetD
import Mathlib.Tactic.Common

/-!
Maps of bit vectors that respect the exclusive or.  Every bit of such a map is a parity: that of
some bits of the argument, which are found by trying the powers of two.
-/

namespace Cheshire.Lib

variable {n m : ℕ}

/-- The map respects the exclusive or. -/
def XorHom (f : BitVec n → BitVec m) : Prop := ∀ a b, f (a ^^^ b) = f a ^^^ f b

/-- The number of bits that are set is odd. -/
def parity (x : BitVec n) : Bool := (List.range n).foldl (fun p j => p ^^ x.getLsbD j) false

lemma XorHom.xor {f g : BitVec n → BitVec m} (hf : XorHom f) (hg : XorHom g) :
    XorHom fun x => f x ^^^ g x := by
  intro a b
  show f (a ^^^ b) ^^^ g (a ^^^ b) = f a ^^^ g a ^^^ (f b ^^^ g b)
  rw [hf, hg]
  ac_rfl

lemma XorHom.zero {f : BitVec n → BitVec m} (hf : XorHom f) : f 0 = 0 := by
  have h := hf 0 0
  rwa [BitVec.xor_self, BitVec.xor_self] at h

/-- One more bit of an argument. -/
lemma setWidth_succ (x : BitVec n) {k : ℕ} (hk : k < n) : (x.setWidth (k + 1)).setWidth n =
    (x.setWidth k).setWidth n ^^^ if x.getLsbD k then BitVec.twoPow n k else 0 := by
  refine BitVec.eq_of_getLsbD_eq fun i hi => ?_
  have hbit : (if x.getLsbD k then BitVec.twoPow n k else 0).getLsbD i =
      (x.getLsbD k && decide (k = i)) := by
    cases x.getLsbD k <;> simp [hi, eq_comm]
  rw [BitVec.getLsbD_xor, hbit]
  simp only [BitVec.getLsbD_setWidth, hi, decide_true, Bool.true_and]
  rcases Nat.lt_trichotomy i k with h | rfl | h
  · simp [h, show ¬ k = i by omega, show i < k + 1 by omega]
  · simp
  · simp [show ¬ i < k by omega, show ¬ k = i by omega, show ¬ i < k + 1 by omega]

/-- **A bit of the map is a parity.** -/
theorem XorHom.getLsbD {f : BitVec n → BitVec m} (hf : XorHom f) {i : ℕ} {mask : BitVec n}
    (h : ∀ j < n, (f (BitVec.twoPow n j)).getLsbD i = mask.getLsbD j) (x : BitVec n) :
    (f x).getLsbD i = parity (mask &&& x) := by
  have hlow : ∀ k ≤ n, (f ((x.setWidth k).setWidth n)).getLsbD i =
      (List.range k).foldl (fun p j => p ^^ (mask &&& x).getLsbD j) false := by
    intro k
    induction k with
    | zero =>
      intro _
      have h0 : (x.setWidth 0).setWidth n = 0 := by
        rw [BitVec.of_length_zero (x := x.setWidth 0)]
        exact BitVec.setWidth_zero n 0
      rw [h0, hf.zero]
      simp
    | succ k ih =>
      intro hk
      have hbit : (f (if x.getLsbD k then BitVec.twoPow n k else 0)).getLsbD i =
          (mask &&& x).getLsbD k := by
        rw [BitVec.getLsbD_and, ← h k hk]
        cases x.getLsbD k
        · rw [if_neg Bool.false_ne_true, hf.zero]
          simp
        · rw [if_pos rfl, Bool.and_true]
      rw [setWidth_succ x hk, hf, BitVec.getLsbD_xor, ih (Nat.le_of_succ_le hk), hbit,
        List.range_succ, List.foldl_append, List.foldl_cons, List.foldl_nil]
  have hall := hlow n (Nat.le_refl n)
  rwa [BitVec.setWidth_eq, BitVec.setWidth_eq] at hall

/-- **The map vanishes** where all its parities are even. -/
theorem XorHom.eq_zero_iff {f : BitVec n → BitVec m} (hf : XorHom f) {masks : List (BitVec n)}
    (hlen : masks.length = m) (h : ∀ i < m, ∀ j < n,
      (f (BitVec.twoPow n j)).getLsbD i = (masks.getD i 0).getLsbD j) (x : BitVec n) :
    f x = 0 ↔ ∀ mask ∈ masks, parity (mask &&& x) = false := by
  have hbit (i : ℕ) (hi : i < m) : (f x).getLsbD i = parity (masks.getD i 0 &&& x) :=
    hf.getLsbD (h i hi) x
  constructor
  · intro h0 mask hmask
    obtain ⟨i, hi, rfl⟩ := List.mem_iff_getElem.mp hmask
    rw [← List.getD_eq_getElem _ 0 hi, ← hbit i (hlen ▸ hi), h0]
    simp
  · intro hall
    refine BitVec.eq_of_getLsbD_eq fun i hi => ?_
    have hi' : i < masks.length := hlen ▸ hi
    rw [hbit i hi, List.getD_eq_getElem _ 0 hi', hall _ (List.getElem_mem hi')]
    simp

end Cheshire.Lib
