import Mathlib.Tactic.Ring
import Mathlib.Tactic.Linarith

/-!
Bytes and numbers: the little-endian bytes of a number, the number of a list of bytes, and the
round trips between the two.
-/

namespace Cheshire.Lib

/-- A byte. -/
abbrev Byte := BitVec 8

/-- The number whose bytes, least significant first, are given. -/
def ofLe : List Byte → ℕ
  | [] => 0
  | b :: bs => b.toNat + 256 * ofLe bs

/-- The `n` low bytes of a number, least significant first. -/
def toLe : ℕ → ℕ → List Byte
  | 0, _ => []
  | n + 1, x => BitVec.ofNat 8 x :: toLe n (x / 256)

@[simp] lemma length_toLe (n x : ℕ) : (toLe n x).length = n := by
  induction n generalizing x with
  | zero => rfl
  | succ n ih => simp [toLe, ih]

theorem ofLe_toLe (n x : ℕ) : ofLe (toLe n x) = x % 256 ^ n := by
  induction n generalizing x with
  | zero => simp [toLe, ofLe, Nat.mod_one]
  | succ n ih =>
    rw [toLe, ofLe, ih, pow_succ', Nat.mod_mul, BitVec.toNat_ofNat]

theorem ofLe_toLe_of_lt {n x : ℕ} (h : x < 256 ^ n) : ofLe (toLe n x) = x := by
  rw [ofLe_toLe, Nat.mod_eq_of_lt h]

theorem ofLe_lt (l : List Byte) : ofLe l < 256 ^ l.length := by
  induction l with
  | nil => simp [ofLe]
  | cons b bs ih =>
    have hb : b.toNat < 256 := b.isLt
    rw [ofLe, List.length_cons, pow_succ]
    omega

theorem toLe_ofLe (l : List Byte) : toLe l.length (ofLe l) = l := by
  induction l with
  | nil => rfl
  | cons b bs ih =>
    have hb : b.toNat < 256 := b.isLt
    rw [List.length_cons, toLe, ofLe]
    congr 1
    · apply BitVec.eq_of_toNat_eq
      rw [BitVec.toNat_ofNat, Nat.add_mul_mod_self_left, Nat.mod_eq_of_lt hb]
    · rw [Nat.add_mul_div_left _ _ (by omega), Nat.div_eq_of_lt hb, Nat.zero_add, ih]

/-- Bytes are determined by their number. -/
theorem ofLe_inj {l l' : List Byte} (hlen : l.length = l'.length) (h : ofLe l = ofLe l') :
    l = l' := by
  rw [← toLe_ofLe l, hlen, h, toLe_ofLe]

theorem ofLe_append (l l' : List Byte) : ofLe (l ++ l') = ofLe l + 256 ^ l.length * ofLe l' := by
  induction l with
  | nil => simp [ofLe]
  | cons b bs ih =>
    rw [List.cons_append, ofLe, ofLe, ih, List.length_cons, pow_succ]
    ring

/-- The byte `i` of a number. -/
theorem getElem_toLe {n x i : ℕ} (h : i < (toLe n x).length) :
    (toLe n x)[i] = BitVec.ofNat 8 (x / 256 ^ i) := by
  induction n generalizing x i with
  | zero => simp [toLe] at h
  | succ n ih =>
    cases i with
    | zero => simp [toLe]
    | succ i =>
      simp only [toLe, List.getElem_cons_succ]
      rw [ih, Nat.div_div_eq_div_mul, pow_succ']

theorem take_toLe {k n : ℕ} (h : k ≤ n) (x : ℕ) : (toLe n x).take k = toLe k x := by
  refine List.ext_getElem (by simp [h]) fun i h₁ h₂ => ?_
  rw [List.getElem_take, getElem_toLe, getElem_toLe]

theorem drop_toLe (k n x : ℕ) : (toLe n x).drop k = toLe (n - k) (x / 256 ^ k) := by
  refine List.ext_getElem (by simp) fun i h₁ h₂ => ?_
  rw [List.getElem_drop, getElem_toLe, getElem_toLe, Nat.div_div_eq_div_mul, ← pow_add]

end Cheshire.Lib
