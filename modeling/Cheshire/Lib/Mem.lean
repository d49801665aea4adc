import Cheshire.Lib.Bytes
import Mathlib.Data.List.GetD

/-!
Byte memories over `w`-bit addresses: reading and writing a run of bytes, what a write leaves
alone, and how two writes side by side make one.  Addresses wrap at the top of the memory.
-/

namespace Cheshire.Lib

/-- A byte memory over `w`-bit addresses. -/
abbrev Mem (w : ℕ) := BitVec w → Byte

namespace Mem

variable {w : ℕ}

/-- The `n` bytes from an address on. -/
def slice (m : Mem w) (a : BitVec w) (n : ℕ) : List Byte :=
  (List.range n).map fun i => m (a + BitVec.ofNat w i)

/-- The memory after the bytes `bs` are stored from the address `a` on. -/
def write (m : Mem w) (a : BitVec w) (bs : List Byte) : Mem w :=
  fun x => bs.getD (x - a).toNat (m x)

/-- The address is none of the `n` from `a` on. -/
def Outside (a : BitVec w) (n : ℕ) (x : BitVec w) : Prop := n ≤ (x - a).toNat

instance (a : BitVec w) (n : ℕ) (x : BitVec w) : Decidable (Outside a n x) := by
  unfold Outside; infer_instance

/-! ### Reading -/

@[simp] lemma length_slice (m : Mem w) (a : BitVec w) (n : ℕ) : (m.slice a n).length = n := by
  simp [slice]

@[simp] lemma slice_zero (m : Mem w) (a : BitVec w) : m.slice a 0 = [] := rfl

@[simp] lemma getElem_slice (m : Mem w) (a : BitVec w) (n : ℕ) {i : ℕ}
    (h : i < (m.slice a n).length) : (m.slice a n)[i] = m (a + BitVec.ofNat w i) := by
  simp [slice]

lemma getD_slice (m : Mem w) (a : BitVec w) {n i : ℕ} (h : i < n) (d : Byte) :
    (m.slice a n).getD i d = m (a + BitVec.ofNat w i) := by
  rw [List.getD_eq_getElem _ _ (by simpa using h), getElem_slice]

theorem slice_append (m : Mem w) (a : BitVec w) (n k : ℕ) :
    m.slice a (n + k) = m.slice a n ++ m.slice (a + BitVec.ofNat w n) k := by
  unfold slice
  rw [List.range_add, List.map_append, List.map_map]
  refine congrArg _ (List.map_congr_left fun i _ => ?_)
  simp only [Function.comp]
  rw [BitVec.ofNat_add, BitVec.add_assoc]

theorem slice_one (m : Mem w) (a : BitVec w) : m.slice a 1 = [m a] := by
  simp [slice, List.range_succ]

theorem slice_succ (m : Mem w) (a : BitVec w) (n : ℕ) :
    m.slice a (n + 1) = m a :: m.slice (a + 1) n := by
  rw [Nat.add_comm, slice_append, slice_one]
  rfl

theorem slice_const (b : Byte) (a : BitVec w) (n : ℕ) :
    slice (fun _ => b) a n = List.replicate n b := by
  unfold slice
  rw [List.map_const', List.length_range]

/-! ### Offsets -/

/-- How far an address is past another one, `n` bytes later. -/
theorem toNat_sub_add (x a : BitVec w) {n : ℕ} (hn : n < 2 ^ w) :
    (x - (a + BitVec.ofNat w n)).toNat =
      if n ≤ (x - a).toNat then (x - a).toNat - n else (x - a).toNat + 2 ^ w - n := by
  rw [← BitVec.sub_sub, BitVec.toNat_sub, BitVec.toNat_ofNat, Nat.mod_eq_of_lt hn]
  have hk := (x - a).isLt
  generalize (x - a).toNat = k at hk ⊢
  split
  · rw [show 2 ^ w - n + k = (k - n) + 2 ^ w by omega, Nat.add_mod_right,
      Nat.mod_eq_of_lt (by omega)]
  · rw [Nat.mod_eq_of_lt (by omega)]
    omega

/-- The offset of a byte of a run from the start of the run. -/
theorem toNat_add_sub_self (a : BitVec w) {i : ℕ} (hi : i < 2 ^ w) :
    (a + BitVec.ofNat w i - a).toNat = i := by
  rw [BitVec.add_comm, BitVec.add_sub_cancel, BitVec.toNat_ofNat, Nat.mod_eq_of_lt hi]

theorem add_toNat_sub (a x : BitVec w) : a + BitVec.ofNat w (x - a).toNat = x := by
  rw [BitVec.ofNat_toNat, BitVec.setWidth_eq, BitVec.add_comm, BitVec.sub_add_cancel]

/-! ### Writing -/

@[simp] lemma write_nil (m : Mem w) (a : BitVec w) : m.write a [] = m := rfl

/-- A single byte. -/
lemma write_singleton (m : Mem w) (a : BitVec w) (b : Byte) :
    m.write a [b] = fun x => if x = a then b else m x := by
  funext x
  unfold write
  split
  · next h =>
    rw [h, BitVec.sub_self]
    rfl
  · next h =>
    refine List.getD_eq_default _ _ (Nat.one_le_iff_ne_zero.mpr fun h0 => h ?_)
    have hx := add_toNat_sub a x
    rw [h0, BitVec.add_zero] at hx
    exact hx.symm

/-- At its address a write stores its first byte. -/
lemma write_head (m : Mem w) (a : BitVec w) {b : Byte} {bs : List Byte} (h : bs.head? = some b) :
    m.write a bs a = b := by
  unfold write
  rw [BitVec.sub_self]
  cases bs with
  | nil => cases h
  | cons c bs => exact Option.some.inj h

lemma write_const (b : Byte) (a : BitVec w) (n : ℕ) :
    write (fun _ => b) a (List.replicate n b) = fun _ => b := by
  funext x
  rw [write, List.getD_eq_getElem?_getD, List.getElem?_getD_replicate_default_eq]

theorem write_apply (m : Mem w) (a : BitVec w) {bs : List Byte} {i : ℕ} (hi : i < bs.length)
    (hw : i < 2 ^ w) : m.write a bs (a + BitVec.ofNat w i) = bs[i] := by
  unfold write
  rw [toNat_add_sub_self a hw, List.getD_eq_getElem _ _ hi]

theorem write_outside (m : Mem w) {a x : BitVec w} {bs : List Byte}
    (h : Outside a bs.length x) : m.write a bs x = m x :=
  List.getD_eq_default _ _ h

/-- What a write stores somewhere depends only on what was there. -/
theorem write_congr {m m' : Mem w} {x : BitVec w} (h : m x = m' x) (a : BitVec w) (bs : List Byte) :
    m.write a bs x = m'.write a bs x := by
  unfold write
  rw [h]

/-- What a write stores is the same in every memory. -/
theorem write_inside (m m' : Mem w) {a x : BitVec w} {bs : List Byte}
    (h : ¬ Outside a bs.length x) : m.write a bs x = m'.write a bs x := by
  have hlt : (x - a).toNat < bs.length := Nat.not_le.mp h
  unfold write
  rw [List.getD_eq_getElem _ _ hlt, List.getD_eq_getElem _ _ hlt]

/-- **Two writes side by side are one.** -/
theorem write_append (m : Mem w) (a : BitVec w) (bs cs : List Byte)
    (h : bs.length + cs.length ≤ 2 ^ w) :
    m.write a (bs ++ cs) = (m.write a bs).write (a + BitVec.ofNat w bs.length) cs := by
  rcases Nat.eq_zero_or_pos cs.length with hc | hc
  · rw [List.length_eq_zero_iff.mp hc, List.append_nil, write_nil]
  funext x
  unfold write
  rw [toNat_sub_add x a (by omega)]
  by_cases hk : bs.length ≤ (x - a).toNat
  · rw [if_pos hk, List.getD_append_right _ _ _ _ hk, List.getD_eq_default bs _ hk]
  · have hlt : (x - a).toNat < bs.length := by omega
    rw [if_neg hk, List.getD_append _ _ _ _ hlt, List.getD_eq_default cs _ (by omega),
      List.getD_eq_getElem _ _ hlt]

/-- What is written is read back. -/
theorem slice_write_self (m : Mem w) (a : BitVec w) (bs : List Byte) (h : bs.length ≤ 2 ^ w) :
    (m.write a bs).slice a bs.length = bs := by
  refine List.ext_getElem (by simp) fun i h₁ h₂ => ?_
  rw [getElem_slice, write_apply m a h₂ (by omega)]

/-- A part of what is written is read back. -/
theorem slice_write_part (m : Mem w) (a : BitVec w) (bs : List Byte) {i n : ℕ}
    (hi : i + n ≤ bs.length) (h : bs.length ≤ 2 ^ w) :
    (m.write a bs).slice (a + BitVec.ofNat w i) n = (bs.drop i).take n := by
  refine List.ext_getElem ?_ fun j h₁ h₂ => ?_
  · rw [length_slice, List.length_take, List.length_drop]
    omega
  · rw [length_slice] at h₁
    rw [getElem_slice, List.getElem_take, List.getElem_drop, BitVec.add_assoc, ← BitVec.ofNat_add,
      write_apply m a (by omega) (by omega)]

/-- Two memories that agree on a run read the same bytes there. -/
theorem slice_congr {m m' : Mem w} {a : BitVec w} {n : ℕ}
    (h : ∀ i < n, m (a + BitVec.ofNat w i) = m' (a + BitVec.ofNat w i)) :
    m.slice a n = m'.slice a n :=
  List.map_congr_left fun i hi => h i (List.mem_range.mp hi)

/-- **A memory is the result of a write** when it holds the bytes and agrees with the old one
everywhere else. -/
theorem eq_write_iff {m m' : Mem w} {a : BitVec w} {bs : List Byte} (hw : bs.length ≤ 2 ^ w) :
    m' = m.write a bs ↔
      (∀ i (h : i < bs.length), m' (a + BitVec.ofNat w i) = bs[i]) ∧
        ∀ x, Outside a bs.length x → m' x = m x := by
  constructor
  · rintro rfl
    exact ⟨fun i h => write_apply m a h (by omega), fun x hx => write_outside m hx⟩
  · rintro ⟨hin, hout⟩
    funext x
    by_cases hx : Outside a bs.length x
    · rw [hout x hx, write_outside m hx]
    · have hlt : (x - a).toNat < bs.length := by unfold Outside at hx; omega
      have := hin _ hlt
      rw [add_toNat_sub] at this
      rw [this, write, List.getD_eq_getElem _ _ hlt]

end Mem

end Cheshire.Lib
