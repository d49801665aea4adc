import Cheshire.Lib.Mem
import Cheshire.Lib.Run

/-!
The C types of the boot software, and the checked call of `util.h`.
-/

namespace Cheshire.Sw

export Cheshire.Lib (Byte Mem)

/-- `uint64_t`, and a pointer of the 64-bit cores. -/
abbrev U64 := BitVec 64

/-- `uint32_t`. -/
abbrev U32 := BitVec 32

/-- The `int` a C function returns: `0` on success, an error code otherwise. -/
abbrev CInt := BitVec 32

/-- A C function that works on a state `S` and returns early through `CHECK_CALL` and
`CHECK_ASSERT`: the error it stops with is the code it returns. -/
abbrev CM (S α : Type) := EStateM CInt S α

/-- `CHECK_CALL`: a nonzero code is returned at once. -/
def checkCall {S : Type} (ret : CInt) : CM S Unit :=
  if ret ≠ 0 then throw ret else pure ()

/-- `CHECK_ASSERT`: an untrue condition returns its error code. -/
def checkAssert {S : Type} (ret : CInt) (cond : Prop) [Decidable cond] : CM S Unit :=
  if cond then pure () else throw ret

/-- `MIN`. -/
def cMin {w : ℕ} (a b : BitVec w) : BitVec w := if a ≤ b then a else b

lemma toNat_cMin {w : ℕ} (a b : BitVec w) : (cMin a b).toNat = min a.toNat b.toNat := by
  unfold cMin
  split <;> rename_i h <;> rw [BitVec.le_def] at h <;> omega

open Lib

variable {S : Type} {s : S}

@[simp] lemma returns_checkCall {ret : CInt} {Q : Unit → S → Prop} :
    Returns (checkCall ret) s Q ↔ ret = 0 ∧ Q () s := by
  unfold checkCall
  by_cases h : ret = 0
  · simp [h]
  · simp only [ne_eq, h, not_false_eq_true, if_true, false_and, iff_false]
    exact id

@[simp] lemma leaves_checkCall {ret : CInt} {Q : Unit → S → Prop} :
    Leaves (checkCall ret) s Q ↔ (ret = 0 → Q () s) := by
  unfold checkCall
  by_cases h : ret = 0
  · simp [h]
  · simp only [ne_eq, h, not_false_eq_true, if_true, false_implies, iff_true]
    trivial

@[simp] lemma returns_checkAssert {ret : CInt} {cond : Prop} [Decidable cond]
    {Q : Unit → S → Prop} : Returns (checkAssert ret cond) s Q ↔ cond ∧ Q () s := by
  unfold checkAssert
  by_cases h : cond
  · simp [h]
  · simp only [h, if_false, false_and, iff_false]
    exact id

end Cheshire.Sw
