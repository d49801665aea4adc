import Cheshire.Hw.Cfg

/-!
The address remap in front of the LLC (`axi_llc_remap_req` of `cheshire_soc.sv`).

Its condition is written `addr & ~AmSpmRegionMask == AmSpmBaseUncached & ~AmSpmRegionMask`.  In
SystemVerilog `==` binds tighter than `&`, so the comparison is between the two constants, its
outcome is one bit, and the two `&` are taken around it.
-/

namespace Cheshire.Hw.LlcRemap

variable {w : ℕ}

/-- The addresses of a request on the two address channels. -/
structure LlcReq (w : ℕ) where
  aw : BitVec w
  ar : BitVec w

/-- The condition of the remap, evaluated at the width of its widest operand. -/
def remapCond (addr : BitVec w) : BitVec (max w 64) :=
  addr.setWidth (max w 64) &&&
    (BitVec.ofBool (~~~amSpmRegionMask == amSpmBaseUncached)).setWidth (max w 64) &&&
    (~~~amSpmRegionMask).setWidth (max w 64)

/-- The remap of one channel: an address for which the condition is not zero is replaced. -/
def remapAddr (addr : BitVec w) : BitVec w :=
  if remapCond addr ≠ 0 then
    (amSpm.setWidth (max w 64) ||| (amSpmRegionMask.setWidth (max w 64) &&&
      addr.setWidth (max w 64))).setWidth w
  else addr

/-- `axi_llc_remap_req`. -/
def axiLlcRemapReq (req : LlcReq w) : LlcReq w := ⟨remapAddr req.aw, remapAddr req.ar⟩

/-- The uncached window of the SPM. -/
def InUncached (addr : BitVec w) : Prop := 0x1400_0000 ≤ addr.toNat ∧ addr.toNat < 0x1800_0000

instance (addr : BitVec w) : Decidable (InUncached addr) := by unfold InUncached; infer_instance

/-- What the remap is for: the uncached window is cast onto the cached one, and every other address
is kept. -/
def castUncached (addr : BitVec w) : BitVec w :=
  if InUncached addr then BitVec.ofNat w (0x1000_0000 ||| (addr.toNat &&& 0x03FF_FFFF)) else addr

/-- Both channels are cast. -/
def Cast (req : LlcReq w) : Prop :=
  axiLlcRemapReq req = ⟨castUncached req.aw, castUncached req.ar⟩

theorem remapCond_eq_zero (addr : BitVec w) : remapCond addr = 0 := by
  have h : (~~~amSpmRegionMask == amSpmBaseUncached) = false := by decide
  unfold remapCond
  rw [h]
  simp

/-- **The remap does nothing**: its condition never holds. -/
theorem remapAddr_eq (addr : BitVec w) : remapAddr addr = addr := by
  unfold remapAddr
  rw [if_neg (not_not.mpr (remapCond_eq_zero addr))]

theorem axiLlcRemapReq_eq (req : LlcReq w) : axiLlcRemapReq req = req := by
  simp only [axiLlcRemapReq, remapAddr_eq]

/-- An address of the uncached window has to move. -/
theorem castUncached_eq_self_iff (addr : BitVec w) :
    castUncached addr = addr ↔ ¬ InUncached addr := by
  unfold castUncached
  by_cases h : InUncached addr
  · simp only [h, if_true, not_true_eq_false, iff_false]
    intro heq
    have hlt := congrArg BitVec.toNat heq
    have hor : (0x1000_0000 ||| (addr.toNat &&& 0x03FF_FFFF)) < 2 ^ 26 + 2 ^ 28 := by
      have hand : addr.toNat &&& 0x03FF_FFFF < 2 ^ 26 :=
        Nat.lt_of_le_of_lt Nat.and_le_right (by decide)
      have hsplit : 0x1000_0000 + (addr.toNat &&& 0x03FF_FFFF) =
          0x1000_0000 ||| (addr.toNat &&& 0x03FF_FFFF) := Nat.two_pow_add_eq_or_of_lt hand 4
      omega
    rw [BitVec.toNat_ofNat] at hlt
    have hmod := Nat.mod_le (0x1000_0000 ||| (addr.toNat &&& 0x03FF_FFFF)) (2 ^ w)
    unfold InUncached at h
    omega
  · simp [h]

/-- **The remap is right exactly off the uncached window**, and nowhere do the cached and the
uncached address of a byte of the SPM reach the LLC as one. -/
theorem cast_iff_and_not_alias (w : ℕ) (req : LlcReq w) (o : Doub) :
    (Cast req ↔ ¬ InUncached req.aw ∧ ¬ InUncached req.ar) ∧
      remapAddr (amSpm + o) ≠ remapAddr (amSpmBaseUncached + o) := by
  constructor
  · obtain ⟨aw, ar⟩ := req
    unfold Cast
    rw [axiLlcRemapReq_eq, LlcReq.mk.injEq, eq_comm, castUncached_eq_self_iff, eq_comm (a := ar),
      castUncached_eq_self_iff]
  · rw [remapAddr_eq, remapAddr_eq]
    intro h
    have := (BitVec.add_left_inj o).mp h
    revert this
    decide

/-- A read of the first uncached byte is not cast. -/
theorem not_cast_uncached_base : ¬ Cast (w := 48) ⟨0x1400_0000, 0x1400_0000⟩ := by
  intro h
  have := congrArg LlcReq.ar h
  revert this
  decide +kernel

end Cheshire.Hw.LlcRemap
