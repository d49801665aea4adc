import Cheshire.Hw.Cfg
import Mathlib.Tactic.Ring

/-!
The user signals of the internal managers (`cheshire_soc.sv`).  A slice of them tells the masters
of atomics apart: every core has an ID in it, counted up from an offset, and the other managers
drive a default.
-/

namespace Cheshire.Hw.AmoUser

/-! ### The signals -/

/-- `axi_user_t`. -/
abbrev User (cfg : CheshireCfg) := BitVec cfg.axiUserWidth.toNat

/-- The user signals that a manager drives. -/
structure Users (cfg : CheshireCfg) where
  aw : User cfg
  ar : User cfg
  w : User cfg

/-- The channels with such a signal. -/
inductive Channel where
  | aw | ar | w

/-- The managers that are no masters of atomics. -/
inductive Plain where
  | dbg | dma | vga

variable (cfg : CheshireCfg)

/-- The width of `[AxiUserAmoMsb:AxiUserAmoLsb]`. -/
def amoWidth : ℕ := cfg.axiUserAmoMsb.toNat + 1 - cfg.axiUserAmoLsb.toNat

variable {cfg}

def Users.on (u : Users cfg) : Channel → User cfg
  | .aw => u.aw
  | .ar => u.ar
  | .w => u.w

/-- `user[AxiUserAmoMsb:AxiUserAmoLsb]`. -/
def amoSlice (user : User cfg) : BitVec (amoWidth cfg) :=
  user.extractLsb' cfg.axiUserAmoLsb.toNat (amoWidth cfg)

/-- `user[AxiUserAmoMsb:AxiUserAmoLsb] = v`. -/
def setAmoSlice (user : User cfg) (v : BitVec (amoWidth cfg)) : User cfg :=
  user &&& ~~~((BitVec.allOnes (amoWidth cfg)).setWidth _ <<< cfg.axiUserAmoLsb.toNat) |||
    v.setWidth _ <<< cfg.axiUserAmoLsb.toNat

variable (cfg)

/-- `Cfg.AxiUserDefault`, as it is assigned. -/
def userDefault : User cfg := cfg.axiUserDefault.setWidth _

/-- `Cfg.CoreUserAmoOffs + i`, as it is assigned to the slice: the sum is as wide as the wider of
the two. -/
def coreId (i : ℕ) : BitVec (amoWidth cfg) :=
  (cfg.coreUserAmoOffs.setWidth (max 64 (amoWidth cfg)) + BitVec.ofNat _ i).setWidth _

/-- `core_ur_req` of the core `i`. -/
def coreUrReq (i : ℕ) : Users cfg where
  aw := setAmoSlice (userDefault cfg) (coreId cfg i)
  ar := setAmoSlice (userDefault cfg) (coreId cfg i)
  w := setAmoSlice (userDefault cfg) (coreId cfg i)

/-- `axi_in_req[AxiIn.dbg]`, `axi_in_req[AxiIn.dma]` and `axi_in_req[AxiIn.vga]`. -/
def axiInReq : Plain → Users cfg
  | .dbg => ⟨userDefault cfg, userDefault cfg, userDefault cfg⟩
  | .dma => ⟨userDefault cfg, userDefault cfg, userDefault cfg⟩
  | .vga => ⟨userDefault cfg, userDefault cfg, userDefault cfg⟩

/-- What atomics ask of the slice: the cores drive values of their own, which are not zero and not
those of the other managers. -/
structure AmoIdsOk : Prop where
  distinct : ∀ c, ∀ i < cfg.numCores.toNat, ∀ j < cfg.numCores.toNat, i ≠ j →
    amoSlice ((coreUrReq cfg i).on c) ≠ amoSlice ((coreUrReq cfg j).on c)
  nonzero : ∀ c, ∀ i < cfg.numCores.toNat, amoSlice ((coreUrReq cfg i).on c) ≠ 0
  apart : ∀ c, ∀ i < cfg.numCores.toNat, ∀ m,
    amoSlice ((coreUrReq cfg i).on c) ≠ amoSlice ((axiInReq cfg m).on c)

/-- The slice lies in the user signal and has a value for every core and one more. -/
structure SliceOk : Prop where
  order : cfg.axiUserAmoLsb.toNat ≤ cfg.axiUserAmoMsb.toNat
  covered : cfg.axiUserAmoMsb.toNat < cfg.axiUserWidth.toNat
  cores : cfg.numCores ≠ 0
  wide : cfg.numCores.toNat + 1 ≤ 2 ^ amoWidth cfg

/-- The configuration differs from the default one in its cores and its user signal only. -/
structure Derived : Prop where
  slice : SliceOk cfg
  rest : cfg = { defaultCfg with
    numCores := cfg.numCores
    axiUserWidth := cfg.axiUserWidth
    axiUserAmoMsb := cfg.axiUserAmoMsb
    axiUserAmoLsb := cfg.axiUserAmoLsb }

/-! ### The values on the slice -/

variable {cfg}

/-- What is assigned to the slice is read there. -/
lemma amoSlice_setAmoSlice (hs : SliceOk cfg) (user : User cfg) (v : BitVec (amoWidth cfg)) :
    amoSlice (setAmoSlice user v) = v := by
  have hcovered := hs.covered
  have horder := hs.order
  unfold amoSlice setAmoSlice
  refine BitVec.eq_of_getLsbD_eq fun k hk => ?_
  have hlow : ¬ cfg.axiUserAmoLsb.toNat + k < cfg.axiUserAmoLsb.toNat := by omega
  have hwidth : k < cfg.axiUserWidth.toNat ∧
      cfg.axiUserAmoLsb.toNat + k < cfg.axiUserWidth.toNat := by
    unfold amoWidth at hk
    omega
  simp only [BitVec.getLsbD_extractLsb', BitVec.getLsbD_or, BitVec.getLsbD_and, BitVec.getLsbD_not,
    BitVec.getLsbD_shiftLeft, BitVec.getLsbD_setWidth, BitVec.getLsbD_allOnes, hk, hlow, hwidth,
    Nat.add_sub_cancel_left, decide_true, decide_false, Bool.not_false, Bool.not_true, Bool.true_and,
    Bool.and_false, Bool.false_or]

/-- **The value of a core** is the offset and its number, cut to the slice. -/
lemma toNat_coreId (cfg : CheshireCfg) (i : ℕ) :
    (coreId cfg i).toNat = (cfg.coreUserAmoOffs.toNat + i) % 2 ^ amoWidth cfg := by
  have hmax : 2 ^ amoWidth cfg ∣ 2 ^ max 64 (amoWidth cfg) := Nat.pow_dvd_pow 2 (Nat.le_max_right _ _)
  have hlt : cfg.coreUserAmoOffs.toNat < 2 ^ max 64 (amoWidth cfg) :=
    Nat.lt_of_lt_of_le cfg.coreUserAmoOffs.isLt
      (Nat.pow_le_pow_right (by decide) (Nat.le_max_left _ _))
  unfold coreId
  rw [BitVec.toNat_setWidth, BitVec.toNat_add, BitVec.toNat_setWidth, BitVec.toNat_ofNat,
    Nat.mod_eq_of_lt hlt, Nat.add_mod_mod, Nat.mod_mod_of_dvd _ hmax]

/-- All three channels of a core show the same value. -/
lemma amoSlice_coreUrReq (hs : SliceOk cfg) (i : ℕ) (c : Channel) :
    amoSlice ((coreUrReq cfg i).on c) = coreId cfg i := by
  cases c <;> exact amoSlice_setAmoSlice hs _ _

/-- Every channel of the other managers shows the default. -/
lemma on_axiInReq (m : Plain) (c : Channel) : (axiInReq cfg m).on c = userDefault cfg := by
  cases m <;> cases c <;> rfl

/-- **A default of zero and an offset that leaves room**: the IDs are what they should be exactly
when the offset is not zero. -/
theorem amoIdsOk_iff (hs : SliceOk cfg) (hdefault : cfg.axiUserDefault = 0)
    (hroom : cfg.coreUserAmoOffs.toNat + cfg.numCores.toNat ≤ 2 ^ amoWidth cfg) :
    AmoIdsOk cfg ↔ cfg.coreUserAmoOffs ≠ 0 := by
  have hid : ∀ i < cfg.numCores.toNat,
      (coreId cfg i).toNat = cfg.coreUserAmoOffs.toNat + i := by
    intro i hi
    rw [toNat_coreId, Nat.mod_eq_of_lt (by omega)]
  have hplain : amoSlice (userDefault cfg) = 0 := by
    unfold amoSlice userDefault
    rw [hdefault]
    refine BitVec.eq_of_getLsbD_eq fun k hk => ?_
    simp
  constructor
  · -- the first core drives the offset itself
    intro h hzero
    have hpos : 0 < cfg.numCores.toNat :=
      Nat.pos_of_ne_zero fun h0 => hs.cores (BitVec.eq_of_toNat_eq h0)
    refine h.nonzero .aw 0 hpos ?_
    rw [amoSlice_coreUrReq hs]
    refine BitVec.eq_of_toNat_eq ?_
    rw [hid 0 hpos, hzero]
    rfl
  · intro hoffs
    have hne : cfg.coreUserAmoOffs.toNat ≠ 0 := fun h0 => hoffs (BitVec.eq_of_toNat_eq h0)
    have hnonzero : ∀ i < cfg.numCores.toNat, coreId cfg i ≠ 0 := by
      intro i hi h0
      have hval := hid i hi
      rw [h0] at hval
      exact hne (Nat.eq_zero_of_add_eq_zero_right hval.symm)
    refine ⟨fun c i hi j hj hij => ?_, fun c i hi => ?_, fun c i hi m => ?_⟩
    · rw [amoSlice_coreUrReq hs, amoSlice_coreUrReq hs]
      intro heq
      have hval := congrArg BitVec.toNat heq
      rw [hid i hi, hid j hj] at hval
      exact hij (Nat.add_left_cancel hval)
    · rw [amoSlice_coreUrReq hs]
      exact hnonzero i hi
    · rw [amoSlice_coreUrReq hs, on_axiInReq, hplain]
      exact hnonzero i hi

/-- **No configuration that keeps the default offset gives the cores proper IDs**: the first core
drives the value that stands for no atomics. -/
theorem not_amoIdsOk {cfg : CheshireCfg} (h : Derived cfg) : ¬ AmoIdsOk cfg := by
  have hoffs : cfg.coreUserAmoOffs = 0 := by rw [h.rest]; rfl
  have hdefault : cfg.axiUserDefault = 0 := by rw [h.rest]; rfl
  have hroom : cfg.coreUserAmoOffs.toNat + cfg.numCores.toNat ≤ 2 ^ amoWidth cfg := by
    have hwide := h.slice.wide
    rw [hoffs]
    exact Nat.le_trans (Nat.le_of_eq (Nat.zero_add _)) (Nat.le_of_succ_le hwide)
  rw [amoIdsOk_iff h.slice hdefault hroom]
  exact not_not.mpr hoffs

/-- Two cores on the two bits of the default configuration. -/
theorem not_amoIdsOk_twoCores : ¬ AmoIdsOk { defaultCfg with numCores := 2 } :=
  not_amoIdsOk ⟨⟨by decide, by decide, by decide, by decide⟩, rfl⟩

/-- In the default configuration the core drives what the debug module drives. -/
theorem not_amoIdsOk_defaultCfg : Derived defaultCfg ∧ ¬ AmoIdsOk defaultCfg := by
  refine ⟨⟨⟨by decide, by decide, by decide, by decide⟩, rfl⟩, fun h => ?_⟩
  exact h.apart .aw 0 (by decide) .dbg (by decide)

end Cheshire.Hw.AmoUser
