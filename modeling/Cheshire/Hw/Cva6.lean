import Cheshire.Hw.MemMap

/-!
The region rules of the CVA6 cores (`gen_cva6_cfg` of `cheshire_pkg.sv`) against the flags of the
memory map.
-/

namespace Cheshire.Hw.Cva6

/-- A list of region rules: bases and lengths are packed arrays, written highest index first. -/
structure RegionRules where
  nr : ℕ
  addrBase : List Doub
  length : List Doub

/-- The rule `k` of a list. -/
def RegionRules.rule (rs : RegionRules) (k : ℕ) : Doub × Doub :=
  (rs.addrBase.reverse.getD k 0, rs.length.reverse.getD k 0)

/-- Some rule covers the address; base plus length is not cut. -/
def RegionRules.covers (rs : RegionRules) (a : Doub) : Bool :=
  (List.range rs.nr).any fun k =>
    decide ((rs.rule k).1.toNat ≤ a.toNat ∧ a.toNat < (rs.rule k).1.toNat + (rs.rule k).2.toNat)

/-- The region rules of `cva6_cfg_t`. -/
structure Cva6Cfg where
  nonIdempotent : RegionRules
  execute : RegionRules
  cached : RegionRules

variable (cfg : CheshireCfg)

def sizeLlcOut : Doub := cfg.llcOutRegionEnd - cfg.llcOutRegionStart

def cieBase : Doub :=
  if cfg.cva6ExtCieOnTop then 0x8000_0000 - cfg.cva6ExtCieLength else 0x2000_0000

def noCieBase : Doub :=
  if cfg.cva6ExtCieOnTop then 0x2000_0000 else 0x2000_0000 + cfg.cva6ExtCieLength

/-- `gen_cva6_cfg`. -/
def genCva6Cfg : Cva6Cfg where
  -- Periphs, ExtNonCIE
  nonIdempotent :=
    ⟨2, [0x0000_0000, noCieBase cfg], [0x1000_0000, 0x6000_0000 - cfg.cva6ExtCieLength]⟩
  -- Debug, Bootrom, AllSPM, LLCOut, ExtCIE
  execute :=
    ⟨5, [amDbg, amBrom, amSpm, cfg.llcOutRegionStart, cieBase cfg],
      [0x40000, 0x40000, 2 * sizeSpm cfg, sizeLlcOut cfg, cfg.cva6ExtCieLength]⟩
  -- CachedSPM, LLCOut, ExtCIE
  cached :=
    ⟨3, [amSpm, cfg.llcOutRegionStart, cieBase cfg],
      [sizeSpm cfg, sizeLlcOut cfg, cfg.cva6ExtCieLength]⟩

/-- The attributes CVA6 derives from its region rules. -/
def attributes (a : Doub) : Flags :=
  ⟨(genCva6Cfg cfg).cached.covers a, !(genCva6Cfg cfg).nonIdempotent.covers a,
    (genCva6Cfg cfg).execute.covers a⟩

/-- The regions of the memory map, internal and external. -/
inductive Region where
  | dev (d : Device)
  | extCie
  | extNonCie
  | llcOut
  | slink
  deriving DecidableEq

/-- The window of a region; of the two SPM windows, the part that is mapped. -/
def Region.Holds (a : ℕ) : Region → Prop
  | .dev .spmCached => InWindow 0x1000_0000 (0x1000_0000 + (sizeSpm cfg).toNat) a
  | .dev .spmUncached => InWindow 0x1400_0000 (0x1400_0000 + (sizeSpm cfg).toNat) a
  | .dev d => InWindow d.start (d.start + d.size) a
  | .extCie =>
    if cfg.cva6ExtCieOnTop then
      InWindow (0x8000_0000 - cfg.cva6ExtCieLength.toNat) 0x8000_0000 a
    else InWindow 0x2000_0000 (0x2000_0000 + cfg.cva6ExtCieLength.toNat) a
  | .extNonCie =>
    if cfg.cva6ExtCieOnTop then
      InWindow 0x2000_0000 (0x8000_0000 - cfg.cva6ExtCieLength.toNat) a
    else InWindow (0x2000_0000 + cfg.cva6ExtCieLength.toNat) 0x8000_0000 a
  | .llcOut => InWindow cfg.llcOutRegionStart.toNat cfg.llcOutRegionEnd.toNat a
  | .slink => InWindow cfg.slinkRegionStart.toNat cfg.slinkRegionEnd.toNat a

/-- The documented flags of a region. -/
def Region.flags : Region → Flags
  | .dev d => d.flags
  | .extCie => ⟨true, true, true⟩
  | .extNonCie => ⟨false, false, false⟩
  | .llcOut => ⟨true, true, true⟩
  | .slink => ⟨false, false, false⟩

/-- What the memory map asks of a configuration: the SPM fits its window (`spm`), the CIE part of the
external region fits the region (`cie`), the LLC-out region does not end before it starts (`llc`),
and it and the serial link's region lie above the external one and apart from each other. -/
structure CfgOk : Prop where
  spm : (sizeSpm cfg).toNat ≤ 0x400_0000
  cie : cfg.cva6ExtCieLength.toNat ≤ 0x6000_0000
  llc : cfg.llcOutRegionStart.toNat ≤ cfg.llcOutRegionEnd.toNat
  llcAbove : ∀ a, Region.Holds cfg a .llcOut → 0x8000_0000 ≤ a
  slinkAbove : ∀ a, Region.Holds cfg a .slink → 0x8000_0000 ≤ a
  disjoint : ∀ a, Region.Holds cfg a .llcOut → ¬ Region.Holds cfg a .slink

/-! ### The rules, on numbers -/

section Rules

variable {cfg} (h : CfgOk cfg)
include h

lemma toNat_cieBase : (cieBase cfg).toNat =
    if cfg.cva6ExtCieOnTop then 0x8000_0000 - cfg.cva6ExtCieLength.toNat else 0x2000_0000 := by
  have := h.cie
  unfold cieBase
  split
  · bv_omega
  · decide

lemma toNat_noCieBase : (noCieBase cfg).toNat =
    if cfg.cva6ExtCieOnTop then 0x2000_0000 else 0x2000_0000 + cfg.cva6ExtCieLength.toNat := by
  have := h.cie
  unfold noCieBase
  split
  · decide
  · bv_omega

lemma toNat_sizeLlcOut : (sizeLlcOut cfg).toNat =
    cfg.llcOutRegionEnd.toNat - cfg.llcOutRegionStart.toNat := by
  have := h.llc
  unfold sizeLlcOut
  rw [BitVec.toNat_sub]
  omega

theorem nonIdempotent_iff (a : Doub) : (genCva6Cfg cfg).nonIdempotent.covers a = true ↔
    a.toNat < 0x1000_0000 ∨ Region.Holds cfg a.toNat .extNonCie := by
  have hlen : (0x6000_0000 - cfg.cva6ExtCieLength).toNat =
      0x6000_0000 - cfg.cva6ExtCieLength.toNat := by
    have := h.cie
    bv_omega
  have := h.cie
  have h₀ : (0x0000_0000 : Doub).toNat = 0 := by decide
  have h₁ : (0x1000_0000 : Doub).toNat = 0x1000_0000 := by decide
  simp only [RegionRules.covers, RegionRules.rule, genCva6Cfg, List.range_succ, List.range_zero,
    List.nil_append, List.cons_append, List.any_cons, List.any_nil, Bool.or_false,
    Bool.or_eq_true, decide_eq_true_eq, List.reverse_cons, List.reverse_nil, List.getD_cons_zero,
    List.getD_cons_succ, toNat_noCieBase h, hlen, h₀, h₁, Region.Holds, InWindow]
  split <;> omega

theorem cached_iff (a : Doub) : (genCva6Cfg cfg).cached.covers a = true ↔
    Region.Holds cfg a.toNat (.dev .spmCached) ∨ Region.Holds cfg a.toNat .llcOut ∨
      Region.Holds cfg a.toNat .extCie := by
  have := h.cie
  have := h.llc
  have hspm : amSpm.toNat = 0x1000_0000 := by decide
  simp only [RegionRules.covers, RegionRules.rule, genCva6Cfg, List.range_succ, List.range_zero,
    List.nil_append, List.cons_append, List.any_cons, List.any_nil, Bool.or_false,
    Bool.or_eq_true, decide_eq_true_eq, List.reverse_cons, List.reverse_nil, List.getD_cons_zero,
    List.getD_cons_succ, toNat_cieBase h, toNat_sizeLlcOut h, hspm, Region.Holds, InWindow]
  split <;> omega

theorem execute_iff (a : Doub) : (genCva6Cfg cfg).execute.covers a = true ↔
    Region.Holds cfg a.toNat (.dev .debugRom) ∨ Region.Holds cfg a.toNat (.dev .bootrom) ∨
      InWindow 0x1000_0000 (0x1000_0000 + 2 * (sizeSpm cfg).toNat) a.toNat ∨
      Region.Holds cfg a.toNat .llcOut ∨ Region.Holds cfg a.toNat .extCie := by
  have := h.cie
  have := h.llc
  have hspm : amSpm.toNat = 0x1000_0000 := by decide
  have hdbg : amDbg.toNat = 0 := by decide
  have hbrom : amBrom.toNat = 0x0200_0000 := by decide
  have h₁ : (0x40000 : Doub).toNat = 0x40000 := by decide
  have hsize : (2 * sizeSpm cfg).toNat = 2 * (sizeSpm cfg).toNat := by
    have := h.spm
    bv_omega
  simp only [RegionRules.covers, RegionRules.rule, genCva6Cfg, List.range_succ, List.range_zero,
    List.nil_append, List.cons_append, List.any_cons, List.any_nil, Bool.or_false,
    Bool.or_eq_true, decide_eq_true_eq, List.reverse_cons, List.reverse_nil, List.getD_cons_zero,
    List.getD_cons_succ, toNat_cieBase h, toNat_sizeLlcOut h, hspm, hdbg, hbrom, hsize,
    h₁, Region.Holds, InWindow, Device.start, Device.size]
  split <;> omega

/-- The attributes, flag by flag. -/
theorem attributes_eq_iff (a : Doub) (f : Flags) : attributes cfg a = f ↔
    (f.c = true ↔ Region.Holds cfg a.toNat (.dev .spmCached) ∨ Region.Holds cfg a.toNat .llcOut ∨
      Region.Holds cfg a.toNat .extCie) ∧
    (f.i = true ↔ ¬ (a.toNat < 0x1000_0000 ∨ Region.Holds cfg a.toNat .extNonCie)) ∧
    (f.e = true ↔ Region.Holds cfg a.toNat (.dev .debugRom) ∨
      Region.Holds cfg a.toNat (.dev .bootrom) ∨
      InWindow 0x1000_0000 (0x1000_0000 + 2 * (sizeSpm cfg).toNat) a.toNat ∨
      Region.Holds cfg a.toNat .llcOut ∨ Region.Holds cfg a.toNat .extCie) := by
  obtain ⟨c, i, e⟩ := f
  rw [← cached_iff h, ← nonIdempotent_iff h, ← execute_iff h, attributes, Flags.mk.injEq]
  simp only [Bool.not_eq_true]
  refine and_congr ?_ (and_congr ?_ ?_)
  · cases c <;> simp
  · cases i <;> simp
  · cases e <;> simp

/-- An address below the external on-chip region lies in no external region. -/
lemma not_external_of_lt {a : ℕ} (ha : a < 0x2000_0000) :
    ¬ Region.Holds cfg a .llcOut ∧ ¬ Region.Holds cfg a .extCie ∧
      ¬ Region.Holds cfg a .extNonCie := by
  have hc := h.cie
  have hl := h.llcAbove a
  refine ⟨fun hh => absurd (hl hh) (by omega), ?_, ?_⟩ <;>
  · simp only [Region.Holds, InWindow]
    split <;> omega

/-- The rows of the memory map, the uncached SPM apart, have their documented attributes. -/
theorem attributes_dev {d : Device} {a : Doub} (hd : d ≠ .spmUncached)
    (ha : Region.Holds cfg a.toNat (.dev d)) : attributes cfg a = d.flags := by
  have hspm := h.spm
  have hlt : a.toNat < 0x2000_0000 := by
    cases d <;> simp only [Region.Holds, InWindow, Device.start, Device.size] at ha <;> omega
  obtain ⟨h1, h2, h3⟩ := not_external_of_lt h hlt
  rw [attributes_eq_iff h]
  simp only [h1, h2, h3, or_false]
  cases d <;> simp only [Region.Holds, InWindow, Device.start, Device.size, Device.flags,
    ne_eq, not_true_eq_false, Bool.false_eq_true, true_iff, false_iff] at ha hd ⊢ <;> omega

/-- **The attributes are the documented flags** everywhere but in the serial link region, and in
the part of the uncached SPM that the execute rule of the SPM does not reach. -/
theorem attributes_eq_flags_iff {r : Region} {a : Doub} (ha : r.Holds cfg a.toNat) :
    attributes cfg a = r.flags ↔
      r ≠ .slink ∧ (r = .dev .spmUncached → a.toNat < 0x1000_0000 + 2 * (sizeSpm cfg).toNat) := by
  have hcie := h.cie
  have hspm := h.spm
  rcases r with d | _ | _ | _ | _
  · by_cases hd : d = .spmUncached
    · subst hd
      have hw : 0x1400_0000 ≤ a.toNat ∧ a.toNat < 0x1400_0000 + (sizeSpm cfg).toNat := ha
      obtain ⟨h1, h2, h3⟩ := not_external_of_lt h (a := a.toNat) (by omega)
      rw [attributes_eq_iff h]
      simp only [h1, h2, h3, or_false, Region.flags, Device.flags, Bool.false_eq_true, false_iff,
        true_iff, ne_eq, reduceCtorEq, not_false_eq_true, forall_const, true_and]
      simp only [Region.Holds, InWindow, Device.start, Device.size]
      omega
    · simp [Region.flags, attributes_dev h hd ha, hd]
  · have hl := h.llcAbove a.toNat
    have hcn : ¬ Region.Holds cfg a.toNat .extNonCie ∧ 0x2000_0000 ≤ a.toNat := by
      simp only [Region.Holds, InWindow] at ha ⊢
      split at ha <;> simp_all
      omega
    rw [attributes_eq_iff h]
    simp only [ha, hcn.1, or_true, or_false, Region.flags, true_iff, ne_eq, reduceCtorEq,
      not_false_eq_true, false_implies, and_self, iff_true, and_true, true_and]
    omega
  · have hl : ¬ Region.Holds cfg a.toNat .llcOut := fun hh => by
      have := h.llcAbove a.toNat hh
      simp only [Region.Holds, InWindow] at ha
      split at ha <;> omega
    have hcn : ¬ Region.Holds cfg a.toNat .extCie ∧ 0x2000_0000 ≤ a.toNat := by
      simp only [Region.Holds, InWindow] at ha ⊢
      split at ha <;> simp_all <;> omega
    rw [attributes_eq_iff h]
    simp only [ha, hl, hcn.1, or_true, or_false, Region.flags, Bool.false_eq_true, false_iff,
      not_true_eq_false, ne_eq, reduceCtorEq, not_false_eq_true, false_implies, and_self, iff_true,
      true_and]
    simp only [Region.Holds, InWindow, Device.start, Device.size]
    omega
  · have hl := h.llcAbove a.toNat ha
    have hcn : ¬ Region.Holds cfg a.toNat .extNonCie := by
      simp only [Region.Holds, InWindow]
      split <;> omega
    rw [attributes_eq_iff h]
    simp only [ha, hcn, true_or, or_true, or_false, Region.flags, true_iff, ne_eq, reduceCtorEq,
      not_false_eq_true, false_implies, and_self, iff_true, and_true, true_and]
    omega
  · -- nothing makes the serial link non-idempotent
    have hl := h.slinkAbove a.toNat ha
    have hcn : ¬ Region.Holds cfg a.toNat .extNonCie := by
      simp only [Region.Holds, InWindow]
      split <;> omega
    rw [attributes_eq_iff h]
    simp only [hcn, or_false, Region.flags, Bool.false_eq_true, false_iff, not_not, ne_eq,
      not_true_eq_false, false_and, iff_false]
    omega

end Rules

/-- The default configuration is one the memory map allows. -/
theorem cfgOk_defaultCfg : CfgOk defaultCfg where
  spm := by decide
  cie := by decide
  llc := by decide
  llcAbove := fun _ ha => ha.1
  slinkAbove := fun _ ha => Nat.le_trans (by decide) ha.1
  disjoint := fun _ ha hs => absurd (Nat.lt_of_lt_of_le ha.2 hs.1) (Nat.lt_irrefl _)

/-- The first cached byte of the SPM has the documented attributes. -/
theorem attributes_amSpm : attributes defaultCfg 0x1000_0000 = ⟨true, true, true⟩ :=
  (attributes_eq_flags_iff cfgOk_defaultCfg (r := .dev .spmCached)
    ⟨by decide, by decide⟩).mpr ⟨by decide, by decide⟩

/-- In the default configuration the uncached SPM cannot be executed, and the serial link is
idempotent. -/
theorem attributes_ne_flags_defaultCfg :
    (Region.Holds defaultCfg 0x1400_0000 (.dev .spmUncached) ∧
      attributes defaultCfg 0x1400_0000 ≠ (Region.dev .spmUncached).flags) ∧
    Region.Holds defaultCfg 0x1_0000_0000 .slink ∧
      attributes defaultCfg 0x1_0000_0000 ≠ Region.slink.flags := by
  refine ⟨⟨⟨by decide, by decide⟩, by decide +kernel⟩, ⟨by decide, by decide⟩, by decide +kernel⟩

end Cheshire.Hw.Cva6
