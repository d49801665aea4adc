import Cheshire.Hw.AxiOut

/-!
The ports of the crossbar: everything that hangs on it has a port of its own, and `num_out` counts
them.  The scratchpad has none: it is behind the LLC, at whose port it is reached.
-/

namespace Cheshire.Hw

/-- What hangs on the crossbar. -/
inductive AxiPort where
  | dbg | regDemux | llc | dma | slink
  | ext (m : ℕ)
  deriving DecidableEq

/-- The debug module, the reg demux, what is enabled, and the external slaves. -/
def AxiPort.Present (cfg : CheshireCfg) : AxiPort → Prop
  | .dbg | .regDemux => True
  | .llc => cfg.llcOutConnect = true
  | .dma => cfg.dma = true
  | .slink => cfg.serialLink = true
  | .ext m => m < cfg.axiExtNumSlv.toNat

/-- The port index; external slaves take the ports from `ext_base` on. -/
def AxiPort.index (o : Out AxiField) : AxiPort → ℕ
  | .dbg => (o.field .dbg).toNat
  | .regDemux => (o.field .regDemux).toNat
  | .llc => (o.field .llc).toNat
  | .dma => (o.field .dma).toNat
  | .slink => (o.field .slink).toNat
  | .ext m => (o.field .extBase).toNat + m

variable (cfg : CheshireCfg)

/-- Distinct ports, all below `num_out`, with the scratchpad at the one of the LLC, and no index
cut. -/
structure AxiOutOk : Prop where
  distinct : ∀ p q : AxiPort, p.Present cfg → q.Present cfg →
    p.index (genAxiOut cfg) = q.index (genAxiOut cfg) → p = q
  below : ∀ p : AxiPort, p.Present cfg →
    p.index (genAxiOut cfg) < ((genAxiOut cfg).field .numOut).toNat
  spm : cfg.llcNotBypass = true → (genAxiOut cfg).field .spm = (genAxiOut cfg).field .llc
  fits : ∀ a ∈ (axiGen cfg).assigns, a.Fits fun _ => true

variable {cfg}

/-- The number of a port, counted from the debug module on. -/
def AxiPort.place (cfg : CheshireCfg) : AxiPort → ℕ
  | .dbg => 0
  | .regDemux => 1
  | .llc => 2
  | .dma => 2 + cfg.llcOutConnect.toNat
  | .slink => 2 + cfg.llcOutConnect.toNat + cfg.dma.toNat
  | .ext m => axiExtBase cfg + m

lemma AxiPort.place_lt {p : AxiPort} (hp : p.Present cfg) :
    p.place cfg < axiExtBase cfg + cfg.axiExtNumSlv.toNat := by
  unfold axiExtBase
  cases p <;> simp only [AxiPort.Present] at hp <;>
    simp only [AxiPort.place, axiExtBase, hp, Bool.toNat_true] <;> omega

/-- The generator numbers the ports in this order. -/
lemma AxiPort.index_eq {p : AxiPort} (hp : p.Present cfg) :
    p.index (genAxiOut cfg) = p.place cfg := by
  have hspec := (axiGenInt_spec cfg).2.2.1
  have hlt := AxiPort.place_lt hp
  have hbase := axiExtBase_le cfg
  have hslv := cfg.axiExtNumSlv.isLt
  have hfield {f : AxiField} {v : ℕ} (hv : v < 64)
      (h : (f, v) ∈ (axiGen cfg).assigns.filterMap Assign.asField) :
      ((genAxiOut cfg).field f).toNat = v := by
    rw [field_genAxiOut cfg h, BitVec.toNat_ofNat, Nat.mod_eq_of_lt hv]
  cases p <;> simp only [AxiPort.Present] at hp
  case ext m =>
    rw [AxiPort.index, hfield (v := axiExtBase cfg) (by omega) (by simp [fields_axiGen])]
    rfl
  all_goals
    exact hfield (Nat.lt_of_lt_of_le hlt (by omega))
      (by simp [fields_axiGen, hspec, hp, AxiPort.place, AxiRule.port])

lemma AxiPort.place_inj {p q : AxiPort} (hp : p.Present cfg) (hq : q.Present cfg)
    (h : p.place cfg = q.place cfg) : p = q := by
  cases p <;> cases q <;> simp only [AxiPort.Present] at hp hq <;>
    simp only [AxiPort.place, axiExtBase, hp, hq, Bool.toNat_true] at h <;>
    first | rfl | (congr 1; omega)

lemma toNat_numOut_axi : ((genAxiOut cfg).field .numOut).toNat =
    axiExtBase cfg + cfg.axiExtNumSlv.toNat := by
  have hbase := axiExtBase_le cfg
  have hslv := cfg.axiExtNumSlv.isLt
  rw [field_genAxiOut cfg (v := axiExtBase cfg + cfg.axiExtNumSlv.toNat) (by simp [fields_axiGen]),
    BitVec.toNat_ofNat, Nat.mod_eq_of_lt (by omega)]

/-- No assignment of the generator is cut or dropped. -/
lemma fits_axiGen (hidx : ∀ k < cfg.axiExtNumRules.toNat,
    (cfg.axiExtRegionIdx k).toNat < cfg.axiExtNumSlv.toNat) {a : Assign AxiField}
    (ha : a ∈ (axiGen cfg).assigns) : a.Fits fun _ => true := by
  have hbase := axiExtBase_le cfg
  have hslv := cfg.axiExtNumSlv.isLt
  have hlen := length_axiRules cfg
  have h1 := cfg.llcOutConnect.toNat_le
  have h2 := cfg.dma.toNat_le
  cases a with
  | field f v =>
    have hmem : (f, v) ∈ (axiGen cfg).assigns.filterMap Assign.asField :=
      List.mem_filterMap.mpr ⟨_, ha, rfl⟩
    refine ⟨rfl, ?_⟩
    rw [fields_axiGen, (axiGenInt_spec cfg).2.2.1] at hmem
    rcases hc₁ : cfg.llcOutConnect <;> rcases hc₂ : cfg.llcNotBypass <;> rcases hc₃ : cfg.dma <;>
      rcases hc₄ : cfg.serialLink <;>
      simp [hc₁, hc₂, hc₃, hc₄, AxiRule.port] at hmem <;> omega
  | rule r v start pte =>
    have hmem : (r, v, start, pte) ∈ (axiGen cfg).assigns.filterMap Assign.asRule :=
      List.mem_filterMap.mpr ⟨_, ha, rfl⟩
    rw [rules_axiGen] at hmem
    obtain ⟨⟨s, k⟩, hk, heq⟩ := List.mem_map.mp hmem
    have hget := List.mem_zipIdx_iff_getElem?.mp hk
    have hlt := (List.getElem?_eq_some_iff.mp hget).1
    have hs := (mem_axiRules cfg s).mp (List.mem_of_getElem? hget)
    obtain ⟨rfl, rfl, -⟩ : k = r ∧ s.port cfg = v ∧ _ := by simpa using heq
    refine ⟨by omega, ?_⟩
    have h3 := cfg.serialLink.toNat_le
    cases s <;> simp only [AxiRule.port] at hs ⊢
    case ext k =>
      have := hidx k hs
      omega
    all_goals omega

/-- **`gen_axi_out` numbers the ports one by one**, where there is a scratchpad only behind a
connected LLC, and the external rules name external slaves that exist. -/
theorem axiOutOk (hllc : cfg.llcNotBypass = true → cfg.llcOutConnect = true)
    (hidx : ∀ k < cfg.axiExtNumRules.toNat,
      (cfg.axiExtRegionIdx k).toNat < cfg.axiExtNumSlv.toNat) : AxiOutOk cfg where
  distinct p q hp hq h := by
    rw [AxiPort.index_eq hp, AxiPort.index_eq hq] at h
    exact AxiPort.place_inj hp hq h
  below p hp := by
    rw [AxiPort.index_eq hp, toNat_numOut_axi]
    exact AxiPort.place_lt hp
  spm hspm := by
    have hspec := (axiGenInt_spec cfg).2.2.1
    rw [field_genAxiOut cfg (f := .spm) (v := 2) (by simp [fields_axiGen, hspec, hspm, hllc hspm,
        AxiRule.port]),
      field_genAxiOut cfg (f := .llc) (v := 2) (by simp [fields_axiGen, hspec, hllc hspm,
        AxiRule.port])]
  fits _ ha := fits_axiGen hidx ha

end Cheshire.Hw
