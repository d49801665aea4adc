import Cheshire.Hw.Gen

/-!
`gen_axi_out`: the ports and the rules of the AXI crossbar.
-/

namespace Cheshire.Hw

/-- The fields of `axi_out_t`, the map apart. -/
inductive AxiField where
  | dbg | regDemux | llc | spm | dma | slink | extBase | numOut | numRules
  deriving DecidableEq

variable (cfg : CheshireCfg)

/-- `gen_axi_out` down to the last internal port. -/
def axiGenInt : Gen AxiField :=
  let g : Gen AxiField := ⟨1, 1, [.field .dbg 0, .field .regDemux 1,
    .rule 0 0 amDbg (amDbg + 0x40000), .rule 1 1 0x0200_0000 0x0C00_0000]⟩
  let g := if cfg.llcOutConnect then g.alloc .llc cfg.llcOutRegionStart cfg.llcOutRegionEnd else g
  let g := if cfg.llcNotBypass then
      ((g.set .spm g.i).rule g.i amSpm (amSpm + sizeSpm cfg)).rule g.i (amSpm + 0x0400_0000)
        (amSpm + 0x0400_0000 + sizeSpm cfg)
    else g
  let g := if cfg.dma then g.alloc .dma 0x0100_0000 0x0100_1000 else g
  if cfg.serialLink then g.alloc .slink cfg.slinkRegionStart cfg.slinkRegionEnd else g

/-- `gen_axi_out`, as the assignments it makes. -/
def axiGen : Gen AxiField :=
  let g := axiGenInt cfg
  let g := { g with i := g.i + 1, r := g.r + 1 }
  let extBase : Aw := .ofNat 6 g.i
  let g := g.set .extBase g.i
  let g := g.set .numOut (g.i + cfg.axiExtNumSlv.toNat)
  let g := g.set .numRules (g.r + cfg.axiExtNumRules.toNat + cfg.regExtNumRules.toNat)
  let g := g.append cfg.axiExtNumRules.toNat fun k =>
    (extBase.toNat + (cfg.axiExtRegionIdx k).toNat, cfg.axiExtRegionStart k, cfg.axiExtRegionEnd k)
  g.append cfg.regExtNumRules.toNat fun j =>
    (1, cfg.regExtRegionStart j, cfg.regExtRegionEnd j)

/-- `gen_axi_out`. -/
def genAxiOut : Out AxiField := Out.ofAssigns (fun _ => true) (axiGen cfg).assigns

/-- `gen_axi_map`. -/
def axiMap : List Arul := (genAxiOut cfg).rules ((genAxiOut cfg).field .numRules)

/-! ### The rules in closed form -/

/-- The rules of the crossbar. -/
inductive AxiRule where
  | dbg | regs | llc | spm | spmUncached | dma | slink
  | ext (k : ℕ)
  | regExt (k : ℕ)
  deriving DecidableEq

namespace AxiRule

/-- The window of a rule. -/
def window : AxiRule → Doub × Doub
  | dbg => (amDbg, amDbg + 0x40000)
  | regs => (0x0200_0000, 0x0C00_0000)
  | llc => (cfg.llcOutRegionStart, cfg.llcOutRegionEnd)
  | spm => (amSpm, amSpm + sizeSpm cfg)
  | spmUncached => (amSpm + 0x0400_0000, amSpm + 0x0400_0000 + sizeSpm cfg)
  | dma => (0x0100_0000, 0x0100_1000)
  | slink => (cfg.slinkRegionStart, cfg.slinkRegionEnd)
  | ext k => (cfg.axiExtRegionStart k, cfg.axiExtRegionEnd k)
  | regExt k => (cfg.regExtRegionStart k, cfg.regExtRegionEnd k)

/-- The port of a rule, as a number. -/
def port : AxiRule → ℕ
  | dbg => 0
  | regs | regExt _ => 1
  | llc => 2
  | spm | spmUncached => 1 + cfg.llcOutConnect.toNat
  | dma => 2 + cfg.llcOutConnect.toNat
  | slink => 2 + cfg.llcOutConnect.toNat + cfg.dma.toNat
  | ext k => 2 + cfg.llcOutConnect.toNat + cfg.dma.toNat + cfg.serialLink.toNat +
      (cfg.axiExtRegionIdx k).toNat

end AxiRule

/-- The internal rules, in order. -/
def axiRulesInt : List AxiRule :=
  [.dbg, .regs] ++ (if cfg.llcOutConnect then [.llc] else []) ++
    (if cfg.llcNotBypass then [.spm, .spmUncached] else []) ++
    (if cfg.dma then [.dma] else []) ++ (if cfg.serialLink then [.slink] else [])

/-- All rules, in order. -/
def axiRules : List AxiRule :=
  axiRulesInt cfg ++ (List.range cfg.axiExtNumRules.toNat).map .ext ++
    (List.range cfg.regExtNumRules.toNat).map .regExt

/-- The first port behind the internal ones. -/
def axiExtBase : ℕ := 2 + cfg.llcOutConnect.toNat + cfg.dma.toNat + cfg.serialLink.toNat

theorem mem_axiRules (s : AxiRule) : s ∈ axiRules cfg ↔ match s with
    | .dbg | .regs => True
    | .llc => cfg.llcOutConnect = true
    | .spm | .spmUncached => cfg.llcNotBypass = true
    | .dma => cfg.dma = true
    | .slink => cfg.serialLink = true
    | .ext k => k < cfg.axiExtNumRules.toNat
    | .regExt k => k < cfg.regExtNumRules.toNat := by
  cases s <;> simp [axiRules, axiRulesInt]

theorem nodup_axiRules : (axiRules cfg).Nodup := by
  have hint : (axiRulesInt cfg).Nodup := by
    unfold axiRulesInt
    cases cfg.llcOutConnect <;> cases cfg.llcNotBypass <;> cases cfg.dma <;>
      cases cfg.serialLink <;> decide
  have hext : ((List.range cfg.axiExtNumRules.toNat).map AxiRule.ext).Nodup :=
    List.nodup_range.map fun _ _ h => by simpa using h
  have hreg : ((List.range cfg.regExtNumRules.toNat).map AxiRule.regExt).Nodup :=
    List.nodup_range.map fun _ _ h => by simpa using h
  rw [axiRules, List.nodup_append, List.nodup_append]
  refine ⟨⟨hint, hext, ?_⟩, hreg, ?_⟩ <;> simp [axiRulesInt] <;> aesop

/-- What the internal part of the generator has done: its counters, fields and rules. -/
theorem axiGenInt_spec : (axiGenInt cfg).i + 1 = axiExtBase cfg ∧
    (axiGenInt cfg).r + 1 = (axiRulesInt cfg).length ∧
    (axiGenInt cfg).assigns.filterMap Assign.asField = [(.dbg, 0), (.regDemux, 1)] ++
      (if cfg.llcOutConnect then [(.llc, AxiRule.port cfg .llc)] else []) ++
      (if cfg.llcNotBypass then [(.spm, AxiRule.port cfg .spm)] else []) ++
      (if cfg.dma then [(.dma, AxiRule.port cfg .dma)] else []) ++
      (if cfg.serialLink then [(.slink, AxiRule.port cfg .slink)] else []) ∧
    (axiGenInt cfg).assigns.filterMap Assign.asRule =
      (axiRulesInt cfg).zipIdx.map fun x => (x.2, x.1.port cfg, x.1.window cfg) := by
  unfold axiGenInt axiExtBase axiRulesInt
  rcases h₁ : cfg.llcOutConnect <;> rcases h₂ : cfg.llcNotBypass <;> rcases h₃ : cfg.dma <;>
    rcases h₄ : cfg.serialLink <;>
    simp [Gen.alloc, Gen.set, Gen.rule, AxiRule.port, AxiRule.window, h₁, h₃]

lemma axiExtBase_le : axiExtBase cfg ≤ 5 := by
  have := cfg.llcOutConnect.toNat_le
  have := cfg.dma.toNat_le
  have := cfg.serialLink.toNat_le
  unfold axiExtBase
  omega

lemma length_axiRulesInt : (axiRulesInt cfg).length ≤ 7 := by
  unfold axiRulesInt
  cases cfg.llcOutConnect <;> cases cfg.llcNotBypass <;> cases cfg.dma <;>
    cases cfg.serialLink <;> decide

theorem fields_axiGen : (axiGen cfg).assigns.filterMap Assign.asField =
    (axiGenInt cfg).assigns.filterMap Assign.asField ++ [(.extBase, axiExtBase cfg),
      (.numOut, axiExtBase cfg + cfg.axiExtNumSlv.toNat),
      (.numRules, (axiRules cfg).length)] := by
  obtain ⟨hi, hr, -, -⟩ := axiGenInt_spec cfg
  simp only [axiGen, Gen.append_eq, Gen.set, List.filterMap_append, hi, hr,
    filterMap_asField_map_rule]
  simp [axiRules, Nat.add_assoc]

theorem rules_axiGen : (axiGen cfg).assigns.filterMap Assign.asRule =
    (axiRules cfg).zipIdx.map fun x => (x.2, x.1.port cfg, x.1.window cfg) := by
  obtain ⟨hi, hr, -, hrules⟩ := axiGenInt_spec cfg
  have hbase : (BitVec.ofNat 6 (axiExtBase cfg)).toNat = axiExtBase cfg := by
    have := axiExtBase_le cfg
    rw [BitVec.toNat_ofNat]
    omega
  simp only [axiGen, Gen.append_eq, Gen.set, List.filterMap_append, hrules, hi, hr,
    filterMap_asRule_map_rule, axiRules, List.zipIdx_append, zipIdx_map_range, List.map_append,
    List.map_map, hbase]
  simp [Function.comp_def, AxiRule.port, AxiRule.window, axiExtBase]

lemma length_axiRules : (axiRules cfg).length < 64 := by
  have := length_axiRulesInt cfg
  have := cfg.axiExtNumRules.isLt
  have := cfg.regExtNumRules.isLt
  simp only [axiRules, List.length_append, List.length_map, List.length_range]
  omega

theorem nodup_fields_axiGen :
    (((axiGen cfg).assigns.filterMap Assign.asField).map Prod.fst).Nodup := by
  rw [fields_axiGen, (axiGenInt_spec cfg).2.2.1]
  cases cfg.llcOutConnect <;> cases cfg.llcNotBypass <;> cases cfg.dma <;>
    cases cfg.serialLink <;> simp

/-- A field of the generator's result. -/
theorem field_genAxiOut {f : AxiField} {v : ℕ}
    (h : (f, v) ∈ (axiGen cfg).assigns.filterMap Assign.asField) :
    (genAxiOut cfg).field f = .ofNat 6 v :=
  Out.field_ofAssigns _ (nodup_fields_axiGen cfg) h rfl

/-- The crossbar gets all rules. -/
theorem axiMap_eq : axiMap cfg = (axiRules cfg).map fun s =>
    ⟨.ofNat 6 (s.port cfg), (s.window cfg).1, (s.window cfg).2⟩ := by
  have hnum : (genAxiOut cfg).field .numRules = .ofNat 6 (axiRules cfg).length :=
    field_genAxiOut cfg (by simp [fields_axiGen])
  have hn : ((genAxiOut cfg).field .numRules).toNat = (axiRules cfg).length := by
    rw [hnum, BitVec.toNat_ofNat, Nat.mod_eq_of_lt (length_axiRules cfg)]
  have hpos : ((axiGen cfg).assigns.filterMap Assign.asRule).map Prod.fst =
      List.range (axiRules cfg).length := by
    rw [rules_axiGen, List.map_map]
    exact (List.zipIdx_map_snd 0 (axiRules cfg)).trans List.range_eq_range'.symm
  unfold axiMap
  unfold genAxiOut at hn ⊢
  rw [Out.rules_ofAssigns _ (by rw [hpos, hn]), rules_axiGen, List.map_map]
  refine List.ext_getElem (by simp) fun k hk hk' => ?_
  simp

end Cheshire.Hw
