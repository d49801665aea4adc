import Cheshire.Hw.Gen

/-!
`gen_reg_out`: the ports and the rules of the reg demux.
-/

namespace Cheshire.Hw

/-- The fields of `reg_out_t`, the map apart. -/
inductive RegField where
  | err | clint | plic | regs | bootrom | llc | uart | i2c | spiHost | gpio | slink | vga | axirt
  | irqRouter
  | busErr (j : ℕ)
  | clic (j : ℕ)
  | extBase | numOut | numRules
  deriving DecidableEq

/-- `bus_err` and `clic` have `2**MaxCoresWidth` elements. -/
def RegField.inArray : RegField → Bool
  | .busErr j | .clic j => decide (j < 32)
  | _ => true

variable (cfg : CheshireCfg)

/-- `gen_reg_out` down to the last internal device. -/
def regGenInt : Gen RegField :=
  let g : Gen RegField := ⟨3, 2,
    [.field .err 0, .field .clint 1, .field .plic 2, .field .regs 3,
      .rule 0 1 0x0204_0000 0x0208_0000, .rule 1 2 0x0400_0000 0x0800_0000,
      .rule 2 3 amRegs (amRegs + 0x1000)]⟩
  let g := if cfg.bootrom then g.alloc .bootrom amBrom (amBrom + 0x40000) else g
  let g := if cfg.llcNotBypass then g.alloc .llc amLlc (amLlc + 0x1000) else g
  let g := if cfg.uart then g.alloc .uart 0x0300_2000 0x0300_3000 else g
  let g := if cfg.i2c then g.alloc .i2c 0x0300_3000 0x0300_4000 else g
  let g := if cfg.spiHost then g.alloc .spiHost 0x0300_4000 0x0300_5000 else g
  let g := if cfg.gpio then g.alloc .gpio 0x0300_5000 0x0300_6000 else g
  let g := if cfg.serialLink then g.alloc .slink amSlink (amSlink + 0x1000) else g
  let g := if cfg.vga then g.alloc .vga 0x0300_7000 0x0300_8000 else g
  let g := if cfg.irqRouter then g.alloc .irqRouter 0x0208_0000 0x020c_0000 else g
  let g := if cfg.axiRt then g.alloc .axirt 0x020c_0000 0x0210_0000 else g
  let g := if cfg.clic then (List.range cfg.numCores.toNat).foldl (fun g j => g.alloc (.clic j)
    (amClic + .ofNat 64 j * 0x40000) (amClic + .ofNat 64 (j + 1) * 0x40000)) g else g
  if cfg.busErr then (List.range (2 + cfg.numCores.toNat)).foldl (fun g j => g.alloc (.busErr j)
    (amBusErr + .ofNat 64 j * 0x40) (amBusErr + .ofNat 64 (j + 1) * 0x40)) g else g

/-- `gen_reg_out`, as the assignments it makes. -/
def regGen : Gen RegField :=
  let g := regGenInt cfg
  let g := { g with i := g.i + 1, r := g.r + 1 }
  let extBase : Aw := .ofNat 6 g.i
  let g := g.set .extBase g.i
  let g := g.set .numOut (g.i + cfg.regExtNumSlv.toNat)
  let g := g.set .numRules (g.r + cfg.regExtNumRules.toNat)
  g.append cfg.regExtNumRules.toNat fun k =>
    (extBase.toNat + (cfg.regExtRegionIdx k).toNat, cfg.regExtRegionStart k, cfg.regExtRegionEnd k)

/-- `gen_reg_out`. -/
def genRegOut : Out RegField := Out.ofAssigns RegField.inArray (regGen cfg).assigns

/-- `gen_reg_map`. -/
def regMap : List Arul := (genRegOut cfg).rules ((genRegOut cfg).field .numRules)

/-! ### The devices in the order of their ports -/

/-- The devices that `gen_reg_out` gives a port and a rule. -/
def RegField.Enabled : RegField → Prop
  | .clint | .plic | .regs => True
  | .bootrom => cfg.bootrom = true
  | .llc => cfg.llcNotBypass = true
  | .uart => cfg.uart = true
  | .i2c => cfg.i2c = true
  | .spiHost => cfg.spiHost = true
  | .gpio => cfg.gpio = true
  | .slink => cfg.serialLink = true
  | .vga => cfg.vga = true
  | .irqRouter => cfg.irqRouter = true
  | .axirt => cfg.axiRt = true
  | .clic j => cfg.clic = true ∧ j < cfg.numCores.toNat
  | .busErr j => cfg.busErr = true ∧ j < cfg.numCores.toNat + 2
  | .err | .extBase | .numOut | .numRules => False

/-- The window of a device. -/
def RegField.window : RegField → Doub × Doub
  | .clint => (0x0204_0000, 0x0208_0000)
  | .plic => (0x0400_0000, 0x0800_0000)
  | .regs => (amRegs, amRegs + 0x1000)
  | .bootrom => (amBrom, amBrom + 0x40000)
  | .llc => (amLlc, amLlc + 0x1000)
  | .uart => (0x0300_2000, 0x0300_3000)
  | .i2c => (0x0300_3000, 0x0300_4000)
  | .spiHost => (0x0300_4000, 0x0300_5000)
  | .gpio => (0x0300_5000, 0x0300_6000)
  | .slink => (amSlink, amSlink + 0x1000)
  | .vga => (0x0300_7000, 0x0300_8000)
  | .irqRouter => (0x0208_0000, 0x020c_0000)
  | .axirt => (0x020c_0000, 0x0210_0000)
  | .clic j => (amClic + .ofNat 64 j * 0x40000, amClic + .ofNat 64 (j + 1) * 0x40000)
  | .busErr j => (amBusErr + .ofNat 64 j * 0x40, amBusErr + .ofNat 64 (j + 1) * 0x40)
  | .err | .extBase | .numOut | .numRules => (0, 0)

/-- The devices `l` if the feature is there. -/
def onBit (b : Bool) (l : List RegField) : List RegField := if b then l else []

/-- The enabled devices; the one at place `k` has port `k + 1` and rule `k`. -/
def regDevs : List RegField :=
  [.clint, .plic, .regs] ++ onBit cfg.bootrom [.bootrom] ++ onBit cfg.llcNotBypass [.llc] ++
    onBit cfg.uart [.uart] ++ onBit cfg.i2c [.i2c] ++ onBit cfg.spiHost [.spiHost] ++
    onBit cfg.gpio [.gpio] ++ onBit cfg.serialLink [.slink] ++ onBit cfg.vga [.vga] ++
    onBit cfg.irqRouter [.irqRouter] ++ onBit cfg.axiRt [.axirt] ++
    onBit cfg.clic ((List.range cfg.numCores.toNat).map .clic) ++
    onBit cfg.busErr ((List.range (2 + cfg.numCores.toNat)).map .busErr)

theorem mem_regDevs (f : RegField) : f ∈ regDevs cfg ↔ f.Enabled cfg := by
  cases f <;> simp [regDevs, onBit, RegField.Enabled, Nat.add_comm]

theorem nodup_regDevs : (regDevs cfg).Nodup := by
  have hsub {b : Bool} {l : List RegField} : (onBit b l).Sublist l := by
    cases b <;> simp [onBit]
  have hclic : ((List.range cfg.numCores.toNat).map RegField.clic).Nodup :=
    List.nodup_range.map fun _ _ h => by simpa using h
  have herr : ((List.range (2 + cfg.numCores.toNat)).map RegField.busErr).Nodup :=
    List.nodup_range.map fun _ _ h => by simpa using h
  have hall : ([RegField.clint, .plic, .regs] ++ [RegField.bootrom] ++ [RegField.llc] ++
      [RegField.uart] ++ [RegField.i2c] ++ [RegField.spiHost] ++ [RegField.gpio] ++
      [RegField.slink] ++ [RegField.vga] ++ [RegField.irqRouter] ++ [RegField.axirt] ++
      (List.range cfg.numCores.toNat).map RegField.clic ++
      (List.range (2 + cfg.numCores.toNat)).map RegField.busErr).Nodup := by
    rw [List.nodup_append, List.nodup_append]
    refine ⟨⟨by decide, hclic, ?_⟩, herr, ?_⟩ <;> simp
  refine hall.sublist ?_
  unfold regDevs
  iterate 12 refine List.Sublist.append ?_ hsub
  exact List.Sublist.refl _

/-! ### The counters run in lockstep -/

/-- The port counter and the rule counter have passed exactly the devices of `L`. -/
structure Lockstep (g : Gen RegField) (L : List RegField) : Prop where
  i_eq : g.i = L.length
  r_eq : g.r + 1 = L.length
  fields : g.assigns.filterMap Assign.asField = (.err, 0) :: L.zipIdx.map fun x => (x.1, x.2 + 1)
  rules : g.assigns.filterMap Assign.asRule = L.zipIdx.map fun x => (x.2, x.2 + 1, x.1.window)

namespace Lockstep

variable {g : Gen RegField} {L : List RegField}

theorem alloc (h : Lockstep g L) {f : RegField} {start pte : Doub} (hf : f.window = (start, pte)) :
    Lockstep (g.alloc f start pte) (L ++ [f]) := by
  have hi := h.i_eq
  have hr := h.r_eq
  refine ⟨by simp [Gen.alloc, Gen.set, Gen.rule, hi], by simp [Gen.alloc, Gen.set, Gen.rule, hr],
    ?_, ?_⟩
  · simp [Gen.alloc, Gen.set, Gen.rule, h.fields, List.zipIdx_append, hi]
  · simp [Gen.alloc, Gen.set, Gen.rule, h.rules, List.zipIdx_append, hi, hr, hf]

theorem ite (h : Lockstep g L) {b : Bool} {g' : Gen RegField} {L' : List RegField}
    (h' : Lockstep g' (L ++ L')) :
    Lockstep (if b then g' else g) (L ++ onBit b L') := by
  cases b
  · simpa [onBit] using h
  · simpa [onBit] using h'

theorem foldl (h : Lockstep g L) (n : ℕ) {f : ℕ → RegField} {start pte : ℕ → Doub}
    (hf : ∀ j, (f j).window = (start j, pte j)) :
    Lockstep ((List.range n).foldl (fun g j => g.alloc (f j) (start j) (pte j)) g)
      (L ++ (List.range n).map f) := by
  induction n with
  | zero => simpa using h
  | succ n ih =>
    simp only [List.range_succ, List.foldl_append, List.map_append, List.foldl_cons,
      List.foldl_nil, List.map_cons, List.map_nil, ← List.append_assoc]
    exact ih.alloc (hf n)

end Lockstep

theorem lockstep_regGenInt : Lockstep (regGenInt cfg) (regDevs cfg) := by
  have h₀ : Lockstep ⟨3, 2, [.field .err 0, .field .clint 1, .field .plic 2, .field .regs 3,
      .rule 0 1 0x0204_0000 0x0208_0000, .rule 1 2 0x0400_0000 0x0800_0000,
      .rule 2 3 amRegs (amRegs + 0x1000)]⟩ [.clint, .plic, .regs] := ⟨rfl, rfl, rfl, rfl⟩
  have h₁ := h₀.ite (b := cfg.bootrom) (h₀.alloc (f := .bootrom) rfl)
  have h₂ := h₁.ite (b := cfg.llcNotBypass) (h₁.alloc (f := .llc) rfl)
  have h₃ := h₂.ite (b := cfg.uart) (h₂.alloc (f := .uart) rfl)
  have h₄ := h₃.ite (b := cfg.i2c) (h₃.alloc (f := .i2c) rfl)
  have h₅ := h₄.ite (b := cfg.spiHost) (h₄.alloc (f := .spiHost) rfl)
  have h₆ := h₅.ite (b := cfg.gpio) (h₅.alloc (f := .gpio) rfl)
  have h₇ := h₆.ite (b := cfg.serialLink) (h₆.alloc (f := .slink) rfl)
  have h₈ := h₇.ite (b := cfg.vga) (h₇.alloc (f := .vga) rfl)
  have h₉ := h₈.ite (b := cfg.irqRouter) (h₈.alloc (f := .irqRouter) rfl)
  have h₁₀ := h₉.ite (b := cfg.axiRt) (h₉.alloc (f := .axirt) rfl)
  have h₁₁ := h₁₀.ite (b := cfg.clic) (h₁₀.foldl cfg.numCores.toNat (f := .clic) fun _ => rfl)
  exact h₁₁.ite (h₁₁.foldl (2 + cfg.numCores.toNat) (f := .busErr) fun _ => rfl)

/-! ### The assignments in closed form -/

theorem fields_regGen : (regGen cfg).assigns.filterMap Assign.asField =
    ((.err, 0) :: (regDevs cfg).zipIdx.map fun x => (x.1, x.2 + 1)) ++
      [(.extBase, (regDevs cfg).length + 1),
        (.numOut, (regDevs cfg).length + 1 + cfg.regExtNumSlv.toNat),
        (.numRules, (regDevs cfg).length + cfg.regExtNumRules.toNat)] := by
  have h := lockstep_regGenInt cfg
  simp only [regGen, Gen.append_eq, Gen.set, List.filterMap_append, h.fields, h.i_eq, h.r_eq,
    filterMap_asField_map_rule]
  simp

theorem rules_regGen : (regGen cfg).assigns.filterMap Assign.asRule =
    ((regDevs cfg).zipIdx.map fun x => (x.2, x.2 + 1, x.1.window)) ++
      (List.range cfg.regExtNumRules.toNat).map fun k => ((regDevs cfg).length + k,
        (BitVec.ofNat 6 ((regDevs cfg).length + 1)).toNat + (cfg.regExtRegionIdx k).toNat,
        cfg.regExtRegionStart k, cfg.regExtRegionEnd k) := by
  have h := lockstep_regGenInt cfg
  simp only [regGen, Gen.append_eq, Gen.set, List.filterMap_append, h.rules, h.i_eq, h.r_eq,
    filterMap_asRule_map_rule]
  simp

/-- No field is assigned twice. -/
theorem nodup_fields_regGen :
    (((regGen cfg).assigns.filterMap Assign.asField).map Prod.fst).Nodup := by
  have hnot : ∀ f : RegField, ¬ f.Enabled cfg → f ∉ regDevs cfg := fun f h hf =>
    h ((mem_regDevs cfg f).mp hf)
  have hfst : (((regDevs cfg).zipIdx.map fun x => (x.1, x.2 + 1)).map Prod.fst) = regDevs cfg := by
    simp [Function.comp_def]
  rw [fields_regGen, List.map_append, List.map_cons, hfst, List.nodup_append, List.nodup_cons]
  refine ⟨⟨hnot _ id, nodup_regDevs cfg⟩, by simp, ?_⟩
  intro f hf g hg
  rcases List.mem_cons.mp hf with rfl | hf
  · rintro rfl
    simp at hg
  · rintro rfl
    have := (mem_regDevs cfg f).mp hf
    simp only [List.map_cons, List.map_nil, List.mem_cons, List.not_mem_nil, or_false] at hg
    rcases hg with rfl | rfl | rfl <;> exact this

/-- The rules are written one after another. -/
theorem positions_regGen : ((regGen cfg).assigns.filterMap Assign.asRule).map Prod.fst =
    List.range ((regDevs cfg).length + cfg.regExtNumRules.toNat) := by
  rw [rules_regGen, List.map_append, List.range_add, List.map_map, List.map_map]
  refine congrArg (· ++ _) ?_
  exact (List.zipIdx_map_snd 0 (regDevs cfg)).trans List.range_eq_range'.symm

/-- The field of the device at place `k`. -/
theorem field_regDevs {f : RegField} {k : ℕ} (h : (regDevs cfg)[k]? = some f)
    (hf : f.inArray = true) : (genRegOut cfg).field f = .ofNat 6 (k + 1) := by
  refine Out.field_ofAssigns _ (nodup_fields_regGen cfg) ?_ hf
  rw [fields_regGen, List.mem_append]
  refine Or.inl (List.mem_cons_of_mem _ (List.mem_map.mpr ⟨(f, k), ?_, rfl⟩))
  exact List.mem_zipIdx_iff_getElem?.mpr h

theorem field_err : (genRegOut cfg).field .err = 0 :=
  Out.field_ofAssigns _ (nodup_fields_regGen cfg) (by simp [fields_regGen]) rfl

theorem field_extBase :
    (genRegOut cfg).field .extBase = .ofNat 6 ((regDevs cfg).length + 1) :=
  Out.field_ofAssigns _ (nodup_fields_regGen cfg) (by simp [fields_regGen]) rfl

theorem field_numOut : (genRegOut cfg).field .numOut =
    .ofNat 6 ((regDevs cfg).length + 1 + cfg.regExtNumSlv.toNat) :=
  Out.field_ofAssigns _ (nodup_fields_regGen cfg) (by simp [fields_regGen]) rfl

theorem field_numRules : (genRegOut cfg).field .numRules =
    .ofNat 6 ((regDevs cfg).length + cfg.regExtNumRules.toNat) :=
  Out.field_ofAssigns _ (nodup_fields_regGen cfg) (by simp [fields_regGen]) rfl

/-- As long as their number is not cut, the reg demux gets all rules. -/
theorem regMap_eq (h : (regDevs cfg).length + cfg.regExtNumRules.toNat < 64) : regMap cfg =
    ((regDevs cfg).zipIdx.map fun x => ⟨.ofNat 6 (x.2 + 1), x.1.window.1, x.1.window.2⟩) ++
      (List.range cfg.regExtNumRules.toNat).map fun k =>
        ⟨.ofNat 6 ((regDevs cfg).length + 1 + (cfg.regExtRegionIdx k).toNat),
          cfg.regExtRegionStart k, cfg.regExtRegionEnd k⟩ := by
  have hn : ((genRegOut cfg).field .numRules).toNat =
      (regDevs cfg).length + cfg.regExtNumRules.toNat := by
    rw [field_numRules, BitVec.toNat_ofNat, Nat.mod_eq_of_lt h]
  unfold regMap
  unfold genRegOut at hn ⊢
  rw [Out.rules_ofAssigns _ (by rw [positions_regGen, hn]), rules_regGen, List.map_append,
    List.map_map, List.map_map]
  refine congrArg₂ (· ++ ·) rfl (List.map_congr_left fun k _ => ?_)
  have hcut : BitVec.ofNat 6 ((BitVec.ofNat 6 ((regDevs cfg).length + 1)).toNat +
      (cfg.regExtRegionIdx k).toNat) =
        .ofNat 6 ((regDevs cfg).length + 1 + (cfg.regExtRegionIdx k).toNat) :=
    BitVec.eq_of_toNat_eq (by simp only [BitVec.toNat_ofNat]; omega)
  simp only [Function.comp_def, hcut]

end Cheshire.Hw
