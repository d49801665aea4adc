import Cheshire.Hw.RegOut

/-!
When `gen_reg_out` fits: its indices stay below `2**6`, its writes inside their arrays, and its
rules inside the map.
-/

namespace Cheshire.Hw

/-- What hangs on the reg demux. -/
inductive RegPort where
  | err
  | dev (f : RegField)
  | ext (m : ℕ)
  deriving DecidableEq

/-- The error slave, the enabled devices and the external slaves. -/
def RegPort.Present (cfg : CheshireCfg) : RegPort → Prop
  | .err => True
  | .dev f => f.Enabled cfg
  | .ext m => m < cfg.regExtNumSlv.toNat

/-- The port index; external slaves take the ports from `ext_base` on. -/
def RegPort.index (o : Out RegField) : RegPort → ℕ
  | .err => (o.field .err).toNat
  | .dev f => (o.field f).toNat
  | .ext m => (o.field .extBase).toNat + m

variable (cfg : CheshireCfg)

/-- The rules that are asked for: one for each enabled device, then the external ones. -/
def regRules : List (RegPort × Doub × Doub) :=
  ((regDevs cfg).map fun f => (.dev f, f.window)) ++ (List.range cfg.regExtNumRules.toNat).map
    fun k => (.ext (cfg.regExtRegionIdx k).toNat, cfg.regExtRegionStart k, cfg.regExtRegionEnd k)

/-- Distinct ports, no index cut, no write outside an array, and a map that holds all rules, each
with the port of its device. -/
structure RegOutOk : Prop where
  distinct : ∀ p q : RegPort, p.Present cfg → q.Present cfg →
    p.index (genRegOut cfg) = q.index (genRegOut cfg) → p = q
  fits : ∀ a ∈ (regGen cfg).assigns, a.Fits RegField.inArray
  rules : (regMap cfg).map (fun rl => (rl.idx.toNat, rl.start, rl.pte)) =
    (regRules cfg).map fun x => (x.1.index (genRegOut cfg), x.2)
  below : ∀ rl ∈ regMap cfg, rl.idx < (genRegOut cfg).field .numOut

/-- The number of enabled devices. -/
def numRegDevs : ℕ :=
  3 + cfg.bootrom.toNat + cfg.llcNotBypass.toNat + cfg.uart.toNat + cfg.i2c.toNat +
    cfg.spiHost.toNat + cfg.gpio.toNat + cfg.serialLink.toNat + cfg.vga.toNat +
    cfg.irqRouter.toNat + cfg.axiRt.toNat + (if cfg.clic then cfg.numCores.toNat else 0) +
    (if cfg.busErr then cfg.numCores.toNat + 2 else 0)

/-- There is room for the ports, the rules and the bus error units, and the external rules name
external slaves that exist. -/
structure RegFits : Prop where
  ports : numRegDevs cfg + 1 + cfg.regExtNumSlv.toNat < 64
  rules : numRegDevs cfg + cfg.regExtNumRules.toNat < 64
  busErr : cfg.busErr = true → cfg.numCores.toNat + 2 ≤ 32
  idx : ∀ k < cfg.regExtNumRules.toNat,
    (cfg.regExtRegionIdx k).toNat < cfg.regExtNumSlv.toNat

lemma length_regDevs : (regDevs cfg).length = numRegDevs cfg := by
  have hone (b : Bool) (f : RegField) : (onBit b [f]).length = b.toNat := by
    cases b <;> rfl
  have hmany (b : Bool) (l : List RegField) :
      (onBit b l).length = if b then l.length else 0 := by
    cases b <;> rfl
  simp only [regDevs, numRegDevs, List.length_append, hone]
  simp only [hmany, List.length_map, List.length_range, Nat.add_comm 2]
  rfl

section Fits

variable {cfg} (h : RegFits cfg)
include h

/-- Enabled devices have their field inside its array. -/
lemma RegFits.inArray {f : RegField} (hf : f.Enabled cfg) : f.inArray = true := by
  have hn := cfg.numCores.isLt
  have hb := h.busErr
  cases f <;> simp only [RegField.Enabled, RegField.inArray, decide_eq_true_eq] at hf ⊢
  · have := hb hf.1
    omega
  · omega

/-- The device at place `k` has port `k + 1`. -/
lemma RegFits.index_dev {f : RegField} {k : ℕ} (hk : (regDevs cfg)[k]? = some f) :
    (RegPort.dev f).index (genRegOut cfg) = k + 1 := by
  have hlt := (List.getElem?_eq_some_iff.mp hk).1
  have hmem := List.mem_of_getElem? hk
  have := h.ports
  have := length_regDevs cfg
  rw [RegPort.index, field_regDevs cfg hk (h.inArray ((mem_regDevs cfg f).mp hmem)),
    BitVec.toNat_ofNat]
  omega

lemma RegFits.index_ext (m : ℕ) :
    (RegPort.ext m).index (genRegOut cfg) = numRegDevs cfg + 1 + m := by
  have := h.ports
  rw [RegPort.index, field_extBase, length_regDevs, BitVec.toNat_ofNat]
  omega

lemma RegFits.toNat_numOut : ((genRegOut cfg).field .numOut).toNat =
    numRegDevs cfg + 1 + cfg.regExtNumSlv.toNat := by
  rw [field_numOut, length_regDevs, BitVec.toNat_ofNat, Nat.mod_eq_of_lt h.ports]

/-- Everything present has its own port. -/
theorem RegFits.index_inj {p q : RegPort} (hp : p.Present cfg) (hq : q.Present cfg)
    (heq : p.index (genRegOut cfg) = q.index (genRegOut cfg)) : p = q := by
  have herr : RegPort.err.index (genRegOut cfg) = 0 := by
    rw [RegPort.index, field_err]
    rfl
  have hdev {f : RegField} (hf : f.Enabled cfg) : ∃ k, (regDevs cfg)[k]? = some f ∧
      k < numRegDevs cfg ∧ (RegPort.dev f).index (genRegOut cfg) = k + 1 := by
    obtain ⟨k, hk⟩ := List.mem_iff_getElem?.mp ((mem_regDevs cfg f).mpr hf)
    exact ⟨k, hk, length_regDevs cfg ▸ (List.getElem?_eq_some_iff.mp hk).1, h.index_dev hk⟩
  rcases p with _ | f | m <;> rcases q with _ | g | n
  · rfl
  · obtain ⟨k, -, -, hk⟩ := hdev hq
    omega
  · have := h.index_ext n
    omega
  · obtain ⟨k, -, -, hk⟩ := hdev hp
    omega
  · obtain ⟨k, hf, -, hk⟩ := hdev hp
    obtain ⟨l, hg, -, hl⟩ := hdev hq
    have hkl : k = l := by omega
    subst hkl
    rw [hf, Option.some_inj] at hg
    rw [hg]
  · obtain ⟨k, -, hlt, hk⟩ := hdev hp
    have := h.index_ext n
    omega
  · have := h.index_ext m
    omega
  · obtain ⟨l, -, hlt, hl⟩ := hdev hq
    have := h.index_ext m
    omega
  · have := h.index_ext m
    have := h.index_ext n
    have hmn : m = n := by omega
    rw [hmn]

/-- Everything present has a port below `num_out`. -/
theorem RegFits.index_lt {p : RegPort} (hp : p.Present cfg) :
    p.index (genRegOut cfg) < ((genRegOut cfg).field .numOut).toNat := by
  rw [h.toNat_numOut]
  cases p with
  | err =>
    rw [RegPort.index, field_err]
    exact Nat.lt_of_lt_of_le (Nat.zero_lt_succ (numRegDevs cfg)) (Nat.le_add_right _ _)
  | dev f =>
    obtain ⟨k, hk⟩ := List.mem_iff_getElem?.mp ((mem_regDevs cfg f).mpr hp)
    have hlt := (List.getElem?_eq_some_iff.mp hk).1
    have hlen := length_regDevs cfg
    rw [h.index_dev hk]
    omega
  | ext m =>
    have hm : m < cfg.regExtNumSlv.toNat := hp
    rw [h.index_ext]
    omega

/-- No assignment of the generator is cut or dropped. -/
theorem RegFits.fits {a : Assign RegField} (ha : a ∈ (regGen cfg).assigns) :
    a.Fits RegField.inArray := by
  have hports := h.ports
  have hrules := h.rules
  have hlen := length_regDevs cfg
  cases a with
  | field f v =>
    have hmem : (f, v) ∈ (regGen cfg).assigns.filterMap Assign.asField :=
      List.mem_filterMap.mpr ⟨_, ha, rfl⟩
    rw [fields_regGen, List.mem_append, List.mem_cons] at hmem
    rcases hmem with (hmem | hmem) | hmem
    · obtain ⟨rfl, rfl⟩ := Prod.mk.inj hmem
      exact ⟨rfl, by omega⟩
    · obtain ⟨⟨g, k⟩, hk, heq⟩ := List.mem_map.mp hmem
      obtain ⟨rfl, rfl⟩ := Prod.mk.inj heq
      have hget := List.mem_zipIdx_iff_getElem?.mp hk
      have hlt := (List.getElem?_eq_some_iff.mp hget).1
      exact ⟨h.inArray ((mem_regDevs cfg g).mp (List.mem_of_getElem? hget)), by
        show k + 1 < 64
        omega⟩
    · simp only [List.mem_cons, Prod.mk.injEq, List.not_mem_nil, or_false] at hmem
      rcases hmem with ⟨rfl, rfl⟩ | ⟨rfl, rfl⟩ | ⟨rfl, rfl⟩ <;> exact ⟨rfl, by omega⟩
  | rule r v start pte =>
    have hmem : (r, v, start, pte) ∈ (regGen cfg).assigns.filterMap Assign.asRule :=
      List.mem_filterMap.mpr ⟨_, ha, rfl⟩
    rw [rules_regGen, List.mem_append] at hmem
    rcases hmem with hmem | hmem
    · obtain ⟨⟨g, k⟩, hk, heq⟩ := List.mem_map.mp hmem
      have hlt := (List.getElem?_eq_some_iff.mp (List.mem_zipIdx_iff_getElem?.mp hk)).1
      obtain ⟨rfl, rfl, -⟩ : k = r ∧ k + 1 = v ∧ _ := by simpa using heq
      exact ⟨by omega, by omega⟩
    · obtain ⟨k, hk, heq⟩ := List.mem_map.mp hmem
      have hk := List.mem_range.mp hk
      have hidx := h.idx k hk
      have hcut : (BitVec.ofNat 6 ((regDevs cfg).length + 1)).toNat = numRegDevs cfg + 1 := by
        rw [BitVec.toNat_ofNat]
        omega
      rw [hcut] at heq
      simp only [Prod.mk.injEq] at heq
      exact ⟨by omega, by omega⟩

/-- The map holds the rules that are asked for. -/
theorem RegFits.rules_eq : (regMap cfg).map (fun rl => (rl.idx.toNat, rl.start, rl.pte)) =
    (regRules cfg).map fun x => (x.1.index (genRegOut cfg), x.2) := by
  have hports := h.ports
  have hlen := length_regDevs cfg
  rw [regMap_eq cfg (hlen ▸ h.rules), regRules, List.map_append, List.map_append]
  congr 1
  · refine List.ext_getElem (by simp) fun k hk _ => ?_
    have hk : k < (regDevs cfg).length := by simpa using hk
    have hidx := h.index_dev (List.getElem?_eq_getElem hk)
    simp only [List.getElem_map, List.getElem_zipIdx, Nat.zero_add, hidx, Prod.mk.injEq,
      BitVec.toNat_ofNat, Prod.eta, and_true]
    omega
  · rw [List.map_map, List.map_map]
    refine List.map_congr_left fun k hk => ?_
    have hk := h.idx k (List.mem_range.mp hk)
    simp only [Function.comp_def, h.index_ext, BitVec.toNat_ofNat, Prod.mk.injEq, and_true]
    omega

/-- Every rule leads to a port below `num_out`. -/
theorem RegFits.below {rl : Arul} (hrl : rl ∈ regMap cfg) :
    rl.idx < (genRegOut cfg).field .numOut := by
  have hmem : (rl.idx.toNat, rl.start, rl.pte) ∈
      (regRules cfg).map fun x => (x.1.index (genRegOut cfg), x.2) :=
    h.rules_eq ▸ List.mem_map.mpr ⟨rl, hrl, rfl⟩
  obtain ⟨⟨p, w⟩, hp, heq⟩ := List.mem_map.mp hmem
  have hidx : p.index (genRegOut cfg) = rl.idx.toNat := (Prod.mk.inj heq).1
  rw [BitVec.lt_def, h.toNat_numOut, ← hidx]
  rw [regRules, List.mem_append] at hp
  rcases hp with hp | hp
  · obtain ⟨f, hf, heq⟩ := List.mem_map.mp hp
    obtain ⟨k, hk⟩ := List.mem_iff_getElem?.mp hf
    obtain rfl := (Prod.mk.inj heq).1
    have hlt := (List.getElem?_eq_some_iff.mp hk).1
    rw [h.index_dev hk]
    have := length_regDevs cfg
    omega
  · obtain ⟨k, hk, heq⟩ := List.mem_map.mp hp
    obtain rfl := (Prod.mk.inj heq).1
    have := h.idx k (List.mem_range.mp hk)
    rw [h.index_ext]
    omega

end Fits

/-- With the room for it the generator does all it should do. -/
theorem RegFits.regOutOk {cfg : CheshireCfg} (h : RegFits cfg) : RegOutOk cfg :=
  ⟨fun _ _ => h.index_inj, fun _ => h.fits, h.rules_eq, fun _ => h.below⟩

/-- A generator that does all it should do has the room for it. -/
theorem RegOutOk.regFits {cfg : CheshireCfg} (h : RegOutOk cfg) : RegFits cfg := by
  have hlen := length_regDevs cfg
  have hfield {f : RegField} {v : ℕ}
      (hmem : (f, v) ∈ (regGen cfg).assigns.filterMap Assign.asField) :
      f.inArray = true ∧ v < 64 := by
    obtain ⟨a, ha, heq⟩ := List.mem_filterMap.mp hmem
    have hfit := h.fits a ha
    cases a with
    | field g w =>
      obtain ⟨rfl, rfl⟩ := Prod.mk.inj (Option.some.inj heq)
      exact hfit
    | rule => cases heq
  have hports := (hfield (f := .numOut)
    (v := (regDevs cfg).length + 1 + cfg.regExtNumSlv.toNat) (by simp [fields_regGen])).2
  have hrules := (hfield (f := .numRules)
    (v := (regDevs cfg).length + cfg.regExtNumRules.toNat) (by simp [fields_regGen])).2
  refine ⟨by omega, by omega, fun hb => ?_, fun k hk => ?_⟩
  · -- the last bus error unit
    have hmem : RegField.busErr (cfg.numCores.toNat + 1) ∈ regDevs cfg :=
      (mem_regDevs cfg _).mpr ⟨hb, by omega⟩
    obtain ⟨k, hk⟩ := List.mem_iff_getElem?.mp hmem
    have hin := (hfield (f := .busErr (cfg.numCores.toNat + 1)) (v := k + 1) (by
      rw [fields_regGen, List.mem_append]
      exact Or.inl (List.mem_cons_of_mem _
        (List.mem_map.mpr ⟨(_, k), List.mem_zipIdx_iff_getElem?.mpr hk, rfl⟩)))).1
    have := of_decide_eq_true hin
    omega
  · have hrl : (⟨.ofNat 6 ((regDevs cfg).length + 1 + (cfg.regExtRegionIdx k).toNat),
        cfg.regExtRegionStart k, cfg.regExtRegionEnd k⟩ : Arul) ∈ regMap cfg := by
      rw [regMap_eq cfg hrules]
      exact List.mem_append_right _ (List.mem_map.mpr ⟨k, List.mem_range.mpr hk, rfl⟩)
    have hlt := h.below _ hrl
    have hrule : Assign.rule ((regDevs cfg).length + k)
        ((BitVec.ofNat 6 ((regDevs cfg).length + 1)).toNat + (cfg.regExtRegionIdx k).toNat)
        (cfg.regExtRegionStart k) (cfg.regExtRegionEnd k) ∈ (regGen cfg).assigns := by
      have hg := lockstep_regGenInt cfg
      rw [regGen, Gen.append_eq]
      refine List.mem_append_right _ (List.mem_map.mpr ⟨k, List.mem_range.mpr hk, ?_⟩)
      simp only [Gen.set, hg.i_eq, hg.r_eq]
    have hv := (h.fits _ hrule).2
    rw [field_numOut, BitVec.lt_def] at hlt
    simp only [BitVec.toNat_ofNat] at hlt hv
    omega

/-- **`gen_reg_out` does all it should do exactly where it fits.** -/
theorem regOutOk_iff : RegOutOk cfg ↔ RegFits cfg :=
  ⟨RegOutOk.regFits, RegFits.regOutOk⟩

/-- It does not fit 31 cores with CLICs and bus error units. -/
theorem not_regOutOk_manyCores :
    ¬ RegOutOk { defaultCfg with numCores := 31, clic := true, busErr := true } := fun h =>
  absurd h.regFits.ports (by decide)

end Cheshire.Hw
