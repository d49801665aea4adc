import Cheshire.Hw.AxiPorts
import Cheshire.Hw.RegFits
import Cheshire.Hw.Windows

/-!
The two address decoders against the memory map: an address reaches the port of the device whose
window holds it.
-/

namespace Cheshire.Hw

/-- The window of a rule. -/
def Arul.window (rl : Arul) : Doub × Doub := (rl.start, rl.pte)

/-- At most one entry of the map contains the address. -/
def AtMostOne (top : Bool) (rules : List Arul) (a : Doub) : Prop :=
  ∀ (j k : ℕ) (x y : Arul), rules[j]? = some x → rules[k]? = some y →
    Contains top x.window a → Contains top y.window a → j = k

/-- `addr_decode`, on maps in which at most one rule matches. -/
structure AddrDecode where
  top : Bool
  decode : List Arul → Doub → Option Aw
  hit : ∀ rules a rl, AtMostOne top rules a → rl ∈ rules → Contains top rl.window a →
    decode rules a = some rl.idx
  miss : ∀ rules a, (∀ rl ∈ rules, ¬ Contains top rl.window a) → decode rules a = none

/-- Where a request goes. -/
inductive Port where
  | decErr
  | axi (p : Aw)
  | reg (p : Aw)
  deriving DecidableEq

variable (cfg : CheshireCfg)

/-- The crossbar, which has no default port, and behind its port `reg_demux` the demux
`i_reg_demux_decode`, whose default is the error slave. -/
def route (dec : AddrDecode) (a : Doub) : Port :=
  match dec.decode (axiMap cfg) a with
  | none => .decErr
  | some p =>
    if p = (genAxiOut cfg).field .regDemux then
      .reg ((dec.decode (regMap cfg) a).getD ((genRegOut cfg).field .err))
    else .axi p

/-- The port of a target. -/
def Target.port : Target → Port
  | .dev d => match d with
    | .debugRom => .axi ((genAxiOut cfg).field .dbg)
    | .dma => .axi ((genAxiOut cfg).field .dma)
    | .spmCached | .spmUncached => .axi ((genAxiOut cfg).field .spm)
    | .bootrom => .reg ((genRegOut cfg).field .bootrom)
    | .clint => .reg ((genRegOut cfg).field .clint)
    | .irqRouter => .reg ((genRegOut cfg).field .irqRouter)
    | .axirt => .reg ((genRegOut cfg).field .axirt)
    | .regs => .reg ((genRegOut cfg).field .regs)
    | .llc => .reg ((genRegOut cfg).field .llc)
    | .uart => .reg ((genRegOut cfg).field .uart)
    | .i2c => .reg ((genRegOut cfg).field .i2c)
    | .spiHost => .reg ((genRegOut cfg).field .spiHost)
    | .gpio => .reg ((genRegOut cfg).field .gpio)
    | .slink => .reg ((genRegOut cfg).field .slink)
    | .vga => .reg ((genRegOut cfg).field .vga)
    | .plic => .reg ((genRegOut cfg).field .plic)
    | .unbent | .clics => .decErr
  | .unbent j => .reg ((genRegOut cfg).field (.busErr j))
  | .clic j => .reg ((genRegOut cfg).field (.clic j))
  | .ext .llcOut => .axi ((genAxiOut cfg).field .llc)
  | .ext .slink => .axi ((genAxiOut cfg).field .slink)
  | .ext (.axi k) =>
    .axi ((genAxiOut cfg).field .extBase + (cfg.axiExtRegionIdx k).setWidth 6)
  | .ext (.reg k) =>
    .reg ((genRegOut cfg).field .extBase + (cfg.regExtRegionIdx k).setWidth 6)

/-- What answers at a port: a slave of the crossbar, or one of the reg demux. -/
abbrev Slave : Type := AxiPort ⊕ RegPort

/-- The slave a target is part of; both views of the scratchpad are in the LLC. -/
def Target.slave : Target → Slave
  | .dev d => match d with
    | .debugRom => .inl .dbg
    | .dma => .inl .dma
    | .spmCached | .spmUncached => .inl .llc
    | .bootrom => .inr (.dev .bootrom)
    | .clint => .inr (.dev .clint)
    | .irqRouter => .inr (.dev .irqRouter)
    | .axirt => .inr (.dev .axirt)
    | .regs => .inr (.dev .regs)
    | .llc => .inr (.dev .llc)
    | .uart => .inr (.dev .uart)
    | .i2c => .inr (.dev .i2c)
    | .spiHost => .inr (.dev .spiHost)
    | .gpio => .inr (.dev .gpio)
    | .slink => .inr (.dev .slink)
    | .vga => .inr (.dev .vga)
    | .plic => .inr (.dev .plic)
    | .unbent | .clics => .inr .err
  | .unbent j => .inr (.dev (.busErr j))
  | .clic j => .inr (.dev (.clic j))
  | .ext .llcOut => .inl .llc
  | .ext .slink => .inl .slink
  | .ext (.axi k) => .inl (.ext (cfg.axiExtRegionIdx k).toNat)
  | .ext (.reg k) => .inr (.ext (cfg.regExtRegionIdx k).toNat)

/-- A port that is there, and leads neither to the demux itself nor to its error slave. -/
def Port.Leads : Port → Prop
  | .decErr => False
  | .axi p => p < (genAxiOut cfg).field .numOut ∧ p ≠ (genAxiOut cfg).field .regDemux
  | .reg p => p < (genRegOut cfg).field .numOut ∧ p ≠ (genRegOut cfg).field .err

/-! ### The rules of the crossbar -/

variable {cfg} {top : Bool} {a : Doub}

/-- The target of a rule; the rule of the reg demux has many. -/
def AxiRule.target : AxiRule → Option Target
  | .dbg => some (.dev .debugRom)
  | .regs => none
  | .llc => some (.ext .llcOut)
  | .spm => some (.dev .spmCached)
  | .spmUncached => some (.dev .spmUncached)
  | .dma => some (.dev .dma)
  | .slink => some (.ext .slink)
  | .ext k => some (.ext (.axi k))
  | .regExt k => some (.ext (.reg k))

lemma AxiRule.target_inj {s s' : AxiRule} (h : s.target = s'.target) : s = s' := by
  cases s <;> cases s' <;> simp [AxiRule.target] at h ⊢ <;> exact h

lemma MapOk.axiRule_enabled {s : AxiRule} (hs : s ∈ axiRules cfg) {t : Target}
    (ht : s.target = some t) : t.Enabled cfg := by
  rw [mem_axiRules] at hs
  cases s <;> cases ht <;> exact hs

lemma MapOk.axiRule_holds (h : MapOk cfg top) {s : AxiRule} {t : Target}
    (ht : s.target = some t) : Contains top (s.window cfg) a ↔ t.Holds cfg top a := by
  have hspm := h.spm
  have hsum : (amSpm + sizeSpm cfg).toNat = 0x1000_0000 + (sizeSpm cfg).toNat := by
    unfold amSpm
    bv_omega
  have hsum' : (amSpm + 0x0400_0000 + sizeSpm cfg).toNat = 0x1400_0000 + (sizeSpm cfg).toNat := by
    unfold amSpm
    bv_omega
  cases s <;> cases ht
  · exact contains_iff (w := (amDbg, amDbg + 0x40000)) (by decide)
  · exact Iff.rfl
  · exact (contains_iff (by rw [AxiRule.window, hsum]; omega)).trans (by
      rw [AxiRule.window, hsum]; rfl)
  · exact (contains_iff (by rw [AxiRule.window, hsum']; omega)).trans (by
      rw [AxiRule.window, hsum']; rfl)
  · exact contains_iff (w := (0x0100_0000, 0x0100_1000)) (by decide)
  · exact Iff.rfl
  · exact Iff.rfl
  · exact Iff.rfl

lemma regs_holds : Contains top (AxiRule.window cfg .regs) a ↔
    InWindow 0x0200_0000 0x0C00_0000 a.toNat :=
  contains_iff (by rw [AxiRule.window]; decide)

/-- Nothing that has its own port at the crossbar lies in the window of the reg demux. -/
lemma MapOk.axi_outside_regs (h : MapOk cfg top) {s : AxiRule} (hs : s ∈ axiRules cfg)
    {t : Target} (ht : s.target = some t) (ha : t.Holds cfg top a) :
    ¬ InWindow 0x0200_0000 0x0C00_0000 a.toNat := by
  have hen := MapOk.axiRule_enabled hs ht
  rcases hb : t.block with _ | d
  · cases t <;> cases hb
    have := h.above _ a hen ha
    simp only [InWindow]
    omega
  · have hin := h.in_block hb hen ha
    cases s <;> cases ht <;> cases hb <;>
      simp only [InWindow, Device.start, Device.size] at hin ⊢ <;> omega

/-- At most one rule of the crossbar contains an address. -/
theorem MapOk.axiRule_unique (h : MapOk cfg top) {s s' : AxiRule} (hs : s ∈ axiRules cfg)
    (hs' : s' ∈ axiRules cfg) (ha : Contains top (s.window cfg) a)
    (ha' : Contains top (s'.window cfg) a) : s = s' := by
  have hregs {r : AxiRule} (hr : r.target = none) : r = .regs := by
    cases r <;> first | rfl | cases hr
  rcases ht : s.target with _ | t <;> rcases ht' : s'.target with _ | t'
  · exact AxiRule.target_inj (ht.trans ht'.symm)
  · obtain rfl := hregs ht
    exact absurd (regs_holds.mp ha) (h.axi_outside_regs hs' ht' ((h.axiRule_holds ht').mp ha'))
  · obtain rfl := hregs ht'
    exact absurd (regs_holds.mp ha') (h.axi_outside_regs hs ht ((h.axiRule_holds ht).mp ha))
  · have htt : t = t' := h.unique (MapOk.axiRule_enabled hs ht) (MapOk.axiRule_enabled hs' ht')
      ((h.axiRule_holds ht).mp ha) ((h.axiRule_holds ht').mp ha')
    exact AxiRule.target_inj (by rw [ht, ht', htt])

/-! ### The rules of the reg demux -/

/-- The target of a device behind the reg demux. -/
def RegField.target : RegField → Target
  | .clint => .dev .clint
  | .plic => .dev .plic
  | .regs => .dev .regs
  | .bootrom => .dev .bootrom
  | .llc => .dev .llc
  | .uart => .dev .uart
  | .i2c => .dev .i2c
  | .spiHost => .dev .spiHost
  | .gpio => .dev .gpio
  | .slink => .dev .slink
  | .vga => .dev .vga
  | .axirt => .dev .axirt
  | .irqRouter => .dev .irqRouter
  | .busErr j => .unbent j
  | .clic j => .clic j
  | .err | .extBase | .numOut | .numRules => .dev .unbent

lemma RegField.target_enabled {f : RegField} : f.target.Enabled cfg ↔ f.Enabled cfg := by
  cases f <;> exact Iff.rfl

lemma RegField.target_inj {f f' : RegField} (h : f.Enabled cfg) (h' : f'.Enabled cfg)
    (heq : f.target = f'.target) : f = f' := by
  cases f <;> cases f' <;> simp_all [RegField.target, RegField.Enabled]

lemma MapOk.regField_holds (h : MapOk cfg top) {f : RegField} (hf : f.Enabled cfg) :
    Contains top f.window a ↔ f.target.Holds cfg top a := by
  have hcores := h.cores
  cases f <;> simp only [RegField.Enabled] at hf <;> try exact contains_iff (by decide)
  case busErr j =>
    have hj : j < 32 := by omega
    have h1 : (amBusErr + .ofNat 64 j * 0x40).toNat = 0x0300_8000 + j * 0x40 := by
      unfold amBusErr
      bv_omega
    have h2 : (amBusErr + .ofNat 64 (j + 1) * 0x40).toNat = 0x0300_8000 + (j + 1) * 0x40 := by
      unfold amBusErr
      bv_omega
    exact (contains_iff (by rw [RegField.window, h2]; omega)).trans (by
      rw [RegField.window, h1, h2]; rfl)
  case clic j =>
    have hj : j < 32 := by omega
    have h1 : (amClic + .ofNat 64 j * 0x40000).toNat = 0x0800_0000 + j * 0x4_0000 := by
      unfold amClic
      bv_omega
    have h2 : (amClic + .ofNat 64 (j + 1) * 0x40000).toNat = 0x0800_0000 + (j + 1) * 0x4_0000 := by
      unfold amClic
      bv_omega
    exact (contains_iff (by rw [RegField.window, h2]; omega)).trans (by
      rw [RegField.window, h1, h2]; rfl)

/-- With at most 16 cores the reg demux fits. -/
lemma MapOk.regFits (h : MapOk cfg top) : RegFits cfg := by
  have hcores := h.cores
  have hslv := cfg.regExtNumSlv.isLt
  have hrules := cfg.regExtNumRules.isLt
  have hdevs : numRegDevs cfg ≤ 47 := by
    have hle (b : Bool) := b.toNat_le
    have hite {b : Bool} {n m : ℕ} (hn : n ≤ m) : (if b then n else 0) ≤ m := by
      cases b <;> simp [hn]
    have h1 := hite (b := cfg.clic) hcores.2
    have h2 := hite (b := cfg.busErr) (Nat.add_le_add_right hcores.2 2)
    have := hle cfg.bootrom
    have := hle cfg.llcNotBypass
    have := hle cfg.uart
    have := hle cfg.i2c
    have := hle cfg.spiHost
    have := hle cfg.gpio
    have := hle cfg.serialLink
    have := hle cfg.vga
    have := hle cfg.irqRouter
    have := hle cfg.axiRt
    unfold numRegDevs
    omega
  exact ⟨by omega, by omega, fun _ => by omega, h.regIdx⟩

/-- The target of a rule of the reg demux: a device or an external rule. -/
def regTarget : RegField ⊕ ℕ → Target
  | .inl f => f.target
  | .inr k => .ext (.reg k)

def regRuleWindow (cfg : CheshireCfg) : RegField ⊕ ℕ → Doub × Doub
  | .inl f => f.window
  | .inr k => (cfg.regExtRegionStart k, cfg.regExtRegionEnd k)

/-- The rules of the reg demux, in order. -/
def regRuleList (cfg : CheshireCfg) : List (RegField ⊕ ℕ) :=
  (regDevs cfg).map .inl ++ (List.range cfg.regExtNumRules.toNat).map .inr

lemma mem_regRuleList {s : RegField ⊕ ℕ} (hs : s ∈ regRuleList cfg) :
    (regTarget s).Enabled cfg := by
  rw [regRuleList, List.mem_append] at hs
  rcases hs with hs | hs
  · obtain ⟨f, hf, rfl⟩ := List.mem_map.mp hs
    exact RegField.target_enabled.mpr ((mem_regDevs cfg f).mp hf)
  · obtain ⟨k, hk, rfl⟩ := List.mem_map.mp hs
    exact List.mem_range.mp hk

lemma MapOk.windows_regMap (h : MapOk cfg top) :
    (regMap cfg).map Arul.window = (regRuleList cfg).map (regRuleWindow cfg) := by
  rw [regMap_eq cfg (length_regDevs cfg ▸ h.regFits.rules), regRuleList, List.map_append,
    List.map_append, List.map_map, List.map_map, List.map_map, List.map_map]
  refine congrArg₂ (· ++ ·) (List.ext_getElem (by simp) fun k hk hk' => ?_) rfl
  simp [Arul.window, regRuleWindow]

lemma MapOk.regRule_holds (h : MapOk cfg top) {s : RegField ⊕ ℕ} (hs : s ∈ regRuleList cfg) :
    Contains top (regRuleWindow cfg s) a ↔ (regTarget s).Holds cfg top a := by
  have hen := mem_regRuleList hs
  rcases s with f | k
  · exact h.regField_holds (RegField.target_enabled.mp hen)
  · exact Iff.rfl

theorem MapOk.regRule_unique (h : MapOk cfg top) {s s' : RegField ⊕ ℕ}
    (hs : s ∈ regRuleList cfg) (hs' : s' ∈ regRuleList cfg)
    (ha : Contains top (regRuleWindow cfg s) a) (ha' : Contains top (regRuleWindow cfg s') a) :
    s = s' := by
  have hen := mem_regRuleList hs
  have hen' := mem_regRuleList hs'
  have heq := h.unique hen hen' ((h.regRule_holds hs).mp ha) ((h.regRule_holds hs').mp ha')
  rcases s with f | k <;> rcases s' with f' | k'
  · rw [RegField.target_inj (RegField.target_enabled.mp hen) (RegField.target_enabled.mp hen') heq]
  · cases f <;> cases heq
  · cases f' <;> cases heq
  · cases heq
    rfl

/-! ### At most one rule -/

lemma atMostOne_of_windows {ι : Type} {rules : List Arul} {L : List ι} {w : ι → Doub × Doub}
    (hw : rules.map Arul.window = L.map w) (hnd : L.Nodup)
    (huniq : ∀ s ∈ L, ∀ s' ∈ L, Contains top (w s) a → Contains top (w s') a → s = s') :
    AtMostOne top rules a := by
  have hget {j : ℕ} {x : Arul} (hx : rules[j]? = some x) : ∃ s, L[j]? = some s ∧ x.window = w s := by
    have := congrArg (fun l => l[j]?) hw
    simp only [List.getElem?_map, hx, Option.map_some] at this
    rcases hs : L[j]? with _ | s
    · simp [hs] at this
    · exact ⟨s, rfl, by simpa [hs] using this⟩
  intro j k x y hx hy hxa hya
  obtain ⟨s, hs, hxs⟩ := hget hx
  obtain ⟨s', hs', hys⟩ := hget hy
  have heq : s = s' := huniq s (List.mem_of_getElem? hs) s' (List.mem_of_getElem? hs')
    (hxs ▸ hxa) (hys ▸ hya)
  obtain ⟨hj, hjs⟩ := List.getElem?_eq_some_iff.mp hs
  obtain ⟨hk, hks⟩ := List.getElem?_eq_some_iff.mp hs'
  exact (hnd.getElem_inj_iff).mp (hjs.trans (heq.trans hks.symm))

theorem MapOk.atMostOne_axiMap (h : MapOk cfg top) (a : Doub) :
    AtMostOne top (axiMap cfg) a :=
  atMostOne_of_windows (w := AxiRule.window cfg) (by rw [axiMap_eq, List.map_map]; rfl)
    (nodup_axiRules cfg) fun _ hs _ hs' => h.axiRule_unique hs hs'

theorem MapOk.atMostOne_regMap (h : MapOk cfg top) (a : Doub) :
    AtMostOne top (regMap cfg) a := by
  refine atMostOne_of_windows h.windows_regMap ?_ fun _ hs _ hs' => h.regRule_unique hs hs'
  rw [regRuleList, List.nodup_append]
  exact ⟨(nodup_regDevs cfg).map Sum.inl_injective, List.nodup_range.map Sum.inr_injective,
    by simp⟩

/-! ### Where an address goes -/

section Decode

variable {dec : AddrDecode} (h : MapOk cfg dec.top)
include h

lemma MapOk.decode_axiMap {s : AxiRule} (hs : s ∈ axiRules cfg)
    (ha : Contains dec.top (s.window cfg) a) :
    dec.decode (axiMap cfg) a = some (.ofNat 6 (s.port cfg)) := by
  have hmem : (⟨.ofNat 6 (s.port cfg), (s.window cfg).1, (s.window cfg).2⟩ : Arul) ∈ axiMap cfg := by
    rw [axiMap_eq]
    exact List.mem_map.mpr ⟨s, hs, rfl⟩
  exact dec.hit _ _ _ (h.atMostOne_axiMap a) hmem ha

omit h in
lemma field_regDemux : (genAxiOut cfg).field .regDemux = 1 :=
  field_genAxiOut cfg (v := 1) (by simp [fields_axiGen, (axiGenInt_spec cfg).2.2.1])

/-- A rule with a port of its own leads to the port of its target. -/
theorem MapOk.route_axi {s : AxiRule} (hs : s ∈ axiRules cfg) {t : Target}
    (ht : s.target = some t) (hreg : ∀ k, s ≠ .regExt k)
    (ha : Contains dec.top (s.window cfg) a) : route cfg dec a = t.port cfg := by
  have hfields := (axiGenInt_spec cfg).2.2.1
  have hen := MapOk.axiRule_enabled hs ht
  have hport : t.port cfg = .axi (.ofNat 6 (s.port cfg)) := by
    cases s <;> cases ht <;> simp only [Target.Enabled, ExtRegion.Enabled] at hen
    case regExt k => exact absurd rfl (hreg k)
    case ext k =>
      have hbase := field_genAxiOut cfg (f := .extBase) (v := axiExtBase cfg)
        (by simp [fields_axiGen])
      have hcut : BitVec.ofNat 6 (axiExtBase cfg) + (cfg.axiExtRegionIdx k).setWidth 6 =
          .ofNat 6 (AxiRule.port cfg (.ext k)) := by
        refine BitVec.eq_of_toNat_eq ?_
        simp [AxiRule.port, axiExtBase]
      rw [Target.port, hbase, hcut]
    case spmUncached =>
      exact congrArg Port.axi (field_genAxiOut cfg (v := AxiRule.port cfg .spm)
        (by simp [fields_axiGen, hfields, hen]))
    all_goals exact congrArg Port.axi (field_genAxiOut cfg
      (by simp [fields_axiGen, hfields, hen, AxiRule.port]))
  have hne : (BitVec.ofNat 6 (s.port cfg)) ≠ (genAxiOut cfg).field .regDemux := by
    rw [field_regDemux]
    have hrange : s.port cfg ≠ 1 ∧ s.port cfg < 64 := by
      have h1 := cfg.llcOutConnect.toNat_le
      have h2 := cfg.dma.toNat_le
      have h3 := cfg.serialLink.toNat_le
      cases s <;> cases ht <;> simp only [AxiRule.port, Target.Enabled, ExtRegion.Enabled] at hen ⊢
      case spm => simp [h.llc hen]
      case spmUncached => simp [h.llc hen]
      case regExt k => exact absurd rfl (hreg k)
      case ext k =>
        have := h.axiIdx k hen
        have := cfg.axiExtNumSlv.isLt
        omega
      all_goals omega
    intro heq
    have hnat : s.port cfg % 2 ^ 6 = 1 := congrArg BitVec.toNat heq
    omega
  rw [route, h.decode_axiMap hs ha, hport]
  exact if_neg hne

/-- The crossbar sends every address of a rule of the reg demux to the reg demux. -/
theorem MapOk.regRule_to_demux {s : RegField ⊕ ℕ} (hs : s ∈ regRuleList cfg)
    (ha : Contains dec.top (regRuleWindow cfg s) a) :
    dec.decode (axiMap cfg) a = some ((genAxiOut cfg).field .regDemux) := by
  have hen := mem_regRuleList hs
  rw [field_regDemux]
  rcases s with f | k
  · have hholds := (h.regRule_holds hs).mp ha
    have hw : InWindow 0x0200_0000 0x0C00_0000 a.toNat := by
      rcases hb : (regTarget (.inl f)).block with _ | d
      · cases f <;> cases hb
      · have hin := h.in_block hb hen hholds
        cases f <;> cases hb <;> first
          | exact hen.elim
          | (simp only [InWindow, Device.start, Device.size] at hin ⊢; omega)
    exact h.decode_axiMap ((mem_axiRules cfg .regs).mpr trivial) (regs_holds.mpr hw)
  · exact h.decode_axiMap ((mem_axiRules cfg (.regExt k)).mpr hen) ha

/-- A rule of the reg demux leads to the port of its target. -/
theorem MapOk.route_reg {s : RegField ⊕ ℕ} (hs : s ∈ regRuleList cfg)
    (ha : Contains dec.top (regRuleWindow cfg s) a) :
    route cfg dec a = (regTarget s).port cfg := by
  have hen := mem_regRuleList hs
  have hmap := regMap_eq cfg (length_regDevs cfg ▸ h.regFits.rules)
  have hdecode : ∃ p, dec.decode (regMap cfg) a = some p ∧ (regTarget s).port cfg = .reg p := by
    rcases s with f | k
    · have hf := RegField.target_enabled.mp hen
      obtain ⟨k, hk⟩ := List.mem_iff_getElem?.mp ((mem_regDevs cfg f).mpr hf)
      have hfield := field_regDevs cfg hk (h.regFits.inArray hf)
      refine ⟨.ofNat 6 (k + 1), dec.hit _ _ ⟨.ofNat 6 (k + 1), f.window.1, f.window.2⟩
        (h.atMostOne_regMap a) ?_ ha, ?_⟩
      · rw [hmap]
        exact List.mem_append_left _ (List.mem_map.mpr
          ⟨(f, k), List.mem_zipIdx_iff_getElem?.mpr hk, rfl⟩)
      · rw [← hfield]
        cases f <;> first | rfl | exact hf.elim
    · refine ⟨.ofNat 6 ((regDevs cfg).length + 1 + (cfg.regExtRegionIdx k).toNat),
        dec.hit _ _ ⟨_, cfg.regExtRegionStart k, cfg.regExtRegionEnd k⟩
          (h.atMostOne_regMap a) ?_ ha, ?_⟩
      · rw [hmap]
        exact List.mem_append_right _ (List.mem_map.mpr ⟨k, List.mem_range.mpr hen, rfl⟩)
      · have hcut : BitVec.ofNat 6 ((regDevs cfg).length + 1) +
            (cfg.regExtRegionIdx k).setWidth 6 =
              .ofNat 6 ((regDevs cfg).length + 1 + (cfg.regExtRegionIdx k).toNat) := by
          refine BitVec.eq_of_toNat_eq ?_
          simp
        simp only [regTarget, Target.port, field_extBase, hcut]
  obtain ⟨p, hp, hport⟩ := hdecode
  rw [route, h.regRule_to_demux hs ha, hport]
  simp [hp]

/-- The rule of a target: at the crossbar, or behind it at the reg demux. -/
lemma MapOk.exists_rule {t : Target} (ht : t.Enabled cfg) (ha : t.Holds cfg dec.top a) :
    (∃ s ∈ axiRules cfg, s.target = some t ∧ (∀ k, s ≠ .regExt k) ∧
      Contains dec.top (s.window cfg) a) ∨
    ∃ s ∈ regRuleList cfg, regTarget s = t ∧ Contains dec.top (regRuleWindow cfg s) a := by
  have haxi {s : AxiRule} (hs : s ∈ axiRules cfg) (hst : s.target = some t)
      (hreg : ∀ k, s ≠ .regExt k) : ∃ s ∈ axiRules cfg, s.target = some t ∧
        (∀ k, s ≠ .regExt k) ∧ Contains dec.top (s.window cfg) a :=
    ⟨s, hs, hst, hreg, (h.axiRule_holds hst).mpr ha⟩
  have hdev {f : RegField} (hf : f.target = t) : ∃ s ∈ regRuleList cfg, regTarget s = t ∧
      Contains dec.top (regRuleWindow cfg s) a := by
    have hmem : (.inl f : RegField ⊕ ℕ) ∈ regRuleList cfg :=
      List.mem_append_left _ (List.mem_map_of_mem
        ((mem_regDevs cfg f).mpr (RegField.target_enabled.mp (hf ▸ ht))))
    exact ⟨_, hmem, hf, (h.regRule_holds hmem).mpr (by rw [regTarget, hf]; exact ha)⟩
  cases t with
  | dev d =>
    cases d
    case debugRom => exact .inl (haxi (s := .dbg) ((mem_axiRules cfg _).mpr ht) rfl nofun)
    case dma => exact .inl (haxi (s := .dma) ((mem_axiRules cfg _).mpr ht) rfl nofun)
    case spmCached => exact .inl (haxi (s := .spm) ((mem_axiRules cfg _).mpr ht) rfl nofun)
    case spmUncached =>
      exact .inl (haxi (s := .spmUncached) ((mem_axiRules cfg _).mpr ht) rfl nofun)
    case bootrom => exact .inr (hdev (f := .bootrom) rfl)
    case clint => exact .inr (hdev (f := .clint) rfl)
    case irqRouter => exact .inr (hdev (f := .irqRouter) rfl)
    case axirt => exact .inr (hdev (f := .axirt) rfl)
    case regs => exact .inr (hdev (f := .regs) rfl)
    case llc => exact .inr (hdev (f := .llc) rfl)
    case uart => exact .inr (hdev (f := .uart) rfl)
    case i2c => exact .inr (hdev (f := .i2c) rfl)
    case spiHost => exact .inr (hdev (f := .spiHost) rfl)
    case gpio => exact .inr (hdev (f := .gpio) rfl)
    case slink => exact .inr (hdev (f := .slink) rfl)
    case vga => exact .inr (hdev (f := .vga) rfl)
    case plic => exact .inr (hdev (f := .plic) rfl)
    case unbent => exact ht.elim
    case clics => exact ht.elim
  | unbent j => exact .inr (hdev (f := .busErr j) rfl)
  | clic j => exact .inr (hdev (f := .clic j) rfl)
  | ext e =>
    cases e with
    | llcOut => exact .inl (haxi (s := .llc) ((mem_axiRules cfg _).mpr ht) rfl nofun)
    | slink => exact .inl (haxi (s := .slink) ((mem_axiRules cfg _).mpr ht) rfl nofun)
    | axi k => exact .inl (haxi (s := .ext k) ((mem_axiRules cfg _).mpr ht) rfl nofun)
    | reg k =>
      have hmem : (.inr k : RegField ⊕ ℕ) ∈ regRuleList cfg :=
        List.mem_append_right _ (List.mem_map_of_mem (List.mem_range.mpr ht))
      exact .inr ⟨_, hmem, rfl, ha⟩

/-- An address of a target reaches its port. -/
theorem MapOk.route_target {t : Target} (ht : t.Enabled cfg) (ha : t.Holds cfg dec.top a) :
    route cfg dec a = t.port cfg := by
  rcases h.exists_rule ht ha with ⟨s, hs, hst, hreg, hsa⟩ | ⟨s, hs, rfl, hsa⟩
  · exact h.route_axi hs hst hreg hsa
  · exact h.route_reg hs hsa

/-- An address of no target reaches no device. -/
theorem MapOk.route_none (ha : ∀ t : Target, t.Enabled cfg → ¬ t.Holds cfg dec.top a) :
    route cfg dec a = .decErr ∨ route cfg dec a = .reg ((genRegOut cfg).field .err) := by
  by_cases hw : Contains dec.top (AxiRule.window cfg .regs) a
  · right
    have hmiss : dec.decode (regMap cfg) a = none := by
      refine dec.miss _ _ fun rl hrl hc => ?_
      have hmem : rl.window ∈ (regMap cfg).map Arul.window := List.mem_map_of_mem hrl
      rw [h.windows_regMap] at hmem
      obtain ⟨s, hs, hsw⟩ := List.mem_map.mp hmem
      exact ha _ (mem_regRuleList hs) ((h.regRule_holds hs).mp (hsw ▸ hc))
    rw [route, h.decode_axiMap ((mem_axiRules cfg .regs).mpr trivial) hw, field_regDemux, hmiss]
    rfl
  · left
    have hmiss : dec.decode (axiMap cfg) a = none := by
      refine dec.miss _ _ fun rl hrl hc => ?_
      rw [axiMap_eq] at hrl
      obtain ⟨s, hs, rfl⟩ := List.mem_map.mp hrl
      rcases ht : s.target with _ | t
      · cases s <;> cases ht
        exact hw hc
      · exact ha t (MapOk.axiRule_enabled hs ht) ((h.axiRule_holds ht).mp hc)
    rw [route, hmiss]

end Decode

/-! ### What answers there -/

/-- A slave is present, and hangs neither on the port of the demux nor on that of its error
slave. -/
def Slave.Present (cfg : CheshireCfg) : Slave → Prop
  | .inl p => p.Present cfg ∧ p ≠ .regDemux
  | .inr p => p.Present cfg ∧ p ≠ .err

/-- The port of a slave. -/
def Slave.port (cfg : CheshireCfg) : Slave → Port
  | .inl p => .axi (.ofNat 6 (p.index (genAxiOut cfg)))
  | .inr p => .reg (.ofNat 6 (p.index (genRegOut cfg)))

section Slaves

variable (h : MapOk cfg top)
include h

lemma MapOk.axiOutOk : AxiOutOk cfg := Hw.axiOutOk h.llc h.axiIdx

lemma MapOk.slave_present {t : Target} (ht : t.Enabled cfg) : (t.slave cfg).Present cfg := by
  cases t with
  | dev d =>
    cases d <;> simp only [Target.Enabled] at ht <;>
      first
      | exact ⟨ht, by rintro ⟨⟩⟩
      | exact ⟨h.llc ht, by rintro ⟨⟩⟩
  | unbent j => exact ⟨ht, by rintro ⟨⟩⟩
  | clic j => exact ⟨ht, by rintro ⟨⟩⟩
  | ext e =>
    cases e with
    | llcOut => exact ⟨ht, by rintro ⟨⟩⟩
    | slink => exact ⟨ht, by rintro ⟨⟩⟩
    | axi k => exact ⟨h.axiIdx k ht, by rintro ⟨⟩⟩
    | reg k => exact ⟨h.regIdx k ht, by rintro ⟨⟩⟩

/-- The port of a target is the one of its slave. -/
lemma MapOk.port_eq {t : Target} (ht : t.Enabled cfg) : t.port cfg = (t.slave cfg).port cfg := by
  have hadd (p : Aw) (i : BitVec 8) : p + i.setWidth 6 = .ofNat 6 (p.toNat + i.toNat) := by
    refine BitVec.eq_of_toNat_eq ?_
    simp
  cases t with
  | dev d =>
    cases d
    case spmCached | spmUncached =>
      simp [Target.port, Target.slave, Slave.port, AxiPort.index, h.axiOutOk.spm ht]
    case unbent | clics => exact ht.elim
    all_goals simp [Target.port, Target.slave, Slave.port, AxiPort.index, RegPort.index]
  | unbent j => simp [Target.port, Target.slave, Slave.port, RegPort.index]
  | clic j => simp [Target.port, Target.slave, Slave.port, RegPort.index]
  | ext e =>
    cases e with
    | llcOut => simp [Target.port, Target.slave, Slave.port, AxiPort.index]
    | slink => simp [Target.port, Target.slave, Slave.port, AxiPort.index]
    | axi k => exact congrArg Port.axi (hadd _ _)
    | reg k => exact congrArg Port.reg (hadd _ _)

/-- Two slaves never share a port. -/
lemma MapOk.slave_port_inj {x y : Slave} (hx : x.Present cfg) (hy : y.Present cfg)
    (heq : x.port cfg = y.port cfg) : x = y := by
  have hcut {i j : ℕ} (hi : i < 64) (hj : j < 64) (hij : BitVec.ofNat 6 i = .ofNat 6 j) :
      i = j := by
    have := congrArg BitVec.toNat hij
    simpa [Nat.mod_eq_of_lt hi, Nat.mod_eq_of_lt hj] using this
  rcases x with p | p <;> rcases y with q | q
  · have hp := Nat.lt_trans (h.axiOutOk.below p hx.1) (BitVec.isLt _)
    have hq := Nat.lt_trans (h.axiOutOk.below q hy.1) (BitVec.isLt _)
    rw [h.axiOutOk.distinct p q hx.1 hy.1 (hcut hp hq (Port.axi.inj heq))]
  · cases heq
  · cases heq
  · have hp := Nat.lt_trans (h.regFits.index_lt hx.1) (BitVec.isLt _)
    have hq := Nat.lt_trans (h.regFits.index_lt hy.1) (BitVec.isLt _)
    rw [h.regFits.index_inj hx.1 hy.1 (hcut hp hq (Port.reg.inj heq))]

/-- The port of a slave is there, and it is not the demux's or its error slave's. -/
lemma MapOk.slave_leads {x : Slave} (hx : x.Present cfg) : (x.port cfg).Leads cfg := by
  rcases x with p | p
  · have hlt := h.axiOutOk.below p hx.1
    have hidx := Nat.mod_eq_of_lt (Nat.lt_trans hlt (BitVec.isLt _))
    refine ⟨BitVec.lt_def.mpr ?_, fun heq => hx.2 ?_⟩
    · rwa [BitVec.toNat_ofNat, hidx]
    · refine h.axiOutOk.distinct p .regDemux hx.1 trivial ?_
      rw [AxiPort.index, ← heq, BitVec.toNat_ofNat, hidx]
  · have hlt := h.regFits.index_lt hx.1
    have hidx := Nat.mod_eq_of_lt (Nat.lt_trans hlt (BitVec.isLt _))
    refine ⟨BitVec.lt_def.mpr ?_, fun heq => hx.2 ?_⟩
    · rwa [BitVec.toNat_ofNat, hidx]
    · have herr : RegPort.err.index (genRegOut cfg) = ((genRegOut cfg).field .err).toNat := rfl
      refine h.regFits.index_inj hx.1 trivial ?_
      rw [herr, ← heq, BitVec.toNat_ofNat, hidx]

/-- Targets with one port are in one slave. -/
theorem MapOk.slave_eq {t t' : Target} (ht : t.Enabled cfg) (ht' : t'.Enabled cfg)
    (heq : t.port cfg = t'.port cfg) : t.slave cfg = t'.slave cfg := by
  rw [h.port_eq ht, h.port_eq ht'] at heq
  exact h.slave_port_inj (h.slave_present ht) (h.slave_present ht') heq

/-- The port of a target leads somewhere. -/
theorem MapOk.port_leads {t : Target} (ht : t.Enabled cfg) : (t.port cfg).Leads cfg := by
  rw [h.port_eq ht]
  exact h.slave_leads (h.slave_present ht)

end Slaves

/-- **Two-level decoding follows the memory map**: an address of a target reaches the port of its
slave, every slave has a port of its own, and no other address reaches one. -/
theorem route_eq_memMap (dec : AddrDecode) (cfg : CheshireCfg) (h : MapOk cfg dec.top) (a : Doub) :
    AtMostOne dec.top (axiMap cfg) a ∧ AtMostOne dec.top (regMap cfg) a ∧
    (∀ rl ∈ regMap cfg, Contains dec.top rl.window a →
      dec.decode (axiMap cfg) a = some ((genAxiOut cfg).field .regDemux)) ∧
    (∀ t : Target, t.Enabled cfg → t.Holds cfg dec.top a → route cfg dec a = t.port cfg ∧
      ∀ t' : Target, t'.Enabled cfg → t'.Holds cfg dec.top a → t' = t) ∧
    ((∀ t : Target, t.Enabled cfg → ¬ t.Holds cfg dec.top a) →
      route cfg dec a = .decErr ∨ route cfg dec a = .reg ((genRegOut cfg).field .err)) ∧
    AxiOutOk cfg ∧ RegOutOk cfg ∧
    (∀ t : Target, t.Enabled cfg → (t.slave cfg).Present cfg ∧ t.port cfg = (t.slave cfg).port cfg ∧
      (t.port cfg).Leads cfg) ∧
    ∀ t t' : Target, t.Enabled cfg → t'.Enabled cfg → t.port cfg = t'.port cfg →
      t.slave cfg = t'.slave cfg := by
  refine ⟨h.atMostOne_axiMap a, h.atMostOne_regMap a, fun rl hrl hc => ?_, fun t ht ha => ?_,
    h.route_none, h.axiOutOk, h.regFits.regOutOk, fun t ht => ?_, fun t t' => h.slave_eq⟩
  · have hmem : rl.window ∈ (regMap cfg).map Arul.window := List.mem_map_of_mem hrl
    rw [h.windows_regMap] at hmem
    obtain ⟨s, hs, hsw⟩ := List.mem_map.mp hmem
    exact h.regRule_to_demux hs (hsw ▸ hc)
  · exact ⟨h.route_target ht ha, fun t' ht' ha' => h.unique ht' ht ha' ha⟩
  · exact ⟨h.slave_present ht, h.port_eq ht, h.port_leads ht⟩

/-- A decoder that takes the last rule that matches. -/
def lastMatch : AddrDecode where
  top := true
  decode rules a := ((rules.filter fun rl => decide (Contains true rl.window a)).getLast?).map
    Arul.idx
  hit rules a rl h hrl hc := by
    have hall : ∀ x ∈ rules.filter fun rl => decide (Contains true rl.window a), x = rl := by
      intro x hx
      obtain ⟨hx, hxc⟩ := List.mem_filter.mp hx
      obtain ⟨j, hj⟩ := List.mem_iff_getElem?.mp hx
      obtain ⟨k, hk⟩ := List.mem_iff_getElem?.mp hrl
      have hjk := h j k x rl hj hk (of_decide_eq_true hxc) hc
      rw [hjk, hk] at hj
      exact (Option.some.inj hj).symm
    have hmem : rl ∈ rules.filter fun rl => decide (Contains true rl.window a) :=
      List.mem_filter.mpr ⟨hrl, decide_eq_true hc⟩
    rw [List.getLast?_eq_some_getLast (List.ne_nil_of_mem hmem)]
    exact congrArg (fun x : Arul => some x.idx) (hall _ (List.getLast_mem _))
  miss rules a h := by
    have hnil : (rules.filter fun rl => decide (Contains true rl.window a)) = [] :=
      List.filter_eq_nil_iff.mpr fun rl hrl hc => h rl hrl (of_decide_eq_true hc)
    rw [hnil]
    rfl

theorem mapOk_defaultCfg : MapOk defaultCfg true where
  cores := by decide
  llc := fun _ => rfl
  spm := by decide
  axiIdx := fun k hk => absurd hk (Nat.not_lt_zero k)
  regIdx := fun k hk => absurd hk (Nat.not_lt_zero k)
  above := by
    rintro (_ | _ | k | k) a he ha
    · exact Nat.le_trans (by decide) (BitVec.le_def.mp ha.1)
    · exact Nat.le_trans (by decide) (BitVec.le_def.mp ha.1)
    · exact absurd he (Nat.not_lt_zero k)
    · exact absurd he (Nat.not_lt_zero k)
  disjoint := by
    have hapart {a : Doub} (h1 : Contains true (ExtRegion.window defaultCfg .llcOut) a)
        (h2 : Contains true (ExtRegion.window defaultCfg .slink) a) : False := by
      have h3 := (contains_iff (by decide)).mp h1
      have h4 := (contains_iff (by decide)).mp h2
      exact Nat.lt_irrefl _ (Nat.lt_of_lt_of_le h3.2 h4.1)
    rintro (_ | _ | k | k) (_ | _ | k' | k') a he he' ha ha' <;> first
      | rfl
      | exact absurd he (Nat.not_lt_zero _)
      | exact absurd he' (Nat.not_lt_zero _)
      | exact (hapart ha ha').elim
      | exact (hapart ha' ha).elim

/-- In the default configuration the line status register of the UART is reached at port 6. -/
theorem route_uart : route defaultCfg lastMatch 0x0300_2014 = .reg 6 :=
  (((route_eq_memMap lastMatch defaultCfg mapOk_defaultCfg 0x0300_2014).2.2.2.1
    (.dev .uart) rfl ⟨by decide, by decide⟩).1).trans (by decide +kernel)

end Cheshire.Hw
