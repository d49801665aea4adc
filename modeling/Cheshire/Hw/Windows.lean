import Cheshire.Hw.MemMap

/-!
The memory map of a configuration: its devices and external regions, and that no address belongs
to two of them.
-/

namespace Cheshire.Hw

/-- The address lies in the window.  With `top`, an end of zero is the top of the address space. -/
def Contains (top : Bool) (w : Doub × Doub) (a : Doub) : Prop :=
  w.1 ≤ a ∧ (a < w.2 ∨ top = true ∧ w.2 = 0)

instance (top : Bool) (w : Doub × Doub) (a : Doub) : Decidable (Contains top w a) := by
  unfold Contains
  infer_instance

variable (cfg : CheshireCfg)

/-! ### The memory map -/

/-- The regions outside the internal map. -/
inductive ExtRegion where
  | llcOut
  | slink
  | axi (k : ℕ)
  | reg (k : ℕ)
  deriving DecidableEq

/-- What an address can belong to. -/
inductive Target where
  | dev (d : Device)
  | unbent (j : ℕ)
  | clic (j : ℕ)
  | ext (e : ExtRegion)
  deriving DecidableEq

def ExtRegion.Enabled : ExtRegion → Prop
  | .llcOut => cfg.llcOutConnect = true
  | .slink => cfg.serialLink = true
  | .axi k => k < cfg.axiExtNumRules.toNat
  | .reg k => k < cfg.regExtNumRules.toNat

def ExtRegion.window : ExtRegion → Doub × Doub
  | .llcOut => (cfg.llcOutRegionStart, cfg.llcOutRegionEnd)
  | .slink => (cfg.slinkRegionStart, cfg.slinkRegionEnd)
  | .axi k => (cfg.axiExtRegionStart k, cfg.axiExtRegionEnd k)
  | .reg k => (cfg.regExtRegionStart k, cfg.regExtRegionEnd k)

/-- The rows UNBENT and CLICs are blocks of one device a unit. -/
def Target.Enabled : Target → Prop
  | .dev d => match d with
    | .debugRom | .clint | .plic | .regs => True
    | .dma => cfg.dma = true
    | .bootrom => cfg.bootrom = true
    | .irqRouter => cfg.irqRouter = true
    | .axirt => cfg.axiRt = true
    | .llc | .spmCached | .spmUncached => cfg.llcNotBypass = true
    | .uart => cfg.uart = true
    | .i2c => cfg.i2c = true
    | .spiHost => cfg.spiHost = true
    | .gpio => cfg.gpio = true
    | .slink => cfg.serialLink = true
    | .vga => cfg.vga = true
    | .unbent | .clics => False
  | .unbent j => cfg.busErr = true ∧ j < cfg.numCores.toNat + 2
  | .clic j => cfg.clic = true ∧ j < cfg.numCores.toNat
  | .ext e => e.Enabled cfg

/-- The windows of the memory map. -/
def Target.Holds (top : Bool) (a : Doub) : Target → Prop
  | .dev .spmCached => InWindow 0x1000_0000 (0x1000_0000 + (sizeSpm cfg).toNat) a.toNat
  | .dev .spmUncached => InWindow 0x1400_0000 (0x1400_0000 + (sizeSpm cfg).toNat) a.toNat
  | .dev d => InWindow d.start (d.start + d.size) a.toNat
  | .unbent j => InWindow (0x0300_8000 + j * 0x40) (0x0300_8000 + (j + 1) * 0x40) a.toNat
  | .clic j => InWindow (0x0800_0000 + j * 0x4_0000) (0x0800_0000 + (j + 1) * 0x4_0000) a.toNat
  | .ext e => Contains top (e.window cfg) a

/-- What is asked of a configuration. -/
structure MapOk (top : Bool) : Prop where
  cores : 1 ≤ cfg.numCores.toNat ∧ cfg.numCores.toNat ≤ 16
  llc : cfg.llcNotBypass = true → cfg.llcOutConnect = true
  spm : (sizeSpm cfg).toNat ≤ 0x400_0000
  axiIdx : ∀ k < cfg.axiExtNumRules.toNat,
    (cfg.axiExtRegionIdx k).toNat < cfg.axiExtNumSlv.toNat
  regIdx : ∀ k < cfg.regExtNumRules.toNat,
    (cfg.regExtRegionIdx k).toNat < cfg.regExtNumSlv.toNat
  above : ∀ (e : ExtRegion) (a : Doub), e.Enabled cfg → Contains top (e.window cfg) a →
    0x2000_0000 ≤ a.toNat
  disjoint : ∀ (e e' : ExtRegion) (a : Doub), e.Enabled cfg → e'.Enabled cfg →
    Contains top (e.window cfg) a → Contains top (e'.window cfg) a → e = e'

/-! ### The windows are disjoint -/

/-- The block of a target, if it is internal. -/
def Target.block : Target → Option Device
  | .dev d => some d
  | .unbent _ => some .unbent
  | .clic _ => some .clics
  | .ext _ => none

/-- The rows of the memory map are disjoint. -/
theorem Device.apart : ∀ d d' : Device, d ≠ d' →
    d.start + d.size ≤ d'.start ∨ d'.start + d'.size ≤ d.start := by decide +kernel

theorem Device.below : ∀ d : Device, d.start + d.size ≤ 0x2000_0000 := by decide +kernel

variable {cfg} {top : Bool} {a : Doub}

lemma contains_iff {w : Doub × Doub} (h : w.2.toNat ≠ 0) :
    Contains top w a ↔ InWindow w.1.toNat w.2.toNat a.toNat := by
  have hne : w.2 ≠ 0 := fun h0 => h (by rw [h0]; rfl)
  simp only [Contains, InWindow, BitVec.le_def, BitVec.lt_def, hne, and_false, or_false]

/-- What an internal target holds lies in its block. -/
lemma MapOk.in_block (h : MapOk cfg top) {t : Target} {d : Device} (hd : t.block = some d)
    (ht : t.Enabled cfg) (ha : t.Holds cfg top a) :
    InWindow d.start (d.start + d.size) a.toNat := by
  have hspm := h.spm
  have hcores := h.cores
  cases t with
  | dev d' =>
    obtain rfl := Option.some.inj hd
    cases d' <;> simp only [Target.Holds, InWindow, Device.start, Device.size] at ha ⊢ <;> omega
  | unbent j =>
    obtain rfl := Option.some.inj hd
    obtain ⟨-, hj⟩ := ht
    simp only [Target.Holds, InWindow, Device.start, Device.size] at ha ⊢
    omega
  | clic j =>
    obtain rfl := Option.some.inj hd
    obtain ⟨-, hj⟩ := ht
    simp only [Target.Holds, InWindow, Device.start, Device.size] at ha ⊢
    omega
  | ext e => cases hd

/-- An address belongs to at most one target. -/
theorem MapOk.unique (h : MapOk cfg top) {t t' : Target} (ht : t.Enabled cfg)
    (ht' : t'.Enabled cfg) (ha : t.Holds cfg top a) (ha' : t'.Holds cfg top a) : t = t' := by
  have hint {s : Target} {d : Device} (hd : s.block = some d) (hs : s.Enabled cfg)
      (hsa : s.Holds cfg top a) : InWindow d.start (d.start + d.size) a.toNat ∧
        a.toNat < 0x2000_0000 :=
    ⟨h.in_block hd hs hsa, Nat.lt_of_lt_of_le (h.in_block hd hs hsa).2 d.below⟩
  rcases hb : t.block with _ | d <;> rcases hb' : t'.block with _ | d'
  · cases t <;> cases hb
    cases t' <;> cases hb'
    rw [h.disjoint _ _ a ht ht' ha ha']
  · cases t <;> cases hb
    have := h.above _ a ht ha
    have := (hint hb' ht' ha').2
    omega
  · cases t' <;> cases hb'
    have := h.above _ a ht' ha'
    have := (hint hb ht ha).2
    omega
  · have hw := (hint hb ht ha).1
    have hw' := (hint hb' ht' ha').1
    have hdd : d = d' := by
      by_contra hne
      simp only [InWindow] at hw hw'
      rcases d.apart d' hne with h1 | h1 <;> omega
    subst hdd
    -- units of one block are told apart by their slices
    cases t <;> cases hb <;> cases t' <;> cases hb' <;> try rfl
    · exact ht.elim
    · exact ht.elim
    · exact ht'.elim
    · simp only [Target.Holds, InWindow] at ha ha'
      congr 1
      omega
    · exact ht'.elim
    · simp only [Target.Holds, InWindow] at ha ha'
      congr 1
      omega

end Cheshire.Hw
