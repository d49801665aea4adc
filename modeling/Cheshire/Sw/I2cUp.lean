import Cheshire.Lib.Fuel
import Cheshire.Sw.I2cRead

/-!
The EEPROM set up and in use: `i2c_24fc1025_init`, and reads behind a host that works off what it is
given.  Such a read comes to an end; what it leaves in memory has been shown for any host.
-/

namespace Cheshire.Sw.I2c

open Lib

/-! ### The setup -/

/-- `dif_i2c_speed_t`, of which the driver uses one. -/
inductive Speed where
  | fast

/-- `dif_i2c_timing_config_t`. -/
structure TimingConfig where
  clockPeriodNanos : U64
  lowestTargetDeviceSpeed : Speed
  sclPeriodNanos : U64
  sdaFallNanos : U64
  sdaRiseNanos : U64

/-- The functions of the DIF that set up the host, with the codes that they return. -/
structure Setup (σ κ : Type) where
  /-- `dif_i2c_init` -/
  init : σ → CInt × σ
  /-- `dif_i2c_reset_acq_fifo` -/
  resetAcqFifo : σ → CInt × σ
  /-- `dif_i2c_reset_fmt_fifo` -/
  resetFmtFifo : σ → CInt × σ
  /-- `dif_i2c_reset_rx_fifo` -/
  resetRxFifo : σ → CInt × σ
  /-- `dif_i2c_reset_tx_fifo` -/
  resetTxFifo : σ → CInt × σ
  /-- `dif_i2c_compute_timing` -/
  computeTiming : TimingConfig → CInt × κ
  /-- `dif_i2c_configure` -/
  configure : κ → σ → CInt × σ

/-- The worst case of the 24FC1025, at 1.8 V. -/
def timingConfig (coreFreq : U64) : TimingConfig where
  clockPeriodNanos := 1000000000 / coreFreq
  lowestTargetDeviceSpeed := .fast
  sclPeriodNanos := 1000000 / 400
  sdaFallNanos := 300
  sdaRiseNanos := 100

/-- `i2c_24fc1025_init`. -/
def i2c24fc1025Init {σ κ : Type} (dif : Dif σ) (setup : Setup σ κ) (coreFreq : U64) :
    PollM (St σ) Unit := do
  if coreFreq ≠ 0 then pure () else throw (some 0x12)
  checkDif' setup.init
  checkDif' (dif.hostSetEnabled false)
  checkDif' setup.resetAcqFifo
  checkDif' setup.resetFmtFifo
  checkDif' setup.resetRxFifo
  checkDif' setup.resetTxFifo
  let config ← checkDif fun s => (setup.computeTiming (timingConfig coreFreq), s)
  checkDif' (setup.configure config)
  checkDif' (dif.hostSetEnabled true)

/-! ### A host that works -/

/-- What the FIFOs hold and will hold fits into the levels. -/
def Small (h : Host) : Prop := h.fmt.length < 256 ∧ h.outcome.1.length < 256

/-- A poll of the levels, on the host. -/
def polled {σ : Type} (dif : Dif σ) (s : σ) : σ := (dif.getFifoLevels s).2

/-- A host whose functions succeed, and that works off what it is given within `turns` polls. -/
structure Prompt {σ : Type} (dif : Dif σ) (view : σ → Host) (turns : ℕ) : Prop
    extends Contract dif view where
  levels_ok : ∀ s, Small (view s) → (dif.getFifoLevels s).1.1 = 0 ∧
    (dif.getFifoLevels s).1.2.tx = 0 ∧ (dif.getFifoLevels s).1.2.acq = 0
  enable_ok : ∀ b s, (dif.hostSetEnabled b s).1 = 0
  write_ok : ∀ b f s, (dif.writeByte b f (f != .rx) s).1 = 0
  read_ok : ∀ s, (view s).rx ≠ [] → (dif.readByte s).1.1 = 0
  prompt : ∀ s, (view s).enabled = true → Small (view s) →
    (view ((polled dif)^[turns] s)).fmt = []

/-- The call succeeds and does this to the host, which may run on before. -/
def Does {σ : Type} (view : σ → Host) (call : σ → CInt × σ) (f : Host → Host) : Prop :=
  ∀ s, (call s).1 = 0 ∧ ∃ h, Run (view s) h ∧ view (call s).2 = f h

/-- A host that can be set up, as long as its clock has a period. -/
structure SetsUp {σ κ : Type} (setup : Setup σ κ) (view : σ → Host) : Prop where
  init : Does view setup.init id
  acq : Does view setup.resetAcqFifo id
  fmt : Does view setup.resetFmtFifo fun h => { h with fmt := [] }
  rx : Does view setup.resetRxFifo fun h => { h with rx := [] }
  tx : Does view setup.resetTxFifo id
  timing : ∀ t, t.clockPeriodNanos ≠ 0 → (setup.computeTiming t).1 = 0
  configure : ∀ c, Does view (setup.configure c) id

/-- The host works, and all that it has received has been fetched. -/
structure Idle (h : Host) : Prop where
  enabled : h.enabled = true
  fetched : h.outcome.1 = []
  small : Small h

/-! ### Runs of the host -/

section Up

variable {σ κ : Type} {dif : Dif σ} {setup : Setup σ κ} {view : σ → Host} {turns : ℕ} {c : Mem 16}

lemma Step.length_fmt_le {h h' : Host} (hs : Step h h') : h'.fmt.length ≤ h.fmt.length := by
  cases hs with
  | start | tx | txStop => exact Nat.le_succ _
  | @rx n f rx e =>
    show (if n = 1 then f else (n - 1, .rx) :: f).length ≤ f.length + 1
    split
    · exact Nat.le_succ _
    · exact Nat.le_refl _

lemma Run.length_fmt_le {h h' : Host} (hr : Run h h') : h'.fmt.length ≤ h.fmt.length := by
  induction hr with
  | refl => exact Nat.le_refl _
  | tail _ hs ih => exact Nat.le_trans hs.length_fmt_le ih

lemma Small.run {h h' : Host} (hs : Small h) (hr : Run h h') : Small h' :=
  ⟨Nat.lt_of_le_of_lt hr.length_fmt_le hs.1, by rw [hr.outcome_eq]; exact hs.2⟩

lemma length_rx_le (h : Host) : h.rx.length ≤ h.outcome.1.length := by
  rw [Host.outcome_eq, List.length_append]
  exact Nat.le_add_right _ _

/-- A host that has nothing to do has received all it will. -/
lemma outcome_of_done {h : Host} (hf : h.fmt = []) : h.outcome.1 = h.rx := by
  rw [Host.outcome, hf]
  rfl

/-- Any number of polls let the host run on. -/
lemma Prompt.run_polled (hp : Prompt dif view turns) : ∀ (n : ℕ) (s : σ), Small (view s) →
    Run (view s) (view ((polled dif)^[n] s)) := by
  intro n
  induction n with
  | zero =>
    intro s _
    exact .refl
  | succ n ih =>
    intro s hs
    have hone : Run (view s) (view (polled dif s)) := (hp.levels s (hp.levels_ok s hs).1).1
    rw [Function.iterate_succ_apply]
    exact hone.trans (ih _ (hs.run hone))

/-! ### Polls -/

/-- A poll that is not busy after `n` turns comes to an end. -/
lemma Prompt.returns_poll (hp : Prompt dif view turns) {busy : Levels → Bool} : ∀ (n fuel : ℕ)
    (s : St σ), Small (view s.dev) → n < fuel →
      busy (dif.getFifoLevels ((polled dif)^[n] s.dev)).1.2 = false →
      Returns (pollLevels dif busy fuel) s fun _ _ => True := by
  intro n
  induction n with
  | zero =>
    intro fuel s hs hfuel hbusy
    obtain ⟨fuel, rfl⟩ : ∃ k, fuel = k + 1 := ⟨fuel - 1, by omega⟩
    rw [pollLevels]
    refine returns_bind.mpr (returns_checkDif (hp.levels_ok _ hs).1 ?_)
    rw [Function.iterate_zero_apply] at hbusy
    rw [hbusy]
    trivial
  | succ n ih =>
    intro fuel s hs hfuel hbusy
    obtain ⟨fuel, rfl⟩ : ∃ k, fuel = k + 1 := ⟨fuel - 1, by omega⟩
    rw [Function.iterate_succ_apply] at hbusy
    have hok := (hp.levels_ok _ hs).1
    rw [pollLevels]
    refine returns_bind.mpr (returns_checkDif hok ?_)
    split
    · exact ih fuel ⟨s.mem, polled dif s.dev⟩ (hs.run (hp.levels _ hok).1) (by omega) hbusy
    · trivial

/-- **A poll of a working host** ends, if it is not busy when the host has nothing to do. -/
theorem Prompt.returns_pollLevels (hp : Prompt dif view turns) {busy : Levels → Bool} {fuel : ℕ}
    {s : St σ} (hen : (view s.dev).enabled = true) (hs : Small (view s.dev)) (hfuel : turns < fuel)
    (hbusy : ∀ l : Levels, l.fmt = 0 → l.rx.toNat = (view s.dev).outcome.1.length → l.tx = 0 →
      l.acq = 0 → busy l = false) :
    Returns (pollLevels dif busy fuel) s fun _ s' => s'.mem = s.mem ∧
      Run (view s.dev) (view s'.dev) ∧ ∃ l : Levels, busy l = false ∧
        l.fmt.toNat = (view s'.dev).fmt.length ∧ l.rx.toNat = (view s'.dev).rx.length := by
  refine (Returns.and_leaves (hp.returns_poll turns fuel s hs hfuel ?_)
    (leaves_pollLevels hp.toContract busy fuel s)).mono fun _ _ h => h.2
  have hrun := hp.run_polled turns s.dev hs
  have hdone := hp.prompt s.dev hen hs
  generalize (polled dif)^[turns] s.dev = t at hrun hdone
  obtain ⟨hok, htx, hacq⟩ := hp.levels_ok t (hs.run hrun)
  obtain ⟨hrest, hfmt, hrx⟩ := hp.levels t hok
  have hsame := hrest.eq_of_rest (.inr hdone)
  rw [hsame] at hfmt hrx
  refine hbusy _ (BitVec.eq_of_toNat_eq ?_) ?_ htx hacq
  · rw [hfmt, hdone]
    rfl
  · rw [hrx, ← outcome_of_done hdone, hrun.outcome_eq]

/-! ### A chunk -/

/-- A function that succeeds has the effect that it has when it succeeds. -/
lemma returns_checkDif' {call : σ → CInt × σ} {s : St σ} {Q : Unit → St σ → Prop}
    (h0 : (call s.dev).1 = 0) (hQ : Leaves (checkDif' call) s Q) :
    Returns (checkDif' call) s Q := by
  refine (Returns.and_leaves (Q := fun _ _ => True) ?_ hQ).mono fun _ _ h => h.2
  unfold checkDif'
  exact returns_checkDif h0 trivial

lemma Prompt.returns_writeByte (hp : Prompt dif view turns) {m : Mem 64} {e : Eeprom}
    {f : List (Byte × Fmt)} {s : St σ} (hs : Queued view m e f s) (b : Byte) (k : Fmt) :
    Returns (checkDif' (dif.writeByte b k (k != .rx))) s fun _ => Queued view m e (f ++ [(b, k)]) :=
  returns_checkDif' (hp.write_ok b k s.dev) (leaves_writeByte hp.toContract hs b k _)

/-- The start of a chunk. -/
lemma Prompt.returns_quiesce (hp : Prompt dif view turns) {fuel : ℕ} (hfuel : turns < fuel)
    {s : St σ} (hs : Idle (view s.dev)) {k : PollM (St σ) Unit} {Q : Unit → St σ → Prop}
    (hk : ∀ e s', Queued view s.mem e [] s' → Returns k s' Q) :
    Returns (do
      pollLevels dif (fun l => l.fmt != 0 || l.rx != 0 || l.tx != 0 || l.acq != 0) fuel
      spinTicks dif 1
      checkDif' (dif.hostSetEnabled false)
      k) s Q := by
  have hbusy : ∀ l : Levels, l.fmt = 0 → l.rx.toNat = (view s.dev).outcome.1.length → l.tx = 0 →
      l.acq = 0 → (l.fmt != 0 || l.rx != 0 || l.tx != 0 || l.acq != 0) = false := by
    intro l hfmt hrx htx hacq
    rw [hs.fetched] at hrx
    have hrx0 : l.rx = 0 := BitVec.eq_of_toNat_eq hrx
    rw [hfmt, hrx0, htx, hacq]
    rfl
  refine (hp.returns_pollLevels hs.enabled hs.small hfuel hbusy).bind ?_
  rintro - s₁ ⟨hmem, hrun, l, hidle, hfmt, hrx⟩
  simp only [Bool.or_eq_false_iff, bne_eq_false_iff_eq] at hidle
  obtain ⟨⟨⟨hf, hr⟩, -⟩, -⟩ := hidle
  rw [hf] at hfmt
  rw [hr] at hrx
  have hfmt₁ : (view s₁.dev).fmt = [] := List.eq_nil_of_length_eq_zero hfmt.symm
  have hrx₁ : (view s₁.dev).rx = [] := List.eq_nil_of_length_eq_zero hrx.symm
  refine Returns.bind (P := fun _ s' => s'.mem = s.mem ∧ view s'.dev = view s₁.dev)
    (returns_iff.mpr ⟨(), _, rfl, hmem, ?_⟩) ?_
  · exact (hp.spin 1 s₁.dev).eq_of_rest (.inr hfmt₁)
  · rintro - s₂ ⟨hmem₂, hview₂⟩
    refine Returns.bind (P := fun _ => Queued view s.mem (view s₁.dev).dev [])
      (returns_checkDif' (hp.enable_ok false s₂.dev) (leaves_checkDif fun h => ?_))
      fun _ s₃ hs₃ => hk _ s₃ hs₃
    obtain ⟨h₁, hrun₁, hv⟩ := hp.enable false s₂.dev h
    have hrest := hrun₁.eq_of_rest (.inr (by rw [hview₂, hfmt₁]))
    rw [hrest, hview₂, hfmt₁, hrx₁] at hv
    exact ⟨hmem₂, hv⟩

/-- The host works, and `k` bytes that it has received or will receive are to be fetched. -/
structure Fetching (h : Host) (k : ℕ) : Prop where
  enabled : h.enabled = true
  rx : h.outcome.1.length = k
  received : h.rx.length = k
  small : h.fmt.length < 256

/-- Fetching the received bytes comes to an end. -/
lemma Prompt.returns_readBytes (hp : Prompt dif view turns) {n : ℕ} {s : St σ}
    (hs : Fetching (view s.dev) n) (buf : U64) :
    Returns ((List.range n).forM fun b => do
      let x ← checkDif dif.readByte
      storeByte (buf + .ofNat 64 b) x) s fun _ s' => Fetching (view s'.dev) 0 := by
  have h₀ : Fetching (view s.dev) (n - 0) := hs
  refine (Returns.forM_range (I := fun k s' => Fetching (view s'.dev) (n - k)) h₀ ?_).mono ?_
  · intro k s₁ hk hs₁
    have hne : (view s₁.dev).rx ≠ [] := by
      intro hnil
      have hlen := hs₁.received
      rw [hnil, List.length_nil] at hlen
      omega
    have hok := hp.read_ok s₁.dev hne
    refine Returns.bind (P := fun _ s' => Fetching (view s'.dev) (n - (k + 1)))
      (returns_checkDif hok ?_) fun x s₂ hs₂ => returns_iff.mpr ⟨(), _, rfl, hs₂⟩
    obtain ⟨h₁, hrun, hread⟩ := hp.read s₁.dev hok
    -- all has been received, so the host rests
    have hlen := hrun.rx_prefix.length_le
    have hle := length_rx_le h₁
    have hsmall := hrun.length_fmt_le
    rw [hrun.outcome_eq, hs₁.rx] at hle
    rw [hs₁.received] at hlen
    cases hrx : h₁.rx with
    | nil =>
      rw [hrx, List.length_nil] at hlen
      omega
    | cons b t =>
      obtain ⟨-, hv⟩ := hread b t hrx
      have hout : h₁.outcome.1.length = n - k := by rw [hrun.outcome_eq, hs₁.rx]
      rw [Host.outcome_eq, hrx, List.cons_append, List.length_cons, List.length_append] at hout
      rw [hrx, List.length_cons] at hlen hle
      show Fetching (view (dif.readByte s₁.dev).2) _
      rw [hv]
      refine ⟨by rw [hrun.enabled_eq, hs₁.enabled], ?_, ?_, Nat.lt_of_le_of_lt hsmall hs₁.small⟩
      · rw [Host.outcome_eq, List.length_append]
        show t.length + (h₁.fmt.foldl exec ([], h₁.dev)).1.length = _
        omega
      · show t.length = _
        omega
  · rintro - s' hs'
    rwa [Nat.sub_self] at hs'

lemma Fetching.idle {h : Host} (hf : Fetching h 0) : Idle h :=
  ⟨hf.enabled, List.eq_nil_of_length_eq_zero hf.rx, hf.small, by rw [hf.rx]; decide⟩

/-- **A chunk comes to an end**, and the host is idle again. -/
theorem Prompt.returns_readChunk (hp : Prompt dif view turns) {depth buf addr len : U64} {fuel : ℕ}
    (hlen : 1 ≤ len.toNat) (hlen' : len.toNat < 256) (hfuel : turns + 1 < fuel) {s : St σ}
    (hs : Idle (view s.dev)) :
    Returns (accessChunk dif depth fuel buf addr len false) s fun _ s' =>
      Idle (view s'.dev) ∧ (view s'.dev).content = (view s.dev).content := by
  obtain ⟨fuel, rfl⟩ : ∃ k, fuel = k + 1 := ⟨fuel - 1, by omega⟩
  refine (Returns.and_leaves ?_ (leaves_readChunk hp.toContract hlen hlen' s)).mono
    fun _ _ h => ⟨h.1, h.2.2⟩
  rw [accessChunk]
  refine hp.returns_quiesce (by omega) hs fun e s₁ hs₁ => ?_
  refine (hp.returns_writeByte hs₁ _ .start).bind fun _ s₂ hs₂ => ?_
  refine (hp.returns_writeByte hs₂ _ .tx).bind fun _ s₃ hs₃ => ?_
  refine (hp.returns_writeByte hs₃ _ .txStop).bind fun _ s₄ hs₄ => ?_
  simp only [Bool.false_eq_true, if_false]
  refine (hp.returns_writeByte hs₄ _ .start).bind fun _ s₅ hs₅ => ?_
  refine (hp.returns_writeByte hs₅ _ .rx).bind fun _ s₆ hs₆ => ?_
  have hbytes := (@outcome_readProgram addr len hlen hlen' true e).1
  refine Returns.bind (P := fun _ s' => view s'.dev = ⟨true, readProgram addr len, [], e⟩)
    (returns_checkDif' (hp.enable_ok true s₆.dev)
      ((leaves_enable (f := readProgram addr len) hp.toContract hs₆).mono fun _ _ h => h.2)) ?_
  intro _ s₇ hview₇
  have hout : (view s₇.dev).outcome.1.length = len.toNat := by
    rw [hview₇, hbytes, Mem.length_slice]
  have hsmall : Small (view s₇.dev) := by
    refine ⟨?_, by rw [hout]; exact hlen'⟩
    rw [hview₇]
    show 5 < 256
    decide
  refine (hp.returns_pollLevels (by rw [hview₇]) hsmall (by omega) fun l _ hrx _ _ => ?_).bind ?_
  · rw [decide_eq_false_iff_not, BitVec.lt_def, BitVec.toNat_setWidth, hrx, hout]
    omega
  · rintro - s₈ ⟨-, hrun, l, hbusy, -, hrx⟩
    have hge := of_decide_eq_false hbusy
    rw [BitVec.lt_def, BitVec.toNat_setWidth] at hge
    have hlt := l.rx.isLt
    have hle := length_rx_le (view s₈.dev)
    have hout₈ : (view s₈.dev).outcome.1.length = len.toNat := by rw [hrun.outcome_eq, hout]
    refine (hp.returns_readBytes ⟨?_, hout₈, by omega, (hsmall.run hrun).1⟩ buf).mono
      fun _ _ h => h.idle
    rw [hrun.enabled_eq, hview₇]

/-! ### A read -/

/-- The loop over the chunks comes to an end. -/
lemma Prompt.returns_accessLoop (hp : Prompt dif view turns) {depth buf addr len : U64}
    (hd : 1 ≤ depth.toNat) (hd' : depth.toNat ≤ 128) (hlen : len.toNat ≤ 0x1_0000) :
    ∀ (n fuel : ℕ) (offs : U64) (s : St σ), len.toNat - offs.toNat ≤ n → n + turns + 3 ≤ fuel →
      Idle (view s.dev) → (view s.dev).content = c →
      Returns (accessLoop dif depth buf addr len false fuel offs) s fun _ s' =>
        Idle (view s'.dev) ∧ (view s'.dev).content = c := by
  intro n
  induction n with
  | zero =>
    intro fuel offs s hn hfuel hs hcont
    obtain ⟨fuel, rfl⟩ : ∃ k, fuel = k + 1 := ⟨fuel - 1, by omega⟩
    rw [accessLoop, if_neg (by rw [BitVec.lt_def]; omega)]
    exact ⟨hs, hcont⟩
  | succ n ih =>
    intro fuel offs s hn hfuel hs hcont
    obtain ⟨fuel, rfl⟩ : ∃ k, fuel = k + 1 := ⟨fuel - 1, by omega⟩
    rw [accessLoop]
    by_cases hlt : offs < len
    · have hnat := BitVec.lt_def.mp hlt
      have hchunk : (cMin depth (len - offs)).toNat = min depth.toNat (len.toNat - offs.toNat) := by
        rw [toNat_cMin, BitVec.toNat_sub_of_le (Nat.le_of_lt hnat)]
      have hoffs : (offs + depth).toNat = offs.toNat + depth.toNat := by
        rw [BitVec.toNat_add, Nat.mod_eq_of_lt (by omega)]
      rw [if_pos hlt]
      refine (hp.returns_readChunk (by omega) (by omega) (by omega) hs).bind ?_
      rintro - s' ⟨hs', hcont'⟩
      exact ih fuel _ s' (by omega) (by omega) hs' (hcont'.trans hcont)
    · rw [if_neg hlt]
      exact ⟨hs, hcont⟩

/-- **A read comes to an end**, with the bytes that it has fetched in the buffer and nothing else
written. -/
theorem Prompt.returns_read (hp : Prompt dif view turns) {depth buf addr len : U64}
    (hd : 1 ≤ depth.toNat) (hd' : depth.toNat ∣ 128) (hlen : len.toNat ≤ 0x1_0000) {fuel : ℕ}
    (hfuel : 0x1_0000 + turns + 3 ≤ fuel) {s : St σ} (hs : Idle (view s.dev)) :
    Returns (i2c24fc1025Read dif depth fuel buf addr len) s fun _ s' => Idle (view s'.dev) ∧
      (view s'.dev).content = (view s.dev).content ∧ s'.mem = s.mem.write buf
        (Mem.slice (view s.dev).content (addr.setWidth 16) (fetched depth addr len)) := by
  have hd'' : depth.toNat ≤ 128 := Nat.le_of_dvd (by decide) hd'
  have hassert : (128 : U64) % depth = 0 := umod_eq_zero hd'
  have hmod : (addr % depth).toNat < depth.toNat := by
    rw [BitVec.toNat_umod]
    exact Nat.mod_lt _ hd
  refine (Returns.and_leaves (Q := fun _ s' => Idle (view s'.dev) ∧
    (view s'.dev).content = (view s.dev).content) ?_ (leaves_read hp.toContract hd hd' hlen s)).mono
    fun _ _ h => ⟨h.1.1, h.1.2, h.2⟩
  rw [i2c24fc1025Read, access, if_pos hassert]
  show Returns (if addr % depth ≠ 0 then _ else _) s _
  by_cases hoffs : addr % depth = 0
  · rw [if_neg (not_not.mpr hoffs)]
    exact hp.returns_accessLoop hd hd'' hlen 0x1_0000 fuel 0 s (by omega) hfuel hs rfl
  · have hsub : (depth - addr % depth).toNat = depth.toNat - (addr % depth).toNat :=
      BitVec.toNat_sub_of_le (Nat.le_of_lt hmod)
    have hne : (addr % depth).toNat ≠ 0 := fun h => hoffs (BitVec.eq_of_toNat_eq h)
    rw [if_pos hoffs]
    refine (hp.returns_readChunk (by omega) (by omega) (by omega) hs).bind ?_
    rintro - s₁ ⟨hs₁, hcont₁⟩
    exact hp.returns_accessLoop hd hd'' hlen 0x1_0000 fuel _ s₁ (by omega) hfuel hs₁ hcont₁

/-! ### The host is set up -/

lemma Does.returns {call : σ → CInt × σ} {f : Host → Host} (hc : Does view call f) {m : Mem 64}
    {h : Host} {s : St σ} (hs : s.mem = m ∧ view s.dev = h) (hrest : h.fmt = []) :
    Returns (checkDif' call) s fun _ s' => s'.mem = m ∧ view s'.dev = f h := by
  obtain ⟨hret, h₁, hrun, hview⟩ := hc s.dev
  rw [hs.2] at hrun
  rw [hrun.eq_of_rest (.inr hrest)] at hview
  unfold checkDif'
  exact returns_checkDif hret ⟨hs.1, hview⟩

lemma Prompt.does_enable (hp : Prompt dif view turns) (b : Bool) :
    Does view (dif.hostSetEnabled b) fun h => { h with enabled := b } :=
  fun s => ⟨hp.enable_ok b s, hp.enable b s (hp.enable_ok b s)⟩

/-- A core of at most 1 GHz has a clock period. -/
lemma clockPeriodNanos_ne_zero {coreFreq : U64} (hpos : coreFreq ≠ 0)
    (hmax : coreFreq ≤ 1000000000) : (timingConfig coreFreq).clockPeriodNanos ≠ 0 := by
  intro h
  have hnat := congrArg BitVec.toNat h
  rw [BitVec.le_def] at hmax
  have hcore : coreFreq.toNat ≠ 0 := fun h => hpos (BitVec.eq_of_toNat_eq h)
  have hdiv : 1000000000 / coreFreq.toNat ≥ 1 :=
    (Nat.one_le_div_iff (by omega)).mpr hmax
  have hper : (timingConfig coreFreq).clockPeriodNanos.toNat = 1000000000 / coreFreq.toNat :=
    BitVec.toNat_udiv
  rw [hper] at hnat
  have hz : (0 : U64).toNat = 0 := rfl
  omega

/-- **The setup** leaves an idle host, and the EEPROM as it was. -/
theorem Prompt.returns_i2c24fc1025Init (hp : Prompt dif view turns) (hset : SetsUp setup view)
    {coreFreq : U64} (hpos : coreFreq ≠ 0) (hmax : coreFreq ≤ 1000000000) {s : St σ}
    (hrest : (view s.dev).fmt = []) :
    Returns (i2c24fc1025Init dif setup coreFreq) s fun _ s' => s'.mem = s.mem ∧
      Idle (view s'.dev) ∧ (view s'.dev).content = (view s.dev).content := by
  unfold i2c24fc1025Init
  rw [if_pos hpos]
  show Returns (checkDif' setup.init >>= _) s _
  refine (hset.init.returns ⟨rfl, rfl⟩ hrest).bind fun _ s₁ h₁ => ?_
  refine ((hp.does_enable false).returns h₁ hrest).bind fun _ s₂ h₂ => ?_
  refine (hset.acq.returns h₂ hrest).bind fun _ s₃ h₃ => ?_
  refine (hset.fmt.returns h₃ hrest).bind fun _ s₄ h₄ => ?_
  refine (hset.rx.returns h₄ rfl).bind fun _ s₅ h₅ => ?_
  refine (hset.tx.returns h₅ rfl).bind fun _ s₆ h₆ => ?_
  refine returns_bind.mpr (returns_checkDif (hset.timing _ (clockPeriodNanos_ne_zero hpos hmax)) ?_)
  refine ((hset.configure _).returns h₆ rfl).bind fun _ s₇ h₇ => ?_
  refine ((hp.does_enable true).returns h₇ rfl).mono ?_
  rintro - s' ⟨hmem, hview⟩
  have hdev : view s'.dev = ⟨true, [], [], (view s.dev).dev⟩ := hview
  have hcont : (view s.dev).content = (view s.dev).dev.mem false := by
    rw [Host.content, Host.outcome, hrest]
    rfl
  rw [hdev, hcont]
  exact ⟨hmem, ⟨rfl, rfl, Nat.zero_lt_succ _, Nat.zero_lt_succ _⟩, rfl⟩

end Up

end Cheshire.Sw.I2c
