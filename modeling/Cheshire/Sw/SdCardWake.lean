import Cheshire.Lib.Fuel
import Cheshire.Sw.SpiSdcardInit

/-!
An SD card that is set up: what it answers to the commands of the activation, one stage after the
other, while its clock is slow enough.  The setup brings it to the stage in which it can be read.
-/

namespace Cheshire.Sw.SpiSdcard

open Lib

/-! ### The card -/

/-- The stages of a card; while it initializes, `k` more ACMD41 find it busy.  It is `ready` until
it is used. -/
inductive Stage where
  | off
  | awake
  | idle
  | checked (k : ℕ)
  | app (k : ℕ)
  | active
  | told
  | ready
  | used

/-- A command, its response and the stage behind it.  CMD8 is answered with its check word. -/
inductive Turn : Stage → (c : U64) → Resp → List Byte → Stage → Prop
  | cmd0 : Turn .awake 0x950000000040 .r1 [0x01] .idle
  | cmd8 (k : ℕ) : Turn .idle 0x87AA01000048 .r7 (expBytes .r7 0xAA01000001) (.checked k)
  | cmd55 (k : ℕ) (x : Byte) : Turn (.checked k) 0x650000000077 .r1 [x] (.app k)
  | busy (k : ℕ) (x : Byte) (hx : x ≠ 0) : Turn (.app (k + 1)) 0x770000004069 .r1 [x] (.checked k)
  | done : Turn (.app 0) 0x770000004069 .r1 [0x00] .active
  | cmd58 (bs : List Byte) (hlen : bs.length = 5) : Turn .active 0xFD000000007A .r3 bs .told
  | cmd16 : Turn .told 0x150002000050 .r1 [0x00] .ready

lemma Turn.length_eq {stage stage' : Stage} {c : U64} {resp : Resp} {bs : List Byte}
    (h : Turn stage c resp bs stage') : bs.length = respLen resp := by
  cases h with
  | cmd58 _ hlen => exact hlen
  | _ => rfl

lemma Turn.ne_r1b {stage stage' : Stage} {c : U64} {resp : Resp} {bs : List Byte}
    (h : Turn stage c resp bs stage') : resp ≠ .r1b ∧ c &&& 0xFF ≠ 0x4C := by
  cases h <;> exact ⟨Resp.noConfusion, by decide⟩

/-- The card with its clock, and whether the host drives its outputs. -/
structure View where
  stage : Stage
  clock : U64
  on : Bool

/-- The clock up to which a card can be set up. -/
def maxSetupClock : U64 := 400000

/-- **A card that wakes up**: the host sets its clock, no segment of the activation fails, and the
card follows the commands while this clock is slow. -/
structure Wakes {σ : Type} (dif : SetupDif σ) (handle : Handle) (coming : σ → Stream' Byte)
    (view : σ → View) : Prop where
  init : ∀ s, (dif.init s).1 = 0 ∧ view (dif.init s).2 = view s
  reset : ∀ s, view (dif.reset s) = view s
  configure : ∀ cfg csid s, cfg.spiClock ≠ 0 → cfg.spiClock ≤ cfg.peripheralClockFreqHz →
    (dif.configureCs cfg csid s).1 = 0 ∧ view (dif.configureCs cfg csid s).2 =
      if csid = handle.csid then { view s with clock := cfg.spiClock } else view s
  enable : ∀ b s, view (dif.enable b s) = view s
  output : ∀ b s, (dif.outputSetEnabled b s).1 = 0 ∧
    view (dif.outputSetEnabled b s).2 = { view s with on := b }
  wake : ∀ clock s, clock ≤ maxSetupClock → view s = ⟨.off, clock, true⟩ →
    (dif.transactionCsaat handle.csid (.dummy 80) s).1.1 = 0 ∧
    view (dif.transactionCsaat handle.csid (.dummy 80) s).2 = ⟨.awake, clock, true⟩
  turn : ∀ stage c resp clock s, (∃ bs stage', Turn stage c resp bs stage') →
    clock ≤ maxSetupClock → view s = ⟨stage, clock, true⟩ →
    ∃ bs u stage', Turn stage c resp bs stage' ∧
      (dif.transactionCsaat handle.csid (.tx ((toLe 8 c.toNat).take 6)) s).1.1 = 0 ∧
      Answers (fun x => x &&& 0x80 != 0) 8
        (coming (dif.transactionCsaat handle.csid (.tx ((toLe 8 c.toNat).take 6)) s).2)
        (bs.headD 0) (bs.tail ++ₛ u) ∧
      view (dif.transactionCsaat handle.csid (.tx ((toLe 8 c.toNat).take 6)) s).2 =
        ⟨stage', clock, true⟩
  rx : ∀ n s, n ≤ 4 →
    (dif.transactionCsaat handle.csid (.rx n) s).1 = (0, (coming s).take n) ∧
    coming (dif.transactionCsaat handle.csid (.rx n) s).2 = (coming s).drop n ∧
    view (dif.transactionCsaat handle.csid (.rx n) s).2 = view s
  free : ∀ s, (dif.transaction handle.csidDummy (.dummy 8) s).1.1 = 0 ∧
    view (dif.transaction handle.csidDummy (.dummy 8) s).2 = view s

/-! ### The check word -/

/-- The mask that C leaves open keeps nothing of what `buf` held behind a response of five bytes. -/
def Undefined.Clear (undef : Undefined) : Prop := (undef.mask &&& undef.buf) >>> 40 = 0

/-- Then a response of five bytes that is the expected one passes the check. -/
lemma Undefined.Clear.masked_eq {undef : Undefined} (h : undef.Clear) {exp : U64}
    (hexp : exp.toNat < 2 ^ 40) :
    undef.received (expBytes .r7 exp) &&& undef.maskOf .r7 = exp &&& undef.maskOf .r7 := by
  have hword : ofLe (expBytes .r7 exp ++ (toLe 8 undef.buf.toNat).drop (expBytes .r7 exp).length) =
      2 ^ 40 * (undef.buf.toNat / 2 ^ 40) + exp.toNat := by
    have hbuf : undef.buf.toNat / 256 ^ 5 < 256 ^ 3 := by
      have := undef.buf.isLt
      omega
    show ofLe (toLe 5 exp.toNat ++ (toLe 8 undef.buf.toNat).drop 5) = _
    rw [ofLe_append, length_toLe, drop_toLe, ofLe_toLe_of_lt hexp, ofLe_toLe_of_lt hbuf,
      Nat.add_comm]
    norm_num
  refine BitVec.eq_of_getLsbD_eq fun i hi => ?_
  rw [BitVec.getLsbD_and, BitVec.getLsbD_and, received, hword, BitVec.getLsbD_ofNat,
    Nat.testBit_two_pow_mul_add _ hexp]
  rcases Nat.lt_or_ge i 40 with h40 | h40
  · rw [if_pos h40, decide_eq_true hi, Bool.true_and]
    rfl
  · have hzero : (undef.mask.getLsbD i && undef.buf.getLsbD i) = false := by
      have hbit := congrArg (fun x : U64 => x.getLsbD (i - 40)) h
      simpa [Nat.add_sub_cancel' h40] using hbit
    have hbit : (undef.buf.toNat / 2 ^ 40).testBit (i - 40) = undef.buf.getLsbD i := by
      rw [Nat.testBit_div_two_pow, Nat.sub_add_cancel h40]
      rfl
    have hexp0 : exp.getLsbD i = false :=
      Nat.testBit_lt_two_pow (hexp.trans_le (Nat.pow_le_pow_right (by decide) h40))
    rw [if_neg (Nat.not_lt.mpr h40), decide_eq_true hi, Bool.true_and, hbit, hexp0, Bool.false_and,
      Bool.and_comm, maskOf]
    exact hzero
/-! ### Commands -/

section Card

variable {σ : Type} {dif : SetupDif σ} {handle : Handle} {undef : Undefined}
  {coming : σ → Stream' Byte} {view : σ → View}

lemma returns_ending {S α : Type} {m : CM S α} {s : S} {Q : α → S → Prop} :
    Returns (ending m) s Q ↔ Returns m s Q := by
  simp only [Returns, EStateM.run, ending]
  cases m s <;> rfl

/-- Memory and view are kept. -/
def Kept (view : σ → View) (s s' : St σ) : Prop := s'.mem = s.mem ∧ view s'.dev = view s.dev

lemma Kept.trans {s s' s'' : St σ} (h : Kept view s s') (h' : Kept view s' s'') :
    Kept view s s'' := ⟨h'.1.trans h.1, h'.2.trans h.2⟩

/-- The next bytes are received. -/
lemma returns_take (hw : Wakes dif handle coming view) {n : ℕ} (hn : n ≤ 4) (s : St σ) :
    Returns (xferCsaat dif.toDif handle true none n) s fun bs s' =>
      bs = (coming s.dev).take n ∧ Kept view s s' ∧
        coming s'.dev = (coming s.dev).drop n := by
  obtain ⟨hret, hdrop, hview⟩ := hw.rx n s.dev hn
  unfold xferCsaat
  refine returns_bind.mpr (returns_checkAssert.mpr ⟨fun h => Bool.false_ne_true h.1, ?_⟩)
  refine returns_checkDif ?_ ⟨?_, ⟨rfl, hview⟩, hdrop⟩
  · rw [if_pos rfl, hret]
  · rw [if_pos rfl, hret]

lemma returns_takeByte (hw : Wakes dif handle coming view) {x : Byte} {t : Stream' Byte} {s : St σ}
    (hb : coming s.dev = Stream'.cons x t) :
    Returns (xferByte dif.toDif handle) s fun y s' =>
      y = x ∧ Kept view s s' ∧ coming s'.dev = t := by
  refine (returns_take hw (by decide) s).bind ?_
  rintro bs s' ⟨rfl, hkept, hdrop⟩
  rw [hb] at hdrop ⊢
  exact ⟨rfl, hkept, hdrop⟩

/-- **A poll** ends with the answer. -/
theorem returns_await (hw : Wakes dif handle coming view) {err : CInt} (again : Byte → Bool)
    {x : Byte}
    {t : Stream' Byte} (hx : again x = false) : ∀ (fill : List Byte) (timeout : ℕ) (s : St σ),
      fill.length + 1 < timeout → (∀ y ∈ fill, again y = true) →
      coming s.dev = fill ++ₛ Stream'.cons x t →
      Returns (poll dif.toDif handle err again timeout) s fun y s' =>
        y = x ∧ Kept view s s' ∧ coming s'.dev = t := by
  intro fill
  induction fill with
  | nil =>
    intro timeout s hlen _ hb
    obtain ⟨k, rfl⟩ : ∃ k, timeout = k + 1 := ⟨timeout - 1, by omega⟩
    rw [List.length_nil] at hlen
    rw [poll]
    refine (returns_takeByte hw hb).bind ?_
    rintro y s' ⟨rfl, hkept, hcoming⟩
    rw [if_neg (by omega), if_neg (by rw [hx]; exact Bool.false_ne_true)]
    exact ⟨rfl, hkept, hcoming⟩
  | cons z fill ih =>
    intro timeout s hlen hagain hb
    obtain ⟨k, rfl⟩ : ∃ k, timeout = k + 1 := ⟨timeout - 1, by omega⟩
    rw [List.length_cons] at hlen
    rw [List.forall_mem_cons] at hagain
    rw [poll]
    refine (returns_takeByte hw hb).bind ?_
    rintro y s' ⟨rfl, hkept, hcoming⟩
    rw [if_neg (by omega), if_pos hagain.1]
    refine (ih k s' (by omega) hagain.2 hcoming).mono ?_
    rintro _ _ ⟨hy, hkept', hrest⟩
    exact ⟨hy, hkept.trans hkept', hrest⟩

/-- The rest of a response is received. -/
lemma returns_rest (hw : Wakes dif handle coming view) {α : Type} (resp : Resp) {s : St σ}
    {f : List Byte → CM (St σ) α} {Q : α → St σ → Prop}
    (hf : ∀ s', Kept view s s' → Returns (f ((coming s.dev).take (respLen resp - 1))) s' Q) :
    Returns (if respLen resp - 1 ≠ 0 then
      xferCsaat dif.toDif handle true none (respLen resp - 1) >>= f else pure [] >>= f) s Q := by
  by_cases h0 : respLen resp - 1 ≠ 0
  · have hle : respLen resp - 1 ≤ 4 := by cases resp <;> decide
    rw [if_pos h0]
    refine (returns_take hw hle s).bind ?_
    rintro rest s' ⟨rfl, hkept, -⟩
    exact hf s' hkept
  · rw [if_neg h0]
    have hnone := hf s ⟨rfl, rfl⟩
    rwa [not_not.mp h0] at hnone

lemma returns_letGo (hw : Wakes dif handle coming view) (s : St σ) :
    Returns (csfree dif.toDif handle) s fun _ s' => Kept view s s' := by
  obtain ⟨hret, hview⟩ := hw.free s.dev
  unfold csfree
  exact returns_bind.mpr (returns_checkDif hret ⟨rfl, hview⟩)

/-- **A turn** of the card: a command of the activation gets its response. -/
theorem returns_turn (hw : Wakes dif handle coming view) {stage : Stage} {c clock : U64}
    {resp : Resp} {s : St σ} (hlegal : ∃ bs stage', Turn stage c resp bs stage')
    (hclock : clock ≤ maxSetupClock) (hview : view s.dev = ⟨stage, clock, true⟩) :
    Returns (cmd dif.toDif handle c resp false) s fun bs s' => ∃ stage',
      Turn stage c resp bs stage' ∧ s'.mem = s.mem ∧ view s'.dev = ⟨stage', clock, true⟩ := by
  obtain ⟨bs, u, stage', hturn, hret, ⟨fill, hfill, hagain, hx, hcoming⟩, hview₁⟩ :=
    hw.turn stage c resp clock s.dev hlegal hclock hview
  have hbs := hturn.length_eq
  have htail : bs.tail.length = respLen resp - 1 := by rw [List.length_tail, hbs]
  have hcons : bs.headD 0 :: bs.tail = bs := by
    cases bs with
    | nil => exact absurd hbs (by cases resp <;> exact Nat.zero_ne_add_one _)
    | cons x rest => rfl
  unfold cmd
  refine returns_bind.mpr (returns_tx hret fun _ => ?_)
  rw [if_neg hturn.ne_r1b.2]
  refine (returns_await hw (fun x => x &&& 0x80 != 0) hx fill 8 _ hfill hagain hcoming).bind ?_
  rintro r s₂ ⟨rfl, hkept₂, hcoming₂⟩
  rw [if_neg hturn.ne_r1b.1]
  refine returns_rest hw resp fun s₃ hkept₃ => ?_
  refine (returns_letGo hw s₃).bind fun _ s₄ hkept₄ => ?_
  obtain ⟨hmem, hview'⟩ := (hkept₂.trans hkept₃).trans hkept₄
  rw [hcoming₂, take_append_stream htail, hcons]
  exact ⟨stage', hturn, hmem, hview'.trans hview₁⟩

/-- A turn whose response is checked, or not. -/
theorem returns_checkedTurn (hw : Wakes dif handle coming view) {stage : Stage} {c clock exp : U64}
    {resp : Resp} {s : St σ} {checkExp : Bool} (hlegal : ∃ bs stage', Turn stage c resp bs stage')
    (hclock : clock ≤ maxSetupClock) (hview : view s.dev = ⟨stage, clock, true⟩)
    (hexp : checkExp = true → ∀ bs stage', Turn stage c resp bs stage' →
      undef.received bs &&& undef.maskOf resp = exp &&& undef.maskOf resp) :
    Returns (cmdCheck dif.toDif handle undef c resp checkExp exp) s fun _ s' => ∃ bs stage',
      Turn stage c resp bs stage' ∧ s'.mem = s.mem ∧ view s'.dev = ⟨stage', clock, true⟩ := by
  unfold cmdCheck
  refine (returns_turn hw hlegal hclock hview).bind ?_
  rintro bs s' ⟨stage', hturn, hmem, hview'⟩
  rw [if_neg fun h => h.2 (hexp h.1 _ _ hturn)]
  exact ⟨_, stage', hturn, hmem, hview'⟩

/-! ### The activation -/

/-- The card has come to a stage, and the memory is kept. -/
def At (view : σ → View) (stage : Stage) (clock : U64) (m : Mem 64) (s : St σ) : Prop :=
  s.mem = m ∧ view s.dev = ⟨stage, clock, true⟩

/-- **The loop** ends when the card is no longer busy. -/
theorem settles_activateLoop (hw : Wakes dif handle coming view) {clock : U64}
    (hclock : clock ≤ maxSetupClock) {m : Mem 64} :
    ∀ (k : ℕ) (s : St σ), At view (.checked k) clock m s →
      Settles (activateLoop dif.toDif handle undef) s fun _ s' => At view .active clock m s' := by
  intro k
  induction k with
  | zero =>
    rintro s ⟨hmem, hview⟩
    refine Settles.succ ?_
    simp only [activateLoop]
    refine (Settles.of_returns (returns_ending.mpr (returns_checkedTurn hw
      ⟨[0], _, .cmd55 0 0⟩ hclock hview fun h => absurd h Bool.false_ne_true))).bind ?_
    rintro - s₁ ⟨bs₁, stage', hturn, hmem₁, hview₁⟩
    cases hturn
    refine (Settles.of_returns (returns_ending.mpr (returns_turn hw
      ⟨_, _, .done⟩ hclock hview₁))).bind ?_
    rintro bs s₂ ⟨stage'', hturn, hmem₂, hview₂⟩
    cases hturn
    exact Settles.of_returns ⟨hmem₂.trans (hmem₁.trans hmem), hview₂⟩
  | succ k ih =>
    rintro s ⟨hmem, hview⟩
    refine Settles.succ ?_
    simp only [activateLoop]
    refine (Settles.of_returns (returns_ending.mpr (returns_checkedTurn hw
      ⟨[0], _, .cmd55 _ 0⟩ hclock hview fun h => absurd h Bool.false_ne_true))).bind ?_
    rintro - s₁ ⟨bs₁, stage', hturn, hmem₁, hview₁⟩
    cases hturn
    refine (Settles.of_returns (returns_ending.mpr (returns_turn hw
      ⟨[1], _, .busy k 1 (by decide)⟩ hclock hview₁))).bind ?_
    rintro bs s₂ ⟨stage'', hturn, hmem₂, hview₂⟩
    cases hturn with
    | busy _ _ hr =>
      simp only [List.headD_cons, hr, ne_eq, not_false_eq_true, if_true]
      exact ih s₂ ⟨hmem₂.trans (hmem₁.trans hmem), hview₂⟩

/-- **The activation** of a card that has power. -/
theorem settles_activate (hw : Wakes dif handle coming view) (hclear : undef.Clear) {clock : U64}
    (hclock : clock ≤ maxSetupClock) {m : Mem 64} {s : St σ} (hs : At view .off clock m s) :
    Settles (spiSdcardActivate dif.toDif handle undef) s fun _ s' => At view .ready clock m s' := by
  obtain ⟨hmem, hview⟩ := hs
  unfold spiSdcardActivate
  have hwake : Returns (xferCsaat dif.toDif handle false none 10) s fun _ s' =>
      At view .awake clock m s' := by
    obtain ⟨hret, hview'⟩ := hw.wake clock s.dev hclock hview
    unfold xferCsaat
    refine returns_bind.mpr (returns_checkAssert.mpr ⟨fun h => Bool.false_ne_true h.2, ?_⟩)
    exact returns_checkDif hret ⟨hmem, hview'⟩
  refine (Settles.of_returns (returns_ending.mpr hwake)).bind ?_
  rintro - s₁ ⟨hmem₁, hview₁⟩
  refine (Settles.of_returns (returns_ending.mpr (returns_checkedTurn hw ⟨_, _, .cmd0⟩ hclock
    hview₁ fun _ bs stage' h => (masked_eq_iff rfl undef h.length_eq).mpr ?_))).bind ?_
  · cases h
    decide
  rintro - s₂ ⟨bs₂, stage₂, hturn, hmem₂, hview₂⟩
  cases hturn
  refine (Settles.of_returns (returns_ending.mpr (returns_checkedTurn hw ⟨_, _, .cmd8 0⟩ hclock
    hview₂ fun _ bs stage' h => ?_))).bind ?_
  · cases h
    exact hclear.masked_eq (by decide)
  rintro - s₃ ⟨bs₃, stage₃, hturn, hmem₃, hview₃⟩
  cases hturn with
  | cmd8 k =>
    refine (settles_activateLoop hw hclock (m := m) k s₃
      ⟨hmem₃.trans (hmem₂.trans hmem₁), hview₃⟩).bind ?_
    rintro - s₄ ⟨hmem₄, hview₄⟩
    refine (Settles.of_returns (returns_ending.mpr (returns_checkedTurn hw
      ⟨List.replicate 5 0, _, .cmd58 _ rfl⟩ hclock hview₄
      fun h => absurd h Bool.false_ne_true))).bind ?_
    rintro - s₅ ⟨bs₅, stage₅, hturn, hmem₅, hview₅⟩
    cases hturn
    refine Settles.of_returns (returns_ending.mpr ((returns_checkedTurn hw ⟨_, _, .cmd16⟩ hclock
      hview₅ fun _ bs stage' h => (masked_eq_iff rfl undef h.length_eq).mpr ?_).mono ?_))
    · cases h
      decide
    · rintro - s₆ ⟨bs₆, stage₆, hturn, hmem₆, hview₆⟩
      cases hturn
      exact ⟨hmem₆.trans (hmem₅.trans hmem₄), hview₆⟩

/-! ### The setup -/

/-- The memory is kept, and the card is seen as `v`. -/
def Seen (view : σ → View) (v : View) (m : Mem 64) (s : St σ) : Prop :=
  s.mem = m ∧ view s.dev = v

lemma returns_checkSetup {call : σ → CInt × σ} {v : View} {m : Mem 64} {s : St σ}
    (hmem : s.mem = m) (h : (call s.dev).1 = 0 ∧ view (call s.dev).2 = v) :
    Returns (checkSetup call) s fun _ s' => Seen view v m s' := by
  have hrun : (checkSetup call).run s = .ok () ⟨s.mem, (call s.dev).2⟩ := if_neg (not_not.mpr h.1)
  exact returns_iff.mpr ⟨_, _, hrun, hmem, h.2⟩

lemma returns_callSetup {call : σ → σ} {v : View} {m : Mem 64} {s : St σ} (hmem : s.mem = m)
    (h : view (call s.dev) = v) : Returns (callSetup call) s fun _ s' => Seen view v m s' :=
  ⟨hmem, h⟩

lemma returns_assert {ret : CInt} {cond : Prop} [Decidable cond] (hcond : cond) (s : St σ) :
    Returns (ending (checkAssert ret cond)) s fun _ s' => s' = s :=
  returns_ending.mpr (returns_checkAssert.mpr ⟨hcond, rfl⟩)

/-- **The setup** of a card that has power: it becomes ready, and gets the clock asked for. -/
theorem settles_init (hw : Wakes dif handle coming view) (hclear : undef.Clear) {numCs : CInt}
    {spiFreq coreFreq : U64} {s : St σ} (hcsid : handle.csid.slt numCs = true)
    (hdummy : handle.csidDummy.slt numCs = true)
    (h0 : spiFreq ≠ 0) (hmax : spiFreq ≤ 25 * 1000 * 1000) (hcore : spiFreq ≤ coreFreq)
    (hslow : initClock ≤ coreFreq) (hoff : (view s.dev).stage = .off) :
    Settles (spiSdcardInit dif undef numCs handle spiFreq coreFreq) s
      fun _ s' => Seen view ⟨.ready, spiFreq, true⟩ s.mem s' := by
  -- a chip select gets a clock; the clock of the card is the one of its own chip select
  have hcfg : ∀ (cfg : HostConfig) (csid : CInt) (s₁ : St σ) (v : View), cfg.spiClock ≠ 0 →
      cfg.spiClock ≤ cfg.peripheralClockFreqHz → Seen view v s.mem s₁ →
      (csid = handle.csid ∨ v.clock = cfg.spiClock) →
      Returns (checkSetup (dif.configureCs cfg csid)) s₁ fun _ s' =>
        Seen view { v with clock := cfg.spiClock } s.mem s' := by
    rintro cfg csid s₁ v h0 hle ⟨hmem, hview⟩ hor
    obtain ⟨hret, hview'⟩ := hw.configure cfg csid s₁.dev h0 hle
    refine returns_checkSetup hmem ⟨hret, hview'.trans ?_⟩
    rw [hview]
    rcases hor with h | h
    · rw [if_pos h]
    · rw [← h, ite_self]
  unfold spiSdcardInit
  refine (Settles.of_returns (returns_assert hcsid s)).bind ?_
  rintro - s₁ rfl
  refine (Settles.of_returns (returns_assert hdummy s₁)).bind ?_
  rintro - s₁ rfl
  refine (Settles.of_returns (returns_assert h0 s₁)).bind ?_
  rintro - s₁ rfl
  refine (Settles.of_returns (returns_assert hmax s₁)).bind ?_
  rintro - s₁ rfl
  refine (Settles.of_returns (returns_assert hcore s₁)).bind ?_
  rintro - s rfl
  refine (Settles.of_returns (returns_checkSetup rfl (hw.init s.dev))).bind ?_
  rintro - s₁ ⟨hmem₁, hview₁⟩
  refine (Settles.of_returns (returns_callSetup hmem₁ ((hw.reset s₁.dev).trans hview₁))).bind ?_
  rintro - s₂ hs₂
  refine (Settles.of_returns (hcfg ⟨⟨0, 0, 0⟩, false, false, false, coreFreq, initClock⟩ handle.csid
    s₂ _ (by show initClock ≠ 0; decide) hslow hs₂ (.inl rfl))).bind ?_
  rintro - s₃ hs₃
  refine (Settles.of_returns (hcfg ⟨⟨0, 0, 0⟩, false, false, false, coreFreq, initClock⟩
    handle.csidDummy s₃ _ (by show initClock ≠ 0; decide) hslow hs₃ (.inr rfl))).bind ?_
  rintro - s₄ ⟨hmem₄, hview₄⟩
  refine (Settles.of_returns (returns_callSetup hmem₄
    ((hw.enable true s₄.dev).trans hview₄))).bind ?_
  rintro - s₅ ⟨hmem₅, hview₅⟩
  refine (Settles.of_returns (returns_checkSetup hmem₅ (hw.output true s₅.dev))).bind ?_
  rintro - s₆ ⟨hmem₆, hview₆⟩
  have hstart : At view .off initClock s.mem s₆ := by
    refine ⟨hmem₆, ?_⟩
    rw [hview₆, hview₅, ← hoff]
  refine (settles_activate hw hclear (by decide) hstart).bind ?_
  rintro - s₇ ⟨hmem₇, hview₇⟩
  -- the clock of the transfers
  refine (Settles.of_returns (returns_checkSetup hmem₇ (hw.output false s₇.dev))).bind ?_
  rintro - s₈ hs₈
  refine (Settles.of_returns (hcfg ⟨⟨0, 0, 0⟩, false, false, false, coreFreq, spiFreq⟩ handle.csid
    s₈ _ h0 hcore hs₈ (.inl rfl))).bind ?_
  rintro - s₉ hs₉
  refine (Settles.of_returns (hcfg ⟨⟨0, 0, 0⟩, false, false, false, coreFreq, spiFreq⟩
    handle.csidDummy s₉ _ h0 hcore hs₉ (.inr rfl))).bind ?_
  rintro - s₁₀ ⟨hmem₁₀, hview₁₀⟩
  refine Settles.of_returns (returns_checkSetup hmem₁₀ ?_)
  obtain ⟨hret, hview⟩ := hw.output true s₁₀.dev
  refine ⟨hret, hview.trans ?_⟩
  rw [hview₁₀, hview₇]

end Card

end Cheshire.Sw.SpiSdcard
