import Cheshire.Sw.SpiHost
import Cheshire.Sw.SpiSdcardPoll
import Cheshire.Sw.SpiSdcardCmd

/-!
The setup of the SD card driver (`__spi_sdcard_activate` and `spi_sdcard_init`).  On any bytes that
come from the card the activation returns exactly when these make up the dialogue that it leads;
the commands it has sent then are those of that dialogue, one released before the next is sent.
-/

namespace Cheshire.Sw.SpiSdcard

open Lib

/-! ### The code -/

/-- A function that polls: it stops with a code that it returns, or with `none` while a poll has
not come to an end. -/
abbrev PollM (S α : Type) := EStateM (Option CInt) S α

/-- A function that always comes to an end. -/
def ending {S α : Type} (m : CM S α) : PollM S α := fun s =>
  match m s with
  | .ok a s' => .ok a s'
  | .error e s' => .error (some e) s'

/-- The DIF with the functions that set up the host. -/
structure SetupDif (σ : Type) extends Dif σ, HostSetup σ

/-- `__spi_sdcard_init_clock`. -/
def initClock : U64 := 200000

section Code

variable {σ : Type}

section Activate

variable (dif : Dif σ) (handle : Handle) (undef : Undefined)

/-- The loop of CMD55 and ACMD41. -/
def activateLoop : ℕ → PollM (St σ) Unit
  | 0 => throw none
  | fuel + 1 => do
    ending (cmdCheck dif handle undef 0x650000000077 .r1 false 0)
    let ret ← ending (cmd dif handle 0x770000004069 .r1 false)
    if ret.headD 0 ≠ 0 then activateLoop fuel else pure ()

/-- `__spi_sdcard_activate`. -/
def spiSdcardActivate (fuel : ℕ) : PollM (St σ) Unit := do
  let _ ← ending (xferCsaat dif handle false none 10)
  ending (cmdCheck dif handle undef 0x950000000040 .r1 true 0x01)
  ending (cmdCheck dif handle undef 0x87AA01000048 .r7 true 0xAA01000001)
  activateLoop dif handle undef fuel
  ending (cmdCheck dif handle undef 0xFD000000007A .r3 false 0)
  ending (cmdCheck dif handle undef 0x150002000050 .r1 true 0x00)

end Activate

variable (dif : SetupDif σ) (undef : Undefined)

/-- `CHECK_CALL` on a function that sets up the host. -/
def checkSetup (call : σ → CInt × σ) : PollM (St σ) Unit := fun s =>
  if (call s.dev).1 ≠ 0 then .error (some (call s.dev).1) ⟨s.mem, (call s.dev).2⟩
  else .ok () ⟨s.mem, (call s.dev).2⟩

/-- A function that sets up the host and returns nothing. -/
def callSetup (call : σ → σ) : PollM (St σ) Unit := fun s => .ok () ⟨s.mem, call s.dev⟩

/-- `spi_sdcard_init`, with `SPI_HOST_PARAM_NUM_C_S` being `numCs`. -/
def spiSdcardInit (numCs : CInt) (handle : Handle) (spiFreq coreFreq : U64) (fuel : ℕ) :
    PollM (St σ) Unit := do
  ending (checkAssert 0x15 (handle.csid.slt numCs = true))
  ending (checkAssert 0x15 (handle.csidDummy.slt numCs = true))
  ending (checkAssert 0x16 (spiFreq ≠ 0))
  ending (checkAssert 0x17 (spiFreq ≤ 25 * 1000 * 1000))
  ending (checkAssert 0x18 (spiFreq ≤ coreFreq))
  checkSetup dif.init
  callSetup dif.reset
  let config : HostConfig := ⟨⟨0, 0, 0⟩, false, false, false, coreFreq, initClock⟩
  checkSetup (dif.configureCs config handle.csid)
  checkSetup (dif.configureCs config handle.csidDummy)
  callSetup (dif.enable true)
  checkSetup (dif.outputSetEnabled true)
  spiSdcardActivate dif.toDif handle undef fuel
  -- the clock of the transfers
  checkSetup (dif.outputSetEnabled false)
  let config : HostConfig := { config with spiClock := spiFreq }
  checkSetup (dif.configureCs config handle.csid)
  checkSetup (dif.configureCs config handle.csidDummy)
  checkSetup (dif.outputSetEnabled true)

end Code

/-! ### The dialogue -/

/-- Behind the six bytes of a command comes its response `bs`, in time, and then the byte during
which the card is released. -/
def Reply (resp : Resp) (u : Stream' Byte) (bs : List Byte) (t : Stream' Byte) : Prop :=
  ∃ r v, Answers (fun x => x &&& 0x80 != 0) 8 (u.drop 6) r v ∧
    bs = r :: v.take (respLen resp - 1) ∧ t = v.drop (respLen resp)

/-- CMD55 and ACMD41 are answered `n` times by a card that is busy, and then by one that is not. -/
def Rounds : ℕ → Stream' Byte → Stream' Byte → Prop
  | 0, u, t => ∃ bs v, Reply .r1 u bs v ∧ Reply .r1 v [0] t
  | n + 1, u, t => ∃ bs x v w, Reply .r1 u bs v ∧ Reply .r1 v [x] w ∧ x ≠ 0 ∧ Rounds n w t

/-- **The dialogue of an activation**, behind the clocks of a dummy segment. -/
def Activates (undef : Undefined) (n : ℕ) (u t : Stream' Byte) : Prop :=
  ∃ b₀ b₈ b₅₈ t₀ t₈ t₅₅ t₅₈,
    Reply .r1 (u.drop 10) b₀ t₀ ∧ (b₀ = [0x01] ∨ b₀ = [0x00]) ∧
    Reply .r7 t₀ b₈ t₈ ∧ Accepted undef .r7 0xAA01000001 b₈ ∧
    Rounds n t₈ t₅₅ ∧
    Reply .r3 t₅₅ b₅₈ t₅₈ ∧
    Reply .r1 t₅₈ [0x00] t

/-- A command with what is received behind it, and the release of the card. -/
def Exchange (handle : Handle) (c : U64) (ts : List Transfer) : Prop :=
  ∃ qs, (∀ t ∈ qs, t.Quiet) ∧
    ts = ⟨handle.csid, .tx ((toLe 8 c.toNat).take 6), true⟩ :: qs ++ [freeing handle]

/-- Commands, one after the other. -/
def Exchanges (handle : Handle) : List U64 → List Transfer → Prop
  | [], ts => ts = []
  | c :: cs, ts => ∃ us vs, Exchange handle c us ∧ Exchanges handle cs vs ∧ ts = us ++ vs

/-- CMD55 and ACMD41. -/
def roundCmds : List U64 := [0x650000000077, 0x770000004069]

/-- The commands of an activation with `n` busy rounds. -/
def activationCmds (n : ℕ) : List U64 :=
  [0x950000000040, 0x87AA01000048] ++ (List.replicate (n + 1) roundCmds).flatten ++
    [0xFD000000007A, 0x150002000050]

/-- The clocks with which the card wakes up. -/
def waking (handle : Handle) : Transfer := ⟨handle.csid, .dummy 80, true⟩

/-- The transactions of an activation. -/
def Activation (handle : Handle) (n : ℕ) (ts : List Transfer) : Prop :=
  ∃ us, Exchanges handle (activationCmds n) us ∧ ts = waking handle :: us

lemma Exchanges.append {handle : Handle} {cs ds : List U64} {us : List Transfer} :
    ∀ {ts : List Transfer}, Exchanges handle cs ts → Exchanges handle ds us →
      Exchanges handle (cs ++ ds) (ts ++ us) := by
  induction cs with
  | nil =>
    rintro ts rfl h
    exact h
  | cons c cs ih =>
    rintro ts ⟨vs, ws, hc, hcs, rfl⟩ h
    exact ⟨vs, ws ++ us, hc, ih hcs h, List.append_assoc ..⟩

lemma Exchanges.single {handle : Handle} {c : U64} {ts : List Transfer}
    (h : Exchange handle c ts) : Exchanges handle [c] ts :=
  ⟨ts, [], h, rfl, (List.append_nil ts).symm⟩

/-! ### Replies -/

lemma Reply.length_eq {resp : Resp} {u t : Stream' Byte} {bs : List Byte}
    (h : Reply resp u bs t) : bs.length = respLen resp := by
  obtain ⟨r, v, -, rfl, -⟩ := h
  rw [List.length_cons, Stream'.length_take]
  cases resp <;> rfl

/-- Of one byte the expected one and zero are accepted. -/
lemma Reply.accepted_iff {undef : Undefined} {exp : U64} {u t : Stream' Byte} {bs : List Byte}
    (h : Reply .r1 u bs t) :
    Accepted undef .r1 exp bs ↔ bs = [exp.setWidth 8] ∨ bs = [0] := by
  rw [SpiSdcard.accepted_iff rfl undef h.length_eq]
  obtain ⟨r, v, -, rfl, -⟩ := h
  have hexp : expBytes .r1 exp = [exp.setWidth 8] := by
    rw [expBytes, respLen, toLe, toLe, BitVec.ofNat_toNat]
  rw [hexp]
  simp [respLen]

theorem Reply.unique {resp : Resp} {u t t' : Stream' Byte} {bs bs' : List Byte}
    (h : Reply resp u bs t) (h' : Reply resp u bs' t') : bs = bs' ∧ t = t' := by
  obtain ⟨r, v, hans, rfl, rfl⟩ := h
  obtain ⟨r', v', hans', rfl, rfl⟩ := h'
  obtain ⟨rfl, rfl⟩ := hans.unique hans'
  exact ⟨rfl, rfl⟩

theorem Rounds.unique {t t' : Stream' Byte} : ∀ {n n' : ℕ} {u : Stream' Byte},
    Rounds n u t → Rounds n' u t' → n = n' ∧ t = t'
  | 0, 0, u, ⟨bs, v, h₁, h₂⟩, ⟨bs', v', h₁', h₂'⟩ => by
    obtain ⟨-, rfl⟩ := h₁.unique h₁'
    exact ⟨rfl, (h₂.unique h₂').2⟩
  | 0, n' + 1, u, ⟨bs, v, h₁, h₂⟩, ⟨bs', x, v', w, h₁', h₂', hx, _⟩ => by
    obtain ⟨-, rfl⟩ := h₁.unique h₁'
    exact absurd (List.cons.inj (h₂.unique h₂').1).1.symm hx
  | n + 1, 0, u, ⟨bs, x, v, w, h₁, h₂, hx, _⟩, ⟨bs', v', h₁', h₂'⟩ => by
    obtain ⟨-, rfl⟩ := h₁.unique h₁'
    exact absurd (List.cons.inj (h₂.unique h₂').1).1 hx
  | n + 1, n' + 1, u, ⟨bs, x, v, w, h₁, h₂, _, h⟩, ⟨bs', x', v', w', h₁', h₂', _, h'⟩ => by
    obtain ⟨-, rfl⟩ := h₁.unique h₁'
    obtain ⟨-, rfl⟩ := h₂.unique h₂'
    obtain ⟨rfl, rfl⟩ := h.unique h'
    exact ⟨rfl, rfl⟩

/-! ### Exchanges on the wires -/

section Wired

variable {σ : Type} {depth : ℕ+} {dif : Dif σ} {handle : Handle} {undef : Undefined}
  {wires : σ → Wires}

lemma ends_ending {S α : Type} {m : CM S α} {s : S} {Q : α → S → Prop}
    {E : Option CInt → S → Prop} (h : Ends m s Q fun e => E (some e)) : Ends (ending m) s Q E := by
  unfold Ends EStateM.run at h ⊢
  unfold ending
  cases hm : m s with
  | ok a s' =>
    rw [hm] at h
    exact h
  | error e s' =>
    rw [hm] at h
    exact h

/-- The card is released during a byte. -/
lemma returns_release (hh : HostOk depth dif wires) (s : St σ) :
    Returns (csfree dif handle) s fun _ s' => (wires s'.dev).miso = (wires s.dev).miso.drop 1 ∧
      Between wires (fun ts => ts = [freeing handle]) s s' := by
  obtain ⟨hret, hnext⟩ := hh.free handle.csidDummy (.dummy 8) s.dev trivial
  unfold csfree
  refine returns_bind.mpr (returns_checkDif (by rw [hret]) ⟨?_, _, ?_, rfl⟩)
  · show (wires _).miso = _
    rw [hnext]
    rfl
  · show (wires _).sent = _
    rw [hnext]
    rfl

/-- The rest of a response is received. -/
lemma ends_rest (hh : HostOk depth dif wires) {α : Type} (resp : Resp) {s : St σ}
    {f : List Byte → CM (St σ) α} {Q : α → St σ → Prop} {E : CInt → St σ → Prop}
    (hf : ∀ s', Took wires (respLen resp - 1) s s' →
      Ends (f ((wires s.dev).miso.take (respLen resp - 1))) s' Q E) :
    Ends (if respLen resp - 1 ≠ 0 then xferCsaat dif handle true none (respLen resp - 1) >>= f
      else pure [] >>= f) s Q E := by
  have hdepth := depth.pos
  by_cases h0 : respLen resp - 1 ≠ 0
  · have hle : respLen resp ≤ 5 := by cases resp <;> decide
    rw [if_pos h0]
    refine (returns_receive hh (by omega) s).ends.bind ?_
    rintro rest s' ⟨rfl, -, htook⟩
    exact hf s' htook
  · rw [if_neg h0]
    have hzero := hf s
    rw [not_not.mp h0] at hzero
    exact hzero ⟨rfl, Reads.refl s⟩

/-- **A command** gives the response that comes in time, and fails if there is none. -/
theorem ends_exchange (hh : HostOk depth dif wires) {c : U64} {resp : Resp} (hb : resp ≠ .r1b)
    (hne : c &&& 0xFF ≠ 0x4C) (s : St σ) :
    Ends (cmd dif handle c resp false) s
      (fun bs s' => Reply resp (wires s.dev).miso bs (wires s'.dev).miso ∧
        Between wires (Exchange handle c) s s')
      fun _ _ => ∀ bs t, ¬ Reply resp (wires s.dev).miso bs t := by
  unfold cmd
  refine (returns_send hh rfl s).ends.bind ?_
  rintro - s₁ ⟨hmiso₁, hled⟩
  rw [if_neg hne]
  refine ((ends_poll hh 0x12 (fun x => x &&& 0x80 != 0) 8 s₁).mono (fun _ _ h => h) ?_).bind ?_
  · rintro e s₂ ⟨-, -, hnone⟩ bs t ⟨r, v, hans, -⟩
    rw [← hmiso₁] at hans
    exact hnone r v hans
  rintro r s₂ ⟨-, hreads₂, hans⟩
  rw [if_neg hb]
  refine ends_rest hh resp fun s₃ ⟨hmiso₃, hreads₃⟩ => ?_
  refine (returns_release hh s₃).ends.bind ?_
  rintro - s₄ ⟨hmiso₄, hfree⟩
  rw [hmiso₁] at hans
  have hlen : respLen resp - 1 + 1 = respLen resp := by cases resp <;> rfl
  refine ⟨⟨r, (wires s₂.dev).miso, hans, rfl, ?_⟩, ?_⟩
  · rw [hmiso₄, hmiso₃, Stream'.drop_drop, hlen]
  · refine Between.trans (Led.reads hled (hreads₂.trans hreads₃)) hfree ?_
    rintro - us ⟨qs, rfl, hqs⟩ rfl
    exact ⟨qs, hqs, rfl⟩

/-- A command whose response is checked, or not. -/
theorem ends_checked (hh : HostOk depth dif wires) {c : U64} {resp : Resp} {checkExp : Bool}
    {exp : U64} (hb : resp ≠ .r1b) (hne : c &&& 0xFF ≠ 0x4C) (s : St σ) :
    Ends (cmdCheck dif handle undef c resp checkExp exp) s
      (fun _ s' => ∃ bs, Reply resp (wires s.dev).miso bs (wires s'.dev).miso ∧
        (checkExp = true → Accepted undef resp exp bs) ∧ Between wires (Exchange handle c) s s')
      fun _ _ => ∀ bs t, Reply resp (wires s.dev).miso bs t →
        ¬ (checkExp = true → Accepted undef resp exp bs) := by
  unfold cmdCheck
  refine ((ends_exchange hh hb hne s).mono (fun _ _ h => h) fun _ _ hno bs t hr => ?_).bind ?_
  · exact absurd hr (hno bs t)
  rintro bs s' ⟨hreply, hbetween⟩
  by_cases hcheck : checkExp = true ∧
      undef.received bs &&& undef.maskOf resp ≠ exp &&& undef.maskOf resp
  · simp only [hcheck, and_self, ne_eq, not_false_eq_true, if_true]
    by_cases h0 : (undef.received bs &&& undef.maskOf resp).setWidth 32 = (0 : CInt)
    · rw [checkCall, if_neg (not_not.mpr h0)]
      exact ⟨bs, hreply, fun _ => .inr h0, hbetween⟩
    · rw [checkCall, if_pos h0]
      intro bs' t hr hok
      obtain ⟨rfl, -⟩ := hreply.unique hr
      rcases hok trivial with h | h
      · exact hcheck.2 h
      · exact h0 h
  · rw [if_neg hcheck]
    refine ⟨bs, hreply, fun h => .inl ?_, hbetween⟩
    exact not_not.mp fun hne => hcheck ⟨h, hne⟩

/-! ### The activation -/

lemma Between.exchanges {cs ds : List U64} {s s' s'' : St σ}
    (h : Between wires (Exchanges handle cs) s s')
    (h' : Between wires (Exchanges handle ds) s' s'') :
    Between wires (Exchanges handle (cs ++ ds)) s s'' :=
  Between.trans h h' fun _ _ hts hus => hts.append hus

lemma Between.single {c : U64} {s s' : St σ} (h : Between wires (Exchange handle c) s s') :
    Between wires (Exchanges handle [c]) s s' := by
  obtain ⟨ts, hts, hc⟩ := h
  exact ⟨ts, hts, .single hc⟩

/-- **The loop** goes on for as long as the card is busy, and fails when a response is missing. -/
theorem ends_activateLoop (hh : HostOk depth dif wires) : ∀ (fuel : ℕ) (s : St σ),
    Ends (activateLoop dif handle undef fuel) s
      (fun _ s' => ∃ n, Rounds n (wires s.dev).miso (wires s'.dev).miso ∧
        Between wires (Exchanges handle (List.replicate (n + 1) roundCmds).flatten) s s')
      fun e _ => ∀ n t, (e = none → n < fuel) → ¬ Rounds n (wires s.dev).miso t := by
  intro fuel
  induction fuel with
  | zero => exact fun s n t hn => absurd (hn rfl) (Nat.not_lt_zero n)
  | succ fuel ih =>
    intro s
    rw [activateLoop]
    refine Ends.bind ((ends_ending ((ends_checked hh Resp.noConfusion (by decide) s).mono
      (fun _ _ h => h) ?_))) ?_
    · rintro e s₁ hno n t -
      cases n with
      | zero => exact fun ⟨bs, v, h, _⟩ => hno bs v h fun h => absurd h Bool.false_ne_true
      | succ n => exact fun ⟨bs, x, v, w, h, _⟩ => hno bs v h fun h => absurd h Bool.false_ne_true
    rintro - s₁ ⟨bs₁, h₁, -, hsent₁⟩
    refine Ends.bind ((ends_ending ((ends_exchange hh Resp.noConfusion (by decide) s₁).mono
      (fun _ _ h => h) ?_))) ?_
    · rintro e s₂ hno n t - h
      cases n with
      | zero =>
        obtain ⟨bs, v, h, h'⟩ := h
        obtain ⟨-, rfl⟩ := h₁.unique h
        exact hno _ _ h'
      | succ n =>
        obtain ⟨bs, x, v, w, h, h', -⟩ := h
        obtain ⟨-, rfl⟩ := h₁.unique h
        exact hno _ _ h'
    rintro ret s₂ ⟨h₂, hsent₂⟩
    obtain ⟨x, hx⟩ : ∃ x, ret = [x] := by
      obtain ⟨r, v, -, hret, -⟩ := h₂
      exact ⟨r, hret⟩
    subst hx
    have hround := hsent₁.single.exchanges hsent₂.single
    by_cases hx : x = 0
    · -- the card is no longer busy
      subst hx
      rw [if_neg (by decide)]
      refine ⟨0, ⟨bs₁, _, h₁, h₂⟩, ?_⟩
      rwa [List.replicate_one, List.flatten_singleton]
    · rw [if_pos (show ([x] : List Byte).headD 0 ≠ 0 from hx)]
      refine (ih s₂).mono ?_ ?_
      · rintro - s₃ ⟨n, hn, hsent⟩
        refine ⟨n + 1, ⟨bs₁, x, _, _, h₁, h₂, hx, hn⟩, ?_⟩
        rw [List.replicate_succ, List.flatten_cons]
        exact hround.exchanges hsent
      · rintro e s₃ hno n t hfuel h
        cases n with
        | zero =>
          obtain ⟨bs, v, h, h'⟩ := h
          obtain ⟨-, rfl⟩ := h₁.unique h
          exact hx (List.cons.inj (h₂.unique h').1).1
        | succ n =>
          obtain ⟨bs, y, v, w, h, h', -, hrest⟩ := h
          obtain ⟨-, rfl⟩ := h₁.unique h
          obtain ⟨-, rfl⟩ := h₂.unique h'
          exact hno n t (fun he => Nat.lt_of_succ_lt_succ (hfuel he)) hrest

/-- The card gets its clocks. -/
lemma returns_wake (hh : HostOk depth dif wires) (s : St σ) :
    Returns (xferCsaat dif handle false none 10) s fun _ s' =>
      (wires s'.dev).miso = (wires s.dev).miso.drop 10 ∧
        Between wires (fun ts => ts = [waking handle]) s s' := by
  obtain ⟨hret, hnext⟩ := hh.csaat handle.csid (.dummy 80) s.dev trivial
  unfold xferCsaat
  refine returns_bind.mpr (returns_checkAssert.mpr ⟨fun h => Bool.false_ne_true h.2, ?_⟩)
  refine returns_checkDif
    (by rw [show 8 * 10 = 80 from rfl]; simp only [Bool.false_eq_true, if_false, hret])
    ⟨?_, _, ?_, rfl⟩
  · show (wires _).miso = _
    simp only [Bool.false_eq_true, if_false]
    rw [hnext]
    rfl
  · show (wires _).sent = _
    simp only [Bool.false_eq_true, if_false]
    rw [hnext]
    rfl

/-- **The activation** ends with the dialogue, or there is no such dialogue. -/
theorem ends_activate (hh : HostOk depth dif wires) (fuel : ℕ) (s : St σ) :
    Ends (spiSdcardActivate dif handle undef fuel) s
      (fun _ s' => ∃ n, Activates undef n (wires s.dev).miso (wires s'.dev).miso ∧
        Between wires (Activation handle n) s s')
      fun e _ => ∀ n t, (e = none → n < fuel) → ¬ Activates undef n (wires s.dev).miso t := by
  unfold spiSdcardActivate
  refine Ends.bind (ends_ending (returns_wake hh s).ends) ?_
  rintro - s₁ ⟨hmiso₁, hsent₁⟩
  refine Ends.bind (ends_ending ((ends_checked hh Resp.noConfusion (by decide) s₁).mono
    (fun _ _ h => h) ?_)) ?_
  · rintro e s₂ hno n t - ⟨b₀, b₈, b₅₈, t₀, t₈, t₅₅, t₅₈, h₀, ha₀, -⟩
    rw [← hmiso₁] at h₀
    exact hno b₀ t₀ h₀ fun _ => h₀.accepted_iff.mpr ha₀
  rintro - s₂ ⟨b₀, h₀, ha₀, hsent₂⟩
  have hb₀ := h₀.accepted_iff.mp (ha₀ rfl)
  rw [hmiso₁] at h₀
  refine Ends.bind (ends_ending ((ends_checked hh Resp.noConfusion (by decide) s₂).mono
    (fun _ _ h => h) ?_)) ?_
  · rintro e s₃ hno n t - ⟨b₀', b₈, b₅₈, t₀, t₈, t₅₅, t₅₈, h₀', -, h₈, ha₈, -⟩
    obtain ⟨-, rfl⟩ := h₀.unique h₀'
    exact hno b₈ t₈ h₈ fun _ => ha₈
  rintro - s₃ ⟨b₈, h₈, ha₈, hsent₃⟩
  refine Ends.bind ((ends_activateLoop hh fuel s₃).mono (fun _ _ h => h) ?_) ?_
  · rintro e s₄ hno n t hfuel ⟨b₀', b₈', b₅₈, t₀, t₈, t₅₅, t₅₈, h₀', -, h₈', -, hr, -⟩
    obtain ⟨-, rfl⟩ := h₀.unique h₀'
    obtain ⟨-, rfl⟩ := h₈.unique h₈'
    exact hno n t₅₅ hfuel hr
  rintro - s₄ ⟨n, hr, hsent₄⟩
  refine Ends.bind (ends_ending ((ends_checked hh Resp.noConfusion (by decide) s₄).mono
    (fun _ _ h => h) ?_)) ?_
  · rintro e s₅ hno n' t - ⟨b₀', b₈', b₅₈, t₀, t₈, t₅₅, t₅₈, h₀', -, h₈', -, hr', h₅₈, -⟩
    obtain ⟨-, rfl⟩ := h₀.unique h₀'
    obtain ⟨-, rfl⟩ := h₈.unique h₈'
    obtain ⟨-, rfl⟩ := hr.unique hr'
    exact hno b₅₈ t₅₈ h₅₈ fun h => absurd h Bool.false_ne_true
  rintro - s₅ ⟨b₅₈, h₅₈, -, hsent₅⟩
  refine ends_ending ((ends_checked hh Resp.noConfusion (by decide) s₅).mono ?_ ?_)
  · rintro - s₆ ⟨b₁₆, h₁₆, ha₁₆, hsent₆⟩
    obtain rfl : b₁₆ = [0] := (h₁₆.accepted_iff.mp (ha₁₆ rfl)).elim id id
    refine ⟨n, ⟨b₀, b₈, b₅₈, _, _, _, _, h₀, hb₀, h₈, ha₈ rfl, hr, h₅₈, h₁₆⟩, ?_⟩
    refine Between.trans hsent₁ (((hsent₂.single.exchanges hsent₃.single).exchanges
      hsent₄).exchanges (hsent₅.single.exchanges hsent₆.single)) ?_
    rintro - us rfl hus
    exact ⟨us, hus, rfl⟩
  · rintro e s₆ hno n' t -
    rintro ⟨b₀', b₈', b₅₈', t₀, t₈, t₅₅, t₅₈, h₀', -, h₈', -, hr', h₅₈', h₁₆⟩
    obtain ⟨-, rfl⟩ := h₀.unique h₀'
    obtain ⟨-, rfl⟩ := h₈.unique h₈'
    obtain ⟨-, rfl⟩ := hr.unique hr'
    obtain ⟨-, rfl⟩ := h₅₈.unique h₅₈'
    exact hno [0] t h₁₆ fun _ => h₁₆.accepted_iff.mpr (.inr rfl)

/-- **An activation returns exactly when the card leads the dialogue**, whatever it sends; then its
transactions are those of the dialogue.  When it returns a code there is no such dialogue. -/
theorem activate_iff (hh : HostOk depth dif wires) (s : St σ) :
    ((∃ fuel, Returns (spiSdcardActivate dif handle undef fuel) s fun _ s' =>
        ∃ n, Activates undef n (wires s.dev).miso (wires s'.dev).miso ∧
          Between wires (Activation handle n) s s') ↔
      ∃ n t, Activates undef n (wires s.dev).miso t) ∧
    ∀ fuel, Ends (spiSdcardActivate dif handle undef fuel) s
      (fun _ s' => ∃ n, Activates undef n (wires s.dev).miso (wires s'.dev).miso ∧
        Between wires (Activation handle n) s s')
      fun e _ => e ≠ none → ∀ n t, ¬ Activates undef n (wires s.dev).miso t := by
  refine ⟨⟨?_, ?_⟩, fun fuel => (ends_activate hh fuel s).mono (fun _ _ h => h)
    fun e s' hno he n t => hno n t fun h => absurd h he⟩
  · rintro ⟨fuel, hret⟩
    obtain ⟨-, s', -, n, hn, -⟩ := returns_iff.mp hret
    exact ⟨n, _, hn⟩
  · rintro ⟨n, t, hn⟩
    refine ⟨n + 1, (ends_activate hh (n + 1) s).returns ?_⟩
    exact fun e s' hno => hno n t (fun _ => Nat.lt_succ_self n) hn

end Wired

/-! ### A card that is busy once -/

/-- A response that comes at once. -/
def prompt (bs : List Byte) (t : Stream' Byte) : Stream' Byte :=
  List.replicate 6 0xFF ++ₛ (bs ++ₛ Stream'.cons 0xFF t)

lemma reply_prompt {resp : Resp} {r : Byte} {rest : List Byte} (t : Stream' Byte)
    (hlen : rest.length + 1 = respLen resp) (hr : (r &&& 0x80 != 0) = false) :
    Reply resp (prompt (r :: rest) t) (r :: rest) t := by
  refine ⟨r, rest ++ₛ Stream'.cons 0xFF t, ⟨[], by decide, ?_, hr, ?_⟩, ?_, ?_⟩
  · exact fun y hy => absurd hy List.not_mem_nil
  · rw [prompt, drop_append_stream (List.length_replicate ..)]
    rfl
  · rw [take_append_stream (by omega)]
  · rw [← hlen, ← Stream'.drop_drop, drop_append_stream rfl]
    rfl

/-- What a card sends that is busy for one round. -/
def busyOnce : Stream' Byte :=
  List.replicate 10 0xFF ++ₛ (prompt [0x01] <| prompt [0x01, 0x00, 0x00, 0x01, 0xAA] <|
    prompt [0x01] <| prompt [0x01] <| prompt [0x01] <| prompt [0x00] <|
    prompt [0x00, 0xC0, 0xFF, 0x80, 0x00] <| prompt [0x00] <| Stream'.const 0xFF)

/-- The mask is all ones, and `buf` was zero before the response came. -/
lemma activates_busyOnce : Activates ⟨-1, 0⟩ 1 busyOnce (Stream'.const 0xFF) := by
  unfold Activates
  rw [busyOnce, drop_append_stream (List.length_replicate ..)]
  exact ⟨_, _, _, _, _, _, _, reply_prompt _ rfl rfl, .inl rfl, reply_prompt _ rfl rfl,
    .inl (by decide), ⟨_, _, _, _, reply_prompt _ rfl rfl, reply_prompt _ rfl rfl, by decide, _, _,
      reply_prompt _ rfl rfl, reply_prompt _ rfl rfl⟩,
    reply_prompt _ rfl rfl, reply_prompt _ rfl rfl⟩

/-- That card is activated. -/
theorem activate_iff_busyOnce :
    ∃ fuel, Returns (spiSdcardActivate wiredDif ⟨0, 1⟩ ⟨-1, 0⟩ fuel) ⟨fun _ => 0, ⟨busyOnce, []⟩⟩
      fun _ s' => ∃ n, Activates ⟨-1, 0⟩ n busyOnce s'.dev.miso ∧
        Between id (Activation ⟨0, 1⟩ n) ⟨fun _ => 0, ⟨busyOnce, []⟩⟩ s' :=
  (activate_iff (hostOk_wiredDif 1) ⟨fun _ => 0, ⟨busyOnce, []⟩⟩).1.mpr
    ⟨1, _, activates_busyOnce⟩

end Cheshire.Sw.SpiSdcard
