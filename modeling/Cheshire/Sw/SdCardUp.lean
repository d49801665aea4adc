import Cheshire.Lib.Follow
import Cheshire.Sw.SdCardWake
import Cheshire.Sw.SpiSdcardRead

/-!
Reads of an SD card that is up.  A card that has just got its power does not answer to reads; what a
card promises it promises on the states from which a read never leads astray.  There the host is a
host of its own, and a read on it is a read on the whole.
-/

namespace Cheshire.Sw.SpiSdcard

open Lib

/-- The segments of a read. -/
inductive ReadSeg : Segment → Prop
  | single (arg : U32) (crc : Byte) : ReadSeg (.tx (frame 0x51 arg crc))
  | multiple (arg : U32) (crc : Byte) : ReadSeg (.tx (frame 0x52 arg crc))
  | stop : ReadSeg (.tx (frame 0x4C 0 0x61))
  | rx (n : ℕ) : ReadSeg (.rx n)
  | dummy (n : ℕ) : ReadSeg (.dummy n)

/-- States that the segments of a read do not leave. -/
structure Closed {σ : Type} (dif : Dif σ) (handle : Handle) (Up : σ → Prop) : Prop where
  csaat : ∀ {seg s}, ReadSeg seg → Up s → Up (dif.transactionCsaat handle.csid seg s).2
  free : ∀ {s}, Up s → Up (dif.transaction handle.csidDummy (.dummy 8) s).2

section Restrict

variable {σ : Type} {dif : Dif σ} {handle : Handle} {undef : Undefined} {Up : σ → Prop}

open Classical in
/-- The host on these states.  It refuses whatever a read does not need. -/
noncomputable def Closed.restrict (h : Closed dif handle Up) : Dif {s // Up s} where
  transactionCsaat csid seg s :=
    if hseg : csid = handle.csid ∧ ReadSeg seg then
      ((dif.transactionCsaat handle.csid seg s.1).1,
        ⟨(dif.transactionCsaat handle.csid seg s.1).2, h.csaat hseg.2 s.2⟩)
    else ((1, []), s)
  transaction csid seg s :=
    if csid = handle.csidDummy ∧ seg = .dummy 8 then
      ((dif.transaction handle.csidDummy (.dummy 8) s.1).1,
        ⟨(dif.transaction handle.csidDummy (.dummy 8) s.1).2, h.free s.2⟩)
    else ((1, []), s)

variable (Up) in
/-- A state of the restricted host, as one of the whole. -/
def St.erase (s : St {s // Up s}) : St σ := ⟨s.mem, s.dev.1⟩

/-! ### Programs on the restricted host -/

variable (h : Closed dif handle Up)

lemma along_checkDif {call : σ → (CInt × List Byte) × σ}
    {call' : {s // Up s} → (CInt × List Byte) × {s // Up s}}
    (hcall : ∀ s, call s.1 = ((call' s).1, (call' s).2.1)) :
    Along (St.erase Up) (checkDif call') (checkDif call) := by
  intro s
  unfold checkDif St.erase
  rw [hcall s.dev]
  by_cases h0 : (call' s.dev).1.1 ≠ 0
  · simp only [if_pos h0]
  · simp only [if_neg h0]

lemma Closed.along_csaat {seg : Segment} (hseg : ReadSeg seg) :
    Along (St.erase Up) (checkDif (h.restrict.transactionCsaat handle.csid seg))
      (checkDif (dif.transactionCsaat handle.csid seg)) := by
  refine along_checkDif fun s => ?_
  simp only [Closed.restrict, hseg, and_self, dif_pos]

lemma Closed.along_csfree :
    Along (St.erase Up) (csfree h.restrict handle) (csfree dif handle) := by
  refine Along.bind (along_checkDif fun s => ?_) fun _ => along_pure ()
  simp only [Closed.restrict, and_self, if_true]

lemma along_checkAssert {ret : CInt} {cond : Prop} [Decidable cond] :
    Along (St.erase Up) (checkAssert ret cond) (checkAssert ret cond) := by
  unfold checkAssert
  exact Along.ite (fun _ => along_pure ()) fun _ => along_throw ret

lemma Closed.along_rx (n : ℕ) :
    Along (St.erase Up) (xferCsaat h.restrict handle true none n)
      (xferCsaat dif handle true none n) :=
  Along.bind along_checkAssert fun _ => h.along_csaat (.rx n)

lemma Closed.along_xferByte :
    Along (St.erase Up) (xferByte h.restrict handle) (xferByte dif handle) :=
  Along.bind (h.along_rx 1) fun _ => along_pure _

lemma Closed.along_xferTo (p : U64) (len : ℕ) :
    Along (St.erase Up) (xferTo h.restrict handle p len) (xferTo dif handle p len) := by
  refine Along.bind (Along.bind along_checkAssert fun _ => h.along_csaat ?_) fun bs => ?_
  · show ReadSeg (if (p != 0) = true then _ else _)
    split
    · exact .rx len
    · exact .dummy _
  · exact Along.ite (fun _ => along_pure ()) fun _ _ => rfl

lemma Closed.along_poll (err : CInt) (again : Byte → Bool) (n : ℕ) :
    Along (St.erase Up) (poll h.restrict handle err again n) (poll dif handle err again n) := by
  induction n with
  | zero => exact along_throw err
  | succ n ih =>
    refine Along.bind h.along_xferByte fun x => ?_
    exact Along.ite (fun _ => along_throw err) fun _ =>
      Along.ite (fun _ => ih) fun _ => along_pure x

/-- A command that a read sends. -/
lemma Closed.along_cmd {c : U64} (hc : ReadSeg (.tx ((toLe 8 c.toNat).take 6))) (resp : Resp)
    (csaat : Bool) :
    Along (St.erase Up) (cmd h.restrict handle c resp csaat) (cmd dif handle c resp csaat) := by
  unfold cmd
  refine Along.bind (Along.bind along_checkAssert fun _ => h.along_csaat hc) fun _ => ?_
  -- behind the response
  have hend : ∀ (r : Byte) (rest : List Byte), Along (St.erase Up)
      (if csaat = true then pure (r :: rest) else
        csfree h.restrict handle >>= fun _ => pure (r :: rest))
      (if csaat = true then pure (r :: rest) else
        csfree dif handle >>= fun _ => pure (r :: rest)) :=
    fun r rest => Along.ite (fun _ => along_pure _) fun _ =>
      h.along_csfree.bind fun _ => along_pure _
  refine Along.ite (fun _ => h.along_xferByte.bind fun _ => ?_) fun _ => ?_
  all_goals
    refine (h.along_poll _ _ _).bind fun r => ?_
    refine Along.ite (fun _ => ?_) fun _ => ?_
    · exact (h.along_poll _ _ _).bind fun _ => (along_pure _).bind fun rest => hend r rest
    · refine Along.ite (fun _ => ?_) fun _ => ?_
      · exact (h.along_rx _).bind fun rest => hend r rest
      · exact (along_pure _).bind fun rest => hend r rest

lemma along_checkCall (ret : CInt) :
    Along (St.erase Up) (checkCall ret) (checkCall ret) := by
  unfold checkCall
  exact Along.ite (fun _ => along_throw ret) fun _ => along_pure ()

lemma Closed.along_cmdCheck {c : U64} (hc : ReadSeg (.tx ((toLe 8 c.toNat).take 6))) (resp : Resp)
    (checkExp : Bool) (exp : U64) :
    Along (St.erase Up) (cmdCheck h.restrict handle undef c resp checkExp exp)
      (cmdCheck dif handle undef c resp checkExp exp) :=
  Along.bind (h.along_cmd hc resp false) fun _ =>
    Along.ite (fun _ => along_checkCall _) fun _ => along_pure ()

/-! ### Reads -/

lemma Closed.along_readChunks (depth : ℕ+) (blockBuf : U64) (offs : ℕ) :
    Along (St.erase Up) (readChunks h.restrict handle depth blockBuf offs)
      (readChunks dif handle depth blockBuf offs) := by
  induction offs using readChunks.induct depth with
  | case1 offs hlt ih =>
    unfold readChunks
    rw [if_pos hlt, if_pos hlt]
    exact (h.along_xferTo _ _).bind fun _ => ih
  | case2 offs hge =>
    unfold readChunks
    rw [if_neg hge, if_neg hge]
    exact along_pure ()

lemma along_memcpy (dst src len : U64) :
    Along (St.erase Up) (memcpy dst src len) (memcpy dst src len) :=
  Along.bind (fun _ => rfl) fun _ _ => rfl

lemma Closed.along_readBlock (depth : ℕ+) (buf len blockSwap firstOffs lastLen : U64)
    (checkCrc : Bool) (b : U64) :
    Along (St.erase Up)
      (readBlock h.restrict handle depth buf len blockSwap firstOffs lastLen checkCrc b)
      (readBlock dif handle depth buf len blockSwap firstOffs lastLen checkCrc b) := by
  unfold readBlock
  refine (h.along_poll _ _ _).bind fun token => ?_
  refine Along.ite (fun _ => ?_) fun _ => (along_throw _).bind fun _ => ?_
  all_goals
    refine (h.along_readChunks _ _ _).bind fun _ => (h.along_rx 2).bind fun crc => ?_
    refine Along.bind (n := loadBytes _ _) (m := loadBytes _ _) (fun _ => rfl) fun data => ?_
    refine Along.ite (fun _ => (along_throw _).bind fun _ => ?_) fun _ => ?_
    all_goals
      exact Along.ite (fun _ => along_memcpy _ _ _) fun _ => Along.ite (fun _ => along_memcpy _ _ _)
        fun _ => Along.ite (fun _ => along_memcpy _ _ _) fun _ => along_pure ()

/-- The commands of a read. -/
lemma readSeg_buildCmd (multi : Prop) [Decidable multi] (block : U32) :
    ReadSeg (.tx ((toLe 8 (buildCmd (if multi then 0x52 else 0x51) block).toNat).take 6)) := by
  rw [take_buildCmd]
  split
  · exact .multiple _ _
  · exact .single _ _

lemma readSeg_stop : ReadSeg (.tx ((toLe 8 (0x61000000004C : U64).toNat).take 6)) := by
  have hframe : (toLe 8 (0x61000000004C : U64).toNat).take 6 = frame 0x4C 0 0x61 := by decide
  rw [hframe]
  exact .stop

lemma Closed.along_readBlocks (depth : ℕ+) (buf block len blockSwap firstOffs lastLen : U64)
    (checkCrc : Bool) :
    Along (St.erase Up)
      (readBlocks h.restrict handle undef depth buf block len blockSwap firstOffs lastLen checkCrc)
      (readBlocks dif handle undef depth buf block len blockSwap firstOffs lastLen checkCrc) := by
  unfold readBlocks
  refine Along.ite (fun _ => along_pure ()) fun _ => ?_
  refine (h.along_cmd (readSeg_buildCmd _ _) _ _).bind fun _ => ?_
  refine (Along.forM fun b => h.along_readBlock _ _ _ _ _ _ _ _).bind fun _ => ?_
  exact Along.ite (fun _ => h.along_cmdCheck readSeg_stop _ _ _) fun _ => h.along_csfree

/-- **A read on the restricted host** is a read on the whole. -/
theorem Closed.along_read (depth : ℕ+) (swap buf addr len : U64) (checkCrc : Bool) :
    Along (St.erase Up) (read h.restrict handle undef depth swap buf addr len checkCrc)
      (read dif handle undef depth swap buf addr len checkCrc) := by
  unfold read
  exact Along.ite (fun _ => along_pure ()) fun _ => h.along_readBlocks _ _ _ _ _ _ _ _

end Restrict

/-- **A card that is up**: on the states in which it is up the host with the card keeps its
promises. -/
structure CardUp {σ : Type} (depth : ℕ+) (dif : Dif σ) (handle : Handle) (content : ℕ → Byte)
    (served : Set ℕ) (bus : σ → Bus) (Up : σ → Prop) : Prop where
  closed : Closed dif handle Up
  card : CardOk depth closed.restrict handle content served fun s => bus s.1

/-- **A read of a card that is up.** -/
theorem CardUp.returns_read {σ : Type} {depth : ℕ+} {dif : Dif σ} {handle : Handle}
    {undef : Undefined} {content : ℕ → Byte} {served : Set ℕ} {bus : σ → Bus} {Up : σ → Prop}
    (hc : CardUp depth dif handle content served bus Up) {swap buf addr len : U64} {s : St σ}
    (hbuf : len ≠ 0 → Buffers swap buf len) (haddr : addr.toNat + len.toNat + 511 < 2 ^ 64)
    (hcard : ∀ i < len.toNat, (addr.toNat + i) / 512 < 2 ^ 32)
    (hserved : ∀ i < len.toNat, (addr.toNat + i) / 512 ∈ served) (hup : Up s.dev)
    (hidle : (bus s.dev).phase = .idle) :
    Returns (spiSdcardReadCheckcrc dif handle undef depth swap buf addr len) s fun _ s' =>
      (Up s'.dev ∧ (bus s'.dev).phase = .idle) ∧
        Delivered content swap buf addr.toNat len.toNat s.mem s'.mem := by
  refine (hc.closed.along_read depth swap buf addr len true).returns (t := ⟨s.mem, ⟨s.dev, hup⟩⟩)
    ((SpiSdcard.returns_read hc.card hbuf haddr hcard hserved hidle true).mono ?_)
  exact fun _ s' ⟨hidle', hdel⟩ => ⟨⟨s'.dev.2, hidle'⟩, hdel⟩

/-! ### A card that is busy for one ACMD41 -/

/-- The card with the host.  Before it is used no read is under way. -/
structure Waking where
  view : View
  bus : Bus
  idle : view.stage = .ready → bus.phase = .idle

/-- The response in a stage of the activation, and the stage behind it. -/
def nextStage : Stage → Option (List Byte × Stage)
  | .awake => some ([0x01], .idle)
  | .idle => some ([0x01, 0x00, 0x00, 0x01, 0xAA], .checked 1)
  | .checked k => some ([0x01], .app k)
  | .app 0 => some ([0x00], .active)
  | .app (k + 1) => some ([0x01], .checked k)
  | .active => some ([0x00, 0xC0, 0xFF, 0x80, 0x00], .told)
  | .told => some ([0x00], .ready)
  | _ => none

/-- The clocks wake the card up. -/
def wakeStage : Stage → Stage
  | .off => .awake
  | stage => stage

lemma eq_ready_of_wakeStage {stage : Stage} (h : wakeStage stage = .ready) : stage = .ready := by
  cases stage <;> first | exact h | exact Stage.noConfusion h

/-- What the card does on a command. -/
def Waking.respond (size : ℕ) (content : ℕ → Byte) (bs : List Byte) (s : Waking) : Waking :=
  match nextStage s.view.stage with
  | some (resp, stage) =>
    ⟨⟨stage, s.view.clock, s.view.on⟩, ⟨0xFF :: resp ++ₛ Stream'.const 0xFF, .idle⟩, fun _ => rfl⟩
  | none =>
    ⟨⟨.used, s.view.clock, s.view.on⟩, promptRespond size content bs s.bus, Stage.noConfusion⟩

/-- A host with that card. -/
def wakingDif (size : ℕ) (content : ℕ → Byte) : SetupDif Waking where
  transactionCsaat _ seg s :=
    match seg with
    | .tx bs => ((0, []), s.respond size content bs)
    | .rx n =>
      ((0, s.bus.coming.take n), ⟨s.view, ⟨s.bus.coming.drop n, s.bus.phase⟩, s.idle⟩)
    | .dummy _ =>
      ((0, []), ⟨⟨wakeStage s.view.stage, s.view.clock, s.view.on⟩, s.bus,
        fun h => s.idle (eq_ready_of_wakeStage h)⟩)
  transaction _ _ s :=
    ((0, []), ⟨s.view, ⟨s.bus.coming, if s.bus.phase = .multiple then .multiple else .idle⟩,
      fun h => by rw [s.idle h]; rfl⟩)
  init s := (0, s)
  reset s := s
  configureCs cfg csid s :=
    (0, if csid = 0 then ⟨⟨s.view.stage, cfg.spiClock, s.view.on⟩, s.bus, s.idle⟩ else s)
  enable _ s := s
  outputSetEnabled b s := (0, ⟨⟨s.view.stage, s.view.clock, b⟩, s.bus, s.idle⟩)

lemma wakes_wakingDif (size : ℕ) (content : ℕ → Byte) (csidDummy : CInt) :
    Wakes (wakingDif size content) ⟨0, csidDummy⟩ (fun s => s.bus.coming) Waking.view where
  init _ := ⟨rfl, rfl⟩
  reset _ := rfl
  configure cfg csid s _ _ := by
    refine ⟨rfl, ?_⟩
    show Waking.view (if csid = 0 then _ else s) = if csid = 0 then _ else s.view
    split <;> rfl
  enable _ _ := rfl
  output _ _ := ⟨rfl, rfl⟩
  wake clock s _ hview := by
    refine ⟨rfl, ?_⟩
    show (⟨wakeStage s.view.stage, s.view.clock, s.view.on⟩ : View) = _
    rw [hview]
    rfl
  turn stage c resp clock s := by
    rintro ⟨bs, stage', hturn⟩ - hview
    have hrespond : ∀ tx ys stage'', nextStage stage = some (ys, stage'') →
        (s.respond size content tx).view = ⟨stage'', clock, true⟩ ∧
        (s.respond size content tx).bus = ⟨0xFF :: ys ++ₛ Stream'.const 0xFF, .idle⟩ := by
      intro tx ys stage'' hnext
      unfold Waking.respond
      simp only [hview, hnext, and_self]
    have hanswers : ∀ y ys stage'', nextStage stage = some (y :: ys, stage'') →
        Turn stage c resp (y :: ys) stage'' → (fun x : Byte => x &&& 0x80 != 0) y = false →
        ∃ bs u stage', Turn stage c resp bs stage' ∧ (0 : CInt) = 0 ∧
          Answers (fun x => x &&& 0x80 != 0) 8
            (s.respond size content ((toLe 8 c.toNat).take 6)).bus.coming (bs.headD 0)
            (bs.tail ++ₛ u) ∧
          (s.respond size content ((toLe 8 c.toNat).take 6)).view = ⟨stage', clock, true⟩ := by
      intro y ys stage'' hnext hturn' hy
      rw [(hrespond _ _ _ hnext).1, (hrespond _ _ _ hnext).2]
      exact ⟨y :: ys, _, stage'', hturn', rfl, ⟨[0xFF], by decide, by decide, hy, rfl⟩, rfl⟩
    cases hturn with
    | cmd0 => exact hanswers 0x01 _ _ rfl .cmd0 rfl
    | cmd8 => exact hanswers 0x01 _ _ rfl (.cmd8 1) rfl
    | cmd55 k => exact hanswers 0x01 _ _ rfl (.cmd55 k _) rfl
    | busy k => exact hanswers 0x01 _ _ rfl (.busy k _ (by decide)) rfl
    | done => exact hanswers 0x00 _ _ rfl .done rfl
    | cmd58 => exact hanswers 0x00 _ _ rfl (.cmd58 _ rfl) rfl
    | cmd16 => exact hanswers 0x00 _ _ rfl .cmd16 rfl
  rx _ _ _ := ⟨rfl, rfl, rfl⟩
  free _ := ⟨rfl, rfl⟩

/-- The activation is over. -/
def Waking.Up (s : Waking) : Prop := s.view.stage = .ready ∨ s.view.stage = .used

lemma respond_up (size : ℕ) (content : ℕ → Byte) {s : Waking} (hs : s.Up) (bs : List Byte) :
    (s.respond size content bs).view.stage = .used ∧
      (s.respond size content bs).bus = promptRespond size content bs s.bus := by
  unfold Waking.respond
  rcases hs with hs | hs <;> simp only [hs, nextStage, and_self]

lemma cardUp_wakingDif (depth : ℕ+) (size : ℕ) (content : ℕ → Byte) (handle : Handle) :
    CardUp depth (wakingDif size content).toDif handle content {b | b < size} Waking.bus
      Waking.Up := by
  have hclosed : Closed (wakingDif size content).toDif handle Waking.Up := by
    refine ⟨fun {seg s} _ hup => ?_, fun {s} hup => hup⟩
    cases seg with
    | tx bs =>
      exact .inr (respond_up size content hup bs).1
    | rx n => exact hup
    | dummy n =>
      show wakeStage s.view.stage = .ready ∨ wakeStage s.view.stage = .used
      rcases hup with hup | hup <;> rw [hup]
      · exact .inl rfl
      · exact .inr rfl
  -- up, the card is the one that answers at once
  have hcsaat : ∀ {seg} (s : {s // Waking.Up s}), ReadSeg seg →
      (hclosed.restrict.transactionCsaat handle.csid seg s).1 =
        ((promptDif size content).transactionCsaat handle.csid seg s.1.bus).1 ∧
      (hclosed.restrict.transactionCsaat handle.csid seg s).2.1.bus =
        ((promptDif size content).transactionCsaat handle.csid seg s.1.bus).2 := by
    intro seg s hseg
    simp only [Closed.restrict, hseg, and_self, dif_pos]
    cases seg with
    | tx bs =>
      exact ⟨rfl, (respond_up size content s.2 bs).2⟩
    | rx n => exact ⟨rfl, rfl⟩
    | dummy n => exact ⟨rfl, rfl⟩
  have hfree : ∀ s : {s // Waking.Up s},
      (hclosed.restrict.transaction handle.csidDummy (.dummy 8) s).1.1 = 0 ∧
      (hclosed.restrict.transaction handle.csidDummy (.dummy 8) s).2.1.bus =
        ((promptDif size content).transaction handle.csidDummy (.dummy 8) s.1.bus).2 := by
    intro s
    simp only [Closed.restrict, and_self, if_true]
    exact ⟨rfl, rfl⟩
  have hcard := cardOk_promptDif depth handle size content
  refine ⟨hclosed, ?_, ?_, ?_, ?_, ?_⟩
  · intro n s hn
    rw [(hcsaat s (.rx n)).1, (hcsaat s (.rx n)).2]
    exact hcard.rx n s.1.bus hn
  · intro arg crc s hserved hidle
    rw [(hcsaat s (.single arg crc)).1, (hcsaat s (.single arg crc)).2]
    exact hcard.single arg crc s.1.bus hserved hidle
  · intro arg crc s hserved hidle
    rw [(hcsaat s (.multiple arg crc)).1, (hcsaat s (.multiple arg crc)).2]
    exact hcard.multiple arg crc s.1.bus hserved hidle
  · intro s hmulti
    rw [(hcsaat s .stop).1, (hcsaat s .stop).2]
    exact hcard.stop s.1.bus hmulti
  · intro s
    rw [(hfree s).1, (hfree s).2]
    exact hcard.free s.1.bus

end Cheshire.Sw.SpiSdcard
