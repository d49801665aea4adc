import Cheshire.Lib.Parity
import Cheshire.Sw.SpiSdcardExit

/-!
The commands that the driver builds and the responses that it checks.  The entries of its table
for the checksum stand one place to the left, and its loop moves them there once more: the checksum
is the right one only where eight sums of message bits are even.  A response that differs from the
expected one is returned as the error code, and is no error where its bytes are zero; what a response
of five bytes is compared with C leaves open.
-/

namespace Cheshire.Sw.SpiSdcard

open Lib

/-! ### The commands -/

/-- The bytes that the checksum of a command is over. -/
def cmdBytes (opcode : Byte) (arg : U32) : List Byte := opcode :: (toLe 4 arg.toNat).reverse

/-- The checksum of a command under `x^7 + x^3 + 1`. -/
def cmdCrc (opcode : Byte) (arg : U32) : BitVec 7 :=
  Crc.remainderBits 0x09 ((cmdBytes opcode arg).flatMap Crc.bitsOf)

/-- The hard-coded commands of `__spi_sdcard_activate`: CMD0, CMD8, CMD55, ACMD41 and CMD58 with
their opcodes and arguments. -/
def activateCmds : List (Byte × U32 × U64) :=
  [(0x40, 0x00000000, 0x950000000040), (0x48, 0x000001AA, 0x87AA01000048),
    (0x77, 0x00000000, 0x650000000077), (0x69, 0x40000000, 0x770000004069),
    (0x7A, 0x00000000, 0xFD000000007A)]

/-- The command is built as the card expects it: opcode, argument and checksum, and two bytes that
are zero.  The hard-coded commands are built alike. -/
def BuildCmdOk (opcode : Byte) (arg : U32) : Prop :=
  toLe 8 (buildCmd opcode arg).toNat =
    frame opcode arg ((cmdCrc opcode arg).setWidth 8 <<< 1 ||| 1) ++ [0, 0] ∧
  ∀ c, (opcode, arg, c) ∈ activateCmds → buildCmd opcode arg = c

/-- The bits of a message whose sums tell the checksum of the table from the right one. -/
def crcMasks : List (BitVec 40) :=
  [0xacc1b5d191, 0xe3e57283b3, 0xa8bcb15f66, 0x6b1066fe5d, 0xf3838cdc2b, 0xecf7a82956,
    0xec06c152ac, 0x1bb8fe74c8]

/-- Eight sums of bits of the opcode and the argument are even. -/
def SumsEven (opcode : Byte) (arg : U32) : Prop :=
  ∀ mask ∈ crcMasks, parity (mask &&& (opcode ++ arg : BitVec 40)) = false

/-- The bytes of a command are those that its checksum is over. -/
lemma take_cmdBody (opcode : Byte) (arg : U32) :
    (toLe 8 (cmdBody opcode arg).toNat).take 5 = cmdBytes opcode arg := by
  rw [cmdBytes, toLe_reverse]
  refine List.ext_getElem (by simp) fun k hk _ => ?_
  have hk5 : k < 5 := by simpa using hk
  rw [List.getElem_take, getElem_toLe, ofNat_byte]
  refine BitVec.eq_of_getLsbD_eq fun i hi => ?_
  unfold cmdBody
  interval_cases k <;> interval_cases i <;> simp

/-- Behind the six bytes of a command comes the bit that its checksum has shifted out. -/
lemma drop_buildCmd (opcode : Byte) (arg : U32) : (toLe 8 (buildCmd opcode arg).toNat).drop 6 =
    [(crc7 (cmdBytes opcode arg) >>> 7), 0] := by
  rw [buildCmd, take_cmdBody]
  generalize crc7 (cmdBytes opcode arg) = q
  refine List.ext_getElem (by simp) fun k hk _ => ?_
  have hk2 : k < 2 := by simpa using hk
  rw [List.getElem_drop, getElem_toLe, ofNat_byte]
  refine BitVec.eq_of_getLsbD_eq fun i hi => ?_
  unfold cmdBody
  interval_cases k <;> interval_cases i <;> simp

/-! ### The checksum of the table -/

/-- The table has each checksum one place to the left. -/
lemma crc7Lookup_eq : ∀ x : Byte, crc7Lookup.getD x.toNat 0 =
    (Crc.remainderBits 0x09 (Crc.bitsOf x) : BitVec 7).setWidth 8 <<< 1 := by
  decide +kernel

lemma crc7Lookup_xor (x y : Byte) : crc7Lookup.getD (x ^^^ y).toNat 0 =
    crc7Lookup.getD x.toNat 0 ^^^ crc7Lookup.getD y.toNat 0 := by
  have hlin := Crc.xorHom_remainderBits (0x09 : BitVec 7) x y
  simp only at hlin
  rw [crc7Lookup_eq, crc7Lookup_eq, crc7Lookup_eq, hlin, BitVec.setWidth_xor,
    BitVec.shiftLeft_xor_distrib]

/-- The bytes of a message of five bytes. -/
def bytesOf (x : BitVec 40) : List Byte :=
  [x.extractLsb' 32 8, x.extractLsb' 24 8, x.extractLsb' 16 8, x.extractLsb' 8 8,
    x.extractLsb' 0 8]

lemma bytesOf_append (opcode : Byte) (arg : U32) :
    bytesOf (opcode ++ arg : BitVec 40) = cmdBytes opcode arg := by
  have hbit (i : ℕ) : (opcode ++ arg : BitVec 40).getLsbD i =
      if i < 32 then arg.getLsbD i else opcode.getLsbD (i - 32) := BitVec.getLsbD_append
  rw [bytesOf, cmdBytes, toLe_reverse]
  refine List.ext_getElem (by simp) fun k hk _ => ?_
  have hk5 : k < 5 := by simpa using hk
  refine BitVec.eq_of_getLsbD_eq fun i hi => ?_
  interval_cases k
  all_goals
    simp only [List.getElem_cons_zero, List.getElem_cons_succ, BitVec.getLsbD_extractLsb', hbit, hi]
    interval_cases i <;> simp

lemma flatMap_bytesOf (x : BitVec 40) : (bytesOf x).flatMap Crc.bitsOf = Crc.bitsOf x := by
  have hx : x = x.extractLsb' 32 8 ++ x.extractLsb' 24 8 ++ x.extractLsb' 16 8 ++
      x.extractLsb' 8 8 ++ x.extractLsb' 0 8 := by
    refine BitVec.eq_of_getLsbD_eq (w := 8 + 8 + 8 + 8 + 8) fun i hi => ?_
    simp only [BitVec.getLsbD_append, BitVec.getLsbD_extractLsb']
    interval_cases i <;> rfl
  conv_rhs => rw [hx]
  rw [Crc.bitsOf_append, Crc.bitsOf_append, Crc.bitsOf_append, Crc.bitsOf_append]
  simp [bytesOf]

/-- What the table computes respects the exclusive or, too. -/
lemma xorHom_crc7 : XorHom fun x : BitVec 40 => crc7 (bytesOf x) := by
  intro a b
  have hstep (x y s t : Byte) : crc7Lookup.getD (x ^^^ y ^^^ (s ^^^ t) <<< 1).toNat 0 =
      crc7Lookup.getD (x ^^^ s <<< 1).toNat 0 ^^^ crc7Lookup.getD (y ^^^ t <<< 1).toNat 0 := by
    rw [← crc7Lookup_xor, BitVec.shiftLeft_xor_distrib]
    congr 2
    ac_rfl
  have hzero : (0 : Byte) = 0 ^^^ 0 := rfl
  show crc7 (bytesOf (a ^^^ b)) = crc7 (bytesOf a) ^^^ crc7 (bytesOf b)
  simp only [bytesOf, crc7, List.foldl_cons, List.foldl_nil, BitVec.extractLsb'_xor]
  rw [← hstep, ← hstep, ← hstep, ← hstep, ← hstep, ← hzero]

/-- How the checksum of the table differs from the right one. -/
def crcDiff (x : BitVec 40) : Byte :=
  crc7 (bytesOf x) ^^^ (Crc.remainderBits 0x09 (Crc.bitsOf x) : BitVec 7).setWidth 8

lemma xorHom_crcDiff : XorHom crcDiff := by
  refine xorHom_crc7.xor fun a b => ?_
  have hlin := Crc.xorHom_remainderBits (0x09 : BitVec 7) a b
  simp only at hlin
  rw [hlin, BitVec.setWidth_xor]

/-- The masks are the right ones, bit by bit. -/
lemma crcDiff_twoPow : ∀ i < 8, ∀ j < 40,
    (crcDiff (BitVec.twoPow 40 j)).getLsbD i = (crcMasks.getD i 0).getLsbD j := by
  decide +kernel

/-- **The table gives the right checksum** where the sums are even. -/
theorem crc7_eq_iff (opcode : Byte) (arg : U32) :
    crc7 (cmdBytes opcode arg) = (cmdCrc opcode arg).setWidth 8 ↔ SumsEven opcode arg := by
  have h := xorHom_crcDiff.eq_zero_iff (show crcMasks.length = 8 from rfl) crcDiff_twoPow (opcode ++ arg)
  rw [crcDiff, ← flatMap_bytesOf, bytesOf_append] at h
  exact BitVec.xor_eq_zero_iff.symm.trans h

/-! ### Commands as they are built -/

/-- The checksum byte, and the bit behind it, are right where the checksum is. -/
lemma crcByte_eq_iff (q : Byte) (crc : BitVec 7) :
    (q <<< 1 ||| (1 : Byte) = crc.setWidth 8 <<< 1 ||| 1 ∧ q >>> 7 = 0) ↔ q = crc.setWidth 8 := by
  constructor
  · rintro ⟨hlow, hhigh⟩
    refine BitVec.eq_of_getLsbD_eq fun i hi => ?_
    rcases Nat.lt_or_ge i 7 with h | h
    · have hbit := congrArg (fun x => x.getLsbD (i + 1)) hlow
      interval_cases i <;> simpa using hbit
    · obtain rfl : i = 7 := by omega
      simpa using congrArg (fun x => x.getLsbD 0) hhigh
  · rintro rfl
    refine ⟨rfl, BitVec.eq_of_getLsbD_eq fun i hi => ?_⟩
    interval_cases i <;> simp

/-- A number is its eight bytes. -/
lemma eq_of_toLe_eq {x y : U64} (h : toLe 8 x.toNat = toLe 8 y.toNat) : x = y := by
  have hx : x.toNat < 256 ^ 8 := x.isLt
  have hy : y.toNat < 256 ^ 8 := y.isLt
  refine BitVec.eq_of_toNat_eq ?_
  rw [← ofLe_toLe_of_lt hx, h, ofLe_toLe_of_lt hy]

/-- The hard-coded commands have the right checksums. -/
lemma toLe_activateCmds : ∀ c ∈ activateCmds, toLe 8 c.2.2.toNat =
    frame c.1 c.2.1 ((cmdCrc c.1 c.2.1).setWidth 8 <<< 1 ||| 1) ++ [0, 0] := by
  -- over the list and not over all triples, of which there are finitely many, too
  have hall : (activateCmds.all fun c => toLe 8 c.2.2.toNat =
      frame c.1 c.2.1 ((cmdCrc c.1 c.2.1).setWidth 8 <<< 1 ||| 1) ++ [0, 0]) = true := by
    decide +kernel
  exact fun c hc => of_decide_eq_true (List.all_eq_true.mp hall c hc)

/-- **A command is built as the card expects it exactly when the eight sums are even.** -/
theorem buildCmdOk_iff (opcode : Byte) (arg : U32) :
    BuildCmdOk opcode arg ↔ SumsEven opcode arg := by
  have hbytes : toLe 8 (buildCmd opcode arg).toNat =
      frame opcode arg (crc7 (cmdBytes opcode arg) <<< 1 ||| 1) ++
        [crc7 (cmdBytes opcode arg) >>> 7, 0] := by
    rw [← List.take_append_drop 6 (toLe 8 (buildCmd opcode arg).toNat), take_buildCmd,
      take_cmdBody, drop_buildCmd]
  rw [← crc7_eq_iff, ← crcByte_eq_iff, BuildCmdOk, hbytes]
  constructor
  · rintro ⟨h, -⟩
    obtain ⟨hframe, hrest⟩ := List.append_inj h (by simp [frame])
    obtain ⟨-, hcrc⟩ := List.append_inj hframe rfl
    exact ⟨(List.cons.inj hcrc).1, (List.cons.inj hrest).1⟩
  · rintro ⟨hcrc, hrest⟩
    rw [hcrc, hrest]
    refine ⟨rfl, fun c hc => eq_of_toLe_eq ?_⟩
    rw [toLe_activateCmds _ hc, hbytes, hcrc, hrest]

/-- CMD0 gets the checksum byte 0x61 in place of 0x95. -/
theorem not_buildCmdOk_cmd0 : ¬ BuildCmdOk 0x40 0 := by
  rintro ⟨h, -⟩
  exact absurd h (by decide +kernel)

/-! ### The check of a response -/

section Check

variable {σ : Type} {dif : Dif σ} {handle : Handle}

/-- The `int` that a call returns. -/
def code (m : CM (St σ) Unit) (s : St σ) : CInt :=
  match m.run s with
  | .ok _ _ => 0
  | .error e _ => e

/-- A segment that has been received without an error has as many bytes as asked for. -/
def RxFull (dif : Dif σ) : Prop := ∀ csid n s,
  (dif.transactionCsaat csid (.rx n) s).1.1 = 0 →
    (dif.transactionCsaat csid (.rx n) s).1.2.length = n

/-- The low bytes of the expected value. -/
def expBytes (resp : Resp) (exp : U64) : List Byte := toLe (respLen resp) exp.toNat

/-- C says what the mask of the response is, and, whatever it leaves open otherwise, the check returns
0 exactly when all bytes of the response are as expected. -/
def CheckOk (dif : Dif σ) (handle : Handle) (c : U64) (resp : Resp) (exp : U64) (s : St σ)
    (bs : List Byte) : Prop :=
  (respMask resp).isSome ∧ ∀ undef,
    (code (cmdCheck dif handle undef c resp true exp) s = 0 ↔ bs = expBytes resp exp)

/-- The response passes the check: masked it is the expected value, or the `int` that is returned for
it is zero. -/
def Accepted (undef : Undefined) (resp : Resp) (exp : U64) (bs : List Byte) : Prop :=
  undef.received bs &&& undef.maskOf resp = exp &&& undef.maskOf resp ∨
    (undef.received bs &&& undef.maskOf resp).setWidth 32 = (0 : CInt)

lemma isSome_respMask_iff {resp : Resp} :
    (respMask resp).isSome ↔ resp = .r1 ∨ resp = .r1b ∨ resp = .r2 := by
  cases resp <;> decide

/-- Where C says what the mask is, it leaves the bytes of the response, of which there are two at
most. -/
lemma maskOf_eq {resp : Resp} (h : (respMask resp).isSome) (undef : Undefined) :
    undef.maskOf resp = .ofNat 64 (256 ^ respLen resp - 1) ∧ respLen resp ≤ 2 := by
  rcases isSome_respMask_iff.mp h with rfl | rfl | rfl <;> exact ⟨rfl, by decide⟩

/-- A masked value is its low bytes. -/
lemma toNat_and_maskOf {resp : Resp} (h : (respMask resp).isSome) (undef : Undefined) (x : U64) :
    (x &&& undef.maskOf resp).toNat = x.toNat % 256 ^ respLen resp := by
  obtain ⟨hmask, hle⟩ := maskOf_eq h undef
  have hpow : 256 ^ respLen resp = 2 ^ (8 * respLen resp) := by
    rw [pow_mul]
    rfl
  have hlt : 256 ^ respLen resp - 1 < 2 ^ 64 := by
    have hsmall : 256 ^ respLen resp ≤ 256 ^ 2 := Nat.pow_le_pow_right (by decide) hle
    omega
  rw [hmask, BitVec.toNat_and, BitVec.toNat_ofNat, Nat.mod_eq_of_lt hlt, hpow,
    Nat.and_two_pow_sub_one_eq_mod]

lemma ofLe_eq_zero_iff (l : List Byte) : ofLe l = 0 ↔ ∀ x ∈ l, x = 0 := by
  induction l with
  | nil => simp [ofLe]
  | cons b bs ih =>
    rw [ofLe, List.forall_mem_cons, ← ih, ← BitVec.toNat_inj]
    simp

/-- The low bytes of `buf` are those of the response. -/
lemma toNat_received_mod (undef : Undefined) {bs : List Byte} (hlen : bs.length ≤ 8) :
    (undef.received bs).toNat % 256 ^ bs.length = ofLe bs := by
  have hall : (bs ++ (toLe 8 undef.buf.toNat).drop bs.length).length = 8 := by
    rw [List.length_append, List.length_drop, length_toLe]
    omega
  have hlt : ofLe (bs ++ (toLe 8 undef.buf.toNat).drop bs.length) < 2 ^ 64 := by
    have := ofLe_lt (bs ++ (toLe 8 undef.buf.toNat).drop bs.length)
    rwa [hall] at this
  rw [Undefined.received, BitVec.toNat_ofNat, Nat.mod_eq_of_lt hlt, ofLe_append,
    Nat.add_mul_mod_self_left, Nat.mod_eq_of_lt (ofLe_lt bs)]

/-- Where C says what the mask is, the bytes that it leaves are those of the response. -/
lemma masked_eq_iff {resp : Resp} (h : (respMask resp).isSome) (undef : Undefined) {exp : U64}
    {bs : List Byte} (hlen : bs.length = respLen resp) :
    undef.received bs &&& undef.maskOf resp = exp &&& undef.maskOf resp ↔
      bs = expBytes resp exp := by
  have hle := (maskOf_eq h undef).2
  rw [← BitVec.toNat_inj, toNat_and_maskOf h, toNat_and_maskOf h, ← hlen,
    toNat_received_mod undef (by omega), hlen, ← ofLe_toLe, ← expBytes]
  refine ⟨ofLe_inj ?_, congrArg ofLe⟩
  rw [hlen, expBytes, length_toLe]

/-- **What is accepted**, where C says what the mask is: the expected response, and one of zeros. -/
theorem accepted_iff {resp : Resp} (h : (respMask resp).isSome) (undef : Undefined) {exp : U64}
    {bs : List Byte} (hlen : bs.length = respLen resp) :
    Accepted undef resp exp bs ↔ bs = expBytes resp exp ∨ ∀ x ∈ bs, x = 0 := by
  have hle := (maskOf_eq h undef).2
  have hword : (undef.received bs &&& undef.maskOf resp).toNat = ofLe bs := by
    rw [toNat_and_maskOf h, ← hlen, toNat_received_mod undef (by omega)]
  have hsmall : ofLe bs < 2 ^ 32 := by
    have hlt := ofLe_lt bs
    have hpow : 256 ^ bs.length ≤ 256 ^ 2 := Nat.pow_le_pow_right (by decide) (hlen ▸ hle)
    omega
  rw [Accepted, masked_eq_iff h undef hlen, ← BitVec.toNat_inj, BitVec.toNat_setWidth, hword,
    Nat.mod_eq_of_lt hsmall, ← ofLe_eq_zero_iff]
  rfl

lemma leaves_true {S α : Type} {m : EStateM CInt S α} {s : S} : Leaves m s fun _ _ => True :=
  leaves_iff.mpr fun _ _ _ => trivial

lemma leaves_checkDif {call : σ → (CInt × List Byte) × σ} {s : St σ}
    {Q : List Byte → St σ → Prop}
    (hQ : (call s.dev).1.1 = 0 → Q (call s.dev).1.2 ⟨s.mem, (call s.dev).2⟩) :
    Leaves (checkDif call) s Q := by
  by_cases h0 : (call s.dev).1.1 = 0
  · exact (returns_checkDif h0 (hQ h0)).leaves
  · have hrun : (checkDif call).run s = .error (call s.dev).1.1 ⟨s.mem, (call s.dev).2⟩ :=
      if_pos h0
    unfold Leaves
    rw [hrun]
    trivial

/-- Receiving is a transaction with one segment. -/
lemma leaves_xfer {n : ℕ} {s : St σ} {Q : List Byte → St σ → Prop}
    (h : Leaves (checkDif (dif.transactionCsaat handle.csid (.rx n))) s Q) :
    Leaves (xferCsaat dif handle true none n) s Q := by
  unfold xferCsaat
  exact leaves_bind.mpr (returns_checkAssert.mpr ⟨fun h => Bool.false_ne_true h.1, h⟩).leaves

lemma leaves_receive (hrx : RxFull dif) (n : ℕ) (s : St σ) :
    Leaves (xferCsaat dif handle true none n) s fun bs _ => bs.length = n :=
  leaves_xfer (leaves_checkDif fun h0 => hrx _ _ _ h0)

/-- A command gives the response it is asked for. -/
theorem leaves_cmd_length (hrx : RxFull dif) (c : U64) (resp : Resp) (s : St σ) :
    Leaves (cmd dif handle c resp false) s fun bs _ => bs.length = respLen resp := by
  unfold cmd
  refine leaves_true.bind (P := fun _ _ => True) fun _ s₁ _ => ?_
  extract_lets remBytes answer
  have hanswer (u : Unit) (s₂ : St σ) :
      Leaves (answer u) s₂ fun bs _ => bs.length = respLen resp := by
    refine leaves_true.bind (P := fun _ _ => True) fun r s₃ _ => ?_
    extract_lets finish
    have hfinish (rest : List Byte) (s₄ : St σ) (hrest : rest.length = remBytes) :
        Leaves (finish rest) s₄ fun bs _ => bs.length = respLen resp := by
      refine leaves_true.bind (P := fun _ _ => True) fun _ s₅ _ => (leaves_pure _).mpr ?_
      rw [List.length_cons, hrest]
      cases resp <;> rfl
    by_cases hb : resp = .r1b
    · rw [if_pos hb]
      refine leaves_true.bind (P := fun _ _ => True) fun _ s₄ _ => hfinish _ _ ?_
      subst hb
      rfl
    · rw [if_neg hb]
      by_cases hrem : remBytes ≠ 0
      · rw [if_pos hrem]
        exact (leaves_receive hrx _ _).bind fun rest s₄ hrest => hfinish rest s₄ hrest
      · rw [if_neg hrem]
        exact hfinish [] s₃ (not_not.mp hrem).symm
  by_cases h12 : c &&& 0xFF = 0x4C
  · rw [if_pos h12]
    exact leaves_true.bind (P := fun _ _ => True) fun _ s₂ _ => hanswer () s₂
  · rw [if_neg h12]
    exact hanswer () s₁

/-- The check returns 0 behind a command whose response is accepted. -/
lemma code_cmdCheck_eq_zero_iff {c : U64} {resp : Resp} {exp : U64} {s s' : St σ} {bs : List Byte}
    (undef : Undefined) (hrun : (cmd dif handle c resp false).run s = .ok bs s') :
    code (cmdCheck dif handle undef c resp true exp) s = 0 ↔ Accepted undef resp exp bs := by
  have hcheck : (cmdCheck dif handle undef c resp true exp).run s =
      (if true = true ∧ undef.received bs &&& undef.maskOf resp ≠ exp &&& undef.maskOf resp then
        checkCall ((undef.received bs &&& undef.maskOf resp).setWidth 32)
      else pure () : CM (St σ) Unit).run s' := by
    unfold cmdCheck
    simp only [EStateM.run, bind, EStateM.bind] at hrun ⊢
    rw [hrun]
  rw [code, hcheck, Accepted]
  by_cases heq : undef.received bs &&& undef.maskOf resp = exp &&& undef.maskOf resp
  · rw [if_neg fun h => h.2 heq]
    exact iff_of_true rfl (.inl heq)
  · rw [if_pos ⟨rfl, heq⟩, checkCall]
    by_cases h0 : (undef.received bs &&& undef.maskOf resp).setWidth 32 = (0 : CInt)
    · rw [if_neg (not_not.mpr h0)]
      exact iff_of_true rfl (.inr h0)
    · rw [if_pos h0]
      exact iff_of_false h0 fun h => h.elim heq h0

/-- **The check tells a response from the expected one** exactly where it is one of R1, R1b and R2,
and it is the expected one or has a byte that is not zero. -/
theorem checkOk_iff (hrx : RxFull dif) {c : U64} {resp : Resp} {exp : U64} {s s' : St σ}
    {bs : List Byte} (hrun : (cmd dif handle c resp false).run s = .ok bs s') :
    CheckOk dif handle c resp exp s bs ↔ (resp = .r1 ∨ resp = .r1b ∨ resp = .r2) ∧
      (bs = expBytes resp exp ∨ ∃ x ∈ bs, x ≠ 0) := by
  have hlen := leaves_iff.mp (leaves_cmd_length hrx c resp s) bs s' hrun
  rw [CheckOk, ← isSome_respMask_iff]
  refine and_congr_right fun hmask => ?_
  simp only [code_cmdCheck_eq_zero_iff _ hrun, accepted_iff hmask _ hlen]
  constructor
  · intro h
    refine or_iff_not_imp_left.mpr fun hne => ?_
    by_contra hzero
    push Not at hzero
    exact hne ((h ⟨0, 0⟩).mp (.inr hzero))
  · rintro (rfl | ⟨x, hx, hx0⟩) _
    · exact iff_of_true (.inl rfl) rfl
    · exact ⟨fun h => h.elim id fun hzero => absurd (hzero x hx) hx0, .inl⟩

end Check

lemma rxFull_wiredDif : RxFull wiredDif := fun _ _ w _ => Stream'.length_take _ w.miso

/-- The response to CMD0 that is expected. -/
theorem checkOk_cmd0 : CheckOk wiredDif ⟨0, 1⟩ 0x950000000040 .r1 0x01
    ⟨fun _ => 0, ⟨List.replicate 7 0xFF ++ₛ ([0x01] ++ₛ Stream'.const 0xFF), []⟩⟩ [0x01] :=
  (checkOk_iff rxFull_wiredDif rfl).mpr ⟨.inl rfl, .inl (by decide)⟩

/-- A card that answers to CMD0 with 0x00, where 0x01 is expected, passes the check. -/
theorem not_checkOk_cmd0 : ∃ s', (cmd wiredDif ⟨0, 1⟩ 0x950000000040 .r1 false).run
      ⟨fun _ => 0, ⟨Stream'.const 0, []⟩⟩ = .ok [0x00] s' ∧
    ¬ CheckOk wiredDif ⟨0, 1⟩ 0x950000000040 .r1 0x01 ⟨fun _ => 0, ⟨Stream'.const 0, []⟩⟩ [0x00] := by
  refine ⟨_, rfl, fun h => ?_⟩
  have hret : code (cmdCheck wiredDif ⟨0, 1⟩ ⟨0, 0⟩ 0x950000000040 .r1 true 0x01)
      ⟨fun _ => 0, ⟨Stream'.const 0, []⟩⟩ = 0 := rfl
  exact absurd ((h.2 ⟨0, 0⟩).mp hret) (by decide)

end Cheshire.Sw.SpiSdcard
