import Cheshire.Sw.I2cRead

/-!
How a chunk selects its address on the bus: a control byte with the selects, and two address bytes.
The shifts of the driver move the selects past the eight bits of the control byte, so all blocks
are the first one.
-/

namespace Cheshire.Sw.I2c

open Lib

/-- The control byte and the address bytes that a chunk sends first. -/
def selectBytes (addr : U64) : List Byte :=
  [(ctrlWaddr addr).setWidth 8, (addr >>> 8 &&& 0xFF).setWidth 8, (addr &&& 0xFF).setWidth 8]

/-- Two addresses are told apart on the bus. -/
def SelectsApart (a b : U64) : Prop := a ≠ b → selectBytes a ≠ selectBytes b

instance (a b : U64) : Decidable (SelectsApart a b) := by unfold SelectsApart; infer_instance

/-- The control byte is `1010`, the block select of the address, two chip selects that are zero, and
the direction of a write. -/
def ControlOk (addr : U64) : Prop :=
  (selectBytes addr).head? = some (0xA0 ||| if addr.getLsbD 16 then 0x08 else 0)

instance (addr : U64) : Decidable (ControlOk addr) := by unfold ControlOk; infer_instance

/-! ### The bytes of a chunk -/

section Sent

variable {σ : Type} {dif : Dif σ} {written : σ → List Byte}

/-- A record of the bytes that have been given to the host. -/
structure Logs (dif : Dif σ) (written : σ → List Byte) : Prop where
  levels : ∀ s, written (dif.getFifoLevels s).2 = written s
  enable : ∀ b s, written (dif.hostSetEnabled b s).2 = written s
  write : ∀ b f q s, written (dif.writeByte b f q s).2 = written s ++ [b]
  read : ∀ s, written (dif.readByte s).2 = written s
  spin : ∀ n s, written (dif.spinTicks n s) = written s

/-- The record has grown by bytes that begin with `bs`. -/
def Sent (written : σ → List Byte) (bs : List Byte) (s s' : St σ) : Prop :=
  ∃ rest, written s'.dev = written s.dev ++ (bs ++ rest)

lemma Sent.trans {bs cs : List Byte} {s s' s'' : St σ} (h : Sent written bs s s')
    (h' : Sent written cs s' s'') : Sent written bs s s'' := by
  obtain ⟨rest, hrest⟩ := h
  obtain ⟨rest', hrest'⟩ := h'
  exact ⟨rest ++ (cs ++ rest'), by rw [hrest', hrest, List.append_assoc, List.append_assoc]⟩

/-- Bytes are added to those there are. -/
lemma Sent.more {bs ws : List Byte} {s s' s'' : St σ} (h : Sent written bs s s')
    (h' : written s''.dev = written s'.dev ++ ws) : Sent written bs s s'' :=
  have hmore : Sent written ws s' s'' := ⟨[], by rw [h', List.append_nil]⟩
  h.trans hmore

lemma Sent.same {bs : List Byte} {s s' s'' : St σ} (h : Sent written bs s s')
    (h' : written s''.dev = written s'.dev) : Sent written bs s s'' :=
  have hmore : written s''.dev = written s'.dev ++ [] := by rw [h', List.append_nil]
  h.more hmore

lemma leaves_sendByte (hl : Logs dif written) (b : Byte) (k : Fmt) (q : Bool) (s : St σ) :
    Leaves (checkDif' (dif.writeByte b k q)) s fun _ s' =>
      written s'.dev = written s.dev ++ [b] :=
  leaves_checkDif fun _ => hl.write b k q s.dev

lemma leaves_switch (hl : Logs dif written) (b : Bool) (s : St σ) :
    Leaves (checkDif' (dif.hostSetEnabled b)) s fun _ s' => written s'.dev = written s.dev :=
  leaves_checkDif fun _ => hl.enable b s.dev

lemma leaves_waitLevels (hl : Logs dif written) (busy : Levels → Bool) : ∀ (fuel : ℕ) (s : St σ),
    Leaves (pollLevels dif busy fuel) s fun _ s' => written s'.dev = written s.dev := by
  intro fuel
  induction fuel with
  | zero =>
    intro s
    trivial
  | succ fuel ih =>
    intro s
    refine Leaves.bind (P := fun _ s' => written s'.dev = written s.dev)
      (leaves_checkDif fun _ => hl.levels s.dev) fun l s₁ hs₁ => ?_
    split
    · exact (ih s₁).mono fun _ s₂ hs₂ => hs₂.trans hs₁
    · exact hs₁

/-- **A chunk first sends the bytes of its address**, and then only adds to them. -/
theorem leaves_accessChunk (hl : Logs dif written) (depth : U64) : ∀ (fuel : ℕ) (buf addr len : U64)
    (write : Bool) (s : St σ), Leaves (accessChunk dif depth fuel buf addr len write) s fun _ =>
      Sent written (selectBytes addr) s := by
  intro fuel
  induction fuel with
  | zero =>
    intro buf addr len write s
    trivial
  | succ fuel ih =>
    intro buf addr len write s
    rw [accessChunk]
    refine (leaves_waitLevels hl _ fuel s).bind fun _ s₁ hs₁ => ?_
    refine Leaves.bind (P := fun _ s' => written s'.dev = written s.dev) ?_ fun _ s₂ hs₂ => ?_
    · show written (dif.spinTicks 1 s₁.dev) = _
      rw [hl.spin, hs₁]
    refine (leaves_switch hl false s₂).bind fun _ s₃ hs₃ => ?_
    refine (leaves_sendByte hl _ _ _ s₃).bind fun _ s₄ hs₄ => ?_
    refine (leaves_sendByte hl _ _ _ s₄).bind fun _ s₅ hs₅ => ?_
    refine (leaves_sendByte hl _ _ _ s₅).bind fun _ s₆ hs₆ => ?_
    have hs₆ : Sent written (selectBytes addr) s s₆ := by
      refine ⟨[], ?_⟩
      rw [hs₆, hs₅, hs₄, hs₃, hs₂, List.append_nil, List.append_assoc, List.append_assoc]
      rfl
    split
    · refine Leaves.bind (P := fun _ => Sent written (selectBytes addr) s) ?_ fun _ s₇ hs₇ => ?_
      · refine Leaves.forM_range (I := fun _ => Sent written (selectBytes addr) s) hs₆ ?_
        intro b s₇ _ hs₇
        refine leaves_bind.mpr (leaves_loadByte.mpr ?_)
        exact (leaves_sendByte hl _ .tx true s₇).mono fun _ s₈ hs₈ => hs₇.more hs₈
      · refine leaves_bind.mpr (leaves_loadByte.mpr ?_)
        refine (leaves_sendByte hl _ .tx true s₇).bind fun _ s₈ hs₈ => ?_
        refine (leaves_switch hl true s₈).bind fun _ s₉ hs₉ => ?_
        have hs₉ := (hs₇.more hs₈).same hs₉
        split
        · exact (ih _ _ _ _ s₉).mono fun _ s' hs' => hs₉.trans hs'
        · exact hs₉
    · refine (leaves_sendByte hl _ _ _ s₆).bind fun _ s₇ hs₇ => ?_
      refine (leaves_sendByte hl _ _ _ s₇).bind fun _ s₈ hs₈ => ?_
      refine (leaves_switch hl true s₈).bind fun _ s₉ hs₉ => ?_
      refine (leaves_waitLevels hl _ fuel s₉).bind fun _ s₁₀ hs₁₀ => ?_
      have hs₁₀ := (((hs₆.more hs₇).more hs₈).same hs₉).same hs₁₀
      refine Leaves.forM_range (I := fun _ => Sent written (selectBytes addr) s) hs₁₀ ?_
      intro b s₁₁ _ hs₁₁
      refine Leaves.bind (P := fun _ s' => written s'.dev = written s₁₁.dev)
        (leaves_checkDif fun _ => hl.read s₁₁.dev) fun x s₁₂ hs₁₂ => ?_
      exact hs₁₁.same hs₁₂

end Sent

/-! ### The addresses -/

/-- The bytes of an address are those of its low 16 bits. -/
lemma selectBytes_inj {a b : U64} :
    selectBytes a = selectBytes b ↔ a.toNat % 0x10000 = b.toNat % 0x10000 := by
  have hword (x : U64) : (x.setWidth 16 : BitVec 16).toNat = x.toNat % 0x10000 :=
    BitVec.toNat_setWidth _ _
  rw [← hword, ← hword, BitVec.toNat_inj, ← addr_bytes, ← addr_bytes]
  constructor
  · intro h
    rw [selectBytes, selectBytes, List.cons.injEq, List.cons.injEq, List.cons.injEq] at h
    obtain ⟨-, hhigh, hlow, -⟩ := h
    rw [hhigh, hlow]
  · intro h
    have hhigh := congrArg (fun x : BitVec 16 => x.extractLsb' 8 8) h
    have hlow := congrArg (fun x : BitVec 16 => x.extractLsb' 0 8) h
    simp only [BitVec.extractLsb'_append_eq_left] at hhigh
    simp only [BitVec.extractLsb'_append_eq_right] at hlow
    rw [selectBytes, selectBytes, setWidth_ctrlWaddr, setWidth_ctrlWaddr, hhigh, hlow]

/-- **Two addresses are told apart exactly when** they differ in their low 16 bits, and the control
byte has the block select of the address exactly when that is zero. -/
theorem selectsApart_iff (a b : U64) :
    (SelectsApart a b ↔ (a.toNat % 0x10000 = b.toNat % 0x10000 → a = b)) ∧
      (ControlOk a ↔ a.getLsbD 16 = false) := by
  constructor
  · unfold SelectsApart
    rw [ne_eq, ne_eq, selectBytes_inj]
    exact not_imp_not
  · unfold ControlOk selectBytes
    rw [List.head?_cons, setWidth_ctrlWaddr]
    cases a.getLsbD 16 <;> decide

/-- The first byte of the upper block is selected like the first one of the lower block. -/
theorem not_selectsApart_blocks : ¬ SelectsApart 0x00000 0x10000 ∧ ¬ ControlOk 0x10000 := by
  decide

end Cheshire.Sw.I2c
