import Cheshire.Sw.Base

/-!
The GPT reader of the boot software (`gpt.c`): the signature test, the search for a bootable
partition, and the boot copy that follows it.

The code reaches its medium through a read callback only.  A callback is a function on the state
`σ` of the device behind its `priv` pointer; every call is recorded, with the buffer it was given
and the code it returned.
-/

namespace Cheshire.Sw.Gpt

open Lib

/-- The buffer of a read call: one of the stack variables of `gpt.c`, or a pointer of the
caller. -/
inductive Buf where
  | sig
  | hf
  | dim
  | guid
  | ptr (p : U64)
  deriving DecidableEq

/-- One call of the read callback. -/
structure ReadCall where
  buf : Buf
  addr : U64
  len : U64
  ret : CInt
  deriving DecidableEq

/-- The device, and the calls made so far. -/
structure DiskSt (σ : Type) where
  dev : σ
  calls : List ReadCall

/-- `gpt_read_t`: reads `len` bytes from `addr` on; the code it returns and, by their offset, the
bytes it leaves in the buffer. -/
abbrev GptRead (σ : Type) := (addr len : U64) → σ → (CInt × (ℕ → Byte)) × σ

/-- The 64-bit word at an offset of a buffer. -/
def le64 (d : ℕ → Byte) (o : ℕ) : U64 :=
  BitVec.ofNat 64 (ofLe ((List.range 8).map fun i => d (o + i)))

/-- The 32-bit word at an offset of a buffer. -/
def le32 (d : ℕ → Byte) (o : ℕ) : U32 :=
  BitVec.ofNat 32 (ofLe ((List.range 4).map fun i => d (o + i)))

/-- A GUID, as the two words of a `uint64_t[2]`. -/
abbrev Guid := U64 × U64

/-- The fields of the GPT header that matter (`struct hdr_fields`). -/
structure HdrFields where
  lba : U64
  count : U32
  size : U32

/-- The extent of a partition entry (`struct part_fields`); the end is inclusive. -/
structure PartFields where
  lbaBegin : U64
  lbaEnd : U64

/-- What `gpt_find_partition` writes through its pointers. -/
structure FindOut where
  partIdx : ℤ
  lbaBegin : U64
  lbaEnd : U64

section Code

variable {σ : Type} (read : GptRead σ)

/-- A call of the callback. -/
def callRead (buf : Buf) (addr len : U64) : CM (DiskSt σ) (CInt × (ℕ → Byte)) := fun s =>
  .ok (read addr len s.dev).1
    ⟨(read addr len s.dev).2, s.calls ++ [⟨buf, addr, len, (read addr len s.dev).1.1⟩]⟩

/-- `CHECK_CALL(read(...))`. -/
def checkRead (buf : Buf) (addr len : U64) : CM (DiskSt σ) (ℕ → Byte) := do
  let (ret, d) ← callRead read buf addr len
  checkCall ret
  pure d

/-- `gpt_check_signature`: a failed read counts as no signature. -/
def gptCheckSignature : CM (DiskSt σ) Bool := do
  let (ret, sig) ← callRead read .sig 0x200 8
  if ret ≠ 0 then pure false
  else pure (le64 sig 0 == 0x5452415020494645)

/-- The GUID test of the search loop, made only if a GUID was passed. -/
def checkGuid (g : Option Guid) (offs : U64) : CM (DiskSt σ) Bool :=
  match g with
  | none => pure false
  | some g => do
    let d ← checkRead read .guid offs 16
    pure (le64 d 0 == g.1 && le64 d 8 == g.2)

variable (hf : HdrFields) (maxLbas : U64) (tguid pguid : Option Guid)

/-- The variables the search loop works on, the two LBA pointers among them. -/
structure FindSt where
  p : ℕ
  dim : PartFields
  lbaBegin : U64
  lbaEnd : U64

/-- The header read into `hf`. -/
def hdrFields (d : ℕ → Byte) : HdrFields := ⟨le64 d 0, le32 d 8, le32 d 12⟩

/-- The extent read into `dim`. -/
def partFields (d : ℕ → Byte) : PartFields := ⟨le64 d 0, le64 d 8⟩

/-- The extent just read goes to `dim`; that of the first partition is recorded in any case. -/
def FindSt.record (v : FindSt) (dim : PartFields) : FindSt :=
  if v.p = 0 then
    ⟨v.p, dim, dim.lbaBegin, cMin dim.lbaEnd (dim.lbaBegin + maxLbas - 1)⟩
  else { v with dim }

/-- The byte offset of the entry `p`; the product is taken in two's complement. -/
def peOffs (p : ℕ) : U64 := 0x200 * hf.lba + BitVec.ofNat 64 (p * hf.size.toNat)

/-- One turn of the search loop; `true` when it leaves the loop. -/
def findBody (v : FindSt) : CM (DiskSt σ) (Bool × FindSt) := do
  let d ← checkRead read .dim (peOffs hf v.p + 0x20) 16
  let v := v.record maxLbas (partFields d)
  if v.dim.lbaEnd - v.dim.lbaBegin ≥ maxLbas then pure (false, v)
  else if ← checkGuid read tguid (peOffs hf v.p) then pure (true, v)
  else if ← checkGuid read pguid (peOffs hf v.p + 0x10) then pure (true, v)
  else pure (false, v)

/-- The search loop with `n` entries to go. -/
def findLoop : ℕ → FindSt → CM (DiskSt σ) FindSt
  | 0, v => pure v
  | n + 1, v => do
    let (brk, v) ← findBody read hf maxLbas tguid pguid v
    if brk then pure v
    else findLoop n { v with p := v.p + 1 }

/-- `gpt_find_partition`, the LBA pointers holding `lbaBegin` and `lbaEnd` before.  A failed call
leaves through its code; no caller looks at the pointers then. -/
def gptFindPartition (lbaBegin lbaEnd : U64) : CM (DiskSt σ) FindOut := do
  let d ← checkRead read .hf (0x200 + 0x48) 16
  let hf := hdrFields d
  -- `dim` is uninitialised here; it is read only after the loop has written it
  let v ← findLoop read hf maxLbas tguid pguid hf.count.toNat ⟨0, ⟨0, 0⟩, lbaBegin, lbaEnd⟩
  if v.p ≠ hf.count.toNat then pure ⟨v.p, v.dim.lbaBegin, v.dim.lbaEnd⟩
  else pure ⟨-1, v.lbaBegin, v.lbaEnd⟩

/-- The pointers `gpt_boot_part_else_raw` hands on: the callback, its argument, the buffer for the
code, and the global pointer of the boot ROM. -/
structure BootPtrs where
  read : U64
  priv : U64
  codeBuf : U64
  gp : U64

/-- What the next stage finds: the scratch registers, and where it is entered. -/
structure Launch where
  scratch0 : U32
  scratch1 : U32
  scratch3 : U32
  entry : U64

/-- `gpt_boot_part_else_raw`, up to the jump of `boot_next_stage`. -/
def gptBootPartElseRaw (ptrs : BootPtrs) : CM (DiskSt σ) Launch := do
  let v : FindOut ←
    if ← gptCheckSignature read then gptFindPartition read maxLbas tguid pguid 0 (maxLbas - 1)
    else pure ⟨0, 0, maxLbas - 1⟩
  let addr := 0x200 * v.lbaBegin
  let len := 0x200 * (v.lbaEnd - v.lbaBegin + 1)
  let _ ← checkRead read (.ptr ptrs.codeBuf) addr len
  pure ⟨ptrs.read.setWidth 32 ||| 1, ptrs.priv.setWidth 32, ptrs.gp.setWidth 32, ptrs.codeBuf⟩

end Code

end Cheshire.Sw.Gpt
