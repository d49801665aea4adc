import Cheshire.Lib.Run
import Cheshire.Sim.ElfLoads

/-!
The ELF loader on a mapped file.  Every read goes to an offset of 64 bits and fails outside the
file; the section headers are gone through as well.
-/

namespace Cheshire.Sim.Elf

open Lib

/-! ### The loader -/

/-- How the loader ends when it does not return: a byte outside the file is read, an `int`
overflows, or an assertion fails. -/
inductive Stop where
  | outside | overflow | assertion
  deriving DecidableEq

/-- A function of the loader. -/
abbrev MapM (α : Type) := EStateM Stop Loader α

section Code

variable (L : Layout) (buf : List Byte)

/-- The `n` bytes at `buf + o`. -/
def readBytes (o : U64) (n : ℕ) : MapM (List Byte) := fun s =>
  if o.toNat + n ≤ buf.length then .ok ((buf.drop o.toNat).take n) s else .error .outside s

def readField (o : U64) (n : ℕ) : MapM ℕ := do return ofLe (← readBytes buf o n)

/-- A field that has the length of an address. -/
def readWord (o : U64) : MapM U64 := do return .ofNat 64 (← readField buf o L.word)

/-- What `strcmp` reads at `buf + o`, up to the terminator. -/
def readString (o : U64) : MapM (List Byte) := fun s =>
  if 0 ∈ buf.drop o.toNat then .ok ((buf.drop o.toNat).takeWhile (· ≠ 0)) s
  else .error .outside s

/-- A segment that has something in the file; its header is at `buf + p`. -/
def mappedFilled (p filesz : U64) : MapM Unit := do
  let offset ← readWord L buf (p + .ofNat 64 L.offset)
  if buf.length ≥ (offset.toNat + filesz.toNat) % 2 ^ (8 * L.word) then do
    let paddr ← readWord L buf (p + .ofNat 64 L.paddr)
    let memsz ← readWord L buf (p + .ofNat 64 L.memsz)
    modify fun s => { s with sections := s.sections ++ [(paddr, memsz)] }
    -- `write` counts with an `int`; when that overflows, C does not say what happens
    let content ← readBytes buf offset (min filesz.toNat (2 ^ 31))
    if filesz.toNat < 2 ^ 31 then modify (write paddr filesz content) else throw .overflow
  else throw .assertion

/-- The body of the loop over the program headers, which are at `buf + ph`. -/
def mappedSegment (ph : U64) (i : ℕ) : MapM Unit := do
  let p := ph + .ofNat 64 (i * L.phdrSize)
  let type ← readField buf p 4
  if BitVec.ofNat 32 type = PT_LOAD then do
    let memsz ← readWord L buf (p + .ofNat 64 L.memsz)
    if memsz ≠ 0 then do
      let filesz ← readWord L buf (p + .ofNat 64 L.filesz)
      let () ← (if filesz ≠ 0 then mappedFilled L buf p filesz else pure ())
      -- the warning that not all of it is preloaded
      if memsz > filesz then do
        let _ ← readWord L buf (p + .ofNat 64 L.paddr)
      else pure ()
    else pure ()
  else pure ()

/-- The body of the loop over the section headers, which are at `buf + sh`; the one of the names is
at `buf + str`, and the names at `buf + names`. -/
def mappedName (sh str names : U64) (i : ℕ) : MapM Unit := do
  let h := sh + .ofNat 64 (i * L.shdrSize)
  -- `max_len`, which is not used
  let _ ← readWord L buf (str + .ofNat 64 L.shSize)
  let name ← readField buf (h + .ofNat 64 L.shName) 4
  let s ← readString buf (names + .ofNat 64 name)
  -- `.strtab` and `.symtab` are reported
  if s = [0x2E, 0x73, 0x74, 0x72, 0x74, 0x61, 0x62] ∨ s = [0x2E, 0x73, 0x79, 0x6D, 0x74, 0x61, 0x62]
  then do
    let _ ← readWord L buf (h + .ofNat 64 L.shOffset)
  else pure ()

/-- `load_elf` from the section headers on. -/
def mappedSections : MapM Unit := do
  let shoff ← readWord L buf (.ofNat 64 L.shoff)
  let shnum ← readField buf (.ofNat 64 L.shnum) 2
  if buf.length < (shoff + .ofNat 64 (shnum * L.shdrSize)).toNat then pure ()
  else do
    let shstrndx ← readField buf (.ofNat 64 L.shstrndx) 2
    if shstrndx ≥ shnum then pure ()
    else do
      let str := shoff + .ofNat 64 (shstrndx * L.shdrSize)
      let offset ← readWord L buf (str + .ofNat 64 L.shOffset)
      let size ← readWord L buf (str + .ofNat 64 L.shSize)
      if buf.length < (offset.toNat + size.toNat) % 2 ^ (8 * L.word) then pure ()
      else (List.range shnum).forM (mappedName L buf shoff str offset)

/-- `load_elf`. -/
def mappedLoadElf : MapM Unit := do
  let phoff ← readWord L buf (.ofNat 64 L.phoff)
  let phnum ← readField buf (.ofNat 64 L.phnum) 2
  if buf.length < (phoff + .ofNat 64 (phnum * L.phdrSize)).toNat then pure ()
  else do
    let entry ← readWord L buf (.ofNat 64 L.entry)
    modify fun s => { s with entry }
    (List.range phnum).forM (mappedSegment L buf phoff)
    mappedSections L buf

end Code

/-- `read_elf`, of a file that can be opened and mapped: the code that it returns. -/
def mappedReadElf (buf : List Byte) : MapM ℤ :=
  if buf.length < elf64.ehdrSize then pure (-1)
  else if ¬ (IsElfOf elf32 buf ∨ IsElfOf elf64 buf) then pure (-1)
  else if IsElfOf elf32 buf then do
    mappedLoadElf elf32 buf
    return 0
  else do
    mappedLoadElf elf64 buf
    return 0

/-! ### What the file says -/

/-- A file; `st_size` is an `off_t`. -/
structure MappedFile where
  bytes : List Byte
  size : bytes.length < 2 ^ 63

/-- The file is taken for an ELF file. -/
def Accepted (buf : List Byte) : Prop :=
  elf64.ehdrSize ≤ buf.length ∧ (IsElfOf elf32 buf ∨ IsElfOf elf64 buf)

/-- The class it is taken for. -/
def classOf (buf : List Byte) : Layout := if IsElfOf elf32 buf then elf32 else elf64

section File

variable (L : Layout) (buf : List Byte)

/-- The program headers lie in the file. -/
def PhInside : Prop := (L.ehdr buf).phoff.toNat + (L.ehdr buf).phnum * L.phdrSize ≤ buf.length

/-- The data of a segment can be counted with an `int`, and lie in the file. -/
def Phdr.Inside (p : Phdr) : Prop :=
  p.filesz.toNat < 2 ^ 31 ∧ p.offset.toNat + p.filesz.toNat ≤ buf.length

/-- The segments up to the first one whose assertion fails have their data in the file. -/
def DataInside (ps : List Phdr) : Prop :=
  ∀ p ∈ ps.takeWhile fun p => p.Filled → p.Fits L buf, p.Filled → p.Inside buf

/-- **What is read lies in the file**, as far as the checks let it be read. -/
def Bounded : Prop :=
  PhFits L buf → PhInside L buf ∧ DataInside L buf (L.table buf) ∧
    (AllFit L buf (L.table buf) → SectionsBounded L buf)

/-- All checks of `load_elf` are passed. -/
structure AllChecks : Prop where
  phdrs : PhFits L buf
  segments : AllFit L buf (L.table buf)
  shdrs : ShFits L buf
  index : (L.ehdr buf).shstrndx < (L.ehdr buf).shnum
  names : NamesFit L buf

section Decidable

instance : Decidable (Accepted buf) := by unfold Accepted; infer_instance

instance : Decidable (PhFits L buf) := by unfold PhFits; infer_instance

instance : Decidable (PhInside L buf) := by unfold PhInside; infer_instance

instance (p : Phdr) : Decidable (p.Inside buf) := by unfold Phdr.Inside; infer_instance

instance (ps : List Phdr) : Decidable (DataInside L buf ps) := by unfold DataInside; infer_instance

instance : Decidable (ShFits L buf) := by unfold ShFits; infer_instance

instance : Decidable (ShInside L buf) := by unfold ShInside; infer_instance

instance : Decidable (StrInside L buf) := by unfold StrInside; infer_instance

instance : Decidable (NamesFit L buf) := by unfold NamesFit; infer_instance

instance (i : ℕ) : Decidable (NameInside L buf i) := by unfold NameInside; infer_instance

instance : Decidable (SectionsBounded L buf) := by unfold SectionsBounded; infer_instance

instance : Decidable (Bounded L buf) := by unfold Bounded; infer_instance

end Decidable

end File

end Cheshire.Sim.Elf
