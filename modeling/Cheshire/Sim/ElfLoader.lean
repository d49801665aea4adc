import Cheshire.Lib.Bytes

/-!
The ELF loader of the testbench (`elfloader.cpp`).  What it has read lies in global variables that
are never cleared: a list of sections with a cursor, and a map from addresses to contents into which
nothing is inserted twice.  The section headers and the names they give are read for reports only:
they are left out of `loadElf`, and `SectionsBounded` says when these reads stay in the file.
-/

namespace Cheshire.Sim.Elf

open Lib

/-- `uint64_t`. -/
abbrev U64 := BitVec 64

/-! ### The headers -/

/-- Where the fields of `E`, `P` and `Sh` lie, the type arguments of `load_elf`. -/
structure Layout where
  /-- `e_ident[4]`. -/
  cls : Byte
  /-- The length of an address. -/
  word : ℕ
  ehdrSize : ℕ
  entry : ℕ
  phoff : ℕ
  phentsize : ℕ
  phnum : ℕ
  phdrSize : ℕ
  offset : ℕ
  paddr : ℕ
  filesz : ℕ
  memsz : ℕ
  shoff : ℕ
  shnum : ℕ
  shstrndx : ℕ
  shdrSize : ℕ
  shName : ℕ
  shOffset : ℕ
  shSize : ℕ

/-- `Elf32_Ehdr`, `Elf32_Phdr` and `Elf32_Shdr`. -/
def elf32 : Layout where
  cls := 1
  word := 4
  ehdrSize := 52
  entry := 24
  phoff := 28
  phentsize := 42
  phnum := 44
  phdrSize := 32
  offset := 4
  paddr := 12
  filesz := 16
  memsz := 20
  shoff := 32
  shnum := 48
  shstrndx := 50
  shdrSize := 40
  shName := 0
  shOffset := 16
  shSize := 20

/-- `Elf64_Ehdr`, `Elf64_Phdr` and `Elf64_Shdr`. -/
def elf64 : Layout where
  cls := 2
  word := 8
  ehdrSize := 64
  entry := 24
  phoff := 32
  phentsize := 54
  phnum := 56
  phdrSize := 56
  offset := 8
  paddr := 24
  filesz := 32
  memsz := 40
  shoff := 40
  shnum := 60
  shstrndx := 62
  shdrSize := 64
  shName := 0
  shOffset := 24
  shSize := 32

/-- A field of `n` bytes. -/
def field (buf : List Byte) (o n : ℕ) : ℕ := ofLe ((buf.drop o).take n)

/-- The fields of the ELF header that the loader reads. -/
structure Ehdr where
  entry : U64
  phoff : U64
  phnum : ℕ
  shoff : U64
  shnum : ℕ
  shstrndx : ℕ

/-- The fields of a program header that the loader reads. -/
structure Phdr where
  type : BitVec 32
  offset : U64
  paddr : U64
  filesz : U64
  memsz : U64
  deriving DecidableEq

/-- The fields of a section header that the loader reads. -/
structure Shdr where
  name : ℕ
  offset : U64
  size : U64

/-- `*(E *)buf`. -/
def Layout.ehdr (L : Layout) (buf : List Byte) : Ehdr where
  entry := BitVec.ofNat 64 (field buf L.entry L.word)
  phoff := BitVec.ofNat 64 (field buf L.phoff L.word)
  phnum := field buf L.phnum 2
  shoff := BitVec.ofNat 64 (field buf L.shoff L.word)
  shnum := field buf L.shnum 2
  shstrndx := field buf L.shstrndx 2

/-- `*(P *)(buf + o)`. -/
def Layout.phdr (L : Layout) (buf : List Byte) (o : ℕ) : Phdr where
  type := BitVec.ofNat 32 (field buf o 4)
  offset := BitVec.ofNat 64 (field buf (o + L.offset) L.word)
  paddr := BitVec.ofNat 64 (field buf (o + L.paddr) L.word)
  filesz := BitVec.ofNat 64 (field buf (o + L.filesz) L.word)
  memsz := BitVec.ofNat 64 (field buf (o + L.memsz) L.word)

/-- `*(Sh *)(buf + o)`. -/
def Layout.shdr (L : Layout) (buf : List Byte) (o : ℕ) : Shdr where
  name := field buf (o + L.shName) 4
  offset := BitVec.ofNat 64 (field buf (o + L.shOffset) L.word)
  size := BitVec.ofNat 64 (field buf (o + L.shSize) L.word)

/-! ### The loader -/

/-- The global variables; `section_index` is an `int`. -/
structure Loader where
  sections : List (U64 × U64)
  mems : U64 → Option (List Byte)
  entry : U64
  sectionIndex : BitVec 32

/-- The global variables at the start. -/
def Loader.init : Loader := ⟨[], fun _ => none, 0, 0⟩

/-- `write`: `insert` keeps what is there. -/
def write (address len : U64) (buf : List Byte) (s : Loader) : Loader :=
  { s with mems := fun a => (s.mems a).or (if address = a then some (buf.take len.toNat) else none) }

/-- `PT_LOAD`. -/
def PT_LOAD : BitVec 32 := 1

/-- The body of the loop over the program headers; `none` is a failed assertion. -/
def loadSegment (L : Layout) (buf : List Byte) (s : Loader) (i : ℕ) : Option Loader :=
  let p := L.phdr buf ((L.ehdr buf).phoff.toNat + i * L.phdrSize)
  if p.type = PT_LOAD ∧ p.memsz ≠ 0 then
    if p.filesz ≠ 0 then
      -- the sum has the width of an address
      if buf.length ≥ (p.offset.toNat + p.filesz.toNat) % 2 ^ (8 * L.word) then
        some (write p.paddr p.filesz (buf.drop p.offset.toNat)
          { s with sections := s.sections ++ [(p.paddr, p.memsz)] })
      else none
    else some s
  else some s

/-- `load_elf`, up to the section headers. -/
def loadElf (L : Layout) (buf : List Byte) (s : Loader) : Option Loader :=
  let eh := L.ehdr buf
  if buf.length < (eh.phoff + BitVec.ofNat 64 (eh.phnum * L.phdrSize)).toNat then some s
  else (List.range eh.phnum).foldlM (loadSegment L buf) { s with entry := eh.entry }

/-- `IS_ELF`. -/
def IsElf (buf : List Byte) : Prop := buf.take 4 = [0x7f, 0x45, 0x4c, 0x46]

instance (buf : List Byte) : Decidable (IsElf buf) := by unfold IsElf; infer_instance

/-- `IS_ELF32` and `IS_ELF64`. -/
def IsElfOf (L : Layout) (buf : List Byte) : Prop := IsElf buf ∧ buf[4]? = some L.cls

instance (L : Layout) (buf : List Byte) : Decidable (IsElfOf L buf) := by
  unfold IsElfOf; infer_instance

/-- `read_elf`, of a file that can be opened and mapped: the code that it returns. -/
def readElf (buf : List Byte) (s : Loader) : Option (ℤ × Loader) :=
  if buf.length < elf64.ehdrSize then some (-1, s)
  else if ¬ (IsElfOf elf32 buf ∨ IsElfOf elf64 buf) then some (-1, s)
  else if IsElfOf elf32 buf then (loadElf elf32 buf s).map fun s => (0, s)
  else (loadElf elf64 buf s).map fun s => (0, s)

/-- `get_entry`. -/
def getEntry (s : Loader) : U64 := s.entry

/-- `get_section`: the address and the length, when there is one more section.  The comparison is
unsigned. -/
def getSection (s : Loader) : Option ((U64 × U64) × Loader) :=
  match s.sections[(s.sectionIndex.signExtend 64).toNat]? with
  | some sec => some (sec, { s with sectionIndex := s.sectionIndex + 1 })
  | none => none

/-- The loop of `read_section`: the code that it returns, and the buffer from `buf` on. -/
def copyData : List Byte → ℤ → List Byte → ℤ × List Byte
  | [], _, buf => (0, buf)
  | datum :: data, lenTmp, buf =>
    if lenTmp = 0 then (-1, buf)
    else ((copyData data (lenTmp - 1) buf.tail).1, datum :: (copyData data (lenTmp - 1) buf.tail).2)

/-- `read_section`. -/
def readSection (s : Loader) (address : U64) (buf : List Byte) (len : ℤ) : ℤ × List Byte :=
  match s.mems address with
  | none => (-1, buf)
  | some data => copyData data len buf

/-- `get_section` is called until it returns 0. -/
inductive Drains : Loader → List (U64 × U64) → Loader → Prop
  | done {s : Loader} (h : getSection s = none) : Drains s [] s
  | more {s s' s'' : Loader} {sec : U64 × U64} {secs : List (U64 × U64)}
      (h : getSection s = some (sec, s')) (hrest : Drains s' secs s'') : Drains s (sec :: secs) s''

/-! ### Files -/

/-- The program headers of a file, at the distance that the ELF header says. -/
def Layout.phdrs (L : Layout) (buf : List Byte) : List Phdr :=
  (List.range (L.ehdr buf).phnum).map fun i =>
    L.phdr buf ((L.ehdr buf).phoff.toNat + i * field buf L.phentsize 2)

/-- The segment is loaded. -/
def Phdr.Loads (p : Phdr) : Prop := p.type = PT_LOAD

instance (p : Phdr) : Decidable p.Loads := by unfold Phdr.Loads; infer_instance

/-- The segment has something in memory and something in the file. -/
def Phdr.Filled (p : Phdr) : Prop := p.Loads ∧ p.memsz ≠ 0 ∧ p.filesz ≠ 0

instance (p : Phdr) : Decidable p.Filled := by unfold Phdr.Filled; infer_instance

/-- What `get_section` gives for a segment. -/
def Phdr.sec (p : Phdr) : U64 × U64 := (p.paddr, p.memsz)

/-! ### Section headers -/

section Sections

variable (L : Layout) (buf : List Byte)

/-- The check of the section headers; its sum has 64 bits. -/
def ShFits : Prop :=
  ((L.ehdr buf).shoff + .ofNat 64 ((L.ehdr buf).shnum * L.shdrSize)).toNat ≤ buf.length

/-- The section headers lie in the file. -/
def ShInside : Prop := (L.ehdr buf).shoff.toNat + (L.ehdr buf).shnum * L.shdrSize ≤ buf.length

/-- Where the section header of the names is looked for. -/
def strOffs : U64 := (L.ehdr buf).shoff + .ofNat 64 ((L.ehdr buf).shstrndx * L.shdrSize)

/-- The two fields of that header that are read lie in the file. -/
def StrInside : Prop :=
  (strOffs L buf + .ofNat 64 L.shOffset).toNat + L.word ≤ buf.length ∧
    (strOffs L buf + .ofNat 64 L.shSize).toNat + L.word ≤ buf.length

/-- The offset and the size of the names. -/
def nameTable : U64 × U64 :=
  (.ofNat 64 (field buf (strOffs L buf + .ofNat 64 L.shOffset).toNat L.word),
    .ofNat 64 (field buf (strOffs L buf + .ofNat 64 L.shSize).toNat L.word))

/-- The check of the names; its sum has the width of an address. -/
def NamesFit : Prop :=
  ((nameTable L buf).1.toNat + (nameTable L buf).2.toNat) % 2 ^ (8 * L.word) ≤ buf.length

/-- The name of a section ends in the file. -/
def NameInside (i : ℕ) : Prop := 0 ∈ buf.drop ((nameTable L buf).1 +
  .ofNat 64 (L.shdr buf ((L.ehdr buf).shoff.toNat + i * L.shdrSize)).name).toNat

/-- What is read from the section headers on lies in the file, as far as the checks let it be
read. -/
def SectionsBounded : Prop :=
  ShFits L buf → (L.ehdr buf).shstrndx < (L.ehdr buf).shnum →
    StrInside L buf ∧ (NamesFit L buf →
      ShInside L buf ∧ ∀ i < (L.ehdr buf).shnum, NameInside L buf i)

end Sections

/-! ### Well-formed files -/

/-- **A well-formed file** of one of the two classes. -/
structure ElfFile where
  bytes : List Byte
  layout : Layout
  isClass : layout = elf32 ∨ layout = elf64
  magic : IsElfOf layout bytes
  header : layout.ehdrSize ≤ bytes.length
  entsize : (layout.ehdr bytes).phnum ≠ 0 → field bytes layout.phentsize 2 = layout.phdrSize
  size : bytes.length < 2 ^ 64
  table : (layout.ehdr bytes).phoff.toNat + (layout.ehdr bytes).phnum * layout.phdrSize ≤ bytes.length
  ranges : ∀ p ∈ layout.phdrs bytes, p.Loads →
    p.filesz.toNat ≤ p.memsz.toNat ∧ p.memsz.toNat < 2 ^ 31 ∧
      p.offset.toNat + p.filesz.toNat ≤ bytes.length
  distinct : (((layout.phdrs bytes).filter Phdr.Loads).map Phdr.paddr).Nodup
  sections : SectionsBounded layout bytes

namespace ElfFile

/-- The segments that are delivered. -/
def segments (f : ElfFile) : List Phdr := (f.layout.phdrs f.bytes).filter Phdr.Filled

/-- The bytes of a segment in the file. -/
def content (f : ElfFile) (p : Phdr) : List Byte := (f.bytes.drop p.offset.toNat).take p.filesz.toNat

/-- The entry point of the file. -/
def entry (f : ElfFile) : U64 := (f.layout.ehdr f.bytes).entry

/-- The segments by their addresses. -/
def image (f : ElfFile) : List (U64 × List Byte) := f.segments.map fun p => (p.paddr, f.content p)

end ElfFile

end Cheshire.Sim.Elf
