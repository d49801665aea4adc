import Cheshire.Sim.ElfReads

/-!
The code that `read_elf` returns.  `load_elf` returns nothing, so that a file that does not pass its
checks is reported as loaded; and a segment at an address that is taken is not stored.
-/

namespace Cheshire.Sim.Elf

open Lib

/-! ### What is registered -/

section Registered

variable (L : Layout) (buf : List Byte)

/-- The whole file has been loaded: its segments are in the list and in the map. -/
structure Registered (s s' : Loader) : Prop where
  entry : s'.entry = (L.ehdr buf).entry
  sections : s'.sections = s.sections ++ ((L.table buf).filter Phdr.Filled).map Phdr.sec
  content : ∀ p ∈ L.table buf, p.Filled → s'.mems p.paddr = some (segmentBytes buf p)

/-- The addresses of the segments are free, or hold what belongs there. -/
def Free (s : Loader) : Prop := ∀ p ∈ L.table buf, p.Filled →
  (∀ data, s.mems p.paddr = some data → data = segmentBytes buf p) ∧
    ∀ q ∈ L.table buf, q.Filled → q.paddr = p.paddr → segmentBytes buf q = segmentBytes buf p

variable {L buf}

/-- `insert` keeps what the map held before. -/
lemma loaded_mems (s : Loader) (a : U64) : (loaded L buf s).mems a = (s.mems a).or
    ((((L.table buf).filter Phdr.Filled).map fun p => (p.paddr, segmentBytes buf p)).lookup a) := rfl

/-- What the table holds at an address belongs to one of its segments. -/
lemma lookup_filled {ps : List Phdr} {a : U64} {data : List Byte}
    (h : ((ps.filter Phdr.Filled).map fun p => (p.paddr, segmentBytes buf p)).lookup a = some data) :
    ∃ q ∈ ps, q.Filled ∧ q.paddr = a ∧ segmentBytes buf q = data := by
  obtain ⟨l₁, l₂, hsplit, -⟩ := List.lookup_eq_some_iff.mp h
  have hmem : (a, data) ∈ (ps.filter Phdr.Filled).map fun p => (p.paddr, segmentBytes buf p) := by
    rw [hsplit]
    simp
  obtain ⟨q, hq, hpair⟩ := List.mem_map.mp hmem
  obtain ⟨hq, hfilled⟩ := List.mem_filter.mp hq
  obtain ⟨haddr, hdata⟩ := Prod.mk.inj hpair
  exact ⟨q, hq, of_decide_eq_true hfilled, haddr, hdata⟩

/-- There is something at the address of a segment. -/
lemma exists_lookup {ps : List Phdr} {p : Phdr} (hp : p ∈ ps) (hfilled : p.Filled) :
    ∃ data, ((ps.filter Phdr.Filled).map fun p => (p.paddr, segmentBytes buf p)).lookup p.paddr =
      some data := by
  rw [← Option.isSome_iff_exists, List.lookup_isSome_iff]
  refine ⟨(p.paddr, segmentBytes buf p), ?_, by simp⟩
  exact List.mem_map.mpr ⟨p, List.mem_filter.mpr ⟨hp, decide_eq_true hfilled⟩, rfl⟩

/-- **A file is registered** exactly when its addresses are free. -/
theorem registered_loaded_iff (s : Loader) : Registered L buf s (loaded L buf s) ↔ Free L buf s := by
  constructor
  · intro h p hp hfilled
    have hcontent := h.content p hp hfilled
    constructor
    · intro data hdata
      rw [loaded_mems, hdata, Option.some_or] at hcontent
      exact Option.some.inj hcontent
    · intro q hq hqf hsame
      have hother := h.content q hq hqf
      rw [hsame, hcontent] at hother
      exact (Option.some.inj hother).symm
  · intro h
    refine ⟨rfl, rfl, fun p hp hfilled => ?_⟩
    obtain ⟨hold, hnew⟩ := h p hp hfilled
    rw [loaded_mems]
    cases hdata : s.mems p.paddr with
    | some data => rw [hold data hdata, Option.some_or]
    | none =>
      obtain ⟨data, hlook⟩ := @exists_lookup buf _ _ hp hfilled
      obtain ⟨q, hq, hqf, hsame, rfl⟩ := lookup_filled hlook
      rw [Option.none_or, hlook, hnew q hq hqf hsame]

end Registered

/-! ### What is returned -/

/-- All checks are passed. -/
def Passes (buf : List Byte) : Prop := Accepted buf ∧ AllChecks (classOf buf) buf

/-- **What is returned is right**: 0 only when the whole file has been loaded; and when a check
fails, a code that is not 0, and nothing has changed. -/
def StatusOk (f : MappedFile) (s : Loader) : Prop :=
  Ends (mappedReadElf f.bytes) s
    (fun ret s' => (ret = 0 → Passes f.bytes ∧ Registered (classOf f.bytes) f.bytes s s') ∧
      (¬ Passes f.bytes → ret ≠ 0 ∧ s' = s))
    fun _ _ => False

/-- A file that is taken for an ELF file. -/
lemma statusOk_accepted {f : MappedFile} (h : Accepted f.bytes) (s : Loader) :
    StatusOk f s ↔ Bounded (classOf f.bytes) f.bytes ∧ AllChecks (classOf f.bytes) f.bytes ∧
      Free (classOf f.bytes) f.bytes s := by
  refine ends_iff (ends_mappedReadElf f h s) ?_ ?_
  · rintro ret s' ⟨rfl, hbounded, hfit, -⟩
    constructor
    · rintro ⟨hzero, -⟩
      obtain ⟨hpasses, hreg⟩ := hzero rfl
      obtain ⟨-, rfl⟩ := hfit hpasses.2.phdrs
      exact ⟨hbounded, hpasses.2, (registered_loaded_iff s).mp hreg⟩
    · rintro ⟨-, hall, hfree⟩
      obtain ⟨-, rfl⟩ := hfit hall.phdrs
      have hpasses : Passes f.bytes := ⟨h, hall⟩
      exact ⟨fun _ => ⟨hpasses, (registered_loaded_iff s).mpr hfree⟩, fun hnot => absurd hpasses hnot⟩
  · rintro e - (⟨-, -, -, hassert⟩ | ⟨-, hout⟩)
    · exact iff_of_false id fun hall => hassert hall.2.1.segments
    · exact iff_of_false id fun hall => hout hall.1

/-- **The code that is returned is right** exactly when the file is not taken for an ELF file, or
passes all checks and finds its addresses free. -/
theorem statusOk_iff (f : MappedFile) (s : Loader) : StatusOk f s ↔
    (Accepted f.bytes → Bounded (classOf f.bytes) f.bytes ∧ AllChecks (classOf f.bytes) f.bytes ∧
      Free (classOf f.bytes) f.bytes s) := by
  by_cases h : Accepted f.bytes
  · rw [statusOk_accepted h, forall_prop_of_true h]
  · have hret : StatusOk f s := by
      rw [StatusOk, mappedReadElf_eq, if_neg h, ends_pure]
      exact ⟨fun hzero => absurd hzero (by decide), fun _ => ⟨by decide, rfl⟩⟩
    exact iff_of_true hret fun hacc => absurd hacc h

/-- An ELF header of 64 bits that says that two program headers follow. -/
def truncatedFile : MappedFile where
  bytes := [0x7f, 0x45, 0x4c, 0x46, 2] ++ List.replicate 27 0 ++ toLe 8 64 ++
    List.replicate 16 0 ++ toLe 2 2 ++ List.replicate 6 0
  size := by decide

/-- Nothing has been loaded, and 0 is returned. -/
theorem not_statusOk_truncated : ¬ ∀ f s, StatusOk f s := by
  intro h
  have hnot : ¬ PhFits (classOf truncatedFile.bytes) truncatedFile.bytes := by decide +kernel
  have hall := ((statusOk_accepted (by decide) .init).mp (h truncatedFile .init)).2.1
  exact hnot hall.phdrs

end Cheshire.Sim.Elf
