import Cheshire.Sim.ElfLoader
import Mathlib.Data.List.Induction
import Mathlib.Logic.Relation

/-!
Loading one file after another.  The sections of all files and the cursor agree as long as every
load is drained; the map holds, for each address, what the first file with a segment there had.
-/

namespace Cheshire.Sim.Elf

open Lib

/-! ### One load -/

section Table

variable (L : Layout) (buf : List Byte)

/-- The program headers that the loader goes through. -/
def Layout.table : List Phdr := (List.range (L.ehdr buf).phnum).map fun i =>
  L.phdr buf ((L.ehdr buf).phoff.toNat + i * L.phdrSize)

/-- The check of the program headers; its sum has 64 bits. -/
def PhFits : Prop :=
  ((L.ehdr buf).phoff + .ofNat 64 ((L.ehdr buf).phnum * L.phdrSize)).toNat ≤ buf.length

/-- The assertion on a segment; its sum has the width of an address. -/
def Phdr.Fits (p : Phdr) : Prop :=
  (p.offset.toNat + p.filesz.toNat) % 2 ^ (8 * L.word) ≤ buf.length

instance (p : Phdr) : Decidable (p.Fits L buf) := by unfold Phdr.Fits; infer_instance

/-- No assertion fails. -/
def AllFit (ps : List Phdr) : Prop := ∀ p ∈ ps, p.Filled → p.Fits L buf

instance (ps : List Phdr) : Decidable (AllFit L buf ps) := by unfold AllFit; infer_instance

/-- The data of a segment. -/
def segmentBytes (p : Phdr) : List Byte := (buf.drop p.offset.toNat).take p.filesz.toNat

/-- The state behind the given program headers. -/
def registered (ps : List Phdr) (s : Loader) : Loader where
  sections := s.sections ++ (ps.filter Phdr.Filled).map Phdr.sec
  mems a := (s.mems a).or
    (((ps.filter Phdr.Filled).map fun p => (p.paddr, segmentBytes buf p)).lookup a)
  entry := s.entry
  sectionIndex := s.sectionIndex

/-- The state behind a file all of whose program headers have been gone through. -/
def loaded (s : Loader) : Loader :=
  registered buf (L.table buf) { s with entry := (L.ehdr buf).entry }

end Table

section Loop

variable {L : Layout} {buf : List Byte}

lemma allFit_nil : AllFit L buf [] := fun _ hp => absurd hp List.not_mem_nil

lemma allFit_cons {p : Phdr} {ps : List Phdr} :
    AllFit L buf (p :: ps) ↔ (p.Filled → p.Fits L buf) ∧ AllFit L buf ps := List.forall_mem_cons

lemma registered_nil (s : Loader) : registered buf [] s = s := by
  simp [registered]

lemma registered_append (ps qs : List Phdr) (s : Loader) :
    registered buf (ps ++ qs) s = registered buf qs (registered buf ps s) := by
  simp [registered, List.lookup_append, Option.or_assoc]

lemma registered_not_filled {p : Phdr} (h : ¬ p.Filled) (s : Loader) : registered buf [p] s = s := by
  simp [registered, h]

/-- What `push_back` and `write` leave behind. -/
lemma registered_filled {p : Phdr} (h : p.Filled) (s : Loader) :
    write p.paddr p.filesz (buf.drop p.offset.toNat)
      { s with sections := s.sections ++ [(p.paddr, p.memsz)] } = registered buf [p] s := by
  have hone : [p].filter Phdr.Filled = [p] := by simp [h]
  have hmap (a : U64) : (if p.paddr = a then some (segmentBytes buf p) else none) =
      [(p.paddr, segmentBytes buf p)].lookup a := by
    rw [List.lookup_cons]
    by_cases h : p.paddr = a
    · simp [h]
    · simp [h, beq_false_of_ne (Ne.symm h)]
  rw [registered, hone, List.map_singleton, List.map_singleton, write]
  simp only [← hmap]
  rfl

/-- A turn of the loop over the program headers. -/
lemma loadSegment_eq (s : Loader) {i : ℕ} {p : Phdr}
    (hp : L.phdr buf ((L.ehdr buf).phoff.toNat + i * L.phdrSize) = p) :
    loadSegment L buf s i =
      if p.Filled → p.Fits L buf then some (registered buf [p] s) else none := by
  unfold loadSegment
  simp only [hp]
  by_cases hload : p.type = PT_LOAD ∧ p.memsz ≠ 0
  · rw [if_pos hload]
    by_cases hfile : p.filesz = 0
    · have hnot : ¬ p.Filled := fun h => h.2.2 hfile
      rw [if_neg (not_not.mpr hfile), if_pos fun h => absurd h hnot, registered_not_filled hnot]
    · have hfilled : p.Filled := ⟨hload.1, hload.2, hfile⟩
      rw [if_pos hfile, registered_filled hfilled]
      by_cases hfits : p.Fits L buf
      · rw [if_pos fun _ => hfits]
        exact if_pos hfits
      · have hnot : ¬ (p.Filled → p.Fits L buf) := fun h => hfits (h hfilled)
        rw [if_neg hnot]
        exact if_neg hfits
  · have hnot : ¬ p.Filled := fun h => hload ⟨h.1, h.2.1⟩
    rw [if_neg hload, if_pos fun h => absurd h hnot, registered_not_filled hnot]

/-- The loop over the program headers. -/
lemma foldlM_loadSegment (is : List ℕ) (s : Loader) {ps : List Phdr}
    (hps : is.map (fun i => L.phdr buf ((L.ehdr buf).phoff.toNat + i * L.phdrSize)) = ps) :
    is.foldlM (loadSegment L buf) s =
      if AllFit L buf ps then some (registered buf ps s) else none := by
  induction is generalizing s ps with
  | nil =>
    subst hps
    rw [List.map_nil, if_pos allFit_nil, registered_nil]
    rfl
  | cons i is ih =>
    subst hps
    rw [List.foldlM_cons, loadSegment_eq s rfl, List.map_cons]
    by_cases hfit : (L.phdr buf ((L.ehdr buf).phoff.toNat + i * L.phdrSize)).Filled →
        (L.phdr buf ((L.ehdr buf).phoff.toNat + i * L.phdrSize)).Fits L buf
    · rw [if_pos hfit]
      show is.foldlM (loadSegment L buf) _ = _
      rw [ih _ rfl, ← registered_append, List.singleton_append]
      simp only [allFit_cons, and_iff_right hfit]
    · rw [if_neg hfit, if_neg (mt (fun h => (allFit_cons.mp h).1) hfit)]
      rfl

/-- **What `load_elf` does** with the program headers. -/
theorem loadElf_loaded (hfits : PhFits L buf) (s : Loader) : loadElf L buf s =
    if AllFit L buf (L.table buf) then some (loaded L buf s) else none := by
  unfold loadElf
  rw [if_neg (Nat.not_lt.mpr hfits), foldlM_loadSegment _ _ rfl]
  rfl

end Loop

/-- The program headers are where the loader looks for them. -/
lemma ElfFile.phdrs_eq (f : ElfFile) : f.layout.phdrs f.bytes = f.layout.table f.bytes := by
  unfold Layout.phdrs Layout.table
  by_cases h : (f.layout.ehdr f.bytes).phnum = 0
  · rw [h, List.range_zero, List.map_nil, List.map_nil]
  · rw [f.entsize h]

/-- The state after the given program headers have been gone through. -/
def afterPhdrs (f : ElfFile) (ps : List Phdr) (s : Loader) : Loader where
  sections := s.sections ++ (ps.filter Phdr.Filled).map Phdr.sec
  mems a := (s.mems a).or (((ps.filter Phdr.Filled).map fun p => (p.paddr, f.content p)).lookup a)
  entry := s.entry
  sectionIndex := s.sectionIndex

/-- A well-formed file passes the checks. -/
lemma loadElf_afterPhdrs (f : ElfFile) (s : Loader) : loadElf f.layout f.bytes s =
    some (afterPhdrs f (f.layout.phdrs f.bytes) { s with entry := f.entry }) := by
  have hfits : PhFits f.layout f.bytes := by
    rw [PhFits, BitVec.toNat_add, BitVec.toNat_ofNat]
    have := f.table
    have := f.size
    omega
  have hall : AllFit f.layout f.bytes (f.layout.table f.bytes) := by
    intro p hp hfilled
    rw [← f.phdrs_eq] at hp
    exact Nat.le_trans (Nat.mod_le _ _) (f.ranges p hp hfilled.1).2.2
  rw [loadElf_loaded hfits, if_pos hall, f.phdrs_eq]
  rfl

/-- **A load** appends the segments of the file, and keeps what the map held before. -/
theorem loadElf_eq (f : ElfFile) (s : Loader) : loadElf f.layout f.bytes s = some
    { s with
      sections := s.sections ++ f.segments.map Phdr.sec
      mems := fun a => (s.mems a).or (f.image.lookup a)
      entry := f.entry } :=
  loadElf_afterPhdrs f s

/-- The file is taken for what it is. -/
theorem readElf_eq (f : ElfFile) (hsize : 64 ≤ f.bytes.length) (s : Loader) :
    readElf f.bytes s = some (0,
      { s with
        sections := s.sections ++ f.segments.map Phdr.sec
        mems := fun a => (s.mems a).or (f.image.lookup a)
        entry := f.entry }) := by
  have hload := loadElf_eq f s
  have hmagic := f.magic
  unfold readElf
  rw [if_neg (show ¬ f.bytes.length < elf64.ehdrSize from Nat.not_lt.mpr hsize)]
  rcases f.isClass with h | h
  · rw [h] at hmagic hload
    rw [if_neg (not_not.mpr (.inl hmagic)), if_pos hmagic, hload]
    rfl
  · rw [h] at hmagic hload
    have hnot : ¬ IsElfOf elf32 f.bytes := by
      intro h32
      have := h32.2.symm.trans hmagic.2
      revert this
      decide
    rw [if_neg (not_not.mpr (.inr hmagic)), if_neg hnot, hload]
    rfl

/-! ### A drain -/

lemma toNat_sectionIndex {n : ℕ} (hn : n < 2 ^ 31) :
    ((BitVec.ofNat 32 n).signExtend 64).toNat = n := by
  have hmsb : (BitVec.ofNat 32 n).msb = false := by
    rw [BitVec.msb_eq_false_iff_two_mul_lt, BitVec.toNat_ofNat]
    omega
  rw [BitVec.signExtend_eq_setWidth_of_msb_false hmsb, BitVec.toNat_setWidth, BitVec.toNat_ofNat]
  omega

/-- **A drain** delivers the sections behind the cursor. -/
theorem drains_sections : ∀ (secs old : List (U64 × U64)) (s : Loader), s.sections = old ++ secs →
    s.sectionIndex = BitVec.ofNat 32 old.length → (old ++ secs).length < 2 ^ 31 →
    Drains s secs { s with sectionIndex := BitVec.ofNat 32 (old ++ secs).length } := by
  intro secs
  induction secs with
  | nil =>
    intro old s hsecs hidx hlen
    rw [List.append_nil] at hsecs hlen ⊢
    rw [← hidx]
    refine .done ?_
    unfold getSection
    rw [hidx, toNat_sectionIndex hlen, hsecs, List.getElem?_eq_none (Nat.le_refl _)]
  | cons sec secs ih =>
    intro old s hsecs hidx hlen
    have happ : old ++ sec :: secs = (old ++ [sec]) ++ secs := by simp
    have hget : getSection s = some (sec, { s with sectionIndex := s.sectionIndex + 1 }) := by
      unfold getSection
      rw [List.length_append] at hlen
      rw [hidx, toNat_sectionIndex (by omega), hsecs, List.getElem?_append_right (Nat.le_refl _),
        Nat.sub_self, List.getElem?_cons_zero]
    refine .more hget ?_
    rw [happ] at hsecs hlen ⊢
    refine ih (old ++ [sec]) { s with sectionIndex := s.sectionIndex + 1 } hsecs ?_ hlen
    rw [List.length_append, List.length_singleton, BitVec.ofNat_add, ← hidx]
    rfl

/-- Two drains of a state end alike. -/
lemma Drains.unique {s s' s'' : Loader} {secs secs' : List (U64 × U64)} (h : Drains s secs s')
    (h' : Drains s secs' s'') : secs = secs' ∧ s' = s'' := by
  induction h generalizing secs' s'' with
  | done hn =>
    cases h' with
    | done _ => exact ⟨rfl, rfl⟩
    | more hm _ => rw [hn] at hm; cases hm
  | more hm _ ih =>
    cases h' with
    | done hn => rw [hn] at hm; cases hm
    | more hm' hrest =>
      obtain ⟨rfl, rfl⟩ := Prod.mk.inj (Option.some.inj (hm.symm.trans hm'))
      obtain ⟨rfl, rfl⟩ := ih hrest
      exact ⟨rfl, rfl⟩

/-! ### A read -/

/-- A buffer that holds the data takes them. -/
lemma copyData_eq : ∀ (data buf : List Byte), data.length ≤ buf.length →
    copyData data buf.length buf = (0, data ++ buf.drop data.length) := by
  intro data
  induction data with
  | nil =>
    intro buf _
    rfl
  | cons datum data ih =>
    intro buf hlen
    cases buf with
    | nil => simp at hlen
    | cons b buf =>
      rw [List.length_cons, List.length_cons] at hlen
      have hrest := ih buf (by omega)
      have hcount : (((b :: buf).length : ℕ) : ℤ) - 1 = buf.length := by simp
      rw [copyData, if_neg (by simp; omega), hcount, List.tail_cons, hrest]
      simp

/-! ### Histories -/

/-- The data at the start of a buffer of `n` zeros. -/
def padded (data : List Byte) (n : ℕ) : List Byte := data ++ List.replicate (n - data.length) 0

/-- A call of `get_section`. -/
def Gets (s s' : Loader) : Prop := ∃ sec, getSection s = some (sec, s')

/-- What can be read is the file: its entry point, and the contents of its segments. -/
structure Reads (f : ElfFile) (s : Loader) : Prop where
  entry : getEntry s = f.entry
  content : ∀ p ∈ f.segments,
    readSection s p.paddr (List.replicate p.memsz.toNat 0) p.memsz.toNat =
      (0, padded (f.content p) p.memsz.toNat)

/-- A file is loaded in the state `s`, and drained: its segments are delivered, and all the while it
can be read. -/
def LoadOk (f : ElfFile) (s : Loader) : Prop :=
  ∃ s₁ s₂, readElf f.bytes s = some (0, s₁) ∧ Drains s₁ (f.segments.map Phdr.sec) s₂ ∧
    ∀ t, Relation.ReflTransGen Gets s₁ t → Reads f t

/-- The states behind files that have been loaded and drained one after another. -/
inductive Loaded : List ElfFile → Loader → Prop
  | init : Loaded [] .init
  | load {files : List ElfFile} {f : ElfFile} {s s₁ s₂ : Loader} {ret : ℤ} {secs : List (U64 × U64)}
      (h : Loaded files s) (hread : readElf f.bytes s = some (ret, s₁)) (hdrain : Drains s₁ secs s₂) :
      Loaded (files ++ [f]) s₂

/-- What the map holds behind a list of files: the first segment at each address. -/
def stored (files : List ElfFile) (a : U64) : Option (List Byte) :=
  (files.flatMap ElfFile.image).lookup a

/-- **When a load goes well** behind the files that came before: the file is as long as the header
of a 64-bit one, the sections can be counted with an `int`, and what is stored at the address of a
segment is the segment, up to zeros behind it. -/
structure Loadable (before : List ElfFile) (f : ElfFile) : Prop where
  size : 64 ≤ f.bytes.length
  count : ((before ++ [f]).flatMap ElfFile.segments).length < 2 ^ 31
  same : ∀ p ∈ f.segments, ∀ data, stored before p.paddr = some data →
    data.length ≤ p.memsz.toNat ∧ padded data p.memsz.toNat = padded (f.content p) p.memsz.toNat

/-- The global variables behind files that have been loaded and drained. -/
structure Inv (files : List ElfFile) (s : Loader) : Prop where
  sections : s.sections = (files.flatMap ElfFile.segments).map Phdr.sec
  cursor : s.sectionIndex = BitVec.ofNat 32 s.sections.length
  mems : ∀ a, s.mems a = stored files a

lemma stored_append (files : List ElfFile) (f : ElfFile) (a : U64) :
    stored (files ++ [f]) a = (stored files a).or (f.image.lookup a) := by
  unfold stored
  rw [List.flatMap_append, List.flatMap_singleton, List.lookup_append]

/-- A segment is found under its address, which no other segment of the file has. -/
lemma lookup_image (f : ElfFile) {p : Phdr} (hp : p ∈ f.segments) :
    f.image.lookup p.paddr = some (f.content p) := by
  have hnodup : (f.segments.map Phdr.paddr).Nodup := by
    refine f.distinct.sublist (List.Sublist.map _ ?_)
    have hsub : f.segments = ((f.layout.phdrs f.bytes).filter Phdr.Loads).filter Phdr.Filled := by
      rw [List.filter_filter]
      refine List.filter_congr fun q _ => ?_
      by_cases hq : q.Filled
      · simp [hq, hq.1]
      · simp [hq]
    rw [hsub]
    exact List.filter_sublist
  obtain ⟨l, l', hl⟩ := List.append_of_mem hp
  rw [hl, List.map_append, List.map_cons, List.nodup_append] at hnodup
  rw [List.lookup_eq_some_iff]
  refine ⟨l.map fun p => (p.paddr, f.content p), l'.map fun p => (p.paddr, f.content p), ?_, ?_⟩
  · rw [ElfFile.image, hl, List.map_append, List.map_cons]
  · intro q hq
    obtain ⟨p', hp', rfl⟩ := List.mem_map.mp hq
    exact bne_iff_ne.mpr fun h => hnodup.2.2 _ (List.mem_map.mpr ⟨p', hp', rfl⟩) _
      List.mem_cons_self h.symm

lemma fits_of_mem {f : ElfFile} {p : Phdr} (hp : p ∈ f.segments) :
    p.filesz.toNat ≤ p.memsz.toNat ∧ p.memsz.toNat < 2 ^ 31 := by
  obtain ⟨hmem, hfilled⟩ := List.mem_filter.mp hp
  obtain ⟨hle, hlt, -⟩ := f.ranges p hmem (of_decide_eq_true hfilled).1
  exact ⟨hle, hlt⟩

/-- The size of a segment is not negative as a `longint`. -/
lemma msb_memsz {f : ElfFile} {p : Phdr} (hp : p ∈ f.segments) : p.memsz.msb = false := by
  rw [BitVec.msb_eq_false_iff_two_mul_lt]
  have := (fits_of_mem hp).2
  omega

lemma length_padded_content {f : ElfFile} {p : Phdr} (hp : p ∈ f.segments) :
    (padded (f.content p) p.memsz.toNat).length = p.memsz.toNat := by
  have hlen : (f.content p).length ≤ p.filesz.toNat := List.length_take_le _ _
  have hle := (fits_of_mem hp).1
  rw [padded, List.length_append, List.length_replicate]
  omega

/-- A section that fits into a buffer of zeros is read with zeros behind it. -/
lemma readSection_eq {s : Loader} {a : U64} {data : List Byte} (h : s.mems a = some data) {n : ℕ}
    (hlen : data.length ≤ n) : readSection s a (List.replicate n 0) n = (0, padded data n) := by
  have hcopy := copyData_eq data (List.replicate n 0) (by rwa [List.length_replicate])
  rw [List.length_replicate, List.drop_replicate] at hcopy
  unfold readSection
  rw [h]
  exact hcopy

/-- A drain goes through states of the loader. -/
lemma gets_of_drains {s s' : Loader} {secs : List (U64 × U64)} (h : Drains s secs s') :
    Relation.ReflTransGen Gets s s' := by
  induction h with
  | done => exact .refl
  | more hget _ ih => exact .head ⟨_, hget⟩ ih

lemma gets_keeps {s t : Loader} (h : Relation.ReflTransGen Gets s t) :
    t.mems = s.mems ∧ t.entry = s.entry := by
  induction h with
  | refl => exact ⟨rfl, rfl⟩
  | tail _ hs ih =>
    obtain ⟨sec, hget⟩ := hs
    unfold getSection at hget
    split at hget
    · obtain ⟨-, rfl⟩ := Prod.mk.inj (Option.some.inj hget)
      exact ih
    · cases hget

/-- **One load** behind files for which the invariant holds. -/
theorem Inv.load {before : List ElfFile} {f : ElfFile} {s : Loader} (h : Inv before s)
    (hf : Loadable before f) : ∃ s₁ s₂, readElf f.bytes s = some (0, s₁) ∧
      Drains s₁ (f.segments.map Phdr.sec) s₂ ∧ (∀ t, Relation.ReflTransGen Gets s₁ t → Reads f t) ∧
        Inv (before ++ [f]) s₂ := by
  have hsecs : s.sections ++ f.segments.map Phdr.sec =
      ((before ++ [f]).flatMap ElfFile.segments).map Phdr.sec := by
    rw [h.sections, List.flatMap_append, List.flatMap_singleton, List.map_append]
  refine ⟨_, _, readElf_eq f hf.size s, drains_sections _ s.sections _ rfl h.cursor ?_, ?_, ?_⟩
  · rw [hsecs, List.length_map]
    exact hf.count
  · intro t ht
    obtain ⟨hmems, hentry⟩ := gets_keeps ht
    refine ⟨hentry, fun p hp => ?_⟩
    have hmap : t.mems p.paddr = (stored before p.paddr).or (some (f.content p)) := by
      rw [hmems, ← h.mems, ← lookup_image f hp]
    have hload : p.Loads := (of_decide_eq_true (List.mem_filter.mp hp).2).1
    have hlen : (f.content p).length ≤ p.memsz.toNat := by
      have := (f.ranges p (List.mem_filter.mp hp).1 hload).1
      unfold ElfFile.content
      rw [List.length_take]
      omega
    cases hst : stored before p.paddr with
    | none =>
      rw [hst] at hmap
      exact readSection_eq hmap hlen
    | some data =>
      rw [hst] at hmap
      obtain ⟨hfits, hsame⟩ := hf.same p hp data hst
      rw [← hsame]
      exact readSection_eq hmap hfits
  · refine ⟨hsecs, ?_, fun a => ?_⟩
    · rfl
    · show (s.mems a).or (f.image.lookup a) = stored (before ++ [f]) a
      rw [stored_append, h.mems]

/-- Every file of a history is loadable behind those before it. -/
def Good (files : List ElfFile) : Prop :=
  ∀ before f after, files = before ++ f :: after → Loadable before f

lemma Good.init {files : List ElfFile} {f : ElfFile} (h : Good (files ++ [f])) : Good files := by
  intro before g after hsplit
  refine h before g (after ++ [f]) ?_
  rw [hsplit, List.append_assoc, List.cons_append]

lemma Good.before {before : List ElfFile} {f : ElfFile} {after : List ElfFile}
    (h : Good (before ++ f :: after)) : Good before := by
  intro b g a hsplit
  refine h b g (a ++ f :: after) ?_
  rw [hsplit, List.append_assoc, List.cons_append]

/-- **Every run** of loads and drains keeps the invariant. -/
theorem Loaded.inv {files : List ElfFile} {s : Loader} (h : Loaded files s) (hgood : Good files) :
    Inv files s := by
  induction h with
  | init => exact ⟨rfl, rfl, fun _ => rfl⟩
  | @load files f s s₁ s₂ ret secs _ hread hdrain ih =>
    obtain ⟨t₁, t₂, hread', hdrain', -, hinv⟩ := (ih hgood.init).load (hgood files f [] rfl)
    obtain ⟨-, rfl⟩ := Prod.mk.inj (Option.some.inj (hread.symm.trans hread'))
    obtain ⟨-, rfl⟩ := hdrain.unique hdrain'
    exact hinv

/-- There is such a run. -/
theorem exists_loaded (files : List ElfFile) (hgood : Good files) : ∃ s, Loaded files s := by
  induction files using List.reverseRecOn with
  | nil => exact ⟨_, .init⟩
  | append_singleton files f ih =>
    obtain ⟨s, hs⟩ := ih hgood.init
    obtain ⟨s₁, s₂, hread, hdrain, -⟩ := (hs.inv hgood.init).load (hgood files f [] rfl)
    exact ⟨s₂, hs.load hread hdrain⟩

/-- **Every load of a good history goes well**: what is delivered and read is the file. -/
theorem loads_ok {files : List ElfFile} (hgood : Good files) :
    ∀ before f after, files = before ++ f :: after →
      (∃ s, Loaded before s) ∧ ∀ s, Loaded before s → LoadOk f s := by
  rintro before f after rfl
  refine ⟨exists_loaded before hgood.before, fun s hs => ?_⟩
  obtain ⟨s₁, s₂, hread, hdrain, hreads, -⟩ :=
    (hs.inv hgood.before).load (hgood before f after rfl)
  exact ⟨s₁, s₂, hread, hdrain, hreads⟩

/-! ### Two files at one address -/

/-- A 64-bit file with a segment of two bytes at 0x8000_0000, of which the file has one. -/
def sampleBytes (c : Byte) : List Byte :=
  [0x7f, 0x45, 0x4c, 0x46, 2] ++ List.replicate 19 0 ++ toLe 8 0x8000_0000 ++ toLe 8 64 ++
    List.replicate 14 0 ++ toLe 2 56 ++ toLe 2 1 ++ List.replicate 6 0 ++
    (toLe 4 1 ++ toLe 4 0 ++ toLe 8 120 ++ toLe 8 0x8000_0000 ++ toLe 8 0x8000_0000 ++ toLe 8 1 ++
      toLe 8 2 ++ toLe 8 0) ++ [c]

def firstFile : ElfFile where
  bytes := sampleBytes 1
  layout := elf64
  isClass := .inr rfl
  magic := by decide
  header := by decide
  entsize := by decide
  size := by decide
  table := by decide
  ranges := by decide +kernel
  distinct := by decide +kernel
  sections := fun _ h => absurd h (by decide)

def secondFile : ElfFile where
  bytes := sampleBytes 2
  layout := elf64
  isClass := .inr rfl
  magic := by decide
  header := by decide
  entsize := by decide
  size := by decide
  table := by decide
  ranges := by decide +kernel
  distinct := by decide +kernel
  sections := fun _ h => absurd h (by decide)

/-- A file that is loaded for the first time. -/
lemma loadable_nil {f : ElfFile} (hsize : 64 ≤ f.bytes.length) (hcount : f.segments.length < 2 ^ 31) :
    Loadable [] f where
  size := hsize
  count := by simpa using hcount
  same _ _ _ h := by cases h

/-- A file that is loaded twice. -/
lemma good_pair {f : ElfFile} (hsize : 64 ≤ f.bytes.length) (hcount : f.segments.length < 2 ^ 30) :
    Good [f, f] := by
  rintro before g after hsplit
  rcases before with _ | ⟨b, _ | ⟨b', before⟩⟩
  · obtain ⟨rfl, -⟩ := List.cons.inj hsplit
    exact loadable_nil hsize (by omega)
  · simp only [List.cons_append, List.nil_append, List.cons.injEq] at hsplit
    obtain ⟨rfl, rfl, -⟩ := hsplit
    refine ⟨hsize, by simp; omega, fun p hp data hdata => ?_⟩
    have himage : stored [f] p.paddr = some (f.content p) := by
      rw [stored, List.flatMap_singleton, lookup_image f hp]
    obtain rfl := Option.some.inj (himage.symm.trans hdata)
    have hload : p.Loads := (of_decide_eq_true (List.mem_filter.mp hp).2).1
    have := (f.ranges p (List.mem_filter.mp hp).1 hload).1
    refine ⟨?_, rfl⟩
    unfold ElfFile.content
    rw [List.length_take]
    omega
  · have hlen := congrArg List.length hsplit
    simp at hlen

/-- The first file can be loaded again and again. -/
theorem loads_ok_twice : ∃ s, Loaded [firstFile] s ∧ LoadOk firstFile s := by
  obtain ⟨⟨s, hs⟩, hok⟩ := loads_ok (good_pair (f := firstFile) (by decide) (by decide +kernel))
    [firstFile] firstFile [] rfl
  exact ⟨s, hs, hok s hs⟩

/-- The second file behind the first one is not what is read. -/
theorem not_loads_ok_second :
    ¬ ∀ s, Loaded [firstFile] s → LoadOk secondFile s := by
  have hgood : Good [firstFile] := by
    rintro before g after hsplit
    rcases before with _ | ⟨b, before⟩
    · obtain ⟨rfl, -⟩ := List.cons.inj hsplit
      exact loadable_nil (by decide +kernel) (by decide +kernel)
    · have hlen := congrArg List.length hsplit
      simp at hlen
  obtain ⟨s, hs⟩ := exists_loaded [firstFile] hgood
  intro h
  obtain ⟨s₁, s₂, hread, -, hreads⟩ := h s hs
  rw [readElf_eq secondFile (by decide +kernel)] at hread
  obtain ⟨-, hs₁⟩ := Prod.mk.inj (Option.some.inj hread)
  have hstored : stored [firstFile] 0x8000_0000 = some [1] := by decide +kernel
  have hmems : s₁.mems 0x8000_0000 = some [1] := by
    rw [← hs₁]
    show (s.mems 0x8000_0000).or _ = _
    rw [(hs.inv hgood).mems, hstored]
    rfl
  have hseg : ⟨1, 120, 0x8000_0000, 1, 2⟩ ∈ secondFile.segments := by decide +kernel
  have hnew := (hreads _ .refl).content _ hseg
  have hold := readSection_eq hmems (n := 2) (by decide)
  have hne : padded [1] 2 ≠ padded (secondFile.content ⟨1, 120, 0x8000_0000, 1, 2⟩) 2 := by
    decide +kernel
  exact hne (Prod.mk.inj (hold.symm.trans hnew)).2

end Cheshire.Sim.Elf
