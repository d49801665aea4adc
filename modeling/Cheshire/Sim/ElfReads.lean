import Cheshire.Sim.ElfMapped

/-!
What the ELF loader reads lies in the file exactly when no check is passed by a sum that has
overflown, and every name that is compared ends in the file.
-/

namespace Cheshire.Sim.Elf

open Lib

/-! ### Reads -/

section Reads

variable {L : Layout} {buf : List Byte}

/-- The fields lie in their headers. -/
structure Layout.Ok (L : Layout) : Prop where
  ehdr : L.entry + L.word ≤ 64 ∧ L.phoff + L.word ≤ 64 ∧ L.phnum + 2 ≤ 64 ∧ L.shoff + L.word ≤ 64 ∧
    L.shnum + 2 ≤ 64 ∧ L.shstrndx + 2 ≤ 64
  phdr : 4 ≤ L.phdrSize ∧ L.offset + L.word ≤ L.phdrSize ∧ L.paddr + L.word ≤ L.phdrSize ∧
    L.filesz + L.word ≤ L.phdrSize ∧ L.memsz + L.word ≤ L.phdrSize ∧ L.phdrSize ≤ 64
  shdr : L.shName = 0 ∧ 4 ≤ L.shdrSize ∧ L.shOffset + L.word ≤ L.shdrSize ∧
    L.shSize + L.word ≤ L.shdrSize ∧ L.shdrSize ≤ 64

lemma layout_ok (h : L = elf32 ∨ L = elf64) : L.Ok := by
  rcases h with rfl | rfl <;> exact ⟨by decide, by decide, by decide⟩

lemma field_two_lt (o : ℕ) : field buf o 2 < 65536 := by
  have hlt := ofLe_lt ((buf.drop o).take 2)
  have hle : ((buf.drop o).take 2).length ≤ 2 := List.length_take_le _ _
  calc field buf o 2 < 256 ^ ((buf.drop o).take 2).length := hlt
    _ ≤ 256 ^ 2 := Nat.pow_le_pow_right (by decide) hle

lemma readField_inside {o : U64} {n : ℕ} (h : o.toNat + n ≤ buf.length) :
    readField buf o n = pure (field buf o.toNat n) := by
  funext s
  have hread : readBytes buf o n s = .ok ((buf.drop o.toNat).take n) s := if_pos h
  simp only [readField, bind, EStateM.bind, hread]
  rfl

lemma readWord_inside {o : U64} (h : o.toNat + L.word ≤ buf.length) :
    readWord L buf o = pure (.ofNat 64 (field buf o.toNat L.word)) := by
  rw [readWord, readField_inside h]
  rfl

lemma readBytes_inside {o : U64} {n : ℕ} (h : o.toNat + n ≤ buf.length) :
    readBytes buf o n = pure ((buf.drop o.toNat).take n) :=
  funext fun _ => if_pos h

lemma readBytes_outside {o : U64} {n : ℕ} (h : ¬ o.toNat + n ≤ buf.length) :
    readBytes buf o n = throw .outside :=
  funext fun _ => if_neg h

lemma readField_outside {o : U64} {n : ℕ} (h : ¬ o.toNat + n ≤ buf.length) :
    readField buf o n = throw .outside := by
  rw [readField, readBytes_outside h]
  rfl

/-! ### The program headers -/

lemma write_take (a n : U64) (s : Loader) : write a n (buf.take n.toNat) s = write a n buf s := by
  rw [write, List.take_take, Nat.min_self, write]

/-- A word of a header that lies in the file. -/
lemma readWord_header {q : U64} {k n : ℕ} (hsize : buf.length < 2 ^ 63)
    (hin : q.toNat + n ≤ buf.length) (hk : k + L.word ≤ n) :
    readWord L buf (q + .ofNat 64 k) = pure (.ofNat 64 (field buf (q.toNat + k) L.word)) := by
  have hadd : (q + .ofNat 64 k).toNat = q.toNat + k := by
    rw [BitVec.toNat_add, BitVec.toNat_ofNat]
    omega
  rw [readWord_inside (by omega), hadd]

/-- A segment that has something in the file. -/
lemma mappedFilled_eq (hL : L.Ok) (hsize : buf.length < 2 ^ 63) {q : U64} {p : Phdr}
    (hin : q.toNat + L.phdrSize ≤ buf.length) (hp : L.phdr buf q.toNat = p) :
    mappedFilled L buf q p.filesz =
      if p.Fits L buf then do
        modify fun s => { s with sections := s.sections ++ [(p.paddr, p.memsz)] }
        let content ← readBytes buf p.offset (min p.filesz.toNat (2 ^ 31))
        if p.filesz.toNat < 2 ^ 31 then modify (write p.paddr p.filesz content) else throw .overflow
      else throw .assertion := by
  obtain ⟨-, hoffset, hpaddr, -, hmemsz, -⟩ := hL.phdr
  subst hp
  simp only [mappedFilled, readWord_header hsize hin hoffset, readWord_header hsize hin hpaddr,
    readWord_header hsize hin hmemsz, pure_bind]
  rfl

/-- A turn of the loop over the program headers. -/
lemma mappedSegment_eq (hL : L.Ok) (hsize : buf.length < 2 ^ 63) {ph : U64} {i : ℕ} {q : U64}
    {p : Phdr} (hq : ph + .ofNat 64 (i * L.phdrSize) = q)
    (hin : q.toNat + L.phdrSize ≤ buf.length) (hp : L.phdr buf q.toNat = p) :
    mappedSegment L buf ph i = if p.Filled then mappedFilled L buf q p.filesz else pure () := by
  obtain ⟨htype, -, hpaddr, hfilesz, hmemsz, -⟩ := hL.phdr
  have hfield : readField buf q 4 = pure (field buf q.toNat 4) := readField_inside (by omega)
  have hsame : BitVec.ofNat 32 (field buf q.toNat 4) = p.type := hp ▸ rfl
  have hpaddr : readWord L buf (q + .ofNat 64 L.paddr) = pure p.paddr :=
    hp ▸ readWord_header hsize hin hpaddr
  have hfilesz : readWord L buf (q + .ofNat 64 L.filesz) = pure p.filesz :=
    hp ▸ readWord_header hsize hin hfilesz
  have hmemsz : readWord L buf (q + .ofNat 64 L.memsz) = pure p.memsz :=
    hp ▸ readWord_header hsize hin hmemsz
  simp only [mappedSegment, hq, hfield, hsame, hpaddr, hfilesz, hmemsz, pure_bind]
  by_cases hload : p.type = PT_LOAD
  · by_cases hmem : p.memsz = 0
    · have hnot : ¬ p.Filled := fun h => h.2.1 hmem
      rw [if_pos hload, if_neg (not_not.mpr hmem), if_neg hnot]
    · by_cases hfile : p.filesz = 0
      · have hnot : ¬ p.Filled := fun h => h.2.2 hfile
        rw [if_pos hload, if_pos hmem, if_neg (not_not.mpr hfile), if_neg hnot]
        simp
      · have hfilled : p.Filled := ⟨hload, hmem, hfile⟩
        rw [if_pos hload, if_pos hmem, if_pos hfile, if_pos hfilled]
        simp
  · have hnot : ¬ p.Filled := fun h => hload h.1
    rw [if_neg hload, if_neg hnot]

/-- **A turn of the loop over the program headers.** -/
theorem ends_mappedSegment (hL : L.Ok) (hsize : buf.length < 2 ^ 63) {ph : U64} {i : ℕ} {p : Phdr}
    (hin : ph.toNat + (i + 1) * L.phdrSize ≤ buf.length)
    (hp : L.phdr buf (ph.toNat + i * L.phdrSize) = p) (s : Loader) :
    Ends (mappedSegment L buf ph i) s
      (fun _ s' => s' = registered buf [p] s ∧ (p.Filled → p.Fits L buf ∧ p.Inside buf))
      (fun e _ => p.Filled ∧
        (e = .assertion ∧ ¬ p.Fits L buf ∨ e ≠ .assertion ∧ p.Fits L buf ∧ ¬ p.Inside buf)) := by
  rw [Nat.succ_mul, ← Nat.add_assoc] at hin
  have hbase : (ph + .ofNat 64 (i * L.phdrSize)).toNat = ph.toNat + i * L.phdrSize := by
    rw [BitVec.toNat_add, BitVec.toNat_ofNat]
    omega
  rw [← hbase] at hin hp
  rw [mappedSegment_eq hL hsize rfl hin hp, mappedFilled_eq hL hsize hin hp]
  by_cases hfilled : p.Filled
  · rw [if_pos hfilled]
    by_cases hfits : p.Fits L buf
    · rw [if_pos hfits]
      by_cases hinside : p.Inside buf
      · have hmin : min p.filesz.toNat (2 ^ 31) = p.filesz.toNat :=
          Nat.min_eq_left (Nat.le_of_lt hinside.1)
        rw [hmin, readBytes_inside hinside.2, pure_bind, if_pos hinside.1]
        exact ⟨(write_take _ _ _).trans (registered_filled hfilled s), fun _ => ⟨hfits, hinside⟩⟩
      · by_cases hread : p.offset.toNat + min p.filesz.toNat (2 ^ 31) ≤ buf.length
        · have hlong : ¬ p.filesz.toNat < 2 ^ 31 := by
            intro hlt
            rw [Nat.min_eq_left (Nat.le_of_lt hlt)] at hread
            exact hinside ⟨hlt, hread⟩
          rw [readBytes_inside hread, pure_bind, if_neg hlong]
          exact ⟨hfilled, .inr ⟨by decide, hfits, hinside⟩⟩
        · rw [readBytes_outside hread]
          exact ⟨hfilled, .inr ⟨by decide, hfits, hinside⟩⟩
    · rw [if_neg hfits, ends_throw]
      exact ⟨hfilled, .inl ⟨rfl, hfits⟩⟩
  · rw [if_neg hfilled, ends_pure, registered_not_filled hfilled]
    exact ⟨rfl, fun h => absurd h hfilled⟩

lemma dataInside_cons {p : Phdr} {ps : List Phdr} : DataInside L buf (p :: ps) ↔
    ((p.Filled → p.Fits L buf) → (p.Filled → p.Inside buf) ∧ DataInside L buf ps) := by
  unfold DataInside
  by_cases h : p.Filled → p.Fits L buf
  · rw [List.takeWhile_cons, decide_eq_true h, if_pos rfl, List.forall_mem_cons]
    exact ⟨fun hall _ => hall, fun hall => hall h⟩
  · rw [List.takeWhile_cons, decide_eq_false h, if_neg Bool.false_ne_true]
    exact ⟨fun _ hp => absurd hp h, fun _ => by simp⟩

/-- **The loop over the program headers**: an assertion that fails is reached only when the data
before it lie in the file. -/
theorem ends_segments (hL : L.Ok) (hsize : buf.length < 2 ^ 63) {ph : U64} {is : List ℕ} (s : Loader)
    (his : ∀ i ∈ is, ph.toNat + (i + 1) * L.phdrSize ≤ buf.length) {ps : List Phdr}
    (hps : is.map (fun i => L.phdr buf (ph.toNat + i * L.phdrSize)) = ps) :
    Ends (is.forM (mappedSegment L buf ph)) s
      (fun _ s' => s' = registered buf ps s ∧ AllFit L buf ps ∧ DataInside L buf ps)
      (fun e _ => e = .assertion ∧ ¬ AllFit L buf ps ∧ DataInside L buf ps ∨
        e ≠ .assertion ∧ ¬ DataInside L buf ps) := by
  induction is generalizing s ps with
  | nil =>
    subst hps
    exact ⟨(registered_nil s).symm, fun p hp => by simp at hp, fun p hp => by simp at hp⟩
  | cons i is ih =>
    rw [List.forall_mem_cons] at his
    obtain ⟨hi, his⟩ := his
    subst hps
    rw [List.map_cons]
    show Ends (mappedSegment L buf ph i >>= fun _ => is.forM (mappedSegment L buf ph)) s _ _
    rw [ends_bind]
    refine (ends_mappedSegment hL hsize hi rfl s).mono ?_ ?_
    · rintro - - ⟨rfl, hp⟩
      refine (ih _ his rfl).mono ?_ ?_
      · rintro - - ⟨rfl, hfit, hdata⟩
        refine ⟨(registered_append [_] _ s).symm, ?_, ?_⟩
        · exact List.forall_mem_cons.mpr ⟨fun h => (hp h).1, hfit⟩
        · exact dataInside_cons.mpr fun _ => ⟨fun h => (hp h).2, hdata⟩
      · rintro e - (⟨rfl, hfit, hdata⟩ | ⟨he, hdata⟩)
        · refine .inl ⟨rfl, fun h => hfit (List.forall_mem_cons.mp h).2, ?_⟩
          exact dataInside_cons.mpr fun _ => ⟨fun h => (hp h).2, hdata⟩
        · exact .inr ⟨he, fun h => hdata (dataInside_cons.mp h fun h => (hp h).1).2⟩
    · rintro e - ⟨hfilled, ⟨rfl, hfits⟩ | ⟨he, hfits, hinside⟩⟩
      · refine .inl ⟨rfl, fun h => hfits ((List.forall_mem_cons.mp h).1 hfilled), ?_⟩
        exact dataInside_cons.mpr fun h => absurd (h hfilled) hfits
      · exact .inr ⟨he, fun h => hinside ((dataInside_cons.mp h fun _ => hfits).1 hfilled)⟩

/-! ### The section headers -/

lemma readString_inside {o : U64} (h : 0 ∈ buf.drop o.toNat) :
    readString buf o = pure ((buf.drop o.toNat).takeWhile (· ≠ 0)) :=
  funext fun _ => if_pos h

lemma readString_outside {o : U64} (h : 0 ∉ buf.drop o.toNat) : readString buf o = throw .outside :=
  funext fun _ => if_neg h

lemma readWord_outside {o : U64} (h : ¬ o.toNat + L.word ≤ buf.length) :
    readWord L buf o = throw .outside := by
  rw [readWord, readField_outside h]
  rfl

/-- The ELF header lies in the file. -/
lemma readWord_ehdr (h64 : 64 ≤ buf.length) {k : ℕ} (hk : k + L.word ≤ 64) :
    readWord L buf (.ofNat 64 k) = pure (.ofNat 64 (field buf k L.word)) := by
  have hto : (BitVec.ofNat 64 k).toNat = k := by
    rw [BitVec.toNat_ofNat]
    omega
  rw [readWord_inside (by omega), hto]

lemma readField_ehdr (h64 : 64 ≤ buf.length) {k : ℕ} (hk : k + 2 ≤ 64) :
    readField buf (.ofNat 64 k) 2 = pure (field buf k 2) := by
  have hto : (BitVec.ofNat 64 k).toNat = k := by
    rw [BitVec.toNat_ofNat]
    omega
  rw [readField_inside (by omega), hto]

/-- **A turn of the loop over the section headers.** -/
lemma ends_mappedName (hL : L.Ok) (hsize : buf.length < 2 ^ 63) (hstr : StrInside L buf) {i : ℕ}
    (hin : (L.ehdr buf).shoff.toNat + (i + 1) * L.shdrSize ≤ buf.length) (s : Loader) :
    Ends (mappedName L buf (L.ehdr buf).shoff (strOffs L buf) (nameTable L buf).1 i) s
      (fun _ s' => s' = s ∧ NameInside L buf i) (fun e _ => e = .outside ∧ ¬ NameInside L buf i) := by
  obtain ⟨hzero, hfirst, hoffset, -, -⟩ := hL.shdr
  rw [Nat.succ_mul, ← Nat.add_assoc] at hin
  obtain ⟨h, hh, hbase⟩ : ∃ h, (L.ehdr buf).shoff + .ofNat 64 (i * L.shdrSize) = h ∧
      h.toNat = (L.ehdr buf).shoff.toNat + i * L.shdrSize := by
    refine ⟨_, rfl, ?_⟩
    rw [BitVec.toNat_add, BitVec.toNat_ofNat]
    omega
  rw [← hbase] at hin
  have hread : readField buf (h + .ofNat 64 L.shName) 4 = pure (L.shdr buf h.toNat).name := by
    rw [hzero, BitVec.add_zero, readField_inside (by omega), Layout.shdr, hzero]
    rfl
  have hname : NameInside L buf i ↔
      0 ∈ buf.drop ((nameTable L buf).1 + .ofNat 64 (L.shdr buf h.toNat).name).toNat := by
    rw [NameInside, ← hbase]
  simp only [mappedName, hh, readWord_inside hstr.2, hread, readWord_header hsize hin hoffset,
    pure_bind]
  by_cases hinside : NameInside L buf i
  · rw [readString_inside (hname.mp hinside), pure_bind, ite_self]
    exact ⟨rfl, hinside⟩
  · rw [readString_outside (mt hname.mpr hinside)]
    exact ⟨rfl, hinside⟩

/-- **The loop over the section headers.** -/
lemma ends_names (hL : L.Ok) (hsize : buf.length < 2 ^ 63) (hstr : StrInside L buf)
    (hinside : ShInside L buf) (s : Loader) :
    Ends ((List.range (L.ehdr buf).shnum).forM
      (mappedName L buf (L.ehdr buf).shoff (strOffs L buf) (nameTable L buf).1)) s
      (fun _ s' => s' = s ∧ ∀ i < (L.ehdr buf).shnum, NameInside L buf i)
      (fun e _ => e = .outside ∧ ∃ i < (L.ehdr buf).shnum, ¬ NameInside L buf i) := by
  refine Ends.forM_range (I := fun k s' => s' = s ∧ ∀ i < k, NameInside L buf i) ?_ ?_
  · exact ⟨rfl, fun i hi => absurd hi (Nat.not_lt_zero i)⟩
  · rintro k s' hk ⟨rfl, hall⟩
    have hmul : (k + 1) * L.shdrSize ≤ (L.ehdr buf).shnum * L.shdrSize :=
      Nat.mul_le_mul_right _ hk
    refine (ends_mappedName hL hsize hstr ?_ s').mono ?_ ?_
    · exact Nat.le_trans (Nat.add_le_add_left hmul _) hinside
    · rintro - - ⟨rfl, hname⟩
      exact ⟨rfl, fun i hi => (Nat.lt_succ_iff_lt_or_eq.mp hi).elim (hall i) (· ▸ hname)⟩
    · rintro e - ⟨rfl, hname⟩
      exact ⟨rfl, k, hk, hname⟩

/-- A check whose sum has overflown, of something at the end of the address space. -/
lemma fits_overflown {a : U64} {n k len : ℕ} (hn : n < 65536) (hk : k ≤ 64) (hlen : len < 2 ^ 63)
    (hfits : (a + .ofNat 64 (n * k)).toNat ≤ len) (hout : ¬ a.toNat + n * k ≤ len) :
    n ≠ 0 ∧ len < a.toNat := by
  have hmul : n * k ≤ 65535 * 64 := Nat.mul_le_mul (Nat.le_of_lt_succ hn) hk
  rw [BitVec.toNat_add, BitVec.toNat_ofNat] at hfits
  refine ⟨?_, by omega⟩
  rintro rfl
  rw [Nat.zero_mul] at hfits hout
  omega

/-- A loop whose first turn fails. -/
lemma forM_range_throw {f : ℕ → MapM Unit} {n : ℕ} {e : Stop} (hn : n ≠ 0) (h : f 0 = throw e) :
    (List.range n).forM f = throw e := by
  obtain ⟨m, rfl⟩ := Nat.exists_eq_succ_of_ne_zero hn
  rw [List.range_succ_eq_map]
  show (f 0 >>= fun _ => _) = _
  rw [h]
  rfl

/-- The fields of the header of the names. -/
lemma readWord_names (h : StrInside L buf) :
    readWord L buf (strOffs L buf + .ofNat 64 L.shOffset) = pure (nameTable L buf).1 ∧
      readWord L buf (strOffs L buf + .ofNat 64 L.shSize) = pure (nameTable L buf).2 :=
  ⟨readWord_inside h.1, readWord_inside h.2⟩

/-- **`load_elf` from the section headers on.** -/
lemma ends_mappedSections (hL : L.Ok) (h64 : 64 ≤ buf.length) (hsize : buf.length < 2 ^ 63)
    (s : Loader) : Ends (mappedSections L buf) s (fun _ s' => s' = s ∧ SectionsBounded L buf)
      (fun e _ => e = .outside ∧ ¬ SectionsBounded L buf) := by
  obtain ⟨-, -, -, hshoff, hshnum, hshstrndx⟩ := hL.ehdr
  have hshoff : readWord L buf (.ofNat 64 L.shoff) = pure (L.ehdr buf).shoff :=
    readWord_ehdr h64 hshoff
  have hshnum : readField buf (.ofNat 64 L.shnum) 2 = pure (L.ehdr buf).shnum :=
    readField_ehdr h64 hshnum
  have hshstrndx : readField buf (.ofNat 64 L.shstrndx) 2 = pure (L.ehdr buf).shstrndx :=
    readField_ehdr h64 hshstrndx
  simp only [mappedSections, hshoff, hshnum, hshstrndx, pure_bind]
  by_cases hfits : ShFits L buf
  case neg =>
    rw [if_pos (Nat.lt_of_not_le hfits)]
    exact ⟨rfl, fun h => absurd h hfits⟩
  rw [if_neg (Nat.not_lt.mpr hfits)]
  by_cases hindex : (L.ehdr buf).shstrndx < (L.ehdr buf).shnum
  case neg =>
    rw [if_pos (Nat.le_of_not_lt hindex)]
    exact ⟨rfl, fun _ h => absurd h hindex⟩
  rw [if_neg (Nat.not_le.mpr hindex)]
  have hoffs : (L.ehdr buf).shoff + .ofNat 64 ((L.ehdr buf).shstrndx * L.shdrSize) =
      strOffs L buf := rfl
  rw [hoffs]
  by_cases hstr : StrInside L buf
  case neg =>
    have hnot : ¬ SectionsBounded L buf := fun h => hstr (h hfits hindex).1
    by_cases hoffset : (strOffs L buf + .ofNat 64 L.shOffset).toNat + L.word ≤ buf.length
    · have hsz : ¬ (strOffs L buf + .ofNat 64 L.shSize).toNat + L.word ≤ buf.length :=
        fun h => hstr ⟨hoffset, h⟩
      rw [readWord_inside hoffset, pure_bind, readWord_outside hsz]
      exact ⟨rfl, hnot⟩
    · rw [readWord_outside hoffset]
      exact ⟨rfl, hnot⟩
  rw [(readWord_names hstr).1, pure_bind, (readWord_names hstr).2, pure_bind]
  by_cases hnames : NamesFit L buf
  case neg =>
    rw [if_pos (Nat.lt_of_not_le hnames)]
    exact ⟨rfl, fun _ _ => ⟨hstr, fun h => absurd h hnames⟩⟩
  rw [if_neg (Nat.not_lt.mpr hnames)]
  by_cases hinside : ShInside L buf
  · refine (ends_names hL hsize hstr hinside s).mono ?_ ?_
    · rintro - - ⟨rfl, hall⟩
      exact ⟨rfl, fun _ _ => ⟨hstr, fun _ => ⟨hinside, hall⟩⟩⟩
    · rintro e - ⟨rfl, i, hi, hname⟩
      exact ⟨rfl, fun h => hname (((h hfits hindex).2 hnames).2 i hi)⟩
  -- the sum of the check has overflown, and the first name is looked for outside
  · have hnot : ¬ SectionsBounded L buf := fun h => hinside ((h hfits hindex).2 hnames).1
    have hnum : (L.ehdr buf).shnum < 65536 := field_two_lt _
    obtain ⟨hne, hout⟩ := fits_overflown hnum hL.shdr.2.2.2.2 hsize hfits hinside
    have hfirst : mappedName L buf (L.ehdr buf).shoff (strOffs L buf) (nameTable L buf).1 0 =
        throw .outside := by
      have hread : readField buf ((L.ehdr buf).shoff + .ofNat 64 (0 * L.shdrSize) +
          .ofNat 64 L.shName) 4 = throw .outside := by
        rw [hL.shdr.1, Nat.zero_mul, BitVec.add_zero, BitVec.add_zero, readField_outside]
        omega
      simp only [mappedName, hread, (readWord_names hstr).2, pure_bind]
      rfl
    rw [forM_range_throw hne hfirst, ends_throw]
    exact ⟨rfl, hnot⟩

/-! ### The whole file -/

/-- **How `load_elf` ends.** -/
theorem ends_mappedLoadElf (hL : L.Ok) (h64 : 64 ≤ buf.length) (hsize : buf.length < 2 ^ 63)
    (s : Loader) : Ends (mappedLoadElf L buf) s
      (fun _ s' => Bounded L buf ∧ (PhFits L buf → AllFit L buf (L.table buf) ∧ s' = loaded L buf s) ∧
        (¬ PhFits L buf → s' = s))
      (fun e _ => e = .assertion ∧ Bounded L buf ∧ PhFits L buf ∧ ¬ AllFit L buf (L.table buf) ∨
        e ≠ .assertion ∧ ¬ Bounded L buf) := by
  obtain ⟨hentry, hphoff, hphnum, -⟩ := hL.ehdr
  have hentry : readWord L buf (.ofNat 64 L.entry) = pure (L.ehdr buf).entry :=
    readWord_ehdr h64 hentry
  have hphoff : readWord L buf (.ofNat 64 L.phoff) = pure (L.ehdr buf).phoff :=
    readWord_ehdr h64 hphoff
  have hphnum : readField buf (.ofNat 64 L.phnum) 2 = pure (L.ehdr buf).phnum :=
    readField_ehdr h64 hphnum
  simp only [mappedLoadElf, hentry, hphoff, hphnum, pure_bind]
  by_cases hfits : PhFits L buf
  case neg =>
    rw [if_pos (Nat.lt_of_not_le hfits)]
    exact ⟨fun h => absurd h hfits, fun h => absurd h hfits, fun _ => rfl⟩
  rw [if_neg (Nat.not_lt.mpr hfits)]
  by_cases hinside : PhInside L buf
  · have his : ∀ i ∈ List.range (L.ehdr buf).phnum,
        (L.ehdr buf).phoff.toNat + (i + 1) * L.phdrSize ≤ buf.length := by
      intro i hi
      have hmul : (i + 1) * L.phdrSize ≤ (L.ehdr buf).phnum * L.phdrSize :=
        Nat.mul_le_mul_right _ (List.mem_range.mp hi)
      exact Nat.le_trans (Nat.add_le_add_left hmul _) hinside
    rw [ends_bind]
    show Ends ((List.range _).forM _ >>= _) { s with entry := (L.ehdr buf).entry } _ _
    rw [ends_bind]
    refine (ends_segments hL hsize _ his rfl).mono ?_ ?_
    · rintro - - ⟨rfl, hfit, hdata⟩
      refine (ends_mappedSections hL h64 hsize _).mono ?_ ?_
      · rintro - - ⟨rfl, hsec⟩
        exact ⟨fun _ => ⟨hinside, hdata, fun _ => hsec⟩, fun _ => ⟨hfit, rfl⟩, fun h => absurd hfits h⟩
      · rintro e - ⟨rfl, hsec⟩
        exact .inr ⟨by decide, fun h => hsec ((h hfits).2.2 hfit)⟩
    · rintro e - (⟨rfl, hfit, hdata⟩ | ⟨he, hdata⟩)
      · exact .inl ⟨rfl, fun _ => ⟨hinside, hdata, fun h => absurd h hfit⟩, hfits, hfit⟩
      · exact .inr ⟨he, fun h => hdata (h hfits).2.1⟩
  -- the sum of the check has overflown, and the first header is looked for outside
  · have hnum : (L.ehdr buf).phnum < 65536 := field_two_lt _
    obtain ⟨hne, hout⟩ := fits_overflown hnum hL.phdr.2.2.2.2.2 hsize hfits hinside
    have hfirst : mappedSegment L buf (L.ehdr buf).phoff 0 = throw .outside := by
      have hread : readField buf ((L.ehdr buf).phoff + .ofNat 64 (0 * L.phdrSize)) 4 =
          throw .outside := by
        rw [Nat.zero_mul, BitVec.add_zero, readField_outside]
        omega
      simp only [mappedSegment, hread]
      rfl
    rw [forM_range_throw hne hfirst]
    exact .inr ⟨by decide, fun h => hinside (h hfits).1⟩

end Reads

/-! ### `read_elf` -/

/-- The magic and the size decide which `load_elf` is called. -/
lemma dispatch_eq {α : Type} (buf : List Byte) (no : α) (load : Layout → α) :
    (if buf.length < elf64.ehdrSize then no
      else if ¬ (IsElfOf elf32 buf ∨ IsElfOf elf64 buf) then no
      else if IsElfOf elf32 buf then load elf32 else load elf64) =
    if Accepted buf then load (classOf buf) else no := by
  by_cases hlen : buf.length < elf64.ehdrSize
  · have hnot : ¬ Accepted buf := fun h => absurd hlen (Nat.not_lt.mpr h.1)
    rw [if_pos hlen, if_neg hnot]
  · by_cases hmagic : IsElfOf elf32 buf ∨ IsElfOf elf64 buf
    · have hacc : Accepted buf := ⟨Nat.le_of_not_lt hlen, hmagic⟩
      rw [if_neg hlen, if_neg (not_not.mpr hmagic), if_pos hacc, classOf, apply_ite load]
    · have hnot : ¬ Accepted buf := fun h => hmagic h.2
      rw [if_neg hlen, if_pos hmagic, if_neg hnot]

lemma mappedReadElf_eq (buf : List Byte) : mappedReadElf buf =
    if Accepted buf then (do
      mappedLoadElf (classOf buf) buf
      return 0) else pure (-1) :=
  dispatch_eq buf (pure (-1) : MapM ℤ) fun L => mappedLoadElf L buf >>= fun _ => pure 0

lemma readElf_eq_dispatch (buf : List Byte) (s : Loader) : readElf buf s =
    if Accepted buf then (loadElf (classOf buf) buf s).map fun s => (0, s) else some (-1, s) :=
  dispatch_eq buf (some (-1, s)) fun L => (loadElf L buf s).map fun s => (0, s)

lemma classOf_ok (buf : List Byte) : (classOf buf).Ok := by
  apply layout_ok
  unfold classOf
  split
  · exact .inl rfl
  · exact .inr rfl

/-- **How `read_elf` ends** on a file that is taken for an ELF file. -/
theorem ends_mappedReadElf (f : MappedFile) (h : Accepted f.bytes) (s : Loader) :
    Ends (mappedReadElf f.bytes) s
      (fun ret s' => ret = 0 ∧ Bounded (classOf f.bytes) f.bytes ∧
        (PhFits (classOf f.bytes) f.bytes → AllFit (classOf f.bytes) f.bytes
          ((classOf f.bytes).table f.bytes) ∧ s' = loaded (classOf f.bytes) f.bytes s) ∧
        (¬ PhFits (classOf f.bytes) f.bytes → s' = s))
      (fun e _ => e = .assertion ∧ Bounded (classOf f.bytes) f.bytes ∧
          PhFits (classOf f.bytes) f.bytes ∧
          ¬ AllFit (classOf f.bytes) f.bytes ((classOf f.bytes).table f.bytes) ∨
        e ≠ .assertion ∧ ¬ Bounded (classOf f.bytes) f.bytes) := by
  rw [mappedReadElf_eq, if_pos h]
  refine (ends_mappedLoadElf (classOf_ok _) h.1 f.size s).bind fun _ s' hs' => ?_
  exact ⟨rfl, hs'⟩

/-- **The section headers change nothing**: what is returned, and where an assertion fails, is as
`readElf` says. -/
theorem mappedReadElf_readElf (f : MappedFile) (s : Loader) : Ends (mappedReadElf f.bytes) s
    (fun ret s' => readElf f.bytes s = some (ret, s'))
    (fun e _ => e = .assertion → readElf f.bytes s = none) := by
  by_cases h : Accepted f.bytes
  · refine (ends_mappedReadElf f h s).mono ?_ ?_
    · rintro ret s' ⟨rfl, -, hfit, hnot⟩
      rw [readElf_eq_dispatch, if_pos h]
      by_cases hfits : PhFits (classOf f.bytes) f.bytes
      · obtain ⟨hall, rfl⟩ := hfit hfits
        rw [loadElf_loaded hfits, if_pos hall]
        rfl
      · rw [hnot hfits, loadElf, if_pos (Nat.lt_of_not_le hfits)]
        rfl
    · rintro e s' (⟨-, -, hfits, hall⟩ | ⟨hne, -⟩) he
      · rw [readElf_eq_dispatch, if_pos h, loadElf_loaded hfits, if_neg hall]
        rfl
      · exact absurd he hne
  · rw [mappedReadElf_eq, if_neg h, ends_pure, readElf_eq_dispatch, if_neg h]

/-! ### Well-formed files -/

namespace ElfFile

lemma classOf_eq (f : ElfFile) : classOf f.bytes = f.layout := by
  have hmagic := f.magic
  unfold classOf
  rcases f.isClass with h | h
  · rw [h] at hmagic ⊢
    exact if_pos hmagic
  · rw [h] at hmagic ⊢
    refine if_neg fun h32 => ?_
    have hcls := h32.2.symm.trans hmagic.2
    revert hcls
    decide

/-- Everything that is read of a well-formed file lies in it. -/
lemma bounded (f : ElfFile) : Bounded f.layout f.bytes := by
  refine fun _ => ⟨f.table, fun p hp hfilled => ?_, fun _ => f.sections⟩
  rw [← f.phdrs_eq] at hp
  obtain ⟨hfilesz, hmemsz, hin⟩ := f.ranges p (List.takeWhile_subset _ hp) hfilled.1
  exact ⟨by omega, hin⟩

/-- **Of a well-formed file nothing outside is read**, and what comes of it is what `readElf`
says. -/
theorem exists_mappedReadElf (f : ElfFile) (h64 : 64 ≤ f.bytes.length)
    (hsize : f.bytes.length < 2 ^ 63) (s : Loader) :
    ∃ s', mappedReadElf f.bytes s = .ok 0 s' ∧ readElf f.bytes s = some (0, s') := by
  have hacc : Accepted f.bytes := by
    have hmagic := f.magic
    refine ⟨h64, ?_⟩
    rcases f.isClass with h | h
    · exact .inl (h ▸ hmagic)
    · exact .inr (h ▸ hmagic)
  have hread := readElf_eq f h64 s
  have hsame := mappedReadElf_readElf ⟨f.bytes, hsize⟩ s
  have hends := ends_mappedReadElf ⟨f.bytes, hsize⟩ hacc s
  cases hmapped : mappedReadElf f.bytes s with
  | ok ret s' =>
    have hsame : readElf f.bytes s = some (ret, s') := by
      simpa only [Ends, EStateM.run, hmapped] using hsame
    obtain ⟨rfl, -⟩ := Prod.mk.inj (Option.some.inj (hsame.symm.trans hread))
    exact ⟨s', rfl, hsame⟩
  | error e s' =>
    exfalso
    simp only [Ends, EStateM.run, hmapped] at hsame hends
    rcases hends with ⟨he, -⟩ | ⟨-, hnot⟩
    · cases (hsame he).symm.trans hread
    · rw [classOf_eq] at hnot
      exact hnot f.bounded

end ElfFile

/-! ### No byte outside the file -/

/-- Every byte that is read lies in the file: the loader returns, or an assertion fails. -/
def ReadsInside (f : MappedFile) (s : Loader) : Prop :=
  Ends (mappedReadElf f.bytes) s (fun _ _ => True) fun e _ => e = .assertion

/-- **The bytes that are read lie in the file** exactly when the checks let nothing else be read. -/
theorem readsInside_iff (f : MappedFile) (h : Accepted f.bytes) (s : Loader) :
    ReadsInside f s ↔ Bounded (classOf f.bytes) f.bytes := by
  refine ends_iff (ends_mappedReadElf f h s) ?_ ?_
  · intro ret s' hs'
    exact iff_of_true trivial hs'.2.1
  · rintro e - (⟨he, hbounded, -⟩ | ⟨he, hnot⟩)
    · exact iff_of_true he hbounded
    · exact iff_of_false he hnot

/-- A file with one segment. -/
def sampleFile : MappedFile := ⟨sampleBytes 1, by decide⟩

theorem readsInside_sample : ReadsInside sampleFile .init :=
  (readsInside_iff sampleFile (by decide) .init).mpr (by decide +kernel)

/-- An ELF header of 64 bits with one program header, 56 bytes before the end of the address space. -/
def overflownFile : MappedFile where
  bytes := [0x7f, 0x45, 0x4c, 0x46, 2] ++ List.replicate 27 0 ++ toLe 8 (2 ^ 64 - 56) ++
    List.replicate 16 0 ++ toLe 2 1 ++ List.replicate 6 0
  size := by decide

/-- The sum of the check is 0. -/
theorem not_readsInside_overflown :
    ¬ ∀ f : MappedFile, Accepted f.bytes → ∀ s, ReadsInside f s := by
  intro h
  have hnot : ¬ Bounded (classOf overflownFile.bytes) overflownFile.bytes := by decide +kernel
  have hends := ends_mappedReadElf overflownFile (by decide) .init
  refine (ends_iff (P := False) hends ?_ ?_).mp (h overflownFile (by decide) .init)
  · intro ret s' hs'
    exact absurd hs'.2.1 hnot
  · rintro e - (⟨-, hbounded, -⟩ | ⟨he, -⟩)
    · exact absurd hbounded hnot
    · exact iff_of_false he id

end Cheshire.Sim.Elf
