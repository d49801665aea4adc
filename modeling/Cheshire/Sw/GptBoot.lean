import Cheshire.Sw.GptSpec

/-!
The partition the search finds, and the length of the boot copy.

The boot copy takes the LBAs the search returned.  A viable entry has at most `maxLbas` of them,
and so has the raw default; the recorded first entry has them only under `FirstFits`, because its
end may lie before its begin.
-/

namespace Cheshire.Sw.Gpt

open Lib

/-- The number of LBAs that fit in the SPM (`__BOOT_SPM_MAX_LBAS`). -/
def bootSpmMaxLbas : U64 := 2 * 48

/-- The type of a zero-stage loader partition (`__BOOT_ZSL_TYPE_GUID`). -/
def bootZslTypeGuid : Guid := (0x4CE4FD950269B26A, 0x622C41011494CF98)

section Search

variable {σ : Type} {disk : Mem 64} {read : GptRead σ}

/-- **The search returns the least viable entry**, whose LBAs number between `1` and `maxLbas`;
when there is none it returns `-1` and the recorded first entry, if the table has one. -/
theorem gptFindPartition_correct (h : Faithful disk read) (maxLbas : U64)
    (tguid pguid : Option Guid) (lbaBegin lbaEnd : U64) (s : DiskSt σ) :
    ∃ o s', (gptFindPartition read maxLbas tguid pguid lbaBegin lbaEnd).run s = .ok o s' ∧
      (∀ p, IsLeast (viableIdx disk maxLbas tguid pguid) p →
        o.partIdx = p ∧ o.lbaBegin = (part disk p).lbaBegin ∧ o.lbaEnd = (part disk p).lbaEnd ∧
          1 ≤ lbaCount o.lbaBegin o.lbaEnd ∧ lbaCount o.lbaBegin o.lbaEnd ≤ maxLbas.toNat) ∧
      (viableIdx disk maxLbas tguid pguid = ∅ → o.partIdx = -1 ∧
        if (header disk).count.toNat = 0 then o.lbaBegin = lbaBegin ∧ o.lbaEnd = lbaEnd
        else o.lbaBegin = (part disk 0).lbaBegin ∧
          o.lbaEnd = cMin (part disk 0).lbaEnd ((part disk 0).lbaBegin + maxLbas - 1)) := by
  obtain ⟨o, s', hrun, hspec, -⟩ := returns_iff.mp
    (returns_gptFindPartition (s := s) h maxLbas tguid pguid lbaBegin lbaEnd)
  refine ⟨o, s', hrun, fun p hp => ?_, fun hnone => ?_⟩
  · obtain ⟨h1, h2, h3⟩ := hspec.found p hp
    have hlt := BitVec.lt_def.mp hp.1.2.1
    rw [h2, h3, lbaCount]
    exact ⟨h1, rfl, rfl, by omega, by omega⟩
  · split
    · rename_i hz
      exact hspec.empty hz
    · rename_i hz
      exact hspec.fallback hnone (by omega)

/-- A disk with two entries: a partition too long to boot, and a zero-stage loader. -/
def sampleDisk : Mem 64 :=
  let m : Mem 64 := fun _ => 0
  let m := m.write 0x200 (toLe 8 0x5452415020494645)
  let m := m.write 0x248 (toLe 8 2 ++ toLe 4 2 ++ toLe 4 128)
  let m := m.write 0x420 (toLe 8 34 ++ toLe 8 1000)
  m.write 0x480 (toLe 8 0x4CE4FD950269B26A ++ toLe 8 0x622C41011494CF98 ++ toLe 16 0 ++
    toLe 8 2048 ++ toLe 8 2100)

/-- The search finds the loader of the sample disk. -/
theorem gptFindPartition_sampleDisk :
    ∃ o s', (gptFindPartition (diskRead sampleDisk) bootSpmMaxLbas (some bootZslTypeGuid) none
      0 0).run ⟨(), []⟩ = .ok o s' ∧ o.partIdx = 1 ∧ o.lbaBegin = 2048 ∧ o.lbaEnd = 2100 := by
  have hcount : (header sampleDisk).count.toNat = 2 := by decide
  have h₀ : ¬ Viable sampleDisk bootSpmMaxLbas (some bootZslTypeGuid) none 0 := by decide
  have h₁ : Viable sampleDisk bootSpmMaxLbas (some bootZslTypeGuid) none 1 := by decide
  have hleast : IsLeast (viableIdx sampleDisk bootSpmMaxLbas (some bootZslTypeGuid) none) 1 := by
    refine ⟨⟨by omega, h₁⟩, fun q hq => ?_⟩
    rcases Nat.eq_zero_or_pos q with rfl | hq'
    · exact absurd hq.2 h₀
    · exact hq'
  obtain ⟨o, s', hrun, hfound, -⟩ := gptFindPartition_correct (faithful_diskRead sampleDisk)
    bootSpmMaxLbas (some bootZslTypeGuid) none 0 0 ⟨(), []⟩
  obtain ⟨h1, h2, h3, -⟩ := hfound 1 hleast
  exact ⟨o, s', hrun, h1, h2.trans (by decide), h3.trans (by decide)⟩

end Search

/-! ### The boot copy -/

/-- **When the recorded first entry fits**: its end is not before its begin, or the chunk of
`maxLbas` from its begin wraps, or its end comes at most `maxLbas` after its begin once LBAs are
counted modulo `2 ^ 55`, the number of them a 64-bit byte address can tell apart. -/
def FirstFits (maxLbas : U64) (d : PartFields) : Prop :=
  d.lbaBegin ≤ d.lbaEnd ∨ 2 ^ 64 < d.lbaBegin.toNat + maxLbas.toNat ∨
    ∃ j ≤ maxLbas.toNat, d.lbaEnd.toNat + 1 ≡ d.lbaBegin.toNat + j [MOD 2 ^ 55]

/-- The byte length of a copy, in LBAs. -/
lemma toNat_copyLen (lbaBegin lbaEnd : U64) :
    (0x200 * (lbaEnd - lbaBegin + 1)).toNat =
      0x200 * ((lbaEnd.toNat + 1 + (2 ^ 64 - lbaBegin.toNat)) % 2 ^ 55) := by
  have hb := lbaBegin.isLt
  have he := lbaEnd.isLt
  simp only [BitVec.ofNat_eq_ofNat, BitVec.toNat_mul, BitVec.toNat_add, BitVec.toNat_sub,
    BitVec.toNat_ofNat]
  omega

/-- A range of at most `maxLbas` LBAs makes a short copy. -/
lemma copyLen_le_of_lt {maxLbas lbaBegin lbaEnd : U64} (h : lbaEnd - lbaBegin < maxLbas) :
    (0x200 * (lbaEnd - lbaBegin + 1)).toNat ≤ 0x200 * maxLbas.toNat := by
  rw [toNat_copyLen]
  rw [BitVec.lt_def, BitVec.toNat_sub] at h
  have hb := lbaBegin.isLt
  have he := lbaEnd.isLt
  omega

/-- **The copy of the recorded first entry.** -/
theorem copyLen_first_le_iff {maxLbas : U64} (hm : 1 ≤ maxLbas.toNat)
    (hmax : 0x200 * maxLbas.toNat < 2 ^ 64) (d : PartFields) :
    (0x200 * (cMin d.lbaEnd (d.lbaBegin + maxLbas - 1) - d.lbaBegin + 1)).toNat ≤
      0x200 * maxLbas.toNat ↔ FirstFits maxLbas d := by
  obtain ⟨b, e⟩ := d
  have hb := b.isLt
  have he := e.isLt
  -- where the chunk of `maxLbas` ends
  have hs : (b + maxLbas - 1).toNat = (b.toNat + (maxLbas.toNat - 1)) % 2 ^ 64 := by
    simp only [BitVec.ofNat_eq_ofNat, BitVec.toNat_sub, BitVec.toNat_add, BitVec.toNat_ofNat]
    omega
  rw [toNat_copyLen, toNat_cMin, hs]
  unfold FirstFits
  rw [BitVec.le_def]
  by_cases hle : b.toNat ≤ e.toNat
  · simp only [hle, true_or, iff_true]
    omega
  by_cases hwrap : 2 ^ 64 < b.toNat + maxLbas.toNat
  · simp only [hwrap, true_or, or_true, iff_true]
    omega
  have hmin : min e.toNat ((b.toNat + (maxLbas.toNat - 1)) % 2 ^ 64) = e.toNat := by omega
  simp only [hle, hwrap, false_or, hmin]
  constructor
  · intro h
    refine ⟨(e.toNat + 1 + (2 ^ 64 - b.toNat)) % 2 ^ 55, by omega, ?_⟩
    unfold Nat.ModEq
    omega
  · rintro ⟨j, hj, hmod⟩
    unfold Nat.ModEq at hmod
    omega

section Boot

variable {σ : Type} {disk : Mem 64} {read : GptRead σ} {s : DiskSt σ}

/-- **The last call of the boot** is the copy of the range the search returned, or of the raw
default on a disk without a signature. -/
theorem returns_gptBootPartElseRaw (h : Faithful disk read) (maxLbas : U64)
    (tguid pguid : Option Guid) (ptrs : BootPtrs) :
    Returns (gptBootPartElseRaw read maxLbas tguid pguid ptrs) s fun _ s' =>
      ∃ o : FindOut, (¬ Signed disk → o = ⟨0, 0, maxLbas - 1⟩) ∧
        (Signed disk → FindSpec disk maxLbas tguid pguid 0 (maxLbas - 1) o) ∧
        s'.calls.getLast? = some
          ⟨.ptr ptrs.codeBuf, 0x200 * o.lbaBegin, 0x200 * (o.lbaEnd - o.lbaBegin + 1), 0⟩ := by
  unfold gptBootPartElseRaw
  refine (returns_gptCheckSignature h).bind fun sig s₁ hsig => ?_
  have hcopy : ∀ (o : FindOut) (s₂ : DiskSt σ), Returns (checkRead read (.ptr ptrs.codeBuf)
      (0x200 * o.lbaBegin) (0x200 * (o.lbaEnd - o.lbaBegin + 1))) s₂ fun _ s' =>
        s'.calls.getLast? = some
          ⟨.ptr ptrs.codeBuf, 0x200 * o.lbaBegin, 0x200 * (o.lbaEnd - o.lbaBegin + 1), 0⟩ :=
    fun o s₂ => (returns_checkRead h _ _ _).mono fun _ s' hs' => by rw [hs'.2]; simp
  by_cases hs : Signed disk
  · rw [if_pos (hsig.1.mpr hs)]
    refine (returns_gptFindPartition h maxLbas tguid pguid 0 (maxLbas - 1)).bind fun o s₂ ho => ?_
    refine (hcopy o s₂).bind fun _ s' hs' => ?_
    exact ⟨o, fun hn => absurd hs hn, fun _ => ho.1, hs'⟩
  · rw [if_neg fun hsig' => hs (hsig.1.mp hsig')]
    refine (hcopy ⟨0, 0, maxLbas - 1⟩ s₁).bind fun _ s' hs' => ?_
    exact ⟨_, fun _ => rfl, fun hs' => absurd hs' hs, hs'⟩

/-- The boot ends with a read into the code buffer of at most `0x200 * maxLbas` bytes. -/
def BootCopyFits (read : GptRead σ) (maxLbas : U64) (tguid pguid : Option Guid) (ptrs : BootPtrs)
    (s : DiskSt σ) : Prop :=
  Returns (gptBootPartElseRaw read maxLbas tguid pguid ptrs) s fun _ s' =>
    ∃ c, s'.calls.getLast? = some c ∧ c.buf = .ptr ptrs.codeBuf ∧
      c.len.toNat ≤ 0x200 * maxLbas.toNat

/-- **The boot copy fits its buffer exactly when** the disk has no signature, or its table is
empty, or an entry is viable, or the first entry fits. -/
theorem bootCopyFits_iff (h : Faithful disk read) {maxLbas : U64} (hm : 1 ≤ maxLbas.toNat)
    (hmax : 0x200 * maxLbas.toNat < 2 ^ 64) (tguid pguid : Option Guid) (ptrs : BootPtrs)
    (s : DiskSt σ) :
    BootCopyFits read maxLbas tguid pguid ptrs s ↔
      ¬ Signed disk ∨ (header disk).count.toNat = 0 ∨
        (∃ p < (header disk).count.toNat, Viable disk maxLbas tguid pguid p) ∨
        FirstFits maxLbas (part disk 0) := by
  obtain ⟨l, s', hrun, o, hraw, hfind, hlast⟩ := returns_iff.mp
    (returns_gptBootPartElseRaw (s := s) h maxLbas tguid pguid ptrs)
  have hfits : BootCopyFits read maxLbas tguid pguid ptrs s ↔
      (0x200 * (o.lbaEnd - o.lbaBegin + 1)).toNat ≤ 0x200 * maxLbas.toNat := by
    unfold BootCopyFits Returns
    simp [hrun, hlast]
  have hdef : (0x200 * (maxLbas - 1 - 0 + 1)).toNat ≤ 0x200 * maxLbas.toNat := by
    refine copyLen_le_of_lt ?_
    simp only [BitVec.lt_def, BitVec.ofNat_eq_ofNat, BitVec.toNat_sub, BitVec.toNat_ofNat]
    omega
  rw [hfits]
  by_cases hs : Signed disk
  swap
  · simp only [hs, not_false_eq_true, true_or, iff_true, hraw hs]
    exact hdef
  have hspec := hfind hs
  rcases Nat.eq_zero_or_pos (header disk).count.toNat with hz | hpos
  · obtain ⟨-, h1, h2⟩ := hspec.empty hz
    simp only [hz, true_or, or_true, iff_true, h1, h2]
    exact hdef
  by_cases hvia : ∃ p < (header disk).count.toNat, Viable disk maxLbas tguid pguid p
  · simp only [hvia, true_or, or_true, iff_true]
    have hleast : IsLeast (viableIdx disk maxLbas tguid pguid) (Nat.find hvia) :=
      ⟨Nat.find_spec hvia, fun q hq => Nat.find_min' hvia hq⟩
    obtain ⟨-, h1, h2⟩ := hspec.found _ hleast
    rw [h1, h2]
    exact copyLen_le_of_lt (Nat.find_spec hvia).2.1
  · have hnone : viableIdx disk maxLbas tguid pguid = ∅ :=
      Set.eq_empty_of_forall_notMem fun q hq => hvia ⟨q, hq⟩
    obtain ⟨-, h1, h2⟩ := hspec.fallback hnone hpos
    simp only [hs, hvia, not_true_eq_false, Nat.pos_iff_ne_zero.mp hpos, false_or, h1, h2]
    exact copyLen_first_le_iff hm hmax _

/-- A disk whose only entry ends before it begins. -/
def reversedDisk : Mem 64 :=
  let m : Mem 64 := fun _ => 0
  let m := m.write 0x200 (toLe 8 0x5452415020494645)
  let m := m.write 0x248 (toLe 8 2 ++ toLe 4 1 ++ toLe 4 128)
  m.write 0x420 (toLe 8 100 ++ toLe 8 5)

/-- The pointers of a boot from the SD card. -/
def samplePtrs : BootPtrs := ⟨0x2000400, 0x1000FF00, 0x10000000, 0x2001800⟩

/-- The boot copy of the sample disk fits. -/
theorem bootCopyFits_sampleDisk :
    BootCopyFits (diskRead sampleDisk) bootSpmMaxLbas (some bootZslTypeGuid) none samplePtrs
      ⟨(), []⟩ :=
  (bootCopyFits_iff (faithful_diskRead sampleDisk) (by decide) (by decide) _ _ _ _).mpr
    (.inr (.inr (.inl ⟨1, by decide, by decide⟩)))

/-- The boot from the reversed disk asks for almost `2 ^ 64` bytes. -/
theorem not_bootCopyFits_reversedDisk :
    ¬ BootCopyFits (diskRead reversedDisk) bootSpmMaxLbas (some bootZslTypeGuid) none samplePtrs
      ⟨(), []⟩ := by
  have hcalls : (match (gptBootPartElseRaw (diskRead reversedDisk) bootSpmMaxLbas
      (some bootZslTypeGuid) none samplePtrs).run ⟨(), []⟩ with
      | .ok _ s' => s'.calls.getLast?
      | .error _ _ => none) =
      some ⟨.ptr 0x10000000, 0x200 * 100, BitVec.ofNat 64 (2 ^ 64 - 0x200 * 94), 0⟩ := by
    decide +kernel
  intro hfits
  obtain ⟨l, s', hrun, c, hlast, -, hlen⟩ := returns_iff.mp hfits
  rw [hrun] at hcalls
  obtain rfl := Option.some.inj (hlast.symm.trans hcalls)
  revert hlen
  decide

end Boot

end Cheshire.Sw.Gpt
