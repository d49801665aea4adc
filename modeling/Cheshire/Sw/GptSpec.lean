import Cheshire.Sw.Gpt
import Mathlib.Order.Bounds.Basic
import Mathlib.Data.Nat.ModEq

/-!
What the GPT reader does on a disk.

The disk is a byte memory over 64-bit addresses, and the callback is faithful to it.  An entry of
the partition table is *viable* when it is short enough and one of the GUIDs asked for is its own;
the search returns the first viable entry, and records the first entry of the table when there is
none.
-/

namespace Cheshire.Sw.Gpt

open Lib

/-! ### A disk -/

/-- The callback never fails and returns what the disk holds. -/
structure Faithful {σ : Type} (disk : Mem 64) (read : GptRead σ) : Prop where
  ret : ∀ addr len dev, (read addr len dev).1.1 = 0
  bytes : ∀ (addr len : U64) dev, ∀ i < len.toNat,
    (read addr len dev).1.2 i = disk (addr + BitVec.ofNat 64 i)

/-- The callback of a disk without a state. -/
def diskRead (disk : Mem 64) : GptRead Unit :=
  fun addr _ _ => ((0, fun i => disk (addr + BitVec.ofNat 64 i)), ())

theorem faithful_diskRead (disk : Mem 64) : Faithful disk (diskRead disk) :=
  ⟨fun _ _ _ => rfl, fun _ _ _ _ _ => rfl⟩

variable (disk : Mem 64)

/-- The 64-bit word at an address of the disk. -/
def disk64 (a : U64) : U64 := le64 (fun i => disk (a + BitVec.ofNat 64 i)) 0

/-- The 32-bit word at an address of the disk. -/
def disk32 (a : U64) : U32 := le32 (fun i => disk (a + BitVec.ofNat 64 i)) 0

/-- The disk carries the GPT signature. -/
def Signed : Prop := disk64 disk 0x200 = 0x5452415020494645

/-- The header of the disk. -/
def header : HdrFields := ⟨disk64 disk 0x248, disk32 disk 0x250, disk32 disk 0x254⟩

/-- The extent of the entry `p`. -/
def part (p : ℕ) : PartFields :=
  ⟨disk64 disk (peOffs (header disk) p + 0x20), disk64 disk (peOffs (header disk) p + 0x28)⟩

/-- The type GUID of the entry `p`. -/
def typeGuid (p : ℕ) : Guid :=
  (disk64 disk (peOffs (header disk) p), disk64 disk (peOffs (header disk) p + 8))

/-- The partition GUID of the entry `p`. -/
def partGuid (p : ℕ) : Guid :=
  (disk64 disk (peOffs (header disk) p + 0x10), disk64 disk (peOffs (header disk) p + 0x18))

/-- The number of LBAs from a begin to an inclusive end. -/
def lbaCount (lbaBegin lbaEnd : U64) : ℕ := (lbaEnd - lbaBegin).toNat + 1

/-- **The entries the search is after**: at most `maxLbas` long, and of the type or the identity
asked for. -/
def Viable (maxLbas : U64) (tguid pguid : Option Guid) (p : ℕ) : Prop :=
  (part disk p).lbaEnd - (part disk p).lbaBegin < maxLbas ∧
    (tguid = some (typeGuid disk p) ∨ pguid = some (partGuid disk p))

instance (maxLbas : U64) (tguid pguid : Option Guid) :
    DecidablePred (Viable disk maxLbas tguid pguid) := fun p => by unfold Viable; infer_instance

/-- The indices of the viable entries. -/
def viableIdx (maxLbas : U64) (tguid pguid : Option Guid) : Set ℕ :=
  {p | p < (header disk).count.toNat ∧ Viable disk maxLbas tguid pguid p}

variable {disk}

/-- Bytes of a read, as they stand on the disk. -/
lemma map_bytes {d : ℕ → Byte} {addr : U64} {n o k : ℕ}
    (h : ∀ i < n, d i = disk (addr + BitVec.ofNat 64 i)) (ho : o + k ≤ n) :
    (List.range k).map (fun i => d (o + i)) =
      (List.range k).map fun i => disk (addr + BitVec.ofNat 64 o + BitVec.ofNat 64 (0 + i)) := by
  refine List.map_congr_left fun i hi => ?_
  have hi' := List.mem_range.mp hi
  rw [h _ (by omega), BitVec.ofNat_add, ← BitVec.add_assoc, Nat.zero_add]

lemma le64_of_bytes {d : ℕ → Byte} {addr : U64} {n o : ℕ}
    (h : ∀ i < n, d i = disk (addr + BitVec.ofNat 64 i)) (ho : o + 8 ≤ n) :
    le64 d o = disk64 disk (addr + BitVec.ofNat 64 o) :=
  congrArg (fun l => BitVec.ofNat 64 (ofLe l)) (map_bytes h ho)

lemma le32_of_bytes {d : ℕ → Byte} {addr : U64} {n o : ℕ}
    (h : ∀ i < n, d i = disk (addr + BitVec.ofNat 64 i)) (ho : o + 4 ≤ n) :
    le32 d o = disk32 disk (addr + BitVec.ofNat 64 o) :=
  congrArg (fun l => BitVec.ofNat 32 (ofLe l)) (map_bytes h ho)

@[simp] lemma FindSt.record_p (v : FindSt) (maxLbas : U64) (dim : PartFields) :
    (v.record maxLbas dim).p = v.p := by
  unfold FindSt.record
  split <;> rfl

@[simp] lemma FindSt.record_dim (v : FindSt) (maxLbas : U64) (dim : PartFields) :
    (v.record maxLbas dim).dim = dim := by
  unfold FindSt.record
  split <;> rfl

/-! ### One call -/

section Calls

variable {σ : Type} {read : GptRead σ} {s : DiskSt σ}

/-- The calls made between two states all filled stack variables. -/
def OnStack (s s' : DiskSt σ) : Prop :=
  ∃ cs, s'.calls = s.calls ++ cs ∧ ∀ c ∈ cs, ∀ p, c.buf ≠ .ptr p

lemma OnStack.refl (s : DiskSt σ) : OnStack s s := ⟨[], by simp, by simp⟩

lemma OnStack.trans {s₁ s₂ s₃ : DiskSt σ} (h : OnStack s₁ s₂) (h' : OnStack s₂ s₃) :
    OnStack s₁ s₃ := by
  obtain ⟨cs, h1, h2⟩ := h
  obtain ⟨cs', h1', h2'⟩ := h'
  refine ⟨cs ++ cs', by rw [h1', h1, List.append_assoc], fun c hc => ?_⟩
  rcases List.mem_append.mp hc with hc | hc
  · exact h2 c hc
  · exact h2' c hc

@[simp] lemma returns_callRead {buf : Buf} {addr len : U64}
    {Q : CInt × (ℕ → Byte) → DiskSt σ → Prop} :
    Returns (callRead read buf addr len) s Q ↔ Q (read addr len s.dev).1
      ⟨(read addr len s.dev).2, s.calls ++ [⟨buf, addr, len, (read addr len s.dev).1.1⟩]⟩ :=
  Iff.rfl

variable (h : Faithful disk read)
include h

/-- A checked call of a faithful callback returns the bytes of the disk, and is recorded. -/
theorem returns_checkRead (buf : Buf) (addr len : U64) :
    Returns (checkRead read buf addr len) s fun d s' =>
      (∀ i < len.toNat, d i = disk (addr + BitVec.ofNat 64 i)) ∧
        s'.calls = s.calls ++ [⟨buf, addr, len, 0⟩] := by
  unfold checkRead
  simp only [returns_bind, returns_callRead, returns_checkCall, returns_pure]
  exact ⟨h.ret _ _ _, h.bytes _ _ _, by rw [h.ret]⟩

/-- A checked call that fills a stack variable. -/
theorem returns_checkRead_stack (buf : Buf) (hb : ∀ p, buf ≠ .ptr p) (addr len : U64) :
    Returns (checkRead read buf addr len) s fun d s' =>
      (∀ i < len.toNat, d i = disk (addr + BitVec.ofNat 64 i)) ∧ OnStack s s' := by
  refine (returns_checkRead h buf addr len).mono fun d s' hd => ⟨hd.1, _, hd.2, ?_⟩
  intro c hc
  rw [List.mem_singleton.mp hc]
  exact hb

theorem returns_gptCheckSignature :
    Returns (gptCheckSignature read) s fun sig s' =>
      (sig = true ↔ Signed disk) ∧ OnStack s s' := by
  unfold gptCheckSignature
  simp only [returns_bind, returns_callRead, h.ret, ne_eq, not_true_eq_false, if_false,
    returns_pure]
  refine ⟨?_, [_], rfl, by simp⟩
  rw [le64_of_bytes (h.bytes _ _ _) (by decide : (0 : ℕ) + 8 ≤ (8 : U64).toNat), beq_iff_eq,
    BitVec.ofNat_eq_ofNat, BitVec.add_zero]
  rfl

theorem returns_checkGuid (g : Option Guid) (offs : U64) :
    Returns (checkGuid read g offs) s fun b s' =>
      (b = true ↔ g = some (disk64 disk offs, disk64 disk (offs + 8))) ∧ OnStack s s' := by
  cases g with
  | none => exact ⟨by simp, OnStack.refl s⟩
  | some g =>
    obtain ⟨g₁, g₂⟩ := g
    refine (returns_checkRead_stack h .guid (by simp) offs 16).bind
      fun d s' hd => ⟨?_, hd.2⟩
    have h₀ : le64 d 0 = disk64 disk offs := by
      simpa using le64_of_bytes hd.1 (by decide : (0 : ℕ) + 8 ≤ (16 : U64).toNat)
    have h₈ : le64 d 8 = disk64 disk (offs + 8) :=
      le64_of_bytes hd.1 (by decide : (8 : ℕ) + 8 ≤ (16 : U64).toNat)
    rw [h₀, h₈, Bool.and_eq_true, beq_iff_eq, beq_iff_eq, Option.some.injEq, Prod.mk.injEq]
    exact ⟨fun e => ⟨e.1.symm, e.2.symm⟩, fun e => ⟨e.1.symm, e.2.symm⟩⟩

/-! ### The search -/

/-- **One turn of the loop** leaves it exactly at a viable entry. -/
theorem returns_findBody (maxLbas : U64) (tguid pguid : Option Guid) (v : FindSt) :
    Returns (findBody read (header disk) maxLbas tguid pguid v) s fun r s' =>
      (r.1 = true ↔ Viable disk maxLbas tguid pguid v.p) ∧ r.2 = v.record maxLbas (part disk v.p) ∧
        OnStack s s' := by
  unfold findBody
  refine (returns_checkRead_stack h .dim (by simp) _ 16).bind fun d s₁ hd => ?_
  have hdim : partFields d = part disk v.p := by
    have h₀ := le64_of_bytes hd.1 (by decide : (0 : ℕ) + 8 ≤ (16 : U64).toNat)
    have h₈ := le64_of_bytes hd.1 (by decide : (8 : ℕ) + 8 ≤ (16 : U64).toNat)
    rw [BitVec.ofNat_eq_ofNat, BitVec.add_zero] at h₀
    rw [BitVec.add_assoc] at h₈
    rw [part, partFields, h₀, h₈]
    rfl
  simp only [hdim, FindSt.record_dim, FindSt.record_p, ge_iff_le]
  by_cases hfit : maxLbas ≤ (part disk v.p).lbaEnd - (part disk v.p).lbaBegin
  · rw [if_pos hfit, returns_pure]
    refine ⟨?_, rfl, hd.2⟩
    unfold Viable
    simp [BitVec.not_lt.mpr hfit]
  rw [if_neg hfit]
  have hlt := BitVec.not_le.mp hfit
  refine (returns_checkGuid h tguid _).bind fun b₁ s₂ h₁ => ?_
  by_cases hb₁ : b₁ = true
  · rw [if_pos hb₁, returns_pure]
    exact ⟨by simpa using ⟨hlt, .inl (h₁.1.mp hb₁)⟩, rfl, hd.2.trans h₁.2⟩
  rw [if_neg hb₁]
  refine (returns_checkGuid h pguid _).bind fun b₂ s₃ h₂ => ?_
  have hg₂ : (disk64 disk (peOffs (header disk) v.p + 0x10),
      disk64 disk (peOffs (header disk) v.p + 0x10 + 8)) = partGuid disk v.p := by
    rw [BitVec.add_assoc]
    rfl
  rw [hg₂] at h₂
  have hno : tguid ≠ some (typeGuid disk v.p) := fun e => hb₁ (h₁.1.mpr e)
  have hst := (hd.2.trans h₁.2).trans h₂.2
  by_cases hb₂ : b₂ = true
  · rw [if_pos hb₂, returns_pure]
    exact ⟨by simpa using ⟨hlt, .inr (h₂.1.mp hb₂)⟩, rfl, hst⟩
  · rw [if_neg hb₂, returns_pure]
    refine ⟨?_, rfl, hst⟩
    have hno' : pguid ≠ some (partGuid disk v.p) := fun e => hb₂ (h₂.1.mpr e)
    simp [Viable, hno, hno']

/-- The variables at the end of the loop: at the first viable entry from `p` on, or past the last
entry, the first entry being recorded on the way. -/
structure Searched (disk : Mem 64) (maxLbas : U64) (tguid pguid : Option Guid) (n : ℕ)
    (v v' : FindSt) : Prop where
  lo : v.p ≤ v'.p
  hi : v'.p ≤ v.p + n
  skipped : ∀ q, v.p ≤ q → q < v'.p → ¬ Viable disk maxLbas tguid pguid q
  found : v'.p < v.p + n → Viable disk maxLbas tguid pguid v'.p ∧ v'.dim = part disk v'.p
  first : v.p = 0 → 0 < n → v'.lbaBegin = (part disk 0).lbaBegin ∧
    v'.lbaEnd = cMin (part disk 0).lbaEnd ((part disk 0).lbaBegin + maxLbas - 1)
  rest : 0 < v.p ∨ n = 0 → v'.lbaBegin = v.lbaBegin ∧ v'.lbaEnd = v.lbaEnd

/-- **The search loop**, by induction on the entries to go. -/
theorem returns_findLoop (maxLbas : U64) (tguid pguid : Option Guid) (n : ℕ) (v : FindSt)
    (s : DiskSt σ) :
    Returns (findLoop read (header disk) maxLbas tguid pguid n v) s fun v' s' =>
      Searched disk maxLbas tguid pguid n v v' ∧ OnStack s s' := by
  induction n generalizing v s with
  | zero =>
    rw [findLoop, returns_pure]
    refine ⟨⟨le_rfl, le_rfl, fun q h1 h2 => by omega, fun h1 => by omega, fun _ h1 => by omega,
      fun _ => ⟨rfl, rfl⟩⟩, OnStack.refl s⟩
  | succ n ih =>
    rw [findLoop]
    refine (returns_findBody h maxLbas tguid pguid v).bind fun r s₁ hr => ?_
    obtain ⟨brk, v₁⟩ := r
    obtain ⟨hbrk, rfl, hs₁⟩ := hr
    have hfirst : v.p = 0 → (v.record maxLbas (part disk v.p)).lbaBegin = (part disk 0).lbaBegin ∧
        (v.record maxLbas (part disk v.p)).lbaEnd =
          cMin (part disk 0).lbaEnd ((part disk 0).lbaBegin + maxLbas - 1) := by
      intro hp
      simp [FindSt.record, hp]
    have hrest : 0 < v.p → (v.record maxLbas (part disk v.p)).lbaBegin = v.lbaBegin ∧
        (v.record maxLbas (part disk v.p)).lbaEnd = v.lbaEnd := by
      intro hp
      simp [FindSt.record, Nat.pos_iff_ne_zero.mp hp]
    by_cases hb : brk = true
    · simp only [hb, if_true, returns_pure]
      refine ⟨⟨by simp, by simp, fun q h1 h2 => ?_, fun _ => ?_, fun hp _ => hfirst hp,
        fun hp => hrest (by omega)⟩, hs₁⟩
      · rw [FindSt.record_p] at h2
        omega
      · rw [FindSt.record_p, FindSt.record_dim]
        exact ⟨hbrk.mp hb, rfl⟩
    · simp only [hb, if_false, Bool.false_eq_true]
      refine (ih _ s₁).mono fun v' s' hv' => ⟨?_, hs₁.trans hv'.2⟩
      obtain ⟨h1, h2, h3, h4, h5, h6⟩ := hv'.1
      simp only [FindSt.record_p] at h1 h2 h3 h4 h5 h6
      have hkept := h6 (.inl (by omega))
      refine ⟨by omega, by omega, fun q hq hq' => ?_, fun hlt => h4 (by omega), fun hp _ => ?_,
        fun hp => ?_⟩
      · rcases Nat.eq_or_lt_of_le hq with rfl | hq
        · exact fun hv => hb (hbrk.mpr hv)
        · exact h3 q hq hq'
      · rw [hkept.1, hkept.2]
        exact hfirst hp
      · rw [hkept.1, hkept.2]
        exact hrest (by omega)

/-- What the search returns on a disk. -/
structure FindSpec (disk : Mem 64) (maxLbas : U64) (tguid pguid : Option Guid)
    (lbaBegin lbaEnd : U64) (o : FindOut) : Prop where
  found : ∀ p, IsLeast (viableIdx disk maxLbas tguid pguid) p →
    o.partIdx = p ∧ o.lbaBegin = (part disk p).lbaBegin ∧ o.lbaEnd = (part disk p).lbaEnd
  fallback : viableIdx disk maxLbas tguid pguid = ∅ → 0 < (header disk).count.toNat →
    o.partIdx = -1 ∧ o.lbaBegin = (part disk 0).lbaBegin ∧
      o.lbaEnd = cMin (part disk 0).lbaEnd ((part disk 0).lbaBegin + maxLbas - 1)
  empty : (header disk).count.toNat = 0 →
    o.partIdx = -1 ∧ o.lbaBegin = lbaBegin ∧ o.lbaEnd = lbaEnd

/-- **The search, on a disk.** -/
theorem returns_gptFindPartition (maxLbas : U64) (tguid pguid : Option Guid)
    (lbaBegin lbaEnd : U64) :
    Returns (gptFindPartition read maxLbas tguid pguid lbaBegin lbaEnd) s fun o s' =>
      FindSpec disk maxLbas tguid pguid lbaBegin lbaEnd o ∧ OnStack s s' := by
  unfold gptFindPartition
  refine (returns_checkRead_stack h .hf (by simp) _ 16).bind fun d s₁ hd => ?_
  have hhdr : hdrFields d = header disk := by
    rw [hdrFields, le64_of_bytes hd.1 (by decide : (0 : ℕ) + 8 ≤ (16 : U64).toNat),
      le32_of_bytes hd.1 (by decide : (8 : ℕ) + 4 ≤ (16 : U64).toNat),
      le32_of_bytes hd.1 (by decide : (12 : ℕ) + 4 ≤ (16 : U64).toNat)]
    rfl
  simp only [hhdr]
  refine (returns_findLoop h maxLbas tguid pguid _ _ s₁).bind fun v s₂ hv => ?_
  have hst := hd.2.trans hv.2
  obtain ⟨-, hhi, hskip, hfound, hfirst, hkeep⟩ := hv.1
  simp only [Nat.zero_add] at hhi hskip hfound hfirst hkeep
  by_cases hp : v.p = (header disk).count.toNat
  · -- the loop ran through: no entry is viable
    have hnone : viableIdx disk maxLbas tguid pguid = ∅ :=
      Set.eq_empty_of_forall_notMem fun q hq => hskip q (Nat.zero_le q) (hp ▸ hq.1) hq.2
    simp only [hp, ne_eq, not_true_eq_false, if_false, returns_pure]
    refine ⟨⟨fun p hleast => ?_, fun _ hpos => ⟨rfl, hfirst trivial hpos⟩,
      fun hz => ⟨rfl, hkeep (.inr hz)⟩⟩, hst⟩
    exact absurd hleast.1 (by simp [hnone])
  · -- the loop was left at a viable entry, the least one
    have hlt : v.p < (header disk).count.toNat := by omega
    obtain ⟨hvia, hdim⟩ := hfound hlt
    have hleast : IsLeast (viableIdx disk maxLbas tguid pguid) v.p :=
      ⟨⟨hlt, hvia⟩, fun q hq => Nat.not_lt.mp fun hqp => hskip q (Nat.zero_le q) hqp hq.2⟩
    simp only [ne_eq, hp, not_false_eq_true, if_true, returns_pure, hdim]
    refine ⟨⟨fun p hp' => ?_, fun hnone _ => ?_, fun hz => by omega⟩, hst⟩
    · rw [hleast.unique hp']
      exact ⟨rfl, rfl, rfl⟩
    · exact absurd hleast.1 (by simp [hnone])

end Calls

end Cheshire.Sw.Gpt
