import Cheshire.Sw.Gpt

/-!
The zero-stage loader (`zsl.c`): on a GPT disk it copies the device tree and the firmware to DRAM
through the read function of the boot ROM, and then calls the firmware.  The search for a partition
checks every read, and the copy of its contents checks none.
-/

namespace Cheshire.Sw.Zsl

open Lib Gpt

/-! ### The loader -/

/-- What a relocated read works on: the device, and the global pointer. -/
structure Relocated (σ : Type) where
  dev : σ
  gp : U64

section Code

variable {σ : Type}

/-- `gprw` gives the global pointer, and exchanges it unless `gp` is null. -/
def gprw (gp : U64) (s : Relocated σ) : U64 × Relocated σ :=
  (s.gp, if gp ≠ 0 then { s with gp } else s)

/-- `grread`: the foreign read procedure, which depends on the global pointer, is called with
`rgp`. -/
def grread (rread : U64 → GptRead σ) (rgp : U64) : GptRead (Relocated σ) := fun addr len s =>
  let (zslGp, s) := gprw rgp s
  let ((ret, d), dev) := rread s.gp addr len s.dev
  let ret : U64 := ret.signExtend 64
  let (_, s) := gprw zslGp { s with dev }
  ((ret.setWidth 32, d), s)

/-- The arguments of `load_part_or_spin` behind `priv`. -/
structure Part where
  pguid : Guid
  dst : U64
  name : String
  maxLbas : U64

/-- `__BOOT_ZSL_DTB`. -/
def bootZslDtb : U64 := 0x8080_0000

/-- `__BOOT_ZSL_FW`. -/
def bootZslFw : U64 := 0x8000_0000

/-- The device tree, of type `__BOOT_DTB_TYPE_GUID`. -/
def deviceTree : Part := ⟨(0x42DE2AEFBA442F61, 0x9DCB3A5DD7E43392), bootZslDtb, "device tree", 64⟩

/-- The firmware, of type `__BOOT_FW_TYPE_GUID`. -/
def firmware : Part := ⟨(0x4B0D3F5B99EC86DA, 0x59F8A5CFBAC44B8F), bootZslFw, "firmware", 8192⟩

/-- What is printed before the loader spins: "[ZSL] Error finding" or "[ZSL] No", and the
arguments. -/
structure Caught where
  what : String
  part : Part

/-- A function of the loader, which may spin. -/
abbrev ZM (S α : Type) := EStateM Caught S α

/-- What `lba_begin` and `lba_end` hold before they are written. -/
structure Stack where
  lbaBegin : U64
  lbaEnd : U64

/-- The search of `load_part_or_spin`; the GUID goes to the type GUID of `gpt_find_partition`. -/
def findPart (read : GptRead σ) (part : Part) (st : Stack) : CM (DiskSt σ) FindOut :=
  gptFindPartition read part.maxLbas (some part.pguid) none st.lbaBegin st.lbaEnd

/-- The copy of `load_part_or_spin`. -/
def copyPart (read : GptRead σ) (part : Part) (v : FindOut) : CM (DiskSt σ) (CInt × (ℕ → Byte)) :=
  callRead read (.ptr part.dst) (0x200 * v.lbaBegin) (0x200 * (v.lbaEnd - v.lbaBegin + 1))

/-- `load_part_or_spin`.  The code of the copy is dropped. -/
def loadPartOrSpin (read : GptRead σ) (part : Part) (st : Stack) : ZM (DiskSt σ) Unit := fun s =>
  match findPart read part st s with
  | .error _ s => .error ⟨"Error finding", part⟩ s
  | .ok v s =>
    if v.partIdx < 0 then .error ⟨"No", part⟩ s
    else
      match copyPart read part v s with
      | .ok _ s => .ok () s
      | .error _ s => .ok () s

/-- The scratch registers that `main` reads. -/
structure Regs where
  scratch0 : U32
  scratch1 : U32
  scratch3 : U32

/-- The call of the payload. -/
structure Payload where
  fw : U64
  args : U64 × U64 × U64

/-- `main`, of the functions that lie at each address: they take the global pointer and `priv`.  The
measurement of the core frequency and what is printed are left out. -/
def main (regs : Regs) (fns : (fn gp priv : U64) → GptRead σ) (dtbSt fwSt : Stack) :
    ZM (DiskSt (Relocated σ)) Payload := do
  let rgp := regs.scratch3.setWidth 64
  let read := regs.scratch0
  let priv := regs.scratch1.setWidth 64
  -- a GPT disk boot
  if read &&& 1 ≠ 0 then
    let rread := fun gp => fns ((read &&& ~~~1).setWidth 64) gp priv
    loadPartOrSpin (grread rread rgp) deviceTree dtbSt
    loadPartOrSpin (grread rread rgp) firmware fwSt
  pure ⟨bootZslFw, 0, bootZslDtb, 0⟩

end Code

/-! ### What a search and a copy call -/

section Calls

variable {σ α : Type} {read : GptRead σ} {s : DiskSt σ}

/-- The calls made between two states, of which each has the property. -/
def Called (P : ReadCall → Prop) (s s' : DiskSt σ) : Prop :=
  ∃ cs, s'.calls = s.calls ++ cs ∧ ∀ c ∈ cs, P c

lemma Called.refl (P : ReadCall → Prop) (s : DiskSt σ) : Called P s s := ⟨[], by simp, by simp⟩

lemma Called.trans {P : ReadCall → Prop} {s₁ s₂ s₃ : DiskSt σ} (h : Called P s₁ s₂)
    (h' : Called P s₂ s₃) : Called P s₁ s₃ := by
  obtain ⟨cs, hcs, hP⟩ := h
  obtain ⟨cs', hcs', hP'⟩ := h'
  refine ⟨cs ++ cs', by rw [hcs', hcs, List.append_assoc], ?_⟩
  rw [List.forall_mem_append]
  exact ⟨hP, hP'⟩

lemma Called.mono {P P' : ReadCall → Prop} {s s' : DiskSt σ} (h : Called P s s')
    (hP : ∀ c, P c → P' c) : Called P' s s' := by
  obtain ⟨cs, hcs, hall⟩ := h
  exact ⟨cs, hcs, fun c hc => hP c (hall c hc)⟩

/-- The calls made between two states all returned zero. -/
def Served (s s' : DiskSt σ) : Prop := ∃ cs, s'.calls = s.calls ++ cs ∧ ∀ c ∈ cs, c.ret = 0

lemma Served.trans {s₁ s₂ s₃ : DiskSt σ} (h : Served s₁ s₂) (h' : Served s₂ s₃) : Served s₁ s₃ :=
  Called.trans h h'

/-- A call that fills a variable on the stack. -/
def OnStack (c : ReadCall) : Prop := c.len = 16 ∧ ∀ p, c.buf ≠ .ptr p

/-- Such a call that returned zero. -/
def Checked (c : ReadCall) : Prop := OnStack c ∧ c.ret = 0

/-- Where a search is, that started in `s₀`, whatever way it ends: its calls are on the stack, and
as long as it goes on they returned zero. -/
abbrev Searching (s₀ s : DiskSt σ) (m : CM (DiskSt σ) α) (Q : α → DiskSt σ → Prop) : Prop :=
  Ends m s (fun a s' => Called Checked s₀ s' ∧ Q a s') fun _ s' => Called OnStack s₀ s'

section Search

variable {s₀ : DiskSt σ}

/-- A call that is checked has returned zero when there is something behind it. -/
lemma searching_checkRead (h : Called Checked s₀ s) {buf : Buf} (hbuf : ∀ p, buf ≠ .ptr p)
    (addr : U64) : Searching s₀ s (checkRead read buf addr 16) fun _ _ => True := by
  have hone : (read addr 16 s.dev).1.1 = 0 → Called Checked s
      ⟨(read addr 16 s.dev).2, s.calls ++ [⟨buf, addr, 16, (read addr 16 s.dev).1.1⟩]⟩ :=
    fun hret => ⟨_, rfl, by simpa [Checked, OnStack, hbuf] using hret⟩
  have hstack : Called OnStack s
      ⟨(read addr 16 s.dev).2, s.calls ++ [⟨buf, addr, 16, (read addr 16 s.dev).1.1⟩]⟩ :=
    ⟨_, rfl, by simpa [OnStack] using hbuf⟩
  unfold Searching checkRead
  rw [ends_bind]
  show Ends (checkCall (read addr 16 s.dev).1.1 >>= fun _ => pure (read addr 16 s.dev).1.2)
    (⟨(read addr 16 s.dev).2, s.calls ++ [⟨buf, addr, 16, (read addr 16 s.dev).1.1⟩]⟩ : DiskSt σ)
    _ _
  unfold checkCall
  split
  · exact (h.mono fun _ hc => hc.1).trans hstack
  · rename_i hret
    exact ⟨h.trans (hone (not_not.mp hret)), trivial⟩

lemma searching_checkGuid (h : Called Checked s₀ s) (g : Option Guid) (offs : U64) :
    Searching s₀ s (checkGuid read g offs) fun _ _ => True := by
  cases g with
  | none => exact ⟨h, trivial⟩
  | some g =>
    refine (searching_checkRead h (by simp) offs).bind fun d s' hs' => ?_
    exact hs'

/-- A turn leaves the loop with an extent that fits. -/
lemma searching_findBody (h : Called Checked s₀ s) (hf : HdrFields) (maxLbas : U64)
    (tguid pguid : Option Guid) (v : FindSt) :
    Searching s₀ s (findBody read hf maxLbas tguid pguid v) fun r _ => r.2.p = v.p ∧
      (r.1 = true → r.2.dim.lbaEnd - r.2.dim.lbaBegin < maxLbas) := by
  unfold findBody
  refine (searching_checkRead h (by simp) _).bind fun d s₁ h₁ => ?_
  have hp : (v.record maxLbas (partFields d)).p = v.p := by
    unfold FindSt.record
    split <;> rfl
  dsimp only
  split
  · exact ⟨h₁.1, hp, fun hbrk => Bool.noConfusion hbrk⟩
  · rename_i hfits
    have hlt := BitVec.not_le.mp hfits
    refine (searching_checkGuid h₁.1 tguid _).bind fun b s₂ h₂ => ?_
    cases b with
    | true => exact ⟨h₂.1, hp, fun _ => hlt⟩
    | false =>
      refine (searching_checkGuid h₂.1 pguid _).bind fun b s₃ h₃ => ?_
      cases b with
      | true => exact ⟨h₃.1, hp, fun _ => hlt⟩
      | false => exact ⟨h₃.1, hp, fun hbrk => Bool.noConfusion hbrk⟩

/-- The loop is left before its end only with an extent that fits. -/
lemma searching_findLoop (hf : HdrFields) (maxLbas : U64) (tguid pguid : Option Guid) : ∀ (n : ℕ)
    (v : FindSt) (s : DiskSt σ), Called Checked s₀ s →
      Searching s₀ s (findLoop read hf maxLbas tguid pguid n v) fun v' _ =>
        v'.p ≠ v.p + n → v'.dim.lbaEnd - v'.dim.lbaBegin < maxLbas := by
  intro n
  induction n with
  | zero =>
    intro v s h
    exact ⟨h, fun hne => absurd rfl hne⟩
  | succ n ih =>
    intro v s h
    rw [findLoop]
    refine (searching_findBody h hf maxLbas tguid pguid v).bind fun r s₁ h₁ => ?_
    obtain ⟨brk, v₁⟩ := r
    obtain ⟨hcalled, hp, hfits⟩ := h₁
    cases brk with
    | true => exact ⟨hcalled, fun _ => hfits rfl⟩
    | false =>
      refine (ih { v₁ with p := v₁.p + 1 } s₁ hcalled).mono (fun v' s₂ h₂ => ?_) fun _ _ he => he
      refine ⟨h₂.1, fun hne => h₂.2 ?_⟩
      have hp' : v₁.p = v.p := hp
      show v'.p ≠ v₁.p + 1 + n
      omega

end Search

/-- **A search** fills variables on its stack; one that ends has had every read served, and finds a
partition that fits. -/
theorem ends_findPart (part : Part) (st : Stack) :
    Ends (findPart read part st) s (fun v s' => Called Checked s s' ∧
      (0 ≤ v.partIdx → v.lbaEnd - v.lbaBegin < part.maxLbas)) fun _ s' => Called OnStack s s' := by
  unfold findPart gptFindPartition
  refine (searching_checkRead (Called.refl _ s) (by simp) _).bind fun d s₁ h₁ => ?_
  refine (searching_findLoop _ _ _ _ _ _ s₁ h₁.1).bind fun v s₂ h₂ => ?_
  obtain ⟨hcalled, hfits⟩ := h₂
  split
  · rename_i hfound
    refine ⟨hcalled, fun _ => hfits ?_⟩
    simpa using hfound
  · exact ⟨hcalled, fun hidx => absurd hidx (Int.not_le.mpr (Int.negSucc_lt_zero 0))⟩

/-- The code that a copy returns. -/
def copyRet (read : GptRead σ) (v : FindOut) (s : DiskSt σ) : CInt :=
  (read (0x200 * v.lbaBegin) (0x200 * (v.lbaEnd - v.lbaBegin + 1)) s.dev).1.1

/-- The state behind a copy. -/
def copied (read : GptRead σ) (part : Part) (v : FindOut) (s : DiskSt σ) : DiskSt σ :=
  ⟨(read (0x200 * v.lbaBegin) (0x200 * (v.lbaEnd - v.lbaBegin + 1)) s.dev).2,
    s.calls ++ [⟨.ptr part.dst, 0x200 * v.lbaBegin, 0x200 * (v.lbaEnd - v.lbaBegin + 1),
      copyRet read v s⟩]⟩

/-- The search finds the partition `v`, and ends in `s'`. -/
def Found (read : GptRead σ) (part : Part) (st : Stack) (s : DiskSt σ) (v : FindOut)
    (s' : DiskSt σ) : Prop := (findPart read part st).run s = .ok v s' ∧ 0 ≤ v.partIdx

/-- **A partition is loaded** when it is found, whatever its copy returns. -/
theorem leaves_loadPartOrSpin (part : Part) (st : Stack) {Q : Unit → DiskSt σ → Prop} :
    Leaves (loadPartOrSpin read part st) s Q ↔
      ∀ v s₁, Found read part st s v s₁ → Q () (copied read part v s₁) := by
  unfold Leaves Found EStateM.run loadPartOrSpin
  cases h : findPart read part st s with
  | error e s₁ => simp
  | ok v s₁ =>
    by_cases hidx : v.partIdx < 0
    · simp only [hidx, if_true, true_iff, EStateM.Result.ok.injEq]
      rintro v' s₁' ⟨⟨rfl, rfl⟩, hpos⟩
      omega
    · simp only [hidx, if_false, EStateM.Result.ok.injEq]
      constructor
      · rintro hQ v' s₁' ⟨⟨rfl, rfl⟩, -⟩
        exact hQ
      · intro hQ
        exact hQ v s₁ ⟨⟨rfl, rfl⟩, by omega⟩

/-- What is served between two states is served up to a state between them, and from it on. -/
lemma Served.split {s' s'' : DiskSt σ} (h : Served s s'') (h₁ : s.calls <+: s'.calls)
    (h₂ : s'.calls <+: s''.calls) : Served s s' ∧ Served s' s'' := by
  obtain ⟨cs, hcs, hz⟩ := h
  obtain ⟨ds, hds⟩ := h₁
  obtain ⟨es, hes⟩ := h₂
  have hsum : cs = ds ++ es := by
    have hcalls : s.calls ++ cs = s.calls ++ (ds ++ es) := by
      rw [← hcs, ← hes, ← hds, List.append_assoc]
    exact List.append_cancel_left hcalls
  rw [hsum, List.forall_mem_append] at hz
  exact ⟨⟨ds, hds.symm, hz.1⟩, ⟨es, hes.symm, hz.2⟩⟩

lemma Served.grows {s' : DiskSt σ} (h : Served s s') : s.calls <+: s'.calls := by
  obtain ⟨cs, hcs, -⟩ := h
  exact ⟨cs, hcs.symm⟩

lemma prefix_copied (part : Part) (v : FindOut) : s.calls <+: (copied read part v s).calls :=
  ⟨_, rfl⟩

lemma served_copied_iff (part : Part) (v : FindOut) :
    Served s (copied read part v s) ↔ copyRet read v s = 0 := by
  constructor
  · rintro ⟨cs, hcs, hz⟩
    have hone := List.append_cancel_left hcs
    rw [← hone] at hz
    simpa using hz
  · intro hret
    exact ⟨_, rfl, by simpa using hret⟩

/-- A search that finds has had every read served. -/
lemma Found.served {part : Part} {st : Stack} {v : FindOut} {s' : DiskSt σ}
    (h : Found read part st s v s') : Served s s' :=
  (leaves_iff.mp (ends_findPart part st).leaves v s' h.1).1.mono fun _ hc => hc.2

end Calls

/-! ### The boot -/

section Boot

variable {σ : Type}

/-- The read callback that `main` hands to its searches. -/
def mainRead (regs : Regs) (fns : (fn gp priv : U64) → GptRead σ) : GptRead (Relocated σ) :=
  grread (fun gp => fns ((regs.scratch0 &&& ~~~1).setWidth 64) gp (regs.scratch1.setWidth 64))
    (regs.scratch3.setWidth 64)

/-- Both partitions are found, in the states that the loader is in when it searches them. -/
def BothFound (read : GptRead σ) (dtbSt fwSt : Stack) (s : DiskSt σ) (v w : FindOut)
    (s₁ s₂ : DiskSt σ) : Prop :=
  Found read deviceTree dtbSt s v s₁ ∧ Found read firmware fwSt (copied read deviceTree v s₁) w s₂

/-- The firmware is called only when both partitions are found and every read is served. -/
def LaunchesLoaded (regs : Regs) (fns : (fn gp priv : U64) → GptRead σ) (dtbSt fwSt : Stack)
    (s : DiskSt (Relocated σ)) : Prop :=
  Leaves (main regs fns dtbSt fwSt) s fun _ s' =>
    (∃ v w s₁ s₂, BothFound (mainRead regs fns) dtbSt fwSt s v w s₁ s₂) ∧ Served s s'

/-- When both partitions are found, both copies return zero. -/
def CopiesServed (read : GptRead σ) (dtbSt fwSt : Stack) (s : DiskSt σ) : Prop :=
  ∀ v w s₁ s₂, BothFound read dtbSt fwSt s v w s₁ s₂ → copyRet read v s₁ = 0 ∧ copyRet read w s₂ = 0

/-- On a GPT disk both partitions are loaded. -/
lemma main_eq (regs : Regs) (hgpt : regs.scratch0 &&& 1 ≠ 0)
    (fns : (fn gp priv : U64) → GptRead σ) (dtbSt fwSt : Stack) :
    main regs fns dtbSt fwSt = (loadPartOrSpin (mainRead regs fns) deviceTree dtbSt >>= fun _ =>
      loadPartOrSpin (mainRead regs fns) firmware fwSt >>= fun _ =>
        pure ⟨bootZslFw, 0, bootZslDtb, 0⟩) := by
  unfold main
  rw [if_pos hgpt]
  rfl

/-- On a GPT disk the firmware is called when both partitions are found. -/
theorem leaves_main (regs : Regs) (hgpt : regs.scratch0 &&& 1 ≠ 0)
    (fns : (fn gp priv : U64) → GptRead σ) (dtbSt fwSt : Stack) {s : DiskSt (Relocated σ)}
    {Q : Payload → DiskSt (Relocated σ) → Prop} :
    Leaves (main regs fns dtbSt fwSt) s Q ↔ ∀ v w s₁ s₂,
      BothFound (mainRead regs fns) dtbSt fwSt s v w s₁ s₂ →
        Q ⟨bootZslFw, 0, bootZslDtb, 0⟩ (copied (mainRead regs fns) firmware w s₂) := by
  rw [main_eq regs hgpt]
  simp only [leaves_bind, leaves_loadPartOrSpin, leaves_pure]
  constructor
  · rintro h v w s₁ s₂ ⟨hv, hw⟩
    exact h v s₁ hv w s₂ hw
  · intro h v s₁ hv w s₂ hw
    exact h v w s₁ s₂ ⟨hv, hw⟩

/-- **The loader launches what it has loaded exactly when** both copies are served whenever they
are made. -/
theorem launchesLoaded_iff (regs : Regs) (hgpt : regs.scratch0 &&& 1 ≠ 0)
    (fns : (fn gp priv : U64) → GptRead σ) (dtbSt fwSt : Stack) (s : DiskSt (Relocated σ)) :
    LaunchesLoaded regs fns dtbSt fwSt s ↔ CopiesServed (mainRead regs fns) dtbSt fwSt s := by
  unfold LaunchesLoaded CopiesServed
  rw [leaves_main regs hgpt]
  refine forall₄_congr fun v w s₁ s₂ => forall_congr' fun hfound => ?_
  have hv := hfound.1.served
  have hw := hfound.2.served
  rw [← served_copied_iff deviceTree, ← served_copied_iff firmware]
  constructor
  · rintro ⟨-, hall⟩
    -- the calls of the two searches and the two copies, one after another
    obtain ⟨hdtb, hcopy⟩ := hall.split (hv.grows.trans (prefix_copied deviceTree v))
      (hw.grows.trans (prefix_copied firmware w))
    exact ⟨(hdtb.split hv.grows (prefix_copied deviceTree v)).2,
      (hcopy.split hw.grows (prefix_copied firmware w)).2⟩
  · rintro ⟨hdtb, hfw⟩
    exact ⟨⟨v, w, s₁, s₂, hfound⟩, ((hv.trans hdtb).trans hw).trans hfw⟩

/-- A disk with a device tree of one sector and a firmware of two. -/
def zslDisk : Mem 64 :=
  let m : Mem 64 := fun _ => 0
  let m := m.write 0x248 (toLe 8 2 ++ toLe 4 2 ++ toLe 4 128)
  let m := m.write 0x400 (toLe 8 0x42DE2AEFBA442F61 ++ toLe 8 0x9DCB3A5DD7E43392 ++ toLe 16 0 ++
    toLe 8 34 ++ toLe 8 34)
  m.write 0x480 (toLe 8 0x4B0D3F5B99EC86DA ++ toLe 8 0x59F8A5CFBAC44B8F ++ toLe 16 0 ++
    toLe 8 40 ++ toLe 8 41)

/-- A read function that fails with the code 1 when it is asked for more than `max` bytes. -/
def limitedRead (max : ℕ) : GptRead Unit := fun addr len _ =>
  ((if len.toNat ≤ max then 0 else 1, fun i => zslDisk (addr + BitVec.ofNat 64 i)), ())

/-- The registers that the boot ROM leaves. -/
def zslRegs : Regs := ⟨0x0200_0401, 0x1000_FF00, 0x0200_1800⟩

/-- The loader before its first read. -/
def zslStart : DiskSt (Relocated Unit) := ⟨⟨(), 0x1000_8000⟩, []⟩

/-- A read function without a limit serves both copies. -/
theorem launchesLoaded_unlimited :
    LaunchesLoaded zslRegs (fun _ _ _ => limitedRead (2 ^ 64)) ⟨0, 0⟩ ⟨0, 0⟩ zslStart := by
  refine (launchesLoaded_iff zslRegs (by decide) _ _ _ _).mpr fun v w s₁ s₂ _ => ?_
  have hzero : ∀ addr len d,
      (mainRead zslRegs (fun _ _ _ => limitedRead (2 ^ 64)) addr len d).1.1 = 0 := by
    intro addr len d
    show ((if len.toNat ≤ 2 ^ 64 then (0 : CInt) else 1).signExtend 64).setWidth 32 = 0
    rw [if_pos (Nat.le_of_lt len.isLt)]
    rfl
  exact ⟨hzero _ _ _, hzero _ _ _⟩

/-- The firmware is called although both copies have failed. -/
theorem not_launchesLoaded_limited :
    ¬ LaunchesLoaded zslRegs (fun _ _ _ => limitedRead 16) ⟨0, 0⟩ ⟨0, 0⟩ zslStart := by
  have hcalls : (match (main zslRegs (fun _ _ _ => limitedRead 16) ⟨0, 0⟩ ⟨0, 0⟩).run zslStart with
      | .ok _ s' => s'.calls.map ReadCall.ret
      | .error _ _ => []) = [0, 0, 0, 1, 0, 0, 0, 0, 0, 1] := by
    decide +kernel
  intro h
  unfold LaunchesLoaded at h
  rw [leaves_iff] at h
  cases hrun : (main zslRegs (fun _ _ _ => limitedRead 16) ⟨0, 0⟩ ⟨0, 0⟩).run zslStart with
  | error e s' =>
    rw [hrun] at hcalls
    cases hcalls
  | ok l s' =>
    rw [hrun] at hcalls
    replace hcalls : s'.calls.map ReadCall.ret = [0, 0, 0, 1, 0, 0, 0, 0, 0, 1] := hcalls
    obtain ⟨cs, hcs, hz⟩ := (h l s' hrun).2
    have hone : (1 : CInt) ∈ s'.calls.map ReadCall.ret := by
      rw [hcalls]
      decide
    obtain ⟨c, hc, hret⟩ := List.mem_map.mp hone
    rw [hcs] at hc
    rw [hz c hc] at hret
    cases hret

end Boot

end Cheshire.Sw.Zsl
