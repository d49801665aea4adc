import Cheshire.Sw.GptBoot
import Cheshire.Sw.Zsl

/-!
Where the zero-stage loader writes: its searches fill variables on its stack, and its two copies
stay in a window of DRAM each, whatever is on the disk.
-/

namespace Cheshire.Sw.Zsl

open Lib Gpt

/-- One of the `size` bytes from `base` on. -/
def InWindow (base : U64) (size : ℕ) (x : U64) : Prop := (x - base).toNat < size

/-- The window of the device tree, of 32 KiB. -/
abbrev InDtb (x : U64) : Prop := InWindow bootZslDtb (32 * 1024) x

/-- The window of the firmware, of 4 MiB. -/
abbrev InFw (x : U64) : Prop := InWindow bootZslFw (4 * 1024 * 1024) x

/-- The two windows are disjoint. -/
lemma not_inDtb_and_inFw (x : U64) : ¬ (InDtb x ∧ InFw x) := by
  rintro ⟨hdtb, hfw⟩
  simp only [InDtb, InWindow, bootZslDtb] at hdtb
  simp only [InFw, InWindow, bootZslFw] at hfw
  bv_omega

/-- The memory behind the calls of a read function that writes only what it is asked to fill: a
variable on the stack, or a range. -/
inductive Filled (stack : U64 → Prop) : List ReadCall → Mem 64 → Mem 64 → Prop
  | nil (m : Mem 64) : Filled stack [] m m
  | stack {c : ReadCall} {cs : List ReadCall} {m m₁ m' : Mem 64} (hbuf : ∀ p, c.buf ≠ .ptr p)
      (h : ∀ x, ¬ stack x → m₁ x = m x) (hrest : Filled stack cs m₁ m') :
      Filled stack (c :: cs) m m'
  | ptr {c : ReadCall} {cs : List ReadCall} {m m₁ m' : Mem 64} {p : U64} (hbuf : c.buf = .ptr p)
      (h : ∀ x, ¬ InWindow p c.len.toNat x → m₁ x = m x) (hrest : Filled stack cs m₁ m') :
      Filled stack (c :: cs) m m'

/-- The call does not fill the byte at `x`, unless it lies on the stack. -/
def Spares (x : U64) (c : ReadCall) : Prop :=
  (∀ p, c.buf ≠ .ptr p) ∨ ∃ p, c.buf = .ptr p ∧ ¬ InWindow p c.len.toNat x

/-- **What no call fills** is kept. -/
theorem Filled.kept {stack : U64 → Prop} {cs : List ReadCall} {m m' : Mem 64}
    (h : Filled stack cs m m') {x : U64} (hstack : ¬ stack x) (hcs : ∀ c ∈ cs, Spares x c) :
    m' x = m x := by
  induction h with
  | nil => rfl
  | stack hbuf hfill hrest ih =>
    rw [List.forall_mem_cons] at hcs
    rw [ih hcs.2, hfill x hstack]
  | @ptr c cs m m₁ m' p hbuf hfill hrest ih =>
    rw [List.forall_mem_cons] at hcs
    rw [ih hcs.2]
    rcases hcs.1 with hno | ⟨q, hq, hout⟩
    · exact absurd hbuf (hno p)
    · obtain rfl := Buf.ptr.inj (hbuf.symm.trans hq)
      exact hfill x hout

lemma OnStack.spares {c : ReadCall} (h : OnStack c) (x : U64) : Spares x c := .inl h.2

/-- A call that stays in the window of `part`. -/
def InPart (part : Part) (c : ReadCall) : Prop :=
  OnStack c ∨ c.buf = .ptr part.dst ∧ c.len.toNat ≤ 0x200 * part.maxLbas.toNat

/-- Outside its window such a call spares every byte. -/
lemma InPart.spares {part : Part} {c : ReadCall} (h : InPart part c) {x : U64}
    (hx : ¬ InWindow part.dst (0x200 * part.maxLbas.toNat) x) : Spares x c := by
  rcases h with hstack | ⟨hbuf, hlen⟩
  · exact hstack.spares x
  · refine .inr ⟨_, hbuf, fun hin => hx ?_⟩
    unfold InWindow at hin ⊢
    omega

section Load

variable {σ : Type} {read : GptRead σ} {s : DiskSt σ}

/-- **A load** searches on the stack, and then makes one copy that fits in the window. -/
theorem ends_loadPartOrSpin (part : Part) (st : Stack) :
    Ends (loadPartOrSpin read part st) s
      (fun _ s' => ∃ v s₁, Called OnStack s s₁ ∧ v.lbaEnd - v.lbaBegin < part.maxLbas ∧
        s' = copied read part v s₁)
      fun _ s' => Called OnStack s s' := by
  have hfind : Ends (findPart read part st) s (fun v s' => Called Checked s s' ∧
      (0 ≤ v.partIdx → v.lbaEnd - v.lbaBegin < part.maxLbas)) fun _ s' => Called OnStack s s' :=
    ends_findPart part st
  unfold Ends EStateM.run at hfind ⊢
  unfold loadPartOrSpin
  cases hrun : findPart read part st s with
  | error e s₁ =>
    rw [hrun] at hfind
    exact hfind
  | ok v s₁ =>
    rw [hrun] at hfind
    obtain ⟨hcalled, hfits⟩ := hfind
    have hstack : Called OnStack s s₁ := hcalled.mono fun _ hc => hc.1
    by_cases hidx : v.partIdx < 0
    · simp only [hidx, if_true]
      exact hstack
    · simp only [hidx, if_false]
      exact ⟨v, s₁, hstack, hfits (by omega), rfl⟩

/-- The copy of a partition that fits. -/
lemma called_copied (part : Part) {v : FindOut} (h : v.lbaEnd - v.lbaBegin < part.maxLbas) :
    Called (InPart part) s (copied read part v s) := by
  refine ⟨_, rfl, fun c hc => ?_⟩
  rw [List.mem_singleton] at hc
  subst hc
  exact .inr ⟨rfl, copyLen_le_of_lt h⟩

end Load

section Main

variable {σ : Type}

/-- What is written of DRAM between two states lies in the two windows. -/
def InWindows (stack : U64 → Prop) (s s' : DiskSt σ) : Prop :=
  ∃ cs, s'.calls = s.calls ++ cs ∧ ∀ m m', Filled stack cs m m' →
    ∀ x : U64, 0x8000_0000 ≤ x.toNat → m' x ≠ m x → InDtb x ∨ InFw x

/-- Between two states the device tree is copied, and kept from then on. -/
def DtbIntact (stack : U64 → Prop) (s s' : DiskSt σ) : Prop :=
  ∃ cs c cs', s'.calls = s.calls ++ (cs ++ c :: cs') ∧ c.buf = .ptr bootZslDtb ∧
    ∀ m m', Filled stack cs' m m' → ∀ x, InDtb x → m' x = m x

variable {stack : U64 → Prop}

/-- Calls that stay in the windows. -/
lemma Called.inWindows (hstack : ∀ x, stack x → x.toNat < 0x8000_0000) {s s' : DiskSt σ}
    (h : Called (fun c => InPart deviceTree c ∨ InPart firmware c) s s') :
    InWindows stack s s' := by
  obtain ⟨cs, hcs, hall⟩ := h
  refine ⟨cs, hcs, fun m m' hfill x hx hne => ?_⟩
  by_contra hout
  obtain ⟨hdtb, hfw⟩ := not_or.mp hout
  refine hne (hfill.kept (fun hs => absurd (hstack x hs) (by omega)) fun c hc => ?_)
  rcases hall c hc with hpart | hpart
  · exact hpart.spares hdtb
  · exact hpart.spares hfw

/-- Calls of the second load spare the window of the first. -/
lemma Filled.dtb_kept (hstack : ∀ x, stack x → x.toNat < 0x8000_0000) {cs : List ReadCall}
    {m m' : Mem 64} (h : Filled stack cs m m') (hcs : ∀ c ∈ cs, InPart firmware c) {x : U64}
    (hx : InDtb x) : m' x = m x := by
  have hdram : 0x8000_0000 ≤ x.toNat := by
    simp only [InDtb, InWindow, bootZslDtb] at hx
    bv_omega
  refine h.kept (fun hs => absurd (hstack x hs) (by omega)) fun c hc => ?_
  exact (hcs c hc).spares fun hfw => not_inDtb_and_inFw x ⟨hx, hfw⟩

/-- **The loader writes to its two windows of DRAM only**, whether it launches the firmware or
spins, and when it launches the firmware of a GPT disk the device tree is the one it has copied. -/
theorem zsl_windows (stack : U64 → Prop) (hstack : ∀ x, stack x → x.toNat < 0x8000_0000)
    (regs : Regs) (fns : (fn gp priv : U64) → GptRead σ) (dtbSt fwSt : Stack)
    (s : DiskSt (Relocated σ)) :
    Ends (main regs fns dtbSt fwSt) s
      (fun _ s' => InWindows stack s s' ∧ (regs.scratch0 &&& 1 ≠ 0 → DtbIntact stack s s'))
      (fun _ s' => InWindows stack s s') ∧
    ∀ x, ¬ (InDtb x ∧ InFw x) := by
  refine ⟨?_, not_inDtb_and_inFw⟩
  have hstart : ∀ {s' : DiskSt (Relocated σ)}, Called OnStack s s' →
      Called (fun c => InPart deviceTree c ∨ InPart firmware c) s s' :=
    fun h => h.mono fun _ hc => .inl (.inl hc)
  by_cases hgpt : regs.scratch0 &&& 1 ≠ 0
  · rw [main_eq regs hgpt]
    refine ends_bind.mpr ((ends_loadPartOrSpin deviceTree dtbSt).mono ?_ ?_)
    · rintro - s₁ ⟨v, s₀, hcalls, hfits, rfl⟩
      have hload : Called (fun c => InPart deviceTree c ∨ InPart firmware c) s
          (copied (mainRead regs fns) deviceTree v s₀) :=
        (hstart hcalls).trans ((called_copied deviceTree hfits).mono fun _ => .inl)
      refine ends_bind.mpr ((ends_loadPartOrSpin firmware fwSt).mono ?_ ?_)
      · rintro - s₃ ⟨w, s₂, hcalls', hfits', rfl⟩
        have hfw : Called (InPart firmware) (copied (mainRead regs fns) deviceTree v s₀)
            (copied (mainRead regs fns) firmware w s₂) :=
          (hcalls'.mono fun _ => .inl).trans (called_copied firmware hfits')
        refine ⟨(hload.trans (hfw.mono fun _ => .inr)).inWindows hstack, fun _ => ?_⟩
        -- the calls of the search, the copy of the device tree, and those of the second load
        obtain ⟨cs, hcs, -⟩ := hcalls
        obtain ⟨cs', hcs', hall⟩ := hfw
        refine ⟨cs, ⟨.ptr bootZslDtb, 0x200 * v.lbaBegin, 0x200 * (v.lbaEnd - v.lbaBegin + 1),
          copyRet (mainRead regs fns) v s₀⟩, cs', ?_, rfl,
          fun m m' hfill x hx => hfill.dtb_kept hstack hall hx⟩
        rw [hcs', copied, hcs, List.append_assoc, List.append_assoc, List.singleton_append]
        rfl
      · rintro - s₃ hspin
        exact (hload.trans (hspin.mono fun _ hc => .inl (.inl hc))).inWindows hstack
    · rintro - s₁ hspin
      exact (hstart hspin).inWindows hstack
  · unfold main
    rw [if_neg hgpt]
    exact ⟨(hstart (Called.refl _ s)).inWindows hstack, fun h => absurd h hgpt⟩

end Main

/-- A loader with its stack in the SPM, whose reads fail beyond 16 bytes. -/
theorem zsl_windows_spmStack :
    Ends (main zslRegs (fun _ _ _ => limitedRead 16) ⟨0, 0⟩ ⟨0, 0⟩) zslStart
      (fun _ s' => InWindows (InWindow 0x1000_0000 (64 * 1024)) zslStart s' ∧
        (zslRegs.scratch0 &&& 1 ≠ 0 → DtbIntact (InWindow 0x1000_0000 (64 * 1024)) zslStart s'))
      (fun _ s' => InWindows (InWindow 0x1000_0000 (64 * 1024)) zslStart s') :=
  (zsl_windows (InWindow 0x1000_0000 (64 * 1024))
    (fun x hx => by unfold InWindow at hx; bv_omega) zslRegs _ ⟨0, 0⟩ ⟨0, 0⟩ zslStart).1

end Cheshire.Sw.Zsl
