import Cheshire.Lib.Rv64Core
import Cheshire.Lib.SaveArea
import Cheshire.Sw.Base

/-!
The trap handler wrapper of `crt0.S`: around the C handler it saves the integer registers that a call
does not save, so that a program that is interrupted goes on as if it had not been.
-/

namespace Cheshire.Sw.Crt0

open Lib Lib.Rv64 StateTransition

/-! ### The code -/

/-- `_trap_handler_wrap`, up to its `mret`. -/
def trapHandlerWrap (trapVector : U64) : List Op :=
  [.base (.addi .sp .sp (-128)),
   .sd .ra 120 .sp,
   .sd .t0 112 .sp,
   .sd .t1 104 .sp,
   .sd .t2 96 .sp,
   .sd .a0 88 .sp,
   .sd .a1 80 .sp,
   .sd .a2 72 .sp,
   .sd .a3 64 .sp,
   .sd .a4 56 .sp,
   .sd .a5 48 .sp,
   .sd .a6 40 .sp,
   .sd .a7 32 .sp,
   .sd .t3 24 .sp,
   .sd .t4 16 .sp,
   .sd .t5 8 .sp,
   .sd .t6 0 .sp,
   .call trapVector,
   .ld .ra 120 .sp,
   .ld .t0 112 .sp,
   .ld .t1 104 .sp,
   .ld .t2 96 .sp,
   .ld .a0 88 .sp,
   .ld .a1 80 .sp,
   .ld .a2 72 .sp,
   .ld .a3 64 .sp,
   .ld .a4 56 .sp,
   .ld .a5 48 .sp,
   .ld .a6 40 .sp,
   .ld .a7 32 .sp,
   .ld .t3 24 .sp,
   .ld .t4 16 .sp,
   .ld .t5 8 .sp,
   .ld .t6 0 .sp,
   .base (.addi .sp .sp 128)]

/-- The `mret` of `_trap_handler_wrap`. -/
def mretPc : ℕ := 35

/-- The registers that are saved, from the top of the frame on. -/
def callerSaved : List Reg :=
  [.ra, .t0, .t1, .t2, .a0, .a1, .a2, .a3, .a4, .a5, .a6, .a7, .t3, .t4, .t5, .t6]

/-- A trap: the core runs the wrapper, and goes on where it has been, of which the handler knows
nothing. -/
def Trap (trapVector : U64) (env : FEnv) (s s' : Core) : Prop :=
  ∃ r f m, Reaches (Core.next (trapHandlerWrap trapVector) env)
    ⟨⟨0, s.hart.regs⟩, s.fregs, s.mem⟩ ⟨⟨mretPc, r⟩, f, m⟩ ∧ s' = ⟨⟨s.hart.pc, r⟩, f, m⟩

/-- A register is saved by the wrapper or by the handler. -/
lemma mem_callerSaved_or (x : Reg) (hx : x ≠ .zero) (hsp : x ≠ .sp) :
    x ∈ callerSaved ∨ x ∈ calleeSaved := by
  cases x <;> first | exact absurd rfl hx | exact absurd rfl hsp | decide

/-! ### What a trap leaves alone -/

/-- A byte of the handler: one of its own, or one of the `depth` bytes below the stack pointer. -/
def Hidden (own : U64 → Prop) (depth : ℕ) (sp x : U64) : Prop :=
  own x ∨ ¬ Mem.Outside (sp - .ofNat 64 depth) depth x

/-- A handler saves what a call saves, uses no floating-point registers, which the wrapper does not
save, and writes its own bytes and its stack only. -/
structure HandlerOk (own : U64 → Prop) (depth : ℕ) (f : FFn) : Prop where
  saved : ∀ r fr m, ∀ x ∈ calleeSaved, (f r fr m).1 x = r x
  floats : ∀ r fr m, (f r fr m).2.1 = fr
  writes : ∀ r fr m x, ¬ Hidden own depth (r .sp) x → (f r fr m).2.2 x = m x

/-- The frame of the wrapper would be apart from the bytes of the handler. -/
def StackApart (own : U64 → Prop) (s : Core) : Prop :=
  ∀ x, own x → Mem.Outside (s.hart.regs .sp - 128) 128 x

/-! ### What a program must not read -/

section Watch

variable (own : U64 → Prop) (depth : ℕ) (step : Core → Option Core)
  (reads writes : Core → U64 → Prop)

/-- A step of the program, beside the bytes that have been below the stack pointer or the handler's
since the program has last written them. -/
def watch (s : Core × (U64 → Prop)) : Option (Core × (U64 → Prop)) :=
  (step s.1).map fun s' =>
    (s', fun x => (s.2 x ∨ Hidden own depth (s.1.hart.get .sp) x) ∧ ¬ writes s.1 x)

/-- A byte that the program cannot know: it has been the handler's, or it is now. -/
def Stale (s : Core × (U64 → Prop)) (x : U64) : Prop :=
  s.2 x ∨ Hidden own depth (s.1.hart.get .sp) x

/-- **The program relies on no such byte**: it reads none in its run from `s` without traps. -/
def Unaware (s : Core) : Prop :=
  ∀ t, Reaches (watch own depth step writes) (s, fun _ => False) t →
    ∀ x, reads t.1 x → ¬ Stale own depth t x

/-- The same place, the same registers, and the same memory but for these bytes. -/
structure Alike (s : Core) (t : Core × (U64 → Prop)) : Prop where
  same : s.Same t.1
  mem : ∀ x, ¬ Stale own depth t x → s.mem x = t.1.mem x

variable {own depth step reads writes}

/-- The program runs as it does unwatched. -/
lemma reaches_of_watch {s t : Core × (U64 → Prop)}
    (h : Reaches (watch own depth step writes) s t) : Reaches step s.1 t.1 := by
  induction h with
  | refl => exact .refl
  | tail _ hs ih =>
    obtain ⟨t', ht', rfl⟩ := Option.map_eq_some_iff.mp hs
    exact ih.tail ht'

/-- A step that reads no stale byte keeps the states alike: what it writes is no longer stale, and
what it does not write stays as it is on both sides. -/
lemma Alike.next (hfoot : Footprint step reads writes) {s s' : Core} {t : Core × (U64 → Prop)}
    (h : Alike own depth s t) (hreads : ∀ x, reads t.1 x → ¬ Stale own depth t x)
    (hs : step s = some s') :
    ∃ t', watch own depth step writes t = some t' ∧ Alike own depth s' t' := by
  obtain ⟨t', ht', hsame, hwrites⟩ :=
    hfoot.same s t.1 s' h.same (fun x hx => h.mem x (hreads x hx)) hs
  refine ⟨_, congrArg (Option.map _) ht', hsame, fun x hx => ?_⟩
  by_cases hw : writes t.1 x
  · exact (hwrites x).2 hw
  · have hfresh : ¬ Stale own depth t x := fun hstale => hx (.inl ⟨hstale, hw⟩)
    calc s'.mem x = s.mem x := hfoot.frame s s' x hs fun hws => hw ((hwrites x).1 hws)
      _ = t.1.mem x := h.mem x hfresh
      _ = t'.mem x := (hfoot.frame t.1 t' x ht' hw).symm

end Watch

/-! ### A trap -/

section Trap

variable {trapVector : U64} {env : FEnv} {own : U64 → Prop} {depth : ℕ}

/-- The frame of the wrapper, and the stack of the handler below it. -/
lemma hidden_of_lt {sp x : U64} (hdepth : depth + 128 ≤ 2 ^ 64)
    (h : ¬ Mem.Outside (sp + -128) 128 x ∨ Hidden own depth (sp + -128) x) :
    Hidden own (depth + 128) sp x := by
  have hsum : (x - (sp - .ofNat 64 (depth + 128))).toNat < depth + 128 ∨ own x := by
    rcases h with h | h | h
    · left
      unfold Mem.Outside at h
      bv_omega
    · exact .inr h
    · left
      unfold Mem.Outside at h
      bv_omega
  rcases hsum with h | h
  · exact .inr (Nat.not_le.mpr h)
  · exact .inl h

variable (trapVector env) in
/-- Behind the saves the frame holds the registers. -/
lemma runs_save (f : FRegs) (r : Regs) (m : Mem 64) : ∃ m',
    Reaches (next (trapHandlerWrap trapVector) (env.at f)) (⟨0, r⟩, m)
      (⟨17, setReg r .sp (r .sp + -128)⟩, m') ∧
      m'.slice (r .sp + -128) 128 = saveArea (setReg r .sp (r .sp + -128)) callerSaved ∧
        ∀ x, Mem.Outside (r .sp + -128) 128 x → m' x = m x := by
  have hlen : (saveArea (setReg r .sp (r .sp + -128)) callerSaved).length = 128 :=
    length_saveArea ..
  have hsave := runs_saveRegs (trapHandlerWrap trapVector) (env.at f) callerSaved
    ((trapHandlerWrap trapVector).drop 17) 1 (setReg r .sp (r .sp + -128)) m rfl (by decide)
    (by decide)
  have hslice := Mem.slice_write_self m (r .sp + -128)
    (saveArea (setReg r .sp (r .sp + -128)) callerSaved) (by rw [hlen]; decide)
  rw [hlen] at hslice
  exact ⟨_, reaches_of_next rfl hsave, hslice, fun x hx => Mem.write_outside m (by rwa [hlen])⟩

/-- The handler keeps the frame and the registers that a call saves. -/
lemma runs_handler (h : HandlerOk own depth (env.fns trapVector)) (hdepth : depth + 128 ≤ 2 ^ 64)
    (f : FRegs) (r : Regs) (m : Mem 64) (hown : ∀ x, own x → Mem.Outside (r .sp) 128 x) :
    ∃ r' m', Reaches (next (trapHandlerWrap trapVector) (env.at f)) (⟨17, r⟩, m) (⟨18, r'⟩, m') ∧
      (∀ x ∈ calleeSaved, r' x = r x) ∧ m'.slice (r .sp) 128 = m.slice (r .sp) 128 ∧
        ∀ x, ¬ Hidden own depth (r .sp) x → m' x = m x := by
  have hra : ∀ x, x ≠ .ra → setReg r .ra (env.place 18) x = r x := fun x hx => setReg_of_ne _ _ hx
  have hsp := hra .sp (by decide)
  have hkept : ∀ x, ¬ Hidden own depth (r .sp) x →
      (env.fns trapVector (setReg r .ra (env.place 18)) f m).2.2 x = m x :=
    fun x hx => h.writes _ f m x (by rwa [hsp])
  refine ⟨_, _, .single rfl, fun x hx => ?_, Mem.slice_congr fun i hi => hkept _ ?_, hkept⟩
  · refine (h.saved _ f m x hx).trans (hra x ?_)
    rintro rfl
    revert hx
    decide
  · rintro (hin | hin)
    · have hout := hown _ hin
      rw [Mem.Outside, Mem.toNat_add_sub_self _ (by omega)] at hout
      omega
    · unfold Mem.Outside at hin
      bv_omega

variable (trapVector env) in
/-- Behind the loads the registers are those that have been saved. -/
lemma runs_restore (f : FRegs) (r₀ r : Regs) (m : Mem 64)
    (hframe : m.slice (r .sp) 128 = saveArea r₀ callerSaved)
    (hsaved : ∀ x ∈ calleeSaved, r x = r₀ x) :
    ∃ r', Reaches (next (trapHandlerWrap trapVector) (env.at f)) (⟨18, r⟩, m) (⟨mretPc, r'⟩, m) ∧
      r' .sp = r .sp + 128 ∧ ∀ x, x ≠ .zero → x ≠ .sp → r' x = r₀ x := by
  have hrestore := runs_restoreRegs (trapHandlerWrap trapVector) (env.at f) r₀ m
    callerSaved ((trapHandlerWrap trapVector).drop 34) 18 r rfl (by decide) (by decide) hframe
  have hadd (r : Regs) : Reaches (next (trapHandlerWrap trapVector) (env.at f)) (⟨34, r⟩, m)
      (⟨mretPc, setReg r .sp (r .sp + 128)⟩, m) := .single rfl
  refine ⟨_, hrestore.trans (hadd _), rfl, fun x hx hsp => ?_⟩
  rw [setReg_of_ne _ _ hsp, restored]
  split
  · rfl
  · next hnot => exact hsaved x ((mem_callerSaved_or x hx hsp).resolve_left hnot)

/-- The wrapper leaves the floating-point registers alone, and so does its handler. -/
lemma keepsFloats_trapHandlerWrap (h : HandlerOk own depth (env.fns trapVector)) (f : FRegs) :
    ∀ op ∈ trapHandlerWrap trapVector, op.KeepsFloats env f := by
  simp [trapHandlerWrap, Op.KeepsFloats, h.floats]

/-- **What a trap does**: the registers are those of the program again, and only bytes of the
handler have changed. -/
theorem exists_trap (h : HandlerOk own depth (env.fns trapVector)) (hdepth : depth + 128 ≤ 2 ^ 64)
    (s : Core) (hs : StackApart own s) :
    ∃ s', Trap trapVector env s s' ∧ s'.Same s ∧
      ∀ x, ¬ Hidden own (depth + 128) (s.hart.get .sp) x → s'.mem x = s.mem x := by
  obtain ⟨⟨pc, r⟩, f, m⟩ := s
  obtain ⟨m₁, hsave, hslice, hout₁⟩ := runs_save trapVector env f r m
  obtain ⟨r₂, m₂, hhandler, hsaved, hkept, hout₂⟩ := runs_handler h hdepth f
    (setReg r .sp (r .sp + -128)) m₁ fun x hx => by
      rw [setReg_self r _ (by decide), ← BitVec.sub_eq_add_neg]
      exact hs x hx
  have hsp₂ : r₂ .sp = r .sp + -128 := hsaved .sp (by decide)
  obtain ⟨r₃, hrestore, hsp₃, hregs₃⟩ := runs_restore trapVector env f
    (setReg r .sp (r .sp + -128)) r₂ m₂ (by rw [hsp₂]; exact hkept.trans hslice) hsaved
  have hregs : ∀ x, Hart.get ⟨pc, r₃⟩ x = Hart.get ⟨pc, r⟩ x := by
    intro x
    by_cases hx : x = .zero
    · rw [hx]
      rfl
    rw [Hart.get_of_ne _ hx, Hart.get_of_ne _ hx]
    show r₃ x = r x
    by_cases hsp : x = .sp
    · rw [hsp, hsp₃, hsp₂, BitVec.add_assoc]
      exact BitVec.add_zero _
    · rw [hregs₃ x hx hsp, setReg_of_ne _ _ hsp]
  have hrun := reaches_core (keepsFloats_trapHandlerWrap h f)
    ((hsave.trans hhandler).trans hrestore)
  refine ⟨⟨⟨pc, r₃⟩, f, m₂⟩, ⟨r₃, f, m₂, hrun, rfl⟩, ⟨rfl, hregs, rfl⟩, fun x hx => ?_⟩
  have hframe : Mem.Outside (r .sp + -128) 128 x := by
    by_contra hin
    exact hx (hidden_of_lt hdepth (.inl hin))
  have hown : ¬ Hidden own depth (r .sp + -128) x :=
    fun hin => hx (hidden_of_lt hdepth (.inr hin))
  exact (hout₂ x hown).trans (hout₁ x hframe)

/-- A trap does one thing only. -/
lemma Trap.unique {s s' s'' : Core} (h : Trap trapVector env s s')
    (h' : Trap trapVector env s s'') : s' = s'' := by
  obtain ⟨r, f, m, hrun, rfl⟩ := h
  obtain ⟨r', f', m', hrun', rfl⟩ := h'
  have heval : (⟨⟨mretPc, r⟩, f, m⟩ : Core) ∈ eval (Core.next (trapHandlerWrap trapVector) env)
      ⟨⟨0, s.hart.regs⟩, s.fregs, s.mem⟩ := mem_eval.mpr ⟨hrun, rfl⟩
  have heval' : (⟨⟨mretPc, r'⟩, f', m'⟩ : Core) ∈ eval (Core.next (trapHandlerWrap trapVector) env)
      ⟨⟨0, s.hart.regs⟩, s.fregs, s.mem⟩ := mem_eval.mpr ⟨hrun', rfl⟩
  obtain ⟨hhart, rfl, rfl⟩ := Core.mk.inj (Part.mem_unique heval heval')
  obtain ⟨-, rfl⟩ := Hart.mk.inj hhart
  rfl

/-- A trap changes stale bytes only. -/
lemma Alike.trap (h : HandlerOk own depth (env.fns trapVector)) (hdepth : depth + 128 ≤ 2 ^ 64)
    {s s' : Core} {t : Core × (U64 → Prop)} (halike : Alike own (depth + 128) s t)
    (hs : StackApart own s) (htrap : Trap trapVector env s s') :
    Alike own (depth + 128) s' t := by
  obtain ⟨s'', htrap', hsame, hmem⟩ := exists_trap h hdepth s hs
  rw [htrap.unique htrap']
  refine ⟨⟨hsame.pc.trans halike.same.pc, fun x => (hsame.regs x).trans (halike.same.regs x),
    hsame.fregs.trans halike.same.fregs⟩, fun x hx => (hmem x fun hhidden => hx ?_).trans
      (halike.mem x hx)⟩
  rw [halike.same.regs] at hhidden
  exact .inr hhidden

/-- **Traps are transparent**: a trap always returns, and a run with traps at any of its points
leads to the state that the program reaches without them, with the same registers and the same
memory but for the bytes that have been the handler's since the program has last written them. -/
theorem traps_transparent (h : HandlerOk own depth (env.fns trapVector))
    (hdepth : depth + 128 ≤ 2 ^ 64) :
    (∀ s, StackApart own s → ∃ s', Trap trapVector env s s') ∧
      ∀ {step : Core → Option Core} {reads writes : Core → U64 → Prop},
        Footprint step reads writes → ∀ s s', Unaware own (depth + 128) step reads writes s →
          Relation.ReflTransGen
            (Interrupted step fun t t' => StackApart own t ∧ Trap trapVector env t t') s s' →
          ∃ t, Reaches (watch own (depth + 128) step writes) (s, fun _ => False) t ∧
            Reaches step s t.1 ∧ Alike own (depth + 128) s' t := by
  refine ⟨fun s hs => ?_, fun hfoot s s' hunaware hrun => ?_⟩
  · obtain ⟨s', hs', -⟩ := exists_trap h hdepth s hs
    exact ⟨s', hs'⟩
  · have h₀ : Alike own (depth + 128) s (s, fun _ => False) :=
      ⟨⟨rfl, fun _ => rfl, rfl⟩, fun _ _ => rfl⟩
    obtain ⟨t, ht, halike⟩ := exists_reaches_of_interrupted h₀
      (fun _ t _ ht halike hs => halike.next hfoot (hunaware t ht) hs)
      (fun _ _ _ halike htrap => halike.trap h hdepth htrap.1 htrap.2) hrun
    exact ⟨t, ht, reaches_of_watch ht, halike⟩

end Trap

/-! ### A program that counts -/

/-- A program that counts in memory. -/
def counting : List Op :=
  [.ld .t0 0 .a0,
   .base (.addi .t0 .t0 1),
   .sd .t0 0 .a0,
   .j 0]

/-- A handler that counts the traps in a byte of its own, and clobbers a register. -/
def countTraps : FFn := fun r f m =>
  (setReg r .t0 0, f, m.write 0x1000_0100 [m 0x1000_0100 + 1])

/-- The surroundings of the program and of the wrapper. -/
def countingEnv : FEnv where
  place pc := 0x1000_0000 + BitVec.ofNat 64 (4 * pc)
  fns _ := countTraps
  csr _ := 0
  fcvtDL v fcsr := (v, fcsr)

/-- The byte of the handler. -/
def IsTrapCount (x : U64) : Prop := x = 0x1000_0100

lemma handlerOk_countTraps : HandlerOk IsTrapCount 0 countTraps where
  saved r f m x hx := setReg_of_ne r 0 (by rintro rfl; revert hx; decide)
  floats _ _ _ := rfl
  writes r f m x hx := by
    show m.write 0x1000_0100 [_] x = m x
    rw [Mem.write_singleton]
    exact if_neg fun hown => hx (.inl hown)

/-- The counting program before its load, with its stack pointer and its counter. -/
def countingCore : Core where
  hart := ⟨0, setReg (fun _ => 0x1001_0000) .a0 0x1000_0800⟩
  fregs _ := 0
  mem _ := 0

/-- What stays in every run of the counting program: its stack pointer and its counter, whose bytes
the handler never has. -/
structure CounterFresh (t : Core × (U64 → Prop)) : Prop where
  sp : t.1.hart.get .sp = 0x1001_0000
  counter : t.1.hart.get .a0 = 0x1000_0800
  fresh : ∀ x, ¬ Mem.Outside 0x1000_0800 8 x → ¬ Stale IsTrapCount 128 t x

lemma not_hidden_counter {x : U64} (hx : ¬ Mem.Outside 0x1000_0800 8 x) :
    ¬ Hidden IsTrapCount 128 0x1001_0000 x := by
  rintro (rfl | hstack)
  · exact hx (by decide)
  · unfold Mem.Outside at hx hstack
    bv_omega

/-- The program writes no register but the one it counts in. -/
lemma get_of_counting {s s' : Core} (hs : Core.next counting countingEnv s = some s') {x : Reg}
    (hzero : x ≠ .zero) (hx : x ≠ .t0) : s'.hart.get x = s.hart.get x := by
  obtain ⟨op, hop, hexec⟩ := Core.next_eq_some hs
  have hmem := List.mem_of_getElem? hop
  rw [Hart.get_of_ne _ hzero, Hart.get_of_ne _ hzero]
  simp only [counting, List.mem_cons, List.not_mem_nil, or_false] at hmem
  rcases hmem with rfl | rfl | rfl | rfl
  · obtain rfl := Option.some.inj hexec
    exact setReg_of_ne _ _ hx
  · obtain rfl := Option.some.inj hexec
    exact setReg_of_ne _ _ hx
  · obtain rfl := Option.some.inj hexec
    rfl
  · obtain rfl := Option.some.inj hexec
    rfl

lemma CounterFresh.next {t t' : Core × (U64 → Prop)} (h : CounterFresh t)
    (hs : watch IsTrapCount 128 (Core.next counting countingEnv) (Core.Writes counting) t =
      some t') : CounterFresh t' := by
  obtain ⟨s', hs', rfl⟩ := Option.map_eq_some_iff.mp hs
  have hsp : s'.hart.get .sp = 0x1001_0000 :=
    (get_of_counting hs' (by decide) (by decide)).trans h.sp
  refine ⟨hsp, (get_of_counting hs' (by decide) (by decide)).trans h.counter, fun x hx => ?_⟩
  rintro (⟨hstale, -⟩ | hhidden)
  · exact h.fresh x hx hstale
  · exact not_hidden_counter hx (by rwa [← hsp])

lemma unaware_counting : Unaware IsTrapCount 128 (Core.next counting countingEnv)
    (Core.Reads counting) (Core.Writes counting) countingCore := by
  intro t ht
  have hfresh : CounterFresh t := by
    induction ht with
    | refl =>
      refine ⟨rfl, rfl, fun x hx => ?_⟩
      rintro (hfalse | hhidden)
      · exact hfalse
      · exact not_hidden_counter hx hhidden
    | tail _ hs ih => exact ih.next hs
  rintro x ⟨op, hop, hreads⟩
  have hmem := List.mem_of_getElem? hop
  simp only [counting, List.mem_cons, List.not_mem_nil, or_false] at hmem
  rcases hmem with rfl | rfl | rfl | rfl
  · refine hfresh.fresh x ?_
    rw [Op.Reads, hfresh.counter] at hreads
    exact hreads
  · exact hreads.elim
  · exact hreads.elim
  · exact hreads.elim

/-- A trap in the counting program. -/
theorem traps_transparent_counting :
    ∃ s', Trap 0x1000_0200 countingEnv countingCore s' ∧
      ∃ t, Reaches (watch IsTrapCount 128 (Core.next counting countingEnv) (Core.Writes counting))
        (countingCore, fun _ => False) t ∧
          Reaches (Core.next counting countingEnv) countingCore t.1 ∧
            Alike IsTrapCount 128 s' t := by
  have hapart : StackApart IsTrapCount countingCore := by
    rintro x rfl
    decide
  have hhandler : HandlerOk IsTrapCount 0 (countingEnv.fns 0x1000_0200) := handlerOk_countTraps
  have hcall : ∀ sym, Op.call sym ∉ counting := by
    intro sym
    simp [counting]
  obtain ⟨htotal, hruns⟩ := traps_transparent hhandler (by decide)
  obtain ⟨s', hs'⟩ := htotal _ hapart
  exact ⟨s', hs', hruns (footprint_next counting countingEnv hcall) _ _ unaware_counting
    (.single (.inr ⟨hapart, hs'⟩))⟩

end Cheshire.Sw.Crt0
