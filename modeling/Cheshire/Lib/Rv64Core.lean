import Cheshire.Lib.Rv64Call

/-!
A single hart with its floating-point registers: its steps beside those that leave these registers
alone, and what of the memory a step reads and writes.
-/

namespace Cheshire.Lib.Rv64

open StateTransition

/-! ### Cores -/

/-- The floating-point registers, and their control and status register. -/
inductive FReg where
  | f (n : ℕ)
  | fcsr
  deriving DecidableEq

/-- The floating-point registers with their values. -/
abbrev FRegs := FReg → BitVec 64

/-- A hart with its floating-point registers and its memory. -/
structure Core where
  hart : Hart
  fregs : FRegs
  mem : Mem 64

/-- A function that is called: what it makes of all registers and of the memory. -/
abbrev FFn := Regs → FRegs → Mem 64 → Regs × FRegs × Mem 64

/-- The surroundings of a piece of code, with the value and the `fcsr` that a conversion of an
integer gives. -/
structure FEnv where
  place : ℕ → BitVec 64
  fns : BitVec 64 → FFn
  csr : Csr → BitVec 64
  fcvtDL : BitVec 64 → BitVec 64 → BitVec 64 × BitVec 64

/-- The surroundings while the floating-point registers hold `f`. -/
def FEnv.at (env : FEnv) (f : FRegs) : Env where
  place := env.place
  fns sym r m := ((env.fns sym r f m).1, (env.fns sym r f m).2.2)
  csr := env.csr

/-- One instruction; all but these three leave the floating-point registers alone. -/
def Op.fexec (env : FEnv) (s : Core) : Op → Option Core
  | fcvtDL fd rs =>
    let (v, fcsr) := env.fcvtDL (s.hart.get rs) (s.fregs .fcsr)
    some ⟨⟨s.hart.pc + 1, s.hart.regs⟩,
      Function.update (Function.update s.fregs .fcsr fcsr) (.f fd) v, s.mem⟩
  | fmvD fd fs =>
    some ⟨⟨s.hart.pc + 1, s.hart.regs⟩, Function.update s.fregs (.f fd) (s.fregs (.f fs)), s.mem⟩
  | call sym =>
    let (r, f, m) :=
      env.fns sym (setReg s.hart.regs .ra (env.place (s.hart.pc + 1))) s.fregs s.mem
    some ⟨⟨s.hart.pc + 1, r⟩, f, m⟩
  | op => (op.exec (env.at s.fregs) s.hart s.mem).map fun (h, m) => ⟨h, s.fregs, m⟩

/-- One step of the core. -/
def Core.next (code : List Op) (env : FEnv) (s : Core) : Option Core :=
  match code[s.hart.pc]? with
  | some op => op.fexec env s
  | none => none

lemma Core.next_eq_some {code : List Op} {env : FEnv} {s s' : Core}
    (h : Core.next code env s = some s') :
    ∃ op, code[s.hart.pc]? = some op ∧ op.fexec env s = some s' := by
  unfold Core.next at h
  split at h
  · next op hop => exact ⟨op, hop, h⟩
  · cases h

/-! ### Steps that leave the floating-point registers alone -/

section Lift

variable {code : List Op} {env : FEnv} {f : FRegs}

/-- An instruction, where the functions it calls give back the floating-point registers `f`. -/
def Op.KeepsFloats (env : FEnv) (f : FRegs) : Op → Prop
  | fcvtDL .. | fmvD .. => False
  | call sym => ∀ r m, (env.fns sym r f m).2.1 = f
  | _ => True

lemma Op.fexec_eq {op : Op} (hop : op.KeepsFloats env f) (h : Hart) (m : Mem 64) :
    op.fexec env ⟨h, f, m⟩ = (op.exec (env.at f) h m).map fun s => ⟨s.1, f, s.2⟩ := by
  cases op with
  | fcvtDL | fmvD => exact hop.elim
  | call sym =>
    exact congrArg (fun g => some (Core.mk _ g _)) (hop _ m)
  | _ => rfl

/-- **A run of the hart is a run of the core** that leaves the floating-point registers alone. -/
theorem reaches_core (hcode : ∀ op ∈ code, op.KeepsFloats env f)
    {s s' : Hart × Mem 64} (h : Reaches (Rv64.next code (env.at f)) s s') :
    Reaches (Core.next code env) ⟨s.1, f, s.2⟩ ⟨s'.1, f, s'.2⟩ := by
  induction h with
  | refl => exact .refl
  | @tail t u _ hs ih =>
    obtain ⟨op, hop, hexec⟩ := next_eq_some hs
    have hstep : Core.next code env ⟨t.1, f, t.2⟩ = some ⟨u.1, f, u.2⟩ := by
      unfold Core.next
      rw [show code[t.1.pc]? = some op from hop]
      show op.fexec env ⟨t.1, f, t.2⟩ = _
      rw [Op.fexec_eq (hcode op (List.mem_of_getElem? hop)), hexec]
      rfl
    exact ih.tail hstep

end Lift

/-! ### Footprints -/

/-- The same place and the same registers. -/
structure Core.Same (s t : Core) : Prop where
  pc : s.hart.pc = t.hart.pc
  regs : ∀ x, s.hart.get x = t.hart.get x
  fregs : s.fregs = t.fregs

/-- The steps `step` read and write no other memory than `reads` and `writes` say. -/
structure Footprint (step : Core → Option Core) (reads writes : Core → BitVec 64 → Prop) :
    Prop where
  frame : ∀ s s' x, step s = some s' → ¬ writes s x → s'.mem x = s.mem x
  same : ∀ s t s', s.Same t → (∀ x, reads t x → s.mem x = t.mem x) → step s = some s' →
    ∃ t', step t = some t' ∧ s'.Same t' ∧
      ∀ x, (writes s x → writes t x) ∧ (writes t x → s'.mem x = t'.mem x)

/-- The bytes that an instruction reads. -/
def Op.Reads (h : Hart) (x : BitVec 64) : Op → Prop
  | base (.lw _ offs rs) | base (.lwu _ offs rs) => ¬ Mem.Outside (h.get rs + offs) 4 x
  | ld _ offs rs => ¬ Mem.Outside (h.get rs + offs) 8 x
  | _ => False

/-- The bytes that it writes. -/
def Op.Writes (h : Hart) (x : BitVec 64) : Op → Prop
  | base (.sw _ offs rs) => ¬ Mem.Outside (h.get rs + offs) 4 x
  | sd _ offs rs => ¬ Mem.Outside (h.get rs + offs) 8 x
  | sb _ offs rs => ¬ Mem.Outside (h.get rs + offs) 1 x
  | _ => False

/-- The bytes that the next instruction reads. -/
def Core.Reads (code : List Op) (s : Core) (x : BitVec 64) : Prop :=
  ∃ op, code[s.hart.pc]? = some op ∧ op.Reads s.hart x

/-- The bytes that it writes. -/
def Core.Writes (code : List Op) (s : Core) (x : BitVec 64) : Prop :=
  ∃ op, code[s.hart.pc]? = some op ∧ op.Writes s.hart x

/-- A register is written alike. -/
lemma Core.Same.put {s t : Core} (h : s.Same t) (rd : Reg) {v v' : BitVec 64} (hv : v = v')
    (m m' : Mem 64) :
    Core.Same ⟨s.hart.put rd v, s.fregs, m⟩ ⟨t.hart.put rd v', t.fregs, m'⟩ := by
  refine ⟨congrArg (· + 1) h.pc, fun x => ?_, h.fregs⟩
  by_cases hzero : x = .zero
  · rw [hzero]
    rfl
  rw [Hart.get_of_ne _ hzero, Hart.get_of_ne _ hzero]
  show setReg s.hart.regs rd v x = setReg t.hart.regs rd v' x
  have hx := h.regs x
  rw [Hart.get_of_ne _ hzero, Hart.get_of_ne _ hzero] at hx
  rw [setReg, setReg, hv, hx]

/-- The core goes on to a place, with the registers as they are. -/
lemma Core.Same.goto {s t : Core} (h : s.Same t) {pc pc' : ℕ} (hpc : pc = pc') {f f' : FRegs}
    (hf : f = f') (m m' : Mem 64) :
    Core.Same ⟨⟨pc, s.hart.regs⟩, f, m⟩ ⟨⟨pc', t.hart.regs⟩, f', m'⟩ :=
  ⟨hpc, h.regs, hf⟩

section Code

variable {code : List Op} {env : FEnv}

/-- **An instruction writes its bytes only.** -/
lemma Op.mem_of_fexec {op : Op} (hcall : ∀ sym, op ≠ .call sym) {s s' : Core} {x : BitVec 64}
    (hexec : op.fexec env s = some s') (hx : ¬ op.Writes s.hart x) : s'.mem x = s.mem x := by
  cases op with
  | base i =>
    cases i with
    | sw rs₂ offs rs =>
      obtain rfl := Option.some.inj hexec
      exact Mem.write_outside _ (by rw [length_toLe]; exact not_not.mp hx)
    | jalr => cases hexec
    | _ =>
      obtain rfl := Option.some.inj hexec
      rfl
  | sd rs₂ offs rs =>
    obtain rfl := Option.some.inj hexec
    exact Mem.write_outside _ (by rw [length_toLe]; exact not_not.mp hx)
  | sb rs₂ offs rs =>
    obtain rfl := Option.some.inj hexec
    exact Mem.write_outside _ (not_not.mp hx)
  | call sym => exact absurd rfl (hcall sym)
  | ret => cases hexec
  | _ =>
    obtain rfl := Option.some.inj hexec
    rfl

/-- Loads from a run of bytes on which two memories agree. -/
lemma slice_of_agree {m m' : Mem 64} {a : BitVec 64} {n : ℕ} (hn : n < 2 ^ 64)
    (h : ∀ x, ¬ Mem.Outside a n x → m x = m' x) : m.slice a n = m'.slice a n := by
  refine Mem.slice_congr fun i hi => h _ ?_
  rw [Mem.Outside, Mem.toNat_add_sub_self a (by omega)]
  omega

/-- What an instruction writes depends on the registers only. -/
lemma Core.Same.writes_iff {s t : Core} (h : s.Same t) {op : Op} {x : BitVec 64} :
    op.Writes s.hart x ↔ op.Writes t.hart x := by
  have hget : s.hart.get = t.hart.get := funext h.regs
  cases op with
  | base i =>
    cases i with
    | sw => rw [Op.Writes, Op.Writes, hget]
    | _ => exact Iff.rfl
  | sd | sb => rw [Op.Writes, Op.Writes, hget]
  | _ => exact Iff.rfl

/-- A store of the same bytes at the same address. -/
lemma Core.Same.store {s t : Core} (h : s.Same t) {a a' : BitVec 64} {bs bs' : List Byte}
    (ha : a = a') (hbs : bs = bs') :
    Core.Same ⟨⟨s.hart.pc + 1, s.hart.regs⟩, s.fregs, s.mem.write a bs⟩
        ⟨⟨t.hart.pc + 1, t.hart.regs⟩, t.fregs, t.mem.write a' bs'⟩ ∧
      ∀ x, ¬ Mem.Outside a' bs'.length x → s.mem.write a bs x = t.mem.write a' bs' x := by
  subst ha hbs
  exact ⟨h.goto (congrArg (· + 1) h.pc) h.fregs _ _, fun x hx => Mem.write_inside _ _ hx⟩

/-- What an instruction does in two states: it goes on alike, and writes alike. -/
def Op.Agrees (env : FEnv) (op : Op) (t s' : Core) : Prop :=
  ∃ t', op.fexec env t = some t' ∧ s'.Same t' ∧ ∀ x, op.Writes t.hart x → s'.mem x = t'.mem x

lemma Instr.agrees {i : Instr} {s t s' : Core} (h : s.Same t)
    (hreads : ∀ x, (Op.base i).Reads t.hart x → s.mem x = t.mem x)
    (hexec : (Op.base i).fexec env s = some s') : (Op.base i).Agrees env t s' := by
  have hget : s.hart.get = t.hart.get := funext h.regs
  cases i with
  | lw rd offs rs | lwu rd offs rs =>
    obtain rfl := Option.some.inj hexec
    have hload := slice_of_agree (by decide) hreads
    refine ⟨_, rfl, h.put rd ?_ _ _, fun _ hx => hx.elim⟩
    rw [hget, Mem.loadW, hload]
    rfl
  | sw rs₂ offs rs =>
    obtain rfl := Option.some.inj hexec
    exact ⟨_, rfl, h.store (by rw [hget]) (by rw [hget])⟩
  | blt | beqz | bnez =>
    obtain rfl := Option.some.inj hexec
    refine ⟨_, rfl, h.goto ?_ h.fregs _ _, fun _ hx => hx.elim⟩
    rw [hget, h.pc]
  | wfi | fence =>
    obtain rfl := Option.some.inj hexec
    exact ⟨_, rfl, h.goto (congrArg (· + 1) h.pc) h.fregs _ _, fun _ hx => hx.elim⟩
  | jalr => cases hexec
  | li | la | csrr =>
    obtain rfl := Option.some.inj hexec
    exact ⟨_, rfl, h.put _ rfl _ _, fun _ hx => hx.elim⟩
  | addi rd | add rd | slli rd | srli rd | andi rd | or rd =>
    obtain rfl := Option.some.inj hexec
    exact ⟨_, rfl, h.put rd (by rw [hget]) _ _, fun _ hx => hx.elim⟩

/-- **An instruction does the same** in states that agree on what it reads. -/
theorem Op.agrees {op : Op} (hcall : ∀ sym, op ≠ .call sym) {s t s' : Core} (h : s.Same t)
    (hreads : ∀ x, op.Reads t.hart x → s.mem x = t.mem x) (hexec : op.fexec env s = some s') :
    op.Agrees env t s' := by
  have hget : s.hart.get = t.hart.get := funext h.regs
  cases op with
  | base i => exact Instr.agrees h hreads hexec
  | ld rd offs rs =>
    obtain rfl := Option.some.inj hexec
    have hload := slice_of_agree (by decide) hreads
    refine ⟨_, rfl, h.put rd ?_ _ _, fun _ hx => hx.elim⟩
    rw [hget, Mem.loadD, hload]
    rfl
  | sd | sb =>
    obtain rfl := Option.some.inj hexec
    exact ⟨_, rfl, h.store (by rw [hget]) (by rw [hget])⟩
  | blez | bgt =>
    obtain rfl := Option.some.inj hexec
    refine ⟨_, rfl, h.goto ?_ h.fregs _ _, fun _ hx => hx.elim⟩
    rw [hget, h.pc]
  | j tgt =>
    obtain rfl := Option.some.inj hexec
    exact ⟨_, rfl, h.goto rfl h.fregs _ _, fun _ hx => hx.elim⟩
  | csrci | csrc | csrs | csrw =>
    obtain rfl := Option.some.inj hexec
    exact ⟨_, rfl, h.goto (congrArg (· + 1) h.pc) h.fregs _ _, fun _ hx => hx.elim⟩
  | fcvtDL fd rs =>
    obtain rfl := Option.some.inj hexec
    refine ⟨_, rfl, h.goto (congrArg (· + 1) h.pc) ?_ _ _, fun _ hx => hx.elim⟩
    rw [hget, h.fregs]
  | fmvD fd fs =>
    obtain rfl := Option.some.inj hexec
    refine ⟨_, rfl, h.goto (congrArg (· + 1) h.pc) ?_ _ _, fun _ hx => hx.elim⟩
    rw [h.fregs]
  | call sym => exact absurd rfl (hcall sym)
  | ret => cases hexec
  | mv rd | sub rd | ori rd =>
    obtain rfl := Option.some.inj hexec
    exact ⟨_, rfl, h.put rd (by rw [hget]) _ _, fun _ hx => hx.elim⟩

lemma ne_call (hcall : ∀ sym, Op.call sym ∉ code) {pc : ℕ} {op : Op} (hop : code[pc]? = some op)
    (sym : BitVec 64) : op ≠ .call sym := by
  rintro rfl
  exact hcall sym (List.mem_of_getElem? hop)

variable (code env) in
/-- **Machine code without calls** reads and writes what its instructions name. -/
theorem footprint_next (hcall : ∀ sym, Op.call sym ∉ code) :
    Footprint (Core.next code env) (Core.Reads code) (Core.Writes code) where
  frame s s' x hs hx := by
    obtain ⟨op, hop, hexec⟩ := Core.next_eq_some hs
    exact Op.mem_of_fexec (ne_call hcall hop) hexec fun hw => hx ⟨op, hop, hw⟩
  same s t s' h hreads hs := by
    obtain ⟨op, hop, hexec⟩ := Core.next_eq_some hs
    have hop' : code[t.hart.pc]? = some op := by rwa [← h.pc]
    obtain ⟨t', ht', hsame, hwrites⟩ :=
      Op.agrees (ne_call hcall hop) h (fun x hx => hreads x ⟨op, hop', hx⟩) hexec
    refine ⟨t', ?_, hsame, fun x => ⟨?_, ?_⟩⟩
    · unfold Core.next
      rw [hop']
      exact ht'
    · rintro ⟨op', hs', hw⟩
      rw [hop] at hs'
      obtain rfl := Option.some.inj hs'
      exact ⟨op, hop', h.writes_iff.mp hw⟩
    · rintro ⟨op', ht₀, hw⟩
      rw [hop'] at ht₀
      obtain rfl := Option.some.inj ht₀
      exact hwrites x hw

end Code

end Cheshire.Lib.Rv64
