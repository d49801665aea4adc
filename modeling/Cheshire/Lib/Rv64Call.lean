import Cheshire.Lib.Rv64
import Mathlib.Computability.StateTransition

/-!
A single hart that runs a piece of code with calls: more instructions, 64-bit words in memory, and
the runs up to a return.  Status registers are not followed, and what becomes of the floating-point
registers is left to the cores.
-/

namespace Cheshire.Lib

namespace Mem

variable {w : ℕ}

/-- The 64-bit word at an address. -/
def loadD (m : Mem w) (a : BitVec w) : BitVec 64 := BitVec.ofNat 64 (ofLe (m.slice a 8))

/-- The memory after a 64-bit word is stored. -/
def storeD (m : Mem w) (a : BitVec w) (v : BitVec 64) : Mem w := m.write a (toLe 8 v.toNat)

/-- A word is what its bytes are. -/
theorem loadD_eq_iff (m : Mem w) (a : BitVec w) (v : BitVec 64) :
    m.loadD a = v ↔ m.slice a 8 = toLe 8 v.toNat := by
  have hlt : ofLe (m.slice a 8) < 2 ^ 64 := by
    have h := ofLe_lt (m.slice a 8)
    rw [length_slice] at h
    exact Nat.lt_of_lt_of_eq h (by norm_num)
  have hround := toLe_ofLe (m.slice a 8)
  rw [length_slice] at hround
  constructor
  · rintro rfl
    rw [loadD, BitVec.toNat_ofNat, Nat.mod_eq_of_lt hlt, hround]
  · intro h
    rw [loadD, h, ofLe_toLe_of_lt (Nat.lt_of_lt_of_eq v.isLt (by norm_num)), BitVec.ofNat_toNat,
      BitVec.setWidth_eq]

end Mem

namespace Rv64

/-- The status registers that are written. -/
inductive StatusReg where
  | mstatus | mtvec

/-- Instructions beside those of `Instr`, among them a call and a return. -/
inductive Op where
  | base (i : Instr)
  | mv (rd rs : Reg)
  | sub (rd rs₁ rs₂ : Reg)
  | ori (rd rs : Reg) (imm : BitVec 64)
  | ld (rd : Reg) (offs : BitVec 64) (rs : Reg)
  | sd (rs₂ : Reg) (offs : BitVec 64) (rs₁ : Reg)
  | sb (rs₂ : Reg) (offs : BitVec 64) (rs₁ : Reg)
  | blez (rs : Reg) (tgt : ℕ)
  | bgt (rs₁ rs₂ : Reg) (tgt : ℕ)
  | j (tgt : ℕ)
  | csrci (csr : StatusReg) (imm : ℕ)
  | csrc (csr : StatusReg) (rs : Reg)
  | csrs (csr : StatusReg) (rs : Reg)
  | csrw (csr : StatusReg) (rs : Reg)
  | fcvtDL (fd : ℕ) (rs : Reg)
  | fmvD (fd fs : ℕ)
  | call (sym : BitVec 64)
  | ret

/-- The registers. -/
abbrev Regs := Reg → BitVec 64

/-- A function that is called: what it makes of the registers and the memory. -/
abbrev Fn := Regs → Mem 64 → Regs × Mem 64

/-- What a call leaves alone besides the frames below it. -/
def calleeSaved : List Reg :=
  [.sp, .gp, .tp, .s0, .s1, .s2, .s3, .s4, .s5, .s6, .s7, .s8, .s9, .s10, .s11]

/-- **The calling convention**, for a caller with a frame of `frame` bytes. -/
structure Obeys (frame : ℕ) (f : Fn) : Prop where
  saved : ∀ r m, ∀ x ∈ calleeSaved, (f r m).1 x = r x
  frame : ∀ r m x, ¬ Mem.Outside (r .sp) frame x → (f r m).2 x = m x

/-- The surroundings of a piece of code: the addresses of its places, the functions it calls, and
what the status registers hold that it reads. -/
structure Env where
  place : ℕ → BitVec 64
  fns : BitVec 64 → Fn
  csr : Csr → BitVec 64

/-- One instruction; a return leaves the code. -/
def Op.exec (env : Env) (h : Hart) (m : Mem 64) : Op → Option (Hart × Mem 64)
  | base i => i.exec env.csr h m
  | mv rd rs => some (h.put rd (h.get rs), m)
  | sub rd rs₁ rs₂ => some (h.put rd (h.get rs₁ - h.get rs₂), m)
  | ori rd rs imm => some (h.put rd (h.get rs ||| imm), m)
  | ld rd offs rs => some (h.put rd (m.loadD (h.get rs + offs)), m)
  | sd rs₂ offs rs₁ => some (⟨h.pc + 1, h.regs⟩, m.storeD (h.get rs₁ + offs) (h.get rs₂))
  | sb rs₂ offs rs₁ =>
    some (⟨h.pc + 1, h.regs⟩, m.write (h.get rs₁ + offs) [(h.get rs₂).setWidth 8])
  | blez rs tgt => some (h.branch ((h.get rs).sle 0) tgt, m)
  | bgt rs₁ rs₂ tgt => some (h.branch ((h.get rs₂).slt (h.get rs₁)) tgt, m)
  | j tgt => some (⟨tgt, h.regs⟩, m)
  | csrci .. | csrc .. | csrs .. | csrw .. | fcvtDL .. | fmvD .. => some (⟨h.pc + 1, h.regs⟩, m)
  | call sym =>
    let (r, m) := env.fns sym (setReg h.regs .ra (env.place (h.pc + 1))) m
    some (⟨h.pc + 1, r⟩, m)
  | ret => none

/-- One step of the hart. -/
def next (code : List Op) (env : Env) (s : Hart × Mem 64) : Option (Hart × Mem 64) :=
  match code[s.1.pc]? with
  | some op => op.exec env s.1 s.2
  | none => none

variable {code : List Op} {env : Env}

/-- The instruction goes on with the next one, where it goes on in the code. -/
def Op.straight : Op → Bool
  | base (.blt ..) | base (.beqz ..) | base (.bnez ..) => false
  | blez .. | bgt .. | j .. => false
  | _ => true

theorem Op.pc_of_straight {op : Op} (hop : op.straight = true) {h h' : Hart} {m m' : Mem 64}
    (hexec : op.exec env h m = some (h', m')) : h'.pc = h.pc + 1 := by
  cases op with
  | base i =>
    cases i with
    | blt | beqz | bnez => cases hop
    | jalr => cases hexec
    | _ =>
      obtain ⟨rfl, -⟩ := Prod.mk.inj (Option.some.inj hexec)
      rfl
  | blez | bgt | j => cases hop
  | ret => cases hexec
  | _ =>
    obtain ⟨rfl, -⟩ := Prod.mk.inj (Option.some.inj hexec)
    rfl

lemma next_eq_some {h : Hart} {m : Mem 64} {s : Hart × Mem 64} (hs : next code env (h, m) = some s) :
    ∃ op, code[h.pc]? = some op ∧ op.exec env h m = some s := by
  unfold next at hs
  split at hs
  · next op hop => exact ⟨op, hop, hs⟩
  · cases hs

/-- A block without a branch, step by step. -/
lemma reaches_of_next {s s' s'' : Hart × Mem 64} (h : next code env s = some s')
    (h' : StateTransition.Reaches (next code env) s' s'') :
    StateTransition.Reaches (next code env) s s'' := .head h h'

/-- The state after `n` steps. -/
def nexts (code : List Op) (env : Env) : ℕ → Hart × Mem 64 → Option (Hart × Mem 64)
  | 0, s => some s
  | n + 1, s => next code env s >>= nexts code env n

lemma reaches_of_nexts : ∀ (n : ℕ) {s s' : Hart × Mem 64}, nexts code env n s = some s' →
    StateTransition.Reaches (next code env) s s' := by
  intro n
  induction n with
  | zero =>
    intro s s' h
    obtain rfl : s = s' := Option.some.inj h
    exact .refl
  | succ n ih =>
    intro s s' h
    rw [nexts, Option.bind_eq_bind, Option.bind_eq_some_iff] at h
    obtain ⟨t, ht, hrest⟩ := h
    exact .head ht (ih hrest)

end Rv64

end Cheshire.Lib
