import Cheshire.Lib.Mem
import Mathlib.Logic.Function.Basic
import Mathlib.Logic.Relation

/-!
Harts of a 64-bit RISC-V machine on one sequentially consistent memory: the instructions of a
program, what one of them does to its hart and to the memory, and the runs of several harts in any
interleaving.
-/

namespace Cheshire.Lib

/-! ### Words in memory -/

namespace Mem

variable {w : ℕ}

/-- The 32-bit word at an address. -/
def loadW (m : Mem w) (a : BitVec w) : BitVec 32 := BitVec.ofNat 32 (ofLe (m.slice a 4))

/-- The memory after a 32-bit word is stored. -/
def storeW (m : Mem w) (a : BitVec w) (v : BitVec 32) : Mem w := m.write a (toLe 4 v.toNat)

theorem loadW_storeW_self (m : Mem w) (a : BitVec w) (v : BitVec 32) (hw : 2 ≤ w) :
    (m.storeW a v).loadW a = v := by
  have hlen : (toLe 4 v.toNat).length = 4 := length_toLe 4 _
  have h4 : 4 ≤ 2 ^ w := by
    calc 4 = 2 ^ 2 := rfl
      _ ≤ 2 ^ w := Nat.pow_le_pow_right (by decide) hw
  have hslice := slice_write_self m a (toLe 4 v.toNat) (by rwa [hlen])
  rw [hlen] at hslice
  rw [loadW, storeW, hslice, ofLe_toLe_of_lt v.isLt, BitVec.ofNat_toNat, BitVec.setWidth_eq]

/-- A store leaves the words beside it alone. -/
theorem loadW_storeW_of_apart (m : Mem w) {a b : BitVec w} (v : BitVec 32) (ha : a.toNat + 4 ≤ 2 ^ w)
    (hb : b.toNat + 4 ≤ 2 ^ w) (h : a.toNat + 4 ≤ b.toNat ∨ b.toNat + 4 ≤ a.toNat) :
    (m.storeW a v).loadW b = m.loadW b := by
  have hout : ∀ i < 4, m.storeW a v (b + BitVec.ofNat w i) = m (b + BitVec.ofNat w i) := by
    intro i hi
    refine write_outside m ?_
    rw [Outside, length_toLe, BitVec.toNat_sub, BitVec.toNat_add, BitVec.toNat_ofNat,
      Nat.mod_eq_of_lt (a := i) (by omega), Nat.mod_eq_of_lt (a := b.toNat + i) (by omega)]
    rcases h with h | h
    · rw [show 2 ^ w - a.toNat + (b.toNat + i) = (b.toNat + i - a.toNat) + 2 ^ w by omega,
        Nat.add_mod_right, Nat.mod_eq_of_lt (by omega)]
      omega
    · rw [Nat.mod_eq_of_lt (by omega)]
      omega
  rw [loadW, loadW, slice_congr hout]

end Mem

namespace Rv64

/-! ### Instructions -/

/-- The integer registers by their ABI names. -/
inductive Reg where
  | zero | ra | sp | gp | tp | t0 | t1 | t2 | s0 | s1 | a0 | a1 | a2 | a3 | a4 | a5 | a6 | a7
  | s2 | s3 | s4 | s5 | s6 | s7 | s8 | s9 | s10 | s11 | t3 | t4 | t5 | t6
  deriving DecidableEq

/-- The control and status registers that are read. -/
inductive Csr where
  | mhartid | mip
  deriving DecidableEq

/-- Instructions and pseudoinstructions; a branch names the place of its target in the program. -/
inductive Instr where
  | li (rd : Reg) (v : BitVec 64)
  | la (rd : Reg) (sym : BitVec 64)
  | lw (rd : Reg) (offs : BitVec 64) (rs : Reg)
  | lwu (rd : Reg) (offs : BitVec 64) (rs : Reg)
  | sw (rs₂ : Reg) (offs : BitVec 64) (rs₁ : Reg)
  | addi (rd rs : Reg) (imm : BitVec 64)
  | add (rd rs₁ rs₂ : Reg)
  | slli (rd rs : Reg) (shamt : ℕ)
  | srli (rd rs : Reg) (shamt : ℕ)
  | andi (rd rs : Reg) (imm : BitVec 64)
  | or (rd rs₁ rs₂ : Reg)
  | csrr (rd : Reg) (csr : Csr)
  | blt (rs₁ rs₂ : Reg) (tgt : ℕ)
  | beqz (rs : Reg) (tgt : ℕ)
  | bnez (rs : Reg) (tgt : ℕ)
  | wfi
  | fence
  | jalr (rd : Reg) (offs : BitVec 64) (rs : Reg)

/-- A hart: its place in the program and its integer registers. -/
structure Hart where
  pc : ℕ
  regs : Reg → BitVec 64

/-- The registers after a write; `zero` stays zero. -/
def setReg (r : Reg → BitVec 64) (rd : Reg) (v : BitVec 64) : Reg → BitVec 64 :=
  fun x => if x = rd ∧ rd ≠ .zero then v else r x

@[simp] lemma setReg_self (r : Reg → BitVec 64) {rd : Reg} (v : BitVec 64) (h : rd ≠ .zero) :
    setReg r rd v rd = v := if_pos ⟨rfl, h⟩

@[simp] lemma setReg_of_ne (r : Reg → BitVec 64) {rd x : Reg} (v : BitVec 64) (h : x ≠ rd) :
    setReg r rd v x = r x := if_neg fun hx => h hx.1

/-- The value of a register; `zero` reads as zero. -/
def Hart.get (h : Hart) : Reg → BitVec 64
  | .zero => 0
  | r => h.regs r

lemma Hart.get_of_ne (h : Hart) {x : Reg} (hx : x ≠ .zero) : h.get x = h.regs x := by
  cases x <;> first | rfl | exact absurd rfl hx

/-- The hart after an instruction that writes a register. -/
def Hart.put (h : Hart) (rd : Reg) (v : BitVec 64) : Hart := ⟨h.pc + 1, setReg h.regs rd v⟩

/-- The hart after a branch. -/
def Hart.branch (h : Hart) (taken : Bool) (tgt : ℕ) : Hart :=
  ⟨if taken then tgt else h.pc + 1, h.regs⟩

/-- One instruction, with the values that its reads of status registers give.  A jump through a
register leaves the program: the hart is followed up to it. -/
def Instr.exec (csr : Csr → BitVec 64) (h : Hart) (m : Mem 64) : Instr → Option (Hart × Mem 64)
  | li rd v => some (h.put rd v, m)
  | la rd sym => some (h.put rd sym, m)
  | lw rd offs rs => some (h.put rd ((m.loadW (h.get rs + offs)).signExtend 64), m)
  | lwu rd offs rs => some (h.put rd ((m.loadW (h.get rs + offs)).setWidth 64), m)
  | sw rs₂ offs rs₁ =>
    some (⟨h.pc + 1, h.regs⟩, m.storeW (h.get rs₁ + offs) ((h.get rs₂).setWidth 32))
  | addi rd rs imm => some (h.put rd (h.get rs + imm), m)
  | add rd rs₁ rs₂ => some (h.put rd (h.get rs₁ + h.get rs₂), m)
  | slli rd rs shamt => some (h.put rd (h.get rs <<< shamt), m)
  | srli rd rs shamt => some (h.put rd (h.get rs >>> shamt), m)
  | andi rd rs imm => some (h.put rd (h.get rs &&& imm), m)
  | or rd rs₁ rs₂ => some (h.put rd (h.get rs₁ ||| h.get rs₂), m)
  | csrr rd c => some (h.put rd (csr c), m)
  | blt rs₁ rs₂ tgt => some (h.branch ((h.get rs₁).slt (h.get rs₂)) tgt, m)
  | beqz rs tgt => some (h.branch (h.get rs == 0) tgt, m)
  | bnez rs tgt => some (h.branch (h.get rs != 0) tgt, m)
  | wfi => some (⟨h.pc + 1, h.regs⟩, m)
  | fence => some (⟨h.pc + 1, h.regs⟩, m)
  | jalr .. => none

/-- The address that a jump through a register names; the hart drops its lowest bit. -/
def Instr.jump (h : Hart) : Instr → Option (BitVec 64)
  | jalr _ offs rs => some (h.get rs + offs)
  | _ => none

/-! ### Interleaving -/

/-- Harts on one memory. -/
structure Machine where
  hart : ℕ → Hart
  mem : Mem 64

namespace Machine

/-- The machine after the hart `j` has become `h` and the memory `m`. -/
def set (s : Machine) (j : ℕ) (h : Hart) (m : Mem 64) : Machine :=
  ⟨Function.update s.hart j h, m⟩

@[simp] lemma set_hart_self (s : Machine) (j : ℕ) (h : Hart) (m : Mem 64) :
    (s.set j h m).hart j = h := Function.update_self ..

@[simp] lemma set_hart_of_ne (s : Machine) {j l : ℕ} (h : Hart) (m : Mem 64) (hl : l ≠ j) :
    (s.set j h m).hart l = s.hart l := Function.update_of_ne hl ..

@[simp] lemma set_mem (s : Machine) (j : ℕ) (h : Hart) (m : Mem 64) : (s.set j h m).mem = m := rfl

end Machine

/-- One step of the hart `j`, whose status registers may read as `csrOk` allows. -/
def HartStep (code : List Instr) (csrOk : ℕ → Mem 64 → (Csr → BitVec 64) → Prop) (j : ℕ)
    (s s' : Machine) : Prop :=
  ∃ i csr h m, code[(s.hart j).pc]? = some i ∧ csrOk j s.mem csr ∧
    i.exec csr (s.hart j) s.mem = some (h, m) ∧ s' = s.set j h m

/-- One step of one of the first `n` harts. -/
def Step (code : List Instr) (csrOk : ℕ → Mem 64 → (Csr → BitVec 64) → Prop) (n : ℕ)
    (s s' : Machine) : Prop :=
  ∃ j < n, HartStep code csrOk j s s'

/-- The states that are reached in some interleaving. -/
abbrev Reach (code : List Instr) (csrOk : ℕ → Mem 64 → (Csr → BitVec 64) → Prop) (n : ℕ) :
    Machine → Machine → Prop :=
  Relation.ReflTransGen (Step code csrOk n)

/-- What holds at the start, and after every step, holds in every state that is reached. -/
theorem Reach.inv {code : List Instr} {csrOk : ℕ → Mem 64 → (Csr → BitVec 64) → Prop} {n : ℕ}
    {I : Machine → Prop} {s₀ s : Machine} (h : Reach code csrOk n s₀ s) (h₀ : I s₀)
    (hstep : ∀ j s s', j < n → HartStep code csrOk j s s' → I s → I s') : I s := by
  induction h with
  | refl => exact h₀
  | tail _ hs ih =>
    obtain ⟨j, hj, hs⟩ := hs
    exact hstep j _ _ hj hs ih

/-- The state after the given harts have stepped in turn, where the status registers read as `csr`
says. -/
def Machine.run (code : List Instr) (csr : ℕ → Mem 64 → Csr → BitVec 64) :
    List ℕ → Machine → Option Machine
  | [], s => some s
  | j :: js, s => do
    let i ← code[(s.hart j).pc]?
    let (h, m) ← i.exec (csr j s.mem) (s.hart j) s.mem
    run code csr js (s.set j h m)

/-- What a run computes is reached. -/
theorem Reach.of_run {code : List Instr} {csrOk : ℕ → Mem 64 → (Csr → BitVec 64) → Prop} {n : ℕ}
    {csr : ℕ → Mem 64 → Csr → BitVec 64} (hcsr : ∀ j < n, ∀ m, csrOk j m (csr j m)) :
    ∀ (js : List ℕ) (s s' : Machine), (∀ j ∈ js, j < n) → Machine.run code csr js s = some s' →
      Reach code csrOk n s s' := by
  intro js
  induction js with
  | nil =>
    intro s s' _ h
    obtain rfl : s = s' := Option.some.inj h
    exact .refl
  | cons j js ih =>
    intro s s' hjs h
    rw [List.forall_mem_cons] at hjs
    simp only [Machine.run, Option.bind_eq_bind, Option.bind_eq_some_iff] at h
    obtain ⟨i, hi, ⟨h', m⟩, hexec, hrun⟩ := h
    have hstep : HartStep code csrOk j s (s.set j h' m) :=
      ⟨i, csr j s.mem, h', m, hi, hcsr j hjs.1 s.mem, hexec, rfl⟩
    exact .head ⟨j, hjs.1, hstep⟩ (ih _ s' hjs.2 hrun)

end Rv64

end Cheshire.Lib
