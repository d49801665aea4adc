import Cheshire.Lib.Rv64Call

/-!
Registers that are saved in a frame and restored from it, and runs that are interrupted: a relation
to the run without interruptions that every step and every interruption keeps.
-/

namespace Cheshire.Lib

namespace Mem

variable {w : ℕ}

/-- Of two writes side by side, the upper one may come first. -/
theorem write_append_comm (m : Mem w) (a : BitVec w) (bs cs : List Byte)
    (h : bs.length + cs.length ≤ 2 ^ w) :
    (m.write (a + BitVec.ofNat w bs.length) cs).write a bs = m.write a (bs ++ cs) := by
  rw [write_append m a bs cs h]
  rcases Nat.eq_zero_or_pos cs.length with hc | hc
  · rw [List.length_eq_zero_iff.mp hc, write_nil, write_nil]
  funext x
  have hx := (x - a).isLt
  unfold write
  rw [toNat_sub_add x a (by omega)]
  by_cases hk : (x - a).toNat < bs.length
  · rw [List.getD_eq_getElem bs _ hk, List.getD_eq_getElem bs _ hk, if_neg (by omega),
      List.getD_eq_default cs _ (by omega)]
  · rw [List.getD_eq_default bs _ (by omega), List.getD_eq_default bs _ (by omega)]

end Mem

namespace Rv64

/-! ### Saving and restoring -/

/-- The registers are stored in a frame at the stack pointer, the first one at its top. -/
def saveRegs : List Reg → List Op
  | [] => []
  | x :: xs => .sd x (.ofNat 64 (8 * xs.length)) .sp :: saveRegs xs

/-- The registers are loaded from there. -/
def restoreRegs : List Reg → List Op
  | [] => []
  | x :: xs => .ld x (.ofNat 64 (8 * xs.length)) .sp :: restoreRegs xs

/-- The bytes of the frame. -/
def saveArea (r : Regs) : List Reg → List Byte
  | [] => []
  | x :: xs => saveArea r xs ++ toLe 8 (r x).toNat

lemma length_saveArea (r : Regs) (xs : List Reg) : (saveArea r xs).length = 8 * xs.length := by
  induction xs with
  | nil => rfl
  | cons x xs ih =>
    rw [saveArea, List.length_append, ih, length_toLe, List.length_cons]
    ring

section Code

variable {code : List Op} {env : Env}

/-- The instruction at the start of a block. -/
lemma getElem?_of_block {ops rest : List Op} {op : Op} {p : ℕ}
    (h : code.drop p = (op :: ops) ++ rest) : code[p]? = some op := by
  rw [← List.head?_drop, h]
  rfl

/-- The block behind the first instruction. -/
lemma drop_of_block {ops rest : List Op} {op : Op} {p : ℕ}
    (h : code.drop p = (op :: ops) ++ rest) : code.drop (p + 1) = ops ++ rest := by
  rw [← List.tail_drop, h]
  rfl

variable (code env) in
/-- **The registers are saved.** -/
theorem runs_saveRegs : ∀ (xs : List Reg) (rest : List Op) (p : ℕ) (r : Regs) (m : Mem 64),
    code.drop p = saveRegs xs ++ rest → .zero ∉ xs → 8 * xs.length ≤ 2 ^ 64 →
    StateTransition.Reaches (next code env) (⟨p, r⟩, m)
      (⟨p + xs.length, r⟩, m.write (r .sp) (saveArea r xs)) := by
  intro xs
  induction xs with
  | nil =>
    intro rest p r m _ _ _
    exact .refl
  | cons x xs ih =>
    intro rest p r m hcode hzero hlen
    rw [List.mem_cons, not_or] at hzero
    rw [List.length_cons] at hlen ⊢
    have hstep : next code env (⟨p, r⟩, m) =
        some (⟨p + 1, r⟩, m.storeD (r .sp + .ofNat 64 (8 * xs.length)) (r x)) := by
      rw [next, getElem?_of_block hcode]
      show some ((⟨p + 1, r⟩ : Hart), m.storeD _ (Hart.get ⟨p, r⟩ x)) = _
      rw [Hart.get_of_ne _ (Ne.symm hzero.1)]
      rfl
    have hrest := ih rest (p + 1) r (m.storeD (r .sp + .ofNat 64 (8 * xs.length)) (r x))
      (drop_of_block hcode) hzero.2 (by omega)
    have harea :
        (m.storeD (r .sp + .ofNat 64 (8 * xs.length)) (r x)).write (r .sp) (saveArea r xs) =
        m.write (r .sp) (saveArea r (x :: xs)) := by
      have hcomm := Mem.write_append_comm m (r .sp) (saveArea r xs) (toLe 8 (r x).toNat)
        (by rw [length_saveArea, length_toLe]; omega)
      rw [length_saveArea] at hcomm
      exact hcomm
    rw [harea, Nat.add_assoc, Nat.add_comm 1] at hrest
    exact .head hstep hrest

/-- The registers behind a restore. -/
def restored (xs : List Reg) (r₀ r : Regs) : Regs := fun x => if x ∈ xs then r₀ x else r x

variable (code env) in
/-- **The registers are restored** from a frame that holds them. -/
theorem runs_restoreRegs (r₀ : Regs) (m : Mem 64) : ∀ (xs : List Reg) (rest : List Op) (p : ℕ)
    (r : Regs), code.drop p = restoreRegs xs ++ rest → .zero ∉ xs → .sp ∉ xs →
    m.slice (r .sp) (8 * xs.length) = saveArea r₀ xs →
    StateTransition.Reaches (next code env) (⟨p, r⟩, m) (⟨p + xs.length, restored xs r₀ r⟩, m) := by
  intro xs
  induction xs with
  | nil =>
    intro rest p r _ _ _ _
    have hnone : restored [] r₀ r = r := by
      funext x
      simp [restored]
    rw [hnone]
    exact .refl
  | cons x xs ih =>
    intro rest p r hcode hzero hsp hframe
    rw [List.mem_cons, not_or] at hzero hsp
    have hsplit : m.slice (r .sp) (8 * xs.length) = saveArea r₀ xs ∧
        m.slice (r .sp + .ofNat 64 (8 * xs.length)) 8 = toLe 8 (r₀ x).toNat := by
      rw [List.length_cons, Nat.mul_succ, Mem.slice_append, saveArea] at hframe
      exact List.append_inj hframe (by rw [Mem.length_slice, length_saveArea])
    have hload := (Mem.loadD_eq_iff m _ (r₀ x)).mpr hsplit.2
    have hstep : next code env (⟨p, r⟩, m) = some (⟨p + 1, setReg r x (r₀ x)⟩, m) := by
      rw [next, getElem?_of_block hcode]
      show some ((⟨p + 1, setReg r x (m.loadD (r .sp + .ofNat 64 (8 * xs.length)))⟩ : Hart), m) = _
      rw [hload]
    have hkeep : setReg r x (r₀ x) .sp = r .sp := setReg_of_ne r _ hsp.1
    have hrest := ih rest (p + 1) (setReg r x (r₀ x)) (drop_of_block hcode) hzero.2 hsp.2
      (by rw [hkeep]; exact hsplit.1)
    have hregs : restored xs r₀ (setReg r x (r₀ x)) = restored (x :: xs) r₀ r := by
      funext y
      unfold restored
      by_cases hy : y = x
      · subst hy
        rw [if_pos List.mem_cons_self, setReg_self _ _ (Ne.symm hzero.1), ite_self]
      · rw [setReg_of_ne _ _ hy]
        simp [hy]
    rw [hregs, Nat.add_assoc, Nat.add_comm 1] at hrest
    exact .head hstep hrest

end Code

end Rv64

/-! ### Interrupted runs -/

section Interrupted

variable {S T : Type} {step : S → Option S} {trap : S → S → Prop} {next : T → Option T}
  {R : S → T → Prop}

/-- A step of the program, or an interruption. -/
def Interrupted (step : S → Option S) (trap : S → S → Prop) (s s' : S) : Prop :=
  step s = some s' ∨ trap s s'

/-- **Interruptions that do not show**: behind every interrupted run there is a run without
interruptions that has come as far. -/
theorem exists_reaches_of_interrupted {s s' : S} {t₀ : T} (h₀ : R s t₀)
    (hstep : ∀ s t s', StateTransition.Reaches next t₀ t → R s t → step s = some s' →
      ∃ t', next t = some t' ∧ R s' t')
    (htrap : ∀ s t s', R s t → trap s s' → R s' t)
    (hrun : Relation.ReflTransGen (Interrupted step trap) s s') :
    ∃ t, StateTransition.Reaches next t₀ t ∧ R s' t := by
  induction hrun with
  | refl => exact ⟨t₀, .refl, h₀⟩
  | tail _ hs ih =>
    obtain ⟨t, ht, hR⟩ := ih
    rcases hs with hs | hs
    · obtain ⟨t', ht', hR'⟩ := hstep _ _ _ ht hR hs
      exact ⟨t', ht.tail ht', hR'⟩
    · exact ⟨t, ht, htrap _ _ _ hR hs⟩

end Interrupted

end Cheshire.Lib
