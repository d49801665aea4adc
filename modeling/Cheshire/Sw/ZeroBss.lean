import Cheshire.Sw.Crt0
import Mathlib.Tactic.IntervalCases

/-!
The clearing of the `.bss` section by `crt0.S`, on every byte of the memory, and the alignment of
its stores.
-/

namespace Cheshire.Sw.Crt0

open Lib Lib.Rv64 StateTransition

/-! ### The bytes -/

variable {syms : Syms} (env : Env)

/-- As a signed number the length is the same. -/
lemma inBss_iff (hle : syms.bssStart ≤ syms.bssEnd)
    (hlen : (syms.bssEnd - syms.bssStart).toNat < 2 ^ 63) (x : U64) :
    InBss syms x ↔ syms.bssStart ≤ x ∧ x < syms.bssEnd := by
  unfold InBss
  rw [BitVec.toInt_eq_toNat_of_lt (by omega), Int.toNat_natCast]
  bv_omega

/-- **The `.bss` section is cleared**, whatever its length, and nothing else is changed. -/
theorem bss_cleared (hle : syms.bssStart ≤ syms.bssEnd)
    (hlen : (syms.bssEnd - syms.bssStart).toNat < 2 ^ 63) (r : Regs) (m : Mem 64) :
    ∃ r' m', Runs syms env (⟨bssPc, r⟩, m) (⟨fpInitPc, r'⟩, m') ∧
      (∀ x, syms.bssStart ≤ x ∧ x < syms.bssEnd → m' x = 0) ∧
      ∀ x, ¬ (syms.bssStart ≤ x ∧ x < syms.bssEnd) → m' x = m x := by
  obtain ⟨r₁, hsetup, -, ht0, ht2, ha0⟩ := runs_setupBss syms env r m
  obtain ⟨r', hclear, -⟩ := runs_clearBss syms env m ht0 ht2 ha0
  refine ⟨r', _, hsetup.trans hclear, fun x hx => ?_, fun x hx => ?_⟩
  · rw [write_bss_apply, if_pos ((inBss_iff hle hlen x).mpr hx)]
  · rw [write_bss_apply, if_neg fun hin => hx ((inBss_iff hle hlen x).mp hin)]

/-- A section of 45 bytes, which takes one turn of the first loop and 13 of the second. -/
theorem bss_cleared_fortyFive : ∃ r' m',
    Runs { sampleSyms 0 with bssEnd := 0x1000_042D } sampleEnv (⟨bssPc, sampleRegs⟩, fun _ => 0xFF)
      (⟨fpInitPc, r'⟩, m') ∧
    (∀ x : U64, 0x1000_0400 ≤ x ∧ x < 0x1000_042D → m' x = 0) ∧
      ∀ x : U64, ¬ (0x1000_0400 ≤ x ∧ x < 0x1000_042D) → m' x = 0xFF :=
  bss_cleared sampleEnv (by decide) (by decide) sampleRegs fun _ => 0xFF

/-! ### The alignment -/

/-- Where words are stored, they are stored at a multiple of eight. -/
structure Aligned (pc : ℕ) (r : Regs) : Prop where
  behind : bssPc ≤ pc
  words : bssPc < pc → pc < zeroBssRemPc → 8 ∣ (r .t0).toNat

section Step

variable {pc pc' : ℕ} {r r' : Regs}

lemma Aligned.keep (h : Aligned pc r) (ht0 : r' .t0 = r .t0)
    (hpc : bssPc < pc ∧ bssPc ≤ pc' ∧ (pc' < zeroBssRemPc → pc < zeroBssRemPc)) :
    Aligned pc' r' := by
  refine ⟨hpc.2.1, fun _ hlt => ?_⟩
  rw [ht0]
  exact h.words hpc.1 (hpc.2.2 hlt)

lemma Aligned.straight (h : Aligned pc r) (ht0 : r' .t0 = r .t0) (hpc : bssPc < pc) :
    Aligned (pc + 1) r' := h.keep ht0 (by omega)

lemma Aligned.branch (h : Aligned pc r) (taken : Bool) {tgt : ℕ}
    (hpc : bssPc < pc ∧ bssPc ≤ tgt ∧ (tgt < zeroBssRemPc → pc < zeroBssRemPc)) :
    Aligned (Hart.branch ⟨pc, r⟩ taken tgt).pc r := by
  cases taken with
  | true => exact h.keep rfl hpc
  | false => exact h.straight rfl hpc.1

/-- Behind the loops there is no way back. -/
lemma straight_of_fpInitPc_le {op : Op} (hpc : fpInitPc ≤ pc) (hop : (crt0 syms)[pc]? = some op) :
    op.straight = true := by
  have hall : ((crt0 syms).drop fpInitPc).all Op.straight = true := rfl
  refine List.all_eq_true.mp hall op (List.mem_of_getElem? (i := pc - fpInitPc) ?_)
  rw [List.getElem?_drop, Nat.add_sub_cancel' hpc, hop]

variable {env}

lemma Aligned.step (hstart : 8 ∣ syms.bssStart.toNat) (h : Aligned pc r) {m m' : Mem 64}
    (hs : next (crt0 syms) env (⟨pc, r⟩, m) = some (⟨pc', r'⟩, m')) : Aligned pc' r' := by
  obtain ⟨op, hop, hexec⟩ := next_eq_some hs
  have hbehind : 18 ≤ pc := h.behind
  rcases Nat.lt_or_ge pc fpInitPc with hpc | hpc
  · unfold fpInitPc at hpc
    interval_cases pc <;> obtain rfl := Option.some.inj hop <;>
      obtain ⟨hhart, -⟩ := Prod.mk.inj (Option.some.inj hexec) <;>
        obtain ⟨rfl, rfl⟩ := Hart.mk.inj hhart
    case «18» =>
      have hal : Aligned 19 (setReg r .t0 syms.bssStart) := ⟨by decide, fun _ _ => hstart⟩
      exact hal
    case «30» =>
      have ht0 : 8 ∣ (r .t0).toNat := h.words (by decide) (by decide)
      have hal : Aligned 31 (setReg r .t0 (r .t0 + 32)) := by
        refine ⟨by decide, fun _ _ => ?_⟩
        rw [setReg_self _ _ (by decide), BitVec.toNat_add, show (32 : U64).toNat = 32 from rfl]
        omega
      exact hal
    case «35» =>
      -- the single bytes
      have hal : Aligned 36 (setReg r .t0 (r .t0 + 1)) :=
        ⟨by decide, fun _ hlt => absurd hlt (by decide)⟩
      exact hal
    case «23» => exact h.branch _ (by decide)
    case «24» => exact h.branch _ (by decide)
    case «31» => exact h.branch _ (by decide)
    case «32» => exact h.keep rfl (by decide)
    case «36» => exact h.branch _ (by decide)
    all_goals exact h.straight rfl (by decide)
  · have hnext : pc' = pc + 1 := Op.pc_of_straight (straight_of_fpInitPc_le hpc hop) hexec
    have hrem : zeroBssRemPc < fpInitPc := by decide
    have hbss : bssPc < fpInitPc := by decide
    exact ⟨by omega, fun _ hlt => by omega⟩

/-- Every state of the run is one of these. -/
theorem aligned_of_runs (hstart : 8 ∣ syms.bssStart.toNat) {m : Mem 64} {s : Hart × Mem 64}
    (hrun : Runs syms env (⟨bssPc, r⟩, m) s) : Aligned s.1.pc s.1.regs := by
  induction hrun with
  | refl => exact ⟨Nat.le_refl _, fun hlt => absurd hlt (Nat.lt_irrefl _)⟩
  | tail _ hs ih => exact Aligned.step hstart ih hs

/-- The stores of words behind the entry. -/
lemma sd_of_bssPc_le {rs₂ rs₁ : Reg} {offs : U64} (hpc : bssPc ≤ pc)
    (hop : (crt0 syms)[pc]? = some (.sd rs₂ offs rs₁)) :
    bssPc < pc ∧ pc < zeroBssRemPc ∧ rs₁ = .t0 ∧ 8 ∣ offs.toNat := by
  have hlen : pc < 83 := (List.getElem?_eq_some_iff.mp hop).1
  unfold bssPc at hpc
  interval_cases pc
  case «25» => cases hop; decide
  case «26» => cases hop; decide
  case «27» => cases hop; decide
  case «28» => cases hop; decide
  all_goals cases hop

/-- **The words are stored at multiples of eight**, in the whole run from there on, when the section
starts at one. -/
theorem sd_aligned (hstart : 8 ∣ syms.bssStart.toNat) {m : Mem 64} {s : Hart × Mem 64}
    (hrun : Runs syms env (⟨bssPc, r⟩, m) s) {rs₂ rs₁ : Reg} {offs : U64}
    (hop : (crt0 syms)[s.1.pc]? = some (.sd rs₂ offs rs₁)) : 8 ∣ (s.1.get rs₁ + offs).toNat := by
  have hal := aligned_of_runs hstart hrun
  obtain ⟨hlow, hhigh, rfl, hoffs⟩ := sd_of_bssPc_le hal.behind hop
  have ht0 : 8 ∣ (s.1.get .t0).toNat := hal.words hlow hhigh
  rw [BitVec.toNat_add]
  omega

end Step

end Cheshire.Sw.Crt0
