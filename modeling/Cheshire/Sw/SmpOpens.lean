import Cheshire.Lib.Fair
import Cheshire.Sw.SmpBarrier

/-!
The barrier opens: when no hart is left out for ever, all of them jump to the boot address in the
end.  First hart 0 sets all flags, then each hart finds its own flag and clears it, then each finds
all flags clear; in each of these phases one hart has only so many steps ahead of it.
-/

namespace Cheshire.Sw.Smp

open Lib Lib.Rv64 Lib.Fair

/-! ### Who can move -/

section Defs

variable (clint regs : U64)

/-- The steps of the first `n` harts. -/
def Moves (n j : ℕ) (s s' : Machine) : Prop :=
  j < n ∧ HartStep (bootNextStage clint regs) (CsrOk clint) j s s'

/-- The hart has not come to its jump, and it does not wait for an interrupt that is not pending;
`smp_pause` has enabled only that of its flag. -/
def Ready (j : ℕ) (s : Machine) : Prop :=
  ∃ i, (bootNextStage clint regs)[(s.hart j).pc]? = some i ∧ i.jump (s.hart j) = none ∧
    (i = .wfi → (s.mem.loadW (msip clint j)).getLsbD 0 = true)

/-- The hart is about to jump to `A`. -/
def Jumps (A : U64) (j : ℕ) (s : Machine) : Prop :=
  ∃ i, (bootNextStage clint regs)[(s.hart j).pc]? = some i ∧ i.jump (s.hart j) = some A

end Defs

/-- The place of the jump. -/
def jumpPc : ℕ := 37

/-- How far a pointer is from the end of the flags. -/
def span (r : Reg → U64) : ℕ := (r .t2 - r .t0).toNat

/-- The steps hart 0 has ahead of it until all flags are set. -/
def toSet (n : ℕ) (r : Reg → U64) : ℕ → ℕ
  | 10 => span r
  | 11 => span r - 1
  | 12 => span r - 2
  | 13 => span r + 1
  | pc => 4 * n + 10 - pc

/-- The steps a hart has ahead of it until its flag is cleared, when it is set.  What has been read
before it was set sends the hart round once more. -/
def toClear (r : Reg → U64) : ℕ → ℕ
  | 16 => if r .t1 &&& 0x8 = 0 then 11 else 7
  | 17 => if r .t1 = 0 then 10 else 6
  | pc => 23 - pc

/-- The steps a hart has ahead of it until its jump, when all flags are cleared. -/
def toLeave (n : ℕ) (r : Reg → U64) : ℕ → ℕ
  | 23 => 4 * n + 12
  | 24 => 4 * n + 11
  | 25 => 4 * n + 10
  | 26 => 4 * n + 9
  | 27 => span r + 8
  | 28 => if r .t1 = 0 then span r + 7 else span r + 9
  | 29 => span r + 6
  | 30 => span r + 9
  | pc => 37 - pc

section Phases

variable {clint regs A : U64} {n j k : ℕ} {s s' : Machine} {pc : ℕ} {r : Reg → U64} {i : Instr}
  {csr : Csr → U64} {h' : Hart} {m m' : Mem 64} {cl : ℕ → Prop}

lemma ready_of_lt (hpc : (s.hart j).pc < jumpPc)
    (hflag : (s.hart j).pc = pausePc → (s.mem.loadW (msip clint j)).getLsbD 0 = true) :
    Ready clint regs j s := by
  unfold Ready
  unfold jumpPc at hpc
  generalize s.hart j = h at *
  obtain ⟨pc, r⟩ := h
  change pc < 37 at hpc
  interval_cases pc
  case «14» => exact ⟨_, rfl, rfl, fun _ => hflag rfl⟩
  all_goals exact ⟨_, rfl, rfl, fun hw => by cases hw⟩

/-- Where an instruction leads. -/
lemma pc_exec (hpc : pc ≤ jumpPc) (hcode : (bootNextStage clint regs)[pc]? = some i)
    (hexec : i.exec csr ⟨pc, r⟩ m = some (h', m')) :
    h'.pc = pc + 1 ∧ pc < jumpPc ∨ h'.pc = 10 ∧ pc = 13 ∨ h'.pc = 14 ∧ pc = 17 ∨
      h'.pc = 27 ∧ (pc = 28 ∨ pc = 30) := by
  unfold jumpPc at hpc ⊢
  interval_cases pc <;> obtain rfl := Option.some.inj hcode
  case «37» => cases hexec
  all_goals obtain ⟨rfl, rfl⟩ := Prod.mk.inj (Option.some.inj hexec)
  case «13» | «17» | «28» | «30» =>
    simp only [Hart.branch]
    split <;> simp
  all_goals exact .inl ⟨rfl, by decide⟩

/-- Behind the barrier there is only the jump. -/
lemma At.jumps (h : At clint regs A n j k cl pc r) (hpc : jumpPc ≤ pc) :
    ∃ i, (bootNextStage clint regs)[pc]? = some i ∧ i.jump ⟨pc, r⟩ = some A := by
  obtain rfl : pc = 37 := Nat.le_antisymm h.pc_le hpc
  obtain ⟨-, -, ht0⟩ := h
  refine ⟨_, rfl, ?_⟩
  rw [← ht0]
  exact congrArg some (BitVec.add_zero (r .t0))

section Rank

variable (L : Layout clint regs n)
include L

lemma span_msip {i : ℕ} (hi : i ≤ n) : (msip clint n - msip clint i).toNat = 4 * (n - i) := by
  have hlt := L.clintLt
  have hn := toNat_msip L (Nat.le_refl n)
  have hi' := toNat_msip L hi
  rw [BitVec.toNat_sub_of_le (BitVec.le_def.mpr (by omega))]
  omega

lemma span_start (a : U64) : (a + BitVec.ofNat 64 (4 * n) - a).toNat = 4 * n := by
  have hlt := L.clintLt
  rw [BitVec.add_comm, BitVec.add_sub_cancel, BitVec.toNat_ofNat]
  omega

/-- Hart 0 comes nearer to the end of its loop. -/
lemma toSet_lt (h : InvAt clint regs A n k s) (hh : s.hart 0 = ⟨pc, r⟩) (hpc : pc < pausePc)
    (hcode : (bootNextStage clint regs)[pc]? = some i)
    (hexec : i.exec csr ⟨pc, r⟩ m = some (h', m')) :
    pausePc ≤ h'.pc ∨ h'.pc < pausePc ∧ toSet n h'.regs h'.pc < toSet n r pc := by
  have hat := h.here L.numHarts.1 hh
  have hk := h.le
  unfold pausePc at hpc ⊢
  interval_cases pc <;> obtain rfl := Option.some.inj hcode <;>
    obtain ⟨rfl, rfl⟩ := Prod.mk.inj (Option.some.inj hexec)
  case «9» =>
    obtain ⟨ht0, ht2⟩ := hat
    refine .inr ⟨show 10 < 14 by decide, ?_⟩
    show (r .t0 + r .t2 - r .t0).toNat < 4 * n + 10 - 9
    rw [ht2, span_start L]
    omega
  case «10» =>
    obtain ⟨hkn, ht0, ht2⟩ := hat
    refine .inr ⟨show 11 < 14 by decide, ?_⟩
    show span r - 1 < span r
    rw [span, ht0, ht2, span_msip L hk]
    omega
  case «11» =>
    obtain ⟨hkn, ht0, ht2, -⟩ := hat
    refine .inr ⟨show 12 < 14 by decide, ?_⟩
    show span r - 2 < span r - 1
    rw [span, ht0, ht2, span_msip L hk]
    omega
  case «12» =>
    obtain ⟨i, rfl, ht0, ht2⟩ := hat
    refine .inr ⟨show 13 < 14 by decide, ?_⟩
    show (r .t2 - (r .t0 + 4)).toNat + 1 < span r - 2
    rw [span, ht0, ht2, msip_succ, span_msip L hk, span_msip L (Nat.le_of_succ_le hk)]
    omega
  case «13» =>
    show 14 ≤ (if (r .t0).slt (r .t2) then 10 else 14) ∨
      (if (r .t0).slt (r .t2) then 10 else 14) < 14 ∧
        toSet n r (if (r .t0).slt (r .t2) then 10 else 14) < toSet n r 13
    by_cases hloop : (r .t0).slt (r .t2)
    · rw [if_pos hloop]
      exact .inr ⟨by decide, Nat.lt_succ_self (span r)⟩
    · rw [if_neg hloop]
      exact .inl (Nat.le_refl 14)
  all_goals
    right
    simp only [toSet, Hart.put]
    omega

omit L in
/-- A hart whose flag is set comes nearer to clearing it. -/
lemma toClear_lt (hpc : pausePc ≤ pc) (hlt : pc < clearedPc)
    (hflag : (m.loadW (msip clint j)).getLsbD 0 = true) (hcsr : CsrOk clint j m csr)
    (hcode : (bootNextStage clint regs)[pc]? = some i)
    (hexec : i.exec csr ⟨pc, r⟩ m = some (h', m')) : toClear h'.regs h'.pc < toClear r pc := by
  unfold pausePc at hpc
  unfold clearedPc at hlt
  interval_cases pc <;> obtain rfl := Option.some.inj hcode <;>
    obtain ⟨rfl, rfl⟩ := Prod.mk.inj (Option.some.inj hexec)
  case «15» =>
    have hmip : csr .mip &&& 0x8 ≠ 0 := hcsr.2.mpr hflag
    show (if csr .mip &&& 0x8 = 0 then 11 else 7) < 8
    rw [if_neg hmip]
    decide
  case «16» =>
    show (if r .t1 &&& 0x8 = 0 then 10 else 6) < if r .t1 &&& 0x8 = 0 then 11 else 7
    split <;> decide
  case «17» =>
    show toClear r (if r .t1 == 0 then 14 else 18) < if r .t1 = 0 then 10 else 6
    by_cases ht : r .t1 = 0
    · rw [if_pos ht, if_pos (beq_iff_eq.mpr ht)]
      exact Nat.lt_succ_self 9
    · rw [if_neg ht, if_neg (by simpa using ht)]
      exact Nat.lt_succ_self 5
  all_goals
    simp only [toClear, Hart.put]
    decide

/-- A hart that finds all flags cleared comes nearer to its jump. -/
lemma toLeave_lt (hat : At clint regs A n j k cl pc r) (hpc : clearedPc ≤ pc) (hlt : pc < jumpPc)
    (hflag : ∀ l < n, m.loadW (msip clint l) = 0)
    (hcode : (bootNextStage clint regs)[pc]? = some i)
    (hexec : i.exec csr ⟨pc, r⟩ m = some (h', m')) :
    toLeave n h'.regs h'.pc < toLeave n r pc := by
  unfold clearedPc at hpc
  unfold jumpPc at hlt
  interval_cases pc <;> obtain rfl := Option.some.inj hcode <;>
    obtain ⟨rfl, rfl⟩ := Prod.mk.inj (Option.some.inj hexec)
  case «26» =>
    obtain ⟨-, ht0, ht2⟩ := hat
    show (r .t0 + r .t2 - r .t0).toNat + 8 < 4 * n + 9
    rw [ht2, span_start L]
    omega
  case «27» =>
    obtain ⟨-, i, hi, ht0, -⟩ := hat
    have hz : (m.loadW (r .t0 + 0)).signExtend 64 = 0 := by
      have haddr : r .t0 + 0 = msip clint i := by simp [ht0]
      rw [haddr, hflag i hi]
      decide
    show (if (m.loadW (r .t0 + 0)).signExtend 64 = 0 then span r + 7 else span r + 9) < span r + 8
    rw [if_pos hz]
    exact Nat.lt_succ_self _
  case «28» =>
    show toLeave n r (if r .t1 != 0 then 27 else 29) <
      if r .t1 = 0 then span r + 7 else span r + 9
    by_cases ht : r .t1 = 0
    · rw [if_pos ht, if_neg (by simpa using ht)]
      exact Nat.lt_succ_self _
    · rw [if_neg ht, if_pos (bne_iff_ne.mpr ht)]
      exact Nat.lt_succ_self _
  case «29» =>
    obtain ⟨-, i, hi, ht0, ht2, -⟩ := hat
    show (r .t2 - (r .t0 + 4)).toNat + 9 < span r + 6
    rw [span, ht0, ht2, msip_succ, span_msip L hi, span_msip L (Nat.le_of_lt hi)]
    omega
  case «30» =>
    show toLeave n r (if (r .t0).slt (r .t2) then 27 else 31) < span r + 9
    by_cases hloop : (r .t0).slt (r .t2)
    · rw [if_pos hloop]
      exact Nat.lt_succ_self _
    · rw [if_neg hloop]
      show 6 < span r + 9
      omega
  all_goals
    simp only [toLeave, Hart.put]
    omega

end Rank

/-! ### What stays -/

/-- The invariant, whatever flags have been set. -/
def Inv (clint regs A : U64) (n : ℕ) (s : Machine) : Prop := ∃ k, InvAt clint regs A n k s

section Stays

variable (L : Layout clint regs n)
include L

lemma stable_inv : Stable (Moves clint regs n) (Inv clint regs A n) := by
  rintro j s s' ⟨hj, hs⟩ ⟨k, h⟩
  exact h.step L hj hs

omit L in
/-- A step of a hart leaves the places of the others alone. -/
lemma hart_of_ne {l : ℕ} (hs : Moves clint regs n j s s') (hl : l ≠ j) :
    s'.hart l = s.hart l := by
  obtain ⟨-, i, csr, h', m', -, -, -, rfl⟩ := hs
  exact Machine.set_hart_of_ne s h' m' hl

omit L in
/-- No hart goes back behind the pause, or behind the store that clears its flag. -/
lemma pc_mono {b l : ℕ} (hb : b = pausePc ∨ b = clearedPc ∨ b = jumpPc)
    (hs : Moves clint regs n j s s') (h : Inv clint regs A n s) (hl : b ≤ (s.hart l).pc) :
    b ≤ (s'.hart l).pc := by
  by_cases hlj : l = j
  · subst hlj
    obtain ⟨hj, i, csr, h', m', hcode, -, hexec, rfl⟩ := hs
    obtain ⟨k, h⟩ := h
    have hle := (h.at_pc l hj).pc_le
    have hnext := pc_exec (r := (s.hart l).regs) hle hcode hexec
    rw [Machine.set_hart_self]
    unfold pausePc clearedPc jumpPc at hb
    unfold jumpPc at hnext
    omega
  · rw [hart_of_ne hs hlj]
    exact hl

lemma stable_past {b l : ℕ} (hb : b = pausePc ∨ b = clearedPc ∨ b = jumpPc) :
    Stable (Moves clint regs n) fun s => Inv clint regs A n s ∧ b ≤ (s.hart l).pc :=
  fun j s s' hs h => ⟨stable_inv L j s s' hs h.1, pc_mono hb hs h.1 h.2⟩

/-! ### The phases -/

variable {ρ : Run (Moves clint regs n)}

/-- Hart 0 sets all flags. -/
lemma leadsTo_set (hfair : ρ.FairTo (Ready clint regs) 0) :
    ρ.LeadsTo (fun s => Inv clint regs A n s ∧ (s.hart 0).pc < pausePc)
      fun s => Inv clint regs A n s ∧ pausePc ≤ (s.hart 0).pc := by
  refine Run.LeadsTo.of_rank (fun s => toSet n (s.hart 0).regs (s.hart 0).pc) hfair ?_ ?_ ?_
  · rintro s ⟨-, hpc⟩
    exact ready_of_lt (Nat.lt_trans hpc (by decide)) fun h => absurd h (Nat.ne_of_lt hpc)
  · rintro s s' hs ⟨hinv, hpc⟩
    have hinv' := stable_inv L 0 s s' hs hinv
    obtain ⟨-, i, csr, h', m', hcode, -, hexec, rfl⟩ := hs
    obtain ⟨k, h⟩ := hinv
    rcases toSet_lt L h rfl hpc hcode hexec with hge | ⟨hlt, hrank⟩
    · refine .inl ⟨hinv', ?_⟩
      rwa [Machine.set_hart_self]
    · refine .inr ⟨⟨hinv', ?_⟩, ?_⟩ <;> rwa [Machine.set_hart_self]
  · rintro j s s' hj hs ⟨hinv, hpc⟩
    have hhart := hart_of_ne hs (Ne.symm hj)
    refine .inr ⟨⟨stable_inv L j s s' hs hinv, ?_⟩, ?_⟩ <;> rw [hhart]
    exact hpc

/-- Each hart clears its flag. -/
lemma leadsTo_cleared (hj : j < n) (hfair : ρ.FairTo (Ready clint regs) j) :
    ρ.LeadsTo
      (fun s => (Inv clint regs A n s ∧ pausePc ≤ (s.hart 0).pc) ∧ (s.hart j).pc < clearedPc)
      fun s => Inv clint regs A n s ∧ clearedPc ≤ (s.hart j).pc := by
  -- the flag is set, and hart `j` is behind the pause
  have hset : ∀ s, (Inv clint regs A n s ∧ pausePc ≤ (s.hart 0).pc) ∧ (s.hart j).pc < clearedPc →
      pausePc ≤ (s.hart j).pc ∧ (s.mem.loadW (msip clint j)).getLsbD 0 = true := by
    rintro s ⟨⟨⟨k, h⟩, hpc0⟩, hlt⟩
    have hk : k = n := h.full hpc0
    constructor
    · by_cases hj0 : j = 0
      · rwa [hj0]
      · exact h.others j hj hj0
    · rw [h.flag j hj, if_pos ⟨by omega, Nat.not_le.mpr hlt⟩]
      decide
  refine Run.LeadsTo.of_rank (fun s => toClear (s.hart j).regs (s.hart j).pc) hfair ?_ ?_ ?_
  · intro s hs
    exact ready_of_lt (Nat.lt_trans hs.2 (by decide)) fun _ => (hset s hs).2
  · intro s s' hs hP
    have hpast := stable_past L (.inl rfl) j s s' hs hP.1
    obtain ⟨hge, hflag⟩ := hset s hP
    obtain ⟨-, i, csr, h', m', hcode, hcsr, hexec, rfl⟩ := hs
    have hrank := toClear_lt (r := (s.hart j).regs) hge hP.2 hflag hcsr hcode hexec
    rw [Machine.set_hart_self]
    rcases Nat.lt_or_ge h'.pc clearedPc with hlt | hcl
    · exact .inr ⟨⟨hpast, hlt⟩, hrank⟩
    · exact .inl ⟨hpast.1, hcl⟩
  · rintro l s s' hl hs ⟨hpast, hlt⟩
    have hhart := hart_of_ne hs (Ne.symm hl)
    refine .inr ⟨⟨stable_past L (.inl rfl) l s s' hs hpast, ?_⟩, ?_⟩ <;> rw [hhart]
    exact hlt

/-- Each hart comes to its jump. -/
lemma leadsTo_jump (hj : j < n) (hfair : ρ.FairTo (Ready clint regs) j) :
    ρ.LeadsTo (fun s => (∀ l < n, Inv clint regs A n s ∧ clearedPc ≤ (s.hart l).pc) ∧
        (s.hart j).pc < jumpPc)
      fun s => Inv clint regs A n s ∧ jumpPc ≤ (s.hart j).pc := by
  have hstays : Stable (Moves clint regs n) fun s => ∀ l < n, Inv clint regs A n s ∧
      clearedPc ≤ (s.hart l).pc := fun i s s' hs h l hl =>
    stable_past L (.inr (.inl rfl)) i s s' hs (h l hl)
  refine Run.LeadsTo.of_rank (fun s => toLeave n (s.hart j).regs (s.hart j).pc) hfair
    ?_ ?_ ?_
  · rintro s ⟨hcl, hlt⟩
    refine ready_of_lt hlt fun hpc => ?_
    exact absurd ((hcl j hj).2.trans_eq hpc) (by decide)
  · rintro s s' hs ⟨hcl, hlt⟩
    have hcl' := hstays j s s' hs hcl
    obtain ⟨-, i, csr, h', m', hcode, -, hexec, rfl⟩ := hs
    obtain ⟨⟨k, h⟩, hge⟩ := hcl j hj
    have hzero : ∀ l < n, s.mem.loadW (msip clint l) = 0 := by
      intro l hl
      rw [h.flag l hl, if_neg fun hn => hn.2 (hcl l hl).2]
    have hrank := toLeave_lt L (h.at_pc j hj) hge hlt hzero hcode hexec
    rw [Machine.set_hart_self]
    rcases Nat.lt_or_ge h'.pc jumpPc with hlt' | hge'
    · exact .inr ⟨⟨hcl', hlt'⟩, hrank⟩
    · exact .inl ⟨(hcl' j hj).1, hge'⟩
  · rintro l s s' hl hs ⟨hcl, hlt⟩
    have hhart := hart_of_ne hs (Ne.symm hl)
    refine .inr ⟨⟨hstays l s s' hs hcl, ?_⟩, ?_⟩ <;> rw [hhart]
    exact hlt

/-! ### All fair runs -/

/-- **The barrier opens** in every run that leaves no hart out for ever: from some time on all harts
are about to jump to the address that hart 0 was given. -/
theorem barrier_opens (h₀ : Init clint regs A n (ρ.state 0))
    (hfair : ∀ j < n, ρ.FairTo (Ready clint regs) j) :
    ∃ t, ∀ u ≥ t, ∀ j < n, Jumps clint regs A j (ρ.state u) := by
  have hset : ρ.LeadsTo (Inv clint regs A n)
      fun s => Inv clint regs A n s ∧ pausePc ≤ (s.hart 0).pc := by
    refine (leadsTo_set L (hfair 0 L.numHarts.1)).of_cases fun s h => ?_
    exact (Nat.lt_or_ge (s.hart 0).pc pausePc).symm.imp (And.intro h) (And.intro h)
  have hcleared : ρ.LeadsTo (fun s => Inv clint regs A n s ∧ pausePc ≤ (s.hart 0).pc)
      fun s => ∀ l < n, Inv clint regs A n s ∧ clearedPc ≤ (s.hart l).pc := by
    refine .forall_lt n (fun l _ => stable_past L (.inr (.inl rfl))) fun l hl => ?_
    refine (leadsTo_cleared L hl (hfair l hl)).of_cases fun s h => ?_
    exact (Nat.lt_or_ge (s.hart l).pc clearedPc).symm.imp (And.intro h.1) (And.intro h)
  have hjump : ρ.LeadsTo (fun s => ∀ l < n, Inv clint regs A n s ∧ clearedPc ≤ (s.hart l).pc)
      fun s => ∀ l < n, Inv clint regs A n s ∧ jumpPc ≤ (s.hart l).pc := by
    refine .forall_lt n (fun l _ => stable_past L (.inr (.inr rfl))) fun l hl => ?_
    refine (leadsTo_jump L hl (hfair l hl)).of_cases fun s h => ?_
    exact (Nat.lt_or_ge (s.hart l).pc jumpPc).symm.imp (And.intro (h l hl).1) (And.intro h)
  obtain ⟨t, -, ht⟩ := (hset.trans (hcleared.trans hjump)) 0 ⟨0, h₀.invAt⟩
  refine ⟨t, fun u hu j hj => ?_⟩
  obtain ⟨⟨k, h⟩, hge⟩ := Run.persists (stable_past L (.inr (.inr rfl))) hu (ht j hj)
  exact (h.at_pc j hj).jumps hge

end Stays

end Phases

/-! ### Taking turns -/

section RoundRobin

variable (clint regs : U64)

/-- The next instruction of a hart, if it is ahead of its jump. -/
def nextOf (j : ℕ) (s : Machine) : Option Machine :=
  Machine.run (bootNextStage clint regs) (csrOf clint) [j] s

variable {clint regs} {n j : ℕ} {s s' : Machine}

lemma moves_nextOf (hj : j < n) (h : nextOf clint regs j s = some s') :
    Moves clint regs n j s s' := by
  simp only [nextOf, Machine.run, Option.bind_eq_bind, Option.bind_eq_some_iff] at h
  obtain ⟨i, hi, ⟨h', m⟩, hexec, hs'⟩ := h
  obtain rfl := Option.some.inj hs'
  exact ⟨hj, i, csrOf clint j s.mem, h', m, hi, csrOk_csrOf clint j s.mem, hexec, rfl⟩

variable (clint regs) in
/-- The harts take turns. -/
def roundRobin (hn : 0 < n) (s₀ : Machine) : Run (Moves clint regs n) :=
  .ofTurns (fun _ _ _ hi h => moves_nextOf hi h) hn s₀

lemma isSome_exec {i : Instr} (csr : Csr → U64) {h : Hart} (m : Mem 64) (hi : i.jump h = none) :
    (i.exec csr h m).isSome := by
  cases i <;> first | rfl | cases hi

/-- Then no hart is left out. -/
theorem fairTo_roundRobin (hn : 0 < n) (s₀ : Machine) (hj : j < n) :
    (roundRobin clint regs hn s₀).FairTo (Ready clint regs) j := by
  refine Run.fairTo_ofTurns hj fun s hs => ?_
  obtain ⟨i, hi, hjump, -⟩ := hs
  obtain ⟨x, hx⟩ := Option.isSome_iff_exists.mp
    (isSome_exec (csrOf clint j s.mem) s.mem hjump)
  simp [nextOf, Machine.run, hi, hx]

end RoundRobin

theorem barrier_opens_twoHarts : ∃ t, ∀ u ≥ t, ∀ j < 2,
    Jumps baseClint baseRegs 0x123456789abcdef0 j
      ((roundRobin baseClint baseRegs (n := 2) (by decide) twoHarts).state u) :=
  barrier_opens ⟨by decide, by decide, by decide, by decide⟩
    ⟨⟨rfl, rfl⟩, by decide, by decide +kernel, by decide +kernel⟩
    fun _ hj => fairTo_roundRobin (by decide) twoHarts hj

end Cheshire.Sw.Smp
