import Cheshire.Sim.Slink
import Mathlib.Logic.Relation

/-!
The passive boot: `slink_elf_run` and `slink_wait_for_eoc` of `vip_cheshire_soc.sv` on one side,
`boot_passive` of the boot ROM and the program that it starts on the other.  They meet in three
scratch registers, of which the third is the start signal and then the exit code.
-/

namespace Cheshire.Sim.Slink

open Lib Relation

/-! ### The scratch registers -/

/-- `AmRegs`. -/
def AmRegs : Addr := 0x0300_0000

/-- `CHESHIRE_SCRATCH_0_OFFSET` and those behind it. -/
def scratchAddr (i : ℕ) : Addr := AmRegs + BitVec.ofNat 48 (4 * i)

/-- `scratch[i]`. -/
def scratch (m : Mem 48) (i : ℕ) : BitVec 32 := BitVec.ofNat 32 (ofLe (m.slice (scratchAddr i) 4))

/-- The memory after a store to `scratch[i]`. -/
def setScratch (m : Mem 48) (i : ℕ) (v : BitVec 32) : Mem 48 :=
  m.write (scratchAddr i) (toLe 4 v.toNat)

@[simp] lemma scratch_setScratch_self (m : Mem 48) (i : ℕ) (v : BitVec 32) :
    scratch (setScratch m i v) i = v := by
  have hread := Mem.slice_write_self m (scratchAddr i) (toLe 4 v.toNat) (by simp)
  rw [length_toLe] at hread
  rw [scratch, setScratch, hread, ofLe_toLe_of_lt (Nat.lt_of_lt_of_eq v.isLt (by norm_num)),
    BitVec.ofNat_toNat, BitVec.setWidth_eq]

lemma scratch_setScratch_ne (m : Mem 48) {i j : ℕ} (hi : i < 16) (hj : j < 16) (h : i ≠ j)
    (v : BitVec 32) : scratch (setScratch m i v) j = scratch m j := by
  unfold scratch
  refine congrArg _ (congrArg _ (Mem.slice_congr fun k hk => Mem.write_outside m ?_))
  rw [length_toLe, Mem.Outside, scratchAddr, scratchAddr, BitVec.toNat_sub, BitVec.toNat_add,
    BitVec.toNat_add, BitVec.toNat_add, BitVec.toNat_ofNat, BitVec.toNat_ofNat, BitVec.toNat_ofNat]
  have hregs : AmRegs.toNat = 0x0300_0000 := rfl
  omega

/-! ### The two sides -/

/-- Where the host is: before the writes of `slink_elf_run`, in the loop of `slink_wait_for_eoc`,
or behind it with the exit code. -/
inductive Host where
  | write1
  | write0
  | write2
  | poll
  | done (exitCode : BitVec 32)

/-- Where hart 0 is: in `boot_passive`, of whose two reads of the entry point some have been made,
in the program behind `boot_next_stage(entry)`, in front of the exit write with what `main` has
returned, or behind it. -/
inductive Hart where
  | poll
  | clear
  | read (scratch1 scratch0 : Option (BitVec 32))
  | program (entry : BitVec 64)
  | exit (entry a0 : BitVec 64)
  | exited (entry : BitVec 64)

structure St where
  mem : Mem 48
  host : Host
  hart : Hart

/-- `((uint64_t)scratch[1] << 32) | scratch[0]`. -/
def entryOf (scratch1 scratch0 : BitVec 32) : BitVec 64 :=
  scratch1.setWidth 64 <<< 32 ||| scratch0.setWidth 64

/-- What `_exit` stores. -/
def exitWord (a0 : BitVec 64) : BitVec 32 := (a0 <<< 1 ||| 1).setWidth 32

/-- A step of either side, of a host that gives the entry point `entry` and a program that returns
`r`. -/
inductive Step (entry : BitVec 64) (r : BitVec 32) : St → St → Prop
  | write1 {m m' : Mem 48} {hart : Hart}
      (h : slinkWrite32 (scratchAddr 1) (entry.extractLsb' 32 32) m = .ok m') :
      Step entry r ⟨m, .write1, hart⟩ ⟨m', .write0, hart⟩
  | write0 {m m' : Mem 48} {hart : Hart}
      (h : slinkWrite32 (scratchAddr 0) (entry.extractLsb' 0 32) m = .ok m') :
      Step entry r ⟨m, .write0, hart⟩ ⟨m', .write2, hart⟩
  | write2 {m m' : Mem 48} {hart : Hart} (h : slinkWrite32 (scratchAddr 2) 2 m = .ok m') :
      Step entry r ⟨m, .write2, hart⟩ ⟨m', .poll, hart⟩
  | wait {m : Mem 48} {hart : Hart} (h : slinkPollBit0 (scratchAddr 2) m = none) :
      Step entry r ⟨m, .poll, hart⟩ ⟨m, .poll, hart⟩
  | eoc {m : Mem 48} {hart : Hart} {data : BitVec 32}
      (h : slinkPollBit0 (scratchAddr 2) m = some data) :
      Step entry r ⟨m, .poll, hart⟩ ⟨m, .done (data >>> 1), hart⟩
  | spin {m : Mem 48} {host : Host} (h : scratch m 2 &&& 2 = 0) :
      Step entry r ⟨m, host, .poll⟩ ⟨m, host, .poll⟩
  | start {m : Mem 48} {host : Host} (h : scratch m 2 &&& 2 ≠ 0) :
      Step entry r ⟨m, host, .poll⟩ ⟨m, host, .clear⟩
  | clear {m : Mem 48} {host : Host} :
      Step entry r ⟨m, host, .clear⟩ ⟨setScratch m 2 0, host, .read none none⟩
  -- the order of the two reads is up to the compiler
  | read1 {m : Mem 48} {host : Host} {scratch0 : Option (BitVec 32)} :
      Step entry r ⟨m, host, .read none scratch0⟩ ⟨m, host, .read (some (scratch m 1)) scratch0⟩
  | read0 {m : Mem 48} {host : Host} {scratch1 : Option (BitVec 32)} :
      Step entry r ⟨m, host, .read scratch1 none⟩ ⟨m, host, .read scratch1 (some (scratch m 0))⟩
  | boot {m : Mem 48} {host : Host} {scratch1 scratch0 : BitVec 32} :
      Step entry r ⟨m, host, .read (some scratch1) (some scratch0)⟩
        ⟨m, host, .program (entryOf scratch1 scratch0)⟩
  -- the program may store anywhere but in the third register
  | program {m m' : Mem 48} {host : Host} {e : BitVec 64} (h : scratch m' 2 = scratch m 2) :
      Step entry r ⟨m, host, .program e⟩ ⟨m', host, .program e⟩
  | returns {m : Mem 48} {host : Host} {e a0 : BitVec 64} (h : a0.setWidth 32 = r) :
      Step entry r ⟨m, host, .program e⟩ ⟨m, host, .exit e a0⟩
  | exit {m : Mem 48} {host : Host} {e a0 : BitVec 64} :
      Step entry r ⟨m, host, .exit e a0⟩ ⟨setScratch m 2 (exitWord a0), host, .exited e⟩

/-! ### Reads and writes of the host -/

lemma slinkWrite32_scratch (i : ℕ) (v : BitVec 32) (m : Mem 48) :
    slinkWrite32 (scratchAddr i) v m = .ok (setScratch m i v) := by
  refine slinkWrite32_eq _ ?_ v m
  have hregs : AmRegs.toNat = 0x0300_0000 := rfl
  rw [scratchAddr, BitVec.toNat_add, BitVec.toNat_ofNat]
  omega

/-- The poll of the third register ends when its lowest bit is set. -/
lemma slinkPollBit0_scratch (m : Mem 48) : slinkPollBit0 (scratchAddr 2) m =
    if (scratch m 2).getLsbD 0 then some (scratch m 2) else none := by
  unfold slinkPollBit0
  rw [setWidth_slinkReadBeat _ (by decide)]
  rfl

/-! ### What holds in every interleaving -/

/-- The two registers of the entry point hold it. -/
def Published (entry : BitVec 64) (m : Mem 48) : Prop :=
  scratch m 1 = entry.extractLsb' 32 32 ∧ scratch m 0 = entry.extractLsb' 0 32

/-- The states of the handshake.  The third register says who is next: zero up to the start signal,
zero again from where hart 0 has taken it, and then the exit code. -/
inductive Inv (entry : BitVec 64) (r : BitVec 32) : St → Prop
  | write1 {m : Mem 48} (h₂ : scratch m 2 = 0) : Inv entry r ⟨m, .write1, .poll⟩
  | write0 {m : Mem 48} (h₁ : scratch m 1 = entry.extractLsb' 32 32) (h₂ : scratch m 2 = 0) :
      Inv entry r ⟨m, .write0, .poll⟩
  | write2 {m : Mem 48} (h : Published entry m) (h₂ : scratch m 2 = 0) :
      Inv entry r ⟨m, .write2, .poll⟩
  | poll {m : Mem 48} (h : Published entry m) (h₂ : scratch m 2 = 2) : Inv entry r ⟨m, .poll, .poll⟩
  | clear {m : Mem 48} (h : Published entry m) (h₂ : scratch m 2 = 2) :
      Inv entry r ⟨m, .poll, .clear⟩
  | read {m : Mem 48} {scratch1 scratch0 : Option (BitVec 32)} (h : Published entry m)
      (h₁ : ∀ v, scratch1 = some v → v = entry.extractLsb' 32 32)
      (h₀ : ∀ v, scratch0 = some v → v = entry.extractLsb' 0 32) (h₂ : scratch m 2 = 0) :
      Inv entry r ⟨m, .poll, .read scratch1 scratch0⟩
  | program {m : Mem 48} (h₂ : scratch m 2 = 0) : Inv entry r ⟨m, .poll, .program entry⟩
  | exit {m : Mem 48} {a0 : BitVec 64} (ha0 : a0.setWidth 32 = r) (h₂ : scratch m 2 = 0) :
      Inv entry r ⟨m, .poll, .exit entry a0⟩
  | exited {m : Mem 48} (h₂ : scratch m 2 = r <<< 1 ||| 1) : Inv entry r ⟨m, .poll, .exited entry⟩
  | done {m : Mem 48} : Inv entry r ⟨m, .done ((r <<< 1 ||| 1) >>> 1), .exited entry⟩

variable {entry : BitVec 64} {r : BitVec 32}

/-- The halves that are written are the halves that are put together. -/
lemma entryOf_extractLsb' (entry : BitVec 64) :
    entryOf (entry.extractLsb' 32 32) (entry.extractLsb' 0 32) = entry := by
  refine BitVec.eq_of_getLsbD_eq fun i hi => ?_
  unfold entryOf
  by_cases h : i < 32
  · simp [h, hi]
  · simp [h, hi, show i - 32 < 32 by omega, show 32 + (i - 32) = i by omega]

lemma exitWord_eq {a0 : BitVec 64} (h : a0.setWidth 32 = r) : exitWord a0 = r <<< 1 ||| 1 := by
  subst h
  refine BitVec.eq_of_getLsbD_eq fun i hi => ?_
  unfold exitWord
  simp [hi]

/-- **One step** of either side. -/
theorem Inv.step {s s' : St} (h : Inv entry r s) (hs : Step entry r s s') : Inv entry r s' := by
  cases hs with
  | write1 hw =>
    rw [slinkWrite32_scratch] at hw
    obtain rfl := Except.ok.inj hw
    cases h with
    | write1 h₂ =>
      refine .write0 (scratch_setScratch_self _ _ _) ?_
      rw [scratch_setScratch_ne _ (by decide) (by decide) (by decide), h₂]
  | write0 hw =>
    rw [slinkWrite32_scratch] at hw
    obtain rfl := Except.ok.inj hw
    cases h with
    | write0 h₁ h₂ =>
      refine .write2 ⟨?_, scratch_setScratch_self _ _ _⟩ ?_
      · rw [scratch_setScratch_ne _ (by decide) (by decide) (by decide), h₁]
      · rw [scratch_setScratch_ne _ (by decide) (by decide) (by decide), h₂]
  | write2 hw =>
    rw [slinkWrite32_scratch] at hw
    obtain rfl := Except.ok.inj hw
    cases h with
    | write2 hpub h₂ =>
      refine .poll ⟨?_, ?_⟩ (scratch_setScratch_self _ _ _)
      · rw [scratch_setScratch_ne _ (by decide) (by decide) (by decide), hpub.1]
      · rw [scratch_setScratch_ne _ (by decide) (by decide) (by decide), hpub.2]
  | wait _ => exact h
  | eoc hp =>
    rw [slinkPollBit0_scratch] at hp
    cases h with
    | poll _ h₂ | clear _ h₂ | read _ _ _ h₂ | program h₂ | exit _ h₂ =>
      -- the lowest bit of the register is not set
      rw [h₂] at hp
      cases hp
    | exited h₂ =>
      rw [h₂, if_pos (by simp)] at hp
      obtain rfl := Option.some.inj hp
      exact .done
  | spin _ => exact h
  | start hp =>
    cases h with
    | write1 h₂ | write0 _ h₂ | write2 _ h₂ => exact absurd (by rw [h₂]; rfl) hp
    | poll hpub h₂ => exact .clear hpub h₂
  | clear =>
    cases h with
    | clear hpub _ =>
      refine .read ⟨?_, ?_⟩ (fun _ h => nomatch h) (fun _ h => nomatch h)
        (scratch_setScratch_self _ _ _)
      · rw [scratch_setScratch_ne _ (by decide) (by decide) (by decide), hpub.1]
      · rw [scratch_setScratch_ne _ (by decide) (by decide) (by decide), hpub.2]
  | read1 =>
    cases h with
    | read hpub h₁ h₀ h₂ =>
      refine .read hpub (fun v hv => ?_) h₀ h₂
      rw [← Option.some.inj hv, hpub.1]
  | read0 =>
    cases h with
    | read hpub h₁ h₀ h₂ =>
      refine .read hpub h₁ (fun v hv => ?_) h₂
      rw [← Option.some.inj hv, hpub.2]
  | boot =>
    cases h with
    | read hpub h₁ h₀ h₂ =>
      rw [h₁ _ rfl, h₀ _ rfl, entryOf_extractLsb']
      exact .program h₂
  | program hm =>
    cases h with
    | program h₂ => exact .program (by rw [hm, h₂])
  | returns ha0 =>
    cases h with
    | program h₂ => exact .exit ha0 h₂
  | exit =>
    cases h with
    | exit ha0 _ => exact .exited (by rw [scratch_setScratch_self, exitWord_eq ha0])

/-- **Every run** of the two sides. -/
theorem inv_of_reachable {m : Mem 48} (h₂ : scratch m 2 = 0) {s : St}
    (h : ReflTransGen (Step entry r) ⟨m, .write1, .poll⟩ s) : Inv entry r s := by
  induction h with
  | refl => exact .write1 h₂
  | tail _ hs ih => exact ih.step hs

/-- The argument of `boot_next_stage`, once it has been called. -/
def Hart.booted : Hart → Option (BitVec 64)
  | .program entry | .exit entry _ | .exited entry => some entry
  | _ => none

/-- What the two sides promise each other. -/
structure HandshakeOk (entry : BitVec 64) (r : BitVec 32) (s : St) : Prop where
  /-- Hart 0 boots what the host has asked for. -/
  booted : ∀ e, s.hart.booted = some e → e = entry
  /-- The host is not told of an end before the exit write. -/
  exited : ∀ v, s.host = .done v → ∃ e, s.hart = .exited e
  /-- What it reports is what the program returned, without the highest bit. -/
  exitCode : ∀ v, s.host = .done v → v.toNat = r.toNat % 2 ^ 31
  /-- The two sides can always go on to the end. -/
  finishes : ∃ s', ReflTransGen (Step entry r) s s' ∧ ∃ v, s'.host = .done v

/-- How far the host and hart 0 are from the end. -/
def rank (s : St) : ℕ :=
  (match s.host with | .write1 => 4 | .write0 => 3 | .write2 => 2 | .poll => 1 | .done _ => 0) +
  match s.hart with
  | .poll => 8
  | .clear => 7
  | .read none none => 6
  | .read none (some _) => 5
  | .read (some _) none => 5
  | .read (some _) (some _) => 4
  | .program _ => 3
  | .exit _ _ => 2
  | .exited _ => 1

/-- There is a step that brings the end nearer. -/
lemma Inv.exists_step {s : St} (h : Inv entry r s) :
    (∃ v, s.host = .done v) ∨ ∃ s', Step entry r s s' ∧ rank s' < rank s := by
  cases h with
  | write1 h₂ => exact .inr ⟨_, .write1 (slinkWrite32_scratch 1 _ _), by simp [rank]⟩
  | write0 h₁ h₂ => exact .inr ⟨_, .write0 (slinkWrite32_scratch 0 _ _), by simp [rank]⟩
  | write2 hpub h₂ => exact .inr ⟨_, .write2 (slinkWrite32_scratch 2 _ _), by simp [rank]⟩
  | poll hpub h₂ => exact .inr ⟨_, .start (by rw [h₂]; decide), by simp [rank]⟩
  | clear hpub h₂ => exact .inr ⟨_, .clear, by simp [rank]⟩
  | @read m scratch1 scratch0 hpub h₁ h₀ h₂ =>
    cases scratch1 with
    | none => exact .inr ⟨_, .read1, by cases scratch0 <;> simp [rank]⟩
    | some v =>
      cases scratch0 with
      | none => exact .inr ⟨_, .read0, by simp [rank]⟩
      | some v' => exact .inr ⟨_, .boot, by simp [rank]⟩
  | program h₂ =>
    have ha0 : (r.setWidth 64).setWidth 32 = r := by simp
    exact .inr ⟨_, .returns ha0, by simp [rank]⟩
  | exit ha0 h₂ => exact .inr ⟨_, .exit, by simp [rank]⟩
  | exited h₂ =>
    have hpoll (m : Mem 48) (h₂ : scratch m 2 = r <<< 1 ||| 1) :
        slinkPollBit0 (scratchAddr 2) m = some (r <<< 1 ||| 1) := by
      rw [slinkPollBit0_scratch, h₂, if_pos (by simp)]
    exact .inr ⟨_, .eoc (hpoll _ h₂), by simp [rank]⟩
  | done => exact .inl ⟨_, rfl⟩

/-- From every state of the handshake the two sides can go on to the end. -/
theorem Inv.exists_done : ∀ (k : ℕ) {s : St}, Inv entry r s → rank s ≤ k →
    ∃ s', ReflTransGen (Step entry r) s s' ∧ ∃ v, s'.host = .done v := by
  intro k
  induction k with
  | zero =>
    intro s h hk
    rcases h.exists_step with hdone | ⟨s', _, hlt⟩
    · exact ⟨s, .refl, hdone⟩
    · omega
  | succ k ih =>
    intro s h hk
    rcases h.exists_step with hdone | ⟨s', hs, hlt⟩
    · exact ⟨s, .refl, hdone⟩
    · obtain ⟨t, ht, hdone⟩ := ih (h.step hs) (by omega)
      exact ⟨t, .head hs ht, hdone⟩

lemma toNat_exitCode (r : BitVec 32) : ((r <<< 1 ||| 1) >>> 1).toNat = r.toNat % 2 ^ 31 := by
  have hcode : (r <<< 1 ||| 1) >>> 1 = (r.setWidth 31).setWidth 32 := by
    refine BitVec.eq_of_getLsbD_eq fun i hi => ?_
    have hlt : 1 + i < 32 ↔ i < 31 := by omega
    simp [hi, hlt]
  rw [hcode, BitVec.toNat_setWidth, BitVec.toNat_setWidth]
  omega

/-- **The passive boot works**, in every interleaving of the host and hart 0. -/
theorem handshake_ok (entry : BitVec 64) (r : BitVec 32) {m : Mem 48} (h₂ : scratch m 2 = 0) {s : St}
    (h : ReflTransGen (Step entry r) ⟨m, .write1, .poll⟩ s) : HandshakeOk entry r s := by
  have hinv := inv_of_reachable h₂ h
  refine ⟨?_, ?_, ?_, hinv.exists_done (rank s) (Nat.le_refl _)⟩
  · intro e he
    cases hinv with
    | program _ | exit _ _ | exited _ | done => exact (Option.some.inj he).symm
    | _ => cases he
  · intro v hv
    cases hinv with
    | done => exact ⟨_, rfl⟩
    | _ => cases hv
  · intro v hv
    cases hinv with
    | done =>
      obtain rfl := Host.done.inj hv
      exact toNat_exitCode r
    | _ => cases hv

/-- A program at the start of the memory that returns -1. -/
theorem handshake_ok_minusOne :
    ∃ s v, ReflTransGen (Step 0x8000_0000 (-1)) ⟨fun _ => 0, .write1, .poll⟩ s ∧
      s.host = .done v ∧ v.toNat = 2 ^ 31 - 1 := by
  have hzero : scratch (fun _ => 0) 2 = 0 := by decide
  obtain ⟨s, hs, v, hv⟩ := (handshake_ok 0x8000_0000 (-1) hzero .refl).finishes
  exact ⟨s, v, hs, hv, (handshake_ok 0x8000_0000 (-1) hzero hs).exitCode v hv⟩

end Cheshire.Sim.Slink
