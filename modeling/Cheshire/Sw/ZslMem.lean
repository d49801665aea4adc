import Cheshire.Lib.Fuel
import Cheshire.Sw.GptMem
import Cheshire.Sw.Zsl

/-!
The zero-stage loader on a memory: the read function that the boot ROM has handed over is called
with the global pointer of the boot ROM.  On a medium the loader mirrors the loader on the disk that
the medium carries: it copies the device tree and the firmware, one behind the other, and calls the
firmware; without one of them it spins.
-/

namespace Cheshire.Sw.ZslMem

open Lib Gpt GptMem
open Zsl (Relocated gprw mainRead Part Caught Stack Regs Payload deviceTree firmware bootZslDtb
  bootZslFw)

/-! ### The code -/

/-- A function of the loader, which may spin; it stops with `none` while a call has not come to an
end. -/
abbrev ZM (S α : Type) := EStateM (Option Caught) S α

section Code

variable {S : Type}

/-- `grread`: the foreign read procedure, which depends on the global pointer, is called with
`rgp`. -/
def grread (rread : U64 → ReadFn S) (rgp : U64) : ReadFn (Relocated S) := fun buf addr len s =>
  let (zslGp, s) := gprw rgp s
  match rread s.gp buf addr len s.dev with
  | .ok _ dev => .ok () (gprw zslGp { s with dev }).2
  | .error ret dev => .error ret (gprw zslGp { s with dev }).2

/-- The value of a call that returns zero. -/
def call {α : Type} (m : PollM S α) : ZM S (Option α) := fun s =>
  match m s with
  | .ok a s' => .ok (some a) s'
  | .error (some _) s' => .ok none s'
  | .error none s' => .error none s'

/-- A function that does not return a code; it stops only while it has not come to an end. -/
def onDev {α : Type} (m : PollM S α) : ZM (Relocated S) α :=
  zoom Relocated.dev (fun dev s => { s with dev }) (fun _ => none) m

/-- The console of the loader: `uart_init`, and `printf`, which waits for the UART.  What is printed
is left out. -/
structure Console (S : Type) where
  init : (freq : U64) → PollM S Unit
  print : PollM S Unit

/-- The end of `load_part_or_spin`, behind what is missing and what was asked for. -/
def spin (print : ZM S Unit) (c : Caught) : ZM S Unit := do
  print
  print
  throw (some c)

/-- `load_part_or_spin`.  The code of the copy is dropped. -/
def loadPartOrSpin (print : ZM S Unit) (mem : S → Mem 64) (read : ReadFn S) (vars : Vars)
    (fuel : ℕ) (part : Part) (st : Stack) : ZM S Unit := do
  match ← call (gptFindPartition mem read vars part.maxLbas (some part.pguid) none fuel st.lbaBegin
    st.lbaEnd) with
  | none => spin print ⟨"Error finding", part⟩
  | some v =>
    if v.partIdx < 0 then spin print ⟨"No", part⟩
    else
      print
      let _ ← call (read part.dst (0x200 * v.lbaBegin) (0x200 * (v.lbaEnd - v.lbaBegin + 1)))
      print

/-- `main`, of the functions that lie at each address: they take the global pointer and `priv`. -/
def main (mem : S → Mem 64) (coreFreq : PollM S U64) (console : Console S)
    (fns : (fn gp priv : U64) → ReadFn S) (vars : Vars) (fuel : ℕ) (dtbSt fwSt : Stack)
    (regs : Regs) : ZM (Relocated S) Payload := do
  let freq ← onDev coreFreq
  let rgp := regs.scratch3.setWidth 64
  let read := regs.scratch0
  let priv := regs.scratch1.setWidth 64
  onDev (console.init freq)
  let print := onDev console.print
  print
  -- a GPT disk boot
  if read &&& 1 ≠ 0 then
    let rread := fun gp => fns ((read &&& ~~~1).setWidth 64) gp priv
    loadPartOrSpin print (fun s => mem s.dev) (grread rread rgp) vars fuel deviceTree dtbSt
    loadPartOrSpin print (fun s => mem s.dev) (grread rread rgp) vars fuel firmware fwSt
  print
  pure ⟨bootZslFw, 0, bootZslDtb, 0⟩

end Code

/-! ### A partition -/

section Load

variable {S : Type} {mem : S → Mem 64} {read : ReadFn S} {disk : Mem 64} {Ready : S → Prop}
  {On : U64 → U64 → ℕ → Prop} {own : U64 → Prop} {vars : Vars} {s : S} {σ : Type}
  {aread : GptRead σ} {t : DiskSt σ}

lemma returns_call {α : Type} {m : PollM S α} {Q : α → S → Prop} (h : Returns m s Q) :
    Returns (call m) s fun o s' => ∃ a, o = some a ∧ Q a s' := by
  obtain ⟨a, s', hrun, hQ⟩ := returns_iff.mp h
  refine returns_iff.mpr ⟨some a, s', ?_, a, rfl, hQ⟩
  unfold EStateM.run at hrun ⊢
  rw [call, hrun]

/-- **A relocated medium**: the global pointer is the one of the loader again, if the loader has
one. -/
theorem medium_grread {rread : U64 → ReadFn S} {rgp : U64} (hrgp : rgp ≠ 0)
    (hm : Medium mem (rread rgp) disk Ready On own) (gp : U64) :
    Medium (fun s => mem s.dev) (grread rread rgp) disk
      (fun s => Ready s.dev ∧ (gp ≠ 0 → s.gp = gp)) On own where
  reads := by
    rintro buf addr len s ⟨hready, hgp⟩ hon hbuf
    obtain ⟨_, dev', hrun, hready', hbytes, hkept⟩ := returns_iff.mp (hm.reads hready hon hbuf)
    have hdev : (gprw s.gp ⟨dev', rgp⟩).2.dev = dev' := by
      unfold gprw
      split <;> rfl
    refine returns_iff.mpr ⟨(), (gprw s.gp ⟨dev', rgp⟩).2, ?_, ⟨?_, fun hne => ?_⟩, ?_⟩
    · unfold EStateM.run at hrun ⊢
      simp only [grread, gprw, if_pos hrgp, hrun]
    · rwa [hdev]
    · have hs := hgp hne
      unfold gprw
      rw [if_pos (hs ▸ hne)]
      exact hs
    · rw [hdev]
      exact ⟨hbytes, hkept⟩

/-- The console prints, and leaves the memory and the medium as they are. -/
structure Console.Ok (console : Console S) (mem : S → Mem 64) (Ready : S → Prop) : Prop where
  init : ∀ freq s, Ready s → Returns (console.init freq) s fun _ s' => Ready s' ∧ mem s' = mem s
  print : ∀ s, Ready s → Returns console.print s fun _ s' => Ready s' ∧ mem s' = mem s

/-- The first entry of a partition that fits. -/
def FirstOf (disk : Mem 64) (pt : Part) (p : ℕ) : Prop :=
  IsLeast (viableIdx disk pt.maxLbas (some pt.pguid) none) p

/-- There is no entry of a partition that fits. -/
def NoneOf (disk : Mem 64) (pt : Part) : Prop :=
  viableIdx disk pt.maxLbas (some pt.pguid) none = ∅

/-- What is read of a disk for a partition is on the medium. -/
structure PartOn (disk : Mem 64) (On : U64 → U64 → ℕ → Prop) (vars : Vars) (pt : Part) : Prop where
  table : TableOn disk On vars pt.maxLbas (some pt.pguid) none
  copy : ∀ p, FirstOf disk pt p → On pt.dst (0x200 * (part disk p).lbaBegin) (bytesOf disk p)

lemma bytesOf_le {pt : Part} {p : ℕ} (hp : FirstOf disk pt p) :
    bytesOf disk p ≤ 0x200 * pt.maxLbas.toNat := by
  have hlt := BitVec.lt_def.mp hp.1.2.1
  unfold bytesOf lbaCount
  omega

/-- What a search comes to: the first entry that fits, or none. -/
lemma firstOf_or_noneOf {pt : Part} {lbaBegin lbaEnd : U64} {v : FindOut}
    (h : FindSpec disk pt.maxLbas (some pt.pguid) none lbaBegin lbaEnd v) :
    v.partIdx < 0 ∧ NoneOf disk pt ∨ ∃ p, FirstOf disk pt p ∧ ¬ v.partIdx < 0 ∧
      v.lbaBegin = (part disk p).lbaBegin ∧ v.lbaEnd = (part disk p).lbaEnd := by
  rcases Set.eq_empty_or_nonempty (viableIdx disk pt.maxLbas (some pt.pguid) none)
    with hnone | hsome
  · refine .inl ⟨?_, hnone⟩
    have hneg : v.partIdx = -1 := by
      rcases Nat.eq_zero_or_pos (header disk).count.toNat with h0 | hpos
      · exact (h.empty h0).1
      · exact (h.fallback hnone hpos).1
    rw [hneg]
    exact Int.negSucc_lt_zero 0
  · classical
    have hp : FirstOf disk pt (Nat.find hsome) :=
      ⟨Nat.find_spec hsome, fun q hq => Nat.find_min' hsome hq⟩
    obtain ⟨hidx, hbegin, hend⟩ := h.found _ hp
    exact .inr ⟨_, hp, by omega, hbegin, hend⟩

/-- On a disk the loader spins where there is no partition that fits, and otherwise it loads one. -/
lemma run_loadOfDisk (pt : Part) (st : Stack) {v : FindOut} {t₁ : DiskSt σ}
    (hfind : Zsl.findPart aread pt st t = .ok v t₁) :
    (v.partIdx < 0 → (Zsl.loadPartOrSpin aread pt st).run t = .error ⟨"No", pt⟩ t₁) ∧
      (¬ v.partIdx < 0 → ∃ t₂, (Zsl.loadPartOrSpin aread pt st).run t = .ok () t₂) := by
  unfold EStateM.run Zsl.loadPartOrSpin
  rw [hfind]
  refine ⟨fun hneg => if_pos hneg, fun hpos => ?_⟩
  simp only [if_neg hpos]
  cases Zsl.copyPart aread pt v t₁ with
  | ok _ t₂ => exact ⟨t₂, rfl⟩
  | error _ t₂ => exact ⟨t₂, rfl⟩

/-- On a disk a partition is loaded, or the loader spins for there is none. -/
lemma ends_loadOfDisk (ha : Faithful disk aread) (pt : Part) (st : Stack) :
    Ends (Zsl.loadPartOrSpin aread pt st) t (fun _ _ => ∃ p, FirstOf disk pt p)
      fun e _ => e = ⟨"No", pt⟩ ∧ NoneOf disk pt := by
  obtain ⟨v, t₁, hrun, hspec, -⟩ := returns_iff.mp (returns_gptFindPartition (s := t) ha pt.maxLbas
    (some pt.pguid) none st.lbaBegin st.lbaEnd)
  obtain ⟨herr, hok⟩ := run_loadOfDisk pt st hrun
  unfold Ends
  rcases firstOf_or_noneOf hspec with ⟨hneg, hnone⟩ | ⟨p, hp, hpos, -⟩
  · rw [herr hneg]
    exact ⟨rfl, hnone⟩
  · obtain ⟨t₂, hrun₂⟩ := hok hpos
    rw [hrun₂]
    exact ⟨p, hp⟩

/-- **The load of a partition** mirrors the load from the disk: it finds the same partition, which
lies in memory then, or spins for the same reason. -/
theorem mirrors_loadPartOrSpin {print : ZM S Unit}
    (hprint : ∀ s, Ready s → Returns print s fun _ s' => Ready s' ∧ mem s' = mem s)
    (hm : Medium mem read disk Ready On own) (ha : Faithful disk aread) (hv : vars.Ok own)
    {pt : Part} (hon : PartOn disk On vars pt) {fuel : ℕ}
    (hfuel : (header disk).count.toNat < fuel) (hmax : 0x200 * pt.maxLbas.toNat < 2 ^ 64)
    (hbuf : ∀ n ≤ 0x200 * pt.maxLbas.toNat, Buffer own pt.dst n) (st : Stack) (hs : Ready s) :
    Mirrors some (loadPartOrSpin print mem read vars fuel pt st) (Zsl.loadPartOrSpin aread pt st) s
      t fun _ _ s' _ => Ready s' ∧ ∀ p, FirstOf disk pt p → Loaded own vars disk pt.dst
        (0x200 * (part disk p).lbaBegin) (bytesOf disk p) (mem s) (mem s') := by
  obtain ⟨v, t₁, hrun, hspec, -⟩ := returns_iff.mp (returns_gptFindPartition (s := t) ha pt.maxLbas
    (some pt.pguid) none st.lbaBegin st.lbaEnd)
  obtain ⟨herr, hok⟩ := run_loadOfDisk pt st hrun
  have hsearch := (follows_gptFindPartition (t := t) (m := mem s) hm ha hv hon.table hfuel
    st.lbaBegin st.lbaEnd ⟨hs, fun _ _ _ => rfl⟩).returns
      (Q := fun b t' => b = v ∧ t' = t₁) (returns_iff.mpr ⟨v, t₁, hrun, rfl, rfl⟩)
  have hcall : Returns (call (gptFindPartition mem read vars pt.maxLbas (some pt.pguid) none fuel
      st.lbaBegin st.lbaEnd)) s fun o s' => o = some v ∧ Running mem Ready own vars (mem s) s' := by
    refine (returns_call hsearch).mono ?_
    rintro _ s' ⟨_, rfl, _, _, ⟨rfl, -⟩, hs', rfl⟩
    exact ⟨rfl, hs'⟩
  unfold loadPartOrSpin
  refine Mirrors.bind_left hcall ?_
  rintro _ s₁ ⟨rfl, hs₁⟩
  rcases firstOf_or_noneOf hspec with ⟨hneg, -⟩ | ⟨p, hp, hpos, hbegin, hend⟩
  · simp only [if_pos hneg]
    refine mirrors_of_error (herr hneg) ((hprint s₁ hs₁.ready).ends.bind fun _ s₂ hs₂ => ?_)
    exact (hprint s₂ hs₂.1).ends.bind fun _ _ _ => rfl
  · have hlen : (0x200 * (v.lbaEnd - v.lbaBegin + 1)).toNat = bytesOf disk p := by
      rw [hbegin, hend]
      exact toNat_copyLen_of_viable hmax hp.1.2
    have hon' : On pt.dst (0x200 * v.lbaBegin) (0x200 * (v.lbaEnd - v.lbaBegin + 1)).toNat := by
      rw [hlen, hbegin]
      exact hon.copy p hp
    have hbuf' : Buffer own pt.dst (0x200 * (v.lbaEnd - v.lbaBegin + 1)).toNat := by
      rw [hlen]
      exact hbuf _ (bytesOf_le hp)
    obtain ⟨t₂, hrun₂⟩ := hok hpos
    simp only [if_neg hpos]
    refine mirrors_of_ok hrun₂ ((hprint s₁ hs₁.ready).bind ?_)
    rintro - s₂ ⟨hs₂, hmem₂⟩
    refine (returns_call (hm.reads hs₂ hon' hbuf')).bind ?_
    rintro - s₃ ⟨-, -, hs₃, hbytes, hkept⟩
    refine (hprint s₃ hs₃).mono ?_
    rintro - s₄ ⟨hs₄, hmem₄⟩
    rw [hlen, hbegin] at hbytes
    rw [hlen] at hkept
    refine ⟨hs₄, fun q hq => ?_⟩
    obtain rfl : q = p := IsLeast.unique hq hp
    rw [hmem₄]
    refine ⟨hbytes, fun x hx hx' hout => ?_⟩
    rw [hkept x hout hx, hmem₂, hs₁.kept x hx hx']

end Load

/-! ### The loader -/

section Main

variable {S : Type} {mem : S → Mem 64} {fns : (fn gp priv : U64) → ReadFn S} {disk : Mem 64}
  {Ready : S → Prop} {On : U64 → U64 → ℕ → Prop} {own : U64 → Prop} {vars : Vars} {regs : Regs}
  {coreFreq : PollM S U64} {console : Console S}

/-- The memory behind the loader: the entries `p` and `q` are in DRAM, and besides the variables and
the memory of the medium nothing else has changed. -/
structure Staged (own : U64 → Prop) (vars : Vars) (disk : Mem 64) (p q : ℕ) (m m' : Mem 64) :
    Prop where
  dtb : ∀ i < bytesOf disk p, m' (bootZslDtb + .ofNat 64 i) =
    disk (0x200 * (part disk p).lbaBegin + .ofNat 64 i)
  fw : ∀ i < bytesOf disk q, m' (bootZslFw + .ofNat 64 i) =
    disk (0x200 * (part disk q).lbaBegin + .ofNat 64 i)
  kept : ∀ x, ¬ own x → ¬ vars.Mine x → Mem.Outside bootZslDtb (bytesOf disk p) x →
    Mem.Outside bootZslFw (bytesOf disk q) x → m' x = m x

/-- What lies below the DRAM is apart from what is loaded to it. -/
lemma buffer_dram (hown : ∀ x, own x → x < bootZslFw) {dst : U64} {n : ℕ} (hdst : bootZslFw ≤ dst)
    (hle : dst.toNat + n ≤ 2 ^ 64) : Buffer own dst n where
  ne_zero := by
    rintro rfl
    exact absurd hdst (by decide)
  le := hle
  apart i hi h := by
    have hlt := BitVec.lt_def.mp (hown _ h)
    rw [BitVec.le_def] at hdst
    rw [BitVec.toNat_add, BitVec.toNat_ofNat] at hlt
    omega

/-- The firmware does not reach the device tree. -/
lemma staged_of_loaded (hown : ∀ x, own x → x < bootZslFw)
    (hmine : ∀ x, vars.Mine x → x < bootZslFw)
    {p q : ℕ} (hp : FirstOf disk deviceTree p) (hq : FirstOf disk firmware q) {m m₁ m₂ : Mem 64}
    (h₁ : Loaded own vars disk bootZslDtb (0x200 * (part disk p).lbaBegin) (bytesOf disk p) m m₁)
    (h₂ : Loaded own vars disk bootZslFw (0x200 * (part disk q).lbaBegin) (bytesOf disk q) m₁ m₂) :
    Staged own vars disk p q m m₂ where
  dtb i hi := by
    have hpmax : bytesOf disk p ≤ 0x200 * 64 := bytesOf_le hp
    have hqmax : bytesOf disk q ≤ 0x200 * 8192 := bytesOf_le hq
    have haddr : (bootZslDtb + .ofNat 64 i).toNat = 0x8080_0000 + i := by
      rw [BitVec.toNat_add, BitVec.toNat_ofNat]
      show (0x8080_0000 + i % 2 ^ 64) % 2 ^ 64 = _
      omega
    have hnot : ¬ bootZslDtb + .ofNat 64 i < bootZslFw := by
      rw [BitVec.lt_def, haddr]
      show ¬ 0x8080_0000 + i < 0x8000_0000
      omega
    have hout : Mem.Outside bootZslFw (bytesOf disk q) (bootZslDtb + .ofNat 64 i) := by
      unfold Mem.Outside
      rw [BitVec.toNat_sub, haddr]
      show _ ≤ (2 ^ 64 - 0x8000_0000 + (0x8080_0000 + i)) % 2 ^ 64
      omega
    rw [h₂.kept _ (fun h => hnot (hown _ h)) (fun h => hnot (hmine _ h)) hout, h₁.copied i hi]
  fw := h₂.copied
  kept x hx hx' hout₁ hout₂ := (h₂.kept x hx hx' hout₂).trans (h₁.kept x hx hx' hout₁)

/-- The read callback of the loader, over a disk. -/
lemma faithful_mainRead (regs : Regs) (disk : Mem 64) :
    Faithful disk (mainRead regs fun _ _ _ => diskRead disk) where
  ret _ _ _ := rfl
  bytes _ _ _ _ _ := rfl

/-- On a disk the loader calls the firmware, or spins for what the disk lacks. -/
lemma ends_mainOfDisk {σ : Type} {afns : (fn gp priv : U64) → GptRead σ}
    (ha : Faithful disk (mainRead regs afns)) (hgpt : regs.scratch0 &&& 1 ≠ 0)
    (dtbSt fwSt : Stack) (t : DiskSt (Relocated σ)) :
    Ends (Zsl.main regs afns dtbSt fwSt) t
      (fun payload _ => payload = ⟨bootZslFw, 0, bootZslDtb, 0⟩ ∧
        (∃ p, FirstOf disk deviceTree p) ∧ ∃ q, FirstOf disk firmware q)
      fun e _ => (e = ⟨"No", deviceTree⟩ ∧ NoneOf disk deviceTree) ∨
        (e = ⟨"No", firmware⟩ ∧ NoneOf disk firmware) := by
  rw [Zsl.main_eq regs hgpt]
  refine ends_bind.mpr ((ends_loadOfDisk ha deviceTree dtbSt).mono ?_ fun _ _ he => .inl he)
  intro _ _ hp
  refine ends_bind.mpr ((ends_loadOfDisk ha firmware fwSt).mono ?_ fun _ _ he => .inr he)
  exact fun _ _ hq => ⟨rfl, hp, hq⟩

/-- **The loader on a memory** mirrors the loader on the disk, whose read function may be any
faithful one: it calls the same payload, with both partitions in DRAM then, or spins for the same
reason. -/
theorem mirrors_main {σ : Type} {afns : (fn gp priv : U64) → GptRead σ}
    (ha : Faithful disk (mainRead regs afns)) (hrgp : regs.scratch3 ≠ 0)
    (hm : Medium mem (fns ((regs.scratch0 &&& ~~~1).setWidth 64) (regs.scratch3.setWidth 64)
      (regs.scratch1.setWidth 64)) disk Ready On own)
    (hv : vars.Ok own) (hown : ∀ x, own x → x < bootZslFw)
    (hmine : ∀ x, vars.Mine x → x < bootZslFw) (hdtb : PartOn disk On vars deviceTree)
    (hfw : PartOn disk On vars firmware) {fuel : ℕ} (hfuel : (header disk).count.toNat < fuel)
    (dtbSt fwSt : Stack) (hcons : console.Ok mem Ready) {s : Relocated S}
    (hfreq : Returns coreFreq s.dev fun _ d => Ready d ∧ mem d = mem s.dev)
    (t : DiskSt (Relocated σ)) :
    Mirrors some (main mem coreFreq console fns vars fuel dtbSt fwSt regs)
      (Zsl.main regs afns dtbSt fwSt) s t fun payload payload' s' _ => payload = payload' ∧
        (Ready s'.dev ∧ (s.gp ≠ 0 → s'.gp = s.gp)) ∧ (regs.scratch0 &&& 1 ≠ 0 →
          ∀ p q, FirstOf disk deviceTree p → FirstOf disk firmware q →
            Staged own vars disk p q (mem s.dev) (mem s'.dev)) := by
  have hne : regs.scratch3.setWidth 64 ≠ (0 : U64) := by
    intro h
    have hnat := congrArg BitVec.toNat h
    rw [BitVec.toNat_setWidth_of_le (by decide)] at hnat
    exact hrgp (BitVec.eq_of_toNat_eq hnat)
  have hmg : Medium (fun s => mem s.dev)
      (grread (fun gp => fns ((regs.scratch0 &&& ~~~1).setWidth 64) gp (regs.scratch1.setWidth 64))
        (regs.scratch3.setWidth 64)) disk _ On own := medium_grread hne hm s.gp
  have hprint (s' : Relocated S) (hs' : Ready s'.dev ∧ (s.gp ≠ 0 → s'.gp = s.gp)) :
      Returns (onDev console.print) s' fun _ s'' =>
        (Ready s''.dev ∧ (s.gp ≠ 0 → s''.gp = s.gp)) ∧ mem s''.dev = mem s'.dev :=
    returns_zoom.mpr ((hcons.print s'.dev hs'.1).mono fun _ _ hd => ⟨⟨hd.1, hs'.2⟩, hd.2⟩)
  unfold main
  refine Mirrors.bind_left (P := fun _ s' => (Ready s'.dev ∧ (s.gp ≠ 0 → s'.gp = s.gp)) ∧
    mem s'.dev = mem s.dev)
    (returns_zoom.mpr (hfreq.mono fun _ d hd => ⟨⟨hd.1, fun _ => rfl⟩, hd.2⟩)) ?_
  rintro freq s₁ ⟨hs₁, hmem₁⟩
  refine Mirrors.bind_left (P := fun _ s' => (Ready s'.dev ∧ (s.gp ≠ 0 → s'.gp = s.gp)) ∧
    mem s'.dev = mem s₁.dev) (returns_zoom.mpr ((hcons.init freq s₁.dev hs₁.1).mono
      fun _ _ hd => ⟨⟨hd.1, hs₁.2⟩, hd.2⟩)) ?_
  rintro - s₂ ⟨hs₂, hmem₂⟩
  refine Mirrors.bind_left (hprint s₂ hs₂) ?_
  rintro - s₃ ⟨hs₃, hmem₃⟩
  have hmem : mem s₃.dev = mem s.dev := hmem₃.trans (hmem₂.trans hmem₁)
  by_cases hgpt : regs.scratch0 &&& 1 ≠ 0
  · rw [Zsl.main_eq regs hgpt]
    dsimp only
    rw [if_pos hgpt]
    refine (mirrors_loadPartOrSpin hprint hmg ha hv hdtb hfuel (by decide)
      (fun n hn => buffer_dram hown (by decide) ?_) dtbSt hs₃).bind ?_
    · have hmax : 0x200 * deviceTree.maxLbas.toNat = 0x8000 := rfl
      show 0x8080_0000 + n ≤ _
      omega
    rintro - - s₄ t₁ ⟨hs₄, hload₄⟩
    refine (mirrors_loadPartOrSpin hprint hmg ha hv hfw hfuel (by decide)
      (fun n hn => buffer_dram hown (by decide) ?_) fwSt hs₄).bind ?_
    · have hmax : 0x200 * firmware.maxLbas.toNat = 0x400000 := rfl
      show 0x8000_0000 + n ≤ _
      omega
    rintro - - s₅ t₂ ⟨hs₅, hload₅⟩
    refine Mirrors.bind_left (hprint s₅ hs₅) ?_
    rintro - s₆ ⟨hs₆, hmem₆⟩
    refine mirrors_pure _ _ ⟨rfl, hs₆, fun _ p q hp hq => ?_⟩
    rw [← hmem, hmem₆]
    exact staged_of_loaded hown hmine hp hq (hload₄ p hp) (hload₅ q hq)
  · unfold Zsl.main
    dsimp only
    rw [if_neg hgpt, if_neg hgpt]
    refine Mirrors.bind_left (hprint s₃ hs₃) ?_
    rintro - s₄ ⟨hs₄, -⟩
    exact mirrors_pure _ _ ⟨rfl, hs₄, fun h => absurd h hgpt⟩

/-- **The loader** calls the firmware when the disk has a device tree and a firmware, and these are
in DRAM then; otherwise it spins for the one that the disk lacks. -/
theorem ends_main (hgpt : regs.scratch0 &&& 1 ≠ 0) (hrgp : regs.scratch3 ≠ 0)
    (hm : Medium mem (fns ((regs.scratch0 &&& ~~~1).setWidth 64) (regs.scratch3.setWidth 64)
      (regs.scratch1.setWidth 64)) disk Ready On own)
    (hv : vars.Ok own) (hown : ∀ x, own x → x < bootZslFw)
    (hmine : ∀ x, vars.Mine x → x < bootZslFw) (hdtb : PartOn disk On vars deviceTree)
    (hfw : PartOn disk On vars firmware) {fuel : ℕ} (hfuel : (header disk).count.toNat < fuel)
    (dtbSt fwSt : Stack) (hcons : console.Ok mem Ready) {s : Relocated S}
    (hfreq : Returns coreFreq s.dev fun _ d => Ready d ∧ mem d = mem s.dev) :
    Ends (main mem coreFreq console fns vars fuel dtbSt fwSt regs) s
      (fun payload s' => (Ready s'.dev ∧ (s.gp ≠ 0 → s'.gp = s.gp)) ∧
        payload = ⟨bootZslFw, 0, bootZslDtb, 0⟩ ∧
        ∃ p q, FirstOf disk deviceTree p ∧ FirstOf disk firmware q ∧
          Staged own vars disk p q (mem s.dev) (mem s'.dev))
      fun e _ => (e = some ⟨"No", deviceTree⟩ ∧ NoneOf disk deviceTree) ∨
        (e = some ⟨"No", firmware⟩ ∧ NoneOf disk firmware) := by
  have ha := faithful_mainRead regs disk
  refine ((mirrors_main ha hrgp hm hv hown hmine hdtb hfw hfuel dtbSt fwSt hcons hfreq
    ⟨⟨(), s.gp⟩, []⟩).ends (ends_mainOfDisk ha hgpt dtbSt fwSt _)).mono ?_ ?_
  · rintro payload s' ⟨_, -, ⟨rfl, ⟨p, hp⟩, q, hq⟩, rfl, hready, hstaged⟩
    exact ⟨hready, rfl, p, q, hp, hq, hstaged hgpt p q hp hq⟩
  · rintro e - ⟨_, -, ⟨rfl, hnone⟩ | ⟨rfl, hnone⟩, rfl⟩
    · exact .inl ⟨rfl, hnone⟩
    · exact .inr ⟨rfl, hnone⟩

end Main

end Cheshire.Sw.ZslMem
