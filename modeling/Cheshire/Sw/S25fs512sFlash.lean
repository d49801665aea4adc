import Cheshire.Sw.S25fs512sRead

/-!
Flashing the S25FS512S.  The driver puts the data of a page into a segment that receives, so
nothing is programmed, and the buffer is overwritten; what a flash leaves behind are erased sectors.
-/

namespace Cheshire.Sw.SpiS25fs512s

open Lib

/-! ### The flash -/

/-- A kind of flash. -/
structure Chip where
  /-- the bytes of a sector -/
  sector : ℕ+
  /-- whether the write enable latch stays set when an erase or a program has been accepted -/
  keepsWel : Bool
  /-- how many status reads see an erase or a program in progress -/
  latency : ℕ
  /-- what the host samples while the flash drives nothing -/
  idle : Byte

/-- The state of a flash: its content, the write enable latch, and how many status reads are still
to see it busy. -/
structure Flash where
  mem : Mem 32
  wel : Bool
  busy : ℕ

/-- Two addresses lie in one sector. -/
def SameSector (chip : Chip) (x a : U32) : Prop := x.toNat / chip.sector = a.toNat / chip.sector

instance (chip : Chip) (x a : U32) : Decidable (SameSector chip x a) := by
  unfold SameSector; infer_instance

def eraseSector (chip : Chip) (a : U32) (m : Mem 32) : Mem 32 := fun x =>
  if SameSector chip x a then 0xFF else m x

/-- A program only clears bits. -/
def programPage (a : U32) (bs : List Byte) (m : Mem 32) : Mem 32 := fun x =>
  m x &&& bs.getD (x - a).toNat 0xFF

namespace Flash

/-- Status register 1. -/
def status (f : Flash) : Byte := (if f.busy = 0 then 0 else 1) ||| (if f.wel then 2 else 0)

/-- An erase or a program that makes the content `m`; it is ignored without the write enable
latch. -/
def alter (chip : Chip) (m : Mem 32) (f : Flash) : Flash :=
  if f.wel then ⟨m, chip.keepsWel, chip.latency⟩ else f

/-- The flash when it is no longer busy. -/
def settled (f : Flash) : Flash := ⟨f.mem, f.wel, 0⟩

/-- How many bytes the segments receive. -/
def rxLength : List Segment → ℕ
  | [] => 0
  | .rx length :: segs => length + rxLength segs
  | _ :: segs => rxLength segs

/-- A transaction with a flash that is not busy: what it sends, and what becomes of it.  Program
data are what the host transmits. -/
def command (chip : Chip) (f : Flash) : List Segment → List Byte × Flash
  | [.opcode op] => ([], if op = 0x06 then ⟨f.mem, true, f.busy⟩ else f)
  | [.opcode op, .address a] =>
    ([], if op = 0xDC then f.alter chip (eraseSector chip a f.mem) else f)
  | [.opcode op, .address a, .tx bs] =>
    ([], if op = 0x12 then f.alter chip (programPage a bs f.mem) else f)
  | [.opcode op, .address a, .rx n] =>
    if op = 0x13 then (f.mem.slice a n, f)
    else (List.replicate n chip.idle,
      if op = 0x12 then f.alter chip (programPage a [] f.mem) else f)
  | segs => (List.replicate (rxLength segs) chip.idle, f)

/-- A transaction with any flash; a busy one knows only the status read. -/
def transact (chip : Chip) (f : Flash) (segs : List Segment) : List Byte × Flash :=
  match segs with
  | [.opcode 0x05, .rx n] => (List.replicate n f.status, ⟨f.mem, f.wel, f.busy - 1⟩)
  | segs =>
    if f.busy = 0 then f.command chip segs else (List.replicate (rxLength segs) chip.idle, f)

end Flash

/-- A host whose transactions succeed, with a flash behind it. -/
def HostOk {σ : Type} (chip : Chip) (dif : Dif σ) (handle : Handle) (flash : σ → Flash) : Prop :=
  ∀ segs s, (dif.transaction handle.csid segs s).1 = (0, ((flash s).transact chip segs).1) ∧
    flash (dif.transaction handle.csid segs s).2 = ((flash s).transact chip segs).2

/-- What a flash and a read behind it should do: when the flash returns 0, the buffer is what it
was, and the read returns 0 with the bytes of the buffer. -/
def FlashedOk {σ : Type} (dif : Dif σ) (handle : Handle) (depth : ℕ+) (buf dst page numPages : U64)
    (s : St σ) : Prop :=
  ∀ fuel, Leaves (spiS25fs512sSingleFlash dif handle fuel buf page numPages) s fun _ s₁ =>
    s₁.mem.slice buf (512 * numPages.toNat) = s.mem.slice buf (512 * numPages.toNat) ∧
      ∃ fuel', Returns (spiS25fs512sSingleRead dif handle depth fuel' dst (512 * page)
        (512 * numPages)) s₁ fun _ s₂ =>
          s₂.mem.slice dst (512 * numPages.toNat) = s.mem.slice buf (512 * numPages.toNat)

/-! ### Transactions -/

section Flash

variable {σ : Type} {chip : Chip} {dif : Dif σ} {handle : Handle} {flash : σ → Flash}

lemma returns_checkDif (hh : HostOk chip dif handle flash) (segs : List Segment) (s : St σ) :
    Returns (checkDif dif handle segs) s fun bs s' =>
      bs = ((flash s.dev).transact chip segs).1 ∧ s'.mem = s.mem ∧
        flash s'.dev = ((flash s.dev).transact chip segs).2 := by
  obtain ⟨hret, hflash⟩ := hh segs s.dev
  have hrun : (checkDif dif handle segs).run s = .ok ((flash s.dev).transact chip segs).1
      ⟨s.mem, (dif.transaction handle.csid segs s.dev).2⟩ := by
    show checkDif dif handle segs s = _
    rw [checkDif, if_neg (by rw [hret]; exact fun h => h rfl), hret]
  exact returns_iff.mpr ⟨_, _, hrun, rfl, rfl, hflash⟩

/-- What a transaction receives is in memory. -/
lemma returns_checkRx (hh : HostOk chip dif handle flash) (p : U64) (segs : List Segment)
    (s : St σ) : Returns (checkRx dif handle p segs) s fun _ s' =>
      s'.mem = s.mem.write p ((flash s.dev).transact chip segs).1 ∧
        flash s'.dev = ((flash s.dev).transact chip segs).2 := by
  obtain ⟨hret, hflash⟩ := hh segs s.dev
  have hrun : (checkRx dif handle p segs).run s =
      .ok () ⟨s.mem.write p ((flash s.dev).transact chip segs).1,
        (dif.transaction handle.csid segs s.dev).2⟩ := by
    show checkRx dif handle p segs s = _
    rw [checkRx, if_neg (by rw [hret]; exact fun h => h rfl), hret]
  exact returns_iff.mpr ⟨_, _, hrun, rfl, hflash⟩

/-- **The poll ends** when the flash is no longer busy, and sees no error. -/
theorem ends_pollWip (hh : HostOk chip dif handle flash) : ∀ (fuel : ℕ) (s : St σ),
    Ends (pollWip dif handle fuel) s (fun st s' => st = 0 ∧ s'.mem = s.mem ∧
      flash s'.dev = (flash s.dev).settled) fun _ _ => fuel ≤ (flash s.dev).busy := by
  intro fuel
  induction fuel with
  | zero =>
    intro s
    exact Nat.zero_le _
  | succ fuel ih =>
    intro s
    rw [pollWip]
    refine (returns_checkDif hh _ s).ends.bind ?_
    rintro bs s₁ ⟨rfl, hmem₁, hflash₁⟩
    have hstatus : (((flash s.dev).transact chip [.opcode 0x05, .rx 1]).1).headD 0 =
        (flash s.dev).status := rfl
    have hnext : flash s₁.dev = ⟨(flash s.dev).mem, (flash s.dev).wel, (flash s.dev).busy - 1⟩ :=
      hflash₁
    rw [hstatus]
    by_cases hb : (flash s.dev).busy = 0
    · have hzero : (flash s.dev).status &&& 1 = 0 ∧ (flash s.dev).status &&& 0b01100000 = 0 := by
        rw [Flash.status, if_pos hb]
        cases (flash s.dev).wel <;> decide
      rw [if_neg (not_not.mpr hzero.1), ends_pure]
      refine ⟨hzero.2, hmem₁, ?_⟩
      rw [hnext, hb]
      rfl
    · have hone : (flash s.dev).status &&& 1 ≠ 0 := by
        rw [Flash.status, if_neg hb]
        cases (flash s.dev).wel <;> decide
      rw [if_pos hone]
      refine (ih s₁).mono ?_ ?_
      · rintro st s₂ ⟨hst, hmem₂, hflash₂⟩
        refine ⟨hst, hmem₂.trans hmem₁, ?_⟩
        rw [hflash₂, hnext]
        rfl
      · intro _ _ hle
        rw [hnext] at hle
        show fuel + 1 ≤ (flash s.dev).busy
        have : fuel ≤ (flash s.dev).busy - 1 := hle
        omega

theorem ends_checkWip (hh : HostOk chip dif handle flash) (fuel : ℕ) (s : St σ) :
    Ends (checkWip dif handle fuel) s (fun _ s' => s'.mem = s.mem ∧
      flash s'.dev = (flash s.dev).settled) fun _ _ => fuel ≤ (flash s.dev).busy := by
  unfold checkWip
  refine (ends_pollWip hh fuel s).bind ?_
  rintro st s' ⟨rfl, hs'⟩
  rw [if_neg (not_not.mpr rfl)]
  exact hs'

end Flash

/-! ### Erases and programs -/

/-- The address of the erase number `k` from a page on. -/
def eraseAddr (page k : ℕ) : U32 := .ofNat 32 (512 * page + 256 * k)

/-- The content after the first `e` erases from a page on. -/
def erased (chip : Chip) (page e : ℕ) (m : Mem 32) : Mem 32 := fun x =>
  if ∃ k < e, SameSector chip x (eraseAddr page k) then 0xFF else m x

/-- How many of `j` erases a flash accepts when it has been write enabled once. -/
def accepted (chip : Chip) (j : ℕ) : ℕ := if chip.keepsWel then j else min 1 j

/-- The state of a flash that has got `j` erases from a page on. -/
structure Erased (chip : Chip) (page : ℕ) (m : Mem 32) (j : ℕ) (f : Flash) : Prop where
  ready : f.busy = 0
  mem : f.mem = erased chip page (accepted chip j) m
  wel : f.wel = (chip.keepsWel || j == 0)

@[simp] lemma erased_zero (chip : Chip) (page : ℕ) (m : Mem 32) : erased chip page 0 m = m := by
  funext x
  simp [erased]

/-- An erase more. -/
lemma eraseSector_erased (chip : Chip) (page e : ℕ) (m : Mem 32) :
    eraseSector chip (eraseAddr page e) (erased chip page e m) = erased chip page (e + 1) m := by
  funext x
  unfold eraseSector erased
  by_cases he : SameSector chip x (eraseAddr page e)
  · rw [if_pos he, if_pos ⟨e, Nat.lt_succ_self e, he⟩]
  · rw [if_neg he]
    refine if_congr ?_ rfl rfl
    rw [Nat.exists_lt_succ_right, or_iff_left he]

/-- A program without data. -/
lemma programPage_nil (a : U32) (m : Mem 32) : programPage a [] m = m := by
  funext x
  exact BitVec.and_allOnes

/-- Only the first erase is accepted, unless the write enable latch stays set. -/
lemma Erased.erase {chip : Chip} {page j : ℕ} {m : Mem 32} {f : Flash}
    (h : Erased chip page m j f) : Erased chip page m (j + 1)
      (f.alter chip (eraseSector chip (eraseAddr page j) f.mem)).settled := by
  obtain ⟨hready, hmem, hwel⟩ := h
  unfold Flash.alter
  rcases hkeep : chip.keepsWel with _ | _
  · rw [hkeep, Bool.false_or] at hwel
    cases j with
    | zero =>
      have haccepted : accepted chip 0 = 0 ∧ accepted chip 1 = 1 := by simp [accepted, hkeep]
      rw [if_pos (by rw [hwel]; rfl)]
      refine ⟨rfl, ?_, by rw [hkeep]; rfl⟩
      rw [haccepted.1] at hmem
      show eraseSector chip (eraseAddr page 0) f.mem = _
      rw [hmem, eraseSector_erased, haccepted.2]
    | succ j =>
      have haccepted : accepted chip (j + 1) = accepted chip (j + 2) := by simp [accepted, hkeep]
      rw [if_neg (by rw [hwel]; exact Bool.false_ne_true)]
      refine ⟨rfl, ?_, ?_⟩
      · rw [← haccepted]
        exact hmem
      · rw [hkeep]
        exact hwel
  · have haccepted (k : ℕ) : accepted chip k = k := if_pos hkeep
    rw [hkeep, Bool.true_or] at hwel
    rw [if_pos hwel]
    refine ⟨rfl, ?_, by rw [hkeep]; rfl⟩
    rw [haccepted] at hmem
    show eraseSector chip (eraseAddr page j) f.mem = _
    rw [haccepted, hmem, eraseSector_erased]

/-- A program without data changes nothing. -/
lemma Erased.program {chip : Chip} {page j : ℕ} {m : Mem 32} {f : Flash}
    (h : Erased chip page m (j + 1) f) (a : U32) :
    Erased chip page m (j + 1) (f.alter chip (programPage a [] f.mem)).settled := by
  obtain ⟨hready, hmem, hwel⟩ := h
  have hkeep : f.wel = chip.keepsWel := by rw [hwel]; exact Bool.or_false _
  rw [programPage_nil]
  unfold Flash.alter
  split
  · exact ⟨rfl, hmem, hkeep.symm.trans hwel⟩
  · exact ⟨rfl, hmem, hwel⟩

/-! ### The driver -/

section Driver

variable {σ : Type} {chip : Chip} {dif : Dif σ} {handle : Handle} {flash : σ → Flash}

lemma busy_alter_le {f : Flash} (hready : f.busy = 0) (chip : Chip) (m : Mem 32) :
    (f.alter chip m).busy ≤ chip.latency := by
  unfold Flash.alter
  split
  · exact Nat.le_refl _
  · rw [hready]
    exact Nat.zero_le _

/-- One erase. -/
theorem ends_erase (hh : HostOk chip dif handle flash) {page j : ℕ} {m : Mem 32} {a : U32} {s : St σ}
    (h : Erased chip page m j (flash s.dev)) (ha : a = eraseAddr page j) (fuel : ℕ) :
    Ends (do
      let _ ← checkDif dif handle [.opcode 0xDC, .address a]
      checkWip dif handle fuel) s
      (fun _ s' => s'.mem = s.mem ∧ Erased chip page m (j + 1) (flash s'.dev))
      fun _ _ => fuel ≤ chip.latency := by
  refine (returns_checkDif hh _ s).ends.bind ?_
  rintro - s₁ ⟨-, hmem₁, hflash₁⟩
  have hnext : flash s₁.dev = (flash s.dev).alter chip (eraseSector chip a (flash s.dev).mem) :=
    hflash₁.trans (congrArg Prod.snd (if_pos h.ready))
  refine (ends_checkWip hh fuel s₁).mono ?_ ?_
  · rintro - s₂ ⟨hmem₂, hflash₂⟩
    refine ⟨hmem₂.trans hmem₁, ?_⟩
    rw [hflash₂, hnext, ha]
    exact h.erase
  · intro _ _ hle
    rw [hnext] at hle
    exact hle.trans (busy_alter_le h.ready chip _)

/-- **A page**: two erases, and a program without data that fills the buffer. -/
theorem ends_singleFlashPage (hh : HostOk chip dif handle flash) {page p : ℕ} {m : Mem 32}
    {buf page' : U64} {s : St σ} (h : Erased chip page m (2 * p) (flash s.dev))
    (hpage : page'.toNat = page + p) (fuel : ℕ) :
    Ends (singleFlashPage dif handle fuel buf page') s
      (fun _ s' => s'.mem = s.mem.write buf (List.replicate 512 chip.idle) ∧
        Erased chip page m (2 * (p + 1)) (flash s'.dev))
      fun _ _ => fuel ≤ chip.latency := by
  have haddr (i : ℕ) (hi : i < 2) : (page' <<< 9 + BitVec.ofNat 64 i <<< 8).setWidth 32 =
      eraseAddr page (2 * p + i) := by
    refine BitVec.eq_of_toNat_eq ?_
    unfold eraseAddr
    simp only [BitVec.toNat_setWidth, BitVec.toNat_add, BitVec.toNat_shiftLeft, BitVec.toNat_ofNat,
      Nat.shiftLeft_eq, hpage]
    omega
  unfold singleFlashPage
  refine Ends.bind (P := fun _ s' => s'.mem = s.mem ∧ Erased chip page m (2 * p + 2) (flash s'.dev))
    (Ends.forM_range (I := fun i (s' : St σ) => s'.mem = s.mem ∧
      Erased chip page m (2 * p + i) (flash s'.dev))
      ⟨rfl, h⟩ ?_) ?_
  · rintro i s₁ hi ⟨hmem₁, h₁⟩
    refine (ends_erase hh h₁ (haddr i hi) fuel).mono ?_ fun _ _ h => h
    rintro - s₂ ⟨hmem₂, h₂⟩
    exact ⟨hmem₂.trans hmem₁, h₂⟩
  · rintro - s₁ ⟨hmem₁, h₁⟩
    refine (returns_checkRx hh buf _ s₁).ends.bind ?_
    rintro - s₂ ⟨hmem₂, hflash₂⟩
    have hreceived : ((flash s₁.dev).transact chip
        [.opcode 0x12, .address ((page' <<< 9).setWidth 32), .rx 512]).1 =
          List.replicate 512 chip.idle := congrArg Prod.fst (if_pos h₁.ready)
    have hnext : flash s₂.dev = (flash s₁.dev).alter chip
        (programPage ((page' <<< 9).setWidth 32) [] (flash s₁.dev).mem) :=
      hflash₂.trans (congrArg Prod.snd (if_pos h₁.ready))
    rw [hreceived, hmem₁] at hmem₂
    refine (ends_checkWip hh fuel s₂).mono ?_ ?_
    · rintro - s₃ ⟨hmem₃, hflash₃⟩
      refine ⟨hmem₃.trans hmem₂, ?_⟩
      rw [hflash₃, hnext]
      exact h₁.program _
    · intro _ _ hle
      rw [hnext] at hle
      exact hle.trans (busy_alter_le h₁.ready chip _)

/-- **The whole flash**: the buffer is filled with what an idle flash lets the host sample, and the
flash has got its erases, and nothing else. -/
theorem ends_singleFlash (hh : HostOk chip dif handle flash) {buf page numPages : U64} {s : St σ}
    (hfreq : handle.spiFreq < 100 * 1000 * 1000) (hready : (flash s.dev).busy = 0)
    (hrange : 512 * (page.toNat + numPages.toNat) ≤ 2 ^ 32) (fuel : ℕ) :
    Ends (spiS25fs512sSingleFlash dif handle fuel buf page numPages) s
      (fun _ s' => s'.mem = s.mem.write buf (List.replicate (512 * numPages.toNat) chip.idle) ∧
        (flash s'.dev).busy = 0 ∧ (flash s'.dev).mem =
          erased chip page.toNat (accepted chip (2 * numPages.toNat)) (flash s.dev).mem)
      fun _ _ => fuel ≤ chip.latency := by
  unfold spiS25fs512sSingleFlash
  rw [if_pos hfreq]
  refine (returns_checkDif hh _ s).ends.bind ?_
  rintro - s₁ ⟨-, hmem₁, hflash₁⟩
  have hnext : flash s₁.dev = ⟨(flash s.dev).mem, true, (flash s.dev).busy⟩ :=
    hflash₁.trans (congrArg Prod.snd (if_pos hready))
  have h₀ : Erased chip page.toNat (flash s.dev).mem (2 * 0) (flash s₁.dev) := by
    rw [hnext]
    refine ⟨hready, ?_, (Bool.or_true _).symm⟩
    have haccepted : accepted chip (2 * 0) = 0 := by simp [accepted]
    rw [haccepted, erased_zero]
  refine (Ends.forM_range (I := fun p s' =>
    s'.mem = s.mem.write buf (List.replicate (512 * p) chip.idle) ∧
      Erased chip page.toNat (flash s.dev).mem (2 * p) (flash s'.dev)) ⟨hmem₁, h₀⟩ ?_).mono ?_
    fun _ _ h => h
  · rintro p s₂ hp ⟨hmem₂, h₂⟩
    have hpage : (page + BitVec.ofNat 64 p).toNat = page.toNat + p := by
      rw [BitVec.toNat_add, BitVec.toNat_ofNat]
      omega
    refine (ends_singleFlashPage hh h₂ hpage fuel).mono ?_ fun _ _ h => h
    rintro - s₃ ⟨hmem₃, h₃⟩
    refine ⟨?_, h₃⟩
    have hptr : BitVec.ofNat 64 p <<< 9 = BitVec.ofNat 64 (512 * p) := by
      refine BitVec.eq_of_toNat_eq ?_
      simp only [BitVec.toNat_shiftLeft, BitVec.toNat_ofNat, Nat.shiftLeft_eq]
      omega
    have happ := Mem.write_append s.mem buf (List.replicate (512 * p) chip.idle)
      (List.replicate 512 chip.idle) (by
        rw [List.length_replicate, List.length_replicate]
        omega)
    rw [List.replicate_append_replicate, List.length_replicate] at happ
    rw [hmem₃, hmem₂, hptr, Nat.mul_succ, happ]
  · rintro - s' ⟨hmem, h⟩
    exact ⟨hmem, h.ready, h.mem⟩

/-! ### Reads -/

/-- One chunk. -/
lemma returns_singleReadChunk (hh : HostOk chip dif handle flash) {buf addr len : U64} {s : St σ}
    (hready : (flash s.dev).busy = 0) :
    Returns (singleReadChunk dif handle buf addr len) s fun _ s' =>
      s'.mem = s.mem.write buf ((flash s.dev).mem.slice (addr.setWidth 32) len.toNat) ∧
        flash s'.dev = flash s.dev := by
  have hcommand : (flash s.dev).transact chip
      [.opcode 0x13, .address (addr.setWidth 32), .rx len.toNat] =
        ((flash s.dev).mem.slice (addr.setWidth 32) len.toNat, flash s.dev) := if_pos hready
  have hread := returns_checkRx hh buf
    [.opcode 0x13, .address (addr.setWidth 32), .rx len.toNat] s
  rw [hcommand] at hread
  exact hread

/-- **A read gives the content of the flash.** -/
theorem ends_singleRead (hh : HostOk chip dif handle flash) {depth : ℕ+} {buf addr len : U64}
    {s : St σ} (hfreq : handle.spiFreq < 50 * 1000 * 1000) (hdepth : 4 * (depth : ℕ) < 2 ^ 31)
    (hrange : addr.toNat + len.toNat ≤ 2 ^ 32) (hready : (flash s.dev).busy = 0) (fuel : ℕ) :
    Ends (spiS25fs512sSingleRead dif handle depth fuel buf addr len) s
      (fun _ s' => s'.mem = s.mem.write buf
        ((flash s.dev).mem.slice (addr.setWidth 32) len.toNat))
      fun _ _ => fuel ≤ len.toNat := by
  unfold spiS25fs512sSingleRead
  rw [if_pos hfreq]
  refine (ends_readLoop (I := fun k s' =>
    s'.mem = s.mem.write buf ((flash s.dev).mem.slice (addr.setWidth 32) k) ∧
      flash s'.dev = flash s.dev) (E := fun _ _ => False) (by omega) (by omega) ?_ fuel 0 s ?_).mono
    (fun _ _ h => h.1) ?_
  · rintro offs k s₁ - - hle ⟨hmem₁, hflash₁⟩
    have hk : (BitVec.ofNat 64 k).toNat = k := by
      rw [BitVec.toNat_ofNat]
      exact Nat.mod_eq_of_lt (by omega)
    refine (returns_singleReadChunk hh (by rw [hflash₁]; exact hready)).ends.mono ?_
      fun _ _ h => h
    rintro - s₂ ⟨hmem₂, hflash₂⟩
    refine ⟨?_, hflash₂.trans hflash₁⟩
    rw [hk, hmem₁, hflash₁, setWidth_add_ofNat] at hmem₂
    rw [hmem₂, write_chunk s.mem _ (Nat.le_of_eq (Mem.length_slice _ _ k)) (by omega),
      Mem.slice_append]
  · have h0 : min (0 : U64).toNat len.toNat = 0 := Nat.zero_min _
    rw [h0, Mem.slice_zero, Mem.write_nil]
    exact ⟨rfl, rfl⟩
  · rintro e s' (⟨-, hfuel⟩ | hfalse)
    · exact hfuel
    · exact hfalse.elim

/-! ### The result -/

/-- A buffer that has been filled is what it was when it had these bytes. -/
lemma slice_filled_iff {m m' : Mem 64} {buf : U64} {n : ℕ} {b : Byte}
    (hm : m' = m.write buf (List.replicate n b)) (hn : n ≤ 2 ^ 64) :
    m'.slice buf n = m.slice buf n ↔ m.slice buf n = List.replicate n b := by
  have hself := Mem.slice_write_self m buf (List.replicate n b) (by rwa [List.length_replicate])
  rw [List.length_replicate] at hself
  rw [hm, hself]
  exact eq_comm

/-- **The flash and the read behind it do what they should exactly when** the buffer has the bytes
that the host samples on an idle line, and the flash holds them without being programmed. -/
theorem flashedOk_iff (hh : HostOk chip dif handle flash) {depth : ℕ+}
    {buf dst page numPages : U64} {s : St σ} (hfreq : handle.spiFreq < 50 * 1000 * 1000)
    (hdepth : 4 * (depth : ℕ) < 2 ^ 31) (hready : (flash s.dev).busy = 0)
    (hrange : 512 * (page.toNat + numPages.toNat) ≤ 2 ^ 32) :
    FlashedOk dif handle depth buf dst page numPages s ↔
      s.mem.slice buf (512 * numPages.toNat) = List.replicate (512 * numPages.toNat) chip.idle ∧
        (erased chip page.toNat (accepted chip (2 * numPages.toNat)) (flash s.dev).mem).slice
          (.ofNat 32 (512 * page.toNat)) (512 * numPages.toNat) =
            s.mem.slice buf (512 * numPages.toNat) := by
  have hfreq' : handle.spiFreq < 100 * 1000 * 1000 := by
    rw [BitVec.lt_def] at hfreq ⊢
    exact hfreq.trans (by decide)
  have h512 : (512 : U64).toNat = 512 := rfl
  have hlen : (512 * numPages).toNat = 512 * numPages.toNat := by
    rw [BitVec.toNat_mul, h512]
    exact Nat.mod_eq_of_lt (by omega)
  have haddr : (512 * page).toNat = 512 * page.toNat := by
    rw [BitVec.toNat_mul, h512]
    exact Nat.mod_eq_of_lt (by omega)
  have haddr' : (512 * page).setWidth 32 = BitVec.ofNat 32 (512 * page.toNat) := by
    refine BitVec.eq_of_toNat_eq ?_
    rw [BitVec.toNat_setWidth, haddr, BitVec.toNat_ofNat]
  unfold FlashedOk
  refine leaves_fuel_iff (ends_singleFlash hh hfreq' hready hrange) ?_
  rintro - s₁ ⟨hmem₁, hready₁, hc₁⟩
  refine and_congr ?_ ?_
  · exact slice_filled_iff hmem₁ (by omega)
  · refine returns_fuel_iff (ends_singleRead hh hfreq hdepth (by omega) hready₁) ?_
    rintro - s₂ hmem₂
    rw [hlen, haddr', hc₁] at hmem₂
    have hself := Mem.slice_write_self s₁.mem dst ((erased chip page.toNat
      (accepted chip (2 * numPages.toNat)) (flash s.dev).mem).slice (.ofNat 32 (512 * page.toNat))
        (512 * numPages.toNat)) (by
          rw [Mem.length_slice]
          omega)
    rw [Mem.length_slice, ← hmem₂] at hself
    rw [hself]

end Driver

/-! ### A flash with sectors of 256 KiB -/

/-- A flash that clears its write enable latch, on a line that is pulled up. -/
def pulledUp : Chip := ⟨0x40000, false, 1, 0xFF⟩

/-- A host with a flash behind it. -/
def directDif (chip : Chip) : Dif Flash where
  transaction _ segs f := ((0, (f.transact chip segs).1), (f.transact chip segs).2)

theorem hostOk_directDif (chip : Chip) (handle : Handle) : HostOk chip (directDif chip) handle id :=
  fun _ _ => ⟨rfl, rfl⟩

/-- A page of erased bytes is flashed to an erased flash. -/
theorem flashedOk_blank : FlashedOk (directDif pulledUp) ⟨1000, 0⟩ 64 0x1000 0x2000 3 1
    ⟨fun _ => 0xFF, ⟨fun _ => 0xFF, false, 0⟩⟩ := by
  refine (flashedOk_iff (hostOk_directDif pulledUp ⟨1000, 0⟩) (by decide) (by decide) rfl
    (by decide)).mpr ⟨Mem.slice_const _ _ _, ?_⟩
  have hblank (e : ℕ) : erased pulledUp 3 e (fun _ => 0xFF) = fun _ => 0xFF := by
    funext x
    exact ite_self _
  refine (congrArg (fun c : Mem 32 => c.slice _ _) (hblank _)).trans ?_
  rw [Mem.slice_const, Mem.slice_const]

/-- A page of zeros is not flashed: the buffer is overwritten. -/
theorem not_flashedOk_zeros : ¬ FlashedOk (directDif pulledUp) ⟨1000, 0⟩ 64 0x1000 0x2000 3 1
    ⟨fun _ => 0, ⟨fun _ => 0xFF, false, 0⟩⟩ := by
  intro h
  have hidle := (leaves_fuel_iff (ends_singleFlash (hostOk_directDif pulledUp ⟨1000, 0⟩) (by decide)
    rfl (by decide)) fun _ _ h => slice_filled_iff h.1 (by decide)).mp
    fun fuel => (h fuel).mono fun _ _ h => h.1
  rw [Mem.slice_const] at hidle
  exact absurd (congrArg (fun bs => bs.headD 0) hidle) (by decide)

end Cheshire.Sw.SpiS25fs512s
