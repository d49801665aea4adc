import Cheshire.Sim.ElfLoads
import Cheshire.Sim.Handshake
import Cheshire.Sim.SlinkBursts

/-!
A binary is run over the serial link, from the file to the exit code: `slink_elf_run` and
`slink_wait_for_eoc` of `vip_cheshire_soc.sv` on the one side, and on the other hart 0, which turns
the cache into a scratchpad, waits in `boot_passive` and runs what it is given.
-/

namespace Cheshire.Sim.Slink.Run

open Lib Lib.Axi Lib.Load Elf Relation

/-! ### The two sides -/

/-- `AmLlc`, where `CFG_SPM_LOW` is. -/
def AmLlc : Addr := 0x0300_1000

/-- The registers of the system, and of the cache behind them. -/
def Reg (x : Addr) : Prop := (x - AmRegs).toNat < 0x2000

instance (x : Addr) : Decidable (Reg x) := by unfold Reg; infer_instance

/-- A store to a register of the cache. -/
def llcStore (m : Mem 48) (offs : ℕ) (v : BitVec 32) : Mem 48 :=
  m.write (AmLlc + .ofNat 48 offs) (toLe 4 v.toNat)

/-- A load from a register of the cache. -/
def llcLoad (m : Mem 48) (offs : ℕ) : BitVec 32 :=
  .ofNat 32 (ofLe (m.slice (AmLlc + .ofNat 48 offs) 4))

/-- Where the task is: in front of the poll of `CFG_SPM_LOW`, of `read_elf`, of `get_section`, of
the bursts of a section that are left, or behind the preload with the entry point.  It may also have
been stopped, by `$fatal` or in the middle of a call. -/
inductive Task where
  | waitLlc (ld : Loader)
  | read (ld : Loader)
  | sections (ld : Loader)
  | bursts (ld : Loader) (ws : List Write)
  | meet (entry : BitVec 64) (host : Host)
  | fatal (msg : String)
  | aborted

/-- Where hart 0 is: in front of the end of the cache's self-test, of the stores to `CFG_SPM_LOW`,
`CFG_SPM_HIGH` and `CFG_COMMIT`, or in `boot_passive` and behind it. -/
inductive Core where
  | bist
  | spmLow
  | spmHigh
  | commit
  | passive (hart : Hart)

structure St where
  mem : Mem 48
  task : Task
  core : Core

/-- A turn of `slink_elf_run` in front of the writes to the scratch registers. -/
def turn (binary : List Byte) (m : Mem 48) : Task → Option (Mem 48 × Task)
  | .waitLlc ld =>
    some (m, if (slinkPollBit0 AmLlc m).isSome then .read ld else .waitLlc ld)
  | .read ld =>
    match readElf binary ld with
    | none => some (m, .aborted)
    | some (ret, ld) =>
      some (m, if ret ≠ 0 then .fatal "[SLINK] Failed to load ELF!" else .sections ld)
  | .sections ld =>
    match getSection ld with
    | none => some (m, .meet (getEntry ld) .write1)
    | some ((secAddr, secLen), ld) =>
      if secLen.msb then some (m, .aborted)
      else
        let (ret, bf) := readSection ld secAddr (List.replicate secLen.toNat 0) secLen.toNat
        some (m, if ret ≠ 0 then .fatal "[SLINK] Failed to read ELF section!"
          else .bursts ld (writesFrom secAddr bf 0))
  | .bursts ld [] => some (m, .sections ld)
  | .bursts ld (w :: ws) =>
    match slinkWriteBeats w.addr AxiStrbBits w.beats m with
    | .ok m => some (m, .bursts ld ws)
    | .error msg => some (m, .fatal msg)
  | .meet _ _ | .fatal _ | .aborted => none

/-- The host of the handshake. -/
def Task.host : Task → Host
  | .meet _ host => host
  | _ => .write1

/-- Hart 0 of the handshake. -/
def Core.hart : Core → Hart
  | .passive hart => hart
  | _ => .poll

/-- The state of the handshake. -/
def St.meets (s : St) : Slink.St := ⟨s.mem, s.task.host, s.core.hart⟩

/-- The entry point, once the program has been entered. -/
def St.booted (s : St) : Option (BitVec 64) := s.core.hart.booted

/-- A step of either side.  Beside the registers the boot ROM stores to `Rom`, where its stack and
the UART are; the program that it starts returns `r`. -/
inductive Step (Rom : Addr → Prop) (binary : List Byte) (r : BitVec 32) : St → St → Prop
  | turn {m m' : Mem 48} {task task' : Task} {core : Core}
      (h : turn binary m task = some (m', task')) :
      Step Rom binary r ⟨m, task, core⟩ ⟨m', task', core⟩
  | host {m m' : Mem 48} {entry : BitVec 64} {host host' : Host} {core : Core}
      (h : Slink.Step entry r ⟨m, host, core.hart⟩ ⟨m', host', core.hart⟩) :
      Step Rom binary r ⟨m, .meet entry host, core⟩ ⟨m', .meet entry host', core⟩
  -- `llc.BIST_STATUS_DONE_BIT` is set by the cache
  | selfTest {m : Mem 48} {task : Task} :
      Step Rom binary r ⟨m, task, .bist⟩ ⟨llcStore m 72 1, task, .bist⟩
  | bistWait {m : Mem 48} {task : Task} (h : llcLoad m 72 = 0) :
      Step Rom binary r ⟨m, task, .bist⟩ ⟨m, task, .bist⟩
  | bist {m : Mem 48} {task : Task} (h : llcLoad m 72 ≠ 0) :
      Step Rom binary r ⟨m, task, .bist⟩ ⟨m, task, .spmLow⟩
  | spmLow {m : Mem 48} {task : Task} :
      Step Rom binary r ⟨m, task, .spmLow⟩ ⟨llcStore m 0 (-1), task, .spmHigh⟩
  | spmHigh {m : Mem 48} {task : Task} :
      Step Rom binary r ⟨m, task, .spmHigh⟩ ⟨llcStore m 4 (-1), task, .commit⟩
  | commit {m : Mem 48} {task : Task} :
      Step Rom binary r ⟨m, task, .commit⟩ ⟨llcStore m 16 1, task, .passive .poll⟩
  | store {m m' : Mem 48} {task : Task} {core : Core} (hrom : core.hart.booted = none)
      (hm : ∀ x, ¬ Rom x → m' x = m x) : Step Rom binary r ⟨m, task, core⟩ ⟨m', task, core⟩
  | hart {m m' : Mem 48} {entry : BitVec 64} {task : Task} {hart hart' : Hart}
      (h : Slink.Step entry r ⟨m, task.host, hart⟩ ⟨m', task.host, hart'⟩) :
      Step Rom binary r ⟨m, task, .passive hart⟩ ⟨m', task, .passive hart'⟩

/-! ### Where the two sides store to -/

/-- The memories agree off the given addresses. -/
def SameOff (Own : Addr → Prop) (m m' : Mem 48) : Prop := ∀ x, ¬ Own x → m x = m' x

/-- The registers, and what the boot ROM stores to beside them. -/
def Own (Rom : Addr → Prop) (x : Addr) : Prop := Reg x ∨ Rom x

/-- The call leaves the address alone. -/
def Keeps (w : Write) (x : Addr) : Prop :=
  ∀ m m', slinkWriteBeats w.addr AxiStrbBits w.beats m = .ok m' → m' x = m x

/-- A call in another memory. -/
lemma slinkWriteBeats_congr {addr : Addr} {size : ℕ} {beats : List (BitVec 64)} {m₁ m₂ : Mem 48}
    (h : slinkWriteBeats addr size beats m₁ = .ok m₂) (m₁' : Mem 48) :
    ∃ m₂', slinkWriteBeats addr size beats m₁' = .ok m₂' ∧ ∀ x, m₁ x = m₁' x → m₂ x = m₂' x := by
  unfold slinkWriteBeats at h ⊢
  split_ifs at h ⊢
  obtain rfl := Except.ok.inj h
  exact ⟨_, rfl, fun x hx => burst_congr hx _ _⟩

/-- **The calls of a section** leave alone what is off the bytes that are sent. -/
lemma keeps_of_mem {addr : BitVec 64} {bf : List Byte} (hfits : Fits (onBus addr bf)) {w : Write}
    (hw : w ∈ writesFrom addr bf 0) {x : Addr}
    (hx : sent (onBus addr bf) ≤ (onBus addr bf).offs x) : Keeps w x := by
  intro m m' hm
  obtain ⟨k, hk, rfl⟩ := (mem_writesFrom 0).mp hw
  rw [Nat.zero_add] at hk hm
  have hburst := burst_at (onBus addr bf) hfits (Nat.dvd_mul_right SlinkBurstBytes k) hk m
  have hbeats : beatsFrom (onBus addr bf).bytes (lane (onBus addr bf).addr)
      (SlinkBurstBytes * k) 0 = (writeAt addr bf (SlinkBurstBytes * k)).beats := by
    rw [lane_onBus]
    rfl
  rw [hbeats, ← addr_writeAt] at hburst
  obtain ⟨m₂, hm₂, hsame⟩ := slinkWriteBeats_congr hm
    (m.write (onBus addr bf).addr ((onBus addr bf).stream
      (SlinkBurstBytes * k - lane (onBus addr bf).addr)))
  have hlen : (onBus addr bf).bytes.length = bf.length := rfl
  rw [hm₂] at hburst
  split at hburst
  · cases hburst
  · obtain rfl := Except.ok.inj hburst
    have hlow : ¬ (onBus addr bf).offs x < SlinkBurstBytes * k - lane (onBus addr bf).addr := by
      unfold sent SlinkBurstBytes at *
      omega
    have hhigh : ¬ (onBus addr bf).offs x < SlinkBurstBytes * k +
        8 * beatCount (onBus addr bf) (SlinkBurstBytes * k) - lane (onBus addr bf).addr := by
      unfold sent beatCount SlinkBurstBytes at *
      omega
    have hx := hsame x
    rw [write_stream_apply, if_neg hlow, write_stream_apply, if_neg hhigh] at hx
    exact hx rfl

lemma reg_scratchAddr {i : ℕ} (hi : i < 16) {k : ℕ} (hk : k < 4) :
    Reg (scratchAddr i + .ofNat 48 k) := by
  unfold Reg scratchAddr
  rw [BitVec.add_assoc, ← BitVec.ofNat_add, BitVec.add_comm, BitVec.add_sub_cancel,
    BitVec.toNat_ofNat]
  omega

/-- An address of a register of the cache. -/
lemma reg_llc {i k : ℕ} (hi : i + k < 0x1000) : Reg (AmLlc + .ofNat 48 i + .ofNat 48 k) := by
  have hllc : AmLlc = AmRegs + .ofNat 48 0x1000 := rfl
  unfold Reg
  rw [hllc, BitVec.add_assoc, BitVec.add_assoc, ← BitVec.ofNat_add, ← BitVec.ofNat_add,
    BitVec.add_comm, BitVec.add_sub_cancel, BitVec.toNat_ofNat]
  omega

lemma scratch_congr {m m' : Mem 48} (h : ∀ x, Reg x → m' x = m x) {i : ℕ} (hi : i < 16) :
    scratch m' i = scratch m i := by
  unfold scratch
  rw [Mem.slice_congr fun k hk => h _ (reg_scratchAddr hi hk)]

lemma scratch_llcStore (m : Mem 48) {offs i : ℕ} (ho : offs < 0xFFD) (hi : i < 16) (v : BitVec 32) :
    scratch (llcStore m offs v) i = scratch m i := by
  unfold scratch
  refine congrArg _ (congrArg _ (Mem.slice_congr fun k hk => Mem.write_outside m ?_))
  rw [length_toLe, Mem.Outside, scratchAddr, BitVec.toNat_sub, BitVec.toNat_add, BitVec.toNat_add,
    BitVec.toNat_add, BitVec.toNat_ofNat, BitVec.toNat_ofNat, BitVec.toNat_ofNat]
  have hregs : AmRegs.toNat = 0x0300_0000 := rfl
  have hllc : AmLlc.toNat = 0x0300_1000 := rfl
  omega

lemma llcStore_of_not_reg (m : Mem 48) {offs : ℕ} (ho : offs < 0xFFD) (v : BitVec 32) {x : Addr}
    (hx : ¬ Reg x) : llcStore m offs v x = m x := by
  refine Mem.write_outside m (Nat.not_lt.mp fun hlt => hx ?_)
  rw [length_toLe] at hlt
  rw [← Mem.add_toNat_sub (AmLlc + .ofNat 48 offs) x]
  exact reg_llc (by omega)

lemma setScratch_of_not_reg (m : Mem 48) {i : ℕ} (hi : i < 16) (v : BitVec 32) {x : Addr}
    (hx : ¬ Reg x) : setScratch m i v x = m x := by
  refine Mem.write_outside m (Nat.not_lt.mp fun hlt => hx ?_)
  rw [length_toLe] at hlt
  rw [← Mem.add_toNat_sub (scratchAddr i) x]
  exact reg_scratchAddr hi hlt

@[simp] lemma llcLoad_llcStore_self (m : Mem 48) (offs : ℕ) (v : BitVec 32) :
    llcLoad (llcStore m offs v) offs = v := by
  have hread := Mem.slice_write_self m (AmLlc + .ofNat 48 offs) (toLe 4 v.toNat) (by simp)
  rw [length_toLe] at hread
  rw [llcLoad, llcStore, hread, ofLe_toLe_of_lt (Nat.lt_of_lt_of_eq v.isLt (by norm_num)),
    BitVec.ofNat_toNat, BitVec.setWidth_eq]

lemma llcLoad_congr {m m' : Mem 48} (h : ∀ x, Reg x → m' x = m x) {offs : ℕ} (ho : offs < 0xFFD) :
    llcLoad m' offs = llcLoad m offs := by
  unfold llcLoad
  rw [Mem.slice_congr fun k hk => h _ (reg_llc (by omega))]

/-- `CFG_SPM_LOW` behind a store to another register of the cache. -/
lemma llcLoad_llcStore_zero (m : Mem 48) {offs : ℕ} (h : 4 ≤ offs) (ho : offs < 0xFFD)
    (v : BitVec 32) : llcLoad (llcStore m offs v) 0 = llcLoad m 0 := by
  unfold llcLoad
  refine congrArg _ (congrArg _ (Mem.slice_congr fun k hk => Mem.write_outside m ?_))
  rw [length_toLe, Mem.Outside, BitVec.toNat_sub, BitVec.toNat_add, BitVec.toNat_add,
    BitVec.toNat_add, BitVec.toNat_ofNat, BitVec.toNat_ofNat, BitVec.toNat_ofNat]
  have hllc : AmLlc.toNat = 0x0300_1000 := rfl
  omega

/-- The poll of `CFG_SPM_LOW` ends when its lowest bit is set. -/
lemma isSome_slinkPollBit0_llc (m : Mem 48) :
    (slinkPollBit0 AmLlc m).isSome = (llcLoad m 0).getLsbD 0 := by
  have hdata : (slinkReadBeat AmLlc m >>> lane AmLlc).setWidth 32 = llcLoad m 0 := by
    rw [setWidth_slinkReadBeat _ (by decide)]
    rfl
  unfold slinkPollBit0
  rw [hdata]
  by_cases h : (llcLoad m 0).getLsbD 0 = true
  · rw [if_pos h, h]
    rfl
  · rw [if_neg h, Bool.eq_false_of_not_eq_true h]
    rfl

/-! ### The preload -/

/-- The segment as it is sent, with zeros behind what the file has of it. -/
def piece (f : ElfFile) (p : Phdr) : Piece 48 := onBus p.paddr (padded (f.content p) p.memsz.toNat)

def pieces (f : ElfFile) : List (Piece 48) := f.segments.map (piece f)

/-- **When a file can be sent**: every section lies in the address space of the bus (`fits`), neither
it nor the zeros sent behind it touch the registers or the boot ROM's memory (`off`), none ends with
an empty burst (`nonempty`), the sections lie apart (`apart`), the zeros behind one fall on no byte
of an earlier one that is not zero (`spares`), and the bytes that are not sent are in the memory
already (`lost`). -/
structure Sendable (Rom : Addr → Prop) (f : ElfFile) (m : Mem 48) : Prop where
  fits : ∀ p ∈ pieces f, Fits p
  off : ∀ p ∈ pieces f, ∀ x, p.offs x < max p.bytes.length (sent p) → ¬ Own Rom x
  nonempty : ∀ p ∈ pieces f, ¬ Empty p
  apart : (pieces f).Pairwise Piece.Apart
  spares : (pieces f).Pairwise (Spares sent)
  lost : ∀ p ∈ pieces f, ∀ x, p.Lost (sent p) x → m x = p.byteAt x

/-- The memory behind the preload. -/
def image (f : ElfFile) (m : Mem 48) : Mem 48 := load sent (pieces f) m

/-- Where the task is in the preload of a file, when the memory is `m` but for what the boot ROM
stores. -/
inductive Left (Rom : Addr → Prop) (f : ElfFile) (m₀ : Mem 48) : Mem 48 → Task → Prop
  | waitLlc {ld : Loader} (h : LoadOk f ld) : Left Rom f m₀ m₀ (.waitLlc ld)
  | read {ld : Loader} (h : LoadOk f ld) : Left Rom f m₀ m₀ (.read ld)
  | sections {m : Mem 48} {ld ld₂ : Loader} {ps : List Phdr} (hps : ∀ p ∈ ps, p ∈ f.segments)
      (hdrain : Drains ld (ps.map Phdr.sec) ld₂)
      (hreads : ∀ t, ReflTransGen Gets ld t → Reads f t)
      (himage : load sent (ps.map (piece f)) m = image f m₀) : Left Rom f m₀ m (.sections ld)
  | bursts {m m₂ : Mem 48} {ld : Loader} {ws : List Write}
      (hkeeps : ∀ w ∈ ws, ∀ x, Own Rom x → Keeps w x)
      (hws : ws.foldlM (fun m w => slinkWriteBeats w.addr AxiStrbBits w.beats m) m = .ok m₂)
      (h : Left Rom f m₀ m₂ (.sections ld)) : Left Rom f m₀ m (.bursts ld ws)
  | meet {host : Host} : Left Rom f m₀ (image f m₀) (.meet f.entry host)

section Preload

variable {Rom : Addr → Prop} {f : ElfFile} {m₀ m m' mem mem' : Mem 48} {ld ld₂ : Loader}

/-- **The memory behind the preload** holds the file. -/
theorem holds_image (h : Sendable Rom f m₀) : Holds (pieces f) (image f m₀) := by
  have hlen : ∀ p ∈ pieces f, 1 ≤ p.bytes.length := by
    intro p hp
    obtain ⟨q, hq, rfl⟩ := List.mem_map.mp hp
    obtain ⟨-, hfilled⟩ := List.mem_filter.mp hq
    have hne : q.memsz.toNat ≠ 0 := fun h0 =>
      (of_decide_eq_true hfilled).2.1 (BitVec.eq_of_toNat_eq h0)
    have hbytes : (piece f q).bytes.length = q.memsz.toNat := length_padded_content hq
    omega
  have hpair : ∀ p ∈ pieces f, ∀ q ∈ pieces f, p = q ∨ p.Apart q := by
    intro p hp q hq
    by_cases hpq : p = q
    · exact .inl hpq
    · exact .inr (h.apart.forall hp hq hpq)
  refine (holds_load_iff (n := sent) (pieces f) m₀ ?_ h.apart ?_).mpr ⟨h.spares, h.lost⟩
  · exact fun p hp => Nat.le_trans (Nat.le_add_left _ _) (h.fits p hp)
  · exact fun p hp q hq x => not_inPad_of_lost (h.fits p hp) (h.fits q hq) (hlen q hq)
      (hpair p hp q hq)

/-- A section, call by call. -/
lemma foldlM_writesFrom {addr : BitVec 64} {bf : List Byte} (hfits : Fits (onBus addr bf))
    (hempty : ¬ Empty (onBus addr bf)) (m : Mem 48) :
    (writesFrom addr bf 0).foldlM (fun m w => slinkWriteBeats w.addr AxiStrbBits w.beats m) m =
      .ok (m.write (onBus addr bf).addr ((onBus addr bf).stream (sent (onBus addr bf)))) := by
  have hsec := burstsFrom_eq (onBus addr bf) hfits m (bf.length / SlinkBurstBytes) 0
    (Nat.zero_add _)
  rw [Nat.zero_sub, if_neg hempty] at hsec
  rw [← burstsFrom_eq_writes]
  exact hsec

/-- One more section. -/
lemma Left.more {ps : List Phdr} {p : Phdr} (hf : Sendable Rom f m₀)
    (hps : ∀ q ∈ p :: ps, q ∈ f.segments) (hdrain : Drains ld (ps.map Phdr.sec) ld₂)
    (hreads : ∀ t, ReflTransGen Gets ld t → Reads f t)
    (himage : load sent ((p :: ps).map (piece f)) m = image f m₀) :
    Left Rom f m₀ m
      (.bursts ld (writesFrom p.paddr (padded (f.content p) p.memsz.toNat) 0)) := by
  rw [List.forall_mem_cons] at hps
  have hp : piece f p ∈ pieces f := List.mem_map_of_mem hps.1
  refine .bursts (fun w hw x hx => ?_) (foldlM_writesFrom (hf.fits _ hp) (hf.nonempty _ hp) m)
    (.sections hps.2 hdrain hreads ?_)
  · refine keeps_of_mem (hf.fits _ hp) hw (Nat.not_lt.mp fun hlt => ?_)
    exact hf.off _ hp x (Nat.lt_of_lt_of_le hlt (Nat.le_max_right _ _)) hx
  · exact himage

/-- **A turn of the task** in front of the handshake: it goes on, stores nothing that is not of the
file, and never fails. -/
theorem Left.turn {task : Task} (hf : Sendable Rom f m₀) (h : Left Rom f m₀ m task)
    (hmem : SameOff (Own Rom) mem m) {task' : Task}
    (ht : Run.turn f.bytes mem task = some (mem', task')) :
    (∃ m', Left Rom f m₀ m' task' ∧ SameOff (Own Rom) mem' m') ∧
      (∀ x, Own Rom x → mem' x = mem x) ∧ task'.host = .write1 := by
  cases h with
  | waitLlc h =>
    obtain ⟨rfl, rfl⟩ := Prod.mk.inj (Option.some.inj ht)
    split
    · exact ⟨⟨_, .read h, hmem⟩, fun _ _ => rfl, rfl⟩
    · exact ⟨⟨_, .waitLlc h, hmem⟩, fun _ _ => rfl, rfl⟩
  | read h =>
    obtain ⟨ld₁, ld₂, hread, hdrain, hreads⟩ := h
    simp only [Run.turn, hread] at ht
    obtain ⟨rfl, rfl⟩ := Prod.mk.inj (Option.some.inj ht)
    exact ⟨⟨_, .sections (fun p hp => hp) hdrain hreads rfl, hmem⟩, fun _ _ => rfl, rfl⟩
  | @sections _ ld ld₂ ps hps hdrain hreads himage =>
    cases ps with
    | nil =>
      cases hdrain with
      | done hget =>
        simp only [Run.turn, hget] at ht
        obtain ⟨rfl, rfl⟩ := Prod.mk.inj (Option.some.inj ht)
        rw [(hreads ld .refl).entry]
        have hmeet : Left Rom f m₀ m (.meet f.entry .write1) := by
          rw [show m = image f m₀ from himage]
          exact .meet
        exact ⟨⟨_, hmeet, hmem⟩, fun _ _ => rfl, rfl⟩
    | cons p ps =>
      cases hdrain with
      | @more _ ld' _ _ _ hget hrest =>
        have hgets : Gets ld ld' := ⟨_, hget⟩
        have hread := (hreads ld' (.single hgets)).content p (hps p List.mem_cons_self)
        have hmsb := msb_memsz (hps p List.mem_cons_self)
        simp only [Run.turn, hget, Phdr.sec, hmsb, hread] at ht
        obtain ⟨rfl, rfl⟩ := Prod.mk.inj (Option.some.inj ht)
        exact ⟨⟨_, .more hf hps hrest (fun t ht => hreads t (.head hgets ht)) himage, hmem⟩,
          fun _ _ => rfl, rfl⟩
  | @bursts _ m₂ ld ws hkeeps hws h =>
    cases ws with
    | nil =>
      obtain ⟨rfl, rfl⟩ := Prod.mk.inj (Option.some.inj ht)
      obtain rfl := Except.ok.inj hws
      exact ⟨⟨_, h, hmem⟩, fun _ _ => rfl, rfl⟩
    | cons w ws =>
      rw [List.foldlM_cons] at hws
      rw [List.forall_mem_cons] at hkeeps
      cases hw : slinkWriteBeats w.addr AxiStrbBits w.beats m with
      | error msg =>
        rw [hw] at hws
        cases hws
      | ok m₁ =>
        rw [hw] at hws
        obtain ⟨mem₁, hmem₁, hsame⟩ := slinkWriteBeats_congr hw mem
        simp only [Run.turn, hmem₁] at ht
        obtain ⟨rfl, rfl⟩ := Prod.mk.inj (Option.some.inj ht)
        refine ⟨⟨m₁, .bursts hkeeps.2 hws h, fun x hx => ?_⟩, fun x hx => ?_, rfl⟩
        · exact (hsame x (hmem x hx).symm).symm
        · exact hkeeps.1 x hx mem _ hmem₁
  | meet => cases ht

end Preload

/-! ### What holds in every interleaving -/

/-- The hart has not made the first store to the cache yet. -/
def Core.Gated : Core → Prop
  | .bist | .spmLow => True
  | _ => False

/-- The states of a run. -/
structure Good (Rom : Addr → Prop) (f : ElfFile) (m₀ : Mem 48) (r : BitVec 32) (s : St) : Prop where
  meets : Slink.Inv f.entry r s.meets
  left : ∃ m, Left Rom f m₀ m s.task ∧ (s.booted = none → SameOff (Own Rom) s.mem m)
  gated : s.core.Gated → ∃ ld, s.task = .waitLlc ld
  opens : ∀ ld, s.task = .waitLlc ld → ((slinkPollBit0 AmLlc s.mem).isSome = true ↔ ¬ s.core.Gated)

section Run

variable {Rom : Addr → Prop} {f : ElfFile} {m₀ : Mem 48} {r : BitVec 32} {s s' : St}

/-- The handshake looks at the scratch registers only. -/
lemma inv_of_scratch {entry : BitVec 64} {m m' : Mem 48} {host : Host} {hart : Hart}
    (h : Slink.Inv entry r ⟨m, host, hart⟩) (hm : ∀ i < 3, scratch m' i = scratch m i) :
    Slink.Inv entry r ⟨m', host, hart⟩ := by
  have h₀ := hm 0 (by decide)
  have h₁ := hm 1 (by decide)
  have h₂ := hm 2 (by decide)
  have hpub (h : Published entry m) : Published entry m' := ⟨by rw [h₁, h.1], by rw [h₀, h.2]⟩
  cases h with
  | write1 h => exact .write1 (by rw [h₂, h])
  | write0 h h' => exact .write0 (by rw [h₁, h]) (by rw [h₂, h'])
  | write2 h h' => exact .write2 (hpub h) (by rw [h₂, h'])
  | poll h h' => exact .poll (hpub h) (by rw [h₂, h'])
  | clear h h' => exact .clear (hpub h) (by rw [h₂, h'])
  | read h ha hb h' => exact .read (hpub h) ha hb (by rw [h₂, h'])
  | program h => exact .program (by rw [h₂, h])
  | exit ha h => exact .exit ha (by rw [h₂, h])
  | exited h => exact .exited (by rw [h₂, h])
  | done => exact .done

/-- **A step of the handshake** in front of the program stores to scratch registers only, and there
is no way back from the program. -/
lemma sameOff_of_step {entry : BitVec 64} {a b : Slink.St} (h : Slink.Step entry r a b)
    (hb : b.hart.booted = none) :
    a.hart.booted = none ∧ ∀ x, ¬ Reg x → b.mem x = a.mem x := by
  cases h with
  | write1 hw | write0 hw | write2 hw =>
    rw [slinkWrite32_scratch] at hw
    obtain rfl := Except.ok.inj hw
    exact ⟨hb, fun x hx => setScratch_of_not_reg _ (by decide) _ hx⟩
  | clear => exact ⟨rfl, fun x hx => setScratch_of_not_reg _ (by decide) _ hx⟩
  | boot | program _ | returns _ | exit => cases hb
  | _ => exact ⟨hb, fun _ _ => rfl⟩

/-- A step of the hart does not look at what the host gives. -/
lemma step_of_host_eq {entry : BitVec 64} {m m' : Mem 48} {host : Host} {hart hart' : Hart}
    (h : Slink.Step entry r ⟨m, host, hart⟩ ⟨m', host, hart'⟩) (entry' : BitVec 64) :
    Slink.Step entry' r ⟨m, host, hart⟩ ⟨m', host, hart'⟩ := by
  cases h with
  | wait h => exact .wait h
  | spin h => exact .spin h
  | start h => exact .start h
  | clear => exact .clear
  | read1 => exact .read1
  | read0 => exact .read0
  | boot => exact .boot
  | program h => exact .program h
  | returns h => exact .returns h
  | exit => exact .exit

/-- In front of the writes of the host the hart polls, and stores nothing. -/
lemma inv_write1_step {entry : BitVec 64} {m m' : Mem 48} {hart hart' : Hart}
    (h : Slink.Inv entry r ⟨m, .write1, hart⟩)
    (hs : Slink.Step entry r ⟨m, .write1, hart⟩ ⟨m', .write1, hart'⟩) :
    hart = .poll ∧ m' = m := by
  cases h with
  | write1 h₂ =>
    cases hs with
    | spin _ => exact ⟨rfl, rfl⟩
    | start hne => exact absurd (by rw [h₂]; rfl) hne

lemma hart_of_write1 {entry : BitVec 64} {m : Mem 48} {hart : Hart}
    (h : Slink.Inv entry r ⟨m, .write1, hart⟩) : hart = .poll := by
  cases h with
  | write1 _ => rfl

lemma turn_waitLlc {binary : List Byte} {m m' : Mem 48} {task : Task} {ld : Loader}
    (h : turn binary m task = some (m', .waitLlc ld)) :
    task = .waitLlc ld ∧ m' = m := by
  cases task with
  | waitLlc ld' =>
    obtain ⟨hmem, htask⟩ := Prod.mk.inj (Option.some.inj h)
    split_ifs at htask
    exact ⟨htask, hmem.symm⟩
  | read ld' =>
    simp only [turn] at h
    split at h
    · cases h
    · split_ifs at h <;> cases h
  | sections ld' =>
    simp only [turn] at h
    split at h
    · cases h
    · split_ifs at h <;> cases h
  | bursts ld' ws =>
    cases ws with
    | nil => cases h
    | cons w ws =>
      simp only [turn] at h
      split at h <;> cases h
  | _ => cases h

/-- A step of hart 0 or of the cache that the handshake does not see. -/
lemma Good.store (h : Good Rom f m₀ r s) {m' : Mem 48} {core' : Core}
    (hhart : core'.hart = s.core.hart) (hscratch : ∀ i < 3, scratch m' i = scratch s.mem i)
    (hoff : ∀ x, ¬ Own Rom x → m' x = s.mem x) (hgated : core'.Gated → s.core.Gated)
    (hopens : ((slinkPollBit0 AmLlc s.mem).isSome = true ↔ ¬ s.core.Gated) →
      ((slinkPollBit0 AmLlc m').isSome = true ↔ ¬ core'.Gated)) :
    Good Rom f m₀ r ⟨m', s.task, core'⟩ := by
  obtain ⟨m, hleft, hmem⟩ := h.left
  refine ⟨?_, ⟨m, hleft, fun hrom x hx => ?_⟩, fun hg => h.gated (hgated hg), fun ld hld => ?_⟩
  · rw [St.meets, hhart]
    exact inv_of_scratch h.meets hscratch
  · rw [St.booted, hhart] at hrom
    exact (hoff x hx).trans (hmem hrom x hx)
  · exact hopens (h.opens ld hld)

/-- **One step** of either side. -/
theorem Good.step (hrom : ∀ x, Rom x → ¬ Reg x) (hf : Sendable Rom f m₀) (h : Good Rom f m₀ r s)
    (hs : Step Rom f.bytes r s s') : Good Rom f m₀ r s' := by
  have hown {x : Addr} (hx : ¬ Own Rom x) : ¬ Reg x := fun hreg => hx (.inl hreg)
  cases hs with
  | @turn m m' task task' core ht =>
    obtain ⟨m₁, hleft, hmem⟩ := h.left
    have hhost : task.host = .write1 := by
      cases task with
      | meet entry host => cases ht
      | _ => rfl
    have hmeets := h.meets
    rw [St.meets, hhost] at hmeets
    have hpoll : core.hart = .poll := hart_of_write1 hmeets
    have hrom : core.hart.booted = none := by
      rw [hpoll]
      rfl
    obtain ⟨⟨m₂, hleft', hmem'⟩, hkeep, hhost'⟩ := hleft.turn hf (hmem hrom) ht
    refine ⟨?_, ⟨m₂, hleft', fun _ => hmem'⟩, fun hg => ?_, fun ld hld => ?_⟩
    · rw [St.meets, hhost']
      exact inv_of_scratch hmeets fun i hi =>
        scratch_congr (fun x hx => hkeep x (.inl hx)) (by omega)
    · obtain ⟨ld, rfl⟩ := h.gated hg
      have hwait := mt (h.opens ld rfl).mp (not_not.mpr hg)
      obtain ⟨-, rfl⟩ := Prod.mk.inj (Option.some.inj ht)
      exact ⟨ld, if_neg hwait⟩
    · obtain rfl : task' = .waitLlc ld := hld
      obtain ⟨rfl, rfl⟩ := turn_waitLlc ht
      exact h.opens ld rfl
  | @host m m' entry host host' core hs =>
    obtain ⟨m₁, hleft, hmem⟩ := h.left
    cases hleft with
    | meet =>
      refine ⟨h.meets.step hs, ⟨_, .meet, fun hnone => ?_⟩, fun hg => ?_, fun ld hld => ?_⟩
      · obtain ⟨hbefore, hsame⟩ := sameOff_of_step hs hnone
        exact fun x hx => (hsame x (hown hx)).trans (hmem hbefore x hx)
      · obtain ⟨ld, hld⟩ := h.gated hg
        cases hld
      · cases hld
  | selfTest =>
    refine h.store rfl (fun i hi => scratch_llcStore _ (by decide) (by omega) _)
      (fun x hx => llcStore_of_not_reg _ (by decide) _ (hown hx)) id fun hopens => ?_
    rw [isSome_slinkPollBit0_llc, llcLoad_llcStore_zero _ (by decide) (by decide),
      ← isSome_slinkPollBit0_llc]
    exact hopens
  | bistWait _ => exact h
  | bist _ => exact h.store rfl (fun _ _ => rfl) (fun _ _ => rfl) (fun _ => trivial) id
  | spmLow =>
    refine h.store rfl (fun i hi => scratch_llcStore _ (by decide) (by omega) _)
      (fun x hx => llcStore_of_not_reg _ (by decide) _ (hown hx)) False.elim fun _ => ?_
    rw [isSome_slinkPollBit0_llc, llcLoad_llcStore_self]
    exact iff_of_true (by decide) id
  | spmHigh =>
    refine h.store rfl (fun i hi => scratch_llcStore _ (by decide) (by omega) _)
      (fun x hx => llcStore_of_not_reg _ (by decide) _ (hown hx)) id fun hopens => ?_
    rw [isSome_slinkPollBit0_llc, llcLoad_llcStore_zero _ (by decide) (by decide),
      ← isSome_slinkPollBit0_llc]
    exact hopens
  | commit =>
    refine h.store rfl (fun i hi => scratch_llcStore _ (by decide) (by omega) _)
      (fun x hx => llcStore_of_not_reg _ (by decide) _ (hown hx)) id fun hopens => ?_
    rw [isSome_slinkPollBit0_llc, llcLoad_llcStore_zero _ (by decide) (by decide),
      ← isSome_slinkPollBit0_llc]
    exact hopens
  | store _ hm =>
    have hreg (x : Addr) (hx : Reg x) := hm x fun hx' => hrom x hx' hx
    refine h.store rfl (fun i hi => scratch_congr hreg (by omega))
      (fun x hx => hm x fun hx' => hx (.inr hx')) id fun hopens => ?_
    rw [isSome_slinkPollBit0_llc, llcLoad_congr hreg (by decide), ← isSome_slinkPollBit0_llc]
    exact hopens
  | @hart m m' entry task hart hart' hs =>
    obtain ⟨m₁, hleft, hmem⟩ := h.left
    refine ⟨h.meets.step (step_of_host_eq hs _), ⟨m₁, hleft, fun hnone => ?_⟩, False.elim,
      fun ld hld => ?_⟩
    · obtain ⟨hbefore, hsame⟩ := sameOff_of_step hs hnone
      exact fun x hx => (hsame x (hown hx)).trans (hmem hbefore x hx)
    · obtain rfl : task = .waitLlc ld := hld
      obtain ⟨-, rfl⟩ := inv_write1_step h.meets (step_of_host_eq hs _)
      exact h.opens ld rfl

/-- **Every run** from there on. -/
theorem Good.run (hrom : ∀ x, Rom x → ¬ Reg x) (hf : Sendable Rom f m₀) (h : Good Rom f m₀ r s)
    (hs : ReflTransGen (Step Rom f.bytes r) s s') : Good Rom f m₀ r s' := by
  induction hs with
  | refl => exact h
  | tail _ hs ih => exact ih.step hrom hf hs

/-! ### The end -/

/-- The entry point of the program is that of the host, which has made its writes. -/
lemma inv_booted {entry e : BitVec 64} {t : Slink.St} (h : Slink.Inv entry r t)
    (he : t.hart.booted = some e) : e = entry ∧ t.host ≠ .write1 := by
  cases h with
  | program _ | exit _ _ | exited _ | done =>
    exact ⟨(Option.some.inj he).symm, fun h => by cases h⟩
  | _ => cases he

/-- **The step into the program**: the memory holds the file, and is otherwise as it was but for
what the boot ROM stores and the zeros behind the segments. -/
lemma Good.enters (hrom : ∀ x, Rom x → ¬ Reg x) (hf : Sendable Rom f m₀) (h : Good Rom f m₀ r s)
    (hs : Step Rom f.bytes r s s') {e : BitVec 64} (hbefore : s.booted = none)
    (hafter : s'.booted = some e) : e = f.entry ∧ SameOff (Own Rom) s'.mem (image f m₀) := by
  obtain ⟨he, hhost⟩ := inv_booted (h.step hrom hf hs).meets hafter
  refine ⟨he, ?_⟩
  cases hs with
  | @hart m m' entry task hart hart' hs =>
    have hmem : m' = m := by
      generalize task.host = host at hs
      cases hs with
      | boot => rfl
      | program _ | returns _ | exit => cases hbefore
      | _ => cases hafter.symm.trans hbefore
    obtain ⟨m₁, hleft, hsame⟩ := h.left
    cases hleft with
    | meet =>
      rw [hmem]
      exact hsame hbefore
    | _ => exact absurd rfl hhost
  | turn _ | host _ | store _ _ => cases hafter.symm.trans hbefore
  | _ => cases hafter

/-- A turn of the task, as a relation. -/
def Turn (binary : List Byte) (a b : Mem 48 × Task) : Prop := turn binary a.1 a.2 = some b

/-- The bursts that are left are sent one after another. -/
lemma exists_sections (binary : List Byte) (ld : Loader) {m₂ : Mem 48} :
    ∀ (ws : List Write) (m mem : Mem 48),
      ws.foldlM (fun m w => slinkWriteBeats w.addr AxiStrbBits w.beats m) m = .ok m₂ →
        ∃ mem₂, ReflTransGen (Turn binary) (mem, .bursts ld ws) (mem₂, .sections ld) := by
  intro ws
  induction ws with
  | nil =>
    intro m mem _
    exact ⟨mem, .single rfl⟩
  | cons w ws ih =>
    intro m mem hws
    rw [List.foldlM_cons] at hws
    cases hw : slinkWriteBeats w.addr AxiStrbBits w.beats m with
    | error msg =>
      rw [hw] at hws
      cases hws
    | ok m₁ =>
      rw [hw] at hws
      obtain ⟨mem₁, hmem₁, -⟩ := slinkWriteBeats_congr hw mem
      obtain ⟨mem₂, hrest⟩ := ih m₁ mem₁ hws
      have hturn : Turn binary (mem, .bursts ld (w :: ws)) (mem₁, .bursts ld ws) := by
        simp only [Turn, turn, hmem₁]
      exact ⟨mem₂, .head hturn hrest⟩

/-- The sections that are left are sent one after another. -/
lemma exists_meet (hf : Sendable Rom f m₀) : ∀ (ps : List Phdr) (ld ld₂ : Loader) (mem : Mem 48),
    (∀ p ∈ ps, p ∈ f.segments) → Drains ld (ps.map Phdr.sec) ld₂ →
      (∀ t, ReflTransGen Gets ld t → Reads f t) →
      ∃ mem', ReflTransGen (Turn f.bytes) (mem, .sections ld) (mem', .meet f.entry .write1) := by
  intro ps
  induction ps with
  | nil =>
    intro ld ld₂ mem _ hdrain hreads
    cases hdrain with
    | done hget =>
      have hturn : Turn f.bytes (mem, .sections ld) (mem, .meet (getEntry ld) .write1) := by
        simp only [Turn, turn, hget]
      rw [(hreads ld .refl).entry] at hturn
      exact ⟨mem, .single hturn⟩
  | cons p ps ih =>
    intro ld ld₂ mem hps hdrain hreads
    rw [List.forall_mem_cons] at hps
    cases hdrain with
    | @more _ ld' _ _ _ hget hrest =>
      have hgets : Gets ld ld' := ⟨_, hget⟩
      have hread := (hreads ld' (.single hgets)).content p hps.1
      have hp : piece f p ∈ pieces f := List.mem_map_of_mem hps.1
      have hturn : Turn f.bytes (mem, .sections ld)
          (mem, .bursts ld' (writesFrom p.paddr (padded (f.content p) p.memsz.toNat) 0)) := by
        simp only [Turn, turn, hget, Phdr.sec, msb_memsz hps.1, hread]
        rfl
      obtain ⟨mem₁, hbursts⟩ := exists_sections f.bytes ld' _ mem mem
        (foldlM_writesFrom (hf.fits _ hp) (hf.nonempty _ hp) mem)
      obtain ⟨mem', htail⟩ := ih ld' ld₂ mem₁ hps.2 hrest fun t ht => hreads t (.head hgets ht)
      exact ⟨mem', .head hturn (hbursts.trans htail)⟩

/-- The boot ROM comes to its poll. -/
lemma exists_passive (m : Mem 48) (task : Task) (core : Core) :
    ∃ m' hart, ReflTransGen (Step Rom f.bytes r) ⟨m, task, core⟩ ⟨m', task, .passive hart⟩ := by
  have hcommit (m : Mem 48) : ∃ m', ReflTransGen (Step Rom f.bytes r) ⟨m, task, .commit⟩
      ⟨m', task, .passive .poll⟩ := ⟨_, .single .commit⟩
  have hhigh (m : Mem 48) : ∃ m', ReflTransGen (Step Rom f.bytes r) ⟨m, task, .spmHigh⟩
      ⟨m', task, .passive .poll⟩ := by
    obtain ⟨m', hm'⟩ := hcommit (llcStore m 4 (-1))
    exact ⟨m', .head .spmHigh hm'⟩
  have hlow (m : Mem 48) : ∃ m', ReflTransGen (Step Rom f.bytes r) ⟨m, task, .spmLow⟩
      ⟨m', task, .passive .poll⟩ := by
    obtain ⟨m', hm'⟩ := hhigh (llcStore m 0 (-1))
    exact ⟨m', .head .spmLow hm'⟩
  cases core with
  | bist =>
    obtain ⟨m', hm'⟩ := hlow (llcStore m 72 1)
    have hdone : llcLoad (llcStore m 72 1) 72 ≠ 0 := by
      rw [llcLoad_llcStore_self]
      decide
    exact ⟨m', _, .head .selfTest (.head (.bist hdone) hm')⟩
  | spmLow =>
    obtain ⟨m', hm'⟩ := hlow m
    exact ⟨m', _, hm'⟩
  | spmHigh =>
    obtain ⟨m', hm'⟩ := hhigh m
    exact ⟨m', _, hm'⟩
  | commit =>
    obtain ⟨m', hm'⟩ := hcommit m
    exact ⟨m', _, hm'⟩
  | passive hart => exact ⟨m, hart, .refl⟩

/-- The task comes to the handshake, when the boot ROM has come to its poll. -/
lemma Good.exists_meet (hf : Sendable Rom f m₀) {m : Mem 48} {task : Task} {hart : Hart}
    (h : Good Rom f m₀ r ⟨m, task, .passive hart⟩) :
    ∃ m' host, ReflTransGen (Step Rom f.bytes r) ⟨m, task, .passive hart⟩
      ⟨m', .meet f.entry host, .passive hart⟩ := by
  have hlift {a b : Mem 48 × Task} (hab : ReflTransGen (Turn f.bytes) a b) :
      ReflTransGen (Step Rom f.bytes r) ⟨a.1, a.2, .passive hart⟩ ⟨b.1, b.2, .passive hart⟩ :=
    hab.lift (fun a : Mem 48 × Task => (⟨a.1, a.2, .passive hart⟩ : St)) fun _ _ ht => .turn ht
  have hread {ld : Loader} (hld : LoadOk f ld) : ∃ m',
      ReflTransGen (Turn f.bytes) (m, .read ld) (m', .meet f.entry .write1) := by
    obtain ⟨ld₁, ld₂, hread, hdrain, hreads⟩ := hld
    have hturn : Turn f.bytes (m, .read ld) (m, .sections ld₁) := by
      simp only [Turn, turn, hread]
      rfl
    obtain ⟨m', hm'⟩ := Run.exists_meet hf f.segments ld₁ ld₂ m (fun p hp => hp) hdrain hreads
    exact ⟨m', .head hturn hm'⟩
  obtain ⟨m₁, hleft, -⟩ := h.left
  cases hleft with
  | @waitLlc ld hld =>
    have hsome : (slinkPollBit0 AmLlc m).isSome = true := (h.opens ld rfl).mpr id
    have hturn : Turn f.bytes (m, .waitLlc ld) (m, .read ld) := by
      simp only [Turn, turn, hsome, if_true]
    obtain ⟨m', hm'⟩ := hread hld
    exact ⟨m', _, hlift (.head hturn hm')⟩
  | read hld =>
    obtain ⟨m', hm'⟩ := hread hld
    exact ⟨m', _, hlift hm'⟩
  | sections hps hdrain hreads _ =>
    obtain ⟨m', hm'⟩ := Run.exists_meet hf _ _ _ m hps hdrain hreads
    exact ⟨m', _, hlift hm'⟩
  | bursts _ hws hrest =>
    obtain ⟨m₂, hm₂⟩ := exists_sections f.bytes _ _ _ m hws
    cases hrest with
    | sections hps hdrain hreads _ =>
      obtain ⟨m', hm'⟩ := Run.exists_meet hf _ _ _ m₂ hps hdrain hreads
      exact ⟨m', _, hlift (hm₂.trans hm')⟩
  | @meet host => exact ⟨m, host, .refl⟩

/-- A step of the handshake is one of the run. -/
lemma step_of_meets {entry : BitVec 64} {a b : Slink.St} (h : Slink.Step entry r a b) :
    Step Rom f.bytes r ⟨a.mem, .meet entry a.host, .passive a.hart⟩
      ⟨b.mem, .meet entry b.host, .passive b.hart⟩ := by
  have hone : a.hart = b.hart ∨ a.host = b.host := by
    cases h <;> first | exact .inl rfl | exact .inr rfl
  obtain ⟨m, host, hart⟩ := a
  obtain ⟨m', host', hart'⟩ := b
  rcases hone with heq | heq
  · obtain rfl : hart = hart' := heq
    exact .host h
  · obtain rfl : host = host' := heq
    exact .hart h

/-- What holds in a state of a run. -/
structure RunOk (Rom : Addr → Prop) (f : ElfFile) (m₀ : Mem 48) (r : BitVec 32) (s : St) :
    Prop where
  /-- Neither the loader nor the link stops the task. -/
  not_stopped : s.task ≠ .aborted ∧ ∀ msg, s.task ≠ .fatal msg
  /-- Nothing is sent before the hart has made its first store to the cache. -/
  gated : s.core.Gated → ∃ ld, s.task = .waitLlc ld
  /-- The program is entered where the file says, and the memory holds the file then; off the
  segments, the zeros behind them and what the boot ROM stores it is as it was. -/
  enters : ∀ s' e, Step Rom f.bytes r s s' → s.booted = none → s'.booted = some e →
    e = f.entry ∧ Holds (pieces f) s'.mem ∧
      ∀ x, ¬ Own Rom x → (∀ p ∈ pieces f, ¬ p.Has x ∧ ¬ p.InPad (sent p) x) → s'.mem x = m₀ x
  /-- What the task reports is what the program returned, without the highest bit. -/
  exitCode : ∀ entry v, s.task = .meet entry (.done v) →
    v.toNat = r.toNat % 2 ^ 31 ∧ s.core = .passive (.exited f.entry)
  /-- The two sides can always go on to the end. -/
  finishes : ∃ s', ReflTransGen (Step Rom f.bytes r) s s' ∧ ∃ v, s'.task = .meet f.entry (.done v)

/-- The invariant says it all. -/
lemma Good.ok (hrom : ∀ x, Rom x → ¬ Reg x) (hf : Sendable Rom f m₀) (h : Good Rom f m₀ r s) :
    RunOk Rom f m₀ r s := by
  refine ⟨?_, h.gated, fun s' e hs hbefore hafter => ?_, fun entry v hv => ?_, ?_⟩
  · obtain ⟨m₁, hleft, -⟩ := h.left
    obtain ⟨m, task, core⟩ := s
    cases hleft <;> exact ⟨Task.noConfusion, fun _ => Task.noConfusion⟩
  · obtain ⟨he, hsame⟩ := h.enters hrom hf hs hbefore hafter
    refine ⟨he, fun p hp => ?_, fun x hx hoff => ?_⟩
    · have hlen : p.bytes.length ≤ 2 ^ 48 := Nat.le_trans (Nat.le_add_left _ _) (hf.fits p hp)
      have himage := (slice_eq_iff p hlen).mp (holds_image hf p hp)
      refine (slice_eq_iff p hlen).mpr fun x hx => ?_
      rw [hsame x (hf.off p hp x (Nat.lt_of_lt_of_le hx (Nat.le_max_left _ _))), himage x hx]
    · rw [hsame x hx]
      exact (load_apply_of_not_has (pieces f) m₀ fun p hp => (hoff p hp).1).2
        fun p hp => (hoff p hp).2
  · have hmeets := h.meets
    obtain ⟨m, task, core⟩ := s
    obtain rfl : task = .meet entry (.done v) := hv
    cases core with
    | passive hart =>
      cases hmeets with
      | done => exact ⟨toNat_exitCode r, rfl⟩
    | _ => cases hmeets
  · obtain ⟨m, task, core⟩ := s
    obtain ⟨m₁, hart, h₁⟩ : ∃ m₁ hart, ReflTransGen (Step Rom f.bytes r) ⟨m, task, core⟩
      ⟨m₁, task, .passive hart⟩ := exists_passive m task core
    obtain ⟨m₂, host, h₂⟩ := (h.run hrom hf h₁).exists_meet hf
    have hmeets := (h.run hrom hf (h₁.trans h₂)).meets
    obtain ⟨t, ht, v, hv⟩ := hmeets.exists_done _ (Nat.le_refl _)
    refine ⟨⟨t.mem, .meet f.entry t.host, .passive t.hart⟩, (h₁.trans h₂).trans ?_, v, ?_⟩
    · exact ht.lift (fun t : Slink.St => (⟨t.mem, .meet f.entry t.host, .passive t.hart⟩ : St))
        fun _ _ hs => step_of_meets hs
    · show Task.meet f.entry t.host = _
      rw [hv]

/-- The task begins, and hart 0 comes out of reset; `llc` is `LlcNotBypass`. -/
def start (llc : Bool) (ld : Loader) (m : Mem 48) : St :=
  if llc then ⟨m, .waitLlc ld, .bist⟩ else ⟨m, .read ld, .passive .poll⟩

lemma good_start {ld : Loader} (hld : LoadOk f ld) (llc : Bool) (h₂ : scratch m₀ 2 = 0)
    (hgated : llc = true → (llcLoad m₀ 0).getLsbD 0 = false) :
    Good Rom f m₀ r (start llc ld m₀) := by
  cases llc with
  | false =>
    refine ⟨.write1 h₂, ⟨m₀, .read hld, fun _ _ _ => rfl⟩, False.elim, fun _ h => ?_⟩
    cases h
  | true =>
    refine ⟨.write1 h₂, ⟨m₀, .waitLlc hld, fun _ _ _ => rfl⟩, fun _ => ⟨ld, rfl⟩, fun _ _ => ?_⟩
    show (slinkPollBit0 AmLlc m₀).isSome = true ↔ ¬ True
    rw [isSome_slinkPollBit0_llc, hgated rfl]
    exact iff_of_false Bool.false_ne_true (not_not.mpr trivial)

/-- **A binary is run over the serial link** in every interleaving of the testbench and the boot
ROM: nothing stops it, the program is entered with the file in memory, and the exit code is what it
returned. -/
theorem slinkElfRun_ok (hrom : ∀ x, Rom x → ¬ Reg x) (hf : Sendable Rom f m₀) {ld : Loader}
    (hld : LoadOk f ld) {llc : Bool} (h₂ : scratch m₀ 2 = 0)
    (hgated : llc = true → (llcLoad m₀ 0).getLsbD 0 = false)
    (h : ReflTransGen (Step Rom f.bytes r) (start llc ld m₀) s) : RunOk Rom f m₀ r s :=
  ((good_start hld llc h₂ hgated).run hrom hf h).ok hrom hf

end Run

/-- The top of the scratchpad, and the UART. -/
def romStores (x : Addr) : Prop :=
  (x - 0x1001_F000).toNat < 0x1000 ∨ (x - 0x0300_2000).toNat < 0x1000

/-- A file of two bytes at the start of the DRAM, whose program returns 7. -/
theorem slinkElfRun_ok_first : ∃ s v, ReflTransGen (Step romStores firstFile.bytes 7)
    (start true .init fun _ => 0) s ∧ s.task = .meet firstFile.entry (.done v) ∧ v.toNat = 7 := by
  have hinit : Elf.Inv [] .init := ⟨rfl, rfl, fun _ => rfl⟩
  obtain ⟨ld₁, ld₂, hread, hdrain, hreads, -⟩ :=
    hinit.load (loadable_nil (f := firstFile) (by decide) (by decide +kernel))
  have hsegs : firstFile.segments = [⟨1, 120, 0x8000_0000, 1, 2⟩] := by decide +kernel
  have hbytes : padded (firstFile.content ⟨1, 120, 0x8000_0000, 1, 2⟩) (2 : U64).toNat =
      [1, 0] := by
    decide +kernel
  have hpieces : pieces firstFile = [⟨0x8000_0000, [1, 0]⟩] := by
    rw [pieces, hsegs]
    exact congrArg (fun bs => [onBus 0x8000_0000 bs]) hbytes
  have hrom : ∀ x, romStores x → ¬ Reg x := by
    intro x hx hreg
    unfold romStores at hx
    unfold Reg AmRegs at hreg
    bv_omega
  have hsend : Sendable romStores firstFile fun _ => 0 := by
    have hsent : sent ⟨0x8000_0000, [1, 0]⟩ = 8 := by decide
    refine ⟨?_, ?_, ?_, ?_, ?_, ?_⟩
    · rw [hpieces]
      decide
    · rw [hpieces]
      rintro p hp x hx hown
      obtain rfl := List.mem_singleton.mp hp
      simp only [hsent, Piece.offs, List.length_cons, List.length_nil] at hx
      unfold Own Reg AmRegs romStores at hown
      bv_omega
    · rw [hpieces]
      decide
    · rw [hpieces]
      exact List.pairwise_singleton _ _
    · rw [hpieces]
      exact List.pairwise_singleton _ _
    · rw [hpieces]
      rintro p hp x hx
      obtain rfl := List.mem_singleton.mp hp
      rw [Piece.Lost, hsent] at hx
      exact absurd hx.2 (Nat.not_lt.mpr (Nat.le_trans (by decide) hx.1))
  have hld : LoadOk firstFile .init := ⟨ld₁, ld₂, hread, hdrain, hreads⟩
  have hok {s : St} (hs : ReflTransGen (Step romStores firstFile.bytes 7)
      (start true .init fun _ => 0) s) : RunOk romStores firstFile (fun _ => 0) 7 s :=
    slinkElfRun_ok hrom hsend hld (by decide) (fun _ => by decide) hs
  obtain ⟨s, hs, v, hv⟩ := (hok .refl).finishes
  exact ⟨s, v, hs, hv, ((hok hs).exitCode _ v hv).1⟩

end Cheshire.Sim.Slink.Run
