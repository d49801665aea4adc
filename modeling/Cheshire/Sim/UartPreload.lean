import Cheshire.Lib.Load
import Cheshire.Sim.UartSession

/-!
Preloading a binary over the UART (`uart_debug_elf_preload` of `vip_cheshire_soc.sv`).  The loop
over the blocks of a section runs up to and including its length, so a section of whole blocks ends
with an empty write, which the debug server takes like any other.
-/

namespace Cheshire.Sim.Uart

open Lib Lib.Load Lib.Dialogue Sw Sw.UartDebug

/-- `UartBurstBytes`. -/
abbrev BurstBytes := { b : U32 // b ≠ 0 }

lemma BurstBytes.pos (burst : BurstBytes) : 0 < burst.val.toNat := by
  have hne : burst.val.toNat ≠ 0 := fun h => burst.property (BitVec.eq_of_toNat_eq h)
  omega

/-! ### The task -/

/-- The loop over the bytes of a block, which breaks behind the end of the section. -/
def blockFrom (burst : BurstBytes) (bf : List Byte) (i b : ℕ) : List Byte :=
  if b < burst.val.toNat then
    if i + b ≥ bf.length then []
    else bf.getD (i + b) 0 :: blockFrom burst bf i (b + 1)
  else []
termination_by burst.val.toNat - b

/-- A block is a part of the section, of the length of a burst. -/
lemma blockFrom_eq (burst : BurstBytes) (bf : List Byte) (i : ℕ) : ∀ (k b : ℕ),
    b + k = burst.val.toNat → blockFrom burst bf i b = (bf.drop (i + b)).take k := by
  intro k
  induction k with
  | zero =>
    intro b hb
    rw [blockFrom, if_neg (by omega), List.take_zero]
  | succ k ih =>
    intro b hb
    rw [blockFrom, if_pos (by omega)]
    split
    · next hend => rw [List.drop_eq_nil_of_le hend, List.take_nil]
    · next hin =>
      rw [List.drop_eq_getElem_cons (by omega), List.take_succ_cons, ih (b + 1) (by omega),
        List.getD_eq_getElem _ _ (by omega)]
      rfl

/-- A queue of this many bytes has a size that is an `int`. -/
def SizeOk (burst : BurstBytes) (sec : Piece 64) : Prop :=
  min burst.val.toNat sec.bytes.length < 2 ^ 31

instance (burst : BurstBytes) (sec : Piece 64) : Decidable (SizeOk burst sec) := by
  unfold SizeOk; infer_instance

lemma toNat_zero_lt : (0 : U64).toNat < 2 ^ 31 := by decide

lemma length_blockFrom_lt {burst : BurstBytes} {sec : Piece 64} (hsize : SizeOk burst sec) (i : ℕ) :
    (blockFrom burst sec.bytes i 0).length < 2 ^ 31 := by
  unfold SizeOk at hsize
  rw [blockFrom_eq burst sec.bytes i burst.val.toNat 0 (Nat.zero_add _), List.length_take,
    List.length_drop]
  omega

/-- The command for the block from the byte `i` on. -/
def blockCall (burst : BurstBytes) (sec : Piece 64) (hsize : SizeOk burst sec) (i : ℕ) : Call where
  addr := sec.addr + BitVec.ofNat 64 i
  lenOrW := 0
  data := blockFrom burst sec.bytes i 0
  len_lt := toNat_zero_lt
  size_lt := length_blockFrom_lt hsize i

/-- The loop over the blocks of a section. -/
def blockCalls (burst : BurstBytes) (sec : Piece 64) (hsize : SizeOk burst sec) (i : ℕ) :
    List Call :=
  if i ≤ sec.bytes.length then
    blockCall burst sec hsize i :: blockCalls burst sec hsize (i + burst.val.toNat)
  else []
termination_by sec.bytes.length + 1 - i
decreasing_by
  have := burst.pos
  omega

/-- `uart_debug_elf_preload`: the calls of `uart_debug_rw` for the sections that the loader
gives. -/
def uartDebugElfPreload (burst : BurstBytes) (secs : List (Piece 64))
    (hsize : ∀ sec ∈ secs, SizeOk burst sec) : List Call :=
  (secs.pmap (fun sec h => blockCalls burst sec h 0) hsize).flatten

/-! ### The commands -/

/-- A command writes, and no more than a burst. -/
def IsBlock (burst : BurstBytes) (c : Call) : Prop :=
  c.lenOrW = 0 ∧ c.data.length ≤ burst.val.toNat

lemma data_blockCall (burst : BurstBytes) (sec : Piece 64) (hsize : SizeOk burst sec) (i : ℕ) :
    (blockCall burst sec hsize i).data = (sec.bytes.drop i).take burst.val.toNat :=
  blockFrom_eq burst sec.bytes i burst.val.toNat 0 (Nat.zero_add _)

/-- The blocks of a section. -/
lemma isBlock_of_mem (burst : BurstBytes) (sec : Piece 64) (hsize : SizeOk burst sec) (i : ℕ) :
    ∀ c ∈ blockCalls burst sec hsize i, IsBlock burst c := by
  fun_induction blockCalls burst sec hsize i with
  | case1 i hi ih =>
    rw [List.forall_mem_cons]
    refine ⟨⟨rfl, ?_⟩, ih⟩
    rw [data_blockCall, List.length_take]
    exact Nat.min_le_left _ _
  | case2 i hi =>
    intro c hc
    exact absurd hc List.not_mem_nil

lemma memAfter_append (calls calls' : List Call) (m : Mem 64) :
    memAfter (calls ++ calls') m = memAfter calls' (memAfter calls m) := List.foldl_append

/-- **The blocks of a section** go on from the byte `i` to its end. -/
theorem memAfter_blockCalls (burst : BurstBytes) (sec : Piece 64) (hsize : SizeOk burst sec)
    (hfits : sec.bytes.length ≤ 2 ^ 64) (m : Mem 64) (i : ℕ) :
    memAfter (blockCalls burst sec hsize i) (m.write sec.addr (sec.bytes.take i)) =
      m.write sec.addr sec.bytes := by
  fun_induction blockCalls burst sec hsize i with
  | case1 i hi ih =>
    have hlen : (sec.bytes.take i).length = i := by
      rw [List.length_take]
      exact Nat.min_eq_left hi
    have happ := Mem.write_append m sec.addr (sec.bytes.take i)
      ((sec.bytes.drop i).take burst.val.toNat)
      (by rw [hlen, List.length_take, List.length_drop]; omega)
    rw [← List.take_add, hlen] at happ
    rw [happ, ← data_blockCall burst sec hsize] at ih
    exact ih
  | case2 i hi =>
    rw [List.take_of_length_le (by omega)]
    rfl

/-- The commands load the binary. -/
theorem memAfter_uartDebugElfPreload (burst : BurstBytes) : ∀ (secs : List (Piece 64))
    (hsize : ∀ sec ∈ secs, SizeOk burst sec) (m : Mem 64),
    (∀ sec ∈ secs, sec.bytes.length ≤ 2 ^ 64) →
    memAfter (uartDebugElfPreload burst secs hsize) m = load (fun sec => sec.bytes.length) secs m := by
  intro secs
  induction secs with
  | nil =>
    intro _ m _
    rfl
  | cons sec secs ih =>
    intro hsize m hfits
    rw [List.forall_mem_cons] at hfits
    have hsec := memAfter_blockCalls burst sec (hsize sec List.mem_cons_self) hfits.1 m 0
    rw [List.take_zero, Mem.write_nil] at hsec
    rw [uartDebugElfPreload, List.pmap_cons, List.flatten_cons, memAfter_append, hsec, load_cons,
      Piece.stream_length]
    exact ih _ _ hfits.2

/-- No command of the preload is longer than a burst. -/
theorem isBlock_uartDebugElfPreload (burst : BurstBytes) (secs : List (Piece 64))
    (hsize : ∀ sec ∈ secs, SizeOk burst sec) :
    ∀ c ∈ uartDebugElfPreload burst secs hsize, IsBlock burst c := by
  intro c hc
  obtain ⟨calls, hcalls, hmem⟩ := List.mem_flatten.mp hc
  obtain ⟨sec, hsec, rfl⟩ := List.mem_pmap.mp hcalls
  exact isBlock_of_mem burst sec _ 0 c hmem

/-! ### The preload and the server -/

/-- What holds in a state of a preload, `n` steps after its start. -/
structure PreloadOk (invoke : U64 → CoreM U32) (secs : List (Piece 64)) (calls : List Call)
    (m : Mem 64) (n : ℕ) (s : Session) : Prop where
  /-- The host receives the ACKs and EOTs that it expects. -/
  not_fatal : ∀ e, s.fst ≠ .fail e
  /-- When all commands have returned, the binary is in the memory of the server, and nothing else
  has changed. -/
  loaded : ∀ done, s.fst = .ret (.inl ([], done)) →
    ∃ m', s.snd = .ret (.inl m') ∧ Holds secs m' ∧ Unchanged secs m m'
  /-- The host and the server cannot go on for ever. -/
  bounded : n ≤ stepsOf calls
  /-- In the end all commands have returned. -/
  finishes : ∃ n' done m', Steps session (serveLoop invoke) n' s (rest ([], done) m')

/-- **The preload over the UART works**, in every interleaving of the host and the server and for
every length of the bursts.  The length of a section is a `longint`. -/
theorem uartDebugElfPreload_ok (invoke : U64 → CoreM U32) (burst : BurstBytes)
    {secs : List (Piece 64)} (hsize : ∀ sec ∈ secs, SizeOk burst sec)
    (hlong : ∀ sec ∈ secs, sec.bytes.length < 2 ^ 63) (happ : secs.Pairwise Piece.Apart)
    (m : Mem 64) :
    (∀ c ∈ uartDebugElfPreload burst secs hsize, IsBlock burst c) ∧
      ∀ n s, Steps session (serveLoop invoke) n
        (rest (uartDebugElfPreload burst secs hsize, []) m) s →
        PreloadOk invoke secs (uartDebugElfPreload burst secs hsize) m n s := by
  have hfits : ∀ sec ∈ secs, sec.bytes.length ≤ 2 ^ 64 := by
    intro sec hsec
    have := hlong sec hsec
    omega
  have hload := load_exact (n := fun sec => sec.bytes.length) (m := m) (fun _ => rfl) hfits happ
  rw [← memAfter_uartDebugElfPreload burst secs hsize m hfits] at hload
  refine ⟨isBlock_uartDebugElfPreload burst secs hsize, ?_⟩
  generalize uartDebugElfPreload burst secs hsize = calls at *
  intro n s hsteps
  have hinv : (sessionScript invoke calls m).Inv n s := Script.inv_of_steps hsteps
  have hok := sessionOk_of_inv invoke calls m hinv
  refine ⟨hok.not_fatal, ?_, hok.bounded, ?_⟩
  · intro done hdone
    obtain ⟨k, hk, hnil, -, hsnd, -, -⟩ := hok.between [] done hdone
    have hall : calls.take k = calls :=
      List.take_of_length_le (List.drop_eq_nil_iff.mp hnil.symm)
    rw [hall] at hsnd
    exact ⟨_, hsnd, hload⟩
  · obtain ⟨n', hn'⟩ := hok.finishes
    exact ⟨n', _, _, hn'⟩

/-- A burst of two bytes. -/
def twoBytes : BurstBytes := ⟨2, by decide⟩

/-- A section of one whole block, and before it in memory one of three bytes. -/
def wholeAndPart : List (Piece 64) :=
  [⟨0x8000_0003, [4, 5]⟩, ⟨0x8000_0000, [1, 2, 3]⟩]

theorem uartDebugElfPreload_wholeAndPart :
    ∃ m', Holds wholeAndPart m' ∧
      ∀ c ∈ uartDebugElfPreload twoBytes wholeAndPart (by decide), c.data.length ≤ 2 := by
  have happ : wholeAndPart.Pairwise Piece.Apart := by
    refine List.pairwise_pair.mpr fun x hp hq => ?_
    simp only [Piece.Has, Piece.offs, List.length_cons, List.length_nil] at hp hq
    bv_omega
  have hsize : ∀ sec ∈ wholeAndPart, SizeOk twoBytes sec := by decide
  obtain ⟨hblocks, hruns⟩ := uartDebugElfPreload_ok (fun _ => pure 0) twoBytes hsize (by decide)
    happ fun _ => 0
  have hok := hruns 0 _ (.refl _)
  obtain ⟨n, done, m', hn⟩ := hok.finishes
  obtain ⟨m'', -, hholds, -⟩ := (hruns n _ hn).loaded done rfl
  exact ⟨m'', hholds, fun c hc => (hblocks c hc).2⟩

end Cheshire.Sim.Uart
