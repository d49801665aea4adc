import Cheshire.Lib.Converse
import Cheshire.Sim.ElfLoads
import Cheshire.Sim.UartExec
import Cheshire.Sim.UartPreload

/-!
A binary is run over the UART, from the file to the exit code: `uart_debug_elf_run_and_wait` on the
one side, and on the other the boot ROM, which waits in `boot_passive` for a request.
-/

namespace Cheshire.Sim.Uart.Run

open Lib Lib.Dialogue Lib.Load Relation Sw Sw.UartDebug
open Elf hiding U64

/-! ### The task -/

def UartDebugCmdExec : Byte := 0x13

/-- How the task stops short of its end: `$fatal`, an array of a negative size, an assertion of the
loader, and a loop that has run out of turns. -/
inductive Stop where
  | unexpected (f : Fatal)
  | loadFailed
  | readFailed
  | badSize
  | aborted
  | fuel

/-- The loop over the blocks of a section. -/
def blocks (burst : BurstBytes) (addr : U64) (bf : List Byte) (i : ℕ) : Task Unit :=
  if i ≤ bf.length then do
    let _ ← uartDebugRw (addr + .ofNat 64 i) 0 (blockFrom burst bf i 0)
    blocks burst addr bf (i + burst.val.toNat)
  else pure ()
termination_by bf.length + 1 - i
decreasing_by
  have := burst.pos
  omega

/-- The loop over the sections. -/
def preloadSections (burst : BurstBytes) : ℕ → Loader → Prog Stop Loader
  | 0, _ => .fail .fuel
  | n + 1, s =>
    match getSection s with
    | none => pure s
    | some ((addr, len), s) =>
      if len.msb then .fail .badSize
      else
        let (ret, bf) := readSection s addr (List.replicate len.toNat 0) len.toNat
        if ret ≠ 0 then .fail .readFailed
        else do
          (blocks burst addr bf 0).mapFail .unexpected
          preloadSections burst n s

/-- `uart_debug_elf_preload`: the entry point, and the variables of the loader. -/
def uartDebugElfPreload (burst : BurstBytes) (fuel : ℕ) (binary : List Byte) (s : Loader) :
    Prog Stop (U64 × Loader) :=
  match readElf binary s with
  | none => .fail .aborted
  | some (ret, s) =>
    if ret ≠ 0 then .fail .loadFailed
    else do
      let s ← preloadSections burst fuel s
      pure (getEntry s, s)

/-- The end of the task, while the reader takes what is not scooped. -/
def waitForEoc : ℕ → Tb → Prog Stop (BitVec 32)
  | 0, _ => .fail .fuel
  | n + 1, s =>
    match s.host with
    | .done exitCode => .ret exitCode
    | .fatal bite => .fail (.unexpected ⟨"ACK", UartDebugAck, bite⟩)
    | _ =>
      match hostTurn s with
      | some s => waitForEoc n s
      | none => .recv fun bite => waitForEoc n (readerTurn s bite)

/-- The variables in front of the last scoops; nothing has been printed, and of the byte that was
scooped last no more is made. -/
def execTb : Tb := ⟨.expect, 0, false, false, [], [], []⟩

/-- `uart_debug_elf_run_and_wait`: the exit code, and the variables of the loader. -/
def uartDebugElfRunAndWait (burst : BurstBytes) (fuel : ℕ) (binary : List Byte) (s : Loader) :
    Prog Stop (BitVec 32 × Loader) := do
  (uartWriteByte UartDebugAck).mapFail .unexpected
  (uartBootScoopExpect "ACK" UartDebugAck).mapFail .unexpected
  let (entry, s) ← uartDebugElfPreload burst fuel binary s
  (uartWriteByte UartDebugCmdExec).mapFail .unexpected
  ((List.range 8).forM fun i => uartWriteByte (entry.extractLsb' (8 * i) 8)).mapFail .unexpected
  let exitCode ← waitForEoc fuel execTb
  pure (exitCode, s)

/-! ### The boot ROM -/

/-- Where the boot ROM is: it polls, or it serves requests. -/
inductive Rom where
  | polling (m : Mem 64)
  | serving (m : Mem 64)

/-- `scratch[i]`. -/
def scratchAddr (i : ℕ) : U64 := 0x0300_0000 + .ofNat 64 (4 * i)

def scratch (m : Mem 64) (i : ℕ) : U32 := .ofNat 32 (ofLe (m.slice (scratchAddr i) 4))

/-- `boot_passive` behind the setup of the UART, a turn at a time: a poll, or a command.  Nothing
but the hart writes to the scratch registers, so it may as well wait for the next byte. -/
def bootPassive (invoke bootNextStage : U64 → CoreM U32) : Rom → Prog Empty (Rom ⊕ (U32 × Mem 64))
  | .polling m =>
    if scratch m 2 &&& 2 ≠ 0 then do
      let m := m.write (scratchAddr 2) (toLe 4 0)
      let ret ← bootNextStage ((scratch m 1).setWidth 64 <<< 32 ||| (scratch m 0).setWidth 64) m
      pure (.inr ret)
    else do
      let (b, m) ← uartRead m
      if b = kUartDebugAck then do
        let x ← uartDebugServe m
        pure (x.map .serving id)
      else pure (.inl (.polling m))
  | .serving m => do
    let x ← serveLoop invoke m
    pure (x.map .serving id)

/-! ### What the task says and hears -/

/-- The messages of calls one after another, when the memory is `m` before the first one. -/
def msgsOf : List Call → Mem 64 → List Msg
  | [], _ => []
  | c :: calls, m => c.msgs m ++ msgsOf calls (c.mem m)

lemma msgsOf_append : ∀ (calls calls' : List Call) (m : Mem 64),
    msgsOf (calls ++ calls') m = msgsOf calls m ++ msgsOf calls' (memAfter calls m) := by
  intro calls calls'
  induction calls with
  | nil =>
    intro m
    rfl
  | cons c calls ih =>
    intro m
    rw [List.cons_append, msgsOf, msgsOf, ih, List.append_assoc]
    rfl

lemma talks_blocks (burst : BurstBytes) (sec : Piece 64) (hsize : SizeOk burst sec) (i : ℕ) :
    ∀ m : Mem 64, Talks (blocks burst sec.addr sec.bytes i)
      (msgsOf (blockCalls burst sec hsize i) m) () := by
  fun_induction blockCalls burst sec hsize i with
  | case1 i hi ih =>
    intro m
    rw [blocks, if_pos hi, msgsOf]
    exact (talks_uartDebugRw (blockCall burst sec hsize i) m).bind (ih _)
  | case2 i hi =>
    intro m
    rw [blocks, if_neg hi]
    exact .ret ()

/-- The segment as it is delivered, with zeros behind what the file has of it. -/
def piece (f : ElfFile) (p : Phdr) : Piece 64 := ⟨p.paddr, padded (f.content p) p.memsz.toNat⟩

section File

variable {f : ElfFile}

lemma length_piece {p : Phdr} (hp : p ∈ f.segments) : (piece f p).bytes.length = p.memsz.toNat :=
  length_padded_content hp

lemma sizeOk_piece (burst : BurstBytes) {p : Phdr} (hp : p ∈ f.segments) :
    SizeOk burst (piece f p) := by
  have hlt := (fits_of_mem hp).2
  rw [SizeOk, length_piece hp]
  omega

/-- One more section. -/
lemma preloadSections_more (burst : BurstBytes) (n : ℕ) {s s' : Loader} {addr len : U64}
    {bf : List Byte} (hget : getSection s = some ((addr, len), s')) (hmsb : len.msb = false)
    (hread : readSection s' addr (List.replicate len.toNat 0) len.toNat = (0, bf)) :
    preloadSections burst (n + 1) s = (do
      (blocks burst addr bf 0).mapFail .unexpected
      preloadSections burst n s') := by
  rw [preloadSections, hget]
  simp only [hmsb, hread, Bool.false_eq_true, if_false, ne_eq, not_true_eq_false]

/-- **The sections** that are left are sent, and the loader is drained. -/
theorem talks_preloadSections (burst : BurstBytes) : ∀ (ps : List Phdr) (n : ℕ) (s s₂ : Loader)
    (m : Mem 64), (∀ p ∈ ps, p ∈ f.segments) → Drains s (ps.map Phdr.sec) s₂ →
      (∀ t, ReflTransGen Gets s t → Reads f t) → ps.length < n →
      ∀ hsize : ∀ sec ∈ ps.map (piece f), SizeOk burst sec, Talks (preloadSections burst n s)
        (msgsOf (Uart.uartDebugElfPreload burst (ps.map (piece f)) hsize) m) s₂ := by
  intro ps
  induction ps with
  | nil =>
    intro n s s₂ m _ hdrain _ hn _
    obtain ⟨n, rfl⟩ : ∃ k, n = k + 1 := ⟨n - 1, by omega⟩
    cases hdrain with
    | done hget =>
      rw [preloadSections, hget]
      exact .ret s
  | cons p ps ih =>
    intro n s s₂ m hps hdrain hreads hn hsize
    rw [List.forall_mem_cons] at hps
    obtain ⟨n, rfl⟩ : ∃ k, n = k + 1 := ⟨n - 1, by omega⟩
    cases hdrain with
    | @more _ s' _ _ _ hget hrest =>
      have hgets : Gets s s' := ⟨_, hget⟩
      have hread := (hreads s' (.single hgets)).content p hps.1
      have htail := ih n s' s₂
        (memAfter (blockCalls burst (piece f p) (hsize _ List.mem_cons_self) 0) m) hps.2 hrest
        (fun t ht => hreads t (.head hgets ht)) (by simpa using hn)
        fun sec hsec => hsize sec (List.mem_cons_of_mem _ hsec)
      have hhead := talks_blocks burst (piece f p) (hsize _ List.mem_cons_self) 0 m
      have hcalls : Uart.uartDebugElfPreload burst ((p :: ps).map (piece f)) hsize =
          blockCalls burst (piece f p) (hsize _ List.mem_cons_self) 0 ++
            Uart.uartDebugElfPreload burst (ps.map (piece f)) fun sec hsec =>
              hsize sec (List.mem_cons_of_mem _ hsec) := rfl
      rw [hcalls, msgsOf_append, preloadSections_more burst n hget (msb_memsz hps.1) hread]
      exact (hhead.mapFail Stop.unexpected).bind (f := fun _ => preloadSections burst n s') htail

end File

/-! ### The end of the computation -/

/-- The variables without the line. -/
def offLine (s : Tb) : Tb := { s with line := [] }

lemma hostTurn_offLine (s : Tb) : hostTurn (offLine s) = (hostTurn s).map offLine := by
  obtain ⟨host, x, ena, eoc, buf, shown, line⟩ := s
  cases host with
  | expecting =>
    by_cases hx : x = UartDebugAck
    · cases ena <;> simp [hostTurn, offLine, hx]
    · cases ena <;> simp [hostTurn, offLine, hx]
  | scoop i exitCode => by_cases hi : i < 4 <;> simp [hostTurn, offLine, hi]
  | _ => cases ena <;> cases eoc <;> simp [hostTurn, offLine]

lemma line_hostTurn {s s' : Tb} (h : hostTurn s = some s') : s'.line = s.line := by
  obtain ⟨host, x, ena, eoc, buf, shown, line⟩ := s
  cases host <;> simp only [hostTurn] at h <;> (try split_ifs at h) <;> cases h <;> rfl

lemma readerTurn_offLine (s : Tb) (bite : Byte) (rest : List Byte) :
    readerTurn (offLine s) bite = offLine (readerTurn { s with line := rest } bite) := by
  by_cases hena : s.bootEna = true
  · simp [readerTurn, offLine, hena]
  · by_cases hnl : bite = newline
    · simp [readerTurn, offLine, hena, hnl]
    · by_cases heoc : bite = UartDebugEoc
      · rw [heoc] at hnl ⊢
        simp [readerTurn, offLine, hena, hnl]
      · simp [readerTurn, offLine, hena, hnl, heoc]

lemma line_readerTurn (s : Tb) (bite : Byte) : (readerTurn s bite).line = s.line := by
  unfold readerTurn
  split_ifs <;> rfl

/-- A turn of the task. -/
lemma waitForEoc_host (n : ℕ) {s s' : Tb} (h : hostTurn s = some s') :
    waitForEoc (n + 1) s = waitForEoc n s' := by
  rw [waitForEoc, h]
  split
  · next hdone =>
    rw [hostTurn, hdone] at h
    cases h
  · next hfatal =>
    rw [hostTurn, hfatal] at h
    cases h
  · rfl

/-- The task is blocked, and the next byte comes. -/
lemma waitForEoc_reader (n : ℕ) {s : Tb} (h : hostTurn s = none)
    (hdone : ∀ exitCode, s.host ≠ .done exitCode) (hfatal : ∀ bite, s.host ≠ .fatal bite) :
    waitForEoc (n + 1) s = .recv fun bite => waitForEoc n (readerTurn s bite) := by
  rw [waitForEoc, h]
  split
  · next hs => exact absurd hs (hdone _)
  · next hs => exact absurd hs (hfatal _)
  · rfl

/-- **The end of the task** hears what is on the line, and the code in it. -/
theorem talks_waitForEoc {out : List Byte} {r : U32} (hout : UartDebugEoc ∉ out) : ∀ (k n : ℕ)
    {s : Tb}, ExecInv out r s → execRank s ≤ k → k < n →
      Talks (waitForEoc n (offLine s)) (s.line.map .inn) r := by
  intro k
  induction k with
  | zero =>
    intro n s h hk hn
    obtain ⟨n, rfl⟩ : ∃ j, n = j + 1 := ⟨n - 1, by omega⟩
    rcases h.exists_step hout with hdone | ⟨s', -, hlt⟩
    · cases h with
      | done => exact .ret r
      | _ => cases hdone
    · omega
  | succ k ih =>
    intro n s h hk hn
    obtain ⟨n, rfl⟩ : ∃ j, n = j + 1 := ⟨n - 1, by omega⟩
    rcases h.exists_step hout with hdone | ⟨s', hs, hlt⟩
    · cases h with
      | done => exact .ret r
      | _ => cases hdone
    · have hnext := ih n (h.step hout hs) (by omega) (by omega)
      cases hs with
      | host hs =>
        have hoff : hostTurn (offLine s) = some (offLine s') := by
          rw [hostTurn_offLine, hs]
          rfl
        rw [waitForEoc_host n hoff, ← line_hostTurn hs]
        exact hnext
      | @reader bite rest hs hline =>
        have hoff : hostTurn (offLine s) = none := by
          rw [hostTurn_offLine, hs]
          rfl
        rw [waitForEoc_reader n hoff, hline, List.map_cons]
        · refine .recv ?_
          rw [readerTurn_offLine s bite rest]
          rw [line_readerTurn] at hnext
          exact hnext
        · intro exitCode hdone
          cases h with
          | done => cases hline
          | _ => cases hdone
        · intro bite hfatal
          cases h <;> cases hfatal

/-! ### What the boot ROM hears and says -/

section Rom

variable {invoke bootNextStage : U64 → CoreM U32}

lemma talks_polling {m : Mem 64} (hm : scratch m 2 &&& 2 = 0) :
    Talks (bootPassive invoke bootNextStage (.polling m)) [.inn UartDebugAck, .out kUartDebugAck]
      (.inl (.serving m)) := by
  rw [bootPassive, if_neg (not_not.mpr hm)]
  exact .recv (.send (.ret _))

lemma talks_serving (bootNextStage : U64 → CoreM U32) {m : Mem 64} {l : List Msg}
    {x : Mem 64 ⊕ (U32 × Mem 64)}
    (h : Talks (serveLoop invoke m) l x) :
    Talks (bootPassive invoke bootNextStage (.serving m)) l (x.map .serving id) :=
  h.map fun x => x.map Rom.serving id

/-- The server answers the calls one after another. -/
lemma speaks_calls : ∀ (calls : List Call) (m : Mem 64),
    Speaks (bootPassive invoke bootNextStage) (.ret (.inl (.serving m)))
      ((msgsOf calls m).map Msg.dual) (.ret (.inl (.serving (memAfter calls m)))) := by
  intro calls
  induction calls with
  | nil =>
    intro m
    exact .refl _
  | cons c calls ih =>
    intro m
    have hturn := talks_serving bootNextStage (talks_serve invoke c m)
    have hne : (c.msgs m).map Msg.dual ≠ [] := by
      intro hnil
      have hlen := length_msgs c m
      rw [List.map_eq_nil_iff.mp hnil, List.length_nil] at hlen
      omega
    rw [msgsOf, List.map_append]
    exact (Speaks.turn hturn hne).trans (ih (c.mem m))

end Rom

/-! ### A run -/

section Run

variable {burst : BurstBytes} {f : ElfFile} {s₀ : Loader} {invoke bootNextStage : U64 → CoreM U32}
  {m : Mem 64} {out : List Byte} {r : U32}

/-- The segments of the file in memory. -/
def pieces (f : ElfFile) : List (Piece 64) := f.segments.map (piece f)

lemma sizeOk_pieces (burst : BurstBytes) (f : ElfFile) : ∀ sec ∈ pieces f, SizeOk burst sec := by
  intro sec hsec
  obtain ⟨p, hp, rfl⟩ := List.mem_map.mp hsec
  exact sizeOk_piece burst hp

/-- The calls of the preload. -/
def calls (burst : BurstBytes) (f : ElfFile) : List Call :=
  Uart.uartDebugElfPreload burst (pieces f) (sizeOk_pieces burst f)

/-- What the task says and hears in all. -/
def conversation (burst : BurstBytes) (f : ElfFile) (m : Mem 64) (out : List Byte) (r : U32) :
    List Msg :=
  [.out UartDebugAck, .inn kUartDebugAck] ++ (msgsOf (calls burst f) m ++
    ((UartDebugCmdExec :: toLe 8 f.entry.toNat).map .out ++ (execBytes out r).map .inn))

/-- **The preload** leaves the segments in memory, and nothing else. -/
lemma holds_memAfter (burst : BurstBytes) (happ : (pieces f).Pairwise Piece.Apart) (m : Mem 64) :
    Holds (pieces f) (memAfter (calls burst f) m) ∧
      Unchanged (pieces f) m (memAfter (calls burst f) m) := by
  have hfits : ∀ sec ∈ pieces f, sec.bytes.length ≤ 2 ^ 64 := by
    intro sec hsec
    obtain ⟨p, hp, rfl⟩ := List.mem_map.mp hsec
    have := (fits_of_mem hp).2
    rw [length_piece hp]
    omega
  rw [calls, memAfter_uartDebugElfPreload burst _ _ m hfits]
  exact load_exact (fun _ => rfl) hfits happ

/-- **The task**, when the file is loaded as it should be. -/
theorem talks_uartDebugElfRunAndWait (burst : BurstBytes) (hf : LoadOk f s₀)
    (hout : UartDebugEoc ∉ out) {fuel : ℕ}
    (hsegs : f.segments.length < fuel) (hlen : 3 * out.length + 19 < fuel) :
    ∃ s, Talks (uartDebugElfRunAndWait burst fuel f.bytes s₀) (conversation burst f m out r)
      (r, s) := by
  obtain ⟨s₁, s₂, hread, hdrain, hreads⟩ := hf
  have hsecs := talks_preloadSections burst f.segments fuel s₁ s₂ m (fun p hp => hp) hdrain hreads
    hsegs (sizeOk_pieces burst f)
  have hentry : getEntry s₂ = f.entry := (hreads s₂ (gets_of_drains hdrain)).entry
  have hpreload : Talks (uartDebugElfPreload burst fuel f.bytes s₀) (msgsOf (calls burst f) m)
      (f.entry, s₂) := by
    rw [uartDebugElfPreload, hread, ← hentry]
    exact hsecs.map fun s => (getEntry s, s)
  have hwait : Talks (waitForEoc fuel execTb) ((execBytes out r).map .inn) r := by
    refine talks_waitForEoc hout (3 * out.length + 19) fuel (begins_execStart out r).inv ?_ hlen
    simp [execRank, execStart, execBytes]
    omega
  have hack := (talks_uartWriteByte UartDebugAck).mapFail Stop.unexpected
  have hacked := (talks_scoopExpect "ACK" UartDebugAck).mapFail Stop.unexpected
  have hexec := (talks_uartWriteByte UartDebugCmdExec).mapFail Stop.unexpected
  have haddr := (talks_uartWriteBytes (fun i => f.entry.extractLsb' (8 * i) 8)
    (List.range 8)).mapFail Stop.unexpected
  rw [bytes_eq] at haddr
  refine ⟨s₂, ?_⟩
  exact hack.bind (hacked.bind (hpreload.bind (hexec.bind (haddr.bind
    (hwait.map fun exitCode => (exitCode, s₂))))))

/-- **The boot ROM**, when the program prints and returns as the task expects it to. -/
theorem speaks_bootPassive (bootNextStage : U64 → CoreM U32) (hm : scratch m 2 &&& 2 = 0)
    {m' : Mem 64}
    (hprog : Talks (invoke f.entry (memAfter (calls burst f) m)) (said out) (r, m')) :
    Speaks (bootPassive invoke bootNextStage) (.ret (.inl (.polling m)))
      ((conversation burst f m out r).map Msg.dual) (.ret (.inr (r, m'))) := by
  have hexec := talks_serving bootNextStage (talks_serve_exec invoke f.entry hprog)
  have hlast : Speaks (bootPassive invoke bootNextStage)
      (.ret (.inl (.serving (memAfter (calls burst f) m))))
      (((UartDebugCmdExec :: toLe 8 f.entry.toNat).map Msg.out ++
        (execBytes out r).map Msg.inn).map Msg.dual) (.ret (.inr (r, m'))) := by
    rw [List.map_append, dual_out, dual_inn]
    exact Speaks.turn hexec (List.cons_ne_nil _ _)
  rw [conversation, List.map_append, List.map_append]
  exact (Speaks.turn (talks_polling hm) (List.cons_ne_nil _ _)).trans
    ((speaks_calls (calls burst f) m).trans hlast)

/-- The last word is the server's. -/
lemma ends_execBytes (out : List Byte) (r : U32) :
    ∃ b t, (execBytes out r).map Msg.inn = t ++ [.inn b] := by
  refine ⟨(toLe 4 r.toNat).getLastD 0,
    (kUartDebugAck :: (out ++ kUartDebugEoc :: (toLe 4 r.toNat).dropLast)).map .inn, ?_⟩
  simp [execBytes, toLe]

/-- The two of them, and the bytes on the line. -/
abbrev RunNet := Net Stop Empty Empty Rom (BitVec 32 × Loader) (U32 × Mem 64)

/-- The task begins, and the boot ROM polls. -/
def start (burst : BurstBytes) (fuel : ℕ) (f : ElfFile) (s₀ : Loader) (m : Mem 64) : RunNet :=
  ⟨do let ret ← uartDebugElfRunAndWait burst fuel f.bytes s₀; pure (.inr ret),
    .ret (.inl (.polling m)), [], []⟩

/-- Entered with the file in memory, the program prints `out` and returns `r`. -/
def Prints (invoke : U64 → CoreM U32) (f : ElfFile) (m : Mem 64) (out : List Byte) (r : U32)
    (m' : Mem 64) : Prop :=
  ∃ loaded, Holds (pieces f) loaded ∧ Unchanged (pieces f) m loaded ∧
    Talks (invoke f.entry loaded) (said out) (r, m')

/-- What holds in a state of a run, `n` steps after its start. -/
structure RunOk (invoke bootNextStage : U64 → CoreM U32) (burst : BurstBytes) (f : ElfFile)
    (m : Mem 64) (out : List Byte) (r : U32) (n : ℕ) (s : RunNet) : Prop where
  /-- The task is never stopped. -/
  not_stopped : ∀ e, s.fst ≠ .fail e
  /-- The task reports what the program returns, and not before the program has run with the file
  in memory. -/
  exitCode : ∀ code ld, s.fst = .ret (.inr (code, ld)) → code = r ∧
    ∃ m', Prints invoke f m out r m' ∧ s.snd = .ret (.inr (r, m'))
  /-- The task and the boot ROM cannot go on for ever. -/
  bounded : n ≤ 2 * (conversation burst f m out r).length
  /-- In the end both have returned. -/
  finishes : ∃ n' ld m', Steps Empty.elim (bootPassive invoke bootNextStage) n' s
    ⟨.ret (.inr (r, ld)), .ret (.inr (r, m')), [], []⟩

/-- **A binary is run over the UART** in every interleaving of the task and the boot ROM: it is
loaded as the file has it, entered where the file says, and what it returns is the exit code. -/
theorem uartDebugElfRunAndWait_ok (burst : BurstBytes) (hf : LoadOk f s₀)
    (happ : (pieces f).Pairwise Piece.Apart) (hm : scratch m 2 &&& 2 = 0)
    (hout : UartDebugEoc ∉ out) (hprog : ∀ loaded, Holds (pieces f) loaded →
      Unchanged (pieces f) m loaded → ∃ m', Talks (invoke f.entry loaded) (said out) (r, m')) :
    ∃ bound, ∀ fuel ≥ bound, ∀ n s,
      Steps Empty.elim (bootPassive invoke bootNextStage) n (start burst fuel f s₀ m) s →
        RunOk invoke bootNextStage burst f m out r n s := by
  refine ⟨max (f.segments.length + 1) (3 * out.length + 20), fun fuel hfuel n s hsteps => ?_⟩
  obtain ⟨hholds, hunchanged⟩ := holds_memAfter burst happ m
  obtain ⟨m', hm'⟩ := hprog _ hholds hunchanged
  obtain ⟨ld, htask⟩ := talks_uartDebugElfRunAndWait (m := m) (r := r) burst hf hout
    (Nat.le_trans (Nat.le_max_left _ _) hfuel) (Nat.le_trans (Nat.le_max_right _ _) hfuel)
  have hfst : Speaks Empty.elim (start burst fuel f s₀ m).fst (conversation burst f m out r)
      (.ret (.inr (r, ld))) := .of_talks (htask.map Sum.inr)
  have hsnd := speaks_bootPassive bootNextStage hm hm'
  obtain ⟨lp, lq, hconv⟩ := Conversing.of_steps hfst hsnd (quiet_ret _) (quiet_ret _) hsteps
  refine ⟨hconv.fst_ne_fail, fun code ld' hs => ?_, ?_, ?_⟩
  · have hlast : ∃ b t, conversation burst f m out r = t ++ [.inn b] := by
      exact ends_append _ (ends_append _ (ends_append _ (ends_execBytes out r)))
    have hend := hconv.eq_of_fst_ret hlast hs
    have hret := hs.symm.trans (congrArg Net.fst hend)
    exact ⟨(Prod.mk.inj (Sum.inr.inj (Prog.ret.inj hret))).1, m',
      ⟨_, hholds, hunchanged, hm'⟩, congrArg Net.snd hend⟩
  · have := hconv.steps
    omega
  · obtain ⟨n', hn'⟩ := hconv.exists_finish (quiet_ret _) (quiet_ret _)
      (2 * (conversation burst f m out r).length) n (Nat.le_add_left _ _)
    exact ⟨n', ld, m', hn'⟩

end Run

/-- A program that prints `"hi"` and returns `7`. -/
def sayHi : U64 → CoreM U32 := fun _ => do
  uartWrite 0x68
  uartWrite 0x69
  pure 7

theorem uartDebugElfRunAndWait_ok_sayHi : ∃ bound, ∀ fuel ≥ bound, ∀ n s,
    Steps Empty.elim (bootPassive sayHi sayHi) n
      (start twoBytes fuel firstFile .init fun _ => 0) s →
      RunOk sayHi sayHi twoBytes firstFile (fun _ => 0) [0x68, 0x69] 7 n s := by
  have hinit : Elf.Inv [] .init := ⟨rfl, rfl, fun _ => rfl⟩
  obtain ⟨s₁, s₂, hread, hdrain, hreads, -⟩ :=
    hinit.load (loadable_nil (f := firstFile) (by decide) (by decide +kernel))
  have hsegs : firstFile.segments = [⟨1, 120, 0x8000_0000, 1, 2⟩] := by decide +kernel
  have happ : (pieces firstFile).Pairwise Piece.Apart := by
    rw [pieces, hsegs]
    exact List.pairwise_singleton _ _
  exact uartDebugElfRunAndWait_ok twoBytes ⟨s₁, s₂, hread, hdrain, hreads⟩ happ (by decide)
    (by decide) fun loaded _ _ => ⟨loaded, .send (.send (.ret _))⟩

end Cheshire.Sim.Uart.Run
