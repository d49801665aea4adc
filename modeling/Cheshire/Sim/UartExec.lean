import Cheshire.Sim.UartDebugRw
import Cheshire.Sw.UartDebug
import Mathlib.Logic.Relation

/-!
The end of `uart_debug_elf_run_and_wait`: the task waits for the ACK of the EXEC command, for the
end of computation and for the exit code, all of which the reader process takes from one stream of
bytes.  The two processes share the variables `uart_boot_ena`, `uart_boot_byte` and
`uart_boot_eoc`.
-/

namespace Cheshire.Sim.Uart

open Lib Lib.Dialogue Relation Sw Sw.UartDebug

def UartDebugEoc : Byte := 0x14

/-- `"\n"`. -/
def newline : Byte := 0x0A

/-! ### The two processes -/

/-- Where the task is: in front of a scoop or in it, in `wait (uart_boot_eoc == 1)`, behind the
last scoop, or stopped by `$fatal`. -/
inductive Host where
  | expect
  | expecting
  | waiting
  | scoop (i : ℕ) (exitCode : BitVec 32)
  | scooping (i : ℕ) (exitCode : BitVec 32)
  | done (exitCode : BitVec 32)
  | fatal (bite : Byte)

/-- The task, the variables, the lines of the reader, and the bytes that it has still to read. -/
structure Tb where
  host : Host
  bootByte : Byte
  bootEna : Bool
  bootEoc : Bool
  readBuf : List Byte
  shown : List (List Byte)
  line : List Byte

/-- `exit_code[8*i +: 8] = bite`. -/
def setByte (exitCode : BitVec 32) (i : ℕ) (bite : Byte) : BitVec 32 :=
  (exitCode &&& ~~~ ((BitVec.allOnes 8).setWidth 32 <<< (8 * i))) |||
    bite.setWidth 32 <<< (8 * i)

/-- What the task does next; `none` when it is blocked. -/
def hostTurn (s : Tb) : Option Tb :=
  match s.host with
  | .expect => some { s with bootEna := true, host := .expecting }
  | .expecting =>
    if s.bootEna then none
    else if s.bootByte ≠ UartDebugAck then some { s with host := .fatal s.bootByte }
    else some { s with host := .waiting }
  | .waiting => if s.bootEoc then some { s with bootEoc := false, host := .scoop 0 0 } else none
  | .scoop i exitCode =>
    if i < 4 then some { s with bootEna := true, host := .scooping i exitCode }
    else some { s with host := .done exitCode }
  | .scooping i exitCode =>
    if s.bootEna then none
    else some { s with host := .scoop (i + 1) (setByte exitCode i s.bootByte) }
  | .done _ | .fatal _ => none

/-- A turn of the reader, with the byte it has read. -/
def readerTurn (s : Tb) (bite : Byte) : Tb :=
  if s.bootEna then { s with bootByte := bite, bootEna := false }
  else if bite = newline then { s with shown := s.shown ++ [s.readBuf], readBuf := [] }
  else if bite = UartDebugEoc then { s with bootEoc := true }
  else { s with readBuf := s.readBuf ++ [bite] }

/-- A step of either process.  A byte takes its time on the line, the task takes none: the next
byte is there when the task is blocked. -/
inductive ExecStep : Tb → Tb → Prop
  | host {s s' : Tb} (h : hostTurn s = some s') : ExecStep s s'
  | reader {s : Tb} {bite : Byte} {rest : List Byte} (h : hostTurn s = none)
      (hline : s.line = bite :: rest) : ExecStep s (readerTurn { s with line := rest } bite)

/-! ### The bytes on the line -/

/-- What the debug server answers to EXEC, around the output of the program. -/
def execBytes (out : List Byte) (r : U32) : List Byte :=
  kUartDebugAck :: (out ++ kUartDebugEoc :: toLe 4 r.toNat)

lemma talks_uartWriteBytesOf (m : Mem 64) : ∀ bs : List Byte,
    Talks (bs.forM uartWrite m) (said bs) ((), m) := by
  intro bs
  induction bs with
  | nil => exact .ret _
  | cons b bs ih => exact Talks.bindState (talks_uartWrite b m) ih

/-- **EXEC** runs the program and reports what it returns. -/
theorem talks_serve_exec (invoke : U64 → CoreM U32) (addr : U64) {out : List Byte} {r : U32}
    {m m' : Mem 64} (h : Talks (invoke addr m) (said out) (r, m')) :
    Talks (serveLoop invoke m) (heard (kUartDebugCmdExec :: toLe 8 addr.toNat) ++
      said (execBytes out r)) (.inr (r, m')) := by
  have hserve : Talks (serveCmd invoke m) ([.inn kUartDebugCmdExec] ++
      (heard (toLe 8 addr.toNat) ++ ([.out kUartDebugAck] ++ (said out ++ ([.out kUartDebugEoc] ++
        said (toLe 4 r.toNat)))))) (some r, m') := by
    refine Talks.bindState (talks_uartRead _ m) ?_
    refine Talks.bindState (talks_uartReadU64 addr m) ?_
    refine Talks.bindState (talks_uartWrite _ m) ?_
    refine Talks.bindState h ?_
    refine Talks.bindState (talks_uartWrite _ m') ?_
    exact (talks_uartWriteBytesOf m' (toLe 4 r.toNat)).mapState _
  have hloop : Talks (serveLoop invoke m) (_ ++ []) (.inr (r, m')) := hserve.bind (.ret _)
  simpa [heard, said, execBytes] using hloop

/-! ### The exit code -/

lemma getLsbD_setByte (exitCode : BitVec 32) {i : ℕ} (bite : Byte) {k : ℕ} (hk : k < 32) :
    (setByte exitCode i bite).getLsbD k =
      if 8 * i ≤ k ∧ k < 8 * i + 8 then bite.getLsbD (k - 8 * i) else exitCode.getLsbD k := by
  simp only [setByte, BitVec.getLsbD_or, BitVec.getLsbD_and, BitVec.getLsbD_not,
    BitVec.getLsbD_shiftLeft, BitVec.getLsbD_setWidth, BitVec.getLsbD_allOnes, hk, decide_true,
    Bool.true_and]
  by_cases hlow : k < 8 * i
  · simp [hlow]
  · by_cases hin : k - 8 * i < 8
    · simp [hlow, hin, show 8 * i ≤ k ∧ k < 8 * i + 8 by omega, show k - 8 * i < 32 by omega]
    · simp [hlow, hin, BitVec.getLsbD_of_ge bite _ (Nat.not_lt.mp hin),
        show ¬ (8 * i ≤ k ∧ k < 8 * i + 8) by omega]

/-- The first `i` bytes are those of `r`. -/
def Agrees (r exitCode : BitVec 32) (i : ℕ) : Prop :=
  ∀ k < 8 * i, exitCode.getLsbD k = r.getLsbD k

/-- The byte of `r` that is sent at place `i`. -/
def codeByte (r : BitVec 32) (i : ℕ) : Byte := r.extractLsb' (8 * i) 8

lemma drop_code (r : BitVec 32) {i : ℕ} (hi : i < 4) :
    (toLe 4 r.toNat).drop i = codeByte r i :: (toLe 4 r.toNat).drop (i + 1) := by
  have hpow : 256 ^ i = 2 ^ (8 * i) := by
    rw [pow_mul]
    rfl
  rw [List.drop_eq_getElem_cons (by simpa using hi), getElem_toLe, hpow,
    ← Nat.shiftRight_eq_div_pow]
  rfl

lemma Agrees.setByte {r exitCode : BitVec 32} {i : ℕ} (hi : i < 4) (h : Agrees r exitCode i) :
    Agrees r (setByte exitCode i (codeByte r i)) (i + 1) := by
  intro k hk
  rw [getLsbD_setByte exitCode _ (by omega)]
  split
  · rename_i hin
    rw [codeByte, BitVec.getLsbD_extractLsb']
    simp [show k - 8 * i < 8 by omega, show 8 * i + (k - 8 * i) = k by omega]
  · exact h k (by omega)

lemma Agrees.eq {r exitCode : BitVec 32} (h : Agrees r exitCode 4) : exitCode = r :=
  BitVec.eq_of_getLsbD_eq fun k hk => h k (by omega)

/-- The code that the four scoops assemble. -/
def assemble (bites : List Byte) : BitVec 32 :=
  (List.range 4).foldl (fun exitCode i => setByte exitCode i (bites.getD i 0)) 0

/-- The code that is reported is the code that is assembled. -/
theorem assemble_toLe (r : U32) : assemble (toLe 4 r.toNat) = r := by
  have hbyte : ∀ i < 4, (toLe 4 r.toNat).getD i 0 = codeByte r i := by
    intro i hi
    have hdrop := drop_code r hi
    rw [List.drop_eq_getElem_cons (by simpa using hi)] at hdrop
    rw [List.getD_eq_getElem _ _ (by simpa using hi)]
    exact (List.cons.inj hdrop).1
  have hagrees : ∀ n ≤ 4, Agrees r ((List.range n).foldl
      (fun exitCode i => setByte exitCode i ((toLe 4 r.toNat).getD i 0)) 0) n := by
    intro n
    induction n with
    | zero => exact fun _ k hk => absurd hk (by omega)
    | succ n ih =>
      intro hn
      rw [List.range_succ, List.foldl_append, List.foldl_cons, List.foldl_nil, hbyte n hn]
      exact (ih (by omega)).setByte hn
  exact (hagrees 4 le_rfl).eq

/-! ### The runs -/

/-- The task has sent the command; the line holds the answer. -/
structure Begins (out : List Byte) (r : U32) (s : Tb) : Prop where
  host : s.host = .expect
  bootEna : s.bootEna = false
  bootEoc : s.bootEoc = false
  line : s.line = execBytes out r

/-- The task has recognised the end of computation. -/
def Host.recognised : Host → Prop
  | .scoop .. | .scooping .. | .done _ => True
  | _ => False

/-- In every state of every run the end is recognised only behind the EOC of the server, when at
most the four bytes of the code are left; a code that is assembled is what the program returned;
and the run can go on to such a code. -/
def ExecOk (out : List Byte) (r : U32) : Prop :=
  ∀ s₀ s, Begins out r s₀ → ReflTransGen ExecStep s₀ s →
    (s.host.recognised → s.line.length ≤ 4) ∧
    (∀ exitCode, s.host = .done exitCode → exitCode = r) ∧
    ∃ s', ReflTransGen ExecStep s s' ∧ s'.host = .done r

/-- The states of a run with no EOC in the output. -/
inductive ExecInv (out : List Byte) (r : U32) : Tb → Prop
  | expect {x buf shown} : ExecInv out r ⟨.expect, x, false, false, buf, shown, execBytes out r⟩
  | expecting {x buf shown} :
      ExecInv out r ⟨.expecting, x, true, false, buf, shown, execBytes out r⟩
  | acked {buf shown} : ExecInv out r
      ⟨.expecting, UartDebugAck, false, false, buf, shown, out ++ kUartDebugEoc :: toLe 4 r.toNat⟩
  | waiting {x buf shown rest} (h : rest <:+ out) : ExecInv out r
      ⟨.waiting, x, false, false, buf, shown, rest ++ kUartDebugEoc :: toLe 4 r.toNat⟩
  | eoc {x buf shown} : ExecInv out r ⟨.waiting, x, false, true, buf, shown, toLe 4 r.toNat⟩
  | scoop {x buf shown i exitCode} (hi : i ≤ 4) (h : Agrees r exitCode i) : ExecInv out r
      ⟨.scoop i exitCode, x, false, false, buf, shown, (toLe 4 r.toNat).drop i⟩
  | scooping {x buf shown i exitCode} (hi : i < 4) (h : Agrees r exitCode i) : ExecInv out r
      ⟨.scooping i exitCode, x, true, false, buf, shown, (toLe 4 r.toNat).drop i⟩
  | scooped {buf shown i exitCode} (hi : i < 4) (h : Agrees r exitCode i) : ExecInv out r
      ⟨.scooping i exitCode, codeByte r i, false, false, buf, shown, (toLe 4 r.toNat).drop (i + 1)⟩
  | done {x buf shown} : ExecInv out r ⟨.done r, x, false, false, buf, shown, []⟩

section Inv

variable {out : List Byte} {r : U32}

lemma Begins.inv {s : Tb} (h : Begins out r s) : ExecInv out r s := by
  obtain ⟨host, x, ena, eoc, buf, shown, line⟩ := s
  obtain ⟨rfl, rfl, rfl, rfl⟩ := h
  exact .expect

/-- A byte of the output leaves the task waiting. -/
lemma readerTurn_output (x : Byte) (buf : List Byte) (shown : List (List Byte)) (line : List Byte)
    {bite : Byte} (h : bite ≠ UartDebugEoc) : ∃ buf' shown',
      readerTurn ⟨.waiting, x, false, false, buf, shown, line⟩ bite =
        ⟨.waiting, x, false, false, buf', shown', line⟩ := by
  by_cases hnl : bite = newline
  · exact ⟨[], shown ++ [buf], by simp [readerTurn, hnl]⟩
  · exact ⟨buf ++ [bite], shown, by simp [readerTurn, hnl, h]⟩

lemma execStep_output (x : Byte) (buf : List Byte) (shown : List (List Byte)) (line : List Byte)
    {bite : Byte} (h : bite ≠ UartDebugEoc) : ∃ buf' shown',
      ExecStep ⟨.waiting, x, false, false, buf, shown, bite :: line⟩
        ⟨.waiting, x, false, false, buf', shown', line⟩ := by
  obtain ⟨buf', shown', hturn⟩ := readerTurn_output x buf shown line h
  refine ⟨buf', shown', ?_⟩
  rw [← hturn]
  exact .reader rfl rfl

/-- **A step** of the task. -/
lemma ExecInv.host {s s' : Tb} (h : ExecInv out r s) (hs : hostTurn s = some s') :
    ExecInv out r s' := by
  cases h with
  | expect =>
    obtain rfl := Option.some.inj hs
    exact .expecting
  | expecting => cases hs
  | acked =>
    obtain rfl := Option.some.inj hs
    exact .waiting (List.suffix_refl out)
  | waiting => cases hs
  | eoc =>
    obtain rfl := Option.some.inj hs
    exact .scoop (Nat.zero_le 4) fun k hk => absurd hk (by omega)
  | @scoop x buf shown i exitCode hi h =>
    rcases Nat.lt_or_eq_of_le hi with hlt | rfl
    · simp only [hostTurn, if_pos hlt, Option.some.injEq] at hs
      subst hs
      exact .scooping hlt h
    · obtain rfl := Option.some.inj hs
      obtain rfl := h.eq
      exact .done
  | scooping => cases hs
  | scooped hi h =>
    obtain rfl := Option.some.inj hs
    exact .scoop hi (h.setByte hi)
  | done => cases hs

/-- **A step** of the reader. -/
lemma ExecInv.reader (hout : UartDebugEoc ∉ out) {s : Tb} {bite : Byte} {rest : List Byte}
    (h : ExecInv out r s) (hs : hostTurn s = none) (hline : s.line = bite :: rest) :
    ExecInv out r (readerTurn { s with line := rest } bite) := by
  cases h with
  | expect => cases hs
  | expecting =>
    obtain ⟨rfl, rfl⟩ := List.cons.inj hline
    exact .acked
  | acked => cases hs
  | @waiting x buf shown post hpost =>
    cases post with
    | nil =>
      obtain ⟨rfl, rfl⟩ := List.cons.inj hline
      exact .eoc
    | cons b post =>
      obtain ⟨rfl, rfl⟩ := List.cons.inj hline
      have hne : b ≠ UartDebugEoc := by
        rintro rfl
        exact hout (hpost.subset (List.mem_cons_self ..))
      obtain ⟨buf', shown', hturn⟩ := readerTurn_output x buf shown
        (post ++ kUartDebugEoc :: toLe 4 r.toNat) hne
      have hnext : ExecInv out r (readerTurn ⟨.waiting, x, false, false, buf, shown,
          post ++ kUartDebugEoc :: toLe 4 r.toNat⟩ b) := by
        rw [hturn]
        exact .waiting ((List.suffix_cons b post).trans hpost)
      exact hnext
  | eoc => cases hs
  | @scoop x buf shown i exitCode =>
    by_cases hi : i < 4
    · simp [hostTurn, hi] at hs
    · simp [hostTurn, hi] at hs
  | @scooping x buf shown i exitCode hi h =>
    rw [drop_code r hi] at hline
    obtain ⟨rfl, rfl⟩ := List.cons.inj hline
    exact .scooped hi h
  | scooped => cases hs
  | done => cases hline

theorem ExecInv.step (hout : UartDebugEoc ∉ out) {s s' : Tb} (h : ExecInv out r s)
    (hs : ExecStep s s') : ExecInv out r s' := by
  cases hs with
  | host hs => exact h.host hs
  | reader hs hline => exact h.reader hout hs hline

/-- **What holds in every run.** -/
theorem execInv_of_run (hout : UartDebugEoc ∉ out) {s₀ s : Tb} (h : Begins out r s₀)
    (hs : ReflTransGen ExecStep s₀ s) : ExecInv out r s := by
  induction hs with
  | refl => exact h.inv
  | tail _ hstep ih => exact ih.step hout hstep

/-! ### The end of a run -/

/-- What is left to do: a byte and the two turns of the task around it count three. -/
def execRank (s : Tb) : ℕ :=
  3 * s.line.length +
    match s.host with
    | .expect | .scoop .. => 1
    | .expecting | .scooping .. => if s.bootEna then 0 else 2
    | .waiting => if s.bootEoc then 2 else 0
    | .done _ | .fatal _ => 0

/-- Until it is done, a run can go on, and there is less to do then. -/
lemma ExecInv.exists_step (hout : UartDebugEoc ∉ out) {s : Tb} (h : ExecInv out r s) :
    s.host = .done r ∨ ∃ s', ExecStep s s' ∧ execRank s' < execRank s := by
  cases h with
  | expect => exact .inr ⟨_, .host rfl, by simp [execRank]⟩
  | expecting =>
    refine .inr ⟨_, .reader rfl rfl, ?_⟩
    simp [execRank, readerTurn, execBytes]
    omega
  | acked => exact .inr ⟨_, .host rfl, by simp [execRank]⟩
  | @waiting x buf shown post hpost =>
    cases post with
    | nil =>
      refine .inr ⟨_, .reader rfl rfl, ?_⟩
      simp [execRank, readerTurn, newline, UartDebugEoc, kUartDebugEoc]
    | cons b post =>
      have hne : b ≠ UartDebugEoc := by
        rintro rfl
        exact hout (hpost.subset (List.mem_cons_self ..))
      obtain ⟨buf', shown', hs⟩ := execStep_output x buf shown
        (post ++ kUartDebugEoc :: toLe 4 r.toNat) hne
      exact .inr ⟨_, hs, by simp [execRank]⟩
  | eoc => exact .inr ⟨_, .host rfl, by simp [execRank]⟩
  | @scoop x buf shown i exitCode hi h =>
    rcases Nat.lt_or_eq_of_le hi with hlt | rfl
    · exact .inr ⟨_, .host (if_pos hlt), by simp [execRank]⟩
    · exact .inr ⟨_, .host rfl, by simp [execRank]⟩
  | @scooping x buf shown i exitCode hi h =>
    refine .inr ⟨_, .reader rfl (drop_code r hi), ?_⟩
    simp [execRank, readerTurn]
    omega
  | scooped hi h => exact .inr ⟨_, .host rfl, by simp [execRank]⟩
  | done => exact .inl rfl

/-- **Every run comes to an end** with the code, if it only goes on. -/
theorem ExecInv.exists_done (hout : UartDebugEoc ∉ out) : ∀ (n : ℕ) {s : Tb}, ExecInv out r s →
    execRank s ≤ n → ∃ s', ReflTransGen ExecStep s s' ∧ s'.host = .done r := by
  intro n
  induction n with
  | zero =>
    intro s h hn
    rcases h.exists_step hout with hdone | ⟨s', -, hlt⟩
    · exact ⟨s, .refl, hdone⟩
    · omega
  | succ n ih =>
    intro s h hn
    rcases h.exists_step hout with hdone | ⟨s', hs, hlt⟩
    · exact ⟨s, .refl, hdone⟩
    · obtain ⟨t, ht, hdone⟩ := ih (h.step hout hs) (by omega)
      exact ⟨t, .head hs ht, hdone⟩

/-- What the invariant says of the end. -/
lemma ExecInv.recognised {s : Tb} (h : ExecInv out r s) (hs : s.host.recognised) :
    s.line.length ≤ 4 := by
  cases h with
  | scoop | scooping => simp
  | scooped =>
    simp
    omega
  | done => exact Nat.zero_le 4
  | _ => exact hs.elim

lemma ExecInv.exitCode {s : Tb} (h : ExecInv out r s) {exitCode : BitVec 32}
    (hs : s.host = .done exitCode) : exitCode = r := by
  cases h with
  | done => exact (Host.done.inj hs).symm
  | _ => cases hs

/-! ### An EOC in the output -/

/-- The task gets behind the first EOC on the line. -/
lemma exists_recognised (line : List Byte) : ∀ (pre : List Byte), UartDebugEoc ∉ pre →
    ∀ (x : Byte) (buf : List Byte) (shown : List (List Byte)), ∃ buf' shown',
      ReflTransGen ExecStep ⟨.waiting, x, false, false, buf, shown, pre ++ UartDebugEoc :: line⟩
        ⟨.scoop 0 0, x, false, false, buf', shown', line⟩ := by
  intro pre
  induction pre with
  | nil =>
    intro _ x buf shown
    have hread : ExecStep ⟨.waiting, x, false, false, buf, shown, UartDebugEoc :: line⟩
        ⟨.waiting, x, false, true, buf, shown, line⟩ := by
      have hturn : readerTurn ⟨.waiting, x, false, false, buf, shown, line⟩ UartDebugEoc =
          ⟨.waiting, x, false, true, buf, shown, line⟩ := rfl
      rw [← hturn]
      exact .reader rfl rfl
    exact ⟨buf, shown, .head hread (.single (.host rfl))⟩
  | cons b pre ih =>
    intro hpre x buf shown
    rw [List.mem_cons, not_or] at hpre
    obtain ⟨hb, hpre⟩ := hpre
    obtain ⟨buf₁, shown₁, hs⟩ := execStep_output x buf shown
      (pre ++ UartDebugEoc :: line) (Ne.symm hb)
    obtain ⟨buf₂, shown₂, hrest⟩ := ih hpre x buf₁ shown₁
    exact ⟨buf₂, shown₂, .head hs hrest⟩

/-- A state in which the task has sent the command. -/
def execStart (out : List Byte) (r : U32) : Tb :=
  ⟨.expect, 0, false, false, [], [], execBytes out r⟩

lemma begins_execStart (out : List Byte) (r : U32) : Begins out r (execStart out r) :=
  ⟨rfl, rfl, rfl, rfl⟩

/-- The output begins behind the ACK. -/
lemma run_acked (out : List Byte) (r : U32) : ReflTransGen ExecStep (execStart out r)
    ⟨.waiting, UartDebugAck, false, false, [], [], out ++ kUartDebugEoc :: toLe 4 r.toNat⟩ := by
  have hexpect : ExecStep (execStart out r)
      ⟨.expecting, 0, true, false, [], [], execBytes out r⟩ := .host rfl
  have hread : ExecStep ⟨.expecting, 0, true, false, [], [], execBytes out r⟩
      ⟨.expecting, UartDebugAck, false, false, [], [], out ++ kUartDebugEoc :: toLe 4 r.toNat⟩ :=
    .reader rfl rfl
  exact .head hexpect (.head hread (.single (.host rfl)))

/-- An EOC that the program prints is taken for the one of the server. -/
theorem not_execOk_of_mem (h : UartDebugEoc ∈ out) : ¬ ExecOk out r := by
  intro hok
  obtain ⟨pre, post, rfl, hpre⟩ := List.eq_append_cons_of_mem h
  have hacked := run_acked (pre ++ UartDebugEoc :: post) r
  rw [List.append_assoc, List.cons_append] at hacked
  obtain ⟨buf, shown, hrun⟩ := exists_recognised (post ++ kUartDebugEoc :: toLe 4 r.toNat) pre hpre
    UartDebugAck [] []
  have hlen := (hok _ _ (begins_execStart _ _) (hacked.trans hrun)).1 trivial
  simp at hlen

end Inv

/-- **The end of a program over the UART.**  The debug server says the bytes of its answer to EXEC,
and on these the end is recognised at its EOC and the code is the one the program returned exactly
when the program has printed no EOC itself. -/
theorem execOk_iff (out : List Byte) (r : U32) :
    (∀ (invoke : U64 → CoreM U32) (addr : U64) (m m' : Mem 64),
      Talks (invoke addr m) (said out) (r, m') →
      Talks (serveLoop invoke m) (heard (kUartDebugCmdExec :: toLe 8 addr.toNat) ++
        said (execBytes out r)) (.inr (r, m'))) ∧
    (ExecOk out r ↔ UartDebugEoc ∉ out) := by
  refine ⟨fun invoke addr m m' h => talks_serve_exec invoke addr h, fun h hmem => ?_, ?_⟩
  · exact not_execOk_of_mem hmem h
  · intro hout s₀ s hbegins hrun
    have h := execInv_of_run hout hbegins hrun
    exact ⟨h.recognised, fun _ => h.exitCode, h.exists_done hout _ (Nat.le_refl _)⟩

/-- A program that prints `"hi"` and returns `7`. -/
theorem execOk_hi :
    Talks (serveLoop (fun _ => do uartWrite 0x68; uartWrite 0x69; pure 7) fun _ => 0)
        (heard (kUartDebugCmdExec :: toLe 8 0) ++ said (execBytes [0x68, 0x69] 7))
        (.inr (7, fun _ => 0)) ∧ ExecOk [0x68, 0x69] 7 :=
  ⟨(execOk_iff [0x68, 0x69] 7).1 _ 0 _ _ (.send (.send (.ret _))),
    (execOk_iff [0x68, 0x69] 7).2.mpr (by decide)⟩

/-- A program that prints `"hi"`, an EOC and a newline, and returns zero. -/
theorem not_execOk_printed_eoc : ¬ ExecOk [0x68, 0x69, 0x14, 0x0A] 0 :=
  not_execOk_of_mem (by decide)

end Cheshire.Sim.Uart
