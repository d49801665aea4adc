import Cheshire.Lib.Dialogue
import Cheshire.Sw.Base

/-!
The host side of the UART debug protocol in the testbench (`vip_cheshire_soc.sv`), and the calls
that it makes one after another.
-/

namespace Cheshire.Sim.Uart

open Lib Lib.Dialogue Sw

/-! ### The tasks of the testbench -/

def UartDebugCmdRead : Byte := 0x11
def UartDebugCmdWrite : Byte := 0x12
def UartDebugAck : Byte := 0x06
def UartDebugEot : Byte := 0x04

/-- `$fatal` in `uart_boot_scoop_expect`: what was expected, and what was received. -/
structure Fatal where
  name : String
  exp : Byte
  bite : Byte

/-- A task that talks over the UART. -/
abbrev Task := Prog Fatal

/-- `uart_write_byte`. -/
def uartWriteByte (bite : Byte) : Task Unit := .send bite (.ret ())

/-- `uart_boot_scoop`. -/
def uartBootScoop : Task Byte := .recv .ret

/-- `uart_boot_scoop_expect`. -/
def uartBootScoopExpect (name : String) (exp : Byte) : Task Unit := do
  let bite ← uartBootScoop
  if bite ≠ exp then .fail ⟨name, exp, bite⟩ else pure ()

/-- The length of a transfer; `data.size()` is an `int`. -/
def rwLen (lenOrW : U64) (data : List Byte) : U64 :=
  if lenOrW ≠ 0 then lenOrW else (BitVec.ofNat 32 data.length).signExtend 64

/-- The body of the loop over the bytes. -/
def rwTurn (lenOrW : U64) (data : List Byte) (i : ℕ) : Task (List Byte) :=
  if lenOrW ≠ 0 then do
    let bite ← uartBootScoop
    pure (data ++ [bite])
  else do
    uartWriteByte (data.getD i 0)
    pure data

/-- `uart_debug_rw`, from the queue `data` to what it holds in the end: a length of zero indicates
a write.  The loop variables are `int`s; lengths are below `2 ^ 31`. -/
def uartDebugRw (addr lenOrW : U64) (data : List Byte) : Task (List Byte) := do
  let len := rwLen lenOrW data
  uartWriteByte (if lenOrW ≠ 0 then UartDebugCmdRead else UartDebugCmdWrite)
  (List.range 8).forM fun i => uartWriteByte (addr.extractLsb' (8 * i) 8)
  (List.range 8).forM fun i => uartWriteByte (len.extractLsb' (8 * i) 8)
  uartBootScoopExpect "ACK" UartDebugAck
  let data ← (List.range len.toNat).foldlM (rwTurn lenOrW) data
  uartBootScoopExpect "EOT" UartDebugEot
  pure data

/-! ### Calls -/

/-- The arguments of a call whose length fits an `int`. -/
structure Call where
  addr : U64
  lenOrW : U64
  data : List Byte
  len_lt : lenOrW.toNat < 2 ^ 31
  size_lt : data.length < 2 ^ 31

namespace Call

/-- The number of bytes of the call. -/
def len (c : Call) : U64 := rwLen c.lenOrW c.data

/-- The memory behind the call. -/
def mem (c : Call) (m : Mem 64) : Mem 64 := if c.lenOrW ≠ 0 then m else m.write c.addr c.data

/-- The queue behind the call. -/
def result (c : Call) (m : Mem 64) : List Byte :=
  if c.lenOrW ≠ 0 then c.data ++ m.slice c.addr c.len.toNat else c.data

/-- What the host says and hears. -/
def msgs (c : Call) (m : Mem 64) : List Msg :=
  [.out (if c.lenOrW ≠ 0 then UartDebugCmdRead else UartDebugCmdWrite)] ++
    ((toLe 8 c.addr.toNat).map .out ++ ((toLe 8 c.len.toNat).map .out ++
      ([.inn UartDebugAck] ++
        ((if c.lenOrW ≠ 0 then (m.slice c.addr c.len.toNat).map .inn else c.data.map .out) ++
          [.inn UartDebugEot]))))

end Call

/-- The calls one after another, from the calls that are left and the queues of those that have
returned. -/
def session : List Call × List (List Byte) →
    Task ((List Call × List (List Byte)) ⊕ List (List Byte))
  | ([], done) => pure (.inr done)
  | (c :: calls, done) => do
    let data ← uartDebugRw c.addr c.lenOrW c.data
    pure (.inl (calls, done ++ [data]))

/-! ### What the host says and hears -/

lemma talks_uartWriteByte (b : Byte) : Talks (uartWriteByte b) [.out b] () := .send (.ret ())

lemma talks_scoop (b : Byte) : Talks uartBootScoop [.inn b] b := .recv (.ret b)

lemma talks_scoopExpect (name : String) (exp : Byte) :
    Talks (uartBootScoopExpect name exp) [.inn exp] () := by
  show Talks _ ([.inn exp] ++ []) _
  refine (talks_scoop exp).bind ?_
  rw [if_neg (not_not.mpr rfl)]
  exact .ret ()

/-- The bytes of a number, sent one after another. -/
lemma talks_uartWriteBytes (g : ℕ → Byte) : ∀ l : List ℕ,
    Talks (l.forM fun i => uartWriteByte (g i)) (l.map fun i => .out (g i)) () := by
  intro l
  induction l with
  | nil => exact .ret ()
  | cons i l ih => exact (talks_uartWriteByte (g i)).bind ih

lemma bytes_eq (x : U64) :
    (List.range 8).map (fun i => Msg.out (x.extractLsb' (8 * i) 8)) = (toLe 8 x.toNat).map .out := by
  refine List.ext_getElem (by simp) fun i h₁ h₂ => ?_
  have hpow : 256 ^ i = 2 ^ (8 * i) := by
    rw [pow_mul]
    rfl
  rw [List.getElem_map, List.getElem_map, List.getElem_range, getElem_toLe, hpow,
    ← Nat.shiftRight_eq_div_pow]
  rfl

lemma Call.toNat_len (c : Call) :
    c.len.toNat = if c.lenOrW ≠ 0 then c.lenOrW.toNat else c.data.length := by
  have hsize := c.size_lt
  have hint : ((BitVec.ofNat 32 c.data.length).signExtend 64).toNat = c.data.length := by
    have hmsb : (BitVec.ofNat 32 c.data.length).msb = false := by
      rw [BitVec.msb_eq_false_iff_two_mul_lt, BitVec.toNat_ofNat]
      omega
    rw [BitVec.signExtend_eq_setWidth_of_msb_false hmsb, BitVec.toNat_setWidth, BitVec.toNat_ofNat]
    omega
  unfold Call.len rwLen
  split
  · rfl
  · exact hint

/-- The loop of a read appends what comes in. -/
lemma talks_receive {lenOrW : U64} (h : lenOrW ≠ 0) : ∀ (bs : List Byte) (i : ℕ) (data : List Byte),
    Talks ((List.range' i bs.length).foldlM (rwTurn lenOrW) data) (bs.map .inn) (data ++ bs) := by
  intro bs
  induction bs with
  | nil =>
    intro i data
    rw [List.append_nil]
    exact .ret data
  | cons b bs ih =>
    intro i data
    have hturn : Talks (rwTurn lenOrW data i) [.inn b] (data ++ [b]) := by
      rw [rwTurn, if_pos h]
      exact .recv (.ret _)
    rw [List.append_cons]
    show Talks _ ([.inn b] ++ bs.map .inn) _
    exact hturn.bind (ih (i + 1) (data ++ [b]))

/-- The loop of a write sends what the queue holds. -/
lemma talks_transmit {lenOrW : U64} (h : ¬ lenOrW ≠ 0) (data : List Byte) : ∀ n i : ℕ,
    Talks ((List.range' i n).foldlM (rwTurn lenOrW) data)
      ((List.range' i n).map fun j => .out (data.getD j 0)) data := by
  intro n
  induction n with
  | zero =>
    intro i
    exact .ret data
  | succ n ih =>
    intro i
    have hturn : Talks (rwTurn lenOrW data i) [.out (data.getD i 0)] data := by
      rw [rwTurn, if_neg h]
      exact .send (.ret _)
    exact hturn.bind (ih (i + 1))

/-- What the loop over the bytes says and hears. -/
lemma talks_rwLoop (c : Call) (m : Mem 64) :
    Talks ((List.range c.len.toNat).foldlM (rwTurn c.lenOrW) c.data)
      (if c.lenOrW ≠ 0 then (m.slice c.addr c.len.toNat).map .inn else c.data.map .out)
      (c.result m) := by
  unfold Call.result
  rw [List.range_eq_range']
  by_cases h : c.lenOrW ≠ 0
  · rw [if_pos h, if_pos h]
    have := talks_receive h (m.slice c.addr c.len.toNat) 0 c.data
    rwa [Mem.length_slice] at this
  · have hlen := c.toNat_len
    rw [if_neg h] at hlen
    rw [if_neg h, if_neg h, hlen]
    have hmap : (List.range' 0 c.data.length).map (fun j => Msg.out (c.data.getD j 0)) =
        c.data.map .out := by
      refine List.ext_getElem (by simp) fun i h₁ h₂ => ?_
      have hi : i < c.data.length := by simpa using h₂
      simp [hi]
    rw [← hmap]
    exact talks_transmit h c.data c.data.length 0

/-- **What a call says and hears**, when the memory on the other side is `m`. -/
theorem talks_uartDebugRw (c : Call) (m : Mem 64) :
    Talks (uartDebugRw c.addr c.lenOrW c.data) (c.msgs m) (c.result m) := by
  unfold uartDebugRw Call.msgs
  rw [← bytes_eq, ← bytes_eq]
  refine (talks_uartWriteByte _).bind ?_
  refine (talks_uartWriteBytes (fun i => c.addr.extractLsb' (8 * i) 8) _).bind ?_
  refine (talks_uartWriteBytes (fun i => c.len.extractLsb' (8 * i) 8) _).bind ?_
  refine (talks_scoopExpect _ _).bind ?_
  refine (talks_rwLoop c m).bind ?_
  exact (talks_scoopExpect _ _).map fun _ => c.result m

end Cheshire.Sim.Uart
