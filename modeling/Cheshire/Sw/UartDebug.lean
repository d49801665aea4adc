import Cheshire.Lib.Dialogue
import Cheshire.Lib.Mem
import Cheshire.Sw.Base

/-!
The debug server that the boot ROM runs on a UART (`uart_debug.c`), on the byte transfers of
`dif/uart.c`.  A fence does nothing to the memory of a single core.
-/

namespace Cheshire.Sw.UartDebug

open Lib Lib.Dialogue

/-! ### Opcodes (`uart_debug_opcode_t`) -/

def kUartDebugCmdRead : Byte := 0x11
def kUartDebugCmdWrite : Byte := 0x12
def kUartDebugCmdExec : Byte := 0x13
def kUartDebugAck : Byte := 0x06
def kUartDebugEot : Byte := 0x04
def kUartDebugEoc : Byte := 0x14

/-! ### The UART -/

/-- A program of the core: it talks over the UART, and has the memory to itself. -/
abbrev CoreM := StateT (Mem 64) (Prog Empty)

/-- `uart_read`. -/
def uartRead : CoreM Byte := fun m => .recv fun b => .ret (b, m)

/-- `uart_write`. -/
def uartWrite (byte : Byte) : CoreM Unit := fun m => .send byte (.ret ((), m))

def loadByte (p : U64) : CoreM Byte := fun m => .ret (m p, m)

def storeByte (p : U64) (b : Byte) : CoreM Unit := fun m => .ret ((), m.write p [b])

/-- `uart_read_str`. -/
def uartReadStr (dst len : U64) : CoreM Unit :=
  (List.range len.toNat).forM fun i => do
    let b ← uartRead
    storeByte (dst + .ofNat 64 i) b

/-- `uart_write_str`. -/
def uartWriteStr (src len : U64) : CoreM Unit :=
  (List.range len.toNat).forM fun i => do
    let b ← loadByte (src + .ofNat 64 i)
    uartWrite b

/-- `uart_read_str` to a variable of `n` bytes. -/
def uartReadVar : ℕ → CoreM (List Byte)
  | 0 => pure []
  | n + 1 => do
    let b ← uartRead
    let bs ← uartReadVar n
    pure (b :: bs)

/-- `uart_read_str` to a `uint64_t`. -/
def uartReadU64 : CoreM U64 := do
  let bs ← uartReadVar 8
  pure (.ofNat 64 (ofLe bs))

/-! ### The server -/

section Serve

variable (invoke : U64 → CoreM U32)

/-- A turn of the loop: `none` when the command is done, and otherwise what the server returns. -/
def serveCmd : CoreM (Option U32) := do
  let cmd ← uartRead
  if cmd = kUartDebugCmdRead then
    -- READ addr64 len64 -> ACK str EOT
    let addr ← uartReadU64
    let len ← uartReadU64
    uartWrite kUartDebugAck
    uartWriteStr addr len
    uartWrite kUartDebugEot
    pure none
  else if cmd = kUartDebugCmdWrite then
    -- WRITE addr64 len64 (->ACK) str (->EOT)
    let addr ← uartReadU64
    let len ← uartReadU64
    uartWrite kUartDebugAck
    uartReadStr addr len
    uartWrite kUartDebugEot
    pure none
  else if cmd = kUartDebugCmdExec then
    -- EXEC addr64 (->ACK) execute
    let addr ← uartReadU64
    uartWrite kUartDebugAck
    let ret ← invoke addr
    uartWrite kUartDebugEoc
    (toLe 4 ret.toNat).forM uartWrite
    pure (some ret)
  else
    pure (some 1)

/-- The body of the loop, from the memory to the memory or to what the server returns. -/
def serveLoop (m : Mem 64) : Prog Empty (Mem 64 ⊕ (U32 × Mem 64)) := do
  let (ret, m') ← serveCmd invoke m
  match ret with
  | none => pure (.inl m')
  | some r => pure (.inr (r, m'))

/-- `uart_debug_serve`: an ACK, and then the loop. -/
def uartDebugServe (m : Mem 64) : Prog Empty (Mem 64 ⊕ (U32 × Mem 64)) := do
  let (_, m') ← uartWrite kUartDebugAck m
  pure (.inl m')

end Serve

/-! ### What the server says and hears -/

/-- Messages received. -/
def heard (bs : List Byte) : List Msg := bs.map .inn

/-- Messages sent. -/
def said (bs : List Byte) : List Msg := bs.map .out

lemma talks_uartRead (b : Byte) (m : Mem 64) : Talks (uartRead m) [.inn b] (b, m) := .recv (.ret _)

lemma talks_uartWrite (b : Byte) (m : Mem 64) : Talks (uartWrite b m) [.out b] ((), m) :=
  .send (.ret _)

theorem talks_uartReadVar (m : Mem 64) :
    ∀ bs : List Byte, Talks (uartReadVar bs.length m) (heard bs) (bs, m) := by
  intro bs
  induction bs with
  | nil => exact .ret _
  | cons b bs ih =>
    show Talks _ ([.inn b] ++ heard bs) _
    exact (talks_uartRead b m).bindState (ih.mapState _)

theorem talks_uartReadU64 (x : U64) (m : Mem 64) :
    Talks (uartReadU64 m) (heard (toLe 8 x.toNat)) (x, m) := by
  have h := talks_uartReadVar m (toLe 8 x.toNat)
  rw [length_toLe] at h
  have hx : BitVec.ofNat 64 (ofLe (toLe 8 x.toNat)) = x := by
    rw [ofLe_toLe_of_lt x.isLt, BitVec.ofNat_toNat, BitVec.setWidth_eq]
  have h' := h.mapState fun bs => BitVec.ofNat 64 (ofLe bs)
  rwa [hx] at h'

/-- A turn of `uart_write_str`. -/
lemma talks_load_write (p : U64) (m : Mem 64) :
    Talks ((do let b ← loadByte p; uartWrite b : CoreM Unit) m) [.out (m p)] ((), m) :=
  .send (.ret _)

/-- A turn of `uart_read_str`. -/
lemma talks_read_store (p : U64) (b : Byte) (m : Mem 64) :
    Talks ((do let b ← uartRead; storeByte p b : CoreM Unit) m) [.inn b] ((), m.write p [b]) :=
  .recv (.ret _)

/-- **What is sent is what the memory holds.** -/
theorem talks_uartWriteStr (src len : U64) (m : Mem 64) :
    Talks (uartWriteStr src len m) (said (m.slice src len.toNat)) ((), m) := by
  rw [said, Mem.slice, List.map_map]
  exact Talks.forM_range _ _ (fun _ => m) fun i _ => talks_load_write (src + .ofNat 64 i) m

/-- **What is received is stored.** -/
theorem talks_uartReadStr (dst : U64) {len : U64} {bs : List Byte} (hlen : bs.length = len.toNat)
    (m : Mem 64) : Talks (uartReadStr dst len m) (heard bs) ((), m.write dst bs) := by
  have hlt := len.isLt
  have hmap : (List.range len.toNat).map (fun i => Msg.inn (bs.getD i 0)) = heard bs := by
    refine List.ext_getElem (by simp [heard, hlen]) fun i h₁ h₂ => ?_
    have hi : i < bs.length := by simpa [heard] using h₂
    simp [heard, hi]
  have hturn : ∀ i < len.toNat, Talks
      ((do let b ← uartRead; storeByte (dst + .ofNat 64 i) b : CoreM Unit) (m.write dst (bs.take i)))
      [.inn (bs.getD i 0)] ((), m.write dst (bs.take (i + 1))) := by
    intro i hi
    have hi' : i < bs.length := by omega
    have htake : (bs.take i).length = i := List.length_take_of_le (by omega)
    have happ := Mem.write_append m dst (bs.take i) [bs[i]] (by
      rw [htake, List.length_singleton]
      omega)
    rw [htake] at happ
    rw [List.take_succ_eq_append_getElem hi', happ, List.getD_eq_getElem _ _ hi']
    exact talks_read_store _ _ _
  have h := Talks.forM_range _ _ (fun i => m.write dst (bs.take i)) hturn
  have hend : bs.take len.toNat = bs := List.take_of_length_le (by omega)
  rw [hmap, hend] at h
  exact h

/-- A turn of the loop that ends with `break`. -/
lemma talks_serveLoop {invoke : U64 → CoreM U32} {l : List Msg} {m m' : Mem 64}
    (h : Talks (serveCmd invoke m) l (none, m')) : Talks (serveLoop invoke m) l (.inl m') := by
  rw [← List.append_nil l]
  exact h.bind (.ret _)

/-- **READ** gives what the memory holds, and leaves it alone. -/
theorem talks_serve_read (invoke : U64 → CoreM U32) (addr len : U64) (m : Mem 64) :
    Talks (serveLoop invoke m) ([.inn kUartDebugCmdRead] ++ (heard (toLe 8 addr.toNat) ++
      (heard (toLe 8 len.toNat) ++ ([.out kUartDebugAck] ++ (said (m.slice addr len.toNat) ++
        [.out kUartDebugEot]))))) (.inl m) := by
  refine talks_serveLoop (Talks.bindState (talks_uartRead _ m) ?_)
  refine Talks.bindState (talks_uartReadU64 addr m) ?_
  refine Talks.bindState (talks_uartReadU64 len m) ?_
  refine Talks.bindState (talks_uartWrite _ m) ?_
  refine Talks.bindState (talks_uartWriteStr addr len m) ?_
  exact (talks_uartWrite _ m).mapState _

/-- **WRITE** stores what it is sent. -/
theorem talks_serve_write (invoke : U64 → CoreM U32) (addr : U64) {len : U64} {bs : List Byte}
    (hlen : bs.length = len.toNat) (m : Mem 64) :
    Talks (serveLoop invoke m) ([.inn kUartDebugCmdWrite] ++ (heard (toLe 8 addr.toNat) ++
      (heard (toLe 8 len.toNat) ++ ([.out kUartDebugAck] ++ (heard bs ++
        [.out kUartDebugEot]))))) (.inl (m.write addr bs)) := by
  refine talks_serveLoop (Talks.bindState (talks_uartRead _ m) ?_)
  refine Talks.bindState (talks_uartReadU64 addr m) ?_
  refine Talks.bindState (talks_uartReadU64 len m) ?_
  refine Talks.bindState (talks_uartWrite _ m) ?_
  refine Talks.bindState (talks_uartReadStr addr hlen m) ?_
  exact (talks_uartWrite _ _).mapState _

end Cheshire.Sw.UartDebug
