import Cheshire.Sw.Base
import Mathlib.Data.Stream.Init

/-!
The CLINT driver: a timer of 64 bits that runs while its two halves are loaded one after the
other, a compare register for each timer that is stored half by half, and the busy and sleeping
waits and the frequency measurement on top of them.

The environment of a run is what the timer and the cycle counter hold at each access to come.
-/

namespace Cheshire.Sw.Clint

open Lib

/-- What a run sees of the CLINT and of its own core. -/
structure St where
  /-- `mtime` as of the last access to it. -/
  now : U64
  /-- `mtime` at each of the loads of one of its halves that are to come. -/
  loads : Stream' U64
  /-- `mcycle` at each of the reads of it that are to come. -/
  mcycle : Stream' U64
  /-- The compare registers, word by word, by their offset from `__base_clint`. -/
  regs : CInt → U32
  mie : U64
  mstatus : U64

/-- How a run may stop other than by returning. -/
inductive Stop
  | divByZero
  /-- A loop went around as often as the model lets it. -/
  | outOfFuel
  /-- `wfi` has nothing to wake up to. -/
  | asleep
  deriving DecidableEq

abbrev CM := EStateM Stop St

/-- The half of `mtime` that is loaded first: C leaves the order of the operands of `|` open. -/
inductive Half
  | high
  | low
  deriving DecidableEq

/-! ### The timer -/

/-- The upper word of a 64-bit value. -/
def hi (x : U64) : U32 := (x >>> 32).setWidth 32

/-- The lower word of a 64-bit value. -/
def lo (x : U64) : U32 := x.setWidth 32

/-- The value of two words, as `clint_get_mtime` puts them together. -/
def join (h l : U32) : U64 := (h.setWidth 64 <<< 32) ||| l.setWidth 64

/-- A load of `mtime`, of which the caller keeps one half. -/
def loadMtime : CM U64 := do
  let s ← get
  set { s with now := s.loads.head, loads := s.loads.tail }
  return s.loads.head

/-- The load at `CLINT_MTIME_HIGH_REG_OFFSET`. -/
def loadMtimeHigh : CM U32 := do return hi (← loadMtime)

/-- The load at `CLINT_MTIME_LOW_REG_OFFSET`. -/
def loadMtimeLow : CM U32 := do return lo (← loadMtime)

def clintGetMtime : Half → CM U64
  | .high => do
    let high ← loadMtimeHigh
    let low ← loadMtimeLow
    return join high low
  | .low => do
    let low ← loadMtimeLow
    let high ← loadMtimeHigh
    return join high low

def getMcycle : CM U64 := do
  let s ← get
  set { s with mcycle := s.mcycle.tail }
  return s.mcycle.head

variable (first : Half)

def clintSpinUntil : ℕ → U64 → CM Unit
  | 0, _ => throw .outOfFuel
  | fuel + 1, tgtMtime => do
    if (← clintGetMtime first) < tgtMtime then clintSpinUntil fuel tgtMtime else pure ()

def clintSpinTicks (fuel : ℕ) (ticks : U64) : CM Unit := do
  clintSpinUntil first fuel ((← clintGetMtime first) + ticks)

/-! ### The core frequency -/

/-- A division of C. -/
def cDiv (a b : U64) : CM U64 := if b = 0 then throw .divByZero else pure (a / b)

/-- A loop of `clint_get_core_freq`: capture the times for as long as the timer asks to go on. -/
def captureWhile (again : U64 → Prop) [DecidablePred again] : ℕ → CM (U64 × U64)
  | 0 => throw .outOfFuel
  | fuel + 1 => do
    let mcycle ← getMcycle
    let mtime ← clintGetMtime first
    if again mtime then captureWhile again fuel else return (mcycle, mtime)

/-- Capture start times until we observe an RTC tick rollover. -/
def captureStart (fuel : ℕ) (endMtime : U64) : CM (U64 × U64) :=
  captureWhile first (· = endMtime) fuel

/-- Capture end times until we observe rollover to the past-the-end RTC tick. -/
def captureEnd (fuel : ℕ) (pastEnd : U64) : CM (U64 × U64) :=
  captureWhile first (· < pastEnd) fuel

/-- The times the two loops capture. -/
structure Captured where
  startMcycle : U64
  startMtime : U64
  endMcycle : U64
  endMtime : U64

/-- `clint_get_core_freq` up to the end of its second loop. -/
def captureTimes (fuel : ℕ) (refFreq refTimeInv : U64) : CM Captured := do
  let numTicks ← cDiv refFreq refTimeInv
  let endMtime ← clintGetMtime first
  let (startMcycle, startMtime) ← captureStart first fuel endMtime
  let (endMcycle, endMtime) ← captureEnd first fuel (startMtime + numTicks)
  return { startMcycle, startMtime, endMcycle, endMtime }

def clintGetCoreFreq (fuel : ℕ) (refFreq refTimeInv : U64) : CM U64 := do
  let t ← captureTimes first fuel refFreq refTimeInv
  cDiv ((t.endMcycle - t.startMcycle) * refFreq) (t.endMtime - t.startMtime)

/-! ### The compare registers -/

def CLINT_MTIMECMP_LOW0_REG_OFFSET : U64 := 0x4000

def CLINT_MTIMECMP_HIGH0_REG_OFFSET : U64 := 0x4004

/-- The offset of the upper word of a timer's compare register; `reg32` takes an `int`. -/
def mtimecmpHigh (timerIdx : U64) : CInt :=
  (CLINT_MTIMECMP_HIGH0_REG_OFFSET + timerIdx <<< 3).setWidth 32

/-- The offset of the lower word. -/
def mtimecmpLow (timerIdx : U64) : CInt :=
  (CLINT_MTIMECMP_LOW0_REG_OFFSET + timerIdx <<< 3).setWidth 32

/-- The stores of `clint_set_mtimecmpx`, in their order. -/
def mtimecmpStores (timerIdx value : U64) : List (CInt × U32) :=
  [(mtimecmpHigh timerIdx, hi value), (mtimecmpLow timerIdx, lo value)]

/-- The words of the CLINT behind a store. -/
def storeReg32 (regs : CInt → U32) (store : CInt × U32) : CInt → U32 :=
  Function.update regs store.1 store.2

def clintSetMtimecmpx (timerIdx value : U64) : CM Unit :=
  modify fun s => { s with regs := (mtimecmpStores timerIdx value).foldl storeReg32 s.regs }

/-- The compare register of a timer, as the CLINT compares it with `mtime`. -/
def mtimecmp (timerIdx : U64) (regs : CInt → U32) : U64 :=
  join (regs (mtimecmpHigh timerIdx)) (regs (mtimecmpLow timerIdx))

/-! ### Sleeping -/

/-- Sets or clears the bits of `mask`, as `csrs` and `csrc` do. -/
def csrBits (enable : Bool) (csr mask : U64) : U64 :=
  if enable then csr ||| mask else csr &&& ~~~ mask

def setMtie (enable : Bool) : CM Unit := modify fun s => { s with mie := csrBits enable s.mie 128 }

def setMie (enable : Bool) : CM Unit :=
  modify fun s => { s with mstatus := csrBits enable s.mstatus 8 }

/-- `wfi`, on a machine that says when it wakes up, if ever. -/
def waitForInterrupt (wfi : St → Option St) : CM Unit := do
  match wfi (← get) with
  | some s => set s
  | none => throw .asleep

variable (wfi : St → Option St)

def clintSleepUntil (timerIdx tgtMtime : U64) : CM Unit := do
  if (← clintGetMtime first) < tgtMtime then return
  clintSetMtimecmpx timerIdx tgtMtime
  -- The `fence` here orders the stores; they are in order already.
  setMtie true
  setMie true
  waitForInterrupt wfi

def clintSleepTicks (timerIdx ticks : U64) : CM Unit := do
  clintSleepUntil first wfi timerIdx ((← clintGetMtime first) + ticks)

/-! ### Words and halves -/

lemma toNat_hi (x : U64) : (hi x).toNat = x.toNat / 2 ^ 32 := by
  have h : x.toNat < 2 ^ 64 := x.isLt
  simp only [hi, BitVec.toNat_setWidth, BitVec.toNat_ushiftRight, Nat.shiftRight_eq_div_pow]
  omega

lemma toNat_lo (x : U64) : (lo x).toNat = x.toNat % 2 ^ 32 := by
  simp [lo]

lemma toNat_join (h l : U32) : (join h l).toNat = h.toNat * 2 ^ 32 + l.toNat := by
  have hh : h.toNat < 2 ^ 32 := h.isLt
  have hl : l.toNat < 2 ^ 32 := l.isLt
  have hor : h.toNat <<< 32 ||| l.toNat = h.toNat * 2 ^ 32 + l.toNat := by
    rw [← Nat.shiftLeft_add_eq_or_of_lt hl, Nat.shiftLeft_eq]
  simp only [join, BitVec.toNat_or, BitVec.toNat_shiftLeft, BitVec.toNat_setWidth]
  rw [Nat.mod_eq_of_lt (by omega : h.toNat < 2 ^ 64), Nat.mod_eq_of_lt (by omega : l.toNat < 2 ^ 64),
    Nat.mod_eq_of_lt (by rw [Nat.shiftLeft_eq]; omega), hor]

@[simp] lemma join_hi_lo (x : U64) : join (hi x) (lo x) = x := by
  apply BitVec.eq_of_toNat_eq
  rw [toNat_join, toNat_hi, toNat_lo]
  omega

lemma mtimecmpLow_ne_high (timerIdx : U64) : mtimecmpLow timerIdx ≠ mtimecmpHigh timerIdx := by
  unfold mtimecmpLow mtimecmpHigh CLINT_MTIMECMP_LOW0_REG_OFFSET CLINT_MTIMECMP_HIGH0_REG_OFFSET
  rw [BitVec.setWidth_add _ _ (by decide), BitVec.setWidth_add _ _ (by decide)]
  simp

/-- A state with all registers clear and a timer that stands still. -/
def St.clear : St :=
  { now := 0, loads := fun _ => 0, mcycle := fun _ => 0, regs := fun _ => 0, mie := 0, mstatus := 0 }

/-! ### What the reads do -/

/-- What `clint_get_mtime` makes of the values of `mtime` at its two loads. -/
def tornRead : Half → U64 → U64 → U64
  | .high, t, t' => join (hi t) (lo t')
  | .low, t, t' => join (hi t') (lo t)

/-- What the `k`-th of the calls of `clint_get_mtime` to come returns. -/
def reading (l : Stream' U64) (k : ℕ) : U64 := tornRead first (l.get (2 * k)) (l.get (2 * k + 1))

lemma reading_drop (l : Stream' U64) (k n : ℕ) :
    reading first (l.drop (2 * n)) k = reading first l (k + n) := by
  simp only [reading, Stream'.get_drop]
  congr 2 <;> ring

/-- The state behind a call of `clint_get_mtime`. -/
def St.behindRead (s : St) : St := { s with now := s.loads.get 1, loads := s.loads.drop 2 }

lemma run_clintGetMtime (s : St) :
    (clintGetMtime first).run s = .ok (reading first s.loads 0) s.behindRead := by
  cases first <;> rfl

section Rules

variable {β : Type} {f : U64 → CM β} {s : St} {Q : β → St → Prop} {E : Stop → St → Prop}

lemma ends_clintGetMtime_bind :
    Ends (clintGetMtime first >>= f) s Q E ↔
      Ends (f (reading first s.loads 0)) s.behindRead Q E := by
  rw [ends_bind]
  unfold Ends
  rw [run_clintGetMtime]

lemma leaves_clintGetMtime_bind :
    Leaves (clintGetMtime first >>= f) s Q ↔
      Leaves (f (reading first s.loads 0)) s.behindRead Q := by
  rw [leaves_iff_ends, leaves_iff_ends, ends_clintGetMtime_bind]

lemma ends_getMcycle_bind :
    Ends (getMcycle >>= f) s Q E ↔
      Ends (f (s.mcycle.get 0)) { s with mcycle := s.mcycle.tail } Q E := by
  rw [ends_bind]
  exact Iff.rfl

end Rules

end Cheshire.Sw.Clint
