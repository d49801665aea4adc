import Cheshire.Sw.Base
import Mathlib.Logic.Relation

/-!
An I2C host with a 24FC1025 on its bus.  The host works off its format FIFO one entry, and of a
read request one byte, at a time; `outcome` is what it will have done when the FIFO is empty, and
no step changes it.
-/

namespace Cheshire.Sw.I2c

open Relation

/-- The kinds of entries of the format FIFO (`dif_i2c_fmt_t`) that the driver uses. -/
inductive Fmt where
  | start
  | tx
  | txStop
  | rx
  deriving DecidableEq

/-- What the EEPROM expects next. -/
inductive Phase where
  | idle | addrHigh | addrLow | write | read
  deriving DecidableEq

/-- The EEPROM: two blocks of 64 KiB, and the address pointer into them. -/
structure Eeprom where
  mem : Bool → BitVec 16 → Byte
  block : Bool
  ptr : BitVec 16
  phase : Phase

namespace Eeprom

/-- A start condition with its control byte: device code `1010`, block select, two chip selects,
which are both tied to zero, and the direction. -/
def start (e : Eeprom) (c : Byte) : Eeprom :=
  if c &&& 0xF6 = 0xA0 then
    { e with block := c.getLsbD 3, phase := if c.getLsbD 0 then .read else .addrHigh }
  else { e with phase := .idle }

/-- A byte sent to the device: an address byte or data. -/
def send (e : Eeprom) (b : Byte) : Eeprom :=
  match e.phase with
  | .addrHigh => { e with ptr := b ++ e.ptr.setWidth 8, phase := .addrLow }
  | .addrLow => { e with ptr := (e.ptr >>> 8).setWidth 8 ++ b, phase := .write }
  | .write =>
    { e with
      mem := fun k a => if k = e.block ∧ a = e.ptr then b else e.mem k a
      ptr := e.ptr + 1 }
  | .idle | .read => e

/-- A stop condition. -/
def stop (e : Eeprom) : Eeprom := { e with phase := .idle }

/-- A byte fetched from the device; nobody drives the bus unless it is selected for reading. -/
def fetch (e : Eeprom) : Byte × Eeprom :=
  match e.phase with
  | .read => (e.mem e.block e.ptr, { e with ptr := e.ptr + 1 })
  | _ => (0xFF, e)

/-- `n` bytes fetched one after another. -/
def fetches (e : Eeprom) : ℕ → List Byte × Eeprom
  | 0 => ([], e)
  | n + 1 => (e.fetch.1 :: (e.fetch.2.fetches n).1, (e.fetch.2.fetches n).2)

end Eeprom

/-- The state of the host and of the device behind it. -/
structure Host where
  enabled : Bool
  fmt : List (Byte × Fmt)
  rx : List Byte
  dev : Eeprom

/-- One step of the host; a read request for `0` bytes stands for 256. -/
inductive Step : Host → Host → Prop
  | start {c f rx e} : Step ⟨true, (c, .start) :: f, rx, e⟩ ⟨true, f, rx, e.start c⟩
  | tx {b f rx e} : Step ⟨true, (b, .tx) :: f, rx, e⟩ ⟨true, f, rx, e.send b⟩
  | txStop {b f rx e} : Step ⟨true, (b, .txStop) :: f, rx, e⟩ ⟨true, f, rx, (e.send b).stop⟩
  | rx {n f rx e} : Step ⟨true, (n, .rx) :: f, rx, e⟩
      ⟨true, if n = 1 then f else (n - 1, .rx) :: f, rx ++ [e.fetch.1], e.fetch.2⟩

/-- Any number of steps. -/
abbrev Run : Host → Host → Prop := ReflTransGen Step

/-- The number of bytes of a read request. -/
def rxCount (n : Byte) : ℕ := if n = 0 then 256 else n.toNat

/-- What carrying out one entry does to the received bytes and the device. -/
def exec (s : List Byte × Eeprom) : Byte × Fmt → List Byte × Eeprom
  | (c, .start) => (s.1, s.2.start c)
  | (b, .tx) => (s.1, s.2.send b)
  | (b, .txStop) => (s.1, (s.2.send b).stop)
  | (n, .rx) => (s.1 ++ (s.2.fetches (rxCount n)).1, (s.2.fetches (rxCount n)).2)

/-- The received bytes and the device when the format FIFO has been worked off. -/
def Host.outcome (h : Host) : List Byte × Eeprom := h.fmt.foldl exec (h.rx, h.dev)

/-! ### Steps -/

lemma rxCount_one : rxCount 1 = 1 := rfl

lemma rxCount_pred {n : Byte} (h : n ≠ 1) : rxCount n = rxCount (n - 1) + 1 := by
  unfold rxCount
  by_cases h0 : n = 0
  · subst h0
    decide
  · have hn : n - 1 ≠ 0 := fun hn => h (by bv_omega)
    rw [if_neg h0, if_neg hn]
    have := n.isLt
    have hne : n.toNat ≠ 0 := fun h => h0 (BitVec.eq_of_toNat_eq h)
    bv_omega

/-- Bytes received before stay in front. -/
theorem exec_append (bs rx : List Byte) (e : Eeprom) (x : Byte × Fmt) :
    exec (bs ++ rx, e) x = (bs ++ (exec (rx, e) x).1, (exec (rx, e) x).2) := by
  obtain ⟨b, f⟩ := x
  cases f <;> simp [exec]

theorem foldl_exec_append (f : List (Byte × Fmt)) :
    ∀ (bs rx : List Byte) (e : Eeprom), f.foldl exec (bs ++ rx, e) =
      (bs ++ (f.foldl exec (rx, e)).1, (f.foldl exec (rx, e)).2) := by
  induction f with
  | nil =>
    intro bs rx e
    rfl
  | cons x f ih =>
    intro bs rx e
    rw [List.foldl_cons, List.foldl_cons, exec_append]
    exact ih bs _ _

/-- The bytes that are there are the first that will have been received. -/
theorem Host.outcome_eq (h : Host) : h.outcome =
    (h.rx ++ (h.fmt.foldl exec ([], h.dev)).1, (h.fmt.foldl exec ([], h.dev)).2) := by
  have := foldl_exec_append h.fmt h.rx [] h.dev
  rwa [List.append_nil] at this

/-- **No step changes the outcome.** -/
theorem Step.outcome_eq {h h' : Host} (hs : Step h h') : h'.outcome = h.outcome := by
  cases hs with
  | start => rfl
  | tx => rfl
  | txStop => rfl
  | @rx n f rx e =>
    by_cases hn : n = 1
    · subst hn
      rfl
    · simp only [Host.outcome, hn, if_false, List.foldl_cons, exec, rxCount_pred hn,
        Eeprom.fetches, List.append_assoc, List.singleton_append]

theorem Step.enabled_eq {h h' : Host} (hs : Step h h') :
    h.enabled = true ∧ h'.enabled = true ∧ h.fmt ≠ [] := by
  cases hs <;> exact ⟨rfl, rfl, List.cons_ne_nil _ _⟩

theorem Step.rx_prefix {h h' : Host} (hs : Step h h') : h.rx <+: h'.rx := by
  cases hs with
  | start => exact List.prefix_refl _
  | tx => exact List.prefix_refl _
  | txStop => exact List.prefix_refl _
  | rx => exact List.prefix_append _ _

/-! ### Runs -/

theorem Run.outcome_eq {h h' : Host} (hr : Run h h') : h'.outcome = h.outcome := by
  induction hr with
  | refl => rfl
  | tail _ hs ih => rw [hs.outcome_eq, ih]

theorem Run.enabled_eq {h h' : Host} (hr : Run h h') : h'.enabled = h.enabled := by
  induction hr with
  | refl => rfl
  | tail _ hs ih => rw [hs.enabled_eq.2.1, ← ih, hs.enabled_eq.1]

theorem Run.rx_prefix {h h' : Host} (hr : Run h h') : h.rx <+: h'.rx := by
  induction hr with
  | refl => exact List.prefix_refl _
  | tail _ hs ih => exact ih.trans hs.rx_prefix

/-- A host that is disabled, or has nothing to do, rests. -/
theorem Run.eq_of_rest {h h' : Host} (hr : Run h h') (h0 : h.enabled = false ∨ h.fmt = []) :
    h' = h := by
  rcases ReflTransGen.cases_head hr with heq | ⟨h₁, hs, -⟩
  · exact heq.symm
  · obtain ⟨he, -, hf⟩ := hs.enabled_eq
    rcases h0 with h0 | h0
    · rw [he] at h0
      cases h0
    · exact absurd h0 hf

/-! ### Sequential reads -/

/-- Fetching from a device in the middle of a read gives the bytes from its pointer on. -/
theorem Eeprom.fetches_eq (n : ℕ) : ∀ e : Eeprom, e.phase = .read → e.fetches n =
    (Lib.Mem.slice (e.mem e.block) e.ptr n, { e with ptr := e.ptr + BitVec.ofNat 16 n }) := by
  induction n with
  | zero =>
    intro e he
    simp [Eeprom.fetches]
  | succ n ih =>
    intro e he
    have hf : e.fetch = (e.mem e.block e.ptr, { e with ptr := e.ptr + 1 }) := by
      simp [Eeprom.fetch, he]
    have hptr : e.ptr + 1 + BitVec.ofNat 16 n = e.ptr + BitVec.ofNat 16 (n + 1) := by
      rw [BitVec.add_assoc, Nat.add_comm n 1, BitVec.ofNat_add]
      rfl
    have hrec := ih { e with ptr := e.ptr + 1 } he
    rw [Eeprom.fetches, hf, hrec, Lib.Mem.slice_succ, hptr]

end Cheshire.Sw.I2c
