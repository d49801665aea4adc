import Cheshire.Lib.Parity
import Cheshire.Lib.Serial
import Cheshire.Sw.UartInit
import Mathlib.Tactic.IntervalCases

/-!
The line of the UART, from the settings of `uart_init` to the bytes that the testbench reads
(`uart_read_byte` of `vip_cheshire_soc.sv` and the process that calls it for ever).
-/

namespace Cheshire.Sim.Uart.Line

open Lib Lib.Serial Sw Sw.Uart

/-! ### The testbench -/

/-- `bite`, when `bite[i]` has been set to `f i` for every `i`. -/
def byteOf (f : ℕ → Bool) : Byte := (BitVec.ofBoolListLE ((List.range 8).map f)).setWidth 8

section Testbench

variable (UartParityEna : Bool)

/-- The levels of `uart_write_byte`. -/
def uartWriteByte (bite : Byte) : List Bool :=
  false :: ((List.range 8).map bite.getLsbD ++ (if UartParityEna then [parity bite] else []) ++
    [true])

variable (UartBaudPeriod : ℕ) (uartTx : ℕ → Bool)

/-- `uart_read_byte`, from the time `t` on: the byte, whether there is an error of its parity, and
the time behind it.  The edge may be up to `n` ticks away. -/
def uartReadByte (n t : ℕ) : Option (Byte × Bool × ℕ) := do
  let t ← negedge uartTx n t
  let t := t + UartBaudPeriod / 2
  let bite := byteOf fun i => uartTx (t + (i + 1) * UartBaudPeriod)
  let t := t + 8 * UartBaudPeriod
  if UartParityEna then
    let err := uartTx (t + UartBaudPeriod) ^^ parity bite
    return (bite, err, t + UartBaudPeriod + UartBaudPeriod)
  else return (bite, false, t + UartBaudPeriod)

/-- The bytes that the process reads from the time `t` on, `n` at most, whose frames begin up to the
time `limit`. -/
def reads (limit : ℕ) : ℕ → ℕ → List (Byte × Bool)
  | 0, _ => []
  | n + 1, t =>
    match uartReadByte UartParityEna UartBaudPeriod uartTx (limit - t) t with
    | none => []
    | some (bite, err, t) => (bite, err) :: reads limit n t

end Testbench

/-! ### A frame -/

section Frame

variable {ena : Bool} {P T : ℕ} {l : ℕ → Bool} {bite : Byte} {frames : List (ℕ × List Bool)}

/-- The number of its last level, the stop bit. -/
def stopBit (ena : Bool) : ℕ := if ena then 10 else 9

lemma length_uartWriteByte (ena : Bool) (bite : Byte) :
    (uartWriteByte ena bite).length = stopBit ena + 1 := by
  cases ena <;> rfl

lemma byteOf_congr {f : ℕ → Bool} (h : ∀ i < 8, f i = bite.getLsbD i) : byteOf f = bite := by
  refine BitVec.eq_of_getLsbD_eq fun i hi => ?_
  rw [byteOf, BitVec.getLsbD_setWidth, BitVec.getLsbD_ofBoolListLE, decide_eq_true hi,
    Bool.true_and, List.getD_eq_getElem _ _ (by simpa using hi), List.getElem_map,
    List.getElem_range]
  exact h i hi

lemma getD_data {i : ℕ} (hi : i < 8) : (uartWriteByte ena bite).getD (i + 1) true =
    bite.getLsbD i := by
  cases ena <;> interval_cases i <;> rfl

lemma getD_stopBit (ena : Bool) (bite : Byte) :
    (uartWriteByte ena bite).getD (stopBit ena) true = true := by
  cases ena <;> rfl

/-- The line from the time `t` on is idle for a while, then come the frames, and the time `limit` is
not over before they are. -/
def Waits (T : ℕ) (l : ℕ → Bool) (frames : List (ℕ × List Bool)) (limit t : ℕ) : Prop :=
  ∃ k, 0 < k ∧ t + k + duration T frames ≤ limit ∧ (∀ u < k, l (t + u) = true) ∧
    ∀ u, l (t + k + u) = line T frames u

/-- What is seen `n` periods behind the middle of the start bit. -/
lemma sample (hT : Tolerates P T (stopBit ena)) {gap s n : ℕ} (hn : n ≤ stopBit ena)
    (h : ∀ u, l (s + u) = line T ((gap, uartWriteByte ena bite) :: frames) (gap + u)) :
    l (s + P / 2 + n * P) = (uartWriteByte ena bite).getD n true := by
  obtain ⟨hslow, hfast⟩ := hT.of_le hn
  rw [Nat.add_assoc, h]
  exact line_level (by rw [length_uartWriteByte]; omega) hslow hfast

/-- Behind the middle of its stop bit the line is idle up to the next frame. -/
lemma waits_behind (hT : Tolerates P T (stopBit ena)) {gap limit s : ℕ}
    (hlimit : s + (stopBit ena + 1) * T + duration T frames ≤ limit)
    (h : ∀ u, l (s + u) = line T ((gap, uartWriteByte ena bite) :: frames) (gap + u)) :
    Waits T l frames limit (s + P / 2 + stopBit ena * P) := by
  obtain ⟨hslow, hfast⟩ := hT
  refine ⟨(stopBit ena + 1) * T - (P / 2 + stopBit ena * P), by omega, by omega, fun u hu => ?_,
    fun u => ?_⟩
  · have hstop : s + P / 2 + stopBit ena * P + u = s + (P / 2 + stopBit ena * P + u) := by omega
    rw [hstop, h, line_level (i := stopBit ena) (by rw [length_uartWriteByte]; omega) (by omega)
      (by omega)]
    exact getD_stopBit ena bite
  · have hend : s + P / 2 + stopBit ena * P +
        ((stopBit ena + 1) * T - (P / 2 + stopBit ena * P)) + u =
        s + ((stopBit ena + 1) * T + u) := by omega
    rw [hend, h, ← Nat.add_assoc, ← length_uartWriteByte ena bite]
    exact line_behind u

/-- **A byte is read** as it was sent, and behind it the line waits for the next. -/
theorem uartReadByte_frame (hT : Tolerates P T (stopBit ena)) {gap limit t : ℕ}
    (h : Waits T l ((gap, uartWriteByte ena bite) :: frames) limit t) :
    ∃ t', uartReadByte ena P l (limit - t) t = some (bite, false, t') ∧
      Waits T l frames limit t' := by
  obtain ⟨k, hk, hlimit, hidle, hline⟩ := h
  have hpos : 0 < T := by
    have hfast := hT.fast
    by_contra h0
    rw [Nat.eq_zero_of_not_pos h0] at hfast
    omega
  rw [duration, length_uartWriteByte] at hlimit
  have hs : ∀ u, l (t + k + gap + u) =
      line T ((gap, uartWriteByte ena bite) :: frames) (gap + u) := by
    intro u
    rw [Nat.add_assoc, hline]
  have hfall : negedge l (limit - t) t = some (t + k + gap) := by
    have hedge := negedge_low (l := l) (k + gap - 1) (limit - t) t
      (by have := Nat.mul_le_mul_left (stopBit ena + 1) hpos; omega) (fun u hu => ?_) ?_
    · rwa [show t + (k + gap - 1) + 1 = t + k + gap by omega] at hedge
    · rcases Nat.lt_or_ge u k with hlt | hge
      · exact hidle u hlt
      · rw [show t + u = t + k + (u - k) by omega, hline]
        exact line_idle (by omega)
    · rw [show t + (k + gap - 1) + 1 = t + k + gap + 0 by omega, hs]
      exact line_level (i := 0) (by simp [uartWriteByte]) (by omega) (by omega)
  have hbite : byteOf (fun i => l (t + k + gap + P / 2 + (i + 1) * P)) = bite := by
    refine byteOf_congr fun i hi => ?_
    rw [sample hT (by unfold stopBit; split <;> omega) hs]
    exact getD_data hi
  refine ⟨t + k + gap + P / 2 + stopBit ena * P, ?_, waits_behind hT (by omega) hs⟩
  rw [uartReadByte, hfall]
  simp only [Option.bind_eq_bind, Option.bind_some, hbite]
  cases ena with
  | false =>
    rw [if_neg Bool.false_ne_true]
    refine congrArg (fun t => some (bite, false, t)) ?_
    show t + k + gap + P / 2 + 8 * P + P = t + k + gap + P / 2 + 9 * P
    omega
  | true =>
    have hparity : l (t + k + gap + P / 2 + 8 * P + P) = parity bite := by
      rw [show t + k + gap + P / 2 + 8 * P + P = t + k + gap + P / 2 + 9 * P by omega]
      exact sample hT (by decide) hs
    rw [if_pos rfl, hparity, Bool.xor_self]
    refine congrArg (fun t => some (bite, false, t)) ?_
    show t + k + gap + P / 2 + 8 * P + P + P = t + k + gap + P / 2 + 10 * P
    omega

end Frame

/-! ### All frames -/

section Frames

variable {ena : Bool} {P T : ℕ} {l : ℕ → Bool}

/-- The frames of bytes that each follow after some idle time. -/
def framesOf (ena : Bool) (bytes : List (ℕ × Byte)) : List (ℕ × List Bool) :=
  bytes.map fun x => (x.1, uartWriteByte ena x.2)

/-- **All bytes are read** as they were sent, and nothing else is. -/
theorem reads_frames (hT : Tolerates P T (stopBit ena)) {limit : ℕ} : ∀ (bytes : List (ℕ × Byte))
    (n t : ℕ), bytes.length < n → Waits T l (framesOf ena bytes) limit t →
      reads ena P l limit n t = bytes.map fun x => (x.2, false) := by
  intro bytes
  induction bytes with
  | nil =>
    intro n t hn h
    obtain ⟨n, rfl⟩ : ∃ m, n = m + 1 := ⟨n - 1, by omega⟩
    obtain ⟨k, hk, -, hidle, hline⟩ := h
    have hhigh : ∀ u, l (t + u) = true := by
      intro u
      rcases Nat.lt_or_ge u k with hlt | hge
      · exact hidle u hlt
      · have hu := hline (u - k)
        rwa [show t + k + (u - k) = t + u by omega] at hu
    rw [reads, uartReadByte, negedge_high _ _ hhigh]
    rfl
  | cons x bytes ih =>
    intro n t hn h
    obtain ⟨n, rfl⟩ : ∃ m, n = m + 1 := ⟨n - 1, by omega⟩
    obtain ⟨t', hread, hwaits⟩ := uartReadByte_frame hT h
    rw [reads, hread, List.map_cons]
    exact congrArg _ (ih n t' (by simpa using hn) hwaits)

/-- The testbench has been listening since before the first frame. -/
lemma waits_start {limit : ℕ} {bytes : List (ℕ × Byte)} (hfirst : ∀ x ∈ bytes.head?, 0 < x.1)
    (hlimit : duration T (framesOf ena bytes) < limit) : ∃ bytes' : List (ℕ × Byte),
      bytes'.map Prod.snd = bytes.map Prod.snd ∧
        Waits T (line T (framesOf ena bytes)) (framesOf ena bytes') limit 0 := by
  cases bytes with
  | nil => exact ⟨[], rfl, 1, Nat.one_pos, hlimit, fun _ _ => rfl, fun _ => rfl⟩
  | cons x bytes =>
    obtain ⟨gap, bite⟩ := x
    have hgap : 0 < gap := hfirst (gap, bite) rfl
    obtain ⟨gap, rfl⟩ : ∃ g, gap = g + 1 := ⟨gap - 1, by omega⟩
    refine ⟨(gap, bite) :: bytes, rfl, 1, Nat.one_pos, ?_, fun u hu => line_idle (by omega),
      fun u => ?_⟩
    · simp only [framesOf, List.map_cons, duration] at hlimit ⊢
      omega
    · have hlt : 0 + 1 + u < gap + 1 ↔ u < gap := by omega
      have hsub : 0 + 1 + u - (gap + 1) = u - gap := by omega
      simp only [framesOf, List.map_cons, line, hlt, hsub]

end Frames

/-! ### From the settings to the bytes -/

section Settings

variable {σ : Type}

/-- What the documentation of a 16550 promises: where stores go, and what it sends with eight bits,
no parity and one stop bit, each level lasting 16 cycles for each unit of the divisor. -/
structure Is16550 (u : Transmitter σ) (regs : σ → Regs) : Prop where
  store : ∀ offs v s, regs (u.store offs v s) = (regs s).store offs v
  line : ∀ s C bytes, (regs s).Is8N1 →
    u.line s C bytes = line (16 * (regs s).divisor * C) (framesOf false bytes)

/-- The clocks, when a second has `S` ticks and a cycle of the core `C`: the software knows the
frequency to one part in a hundred, the testbench rounds its period `P` to whole ticks, and the
divisor is not too small to be rounded and fits its registers. -/
structure Timing (freq baud C P S : ℕ) : Prop where
  cycle_pos : 0 < C
  baud_pos : 0 < baud
  known : 99 * S ≤ 100 * (freq * C) ∧ 100 * (freq * C) ≤ 101 * S
  rounded : 2 * S ≤ 2 * (P * baud) + baud ∧ 2 * (P * baud) ≤ 2 * S + baud
  large : 27 * (16 * baud) ≤ freq
  fits : freq < 2 ^ 16 * (16 * baud)

variable {u : Transmitter σ} {regs : σ → Regs} {C P S : ℕ}

/-- **The divisor is good enough.** -/
lemma Timing.tolerates {freq baud : ℕ} (h : Timing freq baud C P S) :
    Tolerates P (16 * (freq / (16 * baud)) * C) 9 := by
  obtain ⟨hC, hbaud, ⟨hknown, hknown'⟩, ⟨hround, hround'⟩, hlarge, -⟩ := h
  obtain ⟨d, hd⟩ : ∃ d, d = freq / (16 * baud) := ⟨_, rfl⟩
  have hdiv : 16 * baud * d ≤ freq := hd ▸ Nat.mul_div_le freq (16 * baud)
  have hmod : freq < 16 * baud * (d + 1) := hd ▸ Nat.lt_mul_div_succ freq (by omega)
  rw [← hd]
  -- everything in ticks, for one bit and `baud` times
  have hle : 16 * d * C * baud ≤ freq * C := by
    calc 16 * d * C * baud = 16 * baud * d * C := by ring
      _ ≤ freq * C := Nat.mul_le_mul_right C hdiv
  have hlt : freq * C < 16 * d * C * baud + 16 * (C * baud) := by
    calc freq * C < 16 * baud * (d + 1) * C := Nat.mul_lt_mul_of_pos_right hmod hC
      _ = 16 * d * C * baud + 16 * (C * baud) := by ring
  have hmany : 27 * (16 * (C * baud)) ≤ freq * C := by
    calc 27 * (16 * (C * baud)) = 27 * (16 * baud) * C := by ring
      _ ≤ freq * C := Nat.mul_le_mul_right C hlarge
  have hcycle : baud ≤ C * baud := Nat.le_mul_of_pos_left baud hC
  have hslow : (18 * (16 * d * C) + 1) * baud ≤ 19 * P * baud := by
    have h₁ : (18 * (16 * d * C) + 1) * baud = 18 * (16 * d * C * baud) + baud := by ring
    have h₂ : 19 * P * baud = 19 * (P * baud) := by ring
    omega
  have hfast : 19 * P * baud < 20 * (16 * d * C) * baud := by
    have h₁ : 20 * (16 * d * C) * baud = 20 * (16 * d * C * baud) := by ring
    have h₂ : 19 * P * baud = 19 * (P * baud) := by ring
    omega
  have hslow' := Nat.le_of_mul_le_mul_right hslow hbaud
  have hfast' := Nat.lt_of_mul_lt_mul_right hfast
  constructor <;> omega

/-- What a UART with the right divisor sends is read. -/
lemma reads_line (hu : Is16550 u regs) {s : σ} (h8N1 : (regs s).Is8N1)
    (hT : Tolerates P (16 * (regs s).divisor * C) 9) {bytes : List (ℕ × Byte)}
    (hfirst : ∀ x ∈ bytes.head?, 0 < x.1) {limit n : ℕ}
    (hlimit : duration (16 * (regs s).divisor * C) (framesOf false bytes) < limit)
    (hn : bytes.length < n) :
    reads false P (u.line s C bytes) limit n 0 = bytes.map fun x => (x.2, false) := by
  obtain ⟨bytes', hsnd, hwaits⟩ := waits_start hfirst hlimit
  have hlen : bytes'.length = bytes.length := by simpa using congrArg List.length hsnd
  have hread : reads false P _ limit n 0 = _ := reads_frames hT bytes' n 0 (by omega) hwaits
  have hmap : (fun x : ℕ × Byte => (x.2, false)) = (fun b => (b, false)) ∘ Prod.snd := rfl
  rw [hu.line s C bytes h8N1, hread, hmap, ← List.map_map, ← List.map_map, hsnd]

/-- **The testbench reads what the software writes**, whatever the settings of the UART were before
`uart_init`, and however long the UART waits between the bytes. -/
theorem uartInit_reads (hu : Is16550 u regs) {freq baud : U64}
    (htime : Timing freq.toNat baud.toNat C P S) (s : σ) (bytes : List (ℕ × Byte))
    (hfirst : ∀ x ∈ bytes.head?, 0 < x.1) : ∃ bound, ∀ limit ≥ bound, ∀ n ≥ bound,
      reads false P (u.line (uartInit u.store freq baud s) C bytes) limit n 0 =
        bytes.map fun x => (x.2, false) := by
  have hregs : regs (uartInit u.store freq baud s) = uartInit Regs.store freq baud (regs s) := by
    simp only [uartInit, hu.store]
  have hdivisor : (uartInit Regs.store freq baud (regs s)).divisor =
      freq.toNat / (16 * baud.toNat) := by
    have hlt := freq.isLt
    have hlarge := htime.large
    have hpos : 0 < 16 * baud.toNat := Nat.mul_pos (by decide) htime.baud_pos
    exact divisor_uartInit (by omega) ((Nat.div_lt_iff_lt_mul hpos).mpr htime.fits) (regs s)
  have h8N1 : (regs (uartInit u.store freq baud s)).Is8N1 := by
    rw [hregs]
    exact is8N1_uartInit freq baud (regs s)
  have hT := htime.tolerates
  rw [← hdivisor, ← hregs] at hT
  refine ⟨duration (16 * (regs (uartInit u.store freq baud s)).divisor * C)
    (framesOf false bytes) + bytes.length + 1, fun limit hlimit n hn => ?_⟩
  exact reads_line hu h8N1 hT hfirst (by omega) (by omega)

end Settings

/-- A UART that is its registers. -/
def bareUart : Transmitter Regs where
  store := Regs.store
  line r C bytes := line (16 * r.divisor * C) (framesOf false bytes)

/-- The clocks of the simulation, in nanoseconds. -/
lemma timing_sim : Timing (200000000 : U64).toNat bootBaudrate.toNat 5 8681 1000000000 :=
  ⟨by decide, by decide, by decide, by decide, by decide, by decide⟩

theorem uartInit_reads_sim : ∃ bound, ∀ limit ≥ bound, ∀ n ≥ bound,
    reads false 8681 (bareUart.line
      (uartInit bareUart.store 200000000 bootBaudrate ⟨0, 0, 0, 0, 0, 0⟩) 5 [(1, 0x06), (0, 0x14)])
      limit n 0 = [(0x06, false), (0x14, false)] :=
  uartInit_reads ⟨fun _ _ _ => rfl, fun _ _ _ _ => rfl⟩ timing_sim _ [(1, 0x06), (0, 0x14)]
    (by decide)

end Cheshire.Sim.Uart.Line
