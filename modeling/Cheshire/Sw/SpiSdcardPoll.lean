import Cheshire.Sw.SpiSdcardExit

/-!
The bounded polls of the driver.  A poll decides from its counter alone whether it is late, so that
an answer in the last byte it takes is lost.
-/

namespace Cheshire.Sw.SpiSdcard

open Lib

/-- The polls of the driver: for a response, for the end of a busy card, and for a token. -/
inductive Poll where
  | response | busy | token

/-- The code of a poll that is late. -/
def Poll.err : Poll → CInt
  | .response => 0x12
  | .busy => 0x13
  | .token => 0x19

/-- A byte that is polled again. -/
def Poll.notReady : Poll → Byte → Bool
  | .response => fun x => x &&& 0x80 != 0
  | .busy => fun x => x == 0
  | .token => fun x => x == 0xFF

/-- How many bytes are polled: `__spi_sdcard_r1b_timeout` and `__spi_sdcard_data_timeout` are
10000. -/
def Poll.bound : Poll → ℕ
  | .response => 8
  | .busy => 10000
  | .token => 10000

section Polls

variable {σ : Type} {depth : ℕ+} {dif : Dif σ} {handle : Handle} {wires : σ → Wires}

/-- The loop of a poll. -/
def Poll.run (dif : Dif σ) (handle : Handle) (p : Poll) : CM (St σ) Byte :=
  poll dif handle p.err p.notReady p.bound

/-- The polls of a command. -/
theorem cmd_polls (c : U64) (resp : Resp) (csaat : Bool) : cmd dif handle c resp csaat = (do
    let _ ← xferCsaat dif handle false (some (toLe 8 c.toNat)) 6
    if c &&& 0xFF = 0x4C then
      let _ ← xferByte dif handle
    let r ← Poll.response.run dif handle
    let rest ←
      if resp = .r1b then do
        let _ ← Poll.busy.run dif handle
        pure []
      else if respLen resp - 1 ≠ 0 then xferCsaat dif handle true none (respLen resp - 1)
      else pure []
    if csaat then pure () else csfree dif handle
    pure (r :: rest)) := rfl

/-- The poll of a block. -/
theorem readBlock_polls (depth : ℕ+) (buf len blockSwap firstOffs lastLen : U64) (checkCrc : Bool)
    (b : U64) : ∃ rest : Byte → CM (St σ) Unit,
      readBlock dif handle depth buf len blockSwap firstOffs lastLen checkCrc b =
        Poll.token.run dif handle >>= rest := ⟨_, rfl⟩

/-- A poll fails with its code exactly when all of its bytes are not ready, and otherwise gives the
first byte that is. -/
def PollOk (dif : Dif σ) (handle : Handle) (wires : σ → Wires) (p : Poll) (s : St σ) : Prop :=
  Ends (p.run dif handle) s
    (fun x s' => Answers p.notReady (p.bound + 1) (wires s.dev).miso x (wires s'.dev).miso)
    fun e _ => e = p.err ∧ ∀ y ∈ (wires s.dev).miso.take p.bound, p.notReady y = true

/-- The first byte that is ready is the last one that is polled. -/
def LateReady (p : Poll) (u : Stream' Byte) : Prop :=
  (∀ y ∈ u.take (p.bound - 1), p.notReady y = true) ∧ p.notReady (u.get (p.bound - 1)) = false

/-- Where no answer comes in time, all bytes but the last are polled again. -/
lemma forall_not_answers_iff {again : Byte → Bool} : ∀ {n : ℕ} {u : Stream' Byte},
    (∀ x t, ¬ Answers again (n + 1) u x t) ↔ ∀ y ∈ u.take n, again y = true := by
  intro n
  induction n with
  | zero =>
    intro u
    refine iff_of_true (fun x t h => (answers_succ.mp h).1 rfl) ?_
    intro y hy
    rw [Stream'.take_zero] at hy
    exact absurd hy List.not_mem_nil
  | succ n ih =>
    intro u
    rw [Stream'.take_succ, List.forall_mem_cons, ← ih]
    constructor
    · intro h
      have hhead : again u.head = true := by
        by_contra hready
        refine h u.head u.tail (answers_succ.mpr ⟨Nat.succ_ne_zero n, ?_⟩)
        rw [if_neg hready]
        exact ⟨rfl, rfl⟩
      refine ⟨hhead, fun x t hans => h x t (answers_succ.mpr ⟨Nat.succ_ne_zero n, ?_⟩)⟩
      rwa [if_pos hhead]
    · rintro ⟨hhead, h⟩ x t hans
      have hrest := (answers_succ.mp hans).2
      rw [if_pos hhead] at hrest
      exact h x t hrest

lemma Answers.mono {again : Byte → Bool} {n k : ℕ} {u t : Stream' Byte} {x : Byte} (hnk : n ≤ k)
    (h : Answers again n u x t) : Answers again k u x t := by
  obtain ⟨fill, hlen, hfill, hx, hu⟩ := h
  exact ⟨fill, by omega, hfill, hx, hu⟩

lemma bound_pos (p : Poll) : 0 < p.bound := by
  cases p <;> decide

/-- **A poll does what it should exactly when the last of its bytes is not the first ready one.** -/
theorem pollOk_iff (hh : HostOk depth dif wires) (p : Poll) (s : St σ) :
    PollOk dif handle wires p s ↔ ¬ LateReady p (wires s.dev).miso := by
  obtain ⟨n, hn⟩ : ∃ n, p.bound = n + 1 := ⟨p.bound - 1, by have := bound_pos p; omega⟩
  have hends := @ends_poll σ depth dif handle wires hh p.err p.notReady p.bound s
  rw [PollOk, LateReady, hn, Nat.add_sub_cancel]
  rw [hn] at hends
  unfold Ends Poll.run at *
  rw [hn]
  split at hends
  · -- an answer in time
    obtain ⟨-, -, hans⟩ := hends
    refine iff_of_true (hans.mono (Nat.le_succ _)) fun ⟨hall, _⟩ => ?_
    exact forall_not_answers_iff.mpr hall _ _ hans
  · -- no answer before the last byte
    obtain ⟨rfl, -, hnone⟩ := hends
    have hall := forall_not_answers_iff.mp hnone
    constructor
    · rintro ⟨-, h⟩ ⟨-, hlast⟩
      have hmem : (wires s.dev).miso.get n ∈ (wires s.dev).miso.take (n + 1) := by
        rw [Stream'.take_succ']
        exact List.mem_append_right _ (List.mem_singleton_self _)
      rw [h _ hmem] at hlast
      cases hlast
    · intro hlate
      refine ⟨rfl, fun y hy => ?_⟩
      rw [Stream'.take_succ', List.mem_append, List.mem_singleton] at hy
      rcases hy with hy | rfl
      · exact hall y hy
      · by_contra hready
        exact hlate ⟨hall, Bool.eq_false_of_not_eq_true hready⟩

end Polls

/-- A card that answers at once. -/
theorem pollOk_zeros : PollOk wiredDif ⟨0, 1⟩ id .response ⟨fun _ => 0, ⟨Stream'.const 0, []⟩⟩ :=
  (pollOk_iff (hostOk_wiredDif 16) .response _).mpr fun ⟨hall, _⟩ =>
    absurd (hall 0 (by decide)) (by decide)

/-- A response in the eighth byte is lost. -/
theorem not_pollOk_eighth : ¬ PollOk wiredDif ⟨0, 1⟩ id .response
    ⟨fun _ => 0, ⟨List.replicate 7 0xFF ++ₛ Stream'.const 0, []⟩⟩ := by
  intro h
  have hall : (0x12 : CInt) = 0x12 ∧
      ∀ y ∈ (List.replicate 7 0xFF ++ₛ Stream'.const (0 : Byte)).take 8, (y &&& 0x80 != 0) = true := h
  exact absurd (hall.2 0 (by decide)) (by decide)

end Cheshire.Sw.SpiSdcard
