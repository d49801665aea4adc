import Cheshire.Sim.UartDebugRw
import Cheshire.Sw.UartDebug

/-!
The host and the debug server together: in every interleaving the calls of the host do what they
say, and between two calls nothing is left on the line.
-/

namespace Cheshire.Sim.Uart

open Lib Lib.Dialogue Sw Sw.UartDebug

/-! ### A call -/

/-- **The server answers a call**, and does to the memory what the call says. -/
theorem talks_serve (invoke : U64 → CoreM U32) (c : Call) (m : Mem 64) :
    Talks (serveLoop invoke m) ((c.msgs m).map Msg.dual) (.inl (c.mem m)) := by
  have hlen := c.toNat_len
  unfold Call.msgs Call.mem
  by_cases h : c.lenOrW ≠ 0
  · simp only [if_pos h, List.map_append, dual_out, dual_inn]
    exact talks_serve_read invoke c.addr c.len m
  · rw [if_neg h] at hlen
    simp only [if_neg h, List.map_append, dual_out]
    exact talks_serve_write invoke c.addr hlen.symm m

/-- The calls to come, one at a time. -/
theorem talks_session (c : Call) (calls : List Call) (done : List (List Byte)) (m : Mem 64) :
    Talks (session (c :: calls, done)) (c.msgs m) (.inl (calls, done ++ [c.result m])) :=
  (talks_uartDebugRw c m).map fun data => Sum.inl (calls, done ++ [data])

/-- A call and a turn of the server are a round. -/
theorem round_call (invoke : U64 → CoreM U32) (c : Call) (calls : List Call)
    (done : List (List Byte)) (m : Mem 64) :
    Round session (serveLoop invoke) (c :: calls, done) m (calls, done ++ [c.result m]) (c.mem m)
      (c.msgs m) where
  fst := talks_session c calls done m
  snd := talks_serve invoke c m
  begins := ⟨_, _, rfl⟩
  ends := ends_append _ (ends_append _ (ends_append _ (ends_append _ ⟨UartDebugEot, _, rfl⟩)))

lemma length_msgs (c : Call) (m : Mem 64) : (c.msgs m).length = 19 + c.len.toNat := by
  have hlen := c.toNat_len
  unfold Call.msgs
  by_cases h : c.lenOrW ≠ 0
  · simp only [if_pos h, List.length_append, List.length_map, length_toLe, Mem.length_slice,
      List.length_singleton]
    omega
  · rw [if_neg h] at hlen
    simp only [if_neg h, List.length_append, List.length_map, length_toLe, List.length_singleton]
    omega

/-! ### A session -/

/-- The memory behind a sequence of calls. -/
def memAfter (calls : List Call) (m : Mem 64) : Mem 64 := calls.foldl (fun m c => c.mem m) m

/-- The queues behind a sequence of calls. -/
def results : List Call → Mem 64 → List (List Byte)
  | [], _ => []
  | c :: calls, m => c.result m :: results calls (c.mem m)

/-- The number of steps that a sequence of calls takes. -/
def stepsOf (calls : List Call) : ℕ := (calls.map fun c => 2 * (19 + c.len.toNat)).sum

lemma results_concat (c : Call) : ∀ (calls : List Call) (m : Mem 64),
    results (calls ++ [c]) m = results calls m ++ [c.result (memAfter calls m)] := by
  intro calls
  induction calls with
  | nil =>
    intro m
    rfl
  | cons d calls ih =>
    intro m
    rw [List.cons_append, results, ih, results, List.cons_append]
    rfl

/-- The rounds of a session. -/
def sessionScript (invoke : U64 → CoreM U32) (calls : List Call) (m : Mem 64) :
    Script session (serveLoop invoke) where
  len := calls.length
  x k := (calls.drop k, results (calls.take k) m)
  y k := memAfter (calls.take k) m
  msgs k := (calls[k]?.map fun c => c.msgs (memAfter (calls.take k) m)).getD []
  round k hk := by
    have hround := round_call invoke calls[k] (calls.drop (k + 1)) (results (calls.take k) m)
      (memAfter (calls.take k) m)
    have hmem : memAfter (calls.take (k + 1)) m = calls[k].mem (memAfter (calls.take k) m) := by
      rw [List.take_succ_eq_append_getElem hk, memAfter, List.foldl_append]
      rfl
    rw [← List.drop_eq_getElem_cons hk, ← results_concat, ← List.take_succ_eq_append_getElem hk,
      ← hmem] at hround
    rw [List.getElem?_eq_getElem hk]
    exact hround
  stops := by
    rw [List.drop_length]
    exact ⟨_, rfl⟩
  waits := ⟨_, rfl⟩

lemma steps_sessionScript (invoke : U64 → CoreM U32) (calls : List Call) (m : Mem 64) :
    ∀ k ≤ calls.length, (sessionScript invoke calls m).steps k = stepsOf (calls.take k) := by
  intro k
  induction k with
  | zero =>
    intro _
    rfl
  | succ k ih =>
    intro hk
    have hstep : (sessionScript invoke calls m).steps (k + 1) =
        (sessionScript invoke calls m).steps k +
          2 * ((calls[k]?.map fun c => c.msgs (memAfter (calls.take k) m)).getD []).length := rfl
    rw [hstep, ih (by omega), List.getElem?_eq_getElem hk, Option.map_some, Option.getD_some,
      length_msgs, List.take_succ_eq_append_getElem hk, stepsOf, stepsOf, List.map_append,
      List.sum_append, List.map_singleton, List.sum_singleton]

/-- The state of a session: the host with the calls to come and the queues of those that have
returned, the server with its memory. -/
abbrev Session :=
  Net Fatal Empty (List Call × List (List Byte)) (Mem 64) (List (List Byte)) (U32 × Mem 64)

/-- What holds in a state of a session, `n` steps after its start. -/
structure SessionOk (invoke : U64 → CoreM U32) (calls : List Call) (m : Mem 64) (n : ℕ)
    (s : Session) : Prop where
  /-- The host receives the ACKs and EOTs that it expects. -/
  not_fatal : ∀ e, s.fst ≠ .fail e
  /-- Between two calls nothing is on the line, the server is at its command byte, and the memory
  and the queues are those that the calls so far leave. -/
  between : ∀ todo done, s.fst = .ret (.inl (todo, done)) → ∃ k ≤ calls.length,
    todo = calls.drop k ∧ done = results (calls.take k) m ∧
      s.snd = .ret (.inl (memAfter (calls.take k) m)) ∧ s.up = [] ∧ s.down = []
  /-- Until all calls have returned, the host or the server can go on. -/
  progress : s = rest ([], results calls m) (memAfter calls m) ∨
    ∃ s', Step session (serveLoop invoke) s s'
  /-- They cannot go on for ever. -/
  bounded : n ≤ stepsOf calls
  /-- In the end all calls have returned. -/
  finishes : ∃ n', Steps session (serveLoop invoke) n' s
    (rest ([], results calls m) (memAfter calls m))

lemma rest_sessionScript (invoke : U64 → CoreM U32) (calls : List Call) (m : Mem 64) :
    (rest ((sessionScript invoke calls m).x calls.length)
      ((sessionScript invoke calls m).y calls.length) : Session) =
        rest ([], results calls m) (memAfter calls m) := by
  show (rest (calls.drop calls.length, results (calls.take calls.length) m)
    (memAfter (calls.take calls.length) m) : Session) = _
  rw [List.drop_length, List.take_length]

/-- What the invariant of the rounds says about a state of a session. -/
theorem sessionOk_of_inv (invoke : U64 → CoreM U32) (calls : List Call) (m : Mem 64) {n : ℕ}
    {s : Session} (hinv : (sessionScript invoke calls m).Inv n s) :
    SessionOk invoke calls m n s := by
  have hend := rest_sessionScript invoke calls m
  refine ⟨hinv.ne_fail, fun todo done hx => ?_, ?_, ?_, ?_⟩
  · obtain ⟨k, hk, hxk, rfl⟩ := hinv.between_of_head hx
    obtain ⟨htodo, hdone⟩ := Prod.mk.inj hxk
    exact ⟨k, hk, htodo, hdone, rfl, rfl, rfl⟩
  · rw [← hend]
    exact hinv.progress
  · have hle : n ≤ (sessionScript invoke calls m).steps calls.length := hinv.le
    rwa [steps_sessionScript invoke calls m calls.length (Nat.le_refl _), List.take_length] at hle
  · rw [← hend]
    exact hinv.exists_finish

/-- **The UART debug protocol works**: whatever the memory holds, and in every interleaving of the
host and the server. -/
theorem session_ok (invoke : U64 → CoreM U32) (calls : List Call) (m : Mem 64) {n : ℕ}
    {s : Session} (h : Steps session (serveLoop invoke) n (rest (calls, []) m) s) :
    SessionOk invoke calls m n s := by
  have hinv : (sessionScript invoke calls m).Inv n s := Script.inv_of_steps h
  exact sessionOk_of_inv invoke calls m hinv

/-- Two bytes written, and read back. -/
def writeThenRead : List Call :=
  [⟨0x80000000, 0, [0xDE, 0xAD], by decide, by decide⟩, ⟨0x80000000, 2, [], by decide, by decide⟩]

theorem session_ok_writeThenRead :
    results writeThenRead (fun _ => 0) = [[0xDE, 0xAD], [0xDE, 0xAD]] ∧
      ∃ n, SessionOk (fun _ => pure 0) writeThenRead (fun _ => 0) n
        (rest ([], [[0xDE, 0xAD], [0xDE, 0xAD]]) (memAfter writeThenRead fun _ => 0)) := by
  have hres : results writeThenRead (fun _ => 0) = [[0xDE, 0xAD], [0xDE, 0xAD]] := by decide
  have hstart : (sessionScript (fun _ => pure 0) writeThenRead fun _ => 0).Inv 0
      (rest (writeThenRead, []) fun _ => 0) := Script.inv_of_steps (.refl _)
  obtain ⟨n, hn⟩ := hstart.exists_finish
  have hend := rest_sessionScript (fun _ => pure 0) writeThenRead fun _ => 0
  rw [hres] at hend
  refine ⟨hres, n, session_ok (fun _ => pure 0) writeThenRead (fun _ => 0) ?_⟩
  rw [← hend]
  exact hn

end Cheshire.Sim.Uart
