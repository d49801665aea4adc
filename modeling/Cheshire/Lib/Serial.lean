import Mathlib.Data.List.GetD
import Mathlib.Tactic.Common

/-!
Asynchronous serial lines in discrete time.  A line is high while nothing is sent; a frame is a row
of levels that last equally long.  Who listens waits for a falling edge and counts from there.
-/

namespace Cheshire.Lib.Serial

/-- The levels of frames that each follow after some idle time, a level lasting `T` ticks. -/
def line (T : ℕ) : List (ℕ × List Bool) → ℕ → Bool
  | [], _ => true
  | (gap, levels) :: frames, t =>
    if t < gap then true
    else if t - gap < levels.length * T then levels.getD ((t - gap) / T) true
    else line T frames (t - gap - levels.length * T)

/-- How long they take. -/
def duration (T : ℕ) : List (ℕ × List Bool) → ℕ
  | [] => 0
  | (gap, levels) :: frames => gap + levels.length * T + duration T frames

/-- The time of the next falling edge behind `t`, of the next `n` ticks. -/
def negedge (l : ℕ → Bool) : ℕ → ℕ → Option ℕ
  | 0, _ => none
  | n + 1, t => if l t && !l (t + 1) then some (t + 1) else negedge l n (t + 1)

section Edges

variable {l : ℕ → Bool}

/-- There is no edge on a line that stays high. -/
lemma negedge_high : ∀ (n t : ℕ), (∀ u, l (t + u) = true) → negedge l n t = none := by
  intro n
  induction n with
  | zero =>
    intro t _
    rfl
  | succ n ih =>
    intro t h
    have hnext : l (t + 1) = true := h 1
    rw [negedge, hnext, Bool.not_true, Bool.and_false, if_neg Bool.false_ne_true]
    refine ih (t + 1) fun u => ?_
    rw [Nat.add_assoc, Nat.add_comm 1 u]
    exact h (u + 1)

/-- The edge at the end of an idle time. -/
lemma negedge_low : ∀ (k n t : ℕ), k < n → (∀ u ≤ k, l (t + u) = true) →
    l (t + k + 1) = false → negedge l n t = some (t + k + 1) := by
  intro k
  induction k with
  | zero =>
    intro n t hn h hlow
    obtain ⟨n, rfl⟩ : ∃ m, n = m + 1 := ⟨n - 1, by omega⟩
    have hhigh : l t = true := h 0 (Nat.le_refl 0)
    rw [Nat.add_zero] at hlow ⊢
    rw [negedge, hhigh, hlow]
    rfl
  | succ k ih =>
    intro n t hn h hlow
    obtain ⟨n, rfl⟩ : ∃ m, n = m + 1 := ⟨n - 1, by omega⟩
    have hnext : l (t + 1) = true := h 1 (by omega)
    have hshift : t + (k + 1) + 1 = t + 1 + k + 1 := by omega
    rw [hshift] at hlow ⊢
    rw [negedge, hnext, Bool.not_true, Bool.and_false, if_neg Bool.false_ne_true]
    refine ih n (t + 1) (by omega) (fun u hu => ?_) hlow
    have hu' := h (u + 1) (by omega)
    rwa [Nat.add_comm u 1, ← Nat.add_assoc] at hu'

end Edges

section Line

variable {T gap : ℕ} {levels : List Bool} {frames : List (ℕ × List Bool)}

lemma line_idle {t : ℕ} (h : t < gap) : line T ((gap, levels) :: frames) t = true := if_pos h

/-- A frame is on the line level after level. -/
lemma line_level {t i : ℕ} (hi : i < levels.length) (hlo : i * T ≤ t) (hhi : t < (i + 1) * T) :
    line T ((gap, levels) :: frames) (gap + t) = levels.getD i true := by
  have hlast : (i + 1) * T ≤ levels.length * T := Nat.mul_le_mul_right T hi
  have hdiv : t / T = i := Nat.div_eq_of_lt_le hlo hhi
  rw [line, if_neg (by omega), if_pos (by omega), Nat.add_sub_cancel_left, hdiv]

/-- What comes behind a frame. -/
lemma line_behind (t : ℕ) : line T ((gap, levels) :: frames) (gap + levels.length * T + t) =
    line T frames t := by
  have hsub : gap + levels.length * T + t - gap - levels.length * T = t := by omega
  rw [line, if_neg (by omega), if_neg (by omega), hsub]

end Line

/-! ### Tolerance -/

/-- Who counts `n` periods of `P` ticks from half a period behind the edge on is then still in the
level that it thinks it is in, when levels last `T` ticks. -/
structure Tolerates (P T n : ℕ) : Prop where
  slow : n * T ≤ P / 2 + n * P
  fast : P / 2 + n * P < (n + 1) * T

/-- What is in time for the last level is in time for those before. -/
lemma Tolerates.of_le {P T n k : ℕ} (h : Tolerates P T n) (hk : k ≤ n) : Tolerates P T k := by
  obtain ⟨hslow, hfast⟩ := h
  obtain ⟨d, rfl⟩ := Nat.exists_eq_add_of_le hk
  rw [Nat.add_mul, Nat.add_mul] at hslow
  rw [Nat.add_mul, Nat.add_mul, Nat.add_mul, Nat.one_mul] at hfast
  constructor
  · rcases Nat.le_total T P with hle | hle
    · have := Nat.mul_le_mul_left k hle
      omega
    · have := Nat.mul_le_mul_left d hle
      omega
  · rw [Nat.add_mul, Nat.one_mul]
    rcases Nat.le_total T P with hle | hle
    · have := Nat.mul_le_mul_left d hle
      omega
    · have := Nat.mul_le_mul_left k hle
      omega

end Cheshire.Lib.Serial
