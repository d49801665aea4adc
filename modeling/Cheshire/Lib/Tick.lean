import Mathlib.Algebra.Order.Ring.Nat
import Mathlib.Tactic.Ring

/-!
A slow clock, which ticks once every `C` units of a fast one, sampled at moments at most `D ≤ C`
units apart.  The ticks are seen one by one, an edge lies between the samples on its two sides, and
a count of the fast clock from one edge to another is off by `2 * D` at most if it is taken between
those samples.
-/

namespace Cheshire.Lib

/-- The ticks of a clock of period `C` and phase `φ` up to the time `t`. -/
def tick (C φ t : ℕ) : ℕ := (t + φ) / C

variable {C D φ : ℕ}

lemma tick_mono (C φ : ℕ) {t t' : ℕ} (h : t ≤ t') : tick C φ t ≤ tick C φ t' :=
  Nat.div_le_div_right (by omega)

/-- Samples that are no further apart than a period see the ticks one by one. -/
lemma tick_le_succ (hC : 0 < C) (hDC : D ≤ C) {t t' : ℕ} (h : t' ≤ t + D) :
    tick C φ t' ≤ tick C φ t + 1 := by
  calc tick C φ t' ≤ (t + φ + C) / C := Nat.div_le_div_right (by omega)
    _ = tick C φ t + 1 := Nat.add_div_right _ hC

/-- The edge at which the `n`-th tick begins, seen from the two sides. -/
lemma edge_between (hC : 0 < C) {n t t' : ℕ} (h : tick C φ t < n) (h' : n ≤ tick C φ t') :
    t + φ < n * C ∧ n * C ≤ t' + φ :=
  ⟨(Nat.div_lt_iff_lt_mul hC).mp h, (Nat.le_div_iff_mul_le hC).mp h'⟩

/-- A count taken between the samples on the two sides of the edge. -/
lemma count_near_edge (hC : 0 < C) {n t t' x : ℕ} (h : tick C φ t < n) (h' : n ≤ tick C φ t')
    (happart : t' ≤ t + D) (hx : t ≤ x ∧ x ≤ t') : x + φ ≤ n * C + D ∧ n * C ≤ x + φ + D := by
  obtain ⟨hbefore, hbehind⟩ := edge_between hC h h'
  omega

/-- A count from near one edge to near another, `N` ticks later. -/
lemma count_near_period {n N x y : ℕ} (hx : x + φ ≤ n * C + D ∧ n * C ≤ x + φ + D)
    (hy : y + φ ≤ (n + N) * C + D ∧ (n + N) * C ≤ y + φ + D) (hxy : x ≤ y) :
    y - x ≤ N * C + 2 * D ∧ N * C ≤ y - x + 2 * D := by
  rw [Nat.add_mul] at hy
  omega

/-- The rate computed from a count that is off by `e` at most: `N` ticks, `f` of them in a unit of
time. -/
lemma rate_near {N f Δ e : ℕ} (hN : 0 < N) (h : Δ ≤ N * C + e) (h' : N * C ≤ Δ + e) :
    Δ * f / N ≤ C * f + (e * f / N + 1) ∧ C * f ≤ Δ * f / N + (e * f / N + 1) := by
  have hexact : N * C * f / N = C * f := by rw [Nat.mul_assoc, Nat.mul_div_cancel_left _ hN]
  -- The quotient of a sum is the sum of the quotients, or one more.
  have hsum : ∀ a b : ℕ, (a + b) / N ≤ a / N + b / N + 1 := by
    intro a b
    rw [Nat.add_div hN]
    split <;> omega
  constructor
  · calc Δ * f / N ≤ (N * C * f + e * f) / N := by
          apply Nat.div_le_div_right
          rw [← Nat.add_mul]
          exact Nat.mul_le_mul_right f h
      _ ≤ N * C * f / N + e * f / N + 1 := hsum _ _
      _ = C * f + (e * f / N + 1) := by rw [hexact]; ring
  · calc C * f = N * C * f / N := hexact.symm
      _ ≤ (Δ * f + e * f) / N := by
          apply Nat.div_le_div_right
          rw [← Nat.add_mul]
          exact Nat.mul_le_mul_right f h'
      _ ≤ Δ * f / N + e * f / N + 1 := hsum _ _
      _ = Δ * f / N + (e * f / N + 1) := by ring

end Cheshire.Lib
