import Mathlib.Data.Nat.Init
import Mathlib.Tactic.Common

/-!
Infinite runs of processes that take turns.  A run is fair to a process when it does not leave it
out for ever although it could always move.  What is led to in such runs is shown with a rank that
one process brings down and the others do not raise, and put together phase by phase.
-/

namespace Cheshire.Lib.Fair

variable {ι σ : Type}

/-- An infinite run: who moves at each time, if anyone does, and the states in between. -/
structure Run (step : ι → σ → σ → Prop) where
  state : ℕ → σ
  mover : ℕ → Option ι
  moves : ∀ t i, mover t = some i → step i (state t) (state (t + 1))
  rests : ∀ t, mover t = none → state (t + 1) = state t

/-- What no move ends. -/
def Stable (step : ι → σ → σ → Prop) (P : σ → Prop) : Prop := ∀ i s s', step i s s' → P s → P s'

namespace Run

variable {step : ι → σ → σ → Prop} (ρ : Run step)

/-- A process that can move from some time on moves again. -/
def FairTo (ready : ι → σ → Prop) (i : ι) : Prop :=
  ∀ t, (∀ u ≥ t, ready i (ρ.state u)) → ∃ u ≥ t, ρ.mover u = some i

/-- Whenever `P` holds, `Q` holds then or later. -/
def LeadsTo (P Q : σ → Prop) : Prop := ∀ t, P (ρ.state t) → ∃ u ≥ t, Q (ρ.state u)

variable {ρ} {P Q R : σ → Prop}

/-- The rule of invariance. -/
theorem persists (hP : Stable step P) {t u : ℕ} (htu : t ≤ u) (h : P (ρ.state t)) :
    P (ρ.state u) := by
  induction u, htu using Nat.le_induction with
  | base => exact h
  | succ u _ ih =>
    cases hm : ρ.mover u with
    | none =>
      rw [ρ.rests u hm]
      exact ih
    | some i => exact hP i _ _ (ρ.moves u i hm) ih

theorem LeadsTo.trans (h : ρ.LeadsTo P Q) (h' : ρ.LeadsTo Q R) : ρ.LeadsTo P R := by
  intro t ht
  obtain ⟨u, hu, hq⟩ := h t ht
  obtain ⟨v, hv, hr⟩ := h' u hq
  exact ⟨v, Nat.le_trans hu hv, hr⟩

/-- It is enough to look at the states that are not there yet. -/
theorem LeadsTo.of_cases (h : ρ.LeadsTo P Q) (hR : ∀ s, R s → Q s ∨ P s) : ρ.LeadsTo R Q := by
  intro t ht
  rcases hR _ ht with hq | hp
  · exact ⟨t, Nat.le_refl t, hq⟩
  · exact h t hp

/-- Finitely many goals that are stable are all reached. -/
theorem LeadsTo.forall_lt {Q : ℕ → σ → Prop} (n : ℕ) (hQ : ∀ i < n, Stable step (Q i))
    (h : ∀ i < n, ρ.LeadsTo P (Q i)) : ρ.LeadsTo P fun s => ∀ i < n, Q i s := by
  intro t ht
  induction n with
  | zero => exact ⟨t, Nat.le_refl t, fun i hi => absurd hi (Nat.not_lt_zero i)⟩
  | succ n ih =>
    obtain ⟨u, hu, hall⟩ := ih (fun i hi => hQ i (by omega)) fun i hi => h i (by omega)
    obtain ⟨v, hv, hn⟩ := h n (Nat.lt_succ_self n) t ht
    refine ⟨max u v, by omega, fun i hi => ?_⟩
    rcases Nat.lt_succ_iff_lt_or_eq.mp hi with hi | rfl
    · exact persists (hQ i (by omega)) (Nat.le_max_left u v) (hall i hi)
    · exact persists (hQ i (by omega)) (Nat.le_max_right u v) hn

section Rank

variable {ready : ι → σ → Prop} {i : ι}

/-- Until the goal is reached the rank does not rise. -/
lemma exists_goal_or_le {rank : σ → ℕ}
    (hstep : ∀ j s s', step j s s' → P s → Q s' ∨ P s' ∧ rank s' ≤ rank s)
    {t u : ℕ} (htu : t ≤ u) (h : P (ρ.state t)) :
    (∃ v ≥ t, Q (ρ.state v)) ∨ P (ρ.state u) ∧ rank (ρ.state u) ≤ rank (ρ.state t) := by
  induction u, htu using Nat.le_induction with
  | base => exact .inr ⟨h, Nat.le_refl _⟩
  | succ u hu ih =>
    rcases ih with hgoal | ⟨hp, hle⟩
    · exact .inl hgoal
    · cases hm : ρ.mover u with
      | none =>
        rw [ρ.rests u hm]
        exact .inr ⟨hp, hle⟩
      | some j =>
        rcases hstep j _ _ (ρ.moves u j hm) hp with hq | ⟨hp', hle'⟩
        · exact .inl ⟨u + 1, Nat.le_succ_of_le hu, hq⟩
        · exact .inr ⟨hp', Nat.le_trans hle' hle⟩

/-- **The rule of ranks**: while `P` holds the process `i` can move and brings the rank down, and
the others do not raise it. -/
theorem LeadsTo.of_rank (rank : σ → ℕ) (hfair : ρ.FairTo ready i) (hready : ∀ s, P s → ready i s)
    (hself : ∀ s s', step i s s' → P s → Q s' ∨ P s' ∧ rank s' < rank s)
    (hother : ∀ j s s', j ≠ i → step j s s' → P s → Q s' ∨ P s' ∧ rank s' ≤ rank s) :
    ρ.LeadsTo P Q := by
  have hstep : ∀ j s s', step j s s' → P s → Q s' ∨ P s' ∧ rank s' ≤ rank s := by
    intro j s s' hs hp
    by_cases hj : j = i
    · subst hj
      exact (hself s s' hs hp).imp_right fun h => ⟨h.1, Nat.le_of_lt h.2⟩
    · exact hother j s s' hj hs hp
  intro t
  induction hr : rank (ρ.state t) using Nat.strong_induction_on generalizing t with
  | _ r ih =>
    subst hr
    intro hp
    by_contra hno
    have hlater : ∀ u ≥ t, P (ρ.state u) ∧ rank (ρ.state u) ≤ rank (ρ.state t) := by
      intro u hu
      exact (exists_goal_or_le hstep hu hp).resolve_left hno
    obtain ⟨u, hu, hm⟩ := hfair t fun u hu => hready _ (hlater u hu).1
    rcases hself _ _ (ρ.moves u i hm) (hlater u hu).1 with hq | ⟨hp', hlt⟩
    · exact hno ⟨u + 1, Nat.le_succ_of_le hu, hq⟩
    · obtain ⟨v, hv, hq⟩ := ih _ (Nat.lt_of_lt_of_le hlt (hlater u hu).2) (u + 1) rfl hp'
      exact hno ⟨v, by omega, hq⟩

end Rank

end Run

/-! ### Taking turns -/

section Turns

variable {step : ℕ → σ → σ → Prop} (next : ℕ → σ → Option σ) (n : ℕ)

/-- The states when `n` processes take turns, each moving if it can. -/
def turns (s₀ : σ) : ℕ → σ
  | 0 => s₀
  | t + 1 => (next (t % n) (turns s₀ t)).getD (turns s₀ t)

variable {next n}

/-- The run in which they do. -/
def Run.ofTurns (hnext : ∀ i s s', i < n → next i s = some s' → step i s s') (hn : 0 < n) (s₀ : σ) :
    Run step where
  state := turns next n s₀
  mover t := (next (t % n) (turns next n s₀ t)).map fun _ => t % n
  moves t i h := by
    obtain ⟨s', hs', rfl⟩ := Option.map_eq_some_iff.mp h
    rw [turns, hs']
    exact hnext _ _ _ (Nat.mod_lt t hn) hs'
  rests t h := by
    rw [turns, Option.map_eq_none_iff.mp h]
    rfl

/-- **Taking turns is fair** to everyone who moves when it can. -/
theorem Run.fairTo_ofTurns {hnext : ∀ i s s', i < n → next i s = some s' → step i s s'} {hn : 0 < n}
    {s₀ : σ} {ready : ℕ → σ → Prop} {i : ℕ} (hi : i < n)
    (hready : ∀ s, ready i s → (next i s).isSome) :
    (Run.ofTurns hnext hn s₀).FairTo ready i := by
  intro t ht
  have hle : t ≤ n * t + i := by
    have := Nat.le_mul_of_pos_left t hn
    omega
  have hturn : (n * t + i) % n = i := by
    rw [Nat.mul_add_mod, Nat.mod_eq_of_lt hi]
  refine ⟨n * t + i, hle, ?_⟩
  have hsome := hready _ (ht _ hle)
  show (next ((n * t + i) % n) (turns next n s₀ (n * t + i))).map (fun _ => (n * t + i) % n) =
    some i
  rw [hturn]
  obtain ⟨s', hs'⟩ := Option.isSome_iff_exists.mp hsome
  exact Option.map_eq_some_iff.mpr ⟨s', hs', rfl⟩

end Turns

end Cheshire.Lib.Fair
