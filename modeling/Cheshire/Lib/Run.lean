import Mathlib.Tactic.Common

/-!
Programs that update a state and may stop with an error: `Returns m s Q` says that `m`, started in
`s`, returns normally with a value and a state satisfying `Q`; `Leaves m s Q` says it of every
normal return there is, an error being allowed; `Ends m s Q E` says that a normal return satisfies
`Q` and an error satisfies `E`.  The rules take a program apart at its binds.
-/

namespace Cheshire.Lib

variable {ε S α β : Type}

/-- Started in `s`, the program returns normally, and what it returns satisfies `Q`. -/
def Returns (m : EStateM ε S α) (s : S) (Q : α → S → Prop) : Prop :=
  match m.run s with
  | .ok a s' => Q a s'
  | .error _ _ => False

/-- Started in `s`, the program may stop with an error; what it returns normally satisfies `Q`. -/
def Leaves (m : EStateM ε S α) (s : S) (Q : α → S → Prop) : Prop :=
  match m.run s with
  | .ok a s' => Q a s'
  | .error _ _ => True

/-- Started in `s`, what the program returns normally satisfies `Q`, and an error it stops with
satisfies `E`. -/
def Ends (m : EStateM ε S α) (s : S) (Q : α → S → Prop) (E : ε → S → Prop) : Prop :=
  match m.run s with
  | .ok a s' => Q a s'
  | .error e s' => E e s'

section Rules

variable {m : EStateM ε S α} {f : α → EStateM ε S β} {s : S}

@[simp] theorem returns_pure (a : α) {Q : α → S → Prop} :
    Returns (pure a : EStateM ε S α) s Q ↔ Q a s := Iff.rfl

@[simp] theorem leaves_pure (a : α) {Q : α → S → Prop} :
    Leaves (pure a : EStateM ε S α) s Q ↔ Q a s := Iff.rfl

theorem returns_bind {Q : β → S → Prop} :
    Returns (m >>= f) s Q ↔ Returns m s fun a s' => Returns (f a) s' Q := by
  simp only [Returns, EStateM.run, bind, EStateM.bind]
  cases m s <;> rfl

theorem leaves_bind {Q : β → S → Prop} :
    Leaves (m >>= f) s Q ↔ Leaves m s fun a s' => Leaves (f a) s' Q := by
  simp only [Leaves, EStateM.run, bind, EStateM.bind]
  cases m s <;> rfl

theorem Returns.mono {Q Q' : α → S → Prop} (h : Returns m s Q) (hQ : ∀ a s', Q a s' → Q' a s') :
    Returns m s Q' := by
  unfold Returns at h ⊢
  split at h
  · exact hQ _ _ h
  · exact h.elim

theorem Leaves.mono {Q Q' : α → S → Prop} (h : Leaves m s Q) (hQ : ∀ a s', Q a s' → Q' a s') :
    Leaves m s Q' := by
  unfold Leaves at h ⊢
  split at h
  · exact hQ _ _ h
  · trivial

/-- The rule of sequencing. -/
theorem Returns.bind {P : α → S → Prop} {Q : β → S → Prop} (h : Returns m s P)
    (hf : ∀ a s', P a s' → Returns (f a) s' Q) : Returns (m >>= f) s Q :=
  returns_bind.mpr (h.mono hf)

/-- The rule of sequencing. -/
theorem Leaves.bind {P : α → S → Prop} {Q : β → S → Prop} (h : Leaves m s P)
    (hf : ∀ a s', P a s' → Leaves (f a) s' Q) : Leaves (m >>= f) s Q :=
  leaves_bind.mpr (h.mono hf)

/-- A program returns normally when its run does. -/
theorem returns_iff {Q : α → S → Prop} :
    Returns m s Q ↔ ∃ a s', m.run s = .ok a s' ∧ Q a s' := by
  unfold Returns
  cases m.run s <;> simp

theorem leaves_iff {Q : α → S → Prop} :
    Leaves m s Q ↔ ∀ a s', m.run s = .ok a s' → Q a s' := by
  unfold Leaves
  cases m.run s <;> simp

theorem Returns.leaves {Q : α → S → Prop} (h : Returns m s Q) : Leaves m s Q := by
  unfold Returns at h
  unfold Leaves
  split at h <;> simp_all

lemma forM_range_succ (f : ℕ → EStateM ε S Unit) (n : ℕ) :
    (List.range (n + 1)).forM f = (List.range n).forM f >>= fun _ => f n := by
  simp [List.range_succ, List.forM_eq_forM]

end Rules

section Ends

variable {m : EStateM ε S α} {f : α → EStateM ε S β} {s : S} {Q : α → S → Prop} {E : ε → S → Prop}

@[simp] theorem ends_pure (a : α) : Ends (pure a : EStateM ε S α) s Q E ↔ Q a s := Iff.rfl

theorem ends_bind {Q : β → S → Prop} :
    Ends (m >>= f) s Q E ↔ Ends m s (fun a s' => Ends (f a) s' Q E) E := by
  simp only [Ends, EStateM.run, bind, EStateM.bind]
  cases m s <;> rfl

theorem Ends.mono {Q' : α → S → Prop} {E' : ε → S → Prop} (h : Ends m s Q E)
    (hQ : ∀ a s', Q a s' → Q' a s') (hE : ∀ e s', E e s' → E' e s') : Ends m s Q' E' := by
  unfold Ends at h ⊢
  split at h
  · exact hQ _ _ h
  · exact hE _ _ h

/-- A program that returns normally stops with no error. -/
theorem Returns.ends (h : Returns m s Q) : Ends m s Q E := by
  unfold Returns at h
  unfold Ends
  split at h
  · exact h
  · exact h.elim

/-- The rule of sequencing. -/
theorem Ends.bind {P : α → S → Prop} {Q : β → S → Prop} (h : Ends m s P E)
    (hf : ∀ a s', P a s' → Ends (f a) s' Q E) : Ends (m >>= f) s Q E :=
  ends_bind.mpr (h.mono hf fun _ _ he => he)

/-- The rule of a loop over `0, …, n - 1`, with the invariant `I`. -/
theorem Ends.forM_range {n : ℕ} {f : ℕ → EStateM ε S Unit} {I : ℕ → S → Prop} (h₀ : I 0 s)
    (hstep : ∀ k s, k < n → I k s → Ends (f k) s (fun _ s' => I (k + 1) s') E) :
    Ends ((List.range n).forM f) s (fun _ s' => I n s') E := by
  induction n with
  | zero => exact h₀
  | succ n ih =>
    rw [forM_range_succ]
    refine (ih fun k s hk => hstep k s (Nat.lt_succ_of_lt hk)).bind fun _ s' hs' => ?_
    exact hstep n s' (Nat.lt_succ_self n) hs'

/-- A program that may stop with any error. -/
theorem leaves_iff_ends : Leaves m s Q ↔ Ends m s Q fun _ _ => True := Iff.rfl

/-- A program that stops with no error. -/
theorem returns_iff_ends : Returns m s Q ↔ Ends m s Q fun _ _ => False := Iff.rfl

/-- The rule of a loop over `0, …, n - 1`, with the invariant `I`. -/
theorem Leaves.forM_range {n : ℕ} {f : ℕ → EStateM ε S Unit} {I : ℕ → S → Prop} (h₀ : I 0 s)
    (hstep : ∀ k s, k < n → I k s → Leaves (f k) s fun _ s' => I (k + 1) s') :
    Leaves ((List.range n).forM f) s fun _ s' => I n s' :=
  leaves_iff_ends.mpr (Ends.forM_range h₀ hstep)

/-- The rule of a loop over `0, …, n - 1`, with the invariant `I`. -/
theorem Returns.forM_range {n : ℕ} {f : ℕ → EStateM ε S Unit} {I : ℕ → S → Prop} (h₀ : I 0 s)
    (hstep : ∀ k s, k < n → I k s → Returns (f k) s fun _ s' => I (k + 1) s') :
    Returns ((List.range n).forM f) s fun _ s' => I n s' :=
  returns_iff_ends.mpr (Ends.forM_range h₀ hstep)

theorem Ends.leaves (h : Ends m s Q E) : Leaves m s Q := by
  unfold Ends at h
  unfold Leaves
  split at h
  · exact h
  · trivial

/-- A program that cannot stop with an error returns normally. -/
theorem Ends.returns (h : Ends m s Q E) (hE : ∀ e s', ¬ E e s') : Returns m s Q := by
  unfold Ends at h
  unfold Returns
  split at h
  · exact h
  · exact hE _ _ h

@[simp] theorem ends_throw (e : ε) : Ends (throw e : EStateM ε S α) s Q E ↔ E e s := Iff.rfl

/-- Where each way of ending says the same of `P`, the one there is decides it. -/
theorem ends_iff {Q' : α → S → Prop} {E' : ε → S → Prop} {P : Prop} (h : Ends m s Q E)
    (hQ : ∀ a s', Q a s' → (Q' a s' ↔ P)) (hE : ∀ e s', E e s' → (E' e s' ↔ P)) :
    Ends m s Q' E' ↔ P := by
  unfold Ends at h ⊢
  split at h
  · exact hQ _ _ h
  · exact hE _ _ h

/-- Where the normal returns satisfy `C` and the errors do not, all ends satisfy `C` exactly when
the program returns normally. -/
theorem ends_all_iff {C : S → Prop} {P : Prop} (h : Ends m s (fun _ s' => P ∧ C s')
    fun _ s' => ¬ P ∧ ¬ C s') : Ends m s (fun _ => C) (fun _ => C) ↔ P :=
  ends_iff h (fun _ _ h => iff_of_true h.2 h.1) fun _ _ h => iff_of_false h.2 h.1

end Ends

section Fuel

variable {m : ℕ → EStateM ε S α} {s : S} {Q C : α → S → Prop} {P : Prop} {bound : ℕ}

/-- A program that only stops when it has too little fuel: its returns satisfy `C` when `C` says
`P` of each of them. -/
theorem leaves_fuel_iff (h : ∀ fuel, Ends (m fuel) s Q fun _ _ => fuel ≤ bound)
    (hC : ∀ a s', Q a s' → (C a s' ↔ P)) : (∀ fuel, Leaves (m fuel) s C) ↔ P := by
  constructor
  · intro hall
    have hret := (h (bound + 1)).returns fun _ _ => Nat.not_succ_le_self bound
    obtain ⟨a, s', hrun, hQ⟩ := returns_iff.mp hret
    exact (hC a s' hQ).mp (leaves_iff.mp (hall (bound + 1)) a s' hrun)
  · intro hP fuel
    exact (h fuel).leaves.mono fun a s' hQ => (hC a s' hQ).mpr hP

/-- With enough fuel such a program returns. -/
theorem returns_fuel_iff (h : ∀ fuel, Ends (m fuel) s Q fun _ _ => fuel ≤ bound)
    (hC : ∀ a s', Q a s' → (C a s' ↔ P)) : (∃ fuel, Returns (m fuel) s C) ↔ P := by
  constructor
  · rintro ⟨fuel, hret⟩
    obtain ⟨a, s', hrun, hCa⟩ := returns_iff.mp hret
    exact (hC a s' (leaves_iff.mp (h fuel).leaves a s' hrun)).mp hCa
  · intro hP
    have hret := (h (bound + 1)).returns fun _ _ => Nat.not_succ_le_self bound
    exact ⟨bound + 1, hret.mono fun a s' hQ => (hC a s' hQ).mpr hP⟩

end Fuel

end Cheshire.Lib
