import Mathlib.Logic.Function.Iterate
import Cheshire.Lib.Run

/-!
Programs with fuel, and programs on a part of the state.  A program settles when it returns with
enough fuel, and does so in one way; what is done behind it may count on that.
-/

namespace Cheshire.Lib

variable {ε S T α β : Type}

/-- With enough fuel the program, started in `s`, always returns the same, which satisfies `Q`. -/
def Settles (m : ℕ → EStateM ε S α) (s : S) (Q : α → S → Prop) : Prop :=
  ∃ bound a s', (∀ fuel ≥ bound, (m fuel).run s = .ok a s') ∧ Q a s'

/-- With enough fuel the program returns. -/
def Finishes (m : ℕ → EStateM ε S α) (s : S) (Q : α → S → Prop) : Prop :=
  ∃ bound, ∀ fuel ≥ bound, Returns (m fuel) s Q

section Rules

variable {m : ℕ → EStateM ε S α} {f : ℕ → α → EStateM ε S β} {s : S} {Q : α → S → Prop}

theorem Settles.mono {Q' : α → S → Prop} (h : Settles m s Q) (hQ : ∀ a s', Q a s' → Q' a s') :
    Settles m s Q' := by
  obtain ⟨bound, a, s', hrun, hq⟩ := h
  exact ⟨bound, a, s', hrun, hQ a s' hq⟩

/-- What it always returns. -/
theorem Settles.exists_eq (h : Settles m s Q) :
    ∃ a s', Q a s' ∧ Settles m s fun b t => b = a ∧ t = s' := by
  obtain ⟨bound, a, s', hrun, hq⟩ := h
  exact ⟨a, s', hq, bound, a, s', hrun, rfl, rfl⟩

theorem Settles.finishes (h : Settles m s Q) : Finishes m s Q := by
  obtain ⟨bound, a, s', hrun, hq⟩ := h
  exact ⟨bound, fun fuel hfuel => returns_iff.mpr ⟨a, s', hrun fuel hfuel, hq⟩⟩

theorem Finishes.mono {Q' : α → S → Prop} (h : Finishes m s Q) (hQ : ∀ a s', Q a s' → Q' a s') :
    Finishes m s Q' := by
  obtain ⟨bound, hret⟩ := h
  exact ⟨bound, fun fuel hfuel => (hret fuel hfuel).mono hQ⟩

/-- A program that takes no fuel. -/
theorem Settles.of_returns {n : EStateM ε S α} (h : Returns n s Q) : Settles (fun _ => n) s Q := by
  obtain ⟨a, s', hrun, hq⟩ := returns_iff.mp h
  exact ⟨0, a, s', fun _ _ => hrun, hq⟩

lemma run_bind {n : EStateM ε S α} {g : α → EStateM ε S β} {a : α} {s' : S}
    (h : n.run s = .ok a s') : (n >>= g).run s = (g a).run s' := by
  simp only [EStateM.run, bind, EStateM.bind] at h ⊢
  rw [h]

/-- The rule of sequencing. -/
theorem Settles.bind {P : α → S → Prop} {Q : β → S → Prop} (h : Settles m s P)
    (hf : ∀ a s', P a s' → Settles (fun fuel => f fuel a) s' Q) :
    Settles (fun fuel => m fuel >>= f fuel) s Q := by
  obtain ⟨bound, a, s₁, hrun, hP⟩ := h
  obtain ⟨bound', b, s₂, hrun', hQ⟩ := hf a s₁ hP
  refine ⟨max bound bound', b, s₂, fun fuel hfuel => ?_, hQ⟩
  show (m fuel >>= f fuel).run s = _
  rw [run_bind (hrun fuel (Nat.le_trans (Nat.le_max_left ..) hfuel))]
  exact hrun' fuel (Nat.le_trans (Nat.le_max_right ..) hfuel)

/-- The rule of sequencing, for a last part that may return in several ways. -/
theorem Settles.bind_finishes {P : α → S → Prop} {Q : β → S → Prop} (h : Settles m s P)
    (hf : ∀ a s', P a s' → Finishes (fun fuel => f fuel a) s' Q) :
    Finishes (fun fuel => m fuel >>= f fuel) s Q := by
  obtain ⟨bound, a, s₁, hrun, hP⟩ := h
  obtain ⟨bound', hret⟩ := hf a s₁ hP
  refine ⟨max bound bound', fun fuel hfuel => ?_⟩
  have hle := Nat.le_trans (Nat.le_max_left bound bound') hfuel
  obtain ⟨b, s₂, hrun', hQ⟩ :=
    returns_iff.mp (hret fuel (Nat.le_trans (Nat.le_max_right ..) hfuel))
  exact returns_iff.mpr ⟨b, s₂, (run_bind (hrun fuel hle)).trans hrun', hQ⟩

/-- A loop that has made a turn. -/
theorem Settles.succ (h : Settles (fun fuel => m (fuel + 1)) s Q) : Settles m s Q := by
  obtain ⟨bound, a, s', hrun, hq⟩ := h
  refine ⟨bound + 1, a, s', fun fuel hfuel => ?_, hq⟩
  obtain ⟨k, rfl⟩ : ∃ k, fuel = k + 1 := ⟨fuel - 1, by omega⟩
  exact hrun k (Nat.le_of_succ_le_succ hfuel)

/-- A loop whose turns are the same with any fuel left, and which does not go on behind some turn to
come: it stops behind the first one. -/
theorem settles_loop {go : S → Prop} [DecidablePred go] {next : S → S} {out : S → α}
    (hrun : ∀ fuel s, (m (fuel + 1)).run s =
      if go s then (m fuel).run (next s) else .ok (out s) (next s))
    (hstop : ∃ k, ¬ go (next^[k] s)) : Settles m s fun a s' => ∃ k, (∀ i < k, go (next^[i] s)) ∧
      ¬ go (next^[k] s) ∧ a = out (next^[k] s) ∧ s' = next^[k + 1] s := by
  have hlast {s : S} (hgo : ¬ go s) : Settles m s fun a s' => ∃ k, (∀ i < k, go (next^[i] s)) ∧
      ¬ go (next^[k] s) ∧ a = out (next^[k] s) ∧ s' = next^[k + 1] s :=
    Settles.succ ⟨0, _, _, fun fuel _ => (hrun fuel s).trans (if_neg hgo), 0,
      fun i hi => absurd hi (Nat.not_lt_zero i), hgo, rfl, rfl⟩
  obtain ⟨k, hk⟩ := hstop
  induction k generalizing s with
  | zero => exact hlast hk
  | succ k ih =>
    by_cases hgo : go s
    · rw [Function.iterate_succ_apply] at hk
      obtain ⟨bound, a, s', h, n, hbefore, hn, ha, hs'⟩ := ih hk
      refine Settles.succ ⟨bound, a, s',
        fun fuel hfuel => (hrun fuel s).trans ((if_pos hgo).trans (h fuel hfuel)), n + 1,
        fun i hi => ?_, hn, ha, hs'⟩
      cases i with
      | zero => exact hgo
      | succ i => exact hbefore i (Nat.lt_of_succ_lt_succ hi)
    · exact hlast hgo

/-- What is known of every return. -/
theorem Returns.and_leaves {n : EStateM ε S α} {P : α → S → Prop} (h : Returns n s Q)
    (h' : Leaves n s P) : Returns n s fun a s' => Q a s' ∧ P a s' := by
  obtain ⟨a, s', hrun, hq⟩ := returns_iff.mp h
  exact returns_iff.mpr ⟨a, s', hrun, hq, leaves_iff.mp h' a s' hrun⟩

/-- What is known of every return, whatever the fuel. -/
theorem Settles.and_leaves {P : α → S → Prop} (h : Settles m s Q)
    (h' : ∀ fuel, Leaves (m fuel) s P) : Settles m s fun a s' => Q a s' ∧ P a s' := by
  obtain ⟨bound, a, s', hrun, hq⟩ := h
  exact ⟨bound, a, s', hrun, hq, leaves_iff.mp (h' bound) a s' (hrun bound (Nat.le_refl _))⟩

end Rules

/-! ### Parts of a state -/

/-- A program on a part of the state; its errors are errors of the whole as `err` says. -/
def zoom {δ : Type} (get : S → T) (put : T → S → S) (err : δ → ε) (m : EStateM δ T α) :
    EStateM ε S α := fun s =>
  match m (get s) with
  | .ok a t => .ok a (put t s)
  | .error e t => .error (err e) (put t s)

section Zoom

variable {δ : Type} {get : S → T} {put : T → S → S} {err : δ → ε} {s : S} {Q : α → S → Prop}

theorem returns_zoom {m : EStateM δ T α} :
    Returns (zoom get put err m) s Q ↔ Returns m (get s) fun a t => Q a (put t s) := by
  simp only [Returns, EStateM.run, zoom]
  cases m (get s) <;> rfl

theorem ends_zoom {m : EStateM δ T α} {E : ε → S → Prop} :
    Ends (zoom get put err m) s Q E ↔
      Ends m (get s) (fun a t => Q a (put t s)) fun e t => E (err e) (put t s) := by
  simp only [Ends, EStateM.run, zoom]
  cases m (get s) <;> rfl

theorem Settles.zoom {m : ℕ → EStateM δ T α} (h : Settles m (get s) fun a t => Q a (put t s)) :
    Settles (fun fuel => zoom get put err (m fuel)) s Q := by
  obtain ⟨bound, a, t, hrun, hq⟩ := h
  refine ⟨bound, a, put t s, fun fuel hfuel => ?_, hq⟩
  have hm := hrun fuel hfuel
  simp only [EStateM.run] at hm ⊢
  simp only [Lib.zoom, hm]

end Zoom

end Cheshire.Lib
