import Cheshire.Lib.Run

/-!
Programs that follow a more abstract one: where the abstract program returns, the program itself
returns too, and the values and the states of the two are related.  The rules go along the binds of
both.
-/

namespace Cheshire.Lib

variable {ε δ S T α β α' β' : Type}

/-- The program, started in `s`, and the one that it follows, started in `t`, both return, and what
they return satisfies `Q`. -/
def Follows (m : EStateM ε S α) (n : EStateM δ T β) (s : S) (t : T) (Q : α → β → S → T → Prop) :
    Prop :=
  Returns n t fun b t' => Returns m s fun a s' => Q a b s' t'

section Rules

variable {m : EStateM ε S α} {n : EStateM δ T β} {f : α → EStateM ε S α'} {g : β → EStateM δ T β'}
  {s : S} {t : T}

@[simp] theorem follows_pure (a : α) (b : β) {Q : α → β → S → T → Prop} :
    Follows (pure a : EStateM ε S α) (pure b : EStateM δ T β) s t Q ↔ Q a b s t := Iff.rfl

theorem Follows.mono {Q Q' : α → β → S → T → Prop} (h : Follows m n s t Q)
    (hQ : ∀ a b s' t', Q a b s' t' → Q' a b s' t') : Follows m n s t Q' :=
  Returns.mono h fun b t' hm => hm.mono fun a s' => hQ a b s' t'

/-- The rule of sequencing. -/
theorem Follows.bind {P : α → β → S → T → Prop} {Q : α' → β' → S → T → Prop}
    (h : Follows m n s t P)
    (hf : ∀ a b s' t', P a b s' t' → Follows (f a) (g b) s' t' Q) :
    Follows (m >>= f) (n >>= g) s t Q := by
  obtain ⟨b, t₁, hn, hm⟩ := returns_iff.mp h
  obtain ⟨a, s₁, hm, hP⟩ := returns_iff.mp hm
  obtain ⟨b', t₂, hg, hfa⟩ := returns_iff.mp (hf a b s₁ t₁ hP)
  refine returns_bind.mpr (returns_iff.mpr ⟨b, t₁, hn, returns_iff.mpr ⟨b', t₂, hg, ?_⟩⟩)
  exact returns_bind.mpr (returns_iff.mpr ⟨a, s₁, hm, hfa⟩)

/-- A step of the program that the abstract one does not make. -/
theorem Follows.bind_left {P : α → S → Prop} {Q : α' → β → S → T → Prop} (h : Returns m s P)
    (hf : ∀ a s', P a s' → Follows (f a) n s' t Q) : Follows (m >>= f) n s t Q := by
  obtain ⟨a, s₁, hm, hP⟩ := returns_iff.mp h
  exact Returns.mono (hf a s₁ hP) fun b t' hfa =>
    returns_bind.mpr (returns_iff.mpr ⟨a, s₁, hm, hfa⟩)

/-- Both programs take the same branch. -/
theorem Follows.ite {c d : Prop} [Decidable c] [Decidable d] {m' : EStateM ε S α}
    {n' : EStateM δ T β} {Q : α → β → S → T → Prop} (hcd : c ↔ d) (h : d → Follows m n s t Q)
    (h' : ¬ d → Follows m' n' s t Q) :
    Follows (if c then m else m') (if d then n else n') s t Q := by
  by_cases hd : d
  · rw [if_pos hd, if_pos (hcd.mpr hd)]
    exact h hd
  · rw [if_neg hd, if_neg fun hc => hd (hcd.mp hc)]
    exact h' hd

/-- What is known of the abstract program. -/
theorem Follows.and_right {P : α → β → S → T → Prop} {Q : β → T → Prop} (h : Follows m n s t P)
    (hn : Returns n t Q) : Follows m n s t fun a b s' t' => P a b s' t' ∧ Q b t' := by
  obtain ⟨b, t', hrun, hQ⟩ := returns_iff.mp hn
  obtain ⟨b', t'', hrun', hm⟩ := returns_iff.mp h
  obtain ⟨rfl, rfl⟩ := EStateM.Result.ok.inj (hrun.symm.trans hrun')
  exact returns_iff.mpr ⟨b, t', hrun, hm.mono fun a s' hP => ⟨hP, hQ⟩⟩

/-- **What the abstract program returns**, the program that follows it returns. -/
theorem Follows.returns {P : α → β → S → T → Prop} {Q : β → T → Prop} (h : Follows m n s t P)
    (hn : Returns n t Q) : Returns m s fun a s' => ∃ b t', Q b t' ∧ P a b s' t' := by
  obtain ⟨b, t', -, hm⟩ := returns_iff.mp (h.and_right hn)
  exact hm.mono fun a s' ⟨hP, hQ⟩ => ⟨b, t', hQ, hP⟩

end Rules

/-! ### Programs that stop where the other one does -/

/-- The program, started in `s`, ends as the one that it mirrors, started in `t`: both return what
satisfies `Q`, or both stop, it with what `err` makes of the other one's error. -/
def Mirrors (err : δ → ε) (m : EStateM ε S α) (n : EStateM δ T β) (s : S) (t : T)
    (Q : α → β → S → T → Prop) : Prop :=
  Ends n t (fun b t' => Returns m s fun a s' => Q a b s' t') fun d _ =>
    Ends m s (fun _ _ => False) fun e _ => e = err d

section Mirrors

variable {err : δ → ε} {m : EStateM ε S α} {n : EStateM δ T β} {f : α → EStateM ε S α'}
  {g : β → EStateM δ T β'} {s : S} {t : T}

theorem mirrors_of_ok {Q : α → β → S → T → Prop} {b : β} {t' : T} (hn : n.run t = .ok b t')
    (h : Returns m s fun a s' => Q a b s' t') : Mirrors err m n s t Q := by
  unfold Mirrors Ends
  rw [hn]
  exact h

theorem mirrors_of_error {Q : α → β → S → T → Prop} {d : δ} {t' : T} (hn : n.run t = .error d t')
    (h : Ends m s (fun _ _ => False) fun e _ => e = err d) : Mirrors err m n s t Q := by
  unfold Mirrors Ends
  rw [hn]
  exact h

theorem mirrors_pure (a : α) (b : β) {Q : α → β → S → T → Prop} (h : Q a b s t) :
    Mirrors err (pure a : EStateM ε S α) (pure b : EStateM δ T β) s t Q := h

/-- A step of the program that the other one does not make. -/
theorem Mirrors.bind_left {P : α → S → Prop} {Q : α' → β → S → T → Prop} (h : Returns m s P)
    (hf : ∀ a s', P a s' → Mirrors err (f a) n s' t Q) : Mirrors err (m >>= f) n s t Q := by
  obtain ⟨a, s', hrun, hP⟩ := returns_iff.mp h
  have hat : Returns m s fun a' s'' => a' = a ∧ s'' = s' := returns_iff.mpr ⟨a, s', hrun, rfl, rfl⟩
  refine (hf a s' hP).mono (fun b t' hfa => ?_) fun d t' hfa => ?_
  · refine returns_bind.mpr (hat.mono ?_)
    rintro _ _ ⟨rfl, rfl⟩
    exact hfa
  · refine ends_bind.mpr (hat.ends.mono ?_ fun _ _ he => he)
    rintro _ _ ⟨rfl, rfl⟩
    exact hfa

/-- The rule of sequencing. -/
theorem Mirrors.bind {P : α → β → S → T → Prop} {Q : α' → β' → S → T → Prop}
    (h : Mirrors err m n s t P)
    (hf : ∀ a b s' t', P a b s' t' → Mirrors err (f a) (g b) s' t' Q) :
    Mirrors err (m >>= f) (n >>= g) s t Q := by
  refine ends_bind.mpr (Ends.mono h (fun b t' hm => ?_) fun d t' hm => ?_)
  · exact Mirrors.bind_left hm fun a s' hP => hf a b s' t' hP
  · exact ends_bind.mpr (hm.mono (fun _ _ h => h.elim) fun _ _ he => he)

/-- **How the other program ends**, the program that mirrors it ends. -/
theorem Mirrors.ends {P : α → β → S → T → Prop} {Q : β → T → Prop} {E : δ → T → Prop}
    (h : Mirrors err m n s t P) (hn : Ends n t Q E) :
    Ends m s (fun a s' => ∃ b t', Q b t' ∧ P a b s' t') fun e _ => ∃ d t', E d t' ∧ e = err d := by
  unfold Mirrors Ends at h
  unfold Ends at hn
  cases hrun : n.run t with
  | ok b t' =>
    simp only [hrun] at h hn
    exact (h.mono fun a s' hP => ⟨b, t', hn, hP⟩).ends
  | error d t' =>
    simp only [hrun] at h hn
    exact Ends.mono h (fun _ _ hno => hno.elim) fun e _ he => ⟨d, t', hn, he⟩

end Mirrors

/-! ### Programs along a map -/

/-- On the states that `f` comes to, the program does what the other one does on the states that `f`
comes from. -/
def Along (f : T → S) (n : EStateM ε T α) (m : EStateM ε S α) : Prop :=
  ∀ t, m (f t) =
    match n t with
    | .ok a t' => .ok a (f t')
    | .error e t' => .error e (f t')

section Along

variable {f : T → S} {m : EStateM ε S α} {n : EStateM ε T α}

theorem along_pure (a : α) : Along f (pure a : EStateM ε T α) (pure a) := fun _ => rfl

theorem along_throw (e : ε) : Along f (throw e : EStateM ε T α) (throw e) := fun _ => rfl

/-- The rule of sequencing. -/
theorem Along.bind {g : α → EStateM ε S β} {h : α → EStateM ε T β} (hm : Along f n m)
    (hg : ∀ a, Along f (h a) (g a)) : Along f (n >>= h) (m >>= g) := by
  intro t
  have hmt := hm t
  simp only [Bind.bind, EStateM.bind] at hmt ⊢
  cases hn : n t with
  | ok a t' =>
    simp only [hn] at hmt
    simp only [hmt]
    exact hg a t'
  | error e t' =>
    simp only [hn] at hmt
    simp only [hmt]

/-- Both programs take the same branch. -/
theorem Along.ite {c : Prop} [Decidable c] {m' : EStateM ε S α} {n' : EStateM ε T α}
    (h : c → Along f n m) (h' : ¬ c → Along f n' m') :
    Along f (if c then n else n') (if c then m else m') := by
  by_cases hc : c
  · rw [if_pos hc, if_pos hc]
    exact h hc
  · rw [if_neg hc, if_neg hc]
    exact h' hc

/-- The rule of a loop over a list. -/
theorem Along.forM {l : List β} {g : β → EStateM ε S Unit} {h : β → EStateM ε T Unit}
    (hg : ∀ b, Along f (h b) (g b)) : Along f (l.forM h) (l.forM g) := by
  induction l with
  | nil => exact along_pure ()
  | cons b l ih => exact (hg b).bind fun _ => ih

/-- **What the one program returns**, the other one returns. -/
theorem Along.returns (h : Along f n m) {t : T} {Q : α → S → Prop}
    (hn : Returns n t fun a t' => Q a (f t')) : Returns m (f t) Q := by
  obtain ⟨a, t', hrun, hQ⟩ := returns_iff.mp hn
  refine returns_iff.mpr ⟨a, f t', ?_, hQ⟩
  unfold EStateM.run at hrun ⊢
  rw [h t, hrun]

end Along

end Cheshire.Lib
