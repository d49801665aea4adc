import Cheshire.Lib.Dialogue

/-!
A whole conversation of two loops, over as many turns as either of them takes.  When what the one
says and hears is what the other hears and says, every interleaving is a part of this conversation
and can be completed, and how they come out is settled before the first byte.
-/

namespace Cheshire.Lib.Dialogue

variable {ε ε' α β σ τ : Type}

/-! ### Errors -/

/-- The program with its errors renamed. -/
def Prog.mapFail (h : ε → ε') : Prog ε α → Prog ε' α
  | .ret a => .ret a
  | .fail e => .fail (h e)
  | .send b k => .send b (k.mapFail h)
  | .recv k => .recv fun b => (k b).mapFail h

lemma Talks.mapFail {p : Prog ε α} {l : List Msg} {a : α} (h : Talks p l a) (e : ε → ε') :
    Talks (p.mapFail e) l a := by
  induction h with
  | ret a => exact .ret a
  | send _ ih => exact .send ih
  | recv _ ih => exact .recv ih

/-! ### One of the two -/

section Speaks

variable {f : σ → Prog ε (σ ⊕ α)}

/-- The loop says and hears these messages from `p` on, and then it is at `p'`. -/
inductive Speaks (f : σ → Prog ε (σ ⊕ α)) : Prog ε (σ ⊕ α) → List Msg → Prog ε (σ ⊕ α) → Prop
  | refl (p : Prog ε (σ ⊕ α)) : Speaks f p [] p
  | send {p k p' : Prog ε (σ ⊕ α)} {b : Byte} {l : List Msg} :
      unroll f p = .send b k → Speaks f k l p' → Speaks f p (.out b :: l) p'
  | recv {p p' : Prog ε (σ ⊕ α)} {k : Byte → Prog ε (σ ⊕ α)} {b : Byte} {l : List Msg} :
      unroll f p = .recv k → Speaks f (k b) l p' → Speaks f p (.inn b :: l) p'

lemma Speaks.trans {p p' p'' : Prog ε (σ ⊕ α)} {l l' : List Msg} (h : Speaks f p l p')
    (h' : Speaks f p' l' p'') : Speaks f p (l ++ l') p'' := by
  induction h with
  | refl => exact h'
  | send hp _ ih => exact .send hp (ih h')
  | recv hp _ ih => exact .recv hp (ih h')

/-- The rule of a turn. -/
lemma Speaks.of_talks {p : Prog ε (σ ⊕ α)} {l : List Msg} {a : σ ⊕ α} (h : Talks p l a) :
    Speaks f p l (.ret a) := by
  induction h with
  | ret a => exact .refl _
  | send _ ih => exact .send rfl ih
  | recv _ ih => exact .recv rfl ih

/-- The rule of a turn that the loop begins. -/
lemma Speaks.turn {x : σ} {l : List Msg} {a : σ ⊕ α} (h : Talks (f x) l a) (hl : l ≠ []) :
    Speaks f (.ret (.inl x)) l (.ret a) := by
  generalize hp : f x = p at h
  cases h with
  | ret => exact absurd rfl hl
  | send h => exact .send hp (.of_talks h)
  | recv h => exact .recv hp (.of_talks h)

/-- Whoever has returned says no more. -/
lemma Speaks.of_ret {a : α} {l : List Msg} {p' : Prog ε (σ ⊕ α)}
    (h : Speaks f (.ret (.inr a)) l p') : l = [] ∧ p' = .ret (.inr a) := by
  cases h with
  | refl => exact ⟨rfl, rfl⟩
  | send hp _ => cases hp
  | recv hp _ => cases hp

/-- Whoever has stopped says no more. -/
lemma Speaks.of_fail {e : ε} {l : List Msg} {p' : Prog ε (σ ⊕ α)} (h : Speaks f (.fail e) l p') :
    p' = .fail e := by
  cases h with
  | refl => rfl
  | send hp _ => cases hp
  | recv hp _ => cases hp

lemma Speaks.send_inv {p p' k : Prog ε (σ ⊕ α)} {b : Byte} {x : Msg} {l : List Msg}
    (h : Speaks f p (x :: l) p') (hp : unroll f p = .send b k) : x = .out b ∧ Speaks f k l p' := by
  cases h with
  | send hp' h' =>
    obtain ⟨rfl, rfl⟩ := Prog.send.inj (hp.symm.trans hp')
    exact ⟨rfl, h'⟩
  | recv hp' _ => cases hp.symm.trans hp'

lemma Speaks.recv_inv {p p' : Prog ε (σ ⊕ α)} {k : Byte → Prog ε (σ ⊕ α)} {x : Msg} {l : List Msg}
    (h : Speaks f p (x :: l) p') (hp : unroll f p = .recv k) :
    ∃ b, x = .inn b ∧ Speaks f (k b) l p' := by
  cases h with
  | send hp' _ => cases hp.symm.trans hp'
  | recv hp' h' =>
    obtain rfl := Prog.recv.inj (hp.symm.trans hp')
    exact ⟨_, rfl, h'⟩

/-- The loop does not speak unless it is spoken to. -/
def Quiet (f : σ → Prog ε (σ ⊕ α)) (p : Prog ε (σ ⊕ α)) : Prop := ∀ b k, unroll f p ≠ .send b k

lemma quiet_ret (a : α) : Quiet f (.ret (.inr a)) := by
  intro b k h
  cases h

lemma Quiet.ne_nil {p p' k : Prog ε (σ ⊕ α)} {b : Byte} {l : List Msg} (hquiet : Quiet f p')
    (h : Speaks f p l p') (hp : unroll f p = .send b k) : l ≠ [] := by
  rintro rfl
  cases h
  exact hquiet b k hp

end Speaks

/-! ### Both -/

section Both

variable {f : σ → Prog ε (σ ⊕ α)} {g : τ → Prog ε' (τ ⊕ β)}

/-- The states of a conversation `l` that ends with the one at `p'` and the other at `q'`, with what
is still ahead of either, and how many steps have led there: the one that is behind has still to
hear what is on its way. -/
structure Conversing (f : σ → Prog ε (σ ⊕ α)) (g : τ → Prog ε' (τ ⊕ β)) (p' : Prog ε (σ ⊕ α))
    (q' : Prog ε' (τ ⊕ β)) (l : List Msg) (n : ℕ) (s : Net ε ε' σ τ α β) (lp lq : List Msg) :
    Prop where
  fst : Speaks f s.fst lp p'
  snd : Speaks g s.snd (lq.map Msg.dual) q'
  chan : (s.down = [] ∧ lq = s.up.map .out ++ lp) ∨ (s.up = [] ∧ lp = s.down.map .inn ++ lq)
  suffix : lq <:+ l
  steps : n + lp.length + lq.length = 2 * l.length

variable {p' : Prog ε (σ ⊕ α)} {q' : Prog ε' (τ ⊕ β)} {l : List Msg} {n : ℕ}
  {s s' : Net ε ε' σ τ α β} {lp lq : List Msg}

/-- **What every step preserves.** -/
theorem Conversing.step (h : Conversing f g p' q' l n s lp lq) (hp' : Quiet f p')
    (hq' : Quiet g q') (hs : Step f g s s') :
    ∃ lp' lq', Conversing f g p' q' l (n + 1) s' lp' lq' := by
  obtain ⟨hfst, hsnd, hchan, hl, hn⟩ := h
  cases hs with
  | @fstSend p q u d b k hp =>
    obtain ⟨x, lp, rfl⟩ := List.exists_cons_of_ne_nil (hp'.ne_nil hfst hp)
    obtain ⟨rfl, hk⟩ := hfst.send_inv hp
    refine ⟨lp, lq, hk, hsnd, .inl ?_, hl, by rw [List.length_cons] at hn; omega⟩
    rcases hchan with ⟨rfl, rfl⟩ | ⟨rfl, hlp⟩
    · exact ⟨rfl, by simp⟩
    · -- whoever speaks has heard everything
      cases d with
      | nil => exact ⟨rfl, hlp.symm⟩
      | cons c d => cases (List.cons.inj hlp).1
  | @fstRecv p q u d b k hp =>
    rcases hchan with ⟨hd, -⟩ | ⟨rfl, rfl⟩
    · cases hd
    · obtain ⟨c, hc, hk⟩ := hfst.recv_inv hp
      obtain rfl := Msg.inn.inj hc
      refine ⟨d.map .inn ++ lq, lq, hk, hsnd, .inr ⟨rfl, rfl⟩, hl, ?_⟩
      simp only [List.map_cons, List.cons_append, List.length_cons] at hn
      omega
  | @sndSend p q u d b k hq =>
    have hne := hq'.ne_nil hsnd hq
    cases lq with
    | nil => exact absurd rfl hne
    | cons x lq =>
      obtain ⟨hx, hk⟩ := hsnd.send_inv hq
      cases x with
      | out c => cases hx
      | inn c =>
        obtain rfl := Msg.out.inj hx
        refine ⟨lp, lq, hfst, hk, .inr ?_, (List.suffix_cons _ _).trans hl,
          by rw [List.length_cons] at hn; omega⟩
        rcases hchan with ⟨rfl, hlq⟩ | ⟨rfl, rfl⟩
        · cases u with
          | nil => exact ⟨rfl, hlq.symm⟩
          | cons c u => cases (List.cons.inj hlq).1
        · exact ⟨rfl, by simp⟩
  | @sndRecv p q u d b k hq =>
    rcases hchan with ⟨rfl, rfl⟩ | ⟨hu, -⟩
    · obtain ⟨c, hc, hk⟩ := hsnd.recv_inv hq
      obtain rfl := Msg.inn.inj hc
      have hl' : Msg.out b :: (u.map Msg.out ++ lp) <:+ l := hl
      refine ⟨lp, u.map .out ++ lp, hfst, hk, .inl ⟨rfl, rfl⟩, (List.suffix_cons _ _).trans hl', ?_⟩
      simp only [List.map_cons, List.cons_append, List.length_cons] at hn
      omega
    · cases hu

/-- **What holds in every run.** -/
theorem Conversing.of_steps {p : Prog ε (σ ⊕ α)} {q : Prog ε' (τ ⊕ β)} (hp : Speaks f p l p')
    (hq : Speaks g q (l.map Msg.dual) q') (hp' : Quiet f p') (hq' : Quiet g q')
    (h : Steps f g n ⟨p, q, [], []⟩ s) : ∃ lp lq, Conversing f g p' q' l n s lp lq := by
  generalize hs : (⟨p, q, [], []⟩ : Net ε ε' σ τ α β) = s₀ at h
  induction h with
  | refl =>
    subst hs
    exact ⟨l, l, hp, hq, .inl ⟨rfl, rfl⟩, List.suffix_refl l, by omega⟩
  | tail _ hstep ih =>
    obtain ⟨lp, lq, hconv⟩ := ih hs
    exact hconv.step hp' hq' hstep

/-- The conversation goes on until both have come to its end. -/
lemma Conversing.progress (h : Conversing f g p' q' l n s lp lq) :
    s = ⟨p', q', [], []⟩ ∨ ∃ s', Step f g s s' := by
  obtain ⟨p, q, u, d⟩ := s
  obtain ⟨hfst, hsnd, hchan, -, -⟩ := h
  -- the one that is ahead speaks next, or the one that is behind hears what is on its way
  rcases hchan with ⟨rfl, rfl⟩ | ⟨rfl, rfl⟩
  · cases u with
    | cons b u =>
      cases hsnd with
      | recv hq _ => exact .inr ⟨_, .sndRecv hq⟩
    | nil =>
      cases hfst with
      | refl =>
        cases hsnd
        exact .inl rfl
      | send hp _ => exact .inr ⟨_, .fstSend hp⟩
      | recv _ _ =>
        cases hsnd with
        | send hq _ => exact .inr ⟨_, .sndSend hq⟩
  · cases d with
    | cons b d =>
      cases hfst with
      | recv hp _ => exact .inr ⟨_, .fstRecv hp⟩
    | nil =>
      cases hfst with
      | refl =>
        cases hsnd
        exact .inl rfl
      | send hp _ => exact .inr ⟨_, .fstSend hp⟩
      | recv _ _ =>
        cases hsnd with
        | send hq _ => exact .inr ⟨_, .sndSend hq⟩

/-- **Every run can be completed**, and then both are where the conversation ends. -/
theorem Conversing.exists_finish (hp' : Quiet f p') (hq' : Quiet g q') : ∀ (k n : ℕ)
    {s : Net ε ε' σ τ α β} {lp lq : List Msg}, Conversing f g p' q' l n s lp lq →
      2 * l.length ≤ n + k → ∃ n', Steps f g n' s ⟨p', q', [], []⟩ := by
  intro k
  induction k with
  | zero =>
    intro n s lp lq h hle
    rcases h.progress with rfl | ⟨s', hs'⟩
    · exact ⟨0, .refl _⟩
    · obtain ⟨lp', lq', h'⟩ := h.step hp' hq' hs'
      have := h'.steps
      omega
  | succ k ih =>
    intro n s lp lq h hle
    rcases h.progress with rfl | ⟨s', hs'⟩
    · exact ⟨0, .refl _⟩
    · obtain ⟨lp', lq', h'⟩ := h.step hp' hq' hs'
      obtain ⟨n', hn'⟩ := ih (n + 1) h' (by omega)
      exact ⟨n' + 1, hn'.head hs'⟩

/-- A program that returns in the end does not stop before. -/
lemma Conversing.fst_ne_fail {a : α} (h : Conversing f g (.ret (.inr a)) q' l n s lp lq) (e : ε) :
    s.fst ≠ .fail e := by
  intro hs
  have hfst := h.fst
  rw [hs] at hfst
  cases hfst.of_fail

/-- **The first program returns last**, if it has the last word to hear, and returns what the
conversation gives it. -/
theorem Conversing.eq_of_fst_ret {a a' : α} (h : Conversing f g (.ret (.inr a)) q' l n s lp lq)
    (hl : ∃ b t, l = t ++ [.inn b]) (hs : s.fst = .ret (.inr a')) :
    s = ⟨.ret (.inr a), q', [], []⟩ := by
  obtain ⟨p, q, u, d⟩ := s
  obtain ⟨hfst, hsnd, hchan, ⟨t', hsuffix⟩, -⟩ := h
  obtain rfl : p = .ret (.inr a') := hs
  obtain ⟨rfl, ha⟩ := hfst.of_ret
  obtain rfl := Sum.inr.inj (Prog.ret.inj ha)
  rcases hchan with ⟨rfl, hlq⟩ | ⟨rfl, hlq⟩
  · rw [List.append_nil] at hlq
    subst hlq
    rcases List.eq_nil_or_concat u with rfl | ⟨u', b, rfl⟩
    · cases hsnd
      rfl
    · -- a byte that is still to be heard is not the last word
      obtain ⟨c, t, rfl⟩ := hl
      simp only [List.concat_eq_append, List.map_append, ← List.append_assoc] at hsuffix
      cases (List.append_inj' hsuffix rfl).2
  · obtain ⟨hd, rfl⟩ := List.append_eq_nil_iff.mp hlq.symm
    obtain rfl := List.map_eq_nil_iff.mp hd
    cases hsnd
    rfl

end Both

end Cheshire.Lib.Dialogue
