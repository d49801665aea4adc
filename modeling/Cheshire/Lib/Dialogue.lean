import Cheshire.Lib.Bytes

/-!
Two programs that talk over a pair of byte channels, each of them a loop.  When their turns answer
each other, round by round, every interleaving of the two goes through the same rounds: none of
them waits for ever, and between two rounds nothing is under way.
-/

namespace Cheshire.Lib.Dialogue

/-- A program that sends and receives bytes, and returns or stops with an error. -/
inductive Prog (ε α : Type) where
  | ret (a : α)
  | fail (e : ε)
  | send (b : Byte) (k : Prog ε α)
  | recv (k : Byte → Prog ε α)

variable {ε ε' α β σ τ : Type}

namespace Prog

def bind : Prog ε α → (α → Prog ε β) → Prog ε β
  | ret a, f => f a
  | fail e, _ => fail e
  | send b k, f => send b (k.bind f)
  | recv k, f => recv fun b => (k b).bind f

instance : Monad (Prog ε) where
  pure := ret
  bind := bind

end Prog

/-- A message, as one of the two sees it. -/
inductive Msg where
  | out (b : Byte)
  | inn (b : Byte)

/-- The message, as the other sees it. -/
def Msg.dual : Msg → Msg
  | out b => inn b
  | inn b => out b

lemma dual_out (bs : List Byte) : (bs.map Msg.out).map Msg.dual = bs.map .inn := by
  rw [List.map_map]
  rfl

lemma dual_inn (bs : List Byte) : (bs.map Msg.inn).map Msg.dual = bs.map .out := by
  rw [List.map_map]
  rfl

/-! ### What a program says and hears -/

/-- The program exchanges exactly these messages, in this order, and then returns `a`. -/
inductive Talks : Prog ε α → List Msg → α → Prop
  | ret (a : α) : Talks (.ret a) [] a
  | send {b : Byte} {k : Prog ε α} {l : List Msg} {a : α} :
      Talks k l a → Talks (.send b k) (.out b :: l) a
  | recv {b : Byte} {k : Byte → Prog ε α} {l : List Msg} {a : α} :
      Talks (k b) l a → Talks (.recv k) (.inn b :: l) a

/-- The rule of sequencing. -/
theorem Talks.bind {p : Prog ε α} {f : α → Prog ε β} {l l' : List Msg} {a : α} {b : β}
    (h : Talks p l a) (h' : Talks (f a) l' b) : Talks (p >>= f) (l ++ l') b := by
  induction h with
  | ret => exact h'
  | send _ ih => exact .send (ih h')
  | recv _ ih => exact .recv (ih h')

/-- The rule of sequencing for programs with a state. -/
theorem Talks.bindState {p : StateT σ (Prog ε) α} {f : α → StateT σ (Prog ε) β} {l l' : List Msg}
    {a : α} {b : β} {s s' s'' : σ} (h : Talks (p s) l (a, s')) (h' : Talks (f a s') l' (b, s'')) :
    Talks ((p >>= f) s) (l ++ l') (b, s'') := Talks.bind h h'

/-- The rule of a last step that only computes. -/
theorem Talks.map {p : Prog ε α} {l : List Msg} {a : α} (h : Talks p l a) (f : α → β) :
    Talks (p >>= fun a => pure (f a)) l (f a) := by
  rw [← List.append_nil l]
  exact h.bind (.ret (f a))

/-- The rule of a last step that only computes, for programs with a state. -/
theorem Talks.mapState {p : StateT σ (Prog ε) α} {l : List Msg} {a : α} {s s' : σ}
    (h : Talks (p s) l (a, s')) (f : α → β) :
    Talks ((p >>= fun a => pure (f a)) s) l (f a, s') := by
  have hret : Talks ((pure (f a) : StateT σ (Prog ε) β) s') [] (f a, s') := .ret _
  have : Talks ((p >>= fun a => pure (f a)) s) (l ++ []) (f a, s') := h.bindState hret
  rwa [List.append_nil] at this

/-- The rule of a loop over `i, …, i + n - 1` that exchanges a message a turn. -/
theorem Talks.forM_range' (f : ℕ → StateT σ (Prog ε) Unit) (msg : ℕ → Msg) (st : ℕ → σ) :
    ∀ n i : ℕ, (∀ j, i ≤ j → j < i + n → Talks (f j (st j)) [msg j] ((), st (j + 1))) →
      Talks ((List.range' i n).forM f (st i)) ((List.range' i n).map msg) ((), st (i + n)) := by
  intro n
  induction n with
  | zero =>
    intro i _
    exact .ret _
  | succ n ih =>
    intro i h
    have hfirst := h i (Nat.le_refl i) (by omega)
    have hrest := ih (i + 1) fun j h1 h2 => h j (by omega) (by omega)
    rw [Nat.add_assoc, Nat.add_comm 1] at hrest
    exact hfirst.bindState hrest

theorem Talks.forM_range (f : ℕ → StateT σ (Prog ε) Unit) (msg : ℕ → Msg) (st : ℕ → σ) {n : ℕ}
    (h : ∀ j < n, Talks (f j (st j)) [msg j] ((), st (j + 1))) :
    Talks ((List.range n).forM f (st 0)) ((List.range n).map msg) ((), st n) := by
  have := Talks.forM_range' f msg st n 0 fun j _ hj => h j (by omega)
  rwa [← List.range_eq_range', Nat.zero_add] at this

lemma talks_nil {p : Prog ε α} {a : α} (h : Talks p [] a) : p = .ret a := by
  cases h
  rfl

lemma talks_cons {p : Prog ε α} {x : Msg} {l : List Msg} {a : α} (h : Talks p (x :: l) a) :
    (∃ b k, x = .out b ∧ p = .send b k ∧ Talks k l a) ∨
      ∃ b k, x = .inn b ∧ p = .recv k ∧ Talks (k b) l a := by
  cases h with
  | send h => exact .inl ⟨_, _, rfl, rfl, h⟩
  | recv h => exact .inr ⟨_, _, rfl, rfl, h⟩

lemma talks_send {b : Byte} {k : Prog ε α} {l : List Msg} {a : α} (h : Talks (.send b k) l a) :
    ∃ l', l = .out b :: l' ∧ Talks k l' a := by
  cases h with
  | send h => exact ⟨_, rfl, h⟩

lemma talks_recv {k : Byte → Prog ε α} {l : List Msg} {a : α} (h : Talks (.recv k) l a) :
    ∃ b l', l = .inn b :: l' ∧ Talks (k b) l' a := by
  cases h with
  | recv h => exact ⟨_, _, rfl, h⟩

/-! ### The two programs and their channels -/

section Net

/-- A loop that is at its head is at the start of its body; the body returns what the next turn
starts with, or what the loop returns. -/
def unroll (f : σ → Prog ε (σ ⊕ α)) : Prog ε (σ ⊕ α) → Prog ε (σ ⊕ α)
  | .ret (.inl x) => f x
  | p => p

/-- The two programs, and the bytes on their way. -/
structure Net (ε ε' σ τ α β : Type) where
  fst : Prog ε (σ ⊕ α)
  snd : Prog ε' (τ ⊕ β)
  up : List Byte
  down : List Byte

/-- Both are at the heads of their loops, and nothing is on its way. -/
def rest (x : σ) (y : τ) : Net ε ε' σ τ α β := ⟨.ret (.inl x), .ret (.inl y), [], []⟩

variable (f : σ → Prog ε (σ ⊕ α)) (g : τ → Prog ε' (τ ⊕ β))

/-- One of the two sends a byte or receives one. -/
inductive Step : Net ε ε' σ τ α β → Net ε ε' σ τ α β → Prop
  | fstSend {p q u d b k} : unroll f p = .send b k → Step ⟨p, q, u, d⟩ ⟨k, q, u ++ [b], d⟩
  | fstRecv {p q u d b k} : unroll f p = .recv k → Step ⟨p, q, u, b :: d⟩ ⟨k b, q, u, d⟩
  | sndSend {p q u d b k} : unroll g q = .send b k → Step ⟨p, q, u, d⟩ ⟨p, k, u, d ++ [b]⟩
  | sndRecv {p q u d b k} : unroll g q = .recv k → Step ⟨p, q, b :: u, d⟩ ⟨p, k b, u, d⟩

/-- A number of steps. -/
inductive Steps : ℕ → Net ε ε' σ τ α β → Net ε ε' σ τ α β → Prop
  | refl (s : Net ε ε' σ τ α β) : Steps 0 s s
  | tail {n : ℕ} {s s' s'' : Net ε ε' σ τ α β} : Steps n s s' → Step f g s' s'' → Steps (n + 1) s s''

variable {f g} in
lemma Steps.head {n : ℕ} {s s' s'' : Net ε ε' σ τ α β} (h : Steps f g n s' s'')
    (hs : Step f g s s') : Steps f g (n + 1) s s'' := by
  induction h with
  | refl => exact .tail (.refl s) hs
  | tail _ hlast ih => exact .tail (ih hs) hlast

/-- A turn of the first loop and a turn of the second answer each other: the first one speaks
first, and hears the last word. -/
structure Round (x : σ) (y : τ) (x' : σ) (y' : τ) (l : List Msg) : Prop where
  fst : Talks (f x) l (.inl x')
  snd : Talks (g y) (l.map Msg.dual) (.inl y')
  begins : ∃ b t, l = .out b :: t
  ends : ∃ b t, l = t ++ [.inn b]

lemma ends_append (l : List Msg) {l' : List Msg} (h : ∃ b t, l' = t ++ [Msg.inn b]) :
    ∃ b t, l ++ l' = t ++ [Msg.inn b] := by
  obtain ⟨b, t, rfl⟩ := h
  exact ⟨b, l ++ t, (List.append_assoc ..).symm⟩

/-- A number of rounds, behind which the first program stops, and the second one waits. -/
structure Script where
  len : ℕ
  x : ℕ → σ
  y : ℕ → τ
  msgs : ℕ → List Msg
  round : ∀ k < len, Round f g (x k) (y k) (x (k + 1)) (y (k + 1)) (msgs k)
  stops : ∃ a, f (x len) = .ret (.inr a)
  waits : ∃ k, g (y len) = .recv k

end Net

variable {f : σ → Prog ε (σ ⊕ α)} {g : τ → Prog ε' (τ ⊕ β)}

namespace Script

variable (S : Script f g)

/-- The steps of the first `k` rounds. -/
def steps : ℕ → ℕ
  | 0 => 0
  | k + 1 => steps k + 2 * (S.msgs k).length

lemma steps_mono {k l : ℕ} (h : k ≤ l) : S.steps k ≤ S.steps l := by
  induction h with
  | refl => exact Nat.le_refl _
  | step _ ih => exact Nat.le_trans ih (Nat.le_add_right _ _)

/-- The second program begins a round by listening. -/
lemma listens {k : ℕ} (hk : k ≤ S.len) : ∃ c, g (S.y k) = .recv c := by
  rcases Nat.lt_or_eq_of_le hk with hk | rfl
  · obtain ⟨-, hsnd, ⟨b, t, hl⟩, -⟩ := S.round k hk
    rw [hl] at hsnd
    rcases talks_cons hsnd with ⟨b', k', hb, -⟩ | ⟨b', k', -, hg, -⟩
    · cases hb
    · exact ⟨k', hg⟩
  · exact S.waits

end Script

/-- Where the second program is in a round of which the messages `l` are still ahead of it. -/
def SndAt (g : τ → Prog ε' (τ ⊕ β)) (q : Prog ε' (τ ⊕ β)) (l : List Msg) (y : τ) : Prop :=
  (l = [] ∧ q = .ret (.inl y)) ∨ (l ≠ [] ∧ Talks (unroll g q) (l.map Msg.dual) (.inl y))

lemma SndAt.of_talks {q : Prog ε' (τ ⊕ β)} {l : List Msg} {y : τ}
    (h : Talks q (l.map Msg.dual) (.inl y)) : SndAt g q l y := by
  cases l with
  | nil =>
    cases h
    exact .inl ⟨rfl, rfl⟩
  | cons x l =>
    refine .inr ⟨List.cons_ne_nil x l, ?_⟩
    rcases talks_cons h with ⟨b, k, -, rfl, -⟩ | ⟨b, k, -, rfl, -⟩
    · exact h
    · exact h

/-- The states of a run, and how many steps have led there: between two rounds nothing is on its
way; inside a round the one that is behind still has to hear what is on its way. -/
inductive Script.Inv (S : Script f g) : ℕ → Net ε ε' σ τ α β → Prop
  | between {k : ℕ} : k ≤ S.len → Inv S (S.steps k) (rest (S.x k) (S.y k))
  | inside {k n : ℕ} {p : Prog ε (σ ⊕ α)} {q : Prog ε' (τ ⊕ β)} {u d : List Byte} {lp lq : List Msg} :
      k < S.len → Talks p lp (.inl (S.x (k + 1))) → SndAt g q lq (S.y (k + 1)) →
      (∃ b t, lp = t ++ [.inn b]) →
      (d = [] ∧ lq = u.map .out ++ lp) ∨ (u = [] ∧ lp = d.map .inn ++ lq) →
      n + lp.length + lq.length = S.steps (k + 1) → Inv S n ⟨p, q, u, d⟩

namespace Script

variable {S : Script f g}

/-- In a round a program is not at the head of its loop. -/
lemma unroll_of_talks {p : Prog ε (σ ⊕ α)} {l : List Msg} {a : σ ⊕ α} (h : Talks p l a)
    (hl : ∃ b t, l = t ++ [Msg.inn b]) : unroll f p = p := by
  cases h with
  | ret a =>
    obtain ⟨b, t, ht⟩ := hl
    exact absurd ht.symm (by simp)
  | send _ => rfl
  | recv _ => rfl

/-- What ends with a word that is heard still does behind one that is said. -/
lemma ends_of_out {b : Byte} {l : List Msg} (h : ∃ c t, Msg.out b :: l = t ++ [Msg.inn c]) :
    ∃ c t, l = t ++ [Msg.inn c] := by
  obtain ⟨c, t, ht⟩ := h
  cases t with
  | nil => cases ht
  | cons x t => exact ⟨c, t, (List.cons.inj ht).2⟩

/-- The first program has sent a byte. -/
lemma Inv.fstSend {n : ℕ} {p : Prog ε (σ ⊕ α)} {q : Prog ε' (τ ⊕ β)} {u d : List Byte} {b : Byte}
    {k : Prog ε (σ ⊕ α)} (h : S.Inv n ⟨p, q, u, d⟩) (hp : unroll f p = .send b k) :
    S.Inv (n + 1) ⟨k, q, u ++ [b], d⟩ := by
  generalize hs : Net.mk p q u d = s at h
  cases h with
  | @between i hi =>
    obtain ⟨rfl, rfl, rfl, rfl⟩ := Net.mk.inj hs
    have hp' : f (S.x i) = .send b k := hp
    rcases Nat.lt_or_eq_of_le hi with hi | rfl
    · -- a round begins
      obtain ⟨hfst, hsnd, -, hends⟩ := S.round i hi
      rw [hp'] at hfst
      obtain ⟨l, hl, hk⟩ := talks_send hfst
      rw [hl] at hends
      refine .inside hi hk (.inr ⟨?_, hsnd⟩) (ends_of_out hends) (.inl ⟨rfl, hl⟩) ?_
      · rw [hl]
        exact List.cons_ne_nil _ _
      · rw [steps, hl, List.length_cons]
        omega
    · obtain ⟨a, ha⟩ := S.stops
      rw [ha] at hp'
      cases hp'
  | @inside i _ _ _ _ _ lp lq hi hfst hsnd hends hchan hn =>
    obtain ⟨rfl, rfl, rfl, rfl⟩ := Net.mk.inj hs
    rw [unroll_of_talks hfst hends] at hp
    subst hp
    obtain ⟨l, rfl, hk⟩ := talks_send hfst
    refine .inside hi hk hsnd (ends_of_out hends) (.inl ?_) ?_
    · rcases hchan with ⟨rfl, rfl⟩ | ⟨rfl, hlp⟩
      · exact ⟨rfl, by simp⟩
      · -- whoever speaks has heard everything
        cases d with
        | nil => exact ⟨rfl, hlp.symm⟩
        | cons y d => cases hlp
    · rw [List.length_cons] at hn
      omega

/-- The first program has received a byte. -/
lemma Inv.fstRecv {n : ℕ} {p : Prog ε (σ ⊕ α)} {q : Prog ε' (τ ⊕ β)} {u d : List Byte} {b : Byte}
    {k : Byte → Prog ε (σ ⊕ α)} (h : S.Inv n ⟨p, q, u, b :: d⟩) (hp : unroll f p = .recv k) :
    S.Inv (n + 1) ⟨k b, q, u, d⟩ := by
  generalize hs : Net.mk p q u (b :: d) = s at h
  cases h with
  | between => cases (Net.mk.inj hs).2.2.2
  | @inside i _ _ _ _ _ lp lq hi hfst hsnd hends hchan hn =>
    obtain ⟨rfl, rfl, rfl, rfl⟩ := Net.mk.inj hs
    rw [unroll_of_talks hfst hends] at hp
    subst hp
    obtain ⟨c, l, rfl, hk⟩ := talks_recv hfst
    rcases hchan with ⟨hd, -⟩ | ⟨rfl, hlp⟩
    · cases hd
    obtain ⟨hc, rfl⟩ := List.cons.inj hlp
    obtain rfl := Msg.inn.inj hc
    simp only [List.length_cons] at hn
    obtain ⟨e, t, ht⟩ := hends
    cases t with
    | nil =>
      -- the last word of the round
      have hnil : d.map Msg.inn ++ lq = [] := (List.cons.inj ht).2
      obtain ⟨hd, rfl⟩ := List.append_eq_nil_iff.mp hnil
      obtain rfl := List.map_eq_nil_iff.mp hd
      rw [talks_nil hk]
      rcases hsnd with ⟨-, rfl⟩ | ⟨hne, -⟩
      · have hn' : n + 1 = S.steps (i + 1) := by simpa using hn
        rw [hn']
        exact .between hi
      · exact absurd rfl hne
    | cons x t =>
      refine .inside hi hk hsnd ⟨e, t, (List.cons.inj ht).2⟩ (.inr ⟨rfl, rfl⟩) ?_
      omega

/-- The second program has sent a byte. -/
lemma Inv.sndSend {n : ℕ} {p : Prog ε (σ ⊕ α)} {q : Prog ε' (τ ⊕ β)} {u d : List Byte} {b : Byte}
    {k : Prog ε' (τ ⊕ β)} (h : S.Inv n ⟨p, q, u, d⟩) (hq : unroll g q = .send b k) :
    S.Inv (n + 1) ⟨p, k, u, d ++ [b]⟩ := by
  generalize hs : Net.mk p q u d = s at h
  cases h with
  | @between i hi =>
    obtain ⟨rfl, rfl, rfl, rfl⟩ := Net.mk.inj hs
    obtain ⟨c, hc⟩ := S.listens hi
    have hq' : g (S.y i) = .send b k := hq
    rw [hc] at hq'
    cases hq'
  | @inside i _ _ _ _ _ lp lq hi hfst hsnd hends hchan hn =>
    obtain ⟨rfl, rfl, rfl, rfl⟩ := Net.mk.inj hs
    rcases hsnd with ⟨rfl, rfl⟩ | ⟨-, hsnd⟩
    · obtain ⟨c, hc⟩ := S.listens hi
      have hq' : g (S.y (i + 1)) = .send b k := hq
      rw [hc] at hq'
      cases hq'
    · rw [hq] at hsnd
      obtain ⟨l', hl', hk⟩ := talks_send hsnd
      obtain ⟨l, rfl, rfl⟩ : ∃ l, lq = .inn b :: l ∧ l' = l.map Msg.dual := by
        cases lq with
        | nil => cases hl'
        | cons x l =>
          obtain ⟨hx, hl⟩ := List.cons.inj hl'
          cases x with
          | out c => cases hx
          | inn c =>
            obtain rfl := Msg.out.inj hx
            exact ⟨l, rfl, hl.symm⟩
      rw [List.length_cons] at hn
      refine .inside hi hfst (.of_talks hk) hends (.inr ?_) (by omega)
      rcases hchan with ⟨rfl, hlq⟩ | ⟨rfl, rfl⟩
      · cases u with
        | nil => exact ⟨rfl, hlq.symm⟩
        | cons y u => cases hlq
      · exact ⟨rfl, by simp⟩

/-- The second program has received a byte. -/
lemma Inv.sndRecv {n : ℕ} {p : Prog ε (σ ⊕ α)} {q : Prog ε' (τ ⊕ β)} {u d : List Byte} {b : Byte}
    {k : Byte → Prog ε' (τ ⊕ β)} (h : S.Inv n ⟨p, q, b :: u, d⟩) (hq : unroll g q = .recv k) :
    S.Inv (n + 1) ⟨p, k b, u, d⟩ := by
  generalize hs : Net.mk p q (b :: u) d = s at h
  cases h with
  | between => cases (Net.mk.inj hs).2.2.1
  | @inside i _ _ _ _ _ lp lq hi hfst hsnd hends hchan hn =>
    obtain ⟨rfl, rfl, rfl, rfl⟩ := Net.mk.inj hs
    rcases hchan with ⟨rfl, rfl⟩ | ⟨hu, -⟩
    · rcases hsnd with ⟨hnil, -⟩ | ⟨-, hsnd⟩
      · cases hnil
      rw [hq] at hsnd
      obtain ⟨c, l', hl', hk⟩ := talks_recv hsnd
      obtain ⟨hc, rfl⟩ := List.cons.inj hl'
      obtain rfl := Msg.inn.inj hc
      refine .inside hi hfst (.of_talks hk) hends (.inl ⟨rfl, rfl⟩) ?_
      rw [List.map_cons, List.cons_append, List.length_cons] at hn
      have hlen : n + 1 + lp.length + (u.map Msg.out ++ lp).length = S.steps (i + 1) := by
        omega
      exact hlen
    · cases hu

/-- **What every step preserves.** -/
theorem Inv.step {n : ℕ} {s s' : Net ε ε' σ τ α β} (h : S.Inv n s) (hs : Step f g s s') :
    S.Inv (n + 1) s' := by
  cases hs with
  | fstSend hp => exact h.fstSend hp
  | fstRecv hp => exact h.fstRecv hp
  | sndSend hq => exact h.sndSend hq
  | sndRecv hq => exact h.sndRecv hq

/-- **What holds in every run.** -/
theorem inv_of_steps {n : ℕ} {s : Net ε ε' σ τ α β}
    (h : Steps f g n (rest (S.x 0) (S.y 0)) s) : S.Inv n s := by
  generalize hs : rest (S.x 0) (S.y 0) = s₀ at h
  induction h with
  | refl =>
    subst hs
    exact .between (Nat.zero_le S.len)
  | tail _ hstep ih => exact (ih hs).step hstep

/-! ### What the invariant says -/

/-- A run takes no more steps than the rounds have. -/
theorem Inv.le {n : ℕ} {s : Net ε ε' σ τ α β} (h : S.Inv n s) : n ≤ S.steps S.len := by
  cases h with
  | between hk => exact S.steps_mono hk
  | @inside k _ _ _ _ _ lp lq hk _ _ _ _ hn =>
    have : S.steps (k + 1) ≤ S.steps S.len := S.steps_mono hk
    omega

/-- The first program never stops with an error. -/
theorem Inv.ne_fail {n : ℕ} {s : Net ε ε' σ τ α β} (h : S.Inv n s) (e : ε) : s.fst ≠ .fail e := by
  intro he
  cases h with
  | between => cases he
  | inside _ hfst _ _ _ _ =>
    have he' := he
    subst he'
    cases hfst

/-- **When the first program is between two turns, so is the second one**, and nothing is on its
way. -/
theorem Inv.between_of_head {n : ℕ} {s : Net ε ε' σ τ α β} (h : S.Inv n s) {x : σ}
    (hx : s.fst = .ret (.inl x)) : ∃ k ≤ S.len, x = S.x k ∧ s = rest (S.x k) (S.y k) := by
  cases h with
  | @between k hk => exact ⟨k, hk, (Sum.inl.inj (Prog.ret.inj hx)).symm, rfl⟩
  | inside _ hfst _ hends _ _ =>
    have hx' := hx
    subst hx'
    obtain ⟨b, t, rfl⟩ := hends
    generalize hl : t ++ [Msg.inn b] = l at hfst
    cases hfst
    exact absurd hl (by simp)

/-- When both have the same messages ahead, one of them speaks. -/
lemma exists_step {p : Prog ε (σ ⊕ α)} {q : Prog ε' (τ ⊕ β)} {l : List Msg} {a : σ ⊕ α} {y : τ}
    (hp : unroll f p = p) (hfst : Talks p l a) (hsnd : SndAt g q l y)
    (hl : ∃ b t, l = t ++ [Msg.inn b]) : ∃ s', Step f g ⟨p, q, [], []⟩ s' := by
  cases l with
  | nil =>
    obtain ⟨b, t, ht⟩ := hl
    exact absurd ht.symm (by simp)
  | cons x l =>
    rcases talks_cons hfst with ⟨b, k, -, rfl, -⟩ | ⟨b, k, rfl, -, -⟩
    · exact ⟨_, .fstSend hp⟩
    · rcases hsnd with ⟨hnil, -⟩ | ⟨-, hsnd⟩
      · cases hnil
      · rcases talks_cons hsnd with ⟨c, k', -, hq, -⟩ | ⟨c, k', hc, -⟩
        · exact ⟨_, .sndSend hq⟩
        · cases hc

/-- **Nobody waits for ever**: until the last round is over, one of the two can go on. -/
theorem Inv.progress {n : ℕ} {s : Net ε ε' σ τ α β} (h : S.Inv n s) :
    s = rest (S.x S.len) (S.y S.len) ∨ ∃ s', Step f g s s' := by
  cases h with
  | @between k hk =>
    rcases Nat.lt_or_eq_of_le hk with hk | rfl
    · obtain ⟨hfst, -, ⟨b, t, hl⟩, -⟩ := S.round k hk
      rw [hl] at hfst
      rcases talks_cons hfst with ⟨b', c, -, hf, -⟩ | ⟨b', c, hb, -⟩
      · exact .inr ⟨_, .fstSend (b := b') (k := c) hf⟩
      · cases hb
    · exact .inl rfl
  | @inside i _ p q u d lp lq hi hfst hsnd hends hchan hn =>
    refine .inr ?_
    have hp : unroll f p = p := unroll_of_talks hfst hends
    rcases hchan with ⟨rfl, hlq⟩ | ⟨rfl, hlp⟩
    · cases u with
      | nil =>
        obtain rfl : lq = lp := hlq
        exact exists_step hp hfst hsnd hends
      | cons b u =>
        -- the second one has something to hear
        rw [hlq] at hsnd
        rcases hsnd with ⟨hnil, -⟩ | ⟨-, hsnd⟩
        · cases hnil
        · rcases talks_cons hsnd with ⟨c, k, hc, -⟩ | ⟨c, k, -, hq, -⟩
          · cases hc
          · exact ⟨_, .sndRecv hq⟩
    · cases d with
      | nil =>
        obtain rfl : lp = lq := hlp
        exact exists_step hp hfst hsnd hends
      | cons b d =>
        -- the first one has something to hear
        rw [hlp] at hfst
        rcases talks_cons hfst with ⟨c, k, hc, -⟩ | ⟨c, k, -, rfl, -⟩
        · cases hc
        · exact ⟨_, .fstRecv hp⟩

/-- **Every run comes to the end of the last round**, if it only goes on. -/
theorem Inv.exists_finish {n : ℕ} {s : Net ε ε' σ τ α β} (h : S.Inv n s) :
    ∃ m, Steps f g m s (rest (S.x S.len) (S.y S.len)) := by
  obtain ⟨m, hm⟩ : ∃ m, m = S.steps S.len - n := ⟨_, rfl⟩
  induction m generalizing n s with
  | zero =>
    rcases h.progress with rfl | ⟨s', hs⟩
    · exact ⟨0, .refl _⟩
    · have := (h.step hs).le
      omega
  | succ m ih =>
    rcases h.progress with rfl | ⟨s', hs⟩
    · exact ⟨0, .refl _⟩
    · obtain ⟨k, hk⟩ := ih (h.step hs) (by omega)
      exact ⟨k + 1, hk.head hs⟩

end Script

end Cheshire.Lib.Dialogue
