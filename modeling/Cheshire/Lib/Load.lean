import Cheshire.Lib.Mem
import Mathlib.Data.List.Basic

/-!
Loading an image that comes in pieces.  A loader stores its pieces one after another, and of each
piece a number of bytes that need not be its length: behind its end come zeros, and what is left
out keeps what was there.  The image arrives when the zeros fall on zeros, or on pieces that are
still to come.
-/

namespace Cheshire.Lib.Load

variable {w : ℕ}

/-- A piece of an image: where it belongs, and its bytes. -/
structure Piece (w : ℕ) where
  addr : BitVec w
  bytes : List Byte

namespace Piece

/-- How far behind the start of the piece the address is. -/
def offs (p : Piece w) (x : BitVec w) : ℕ := (x - p.addr).toNat

/-- The address belongs to the piece. -/
def Has (p : Piece w) (x : BitVec w) : Prop := p.offs x < p.bytes.length

/-- The byte of the piece at an address; behind its end it is zero. -/
def byteAt (p : Piece w) (x : BitVec w) : Byte := p.bytes.getD (p.offs x) 0

/-- The first `n` bytes of the piece, and zeros behind its end. -/
def stream (p : Piece w) (n : ℕ) : List Byte := (List.range n).map fun i => p.bytes.getD i 0

@[simp] lemma length_stream (p : Piece w) (n : ℕ) : (p.stream n).length = n := by simp [stream]

/-- No byte is left out and none is added. -/
lemma stream_length (p : Piece w) : p.stream p.bytes.length = p.bytes := by
  refine List.ext_getElem (by simp) fun i h₁ h₂ => ?_
  simp [stream, h₂]

/-- A stream from the place `i` on. -/
lemma stream_add (p : Piece w) (i n : ℕ) : p.stream (i + n) =
    p.stream i ++ (List.range n).map fun j => p.bytes.getD (i + j) 0 := by
  unfold stream
  rw [List.range_add, List.map_append, List.map_map]
  rfl

/-- An address behind the piece to which zeros are written when `n` of its bytes are. -/
def InPad (p : Piece w) (n : ℕ) (x : BitVec w) : Prop := p.bytes.length ≤ p.offs x ∧ p.offs x < n

/-- An address of the piece that is left out when `n` of its bytes are written. -/
def Lost (p : Piece w) (n : ℕ) (x : BitVec w) : Prop := n ≤ p.offs x ∧ p.Has x

/-- No address belongs to both. -/
def Apart (p q : Piece w) : Prop := ∀ x, p.Has x → ¬ q.Has x

instance : Std.Symm (Apart (w := w)) := ⟨fun _ _ h x hq hp => h x hp hq⟩

end Piece

/-- The memory behind a list of pieces, of each of which `n` bytes are written. -/
def load (n : Piece w → ℕ) (ps : List (Piece w)) (m : Mem w) : Mem w :=
  ps.foldl (fun m p => m.write p.addr (p.stream (n p))) m

/-- The memory holds the pieces. -/
def Holds (ps : List (Piece w)) (m : Mem w) : Prop :=
  ∀ p ∈ ps, m.slice p.addr p.bytes.length = p.bytes

/-- The memories agree everywhere but in the pieces. -/
def Unchanged (ps : List (Piece w)) (m m' : Mem w) : Prop :=
  ∀ x, (∀ p ∈ ps, ¬ p.Has x) → m' x = m x

/-- The zeros behind `q`, which comes later, fall on bytes of `p` that are zero. -/
def Spares (n : Piece w → ℕ) (p q : Piece w) : Prop :=
  ∀ x, p.Has x → q.InPad (n q) x → p.byteAt x = 0

/-! ### One piece -/

variable {n : Piece w → ℕ} {m : Mem w}

lemma load_cons (p : Piece w) (ps : List (Piece w)) :
    load n (p :: ps) m = load n ps (m.write p.addr (p.stream (n p))) := rfl

lemma write_stream_apply (p : Piece w) (k : ℕ) (x : BitVec w) :
    m.write p.addr (p.stream k) x = if p.offs x < k then p.byteAt x else m x := by
  unfold Mem.write
  split
  · next h =>
    rw [List.getD_eq_getElem _ _ (by rw [Piece.length_stream]; exact h)]
    simp [Piece.stream, Piece.byteAt, Piece.offs]
  · next h =>
    exact List.getD_eq_default _ _ (by rw [Piece.length_stream]; exact Nat.not_lt.mp h)

lemma byteAt_of_not_has {p : Piece w} {x : BitVec w} (h : ¬ p.Has x) : p.byteAt x = 0 :=
  List.getD_eq_default _ _ (Nat.not_lt.mp h)

/-- The memory holds a piece when it holds its bytes one by one. -/
lemma slice_eq_iff (p : Piece w) (hw : p.bytes.length ≤ 2 ^ w) :
    m.slice p.addr p.bytes.length = p.bytes ↔ ∀ x, p.Has x → m x = p.byteAt x := by
  constructor
  · intro h x hx
    have hget : (m.slice p.addr p.bytes.length).getD (p.offs x) 0 = p.byteAt x := by
      rw [h, Piece.byteAt]
    rwa [Mem.getD_slice _ _ hx, Piece.offs, Mem.add_toNat_sub] at hget
  · intro h
    refine List.ext_getElem (by simp) fun i h₁ h₂ => ?_
    have hoffs : p.offs (p.addr + BitVec.ofNat w i) = i :=
      Mem.toNat_add_sub_self p.addr (Nat.lt_of_lt_of_le h₂ hw)
    rw [Mem.getElem_slice, h _ (by rw [Piece.Has, hoffs]; exact h₂), Piece.byteAt, hoffs,
      List.getD_eq_getElem _ _ h₂]

/-! ### Many pieces -/

/-- Off the pieces a load leaves zeros where it pads, and nothing else. -/
theorem load_apply_of_not_has {x : BitVec w} :
    ∀ (ps : List (Piece w)) (m : Mem w), (∀ p ∈ ps, ¬ p.Has x) →
      ((∃ p ∈ ps, p.InPad (n p) x) → load n ps m x = 0) ∧
      ((∀ p ∈ ps, ¬ p.InPad (n p) x) → load n ps m x = m x) := by
  intro ps
  induction ps with
  | nil =>
    intro m _
    exact ⟨fun ⟨_, hp, _⟩ => absurd hp List.not_mem_nil, fun _ => rfl⟩
  | cons p ps ih =>
    intro m h
    rw [List.forall_mem_cons] at h
    obtain ⟨hp, hps⟩ := h
    obtain ⟨ih₀, ih₁⟩ := ih (m.write p.addr (p.stream (n p))) hps
    rw [load_cons]
    constructor
    · intro hpad
      by_cases hlater : ∃ q ∈ ps, q.InPad (n q) x
      · exact ih₀ hlater
      · rw [ih₁ fun q hq hqx => hlater ⟨q, hq, hqx⟩, write_stream_apply]
        obtain ⟨q, hq, hqx⟩ := hpad
        rcases List.mem_cons.mp hq with rfl | hq
        · rw [if_pos hqx.2, byteAt_of_not_has hp]
        · exact absurd ⟨q, hq, hqx⟩ hlater
    · intro hpad
      rw [List.forall_mem_cons] at hpad
      rw [ih₁ hpad.2, write_stream_apply, if_neg fun hlt => hpad.1 ⟨Nat.not_lt.mp hp, hlt⟩]

/-- **What lies off the pieces is unchanged** exactly when the zeros fall on zeros there. -/
theorem unchanged_load_iff (ps : List (Piece w)) :
    Unchanged ps m (load n ps m) ↔
      ∀ p ∈ ps, ∀ x, p.InPad (n p) x → (∀ q ∈ ps, ¬ q.Has x) → m x = 0 := by
  constructor
  · intro h p hp x hpad hoff
    rw [← h x hoff]
    exact (load_apply_of_not_has ps m hoff).1 ⟨p, hp, hpad⟩
  · intro h x hoff
    by_cases hpad : ∃ p ∈ ps, p.InPad (n p) x
    · obtain ⟨p, hp, hpx⟩ := hpad
      rw [(load_apply_of_not_has ps m hoff).1 ⟨p, hp, hpx⟩, h p hp x hpx hoff]
    · exact (load_apply_of_not_has ps m hoff).2 fun p hp hpx => hpad ⟨p, hp, hpx⟩

/-- The first piece is there in the end exactly when the later ones spare it, and what is left out
of it was there before. -/
theorem slice_load_cons_iff {p : Piece w} {ps : List (Piece w)} (hw : p.bytes.length ≤ 2 ^ w)
    (happ : ∀ q ∈ ps, p.Apart q) (hpad : ∀ q ∈ ps, ∀ x, p.Lost (n p) x → ¬ q.InPad (n q) x) :
    (load n (p :: ps) m).slice p.addr p.bytes.length = p.bytes ↔
      (∀ q ∈ ps, Spares n p q) ∧ ∀ x, p.Lost (n p) x → m x = p.byteAt x := by
  rw [slice_eq_iff p hw, load_cons]
  have hval (x : BitVec w) (hx : p.Has x) : m.write p.addr (p.stream (n p)) x =
      if p.offs x < n p then p.byteAt x else m x := write_stream_apply p (n p) x
  have hpost (x : BitVec w) (hx : p.Has x) := load_apply_of_not_has (n := n) ps
    (m.write p.addr (p.stream (n p))) fun q hq => happ q hq x hx
  constructor
  · intro h
    refine ⟨fun q hq x hx hqx => ?_, fun x hx => ?_⟩
    · rw [← h x hx]
      exact (hpost x hx).1 ⟨q, hq, hqx⟩
    · rw [← h x hx.2, (hpost x hx.2).2 fun q hq => hpad q hq x hx, hval x hx.2,
        if_neg (Nat.not_lt.mpr hx.1)]
  · rintro ⟨hspare, hlost⟩ x hx
    by_cases hlater : ∃ q ∈ ps, q.InPad (n q) x
    · obtain ⟨q, hq, hqx⟩ := hlater
      rw [(hpost x hx).1 ⟨q, hq, hqx⟩, hspare q hq x hx hqx]
    · rw [(hpost x hx).2 fun q hq hqx => hlater ⟨q, hq, hqx⟩, hval x hx]
      split
      · rfl
      · next hge => exact hlost x ⟨Nat.not_lt.mp hge, hx⟩

/-- **The image arrives** exactly when every piece is spared by the later ones, and what is left
out of a piece was there before. -/
theorem holds_load_iff :
    ∀ (ps : List (Piece w)) (m : Mem w), (∀ p ∈ ps, p.bytes.length ≤ 2 ^ w) →
      ps.Pairwise Piece.Apart →
      (∀ p ∈ ps, ∀ q ∈ ps, ∀ x, p.Lost (n p) x → ¬ q.InPad (n q) x) →
      (Holds ps (load n ps m) ↔
        ps.Pairwise (Spares n) ∧ ∀ p ∈ ps, ∀ x, p.Lost (n p) x → m x = p.byteAt x) := by
  intro ps
  induction ps with
  | nil =>
    intro m _ _ _
    simp [Holds]
  | cons p ps ih =>
    intro m hw happ hpad
    rw [List.pairwise_cons] at happ
    have hmem {q : Piece w} (hq : q ∈ ps) : q ∈ p :: ps := List.mem_cons_of_mem _ hq
    have hfst : p ∈ p :: ps := List.mem_cons_self
    have hrest := ih (m.write p.addr (p.stream (n p))) (fun q hq => hw q (hmem hq)) happ.2
      fun q hq r hr => hpad q (hmem hq) r (hmem hr)
    have hp := slice_load_cons_iff (m := m) (hw p hfst) happ.1
      fun q hq x => hpad p hfst q (hmem hq) x
    -- a byte left out of a later piece is not touched by the first one
    have hkeep : ∀ q ∈ ps, ∀ x, q.Lost (n q) x → m.write p.addr (p.stream (n p)) x = m x := by
      intro q hq x hx
      rw [write_stream_apply, if_neg]
      intro hlt
      by_cases hhas : p.Has x
      · exact happ.1 q hq x hhas hx.2
      · exact hpad q (hmem hq) p hfst x hx ⟨Nat.not_lt.mp hhas, hlt⟩
    have hlost : (∀ q ∈ ps, ∀ x, q.Lost (n q) x →
        m.write p.addr (p.stream (n p)) x = q.byteAt x) ↔
          ∀ q ∈ ps, ∀ x, q.Lost (n q) x → m x = q.byteAt x := by
      refine forall₂_congr fun q hq => forall₂_congr fun x hx => ?_
      rw [hkeep q hq x hx]
    rw [Holds, List.forall_mem_cons, hp, List.pairwise_cons, List.forall_mem_cons]
    have htail : (∀ q ∈ ps, (load n (p :: ps) m).slice q.addr q.bytes.length = q.bytes) ↔
        ps.Pairwise (Spares n) ∧ ∀ q ∈ ps, ∀ x, q.Lost (n q) x → m x = q.byteAt x := by
      rw [← hlost]
      exact hrest
    rw [htail]
    constructor
    · rintro ⟨⟨h1, h2⟩, h3, h4⟩
      exact ⟨⟨h1, h3⟩, h2, h4⟩
    · rintro ⟨⟨h1, h3⟩, h2, h4⟩
      exact ⟨⟨h1, h2⟩, h3, h4⟩

/-- A loader that writes every piece as it is leaves the image, and nothing else. -/
theorem load_exact (hn : ∀ p, n p = p.bytes.length) {ps : List (Piece w)}
    (hw : ∀ p ∈ ps, p.bytes.length ≤ 2 ^ w) (happ : ps.Pairwise Piece.Apart) :
    Holds ps (load n ps m) ∧ Unchanged ps m (load n ps m) := by
  have hpad (p : Piece w) (x : BitVec w) : ¬ p.InPad (n p) x := fun h =>
    absurd h.2 (by rw [hn]; exact Nat.not_lt.mpr h.1)
  have hlost (p : Piece w) (x : BitVec w) : ¬ p.Lost (n p) x := fun h =>
    absurd h.2 (by rw [Piece.Has, ← hn]; exact Nat.not_lt.mpr h.1)
  constructor
  · rw [holds_load_iff ps m hw happ fun p _ q _ x h => absurd h (hlost p x)]
    exact ⟨List.pairwise_of_forall fun p q x _ h => absurd h (hpad q x),
      fun p _ x h => absurd h (hlost p x)⟩
  · rw [unchanged_load_iff]
    exact fun p _ x h => absurd h (hpad p x)

end Cheshire.Lib.Load
