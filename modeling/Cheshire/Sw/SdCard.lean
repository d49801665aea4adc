import Cheshire.Lib.Crc
import Cheshire.Sw.SpiSdcard
import Mathlib.Data.Stream.Init

/-!
What an SD card on the SPI bus does: how it answers to the commands of a read, and how it streams
its blocks.
-/

namespace Cheshire.Sw.SpiSdcard

open Lib

/-- A command on the wire: the opcode, the argument with its high byte first, and a checksum, which
a card in SPI mode ignores. -/
def frame (opcode : Byte) (arg : U32) (crc : Byte) : List Byte :=
  opcode :: (toLe 4 arg.toNat).reverse ++ [crc]

/-- The `k` bytes of the card from the address `a` on. -/
def cardBytes (content : ℕ → Byte) (a k : ℕ) : List Byte :=
  (List.range k).map fun i => content (a + i)

@[simp] lemma length_cardBytes (content : ℕ → Byte) (a k : ℕ) :
    (cardBytes content a k).length = k := by
  simp [cardBytes]

lemma getElem_cardBytes {content : ℕ → Byte} {a k i : ℕ} (h : i < (cardBytes content a k).length) :
    (cardBytes content a k)[i] = content (a + i) := by
  simp [cardBytes]

lemma cardBytes_append (content : ℕ → Byte) (a k l : ℕ) :
    cardBytes content a (k + l) = cardBytes content a k ++ cardBytes content (a + k) l := by
  unfold cardBytes
  rw [List.range_add, List.map_append, List.map_map]
  refine congrArg _ (List.map_congr_left fun i _ => ?_)
  simp only [Function.comp, Nat.add_assoc]

lemma take_drop_cardBytes (content : ℕ → Byte) {a k lo hi : ℕ} (hlo : lo ≤ hi) (hhi : hi ≤ k) :
    ((cardBytes content a k).drop lo).take (hi - lo) = cardBytes content (a + lo) (hi - lo) := by
  refine List.ext_getElem ?_ fun i h₁ h₂ => ?_
  · rw [List.length_take, List.length_drop, length_cardBytes, length_cardBytes]
    omega
  · rw [List.getElem_take, List.getElem_drop, getElem_cardBytes, getElem_cardBytes, Nat.add_assoc]

/-- The 512 bytes of a block. -/
def blockData (content : ℕ → Byte) (b : ℕ) : List Byte := cardBytes content (512 * b) 512

/-- The checksum of a block. -/
def blockCrc (content : ℕ → Byte) (b : ℕ) : BitVec 16 :=
  Crc.remainder 0x1021 (blockData content b)

/-- The bytes to come begin with some that are polled `again`, and then one, `x`, that is not, early
enough for a poll of `timeout` bytes. -/
def Answers (again : Byte → Bool) (timeout : ℕ) (u : Stream' Byte) (x : Byte) (t : Stream' Byte) :
    Prop :=
  ∃ fill : List Byte, fill.length + 1 < timeout ∧ (∀ y ∈ fill, again y = true) ∧
    again x = false ∧ u = fill ++ₛ Stream'.cons x t

/-- The bytes to come begin with the block `b`: fill bytes, a token, the data and the checksum. -/
def Block (content : ℕ → Byte) (b : ℕ) (u t : Stream' Byte) : Prop :=
  ∃ v, Answers (fun x => x == 0xFF) 10000 u 0xFE v ∧
    v = (blockData content b ++ (toLe 2 (blockCrc content b).toNat).reverse) ++ₛ t

/-- The bytes to come begin with `n` blocks from `b` on. -/
def Blocks (content : ℕ → Byte) : ℕ → ℕ → Stream' Byte → Stream' Byte → Prop
  | _, 0, u, t => u = t
  | b, n + 1, u, t => ∃ v, Block content b u v ∧ Blocks content (b + 1) n v t

/-- Whether a read of the card is under way. -/
inductive Phase where
  | idle | single | multiple
  deriving DecidableEq

/-- The card as the host sees it. -/
structure Bus where
  coming : Stream' Byte
  phase : Phase

/-- A host with a card of this content behind it: no transaction fails, a receive segment that the
FIFO can hold delivers the next bytes of the card, and the card answers in time.  Of the blocks that
are not `served` it promises nothing. -/
structure CardOk {σ : Type} (depth : ℕ+) (dif : Dif σ) (handle : Handle) (content : ℕ → Byte)
    (served : Set ℕ) (bus : σ → Bus) : Prop where
  rx : ∀ n s, n ≤ 4 * (depth : ℕ) →
    (dif.transactionCsaat handle.csid (.rx n) s).1 = (0, (bus s).coming.take n) ∧
    bus (dif.transactionCsaat handle.csid (.rx n) s).2 =
      ⟨(bus s).coming.drop n, (bus s).phase⟩
  /-- CMD17 -/
  single : ∀ (arg : U32) crc s, arg.toNat ∈ served → (bus s).phase = .idle → ∃ x u v,
    (dif.transactionCsaat handle.csid (.tx (frame 0x51 arg crc)) s).1.1 = 0 ∧
    (bus (dif.transactionCsaat handle.csid (.tx (frame 0x51 arg crc)) s).2).phase = .single ∧
    Answers (fun x => x &&& 0x80 != 0) 8
      (bus (dif.transactionCsaat handle.csid (.tx (frame 0x51 arg crc)) s).2).coming x u ∧
    Block content arg.toNat u v
  /-- CMD18 -/
  multiple : ∀ (arg : U32) crc s, arg.toNat ∈ served → (bus s).phase = .idle → ∃ x u,
    (dif.transactionCsaat handle.csid (.tx (frame 0x52 arg crc)) s).1.1 = 0 ∧
    (bus (dif.transactionCsaat handle.csid (.tx (frame 0x52 arg crc)) s).2).phase = .multiple ∧
    Answers (fun x => x &&& 0x80 != 0) 8
      (bus (dif.transactionCsaat handle.csid (.tx (frame 0x52 arg crc)) s).2).coming x u ∧
    ∀ n, (∀ i < n, arg.toNat + i ∈ served) → ∃ v, Blocks content arg.toNat n u v
  /-- CMD12, with a stuff byte in front of the response, and busy for a while behind it -/
  stop : ∀ s, (bus s).phase = .multiple → ∃ stuff x y u v w,
    (dif.transactionCsaat handle.csid (.tx (frame 0x4C 0 0x61)) s).1.1 = 0 ∧
    bus (dif.transactionCsaat handle.csid (.tx (frame 0x4C 0 0x61)) s).2 =
      ⟨Stream'.cons stuff u, .idle⟩ ∧
    Answers (fun x => x &&& 0x80 != 0) 8 u x v ∧
    Answers (fun x => x == 0) 10000 v y w
  /-- the card is released -/
  free : ∀ s, (dif.transaction handle.csidDummy (.dummy 8) s).1.1 = 0 ∧
    (bus (dif.transaction handle.csidDummy (.dummy 8) s).2).phase =
      if (bus s).phase = .multiple then .multiple else .idle

end Cheshire.Sw.SpiSdcard
