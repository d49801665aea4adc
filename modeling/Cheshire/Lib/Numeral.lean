import Cheshire.Lib.Bytes
import Mathlib.Data.List.Basic
import Mathlib.Data.List.Induction
import Mathlib.Data.Nat.Digits.Defs

/-!
Numbers as text, in a base up to sixteen: what a numeral with leading zeros is read back as, alone
and written after another, and the fields of a text that an ending symbol cuts.
-/

namespace Cheshire.Lib

/-- A text. -/
abbrev Text := List Char

/-! ### Numerals -/

/-- A number in a base, with zeros in front up to a width. -/
def numeral (base width n : ℕ) : Text := (Nat.toDigits base n).leftpad width '0'

/-- Whether a symbol is a digit of base sixteen, in small letters. -/
def isHexDigit (c : Char) : Bool := c.isDigit || ('a' ≤ c && c ≤ 'f')

/-- The value of a digit. -/
def digitValue (c : Char) : ℕ :=
  if c.isDigit then c.toNat - '0'.toNat else c.toNat - 'a'.toNat + 10

/-- The number that a row of digits shows. -/
def readNumeral (base : ℕ) (l : Text) : ℕ := l.foldl (fun n c => base * n + digitValue c) 0

theorem digitValue_digitChar {d : ℕ} (h : d < 16) : digitValue d.digitChar = d := by
  have hall : ∀ d : Fin 16, digitValue (Nat.digitChar d) = d := by decide
  exact hall ⟨d, h⟩

theorem isHexDigit_digitChar {d : ℕ} (h : d < 16) : isHexDigit d.digitChar = true := by
  have hall : ∀ d : Fin 16, isHexDigit (Nat.digitChar d) = true := by decide
  exact hall ⟨d, h⟩

lemma readNumeral_concat (base : ℕ) (l : Text) (c : Char) :
    readNumeral base (l ++ [c]) = base * readNumeral base l + digitValue c := by
  simp [readNumeral]

/-- A row of digits before another. -/
theorem readNumeral_append (base : ℕ) (l l' : Text) :
    readNumeral base (l ++ l') = readNumeral base l * base ^ l'.length + readNumeral base l' := by
  induction l' using List.reverseRecOn with
  | nil => simp [readNumeral]
  | append_singleton l' c ih =>
    rw [← List.append_assoc, readNumeral_concat, readNumeral_concat, ih, List.length_append,
      List.length_singleton, pow_succ]
    ring

@[simp] lemma readNumeral_zeros (base k : ℕ) : readNumeral base (List.replicate k '0') = 0 := by
  induction k with
  | zero => rfl
  | succ k ih =>
    rw [List.replicate_succ', readNumeral_concat, ih]
    rfl

theorem readNumeral_toDigits {base : ℕ} (hb : 1 < base) (hb' : base ≤ 16) (n : ℕ) :
    readNumeral base (Nat.toDigits base n) = n := by
  induction n using Nat.strong_induction_on with
  | _ n ih =>
    rw [Nat.toDigits_eq_if hb]
    split
    · case isTrue h =>
      simp [readNumeral, digitValue_digitChar (show n < 16 by omega)]
    · case isFalse h =>
      have hlt : n / base < n := Nat.div_lt_self (by omega) hb
      have hmod : n % base < base := Nat.mod_lt _ (by omega)
      rw [readNumeral_concat, ih _ hlt, digitValue_digitChar (by omega), Nat.div_add_mod]

/-- A numeral is read back as its number, whatever its width. -/
theorem readNumeral_numeral {base : ℕ} (hb : 1 < base) (hb' : base ≤ 16) (width n : ℕ) :
    readNumeral base (numeral base width n) = n := by
  rw [numeral, List.leftpad, readNumeral_append, readNumeral_zeros, readNumeral_toDigits hb hb',
    Nat.zero_mul, Nat.zero_add]

/-- A number that fits in the width fills it exactly. -/
theorem length_numeral {base width n : ℕ} (hb : 1 < base) (hw : 0 < width) (h : n < base ^ width) :
    (numeral base width n).length = width := by
  have hle : (Nat.toDigits base n).length ≤ width := (Nat.length_toDigits_le_iff hb hw).mpr h
  rw [numeral, List.length_leftpad]
  omega

lemma numeral_ne_nil (base width n : ℕ) : numeral base width n ≠ [] := by
  simp [numeral, List.leftpad]

lemma exists_digit_of_mem_toDigits {base : ℕ} (hb : 1 < base) (n : ℕ) :
    ∀ c ∈ Nat.toDigits base n, ∃ d < base, c = Nat.digitChar d := by
  induction n using Nat.strong_induction_on with
  | _ n ih =>
    intro c hc
    rw [Nat.toDigits_eq_if hb] at hc
    split at hc
    · case isTrue h => exact ⟨n, h, List.mem_singleton.mp hc⟩
    · case isFalse h =>
      have hlt : n / base < n := Nat.div_lt_self (by omega) hb
      rcases List.mem_append.mp hc with hc | hc
      · exact ih _ hlt c hc
      · exact ⟨n % base, Nat.mod_lt _ (by omega), List.mem_singleton.mp hc⟩

/-- A numeral is made of the digits of its base. -/
theorem exists_digit_of_mem_numeral {base width n : ℕ} {c : Char} (hb : 1 < base)
    (hc : c ∈ numeral base width n) : ∃ d < base, c = Nat.digitChar d := by
  rcases List.mem_append.mp hc with hc | hc
  · exact ⟨0, by omega, List.eq_of_mem_replicate hc⟩
  · exact exists_digit_of_mem_toDigits hb n c hc

theorem isHexDigit_of_mem_numeral {base width n : ℕ} {c : Char} (hb : 1 < base) (hb' : base ≤ 16)
    (hc : c ∈ numeral base width n) : isHexDigit c = true := by
  obtain ⟨d, hd, rfl⟩ := exists_digit_of_mem_numeral hb hc
  exact isHexDigit_digitChar (by omega)

theorem isDigit_of_mem_numeral {base width n : ℕ} {c : Char} (hb : 1 < base) (hb' : base ≤ 10)
    (hc : c ∈ numeral base width n) : c.isDigit = true := by
  obtain ⟨d, hd, rfl⟩ := exists_digit_of_mem_numeral hb hc
  rw [Nat.isDigit_digitChar]
  exact decide_eq_true (by omega)

/-- The numerals of bytes, the last byte in front, show the number of the bytes. -/
theorem readNumeral_bytes {base width : ℕ} (hb : 1 < base) (hb' : base ≤ 16) (hw : 0 < width)
    (hbyte : base ^ width = 256) (l : List Byte) :
    readNumeral base (l.map fun x => numeral base width x.toNat).reverse.flatten = ofLe l := by
  induction l with
  | nil => rfl
  | cons x l ih =>
    have hlt : x.toNat < base ^ width := hbyte ▸ x.isLt
    rw [List.map_cons, List.reverse_cons, List.flatten_concat, readNumeral_append, ih,
      length_numeral hb hw hlt, readNumeral_numeral hb hb', hbyte, ofLe]
    ring

theorem length_numerals {base width : ℕ} (hb : 1 < base) (hw : 0 < width)
    (hbyte : base ^ width = 256) (l : List Byte) :
    (l.map fun x => numeral base width x.toNat).reverse.flatten.length = l.length * width := by
  induction l with
  | nil => simp
  | cons x l ih =>
    have hlt : x.toNat < base ^ width := hbyte ▸ x.isLt
    rw [List.map_cons, List.reverse_cons, List.flatten_concat, List.length_append, ih,
      length_numeral hb hw hlt, List.length_cons, Nat.succ_mul]

/-! ### Scanning -/

section Scan

variable {p : Char → Bool} {w rest : Text} {c : Char}

theorem takeWhile_scan (hw : ∀ a ∈ w, p a = true) (hc : ¬ p c = true) :
    (w ++ c :: rest).takeWhile p = w := by
  rw [List.takeWhile_append_of_pos hw, List.takeWhile_cons_of_neg hc, List.append_nil]

theorem dropWhile_scan (hw : ∀ a ∈ w, p a = true) (hc : ¬ p c = true) :
    (w ++ c :: rest).dropWhile p = c :: rest := by
  rw [List.dropWhile_append_of_pos hw, List.dropWhile_cons_of_neg hc]

end Scan

/-- What the ending symbol `a` ends in a text. -/
def fields (a : Char) (text : Text) : List Text := (text.splitOn a).dropLast

/-- Joined by an ending symbol and a gap, and ended once more, each text has its own ending. -/
lemma intercalate_concat (a : Char) (gap x : Text) (l : List Text) :
    List.intercalate (a :: gap) (x :: l) ++ [a] =
      (x :: l.map (gap ++ ·)).flatMap (· ++ [a]) := by
  induction l generalizing x with
  | nil => simp
  | cons y l ih =>
    have hy := ih y
    rw [List.flatMap_cons] at hy
    rw [List.intercalate_cons_cons, List.append_assoc, hy]
    simp

theorem fields_flatMap {a : Char} {l : List Text} (h : ∀ x ∈ l, a ∉ x) :
    fields a (l.flatMap (· ++ [a])) = l := by
  have hsplit : (l.flatMap (· ++ [a])).splitOn a = l ++ [[]] := by
    induction l with
    | nil => rfl
    | cons x l ih =>
      rw [List.flatMap_cons, List.append_assoc, List.singleton_append,
        List.splitOn_append_cons_self_of_not_mem (h x List.mem_cons_self),
        ih fun y hy => h y (List.mem_cons_of_mem _ hy), List.cons_append]
  rw [fields, hsplit, List.dropLast_concat]

/-- The fields of texts joined by an ending symbol and a gap, and ended once more. -/
theorem fields_intercalate {a : Char} {gap x : Text} {l : List Text} (hgap : a ∉ gap)
    (h : ∀ y ∈ x :: l, a ∉ y) :
    fields a (List.intercalate (a :: gap) (x :: l) ++ [a]) = x :: l.map (gap ++ ·) := by
  rw [intercalate_concat, fields_flatMap]
  intro y hy
  rcases List.mem_cons.mp hy with rfl | hy
  · exact h _ List.mem_cons_self
  · obtain ⟨z, hz, rfl⟩ := List.mem_map.mp hy
    exact fun hmem => (List.mem_append.mp hmem).elim hgap (h z (List.mem_cons_of_mem _ hz))

/-- What a reader takes from the fields of joined texts, when it takes `val i` from the text of `i`
with and without the gap. -/
theorem mapM_fields {ι β : Type} {a : Char} {gap : Text} {l : List ι} {fmt : ι → Text}
    {read : Text → Option β} {val : ι → β} (hl : l ≠ []) (hgap : a ∉ gap)
    (hfmt : ∀ i ∈ l, a ∉ fmt i) (hread : ∀ i ∈ l, read (fmt i) = some (val i))
    (hread' : ∀ i ∈ l, read (gap ++ fmt i) = some (val i)) :
    (fields a (List.intercalate (a :: gap) (l.map fmt) ++ [a])).mapM read = some (l.map val) := by
  obtain ⟨i, l, rfl⟩ := List.exists_cons_of_ne_nil hl
  have htail : ∀ l' : List ι, (∀ j ∈ l', read (gap ++ fmt j) = some (val j)) →
      ((l'.map fmt).map (gap ++ ·)).mapM read = some (l'.map val) := by
    intro l' h
    induction l' with
    | nil => rfl
    | cons j l' ih =>
      rw [List.map_cons, List.map_cons, List.mapM_cons, h j List.mem_cons_self,
        ih fun j' hj' => h j' (List.mem_cons_of_mem _ hj')]
      rfl
  have hmem : ∀ y ∈ fmt i :: l.map fmt, a ∉ y := by
    intro y hy
    obtain ⟨j, hj, rfl⟩ := List.mem_map.mp (List.map_cons ▸ hy)
    exact hfmt j hj
  rw [List.map_cons, fields_intercalate hgap hmem, List.mapM_cons, hread i List.mem_cons_self,
    htail l fun j hj => hread' j (List.mem_cons_of_mem _ hj)]
  rfl

end Cheshire.Lib
