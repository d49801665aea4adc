import Cheshire.Lib.Numeral
import Mathlib.Data.Nat.Log
import Mathlib.Order.Bounds.Basic

/-!
The generator of the boot ROM (`gen_bootrom.py`): the padding of the image, the texts it prints,
and what the printed ROM reads as.
-/

namespace Cheshire.Util.GenBootrom

open Lib

/-! ### The script -/

/-- The arguments of the script, the file `BINARY` being given by its content. -/
structure Args where
  binary : List Byte
  svModule : Option String := none
  pad : ℤ := 0
  armRom : Bool := false

/-- `while length < need: length *= 2`, given up after `fuel` tests. -/
def double (need : ℤ) : ℕ → ℕ → Option ℕ
  | 0, _ => none
  | fuel + 1, length => if (length : ℤ) < need then double need fuel (length * 2) else some length

/-- `chunks`: the pieces of a sequence, at most `size` long. -/
def chunks (seq : List Byte) (size : ℕ) : List (List Byte) :=
  (List.range ((seq.length + size - 1) / size)).map fun i => (seq.drop (i * size)).take size

def formatWordBin (word : List Byte) : Text :=
  (word.map fun x => numeral 2 8 x.toNat).reverse.flatten

def formatWordHex (word : List Byte) : Text :=
  ((word.map fun x => numeral 16 2 x.toNat) ++
    List.replicate (4 - word.length) ['0', '0']).reverse.flatten

def formatArmRom (binary : List Byte) : Text :=
  List.intercalate ['\n'] ((chunks binary 4).map formatWordBin)

/-- One line of the case statement. -/
def formatItem (i : ℕ) (x : List Byte) : Text :=
  numeral 10 3 i ++ ": data_o = 32'h".toList ++ formatWordHex x ++ " /* 0x".toList ++
    numeral 16 4 (i * 4) ++ " */".toList

def formatBinary (binary : List Byte) : ℕ × Text :=
  ((chunks binary 4).length,
    List.intercalate ";\n            ".toList ((chunks binary 4).mapIdx formatItem))

/-- What varies in the printed module: its name, the value of `NumWords`, and the items between
`unique case (word)` and the `;` before `default`. -/
structure RomModule where
  moduleName : String
  numWords : Text
  words : Text

/-- What a run of the script computes and prints. -/
structure Printed where
  length : ℕ
  armRom : Option Text
  svModule : Option RomModule

def svModule (name : String) (binary : List Byte) : RomModule :=
  let (numWords, words) := formatBinary binary
  { moduleName := name, numWords := numeral 10 0 numWords, words := words }

/-- The image, filled up with zeros. -/
def padded (binary : List Byte) (length : ℕ) : List Byte :=
  binary ++ List.replicate (length - binary.length) 0

/-- The script after its loop. -/
def printed (args : Args) (length : ℕ) : Printed :=
  let binary := padded args.binary length
  { length := length
    -- `print` ends the text with a line break
    armRom := if args.armRom then some (formatArmRom binary ++ ['\n']) else none
    -- an empty name counts as none
    svModule := (args.svModule.filter (· ≠ "")).map (svModule · binary) }

/-- The script, its loop given up after `fuel` tests. -/
def genBootrom (fuel : ℕ) (args : Args) : Option Printed :=
  (double (max args.binary.length args.pad) fuel 8).map (printed args)

/-! ### The printed ROM -/

/-- What follows a comment, after its `/*`. -/
def afterComment : Text → Option Text
  | '*' :: '/' :: rest => some rest
  | _ :: rest => afterComment rest
  | [] => none

/-- An item of a case statement that gives `data_o` a 32-bit hexadecimal constant, with a comment
behind: its label and the constant.  A label has no size, so it is as wide as its value needs. -/
def readItem (item : Text) : Option (ℕ × BitVec 32) := do
  let item := item.dropWhile Char.isWhitespace
  let label := item.takeWhile Char.isDigit
  let value ← (item.dropWhile Char.isDigit).dropPrefix? ": data_o = 32'h".toList
  let digits := value.takeWhile isHexDigit
  let comment ← (value.dropWhile isHexDigit).dropPrefix? " /*".toList
  let rest ← afterComment comment
  guard (label ≠ [] ∧ digits ≠ [] ∧ rest = [])
  return (readNumeral 10 label, .ofNat 32 (readNumeral 16 digits))

/-- The items of the case statement. -/
def RomModule.items (m : RomModule) : Option (List (ℕ × BitVec 32)) :=
  (fields ';' (m.words ++ [';'])).mapM readItem

/-- `data_o` at `addr_i`, `DataWidth` being 32: `word` has `$clog2(NumWords)` bits and takes
`addr_i / (DataWidth / 8)`. -/
def RomModule.dataO (m : RomModule) {addrWidth : ℕ} (addr : BitVec addrWidth) :
    Option (BitVec 32) := do
  let items ← m.items
  let word := BitVec.ofNat (Nat.clog 2 (readNumeral 10 m.numWords)) (addr.toNat / (32 / 8))
  return ((items.find? fun item => item.1 = word.toNat).map Prod.snd).getD 0

/-- A line of the Arm ROM file: 32 binary digits. -/
def readLine (line : Text) : Option (BitVec 32) :=
  if line.length = 32 ∧ line.all (fun c => c == '0' || c == '1') then
    some (.ofNat 32 (readNumeral 2 line))
  else none

/-- The words of an Arm ROM file. -/
def readArmRom (text : Text) : Option (List (BitVec 32)) := (fields '\n' text).mapM readLine

/-! ### What the ROM has to hold -/

/-- The bytes of word `i` of an image, with zeros past its end. -/
def imageBytes (binary : List Byte) (i : ℕ) : List Byte :=
  (List.range 4).map fun k => binary.getD (4 * i + k) 0

/-- The word `i` of an image, little-endian. -/
def imageWord (binary : List Byte) (i : ℕ) : BitVec 32 := .ofNat 32 (ofLe (imageBytes binary i))

/-- The lengths a ROM may have: the powers of two not below 8, the image and the padding. -/
def romLengths (binary : List Byte) (pad : ℤ) : Set ℕ :=
  {l | (∃ k, l = 2 ^ k) ∧ 8 ≤ l ∧ binary.length ≤ l ∧ pad ≤ l}

/-- A run computes the least length there may be, prints what is asked for, and what it prints reads
back as the words of the image. -/
structure RoundTrip (args : Args) (p : Printed) : Prop where
  least : IsLeast (romLengths args.binary args.pad) p.length
  armAsked : p.armRom.isSome ↔ args.armRom = true
  svAsked : p.svModule.isSome ↔ ∃ name, args.svModule = some name ∧ name ≠ ""
  rom : ∀ m, p.svModule = some m → ∀ addrWidth, ∀ addr : BitVec addrWidth, addr.toNat < p.length →
    m.dataO addr = some (imageWord args.binary (addr.toNat / 4))
  arm : ∀ text, p.armRom = some text →
    readArmRom text = some ((List.range (p.length / 4)).map (imageWord args.binary))

/-! ### The padding loop -/

/-- A power of two that is no longer than any length allowed is doubled up to the least one. -/
lemma double_isLeast {binary : List Byte} {pad : ℤ} {fuel length l : ℕ}
    (hpow : ∃ k, length = 2 ^ k) (hmin : 8 ≤ length)
    (hlow : ∀ l' ∈ romLengths binary pad, length ≤ l')
    (h : double (max binary.length pad) fuel length = some l) :
    IsLeast (romLengths binary pad) l := by
  induction fuel generalizing length with
  | zero => cases h
  | succ fuel ih =>
    rw [double] at h
    split at h
    · case isTrue hlt =>
      obtain ⟨k, rfl⟩ := hpow
      refine ih ⟨k + 1, (pow_succ 2 k).symm⟩ (by omega) (fun l' hl' => ?_) h
      -- a power of two above `2 ^ k` is at least twice as long
      obtain ⟨⟨k', rfl⟩, -, hlen, hpad⟩ := hl'
      have hlt' : (2 : ℕ) ^ k < 2 ^ k' := by omega
      have hk : k < k' := (Nat.pow_lt_pow_iff_right (by decide)).mp hlt'
      rw [← pow_succ]
      exact Nat.pow_le_pow_right (by decide) hk
    · case isFalse hge =>
      obtain rfl : length = l := Option.some.inj h
      exact ⟨⟨hpow, hmin, by omega, by omega⟩, fun l' hl' => hlow l' hl'⟩

/-- The loop ends: each turn brings the length closer to what is needed. -/
lemma double_terminates {need : ℤ} {length : ℕ} (hpos : 0 < length) :
    ∃ l n, ∀ fuel, n ≤ fuel → double need fuel length = some l := by
  induction hd : (need - length).toNat using Nat.strong_induction_on generalizing length with
  | _ d ih =>
    by_cases hlt : (length : ℤ) < need
    · obtain ⟨l, n, hl⟩ := ih (need - (length * 2 : ℕ)).toNat (by omega) (by omega) rfl
      refine ⟨l, n + 1, fun fuel hfuel => ?_⟩
      obtain ⟨fuel, rfl⟩ := Nat.exists_eq_add_of_lt hfuel
      rw [double, if_pos hlt]
      exact hl _ (by omega)
    · refine ⟨length, 1, fun fuel hfuel => ?_⟩
      obtain ⟨fuel, rfl⟩ := Nat.exists_eq_add_of_lt hfuel
      rw [double, if_neg hlt]

/-! ### The words -/

section Words

lemma getD_padded (binary : List Byte) (length i : ℕ) :
    (padded binary length).getD i 0 = binary.getD i 0 := by
  simp only [padded, List.getD_eq_getElem?_getD, List.getElem?_append, List.getElem?_replicate]
  split
  · rfl
  · split <;> simp_all

/-- The chunk `i` of a padded image. -/
lemma chunk_eq {l : List Byte} {i : ℕ} (hi : i * 4 + 4 ≤ l.length) :
    (l.drop (i * 4)).take 4 = (List.range 4).map fun k => l.getD (4 * i + k) 0 := by
  refine List.ext_getElem (by simp; omega) fun k h₁ h₂ => ?_
  have hk : k < 4 := by simpa using h₂
  rw [List.getElem_take, List.getElem_drop, List.getElem_map, List.getElem_range, Nat.mul_comm 4,
    List.getD_eq_getElem?_getD, List.getElem?_eq_getElem (by omega), Option.getD_some]

/-- The chunks of an image padded to `n` words. -/
lemma chunks_padded {binary : List Byte} {n : ℕ} (h : binary.length ≤ 4 * n) :
    chunks (padded binary (4 * n)) 4 = (List.range n).map (imageBytes binary) := by
  have hlen : (padded binary (4 * n)).length = 4 * n := by
    rw [padded, List.length_append, List.length_replicate]
    omega
  rw [chunks, hlen, show (4 * n + 4 - 1) / 4 = n by omega]
  refine List.map_congr_left fun i hi => ?_
  have hi' : i < n := List.mem_range.mp hi
  rw [chunk_eq (by omega)]
  simp only [imageBytes, getD_padded]

lemma formatWordBin_reads (word : List Byte) : readNumeral 2 (formatWordBin word) = ofLe word :=
  readNumeral_bytes (by decide) (by decide) (by decide) rfl word

lemma bit_of_mem_formatWordBin {word : List Byte} {c : Char} (hc : c ∈ formatWordBin word) :
    (c == '0' || c == '1') = true := by
  obtain ⟨t, ht, hct⟩ := List.mem_flatten.mp hc
  obtain ⟨x, -, rfl⟩ := List.mem_map.mp (List.mem_reverse.mp ht)
  obtain ⟨d, hd, rfl⟩ := exists_digit_of_mem_numeral (by decide) hct
  rcases (show d = 0 ∨ d = 1 by omega) with rfl | rfl
  · rfl
  · rfl

lemma readLine_formatWordBin {word : List Byte} (h : word.length = 4) :
    readLine (formatWordBin word) = some (.ofNat 32 (ofLe word)) := by
  have hlen : (formatWordBin word).length = 32 := by
    rw [formatWordBin, length_numerals (by decide) (by decide) rfl, h]
  have hbits := List.all_eq_true.mpr fun c (hc : c ∈ formatWordBin word) =>
    bit_of_mem_formatWordBin hc
  rw [readLine, if_pos ⟨hlen, hbits⟩, formatWordBin_reads]

lemma formatWordHex_reads (word : List Byte) : readNumeral 16 (formatWordHex word) = ofLe word := by
  have hzeros : ∀ k, readNumeral 16 (List.replicate k ['0', '0']).flatten = 0 := by
    intro k
    induction k with
    | zero => rfl
    | succ k ih => rw [List.replicate_succ', List.flatten_concat, readNumeral_append, ih]; rfl
  rw [formatWordHex, List.reverse_append, List.reverse_replicate, List.flatten_append,
    readNumeral_append, hzeros, Nat.zero_mul, Nat.zero_add]
  exact readNumeral_bytes (by decide) (by decide) (by decide) rfl word

lemma formatWordHex_ne_nil (word : List Byte) : formatWordHex word ≠ [] := by
  intro h
  rw [formatWordHex, List.flatten_eq_nil_iff] at h
  cases word with
  | nil => exact absurd (h ['0', '0'] (by simp)) (by simp)
  | cons x word => exact numeral_ne_nil 16 2 x.toNat (h _ (by simp))

lemma isHexDigit_formatWordHex {word : List Byte} {c : Char} (hc : c ∈ formatWordHex word) :
    isHexDigit c = true := by
  obtain ⟨t, ht, hct⟩ := List.mem_flatten.mp hc
  rcases List.mem_append.mp (List.mem_reverse.mp ht) with ht | ht
  · obtain ⟨x, -, rfl⟩ := List.mem_map.mp ht
    exact isHexDigit_of_mem_numeral (by decide) (by decide) hct
  · rw [List.eq_of_mem_replicate ht] at hct
    obtain rfl : c = '0' := by simpa using hct
    rfl

end Words

/-! ### The items of the case statement -/

section Items

lemma not_isWhitespace_of_isDigit {c : Char} (h : c.isDigit = true) : ¬ c.isWhitespace = true := by
  intro hw
  simp only [Char.isWhitespace, Bool.or_eq_true, decide_eq_true_eq] at hw
  rcases hw with ((rfl | rfl) | rfl) | rfl <;> exact absurd h (by decide)

lemma afterComment_scan {l rest : Text} (h : '*' ∉ l) :
    afterComment (l ++ '*' :: '/' :: rest) = some rest := by
  induction l with
  | nil => rfl
  | cons c l ih =>
    have hc : c ≠ '*' := fun hc => h (hc ▸ List.mem_cons_self)
    have hl : '*' ∉ l := fun hl => h (List.mem_cons_of_mem _ hl)
    rw [List.cons_append, afterComment, ih hl]
    exact fun _ hstar => absurd hstar hc

/-- An item is read back, whatever white space stands before it. -/
lemma readItem_formatItem {gap : Text} (hgap : ∀ c ∈ gap, c.isWhitespace = true) (i : ℕ)
    (x : List Byte) : readItem (gap ++ formatItem i x) = some (i, .ofNat 32 (ofLe x)) := by
  obtain ⟨d, label, hlabel⟩ := List.exists_cons_of_ne_nil (numeral_ne_nil 10 3 i)
  have hdigit : ∀ c ∈ numeral 10 3 i, c.isDigit = true :=
    fun c hc => isDigit_of_mem_numeral (by decide) (by decide) hc
  have hhex : ∀ c ∈ formatWordHex x, isHexDigit c = true := fun c hc => isHexDigit_formatWordHex hc
  have hstar : '*' ∉ " 0x".toList ++ (numeral 16 4 (i * 4) ++ [' ']) := by
    intro h
    rcases List.mem_append.mp h with h | h
    · exact absurd h (by decide)
    · rcases List.mem_append.mp h with h | h
      · exact absurd (isHexDigit_of_mem_numeral (by decide) (by decide) h) (by decide)
      · exact absurd h (by decide)
  have hitem : formatItem i x = numeral 10 3 i ++ ':' :: (" data_o = 32'h".toList ++
      (formatWordHex x ++ ' ' :: ("/*".toList ++
        ((" 0x".toList ++ (numeral 16 4 (i * 4) ++ [' '])) ++ '*' :: '/' :: [])))) := by
    simp only [formatItem, List.append_assoc]
    rfl
  have hblank : (gap ++ formatItem i x).dropWhile Char.isWhitespace = formatItem i x := by
    rw [hitem, hlabel, List.cons_append]
    exact dropWhile_scan hgap (not_isWhitespace_of_isDigit (hdigit d (hlabel ▸ List.mem_cons_self)))
  have hassign : ∀ l : Text, (':' :: (" data_o = 32'h".toList ++ l)).dropPrefix?
      ": data_o = 32'h".toList = some l :=
    fun l => List.dropPrefix?_append_of_beq l (beq_self_eq_true ": data_o = 32'h".toList)
  have hopen : ∀ l : Text, (' ' :: ("/*".toList ++ l)).dropPrefix? " /*".toList = some l :=
    fun l => List.dropPrefix?_append_of_beq l (beq_self_eq_true " /*".toList)
  have hcolon : ¬ ':'.isDigit = true := by decide
  have hspace : ¬ isHexDigit ' ' = true := by decide
  simp only [readItem, hblank]
  simp only [hitem, takeWhile_scan hdigit hcolon, dropWhile_scan hdigit hcolon, hassign,
    Option.bind_eq_bind, Option.bind_some, takeWhile_scan hhex hspace, dropWhile_scan hhex hspace,
    hopen, afterComment_scan hstar, readNumeral_numeral (show 1 < 10 by decide)
    (show 10 ≤ 16 by decide), formatWordHex_reads]
  rw [guard, if_pos ⟨numeral_ne_nil 10 3 i, formatWordHex_ne_nil x, trivial⟩]
  rfl

example : formatItem 2 [0x13, 0x05, 0xa0, 0x00] =
    "002: data_o = 32'h00a00513 /* 0x0008 */".toList := by decide

lemma semicolon_not_mem_formatItem (i : ℕ) (x : List Byte) : ';' ∉ formatItem i x := by
  intro h
  simp only [formatItem, List.mem_append] at h
  rcases h with ((((h | h) | h) | h) | h) | h
  · exact absurd (isDigit_of_mem_numeral (by decide) (by decide) h) (by decide)
  · exact absurd h (by decide)
  · exact absurd (isHexDigit_formatWordHex h) (by decide)
  · exact absurd h (by decide)
  · exact absurd (isHexDigit_of_mem_numeral (by decide) (by decide) h) (by decide)
  · exact absurd h (by decide)

end Items

/-! ### The two texts -/

section Texts

variable {binary : List Byte} {n : ℕ}

lemma mapIdx_range {α β : Type} (f : ℕ → α) (g : ℕ → α → β) (n : ℕ) :
    ((List.range n).map f).mapIdx g = (List.range n).map fun i => g i (f i) :=
  List.ext_getElem (by simp) fun i h₁ h₂ => by simp

/-- The case statement lists every word of the padded image under its index. -/
lemma items_svModule (name : String) (h : binary.length ≤ 4 * n) (hn : 0 < n) :
    (svModule name (padded binary (4 * n))).items =
      some ((List.range n).map fun i => (i, imageWord binary i)) := by
  have hgap : ∀ c ∈ "\n            ".toList, c.isWhitespace = true := by
    intro c hc
    rcases List.mem_cons.mp (show c ∈ '\n' :: List.replicate 12 ' ' from hc) with rfl | hc
    · rfl
    · rw [List.eq_of_mem_replicate hc]
      rfl
  have hne : List.range n ≠ [] := by simpa using hn.ne'
  simp only [svModule, RomModule.items, formatBinary, chunks_padded h, mapIdx_range]
  exact mapM_fields hne (by decide) (fun i _ => semicolon_not_mem_formatItem i _)
    (fun i _ => readItem_formatItem (fun _ hc => absurd hc List.not_mem_nil) i _)
    (fun i _ => readItem_formatItem hgap i _)

lemma find?_indexed {β : Type} (f : ℕ → β) {i : ℕ} (hi : i < n) :
    ((List.range n).map fun i => (i, f i)).find? (fun item => item.1 = i) = some (i, f i) := by
  rw [List.find?_map, (List.find?_range_eq_some (i := i)).mpr]
  · rfl
  · refine ⟨by simp, by simpa using hi, fun j hj => by simp; omega⟩

/-- The printed module gives the words of the image at every address below the length. -/
lemma dataO_svModule (name : String) (h : binary.length ≤ 4 * n) (hn : 0 < n) {addrWidth : ℕ}
    (addr : BitVec addrWidth) (haddr : addr.toNat < 4 * n) :
    (svModule name (padded binary (4 * n))).dataO addr =
      some (imageWord binary (addr.toNat / 4)) := by
  have hnum : readNumeral 10 (svModule name (padded binary (4 * n))).numWords = n := by
    simp only [svModule, formatBinary, chunks_padded h, List.length_map, List.length_range]
    exact readNumeral_numeral (by decide) (by decide) 0 n
  -- the index fits in its register
  have hword : (BitVec.ofNat (Nat.clog 2 n) (addr.toNat / (32 / 8))).toNat = addr.toNat / 4 := by
    have hle : n ≤ 2 ^ Nat.clog 2 n := Nat.le_pow_clog (by decide) n
    rw [BitVec.toNat_ofNat, Nat.mod_eq_of_lt (by omega)]
  rw [RomModule.dataO, items_svModule name h hn, hnum]
  simp only [Option.bind_eq_bind, Option.bind_some, hword]
  rw [find?_indexed (imageWord binary) (by omega)]
  rfl

/-- The Arm ROM file has the words of the padded image in order. -/
lemma readArmRom_formatArmRom (h : binary.length ≤ 4 * n) (hn : 0 < n) :
    readArmRom (formatArmRom (padded binary (4 * n)) ++ ['\n']) =
      some ((List.range n).map (imageWord binary)) := by
  have hne : List.range n ≠ [] := by simpa using hn.ne'
  simp only [formatArmRom, readArmRom, chunks_padded h, List.map_map]
  have hlen : ∀ i, (imageBytes binary i).length = 4 := fun i => by simp [imageBytes]
  have hbreak : ∀ i, '\n' ∉ formatWordBin (imageBytes binary i) := fun i hmem =>
    absurd (bit_of_mem_formatWordBin hmem) (by decide)
  exact mapM_fields hne List.not_mem_nil (fun i _ => hbreak i)
    (fun i _ => readLine_formatWordBin (hlen i)) (fun i _ => readLine_formatWordBin (hlen i))

lemma four_dvd_of_mem_romLengths {pad : ℤ} {l : ℕ} (h : l ∈ romLengths binary pad) : 4 ∣ l := by
  obtain ⟨⟨k, rfl⟩, hmin, -⟩ := h
  have hk : 2 ^ 2 < 2 ^ k := by omega
  exact pow_dvd_pow 2 ((Nat.pow_lt_pow_iff_right (by decide)).mp hk).le

/-- With the least length there may be, what is printed is the padded image. -/
lemma roundTrip_printed {args : Args} {l : ℕ} (h : IsLeast (romLengths args.binary args.pad) l) :
    RoundTrip args (printed args l) := by
  obtain ⟨n, rfl⟩ := four_dvd_of_mem_romLengths h.1
  have hlen : args.binary.length ≤ 4 * n := h.1.2.2.1
  have hmin : 8 ≤ 4 * n := h.1.2.1
  have hn : 0 < n := by omega
  constructor
  case least => exact h
  case armAsked => cases harm : args.armRom <;> simp [printed, harm]
  case svAsked => cases hname : args.svModule <;> simp [printed, hname]
  case rom =>
    intro m hm addrWidth addr haddr
    obtain ⟨name, -, rfl⟩ := Option.map_eq_some_iff.mp hm
    exact dataO_svModule name hlen hn addr haddr
  case arm =>
    intro text htext
    obtain ⟨-, htext⟩ := Option.ite_none_right_eq_some.mp htext
    obtain rfl := Option.some.inj htext
    rw [readArmRom_formatArmRom hlen hn, printed, Nat.mul_div_cancel_left n (by decide)]

end Texts

/-- The script ends, and what it prints is the padded image. -/
theorem genBootrom_roundTrip (args : Args) :
    ∃ p, RoundTrip args p ∧ ∃ n, ∀ fuel, n ≤ fuel → genBootrom fuel args = some p := by
  obtain ⟨l, n, hrun⟩ : ∃ l n, ∀ fuel, n ≤ fuel →
      double (max args.binary.length args.pad) fuel 8 = some l := double_terminates (by decide)
  have hleast : IsLeast (romLengths args.binary args.pad) l :=
    double_isLeast ⟨3, rfl⟩ le_rfl (fun l' hl' => hl'.2.1) (hrun n le_rfl)
  refine ⟨printed args l, roundTrip_printed hleast, n, fun fuel hfuel => ?_⟩
  rw [genBootrom, hrun fuel hfuel, Option.map_some]

end Cheshire.Util.GenBootrom
