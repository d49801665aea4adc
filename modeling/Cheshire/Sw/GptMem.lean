import Cheshire.Lib.Follow
import Cheshire.Sw.GptBoot

/-!
The GPT reader (`gpt.c`) on a memory: its variables lie on the stack, where the read callback fills
them.  On a medium that gives the bytes of a disk, and as long as the variables, the code buffer and
the stack of the callback are apart, it follows the reader on that disk.
-/

namespace Cheshire.Sw.GptMem

open Lib Gpt

/-! ### The code -/

/-- A function that polls: it stops with a code that it returns, or with `none` while a poll has
not come to an end. -/
abbrev PollM (S α : Type) := EStateM (Option CInt) S α

/-- `gpt_read_t` with its `priv`. -/
abbrev ReadFn (S : Type) := (buf addr len : U64) → PollM S Unit

/-- Where the variables of `gpt.c` lie that are filled by reads. -/
structure Vars where
  sig : U64
  hf : U64
  dim : U64
  guid : U64

/-- The variables that the search loop keeps outside of these. -/
structure Pos where
  p : ℕ
  lbaBegin : U64
  lbaEnd : U64

/-- The extent of the first partition is recorded in any case. -/
def Pos.record (maxLbas : U64) (v : Pos) (dim : PartFields) : Pos :=
  if v.p = 0 then ⟨v.p, dim.lbaBegin, cMin dim.lbaEnd (dim.lbaBegin + maxLbas - 1)⟩ else v

section Code

variable {S : Type} (mem : S → Mem 64) (read : ReadFn S) (vars : Vars)

/-- A variable, by the offsets of its bytes. -/
def var (p : U64) (s : S) : ℕ → Byte := fun o => mem s (p + .ofNat 64 o)

def loadVar (p : U64) : PollM S (ℕ → Byte) := fun s => .ok (var mem p s) s

def loadHf : PollM S HdrFields := fun s => .ok (hdrFields (var mem vars.hf s)) s

def loadDim : PollM S PartFields := fun s => .ok (partFields (var mem vars.dim s)) s

/-- Whether a call returns zero. -/
def isZero (m : PollM S Unit) : PollM S Bool := fun s =>
  match m s with
  | .ok _ s' => .ok true s'
  | .error (some _) s' => .ok false s'
  | .error none s' => .error none s'

/-- `gpt_check_signature`. -/
def gptCheckSignature : PollM S Bool := do
  if ← isZero (read vars.sig 0x200 8) then
    let sig ← loadVar mem vars.sig
    return le64 sig 0 == 0x5452415020494645
  else return false

/-- The GUID test of the search loop, made only if a GUID was passed. -/
def checkGuid (g : Option Guid) (offs : U64) : PollM S Bool :=
  match g with
  | none => return false
  | some g => do
    read vars.guid offs 16
    let d ← loadVar mem vars.guid
    return le64 d 0 == g.1 && le64 d 8 == g.2

variable (maxLbas : U64) (tguid pguid : Option Guid)

/-- One turn of the search loop; `true` when it leaves the loop. -/
def findBody (v : Pos) : PollM S (Bool × Pos) := do
  let hf ← loadHf mem vars
  read vars.dim (peOffs hf v.p + 0x20) 16
  let dim ← loadDim mem vars
  let v := v.record maxLbas dim
  if dim.lbaEnd - dim.lbaBegin ≥ maxLbas then return (false, v)
  else if ← checkGuid mem read vars tguid (peOffs hf v.p) then return (true, v)
  else if ← checkGuid mem read vars pguid (peOffs hf v.p + 0x10) then return (true, v)
  else return (false, v)

/-- The search loop. -/
def findLoop : ℕ → Pos → PollM S Pos
  | 0, _ => throw none
  | fuel + 1, v => do
    let hf ← loadHf mem vars
    if v.p < hf.count.toNat then
      let (brk, v) ← findBody mem read vars maxLbas tguid pguid v
      if brk then return v
      else findLoop fuel { v with p := v.p + 1 }
    else return v

/-- `gpt_find_partition`, the LBA pointers holding `lbaBegin` and `lbaEnd` before. -/
def gptFindPartition (fuel : ℕ) (lbaBegin lbaEnd : U64) : PollM S FindOut := do
  read vars.hf (0x200 + 0x48) 16
  let v ← findLoop mem read vars maxLbas tguid pguid fuel ⟨0, lbaBegin, lbaEnd⟩
  let hf ← loadHf mem vars
  if v.p ≠ hf.count.toNat then
    let dim ← loadDim mem vars
    return ⟨v.p, dim.lbaBegin, dim.lbaEnd⟩
  else return ⟨-1, v.lbaBegin, v.lbaEnd⟩

/-- The LBAs that `gpt_boot_part_else_raw` copies. -/
def findElseRaw (fuel : ℕ) : PollM S FindOut := do
  if ← gptCheckSignature mem read vars then
    gptFindPartition mem read vars maxLbas tguid pguid fuel 0 (maxLbas - 1)
  else return ⟨0, 0, maxLbas - 1⟩

/-- `gpt_boot_part_else_raw`, up to the jump of `boot_next_stage`. -/
def gptBootPartElseRaw (fuel : ℕ) (ptrs : BootPtrs) : PollM S Launch := do
  let v ← findElseRaw mem read vars maxLbas tguid pguid fuel
  read ptrs.codeBuf (0x200 * v.lbaBegin) (0x200 * (v.lbaEnd - v.lbaBegin + 1))
  return ⟨ptrs.read.setWidth 32 ||| 1, ptrs.priv.setWidth 32, ptrs.gp.setWidth 32, ptrs.codeBuf⟩

end Code

/-! ### Media -/

/-- A buffer of `len` bytes apart from what `own` describes. -/
structure Buffer (own : U64 → Prop) (buf : U64) (len : ℕ) : Prop where
  ne_zero : buf ≠ 0
  le : buf.toNat + len ≤ 2 ^ 64
  apart : ∀ i < len, ¬ own (buf + .ofNat 64 i)

/-- **A medium with the bytes of a disk**: while it is `Ready`, a read of what is on the medium,
into a buffer that will do, fills it with the bytes there, and writes nothing else but the memory
that is its `own`. -/
structure Medium {S : Type} (mem : S → Mem 64) (read : ReadFn S) (disk : Mem 64)
    (Ready : S → Prop) (On : (buf addr : U64) → (len : ℕ) → Prop) (own : U64 → Prop) : Prop where
  reads : ∀ {buf addr len : U64} {s : S}, Ready s → On buf addr len.toNat →
    Buffer own buf len.toNat → Returns (read buf addr len) s fun _ s' => Ready s' ∧
      (∀ i < len.toNat, mem s' (buf + .ofNat 64 i) = disk (addr + .ofNat 64 i)) ∧
      ∀ x, Mem.Outside buf len.toNat x → ¬ own x → mem s' x = mem s x

/-- The bytes of `p` are none of the `n` from `q` on. -/
def Apart (p : U64) (m : ℕ) (q : U64) (n : ℕ) : Prop :=
  ∀ i < m, Mem.Outside q n (p + .ofNat 64 i)

/-- The variables lie apart from each other and from what `own` describes. -/
structure Vars.Ok (own : U64 → Prop) (vars : Vars) : Prop where
  sig : Buffer own vars.sig 8
  hf : Buffer own vars.hf 16
  dim : Buffer own vars.dim 16
  guid : Buffer own vars.guid 16
  hf_dim : Apart vars.hf 16 vars.dim 16
  hf_guid : Apart vars.hf 16 vars.guid 16
  dim_guid : Apart vars.dim 16 vars.guid 16

/-- A byte of one of the variables. -/
def Vars.Mine (vars : Vars) (x : U64) : Prop :=
  ¬ (Mem.Outside vars.sig 8 x ∧ Mem.Outside vars.hf 16 x ∧ Mem.Outside vars.dim 16 x ∧
    Mem.Outside vars.guid 16 x)

/-- The search comes to the entry `p`. -/
def Reached (disk : Mem 64) (maxLbas : U64) (tguid pguid : Option Guid) (p : ℕ) : Prop :=
  p < (header disk).count.toNat ∧ ∀ q < p, ¬ Viable disk maxLbas tguid pguid q

/-- What the search reads of a disk is on the medium. -/
structure TableOn (disk : Mem 64) (On : U64 → U64 → ℕ → Prop) (vars : Vars) (maxLbas : U64)
    (tguid pguid : Option Guid) : Prop where
  hdr : On vars.hf 0x248 16
  extent : ∀ p, Reached disk maxLbas tguid pguid p →
    On vars.dim (peOffs (header disk) p + 0x20) 16
  type : tguid ≠ none → ∀ p, Reached disk maxLbas tguid pguid p →
    On vars.guid (peOffs (header disk) p) 16
  ident : pguid ≠ none → ∀ p, Reached disk maxLbas tguid pguid p →
    On vars.guid (peOffs (header disk) p + 0x10) 16

/-! ### The search -/

section Search

variable {S : Type} {mem : S → Mem 64} {read : ReadFn S} {disk : Mem 64} {Ready : S → Prop}
  {On : U64 → U64 → ℕ → Prop} {own : U64 → Prop} {vars : Vars} {maxLbas : U64}
  {tguid pguid : Option Guid} {m : Mem 64} {s : S} {σ : Type} {aread : GptRead σ} {t : DiskSt σ}

/-- The medium is ready, and the memory is as it was but for the variables and the memory of the
medium. -/
structure Running (mem : S → Mem 64) (Ready : S → Prop) (own : U64 → Prop) (vars : Vars)
    (m : Mem 64) (s : S) : Prop where
  ready : Ready s
  kept : ∀ x, ¬ own x → ¬ vars.Mine x → mem s x = m x

/-- The variable `hf` holds the header. -/
def HasHdr (mem : S → Mem 64) (vars : Vars) (disk : Mem 64) (s : S) : Prop :=
  hdrFields (var mem vars.hf s) = header disk

lemma le64_congr {d d' : ℕ → Byte} {n o : ℕ} (h : ∀ i < n, d i = d' i) (ho : o + 8 ≤ n) :
    le64 d o = le64 d' o := by
  have hmap : (List.range 8).map (fun i => d (o + i)) = (List.range 8).map fun i => d' (o + i) :=
    List.map_congr_left fun i hi => h _ (by have := List.mem_range.mp hi; omega)
  rw [le64, le64, hmap]

lemma le32_congr {d d' : ℕ → Byte} {n o : ℕ} (h : ∀ i < n, d i = d' i) (ho : o + 4 ≤ n) :
    le32 d o = le32 d' o := by
  have hmap : (List.range 4).map (fun i => d (o + i)) = (List.range 4).map fun i => d' (o + i) :=
    List.map_congr_left fun i hi => h _ (by have := List.mem_range.mp hi; omega)
  rw [le32, le32, hmap]

lemma hdrFields_congr {d d' : ℕ → Byte} (h : ∀ i < 16, d i = d' i) :
    hdrFields d = hdrFields d' := by
  rw [hdrFields, hdrFields, le64_congr h (by decide), le32_congr h (by decide),
    le32_congr h (by decide)]

lemma partFields_congr {d d' : ℕ → Byte} (h : ∀ i < 16, d i = d' i) :
    partFields d = partFields d' := by
  rw [partFields, partFields, le64_congr h (by decide), le64_congr h (by decide)]

/-- **A read into a variable** gives the bytes that the read of the disk gives. -/
theorem follows_read (hm : Medium mem read disk Ready On own)
    (ha : Faithful disk aread) (p addr len : U64) {b : Buf}
    (hon : On p addr len.toNat) (hbuf : Buffer own p len.toNat)
    (hmine : ∀ x, ¬ Mem.Outside p len.toNat x → vars.Mine x)
    (hs : Running mem Ready own vars m s) :
    Follows (read p addr len) (checkRead aread b addr len) s t fun _ d s' _ =>
      Running mem Ready own vars m s' ∧ (∀ i < len.toNat, var mem p s' i = d i) ∧
        ∀ x, Mem.Outside p len.toNat x → ¬ own x → mem s' x = mem s x := by
  refine (returns_checkRead ha b addr len).mono fun d t' hd => ?_
  refine (hm.reads hs.ready hon hbuf).mono fun _ s' ⟨hready, hbytes, hkept⟩ => ⟨⟨hready, ?_⟩, ?_,
    hkept⟩
  · intro x hx hx'
    rw [hkept x (by_contra fun hout => hx' (hmine x hout)) hx]
    exact hs.kept x hx hx'
  · intro i hi
    rw [hd.1 i hi]
    exact hbytes i hi

/-- A variable that a read leaves alone. -/
lemma var_kept {p q : U64} {k n : ℕ} {s' : S}
    (hkept : ∀ x, Mem.Outside q n x → ¬ own x → mem s' x = mem s x) (hapart : Apart p k q n)
    (hbuf : Buffer own p k) : ∀ i < k, var mem p s' i = var mem p s i :=
  fun i hi => hkept _ (hapart i hi) (hbuf.apart i hi)

section Loads

variable {α β δ T : Type} {n : EStateM δ T β} {t : T} {Q : α → β → S → T → Prop}

lemma returns_loadVar {p : U64} {Q : (ℕ → Byte) → S → Prop} :
    Returns (loadVar mem p) s Q ↔ Q (var mem p s) s := Iff.rfl

lemma returns_loadHf {Q : HdrFields → S → Prop} :
    Returns (loadHf mem vars) s Q ↔ Q (hdrFields (var mem vars.hf s)) s := Iff.rfl

lemma returns_loadDim {Q : PartFields → S → Prop} :
    Returns (loadDim mem vars) s Q ↔ Q (partFields (var mem vars.dim s)) s := Iff.rfl

lemma follows_loadVar {p : U64} {f : (ℕ → Byte) → PollM S α}
    (h : Follows (f (var mem p s)) n s t Q) : Follows (loadVar mem p >>= f) n s t Q :=
  Follows.bind_left (P := fun d s' => d = var mem p s ∧ s' = s)
    (returns_loadVar.mpr ⟨rfl, rfl⟩) fun _ _ ⟨hd, hs⟩ => hd ▸ hs ▸ h

lemma follows_loadHf {f : HdrFields → PollM S α} {hf : HdrFields}
    (hhf : hdrFields (var mem vars.hf s) = hf) (h : Follows (f hf) n s t Q) :
    Follows (loadHf mem vars >>= f) n s t Q :=
  Follows.bind_left (P := fun a s' => a = hf ∧ s' = s) (returns_loadHf.mpr ⟨hhf, rfl⟩)
    fun _ _ ⟨hd, hs⟩ => hd ▸ hs ▸ h

lemma follows_loadDim {f : PartFields → PollM S α} {dim : PartFields}
    (hdim : partFields (var mem vars.dim s) = dim) (h : Follows (f dim) n s t Q) :
    Follows (loadDim mem vars >>= f) n s t Q :=
  Follows.bind_left (P := fun a s' => a = dim ∧ s' = s) (returns_loadDim.mpr ⟨hdim, rfl⟩)
    fun _ _ ⟨hd, hs⟩ => hd ▸ hs ▸ h

end Loads

/-- A step of the search: it is running, the header stays in its variable, and `Q` holds of what it
returns. -/
def Steps (mem : S → Mem 64) (Ready : S → Prop) (own : U64 → Prop) (vars : Vars) (m : Mem 64)
    (disk : Mem 64) {α β : Type} (Q : α → β → S → Prop) (a : α) (b : β) (s : S) (_ : DiskSt σ) :
    Prop :=
  Running mem Ready own vars m s ∧ HasHdr mem vars disk s ∧ Q a b s

lemma not_outside_mine {x : U64} (h : ¬ Mem.Outside vars.sig 8 x ∨ ¬ Mem.Outside vars.hf 16 x ∨
    ¬ Mem.Outside vars.dim 16 x ∨ ¬ Mem.Outside vars.guid 16 x) : vars.Mine x := by
  rintro ⟨h1, h2, h3, h4⟩
  rcases h with h | h | h | h
  · exact h h1
  · exact h h2
  · exact h h3
  · exact h h4

/-- The GUID tests agree; the header and the extent stay in their variables. -/
theorem follows_checkGuid (hm : Medium mem read disk Ready On own)
    (ha : Faithful disk aread) (hv : vars.Ok own)
    (g : Option Guid) {offs : U64} (hon : g ≠ none → On vars.guid offs 16)
    (hs : Running mem Ready own vars m s) (hhf : HasHdr mem vars disk s) :
    Follows (checkGuid mem read vars g offs) (Gpt.checkGuid aread g offs) s t
      (Steps mem Ready own vars m disk fun a b s' =>
        a = b ∧ partFields (var mem vars.dim s') = partFields (var mem vars.dim s)) := by
  cases g with
  | none => exact ⟨hs, hhf, rfl, rfl⟩
  | some g =>
    have hread := follows_read (b := .guid) (t := t) hm ha vars.guid offs 16
      (hon (Option.some_ne_none g)) hv.guid
      (fun x hx => not_outside_mine (.inr (.inr (.inr hx)))) hs
    refine hread.bind fun _ d s₁ _ ⟨hs₁, hd, hkept⟩ => ?_
    refine follows_loadVar ⟨hs₁, ?_, ?_, ?_⟩
    · exact (hdrFields_congr (var_kept hkept hv.hf_guid hv.hf)).trans hhf
    · rw [le64_congr hd (by decide), le64_congr hd (by decide)]
    · exact partFields_congr (var_kept hkept hv.dim_guid hv.dim)

/-- The signature tests agree. -/
theorem follows_gptCheckSignature (hm : Medium mem read disk Ready On own)
    (ha : Faithful disk aread) (hv : vars.Ok own)
    (hon : On vars.sig 0x200 8) (hs : Running mem Ready own vars m s) :
    Follows (gptCheckSignature mem read vars) (Gpt.gptCheckSignature aread) s t
      fun a b s' _ => Running mem Ready own vars m s' ∧ a = b := by
  have hon' : On vars.sig 0x200 (8 : U64).toNat := hon
  have hread := hm.reads hs.ready hon' hv.sig
  have hzero : Returns (isZero (read vars.sig 0x200 8)) s fun z s' => z = true ∧ Ready s' ∧
      (∀ i < 8, var mem vars.sig s' i = disk (0x200 + .ofNat 64 i)) ∧
      ∀ x, Mem.Outside vars.sig 8 x → ¬ own x → mem s' x = mem s x := by
    obtain ⟨_, s', hrun, h⟩ := returns_iff.mp hread
    refine returns_iff.mpr ⟨true, s', ?_, rfl, h⟩
    unfold EStateM.run at hrun ⊢
    rw [isZero, hrun]
  have hcall : Follows (isZero (read vars.sig 0x200 8)) (callRead aread .sig 0x200 8) s t
      fun z r s' _ => z = true ∧ r.1 = 0 ∧ Ready s' ∧ (∀ i < 8, var mem vars.sig s' i = r.2 i) ∧
        ∀ x, Mem.Outside vars.sig 8 x → ¬ own x → mem s' x = mem s x :=
    hzero.mono fun z s' ⟨hz, hready, hbytes, hkept⟩ => ⟨hz, ha.ret _ _ _, hready,
      fun i hi => (hbytes i hi).trans (ha.bytes 0x200 8 t.dev i hi).symm, hkept⟩
  refine hcall.bind fun z r s' t' ⟨hz, hr, hready, hbytes, hkept⟩ => ?_
  simp only [hz, hr, ne_eq, not_true_eq_false, if_true, if_false]
  refine follows_loadVar ⟨⟨hready, fun x hx hx' => ?_⟩, ?_⟩
  · rw [hkept x (by_contra fun hout => hx' (not_outside_mine (.inl hout))) hx]
    exact hs.kept x hx hx'
  · rw [le64_congr hbytes (by decide)]

/-- The variables of the abstract search that are kept outside of the memory. -/
def pos (v : FindSt) : Pos := ⟨v.p, v.lbaBegin, v.lbaEnd⟩

lemma pos_p (v : FindSt) : (pos v).p = v.p := rfl

lemma record_pos (v : FindSt) (dim : PartFields) :
    (pos v).record maxLbas dim = pos (v.record maxLbas dim) := by
  unfold Pos.record FindSt.record pos
  split <;> rfl

/-- **One turn of the loop** follows the turn on the disk; the extent it has read stays in its
variable. -/
theorem follows_findBody (hm : Medium mem read disk Ready On own)
    (ha : Faithful disk aread) (hv : vars.Ok own)
    (ht : TableOn disk On vars maxLbas tguid pguid) {v : FindSt}
    (hreach : Reached disk maxLbas tguid pguid v.p) (hs : Running mem Ready own vars m s)
    (hhf : HasHdr mem vars disk s) :
    Follows (findBody mem read vars maxLbas tguid pguid (pos v))
      (Gpt.findBody aread (header disk) maxLbas tguid pguid v) s t
      (Steps mem Ready own vars m disk fun a b s' => a = (b.1, pos b.2) ∧
        partFields (var mem vars.dim s') = b.2.dim) := by
  unfold findBody Gpt.findBody
  refine follows_loadHf hhf ?_
  have hread := follows_read (b := .dim) (t := t) hm ha vars.dim _ 16
    (ht.extent v.p hreach) hv.dim (fun x hx => not_outside_mine (.inr (.inr (.inl hx)))) hs
  refine hread.bind fun _ d s₁ t₁ ⟨hs₁, hd, hkept⟩ => ?_
  have hhf₁ : HasHdr mem vars disk s₁ :=
    (hdrFields_congr (var_kept hkept hv.hf_dim hv.hf)).trans hhf
  have hdim := partFields_congr hd
  refine follows_loadDim hdim ?_
  generalize partFields d = dim at hdim
  simp only [record_pos, pos_p, FindSt.record_dim, FindSt.record_p]
  refine Follows.ite Iff.rfl (fun _ => ⟨hs₁, hhf₁, rfl, ?_⟩) fun _ => ?_
  · rw [FindSt.record_dim, hdim]
  have hguid := follows_checkGuid (t := t₁) hm ha hv tguid
    (fun hne => ht.type hne v.p hreach) hs₁ hhf₁
  refine hguid.bind fun a b s₂ t₂ ⟨hs₂, hhf₂, hab, hdim₂⟩ => ?_
  refine Follows.ite (by rw [hab]) (fun _ => ⟨hs₂, hhf₂, rfl, ?_⟩) fun _ => ?_
  · rw [FindSt.record_dim, hdim₂, hdim]
  have hident := follows_checkGuid (t := t₂) hm ha hv pguid
    (fun hne => ht.ident hne v.p hreach) hs₂ hhf₂
  refine hident.bind fun a b s₃ t₃ ⟨hs₃, hhf₃, hab, hdim₃⟩ => ?_
  have hdim₃' : partFields (var mem vars.dim s₃) = (v.record maxLbas dim).dim := by
    rw [FindSt.record_dim, hdim₃, hdim₂, hdim]
  exact Follows.ite (by rw [hab]) (fun _ => ⟨hs₃, hhf₃, rfl, hdim₃'⟩)
    fun _ => ⟨hs₃, hhf₃, rfl, hdim₃'⟩

/-- **The search loop**, by induction on the entries to go. -/
theorem follows_findLoop (hm : Medium mem read disk Ready On own)
    (ha : Faithful disk aread) (hv : vars.Ok own)
    (ht : TableOn disk On vars maxLbas tguid pguid) :
    ∀ (n fuel : ℕ) (v : FindSt) (s : S) (t : DiskSt σ), v.p + n = (header disk).count.toNat →
      (∀ q < v.p, ¬ Viable disk maxLbas tguid pguid q) → n < fuel →
      Running mem Ready own vars m s → HasHdr mem vars disk s →
      Follows (findLoop mem read vars maxLbas tguid pguid fuel (pos v))
        (Gpt.findLoop aread (header disk) maxLbas tguid pguid n v) s t
        (Steps mem Ready own vars m disk fun a b s' => a = pos b ∧
          (b.p ≠ (header disk).count.toNat → partFields (var mem vars.dim s') = b.dim)) := by
  intro n
  induction n with
  | zero =>
    intro fuel v s t hn _ hfuel hs hhf
    obtain ⟨fuel, rfl⟩ : ∃ k, fuel = k + 1 := ⟨fuel - 1, by omega⟩
    rw [findLoop, Gpt.findLoop]
    refine follows_loadHf hhf ?_
    rw [pos_p, if_neg (by omega)]
    exact ⟨hs, hhf, rfl, fun hp => absurd hn hp⟩
  | succ n ih =>
    intro fuel v s t hn hskip hfuel hs hhf
    obtain ⟨fuel, rfl⟩ : ∃ k, fuel = k + 1 := ⟨fuel - 1, by omega⟩
    rw [findLoop, Gpt.findLoop]
    refine follows_loadHf hhf ?_
    rw [pos_p, if_pos (by omega)]
    have hbody := (follows_findBody (t := t) hm ha hv ht (v := v) ⟨by omega, hskip⟩ hs hhf).and_right
      (returns_findBody ha maxLbas tguid pguid v)
    refine hbody.bind ?_
    rintro a b s₁ t₁ ⟨⟨hs₁, hhf₁, rfl, hdim⟩, hbrk, hrec, -⟩
    have hp : b.2.p = v.p := by rw [hrec, FindSt.record_p]
    refine Follows.ite Iff.rfl (fun _ => ⟨hs₁, hhf₁, rfl, fun _ => hdim⟩) fun hno => ?_
    refine ih fuel { b.2 with p := b.2.p + 1 } s₁ t₁ (by simp only [hp]; omega) (fun q hq => ?_)
      (by omega) hs₁ hhf₁
    rcases Nat.lt_succ_iff_lt_or_eq.mp hq with hq | rfl
    · exact hskip q (hp ▸ hq)
    · rw [hp]
      exact fun hvia => hno (hbrk.mpr hvia)

/-- **The search** follows the search on the disk. -/
theorem follows_gptFindPartition (hm : Medium mem read disk Ready On own)
    (ha : Faithful disk aread) (hv : vars.Ok own)
    (ht : TableOn disk On vars maxLbas tguid pguid) {fuel : ℕ}
    (hfuel : (header disk).count.toNat < fuel) (lbaBegin lbaEnd : U64)
    (hs : Running mem Ready own vars m s) :
    Follows (gptFindPartition mem read vars maxLbas tguid pguid fuel lbaBegin lbaEnd)
      (Gpt.gptFindPartition aread maxLbas tguid pguid lbaBegin lbaEnd) s t
      fun a b s' _ => Running mem Ready own vars m s' ∧ a = b := by
  unfold gptFindPartition Gpt.gptFindPartition
  have hread := (follows_read (b := .hf) (t := t) hm ha vars.hf 0x248 16
    ht.hdr hv.hf (fun x hx => not_outside_mine (.inr (.inl hx))) hs).and_right
    (returns_checkRead ha _ _ _)
  refine hread.bind fun _ d s₁ t₁ ⟨⟨hs₁, hd, hkept⟩, hbytes, _⟩ => ?_
  have hhdr : hdrFields d = header disk := by
    rw [hdrFields, le64_of_bytes hbytes (by decide : (0 : ℕ) + 8 ≤ (16 : U64).toNat),
      le32_of_bytes hbytes (by decide : (8 : ℕ) + 4 ≤ (16 : U64).toNat),
      le32_of_bytes hbytes (by decide : (12 : ℕ) + 4 ≤ (16 : U64).toNat)]
    rfl
  have hhf₁ : HasHdr mem vars disk s₁ := (hdrFields_congr hd).trans hhdr
  simp only [hhdr]
  refine (follows_findLoop hm ha hv ht _ fuel ⟨0, ⟨0, 0⟩, lbaBegin, lbaEnd⟩ s₁ t₁ (Nat.zero_add _)
    (fun q hq => absurd hq (Nat.not_lt_zero q)) hfuel hs₁ hhf₁).bind ?_
  rintro a b s₂ t₂ ⟨hs₂, hhf₂, rfl, hdim⟩
  refine follows_loadHf hhf₂ ?_
  rw [pos_p]
  refine Follows.ite Iff.rfl (fun hp => ?_) fun _ => ⟨hs₂, rfl⟩
  exact follows_loadDim (hdim hp) ⟨hs₂, rfl⟩

/-! ### The boot -/

/-- What the boot selects on a disk. -/
structure Selects (disk : Mem 64) (maxLbas : U64) (tguid pguid : Option Guid) (o : FindOut) :
    Prop where
  raw : ¬ Signed disk → o = ⟨0, 0, maxLbas - 1⟩
  search : Signed disk → FindSpec disk maxLbas tguid pguid 0 (maxLbas - 1) o

/-- The bytes that the copy of a range takes. -/
def copyLen (o : FindOut) : U64 := 0x200 * (o.lbaEnd - o.lbaBegin + 1)

/-- The bytes of the entry `p`. -/
def bytesOf (disk : Mem 64) (p : ℕ) : ℕ :=
  0x200 * lbaCount (part disk p).lbaBegin (part disk p).lbaEnd

/-- What is handed to the next stage. -/
def launch (ptrs : BootPtrs) : Launch :=
  ⟨ptrs.read.setWidth 32 ||| 1, ptrs.priv.setWidth 32, ptrs.gp.setWidth 32, ptrs.codeBuf⟩

/-- The code buffer holds `n` bytes of the disk from `addr` on, and besides the variables and the
memory of the medium nothing else has changed. -/
structure Loaded (own : U64 → Prop) (vars : Vars) (disk : Mem 64)
    (codeBuf addr : U64) (n : ℕ) (m m' : Mem 64) : Prop where
  copied : ∀ i < n, m' (codeBuf + .ofNat 64 i) = disk (addr + .ofNat 64 i)
  kept : ∀ x, ¬ own x → ¬ vars.Mine x → Mem.Outside codeBuf n x → m' x = m x

/-- The range that is copied, as the boot finds it. -/
theorem returns_findElseRaw (hm : Medium mem read disk Ready On own) (hv : vars.Ok own)
    (hsig : On vars.sig 0x200 8) (ht : Signed disk → TableOn disk On vars maxLbas tguid pguid)
    {fuel : ℕ} (hfuel : (header disk).count.toNat < fuel) (hs : Running mem Ready own vars m s) :
    Returns (findElseRaw mem read vars maxLbas tguid pguid fuel) s fun o s' =>
      Running mem Ready own vars m s' ∧ Selects disk maxLbas tguid pguid o := by
  have hdisk := faithful_diskRead disk
  have hcheck := (follows_gptCheckSignature (t := ⟨(), []⟩) hm hdisk hv hsig hs).returns
    (returns_gptCheckSignature hdisk)
  refine hcheck.bind fun sig s₁ ⟨b, t', ⟨hb, _⟩, hs₁, hsig⟩ => ?_
  subst hsig
  by_cases hsigned : Signed disk
  · rw [if_pos (hb.mpr hsigned)]
    have hfind := (follows_gptFindPartition (t := ⟨(), []⟩) hm hdisk hv (ht hsigned) hfuel 0
      (maxLbas - 1) hs₁).returns (returns_gptFindPartition hdisk maxLbas tguid pguid 0 _)
    refine hfind.mono fun o s₂ ⟨o', t'', ⟨hspec, _⟩, hs₂, ho⟩ => ?_
    subst ho
    exact ⟨hs₂, fun hn => absurd hsigned hn, fun _ => hspec⟩
  · rw [if_neg fun h => hsigned (hb.mp h)]
    exact ⟨hs₁, fun _ => rfl, fun h => absurd h hsigned⟩

/-- **The boot from a medium** loads the range that the reader selects on the disk. -/
theorem returns_boot (hm : Medium mem read disk Ready On own) (hv : vars.Ok own)
    (hsig : On vars.sig 0x200 8) (ht : Signed disk → TableOn disk On vars maxLbas tguid pguid)
    {fuel : ℕ} (hfuel : (header disk).count.toNat < fuel) {ptrs : BootPtrs}
    (hcopy : ∀ o, Selects disk maxLbas tguid pguid o →
      On ptrs.codeBuf (0x200 * o.lbaBegin) (copyLen o).toNat ∧
        Buffer own ptrs.codeBuf (copyLen o).toNat)
    (hs : Ready s) :
    Returns (gptBootPartElseRaw mem read vars maxLbas tguid pguid fuel ptrs) s fun l s' =>
      Ready s' ∧ l = launch ptrs ∧ ∃ o, Selects disk maxLbas tguid pguid o ∧
        Loaded own vars disk ptrs.codeBuf (0x200 * o.lbaBegin) (copyLen o).toNat (mem s)
          (mem s') := by
  have hselect := returns_findElseRaw (m := mem s) hm hv hsig ht hfuel ⟨hs, fun _ _ _ => rfl⟩
  unfold gptBootPartElseRaw
  refine hselect.bind fun o s₁ ⟨hs₁, ho⟩ => ?_
  obtain ⟨hon, hbuf⟩ := hcopy o ho
  refine (hm.reads hs₁.ready hon hbuf).bind fun _ s₂ ⟨hready, hbytes, hkept⟩ => ?_
  refine ⟨hready, rfl, o, ho, hbytes, fun x hx hx' hout => ?_⟩
  rw [hkept x hout hx, hs₁.kept x hx hx']

/-- The copy of a viable entry takes its LBAs. -/
lemma toNat_copyLen_of_viable {p : ℕ} (hmax : 0x200 * maxLbas.toNat < 2 ^ 64)
    (hvia : Viable disk maxLbas tguid pguid p) :
    (0x200 * ((part disk p).lbaEnd - (part disk p).lbaBegin + 1)).toNat =
      bytesOf disk p := by
  have hlt := BitVec.lt_def.mp hvia.1
  rw [bytesOf, lbaCount]
  generalize (part disk p).lbaEnd - (part disk p).lbaBegin = d at hlt ⊢
  simp only [BitVec.ofNat_eq_ofNat, BitVec.toNat_mul, BitVec.toNat_add, BitVec.toNat_ofNat]
  omega

/-- **The boot of a partition**: from a medium with a viable entry the first one is loaded. -/
theorem returns_boot_part (hm : Medium mem read disk Ready On own) (hv : vars.Ok own)
    (hsig : On vars.sig 0x200 8) (hsigned : Signed disk)
    (ht : TableOn disk On vars maxLbas tguid pguid) {fuel : ℕ}
    (hfuel : (header disk).count.toNat < fuel) {ptrs : BootPtrs} {p : ℕ}
    (hmax : 0x200 * maxLbas.toNat < 2 ^ 64)
    (hp : IsLeast (viableIdx disk maxLbas tguid pguid) p)
    (hon : On ptrs.codeBuf (0x200 * (part disk p).lbaBegin) (bytesOf disk p))
    (hbuf : Buffer own ptrs.codeBuf (bytesOf disk p)) (hs : Ready s) :
    Returns (gptBootPartElseRaw mem read vars maxLbas tguid pguid fuel ptrs) s fun l s' =>
      Ready s' ∧ l = launch ptrs ∧
        Loaded own vars disk ptrs.codeBuf (0x200 * (part disk p).lbaBegin) (bytesOf disk p) (mem s)
          (mem s') := by
  have hrange : ∀ o, Selects disk maxLbas tguid pguid o →
      o.lbaBegin = (part disk p).lbaBegin ∧ (copyLen o).toNat = bytesOf disk p := by
    intro o ho
    obtain ⟨-, h1, h2⟩ := (ho.search hsigned).found p hp
    rw [copyLen, h1, h2]
    exact ⟨rfl, toNat_copyLen_of_viable hmax hp.1.2⟩
  refine (returns_boot hm hv hsig (fun _ => ht) hfuel (fun o ho => ?_) hs).mono ?_
  · obtain ⟨h1, h2⟩ := hrange o ho
    rw [h1, h2]
    exact ⟨hon, hbuf⟩
  · rintro l s' ⟨hready, hl, o, ho, hload⟩
    obtain ⟨h1, h2⟩ := hrange o ho
    rw [h1, h2] at hload
    exact ⟨hready, hl, hload⟩

end Search

end Cheshire.Sw.GptMem
