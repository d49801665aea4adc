import Cheshire.Hw.Cfg
import Mathlib.Data.Fintype.Basic

/-!
The register file of the SoC (`cheshire_reg_top.sv`) cycle by cycle, with the words that
`cheshire_soc.sv` puts on its read-only registers.  On any sequence of requests the scratch
registers are words of a memory that only whole and accepted words are written to, and the others
show the configuration.
-/

namespace Cheshire.Hw.RegTop

abbrev U32 := BitVec 32

/-! ### The code -/

/-- The primitives of the register interface: the next value of a `prim_subreg` of 32 bits that
software may read and write, what software reads of one, and what it reads of a
`prim_subreg_ext`. -/
structure Prims where
  subreg : (we : Bool) → (wd : U32) → (de : Bool) → (d q : U32) → U32
  qs : (q : U32) → U32
  ext : {n : ℕ} → (re : Bool) → (d : BitVec n) → BitVec n

/-- `cheshire_hw2reg_hw_features_reg_t`. -/
structure HwFeatures where
  bootrom : Bool
  llc : Bool
  uart : Bool
  spiHost : Bool
  i2c : Bool
  gpio : Bool
  dma : Bool
  serialLink : Bool
  vga : Bool
  axirt : Bool
  clic : Bool
  irqRouter : Bool
  busErr : Bool

/-- `cheshire_hw2reg_vga_params_reg_t`. -/
structure VgaParams where
  redWidth : BitVec 8
  greenWidth : BitVec 8
  blueWidth : BitVec 8

/-- `cheshire_hw2reg_t`. -/
structure Hw2Reg where
  bootMode : BitVec 2
  rtcFreq : U32
  platformRom : U32
  numIntHarts : U32
  hwFeatures : HwFeatures
  llcSize : U32
  vgaParams : VgaParams

/-- `reg_req_t`. -/
structure RegReq (w : ℕ) where
  addr : BitVec w
  write : Bool
  wdata : U32
  wstrb : BitVec 4
  valid : Bool

/-- `reg_rsp_t`. -/
structure RegRsp where
  rdata : U32
  error : Bool
  ready : Bool

/-- The offsets, in the order of the register indices. -/
def offsets : List (BitVec 7) :=
  [0x00, 0x04, 0x08, 0x0c, 0x10, 0x14, 0x18, 0x1c, 0x20, 0x24, 0x28, 0x2c, 0x30, 0x34, 0x38, 0x3c,
   0x40, 0x44, 0x48, 0x4c, 0x50, 0x54, 0x58]

/-- `CHESHIRE_PERMIT`. -/
def permit : List (BitVec 4) :=
  [0b1111, 0b1111, 0b1111, 0b1111, 0b1111, 0b1111, 0b1111, 0b1111, 0b1111, 0b1111, 0b1111, 0b1111,
   0b1111, 0b1111, 0b1111, 0b1111, 0b0001, 0b1111, 0b1111, 0b1111, 0b0011, 0b1111, 0b0111]

section Code

variable {w : ℕ} (prims : Prims) (hw : Hw2Reg) (devmode : Bool) (req : RegReq w)
  (q : Fin 16 → U32)

def regWe : Bool := req.valid && req.write

def regRe : Bool := req.valid && !req.write

/-- `addr_hit[k]`. -/
def addrHit (k : ℕ) : Bool := req.addr.setWidth 7 == offsets.getD k 0

def addrmiss : Bool :=
  if regRe req || regWe req then !(List.range 23).any (addrHit req) else false

/-- A write of less than what a register takes. -/
def wrErr : Bool :=
  regWe req && (List.range 23).any fun k => addrHit req k && permit.getD k 0 &&& ~~~req.wstrb != 0

def regError : Bool := (devmode && addrmiss req) || wrErr req

/-- A bit of a `prim_subreg_ext` of one bit. -/
def extBit (re b : Bool) : Bool := (prims.ext re (BitVec.ofBool b)).getLsbD 0

/-- `reg_rdata_next` where `addr_hit[k]` holds. -/
def rdataAt (k : ℕ) : U32 :=
  let re := addrHit req k && regRe req && !regError devmode req
  if h : k < 16 then prims.qs (q ⟨k, h⟩)
  else if k = 16 then (prims.ext re hw.bootMode).setWidth 32
  else if k = 17 then prims.ext re hw.rtcFreq
  else if k = 18 then prims.ext re hw.platformRom
  else if k = 19 then prims.ext re hw.numIntHarts
  else if k = 20 then
    let f := hw.hwFeatures
    (BitVec.ofBoolListLE ([f.bootrom, f.llc, f.uart, f.spiHost, f.i2c, f.gpio, f.dma, f.serialLink,
      f.vga, f.axirt, f.clic, f.irqRouter, f.busErr].map (extBit prims re))).setWidth 32
  else if k = 21 then prims.ext re hw.llcSize
  else
    let v := hw.vgaParams
    (prims.ext re v.blueWidth ++ prims.ext re v.greenWidth ++ prims.ext re v.redWidth).setWidth 32

/-- `reg_rdata_next`: the first case that holds. -/
def rdataNext : U32 :=
  match (List.range 23).find? (addrHit req) with
  | some k => rdataAt prims hw devmode req q k
  | none => BitVec.allOnes 32

/-- `cheshire_reg_top`: the response in a cycle, and the scratch registers behind it. -/
def regTop : RegRsp × (Fin 16 → U32) :=
  (⟨rdataNext prims hw devmode req q, regError devmode req, true⟩,
    fun i => prims.subreg (addrHit req i && regWe req && !regError devmode req) req.wdata false 0
      (q i))

/-- The responses of a run from the state `q` on, and the state behind it. -/
def run : (Fin 16 → U32) → List (Hw2Reg × RegReq w) → List RegRsp × (Fin 16 → U32)
  | q, [] => ([], q)
  | q, (hw, req) :: ins =>
    let (rsp, q) := regTop prims hw devmode req q
    let (rsps, q) := run q ins
    (rsp :: rsps, q)

end Code

/-- The reset value of the scratch registers. -/
def resval : Fin 16 → U32 := fun _ => 0

/-- `cheshire_cfg_t` with the fields that only the register file reads. -/
structure RegCfg extends CheshireCfg where
  rtcFreq : U32
  platformRom : U32
  vgaRedWidth : BitVec 8
  vgaGreenWidth : BitVec 8
  vgaBlueWidth : BitVec 8

/-- `reg_hw2reg`, with the boot mode as it is on the pins. -/
def regHw2reg (cfg : RegCfg) (bootModeI : BitVec 2) : Hw2Reg where
  bootMode := bootModeI
  rtcFreq := cfg.rtcFreq
  platformRom := cfg.platformRom
  numIntHarts := cfg.numCores.setWidth 32
  hwFeatures :=
    { bootrom := cfg.bootrom
      llc := cfg.llcNotBypass
      uart := cfg.uart
      i2c := cfg.i2c
      gpio := cfg.gpio
      spiHost := cfg.spiHost
      dma := cfg.dma
      serialLink := cfg.serialLink
      vga := cfg.vga
      axirt := cfg.axiRt
      clic := cfg.clic
      irqRouter := cfg.irqRouter
      busErr := cfg.busErr }
  llcSize := getLlcSize cfg.toCheshireCfg
  vgaParams := ⟨cfg.vgaRedWidth, cfg.vgaGreenWidth, cfg.vgaBlueWidth⟩

/-! ### A memory of words -/

/-- What the register file relies on: a register that is not written by hardware takes a word when
it is written, and keeps its own otherwise; software reads it, and what the hardware shows. -/
structure Prims.Ok (prims : Prims) : Prop where
  write : ∀ wd q, prims.subreg true wd false 0 q = wd
  keep : ∀ wd q, prims.subreg false wd false 0 q = q
  qs : ∀ q, prims.qs q = q
  ext : ∀ {n : ℕ} re (d : BitVec n), prims.ext re d = d

section Spec

variable {w : ℕ}

/-- The register of index `k` is asked for; the registers repeat every 128 bytes. -/
def Hits (req : RegReq w) (k : ℕ) : Prop := k < 23 ∧ req.addr.toNat % 128 = 4 * k

/-- A request is rejected for there is no register, or for it does not write all of it. -/
def Rejected (devmode : Bool) (req : RegReq w) : Prop :=
  req.valid = true ∧ ((devmode = true ∧ ∀ k, ¬ Hits req k) ∨
    req.write = true ∧ ∃ k, Hits req k ∧ permit.getD k 0 &&& ~~~req.wstrb ≠ 0)

/-- The whole word of a scratch register is written. -/
def Writes (req : RegReq w) (i : Fin 16) : Prop :=
  req.valid = true ∧ req.write = true ∧ req.wstrb = 0b1111 ∧ req.addr.toNat % 128 = 4 * (i : ℕ)

instance (req : RegReq w) (i : Fin 16) : Decidable (Writes req i) :=
  inferInstanceAs (Decidable (_ ∧ _))

/-- The words behind the requests `reqs`, from the words `q` on. -/
def stored (q : Fin 16 → U32) (reqs : List (RegReq w)) (i : Fin 16) : U32 :=
  reqs.foldl (fun v req => if Writes req i then req.wdata else v) (q i)

/-- The word of the last request of `reqs` that writes the register, and where there is none the
word of `q`. -/
def Last (q : Fin 16 → U32) (reqs : List (RegReq w)) (i : Fin 16) (v : U32) : Prop :=
  ((∀ req ∈ reqs, ¬ Writes req i) ∧ v = q i) ∨
    ∃ before req behind, reqs = before ++ req :: behind ∧ Writes req i ∧ v = req.wdata ∧
      ∀ req' ∈ behind, ¬ Writes req' i

/-- What a read-only register shows. -/
def infoWord (hw : Hw2Reg) (k : ℕ) : U32 :=
  if k = 16 then hw.bootMode.setWidth 32
  else if k = 17 then hw.rtcFreq
  else if k = 18 then hw.platformRom
  else if k = 19 then hw.numIntHarts
  else if k = 20 then
    let f := hw.hwFeatures
    (BitVec.ofBoolListLE [f.bootrom, f.llc, f.uart, f.spiHost, f.i2c, f.gpio, f.dma, f.serialLink,
      f.vga, f.axirt, f.clic, f.irqRouter, f.busErr]).setWidth 32
  else if k = 21 then hw.llcSize
  else (hw.vgaParams.blueWidth ++ hw.vgaParams.greenWidth ++ hw.vgaParams.redWidth).setWidth 32

/-- **A response**, when the words in the scratch registers are such as `Store` says. -/
structure Responds (Store : Fin 16 → U32 → Prop) (hw : Hw2Reg) (devmode : Bool) (req : RegReq w)
    (rsp : RegRsp) : Prop where
  ready : rsp.ready = true
  error : rsp.error = true ↔ Rejected devmode req
  scratch : ∀ i : Fin 16, Hits req i → Store i rsp.rdata
  info : ∀ k, 16 ≤ k → Hits req k → rsp.rdata = infoWord hw k
  unmapped : (∀ k, ¬ Hits req k) → rsp.rdata = BitVec.allOnes 32

end Spec

/-! ### A cycle -/

section Cycle

variable {w : ℕ} {prims : Prims} {hw : Hw2Reg} {devmode : Bool} {req : RegReq w} {q : Fin 16 → U32}

lemma offsets_getD : ∀ k < 23, offsets.getD k 0 = BitVec.ofNat 7 (4 * k) := by decide

lemma addrHit_iff {k : ℕ} (hk : k < 23) : addrHit req k = true ↔ Hits req k := by
  rw [addrHit, offsets_getD k hk, beq_iff_eq]
  constructor
  · intro h
    have hnat := congrArg BitVec.toNat h
    rw [BitVec.toNat_setWidth, BitVec.toNat_ofNat] at hnat
    exact ⟨hk, by omega⟩
  · rintro ⟨-, h⟩
    refine BitVec.eq_of_toNat_eq ?_
    rw [BitVec.toNat_setWidth, BitVec.toNat_ofNat]
    omega

lemma Hits.unique {k k' : ℕ} (h : Hits req k) (h' : Hits req k') : k = k' := by
  have h1 := h.2
  have h2 := h'.2
  omega

/-- The case of the register that is asked for. -/
lemma find?_addrHit {k : ℕ} (h : Hits req k) : (List.range 23).find? (addrHit req) = some k := by
  cases hf : (List.range 23).find? (addrHit req) with
  | none =>
    have hno := List.find?_eq_none.mp hf k (List.mem_range.mpr h.1)
    exact absurd ((addrHit_iff h.1).mpr h) hno
  | some k' =>
    have hmem := List.mem_range.mp (List.mem_of_find?_eq_some hf)
    have hhit := (addrHit_iff hmem).mp (List.find?_some hf)
    rw [hhit.unique h]

lemma find?_addrHit_none (h : ∀ k, ¬ Hits req k) : (List.range 23).find? (addrHit req) = none := by
  refine List.find?_eq_none.mpr fun k hk hhit => ?_
  exact h k ((addrHit_iff (List.mem_range.mp hk)).mp hhit)

lemma addrmiss_iff : addrmiss req = true ↔ req.valid = true ∧ ∀ k, ¬ Hits req k := by
  have hany : (List.range 23).any (addrHit req) = true ↔ ∃ k, Hits req k := by
    rw [List.any_eq_true]
    constructor
    · rintro ⟨k, hk, hhit⟩
      exact ⟨k, (addrHit_iff (List.mem_range.mp hk)).mp hhit⟩
    · rintro ⟨k, hk⟩
      exact ⟨k, List.mem_range.mpr hk.1, (addrHit_iff hk.1).mpr hk⟩
  have hreq : (regRe req || regWe req) = req.valid := by
    unfold regRe regWe
    cases req.valid <;> cases req.write <;> rfl
  rw [addrmiss, hreq]
  by_cases hv : req.valid = true
  · rw [if_pos hv, Bool.not_eq_true', ← Bool.not_eq_true, hany, not_exists]
    exact ⟨fun h => ⟨hv, h⟩, And.right⟩
  · rw [if_neg hv]
    exact ⟨fun h => absurd h Bool.false_ne_true, fun h => absurd h.1 hv⟩

lemma wrErr_iff : wrErr req = true ↔ req.valid = true ∧ req.write = true ∧
    ∃ k, Hits req k ∧ permit.getD k 0 &&& ~~~req.wstrb ≠ 0 := by
  rw [wrErr, regWe, Bool.and_eq_true, Bool.and_eq_true, List.any_eq_true, and_assoc]
  refine and_congr_right fun _ => and_congr_right fun _ => ?_
  constructor
  · rintro ⟨k, hk, h⟩
    rw [Bool.and_eq_true, bne_iff_ne] at h
    exact ⟨k, (addrHit_iff (List.mem_range.mp hk)).mp h.1, h.2⟩
  · rintro ⟨k, hk, h⟩
    refine ⟨k, List.mem_range.mpr hk.1, ?_⟩
    rw [Bool.and_eq_true, bne_iff_ne]
    exact ⟨(addrHit_iff hk.1).mpr hk, h⟩

/-- **Errors** are the rejections. -/
theorem regError_iff : regError devmode req = true ↔ Rejected devmode req := by
  rw [regError, Bool.or_eq_true, Bool.and_eq_true, addrmiss_iff, wrErr_iff]
  unfold Rejected
  constructor
  · rintro (⟨hd, hv, hno⟩ | ⟨hv, hw, hk⟩)
    · exact ⟨hv, .inl ⟨hd, hno⟩⟩
    · exact ⟨hv, .inr ⟨hw, hk⟩⟩
  · rintro ⟨hv, ⟨hd, hno⟩ | ⟨hw, hk⟩⟩
    · exact .inl ⟨hd, hv, hno⟩
    · exact .inr ⟨hv, hw, hk⟩

/-- A scratch register takes whole words. -/
lemma permit_scratch (i : Fin 16) (wstrb : BitVec 4) :
    permit.getD i 0 &&& ~~~wstrb = 0 ↔ wstrb = 0b1111 := by
  have hall : ∀ i : Fin 16, permit.getD i 0 = 0b1111 := by decide
  rw [hall]
  revert wstrb
  decide

lemma we_iff (i : Fin 16) :
    (addrHit req i && regWe req && !regError devmode req) = true ↔ Writes req i := by
  have hi : (i : ℕ) < 23 := Nat.lt_trans i.isLt (by decide)
  rw [Bool.and_eq_true, Bool.and_eq_true, addrHit_iff hi, regWe, Bool.and_eq_true,
    Bool.not_eq_true', ← Bool.not_eq_true, regError_iff]
  constructor
  · rintro ⟨⟨hhit, hv, hw⟩, hok⟩
    refine ⟨hv, hw, ?_, hhit.2⟩
    by_contra hne
    exact hok ⟨hv, .inr ⟨hw, i, hhit, fun h => hne ((permit_scratch i _).mp h)⟩⟩
  · rintro ⟨hv, hw, hstrb, haddr⟩
    have hhit : Hits req i := ⟨hi, haddr⟩
    refine ⟨⟨hhit, hv, hw⟩, ?_⟩
    rintro ⟨-, ⟨-, hno⟩ | ⟨-, k, hk, hne⟩⟩
    · exact hno i hhit
    · rw [hk.unique hhit] at hne
      exact hne ((permit_scratch i _).mpr hstrb)

/-- **The scratch registers** behind a cycle. -/
theorem regTop_scratch (hp : prims.Ok) (i : Fin 16) :
    (regTop prims hw devmode req q).2 i = if Writes req i then req.wdata else q i := by
  show prims.subreg (addrHit req i && regWe req && !regError devmode req) req.wdata false 0
    (q i) = _
  by_cases hw' : Writes req i
  · rw [(we_iff i).mpr hw', hp.write, if_pos hw']
  · rw [Bool.eq_false_iff.mpr fun h => hw' ((we_iff i).mp h), hp.keep, if_neg hw']

lemma extBit_eq (hp : prims.Ok) (re b : Bool) : extBit prims re b = b := by
  rw [extBit, hp.ext]
  cases b <;> rfl

lemma map_extBit (hp : prims.Ok) (re : Bool) (bits : List Bool) :
    (BitVec.ofBoolListLE (bits.map (extBit prims re))).setWidth 32 =
      (BitVec.ofBoolListLE bits).setWidth 32 := by
  have hid : extBit prims re = id := funext fun b => extBit_eq hp re b
  rw [hid, List.map_id]

/-- **The response** in a cycle. -/
theorem regTop_responds (hp : prims.Ok) {Store : Fin 16 → U32 → Prop} (hq : ∀ i, Store i (q i)) :
    Responds Store hw devmode req (regTop prims hw devmode req q).1 where
  ready := rfl
  error := regError_iff
  scratch i hhit := by
    show Store i (rdataNext prims hw devmode req q)
    rw [rdataNext, find?_addrHit hhit]
    simp only [rdataAt, i.isLt, dif_pos, hp.qs]
    exact hq i
  info k hk hhit := by
    show rdataNext prims hw devmode req q = _
    rw [rdataNext, find?_addrHit hhit]
    simp only [rdataAt, Nat.not_lt.mpr hk, dif_neg, not_false_eq_true, hp.ext, map_extBit hp,
      infoWord]
  unmapped hno := by
    show rdataNext prims hw devmode req q = _
    rw [rdataNext, find?_addrHit_none hno]

end Cycle

/-! ### A run -/

section Run

variable {w : ℕ} {prims : Prims}

lemma regTop_stored (hp : prims.Ok) (devmode : Bool) (hw : Hw2Reg) (req : RegReq w)
    (q : Fin 16 → U32) : (regTop prims hw devmode req q).2 = stored q [req] :=
  funext fun i => regTop_scratch hp i

lemma stored_append (q : Fin 16 → U32) (reqs reqs' : List (RegReq w)) :
    stored q (reqs ++ reqs') = stored (stored q reqs) reqs' :=
  funext fun _ => List.foldl_append

/-- The fold keeps the last word. -/
lemma last_stored (q : Fin 16 → U32) (reqs : List (RegReq w)) (i : Fin 16) :
    Last q reqs i (stored q reqs i) := by
  induction reqs using List.reverseRecOn with
  | nil => exact .inl ⟨fun _ h => absurd h List.not_mem_nil, rfl⟩
  | append_singleton reqs req ih =>
    have hstep : stored q (reqs ++ [req]) i =
        if Writes req i then req.wdata else stored q reqs i := by
      rw [stored_append]
      rfl
    rw [hstep]
    by_cases hw : Writes req i
    · rw [if_pos hw]
      exact .inr ⟨reqs, req, [], rfl, hw, rfl, fun _ h => absurd h List.not_mem_nil⟩
    · rw [if_neg hw]
      rcases ih with ⟨hno, hq⟩ | ⟨before, req', behind, hreqs, hw', hv, hno⟩
      · refine .inl ⟨fun r hr => ?_, hq⟩
        rcases List.mem_append.mp hr with hr | hr
        · exact hno r hr
        · rwa [List.mem_singleton.mp hr]
      · refine .inr ⟨before, req', behind ++ [req], ?_, hw', hv, fun r hr => ?_⟩
        · rw [hreqs, List.append_assoc, List.cons_append]
        · rcases List.mem_append.mp hr with hr | hr
          · exact hno r hr
          · rwa [List.mem_singleton.mp hr]

/-- **A run** from the state `q` on: the response to each request is due to the words that the
requests before it have left. -/
theorem run_getElem? (hp : prims.Ok) (devmode : Bool) : ∀ (ins : List (Hw2Reg × RegReq w))
    (q : Fin 16 → U32) (n : ℕ) (hn : n < ins.length), (run prims devmode q ins).1[n]? =
      some (regTop prims ins[n].1 devmode ins[n].2
        (stored q ((ins.take n).map Prod.snd))).1
  | [], _, n, hn => absurd hn (Nat.not_lt_zero n)
  | (_, _) :: _, _, 0, _ => rfl
  | (hw, req) :: ins, q, n + 1, hn => by
    have htail := run_getElem? hp devmode ins (stored q [req]) n (Nat.lt_of_succ_lt_succ hn)
    show (run prims devmode (regTop prims hw devmode req q).2 ins).1[n]? = _
    rw [regTop_stored hp devmode, htail, ← stored_append]
    rfl

end Run

/-! ### The register file of the SoC -/

section Soc

variable {w : ℕ} {prims : Prims}

/-- `i_regs`: the responses to the requests since reset, each with the boot mode on the pins. -/
def iRegs (prims : Prims) (cfg : RegCfg) (ins : List (BitVec 2 × RegReq w)) : List RegRsp :=
  (run prims true resval (ins.map fun io => (regHw2reg cfg io.1, io.2))).1

/-- **The register file**: in every run since reset the scratch registers are read as they were
written last, the other registers as the configuration has them, and the requests that fit no
register or write a part of one are errors and nothing else. -/
theorem iRegs_responds (hp : prims.Ok) (cfg : RegCfg) (ins : List (BitVec 2 × RegReq w)) (n : ℕ)
    (hn : n < ins.length) : ∃ rsp, (iRegs prims cfg ins)[n]? = some rsp ∧
      Responds (Last resval ((ins.take n).map Prod.snd)) (regHw2reg cfg ins[n].1) true ins[n].2
        rsp := by
  have hrun := run_getElem? hp true
    (ins.map fun io => (regHw2reg cfg io.1, io.2)) resval n (by rwa [List.length_map])
  rw [← List.map_take, List.map_map] at hrun
  refine ⟨_, hrun, ?_⟩
  rw [List.getElem_map]
  exact regTop_responds hp fun i => last_stored resval _ i

end Soc

/-- `prim_subreg` with `SWACCESS` "RW", and the wires of `prim_subreg_ext`. -/
def flops : Prims where
  subreg we wd de d q := if we then wd else if de then d else q
  qs q := q
  ext _ d := d

lemma flops_ok : flops.Ok where
  write _ _ := rfl
  keep _ _ := rfl
  qs _ := rfl
  ext _ _ := rfl

def defaultRegCfg : RegCfg where
  toCheshireCfg := defaultCfg
  rtcFreq := 32768
  platformRom := 0
  vgaRedWidth := 3
  vgaGreenWidth := 3
  vgaBlueWidth := 2

/-- An entry point is handed over in the first scratch register. -/
def handOver : List (BitVec 2 × RegReq 48) :=
  [(0, ⟨0x0300_0000, true, 0x8000_0000, 0b1111, true⟩), (0, ⟨0x0300_0000, false, 0, 0, true⟩)]

theorem iRegs_responds_handOver : ∃ rsp, (iRegs flops defaultRegCfg handOver)[1]? = some rsp ∧
    Responds (Last resval ((handOver.take 1).map Prod.snd)) (regHw2reg defaultRegCfg handOver[1].1)
      true handOver[1].2 rsp :=
  iRegs_responds flops_ok defaultRegCfg handOver 1 (by decide)

example : (iRegs flops defaultRegCfg handOver).map RegRsp.rdata = [0, 0x8000_0000] := by decide

end Cheshire.Hw.RegTop
