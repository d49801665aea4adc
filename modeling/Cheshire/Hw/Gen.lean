import Cheshire.Hw.Cfg
import Mathlib.Data.List.Induction
import Mathlib.Data.List.Nodup
import Mathlib.Logic.Function.Basic

/-!
The port generators `gen_axi_out` and `gen_reg_out` have one shape: two `int unsigned` counters,
`i` for ports and `r` for rules, run along a result struct whose fields are six bits wide and
whose arrays are finite.  A generator is modelled by the assignments it makes, in order and before
any of them is cut; the struct is what these assignments leave.
-/

namespace Cheshire.Hw

/-- `arul_t`. -/
structure Arul where
  idx : Aw
  start : Doub
  pte : Doub
  deriving DecidableEq

/-- An assignment `ret.f = v` or `ret.map[r] = '{v, start, pte}`. -/
inductive Assign (F : Type) where
  | field (f : F) (v : ℕ)
  | rule (r v : ℕ) (start pte : Doub)

/-- The result struct of a generator with the fields `F`. -/
structure Out (F : Type) where
  field : F → Aw
  map : Vector Arul 64

variable {F : Type}

/-- The field and the value of an assignment to a field. -/
def Assign.asField : Assign F → Option (F × ℕ)
  | .field f v => some (f, v)
  | .rule .. => none

/-- The position, the port and the window of an assignment to the map. -/
def Assign.asRule : Assign F → Option (ℕ × ℕ × Doub × Doub)
  | .field .. => none
  | .rule r v start pte => some (r, v, start, pte)

@[simp] lemma filterMap_asField_field (f : F) (v : ℕ) (as : List (Assign F)) :
    (Assign.field f v :: as).filterMap Assign.asField = (f, v) :: as.filterMap Assign.asField := rfl

@[simp] lemma filterMap_asField_rule (r v : ℕ) (start pte : Doub) (as : List (Assign F)) :
    (Assign.rule r v start pte :: as).filterMap Assign.asField = as.filterMap Assign.asField := rfl

@[simp] lemma filterMap_asRule_field (f : F) (v : ℕ) (as : List (Assign F)) :
    (Assign.field f v :: as).filterMap Assign.asRule = as.filterMap Assign.asRule := rfl

@[simp] lemma filterMap_asRule_rule (r v : ℕ) (start pte : Doub) (as : List (Assign F)) :
    (Assign.rule r v start pte :: as).filterMap Assign.asRule =
      (r, v, start, pte) :: as.filterMap Assign.asRule := rfl

lemma filterMap_asField_map_rule (l : List ℕ) (r v : ℕ → ℕ) (start pte : ℕ → Doub) :
    (l.map fun k => Assign.rule (r k) (v k) (start k) (pte k)).filterMap
      (Assign.asField (F := F)) = [] := by
  simp [List.filterMap_eq_nil_iff, Assign.asField]

lemma filterMap_asRule_map_rule (l : List ℕ) (r v : ℕ → ℕ) (start pte : ℕ → Doub) :
    (l.map fun k => Assign.rule (r k) (v k) (start k) (pte k)).filterMap
      (Assign.asRule (F := F)) = l.map fun k => (r k, v k, start k, pte k) := by
  simp [List.filterMap_map, Function.comp_def, Assign.asRule]

lemma zipIdx_map_range {α : Type} (f : ℕ → α) (n m : ℕ) :
    ((List.range n).map f).zipIdx m = (List.range n).map fun k => (f k, m + k) := by
  refine List.ext_getElem (by simp) fun k hk hk' => ?_
  simp

/-- The values fit their six bits, and the element written lies inside its array. -/
def Assign.Fits (inArray : F → Bool) : Assign F → Prop
  | .field f v => inArray f = true ∧ v < 64
  | .rule r v _ _ => r < 64 ∧ v < 64

section Struct

variable [DecidableEq F] (inArray : F → Bool)

/-- An assignment cuts the value to six bits; outside its array it writes nothing. -/
def Out.assign (o : Out F) : Assign F → Out F
  | .field f v => if inArray f then { o with field := Function.update o.field f (.ofNat 6 v) } else o
  | .rule r v start pte => { o with map := o.map.setIfInBounds r ⟨.ofNat 6 v, start, pte⟩ }

/-- The struct after a list of assignments, everything else being `'0`. -/
def Out.ofAssigns (as : List (Assign F)) : Out F :=
  as.foldl (Out.assign inArray) ⟨fun _ => 0, Vector.replicate 64 ⟨0, 0, 0⟩⟩

lemma Out.ofAssigns_concat (as : List (Assign F)) (a : Assign F) :
    Out.ofAssigns inArray (as ++ [a]) = (Out.ofAssigns inArray as).assign inArray a := by
  simp [Out.ofAssigns]

/-- A field that is assigned once holds what it was assigned. -/
theorem Out.field_ofAssigns {as : List (Assign F)} {f : F} {v : ℕ}
    (hnd : ((as.filterMap Assign.asField).map Prod.fst).Nodup)
    (h : (f, v) ∈ as.filterMap Assign.asField) (hf : inArray f = true) :
    (Out.ofAssigns inArray as).field f = .ofNat 6 v := by
  induction as using List.reverseRecOn with
  | nil => simp at h
  | append_singleton as a ih =>
    rw [Out.ofAssigns_concat]
    cases a with
    | rule r w start pte =>
      have hrec := ih (by simpa using hnd) (by simpa using h)
      simpa [Out.assign] using hrec
    | field g w =>
      rw [List.filterMap_append, List.map_append, List.nodup_append] at hnd
      obtain ⟨hnd₁, -, hdisj⟩ := hnd
      rw [List.filterMap_append, List.mem_append] at h
      rcases h with h | h
      · have hne : f ≠ g := hdisj f (List.mem_map.mpr ⟨_, h, rfl⟩) g (by simp)
        have hrec := ih hnd₁ h
        simp only [Out.assign]
        split
        · simpa [Function.update_of_ne hne] using hrec
        · exact hrec
      · have heq : f = g ∧ v = w := by simpa using h
        obtain ⟨rfl, rfl⟩ := heq
        simp [Out.assign, hf]

/-- An entry of the map that is assigned once holds what it was assigned. -/
theorem Out.map_ofAssigns {as : List (Assign F)} {r v : ℕ} {start pte : Doub}
    (hnd : ((as.filterMap Assign.asRule).map Prod.fst).Nodup)
    (h : (r, v, start, pte) ∈ as.filterMap Assign.asRule) (hr : r < 64) :
    (Out.ofAssigns inArray as).map[r] = ⟨.ofNat 6 v, start, pte⟩ := by
  induction as using List.reverseRecOn with
  | nil => simp at h
  | append_singleton as a ih =>
    simp only [Out.ofAssigns_concat]
    cases a with
    | field g w =>
      have hrec := ih (by simpa using hnd) (by simpa using h)
      simp only [Out.assign]
      split <;> exact hrec
    | rule q w s p =>
      rw [List.filterMap_append, List.map_append, List.nodup_append] at hnd
      obtain ⟨hnd₁, -, hdisj⟩ := hnd
      rw [List.filterMap_append, List.mem_append] at h
      rcases h with h | h
      · have hne : r ≠ q := hdisj r (List.mem_map.mpr ⟨_, h, rfl⟩) q (by simp)
        have hrec := ih hnd₁ h
        simpa [Out.assign, Vector.getElem_setIfInBounds, hne.symm] using hrec
      · have heq : r = q ∧ v = w ∧ start = s ∧ pte = p := by simpa using h
        obtain ⟨rfl, rfl, rfl, rfl⟩ := heq
        simp [Out.assign]

end Struct

/-- The rules handed to the decoder (`gen_axi_map`, `gen_reg_map`). -/
def Out.rules (o : Out F) (numRules : Aw) : List Arul := o.map.toList.take numRules.toNat

/-- When the rules are written one after another from entry `0` on, the decoder gets them all. -/
theorem Out.rules_ofAssigns [DecidableEq F] (inArray : F → Bool) {as : List (Assign F)}
    {numRules : Aw}
    (hpos : (as.filterMap Assign.asRule).map Prod.fst = List.range numRules.toNat) :
    (Out.ofAssigns inArray as).rules numRules =
      (as.filterMap Assign.asRule).map fun x => ⟨.ofNat 6 x.2.1, x.2.2.1, x.2.2.2⟩ := by
  have hlen : (as.filterMap Assign.asRule).length = numRules.toNat := by
    simpa using congrArg List.length hpos
  have hn := numRules.isLt
  refine List.ext_getElem ?_ fun k hk hk' => ?_
  · simp only [Out.rules, List.length_take, Vector.length_toList, List.length_map, hlen]
    omega
  · have hk₂ : k < (as.filterMap Assign.asRule).length := by simpa using hk'
    have hfst : ((as.filterMap Assign.asRule)[k]).1 = k := by
      have := List.getElem_map (Prod.fst) (h := by simpa using hk₂)
        (l := as.filterMap Assign.asRule) (i := k)
      simp only [hpos, List.getElem_range] at this
      exact this.symm
    have hmem : (k, ((as.filterMap Assign.asRule)[k]).2) ∈ as.filterMap Assign.asRule := by
      have hpair : (k, ((as.filterMap Assign.asRule)[k]).2) = (as.filterMap Assign.asRule)[k] :=
        Prod.ext hfst.symm rfl
      exact hpair ▸ List.getElem_mem hk₂
    have hnd : ((as.filterMap Assign.asRule).map Prod.fst).Nodup := hpos ▸ List.nodup_range
    have := Out.map_ofAssigns inArray hnd hmem (by omega)
    simpa [Out.rules] using this

/-! ### The counters -/

/-- The counters of a generator, and the assignments it has made. -/
structure Gen (F : Type) where
  i : ℕ
  r : ℕ
  assigns : List (Assign F)

namespace Gen

/-- `ret.f = v`. -/
def set (g : Gen F) (f : F) (v : ℕ) : Gen F := { g with assigns := g.assigns ++ [.field f v] }

/-- `r++; ret.map[r] = '{v, start, pte}`. -/
def rule (g : Gen F) (v : ℕ) (start pte : Doub) : Gen F :=
  { g with r := g.r + 1, assigns := g.assigns ++ [.rule (g.r + 1) v start pte] }

/-- `i++; ret.f = i; r++; ret.map[r] = '{i, start, pte}`. -/
def alloc (g : Gen F) (f : F) (start pte : Doub) : Gen F :=
  ({ g with i := g.i + 1 }.set f (g.i + 1)).rule (g.i + 1) start pte

/-- `for (k = 0; k < n; ++k) begin ret.map[r] = rl k; r++; end`. -/
def append (g : Gen F) (n : ℕ) (rl : ℕ → ℕ × Doub × Doub) : Gen F :=
  (List.range n).foldl (fun g k =>
    { g with r := g.r + 1, assigns := g.assigns ++ [.rule g.r (rl k).1 (rl k).2.1 (rl k).2.2] }) g

theorem append_eq (g : Gen F) (n : ℕ) (rl : ℕ → ℕ × Doub × Doub) : g.append n rl =
    ⟨g.i, g.r + n, g.assigns ++
      (List.range n).map fun k => .rule (g.r + k) (rl k).1 (rl k).2.1 (rl k).2.2⟩ := by
  induction n with
  | zero => simp [append]
  | succ n ih =>
    have hstep : g.append (n + 1) rl =
        ⟨(g.append n rl).i, (g.append n rl).r + 1, (g.append n rl).assigns ++
          [.rule (g.append n rl).r (rl n).1 (rl n).2.1 (rl n).2.2]⟩ := by
      simp [append, List.range_succ]
    rw [hstep, ih, List.range_succ]
    simp [Nat.add_assoc]

end Gen

end Cheshire.Hw
