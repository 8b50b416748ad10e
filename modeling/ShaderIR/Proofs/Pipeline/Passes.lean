import ShaderIR.Proofs.Assembler.Literals
import ShaderIR.Proofs.Listing.Definitions

/-!
# What a pass may do to a stream

A pass drops instructions that nothing needs, gives the ids that are left new numbers, and lets an
earlier literal stand for a later one that is equal to it.  Whatever is asked of an instruction that
is left can be answered from the instruction it stems from, and what is left agrees with its table.
-/

namespace ShaderIR

variable {j : Nat} {t : Opcode}

/-- An instruction whose id and whose slots are renamed, each in their own way. -/
def Instruction.relabel (f h : ResultId → ResultId) (inst : Instruction) : Instruction :=
  { inst.mapSlots h with id := f inst.id }

namespace Instruction

variable (f h : ResultId → ResultId) (inst : Instruction)

@[simp] theorem opcode_relabel : (inst.relabel f h).opcode = inst.opcode := rfl

@[simp] theorem id_relabel : (inst.relabel f h).id = f inst.id := rfl

@[simp] theorem operands_relabel : (inst.relabel f h).operands = inst.operands := rfl

@[simp] theorem refs_relabel : (inst.relabel f h).refs = inst.refs.map h := rfl

@[simp] theorem resultType_relabel : (inst.relabel f h).resultType = h inst.resultType := rfl

@[simp] theorem slots_relabel : (inst.relabel f h).slots = inst.slots.map h := rfl

end Instruction

/-! ## Reductions -/

/-- How `b` comes from `a`. -/
structure Reduction (a b : Assembler) where
  /-- Whether the instruction at a position of `a` is left. -/
  keep : Nat → Bool
  /-- How many instructions in front of a position of `a` are left. -/
  place : Nat → Nat
  /-- The new number of an id; void if it is gone. -/
  rename : ResultId → ResultId
  /-- What a slot holds now. -/
  redirect : ResultId → ResultId
  place_zero : place 0 = 0
  place_succ : ∀ i, place (i + 1) = place i + if keep i = true then 1 else 0
  size_code : b.code.size = place a.code.size
  code_of_keep : ∀ {i : Nat} {x : Instruction}, a.code[i]? = some x → keep i = true →
    b.code[place i]? = some (x.relabel rename redirect)
  rename_void : rename .void = .void
  rename_inj : ∀ x y, rename x = rename y → (rename x).index ≠ 0 → x = y
  redirect_void : redirect .void = .void
  /-- A slot holds what it held before, or what stands for it. -/
  redirect_slot : ∀ {i : Nat} {x : Instruction}, a.code[i]? = some x → keep i = true →
    ∀ r ∈ x.slots, r.index ≠ 0 → ∃ s, redirect r = rename s ∧ (rename s).index ≠ 0 ∧ a.StandsFor s r
  rename_id : ∀ {i : Nat} {x : Instruction}, a.code[i]? = some x → keep i = true →
    x.id.index ≠ 0 → (rename x.id).index ≠ 0
  keep_definition : ∀ {i : Nat} {x : Instruction}, a.code[i]? = some x →
    (rename x.id).index ≠ 0 → keep i = true
  opcodeOf_rename : ∀ id, (rename id).index ≠ 0 → b.opcodeOf (rename id) = a.opcodeOf id
  /-- A header is left together with its trailers. -/
  keep_trailer : ∀ {i j : Nat}, keep i = true → a.TrailsAfter i j → keep j = true
  /-- What is dropped has no effect of its own. -/
  dropped : ∀ {i : Nat} {x : Instruction}, a.code[i]? = some x → keep i = false →
    x.opcode.isPure = true ∨ x.opcode = .constructArg ∨ x.opcode = .arrayElem

namespace Reduction

open Assembler

variable {a b : Assembler} (R : Reduction a b)

/-! ### Positions -/

theorem place_mono {i : Nat} (h : i ≤ j) : R.place i ≤ R.place j := by
  induction h with
  | refl => exact Nat.le_refl _
  | step _ ih => rw [R.place_succ]; omega

theorem exists_place_eq {n : Nat} (h : j < R.place n) :
    ∃ i, i < n ∧ R.keep i = true ∧ R.place i = j := by
  induction n with
  | zero => rw [R.place_zero] at h; cases h
  | succ n ih =>
    rw [R.place_succ] at h
    by_cases hn : j < R.place n
    · obtain ⟨i, hi, hkeep, hplace⟩ := ih hn
      exact ⟨i, by omega, hkeep, hplace⟩
    · split at h
      next hkeep => exact ⟨n, by omega, hkeep, by omega⟩
      next => omega

theorem exists_of_code {y : Instruction} (h : b.code[j]? = some y) :
    ∃ i x, a.code[i]? = some x ∧ R.keep i = true ∧ R.place i = j ∧
      y = x.relabel R.rename R.redirect := by
  have hlt := lt_size_code h
  rw [R.size_code] at hlt
  obtain ⟨i, hi, hkeep, rfl⟩ := R.exists_place_eq hlt
  have hx := Array.getElem?_eq_getElem hi
  refine ⟨i, _, hx, hkeep, rfl, ?_⟩
  rw [R.code_of_keep hx hkeep, Option.some.injEq] at h
  exact h.symm

theorem place_add_of_trailsAfter {i k : Nat} (hi : R.keep i = true)
    (h : k = 0 ∨ a.TrailsAfter i (i + k)) : R.place (i + k) = R.place i + k := by
  induction k with
  | zero => rfl
  | succ k ih =>
    obtain ⟨header, t, hheader, ht, -, hle, hrun⟩ := h.resolve_left (by omega)
    have hprev : k = 0 ∨ a.TrailsAfter i (i + k) := by
      rcases Nat.eq_zero_or_pos k with hk | hk
      · exact .inl hk
      · refine .inr ⟨header, t, hheader, ht, by omega, by omega, fun n hn hnk => ?_⟩
        exact hrun n hn (by omega)
    have hkeep : R.keep (i + k) = true := by
      rcases hprev with rfl | hprev
      · exact hi
      · exact R.keep_trailer hi hprev
    rw [← Nat.add_assoc, R.place_succ, if_pos hkeep, ih hprev]
    omega

/-- **Trailers are carried over**, if there are as many as their header says. -/
theorem trailersAfter_relabel {i : Nat} {x : Instruction} (hx : a.code[i]? = some x)
    (hi : R.keep i = true) (ht : x.opcode.trailer? = some t)
    (hcount : (a.trailersAfter i t x.operands.fst.toNat).length = x.operands.fst.toNat) :
    b.trailersAfter (R.place i) t x.operands.fst.toNat =
      (a.trailersAfter i t x.operands.fst.toNat).map (·.relabel R.rename R.redirect) := by
  obtain ⟨-, hrun⟩ := le_length_trailersAfter_iff.mp (Nat.le_of_eq hcount.symm)
  have hcode : ∀ n, 0 < n → n ≤ x.operands.fst.toNat → ∃ y, a.code[i + n]? = some y ∧
      y.opcode = t ∧ b.code[R.place i + n]? = some (y.relabel R.rename R.redirect) := by
    intro n hn hle
    have htrails : a.TrailsAfter i (i + n) :=
      ⟨x, t, hx, ht, by omega, by omega, fun m hm hmn => hrun m hm (by omega)⟩
    obtain ⟨y, hy, hop⟩ := hrun (i + n) (by omega) (by omega)
    have hcode := R.code_of_keep hy (R.keep_trailer hi htrails)
    rw [R.place_add_of_trailsAfter hi (.inr htrails)] at hcode
    exact ⟨y, hy, hop, hcode⟩
  have hcount' : (b.trailersAfter (R.place i) t x.operands.fst.toNat).length = x.operands.fst.toNat := by
    refine Nat.le_antisymm (le_length_trailersAfter_iff.mp (Nat.le_refl _)).1
      (le_length_trailersAfter_iff.mpr ⟨Nat.le_refl _, fun k hk hkn => ?_⟩)
    obtain ⟨y, -, hop, hy⟩ := hcode (k - R.place i) (by omega) (by omega)
    rw [show R.place i + (k - R.place i) = k from by omega] at hy
    exact ⟨_, hy, hop⟩
  refine List.ext_getElem? fun m => ?_
  rw [List.getElem?_map]
  by_cases hm : m < x.operands.fst.toNat
  · obtain ⟨y, hy, -, hy'⟩ := hcode (m + 1) (by omega) (by omega)
    rw [getElem?_trailersAfter (hcount'.symm ▸ hm), getElem?_trailersAfter (hcount.symm ▸ hm),
      show R.place i + 1 + m = R.place i + (m + 1) from by omega, hy',
      show i + 1 + m = i + (m + 1) from by omega, hy]
    rfl
  · rw [List.getElem?_eq_none (by omega), List.getElem?_eq_none (by omega)]
    rfl

theorem exists_keep_of_mem_trailersAfter {i : Nat} {x y : Instruction}
    (hx : a.code[i]? = some x) (hi : R.keep i = true) (ht : x.opcode.trailer? = some t)
    (hy : y ∈ a.trailersAfter i t x.operands.fst.toNat) :
    ∃ j, a.code[j]? = some y ∧ R.keep j = true := by
  obtain ⟨j, hj, hij, hle, hrun⟩ := exists_of_mem_trailersAfter hy
  exact ⟨j, hj, R.keep_trailer hi ⟨x, t, hx, ht, hij, hle, hrun⟩⟩

/-! ### Slots -/

theorem opcodeOf_of_standsFor (ha : a.Coherent) {s r : ResultId} (h : a.StandsFor s r) :
    a.opcodeOf s = a.opcodeOf r := by
  rcases h with rfl | ⟨i, j, x, y, -, hx, hy, rfl, rfl, hs, hr, -, hkey⟩
  · rfl
  · rw [ha.opcode i x hx hs, ha.opcode j y hy hr]
    exact congrArg (·.1) hkey

section

variable {i : Nat} {x : Instruction} (hx : a.code[i]? = some x) (hi : R.keep i = true)
include hx hi

variable {r : ResultId}

theorem index_redirect (hr : r ∈ x.slots) : (R.redirect r).index = 0 ↔ r.index = 0 := by
  constructor
  · intro hz
    by_cases hrz : r.index = 0
    · exact hrz
    · obtain ⟨s, hs, hne, -⟩ := R.redirect_slot hx hi r hr hrz
      exact absurd (hs ▸ hz) hne
  · intro hz
    rw [ResultId.eq_void hz, R.redirect_void]
    rfl

theorem index_rename_id : (R.rename x.id).index = 0 ↔ x.id.index = 0 := by
  constructor
  · intro hz
    by_cases hid : x.id.index = 0
    · exact hid
    · exact absurd hz (R.rename_id hx hi hid)
  · intro hz
    rw [ResultId.eq_void hz, R.rename_void]
    rfl

theorem opcodeOf_redirect (ha : a.Coherent) (hr : r ∈ x.slots) :
    b.opcodeOf (R.redirect r) = a.opcodeOf r := by
  by_cases hz : r.index = 0
  · rw [ResultId.eq_void hz, R.redirect_void]
    rfl
  · obtain ⟨s, hs, hne, hstands⟩ := R.redirect_slot hx hi r hr hz
    rw [hs, R.opcodeOf_rename s hne, opcodeOf_of_standsFor ha hstands]

/-- **What a slot refers to.**  It is what it referred to before, or something equal further in
    front. -/
theorem exists_definition?_redirect (ha : a.Coherent) (hb : b.Coherent)
    (hr : r ∈ x.slots) {k : Nat} (hk : a.definition? r = some k) :
    ∃ k' d d', k' ≤ k ∧ a.code[k]? = some d ∧ a.code[k']? = some d' ∧ R.keep k' = true ∧
      b.definition? (R.redirect r) = some (R.place k') ∧
      (d' = d ∨ d.opcode.isMergeable = true ∧ d'.literalKey = d.literalKey) := by
  obtain ⟨d, hd, hid, hz, -⟩ := ha.exists_of_definition? hk
  obtain ⟨s, hs, hne, hstands⟩ := R.redirect_slot hx hi r hr hz
  -- The definition of what stands there now is left, since its id is.
  have hdefined : ∀ {k' : Nat} {d' : Instruction}, a.code[k']? = some d' → d'.id = s →
      R.keep k' = true ∧ b.definition? (R.redirect r) = some (R.place k') := by
    intro k' d' hd' hs'
    subst hs'
    have hkeep := R.keep_definition hd' hne
    refine ⟨hkeep, ?_⟩
    rw [hs]
    exact hb.definition?_eq (R.code_of_keep hd' hkeep) hne
  rcases hstands with rfl | ⟨k', k0, d', d0, hlt, hd', hd0, hid', hid0, -, -, hmerge, hkey⟩
  · obtain ⟨hkeep, hdef⟩ := hdefined hd hid
    exact ⟨k, d, d, Nat.le_refl k, hd, hd, hkeep, hdef, .inl rfl⟩
  · have hkk : k0 = k := ha.single k0 k r ⟨hz, d0, hd0, hid0⟩ ⟨hz, d, hd, hid⟩
    subst hkk
    rw [hd, Option.some.injEq] at hd0
    subst hd0
    obtain ⟨hkeep, hdef⟩ := hdefined hd' hid'
    exact ⟨k', d, d', Nat.le_of_lt hlt, hd, hd', hkeep, hdef, .inr ⟨hmerge, hkey⟩⟩

end

end Reduction

/-! ## Passes are reductions -/

theorem Opcode.not_isPure_of_trailer {op : Opcode} (h : op.trailer? = some t) :
    t.isPure = false := by
  cases op <;> cases h <;> rfl

theorem Opcode.trailer_ne_header {op op' : Opcode} (h : op.trailer? = some t)
    (h' : op'.trailer?.isSome = true) : t ≠ op' := by
  cases op <;> cases h <;> rintro rfl <;> cases h'

namespace Assembler

/-! ### Dead code removal -/

section Flatten

variable {asm : Assembler} (h : asm.Coherent) (htrailers : asm.VoidTrailers)

theorem TrailsAfter.header_eq {i i' : Nat} (h : asm.TrailsAfter i j) (h' : asm.TrailsAfter i' j) :
    i = i' := by
  -- The later header would be a trailer of the earlier one.
  have hlt : ∀ {i i' : Nat}, asm.TrailsAfter i j → asm.TrailsAfter i' j → ¬ i < i' := by
    rintro i i' ⟨x, t, -, ht, -, -, hrun⟩ ⟨x', t', hx', ht', hj, -, -⟩ hlt
    obtain ⟨y, hy, hop⟩ := hrun i' hlt (Nat.le_of_lt hj)
    rw [hx', Option.some.injEq] at hy
    subst hy
    exact Opcode.trailer_ne_header ht (by rw [ht']; rfl) hop.symm
  have h1 := hlt h h'
  have h2 := hlt h' h
  omega

include h in
theorem removed_cases (hj : flagged asm.sweep.removed j = true) :
    ∃ i x, asm.code[i]? = some x ∧ x.opcode.isPure = true ∧
      flagged asm.sweep.removed i = true ∧ (j = i ∨ asm.TrailsAfter i j) := by
  have hdef := h.definition?_iff
  obtain ⟨d, hmarked, hdoomed⟩ := (flagged_removed_sweep h.exact j).mp hj
  obtain ⟨i, hat, hji⟩ := (mem_doomed_iff hdef).mp hdoomed
  obtain ⟨total, hsound⟩ := sound_sweep h.exact
  have halloc := hsound.isAllocated_of_marked hmarked
  have hdrop := ((marked_sweep_iff h.exact halloc).mp hmarked).1
  obtain ⟨x, hx, -⟩ := hat.2
  refine ⟨i, x, hx, (mayDrop_iff hdef).mp hdrop i x hat hx, ?_, hji⟩
  exact (flagged_removed_sweep h.exact i).mpr ⟨d, hmarked, (mem_doomed_iff hdef).mpr ⟨i, hat, .inl rfl⟩⟩

include h in
theorem flagged_removed_of_trailsAfter {i : Nat} (hi : flagged asm.sweep.removed i = false)
    (hij : asm.TrailsAfter i j) : flagged asm.sweep.removed j = false := by
  rw [Bool.eq_false_iff]
  intro hj
  obtain ⟨i', x, hx, hpure, hgone, rfl | hij'⟩ := removed_cases h hj
  · -- A trailer is not removed for its own sake.
    obtain ⟨header, t, -, ht, hlt, -, hrun⟩ := hij
    obtain ⟨y, hy, hop⟩ := hrun j hlt (Nat.le_refl j)
    rw [hx, Option.some.injEq] at hy
    rw [hy, hop, Opcode.not_isPure_of_trailer ht] at hpure
    cases hpure
  · rw [hij.header_eq hij', hgone] at hi
    cases hi

def flattenReduction : Reduction asm asm.flatten.2 where
  keep i := !flagged asm.sweep.removed i
  place := rank asm.sweep.removed
  rename := asm.newId
  redirect := asm.newId
  place_zero := rank_zero _
  place_succ i := by
    rw [rank_succ]
    cases flagged asm.sweep.removed i <;> rfl
  size_code := size_code_flatten asm
  code_of_keep hx hi := getElem?_code_flatten hx (by simpa using hi)
  rename_void := newId_void asm
  rename_inj x y hxy hz :=
    newId_inj (kept_of_newId hz) (kept_of_newId (hxy ▸ hz)) hxy
  redirect_void := newId_void asm
  redirect_slot {i x} hx hi r hr hz := by
    have hmem : x ∈ survivors asm.sweep.removed asm.code :=
      mem_survivors.mpr ⟨i, hx, by simpa using hi⟩
    exact ⟨r, rfl, newId_ne_zero (kept_of_mem_slots h.exact hmem hr) hz, .inl rfl⟩
  rename_id {i x} hx hi hz := by
    have hmem : x ∈ survivors asm.sweep.removed asm.code :=
      mem_survivors.mpr ⟨i, hx, by simpa using hi⟩
    have hkept := kept_of_mem_survivors h.exact h.definition?_iff h.allocated hmem (.inl rfl)
    exact newId_ne_zero hkept hz
  keep_definition {i x} hx hz := by
    have hxz : x.id.index ≠ 0 := by
      intro h0
      rw [ResultId.eq_void h0, newId_void asm] at hz
      exact hz rfl
    have hat : asm.DefinesAt i x.id := ⟨hxz, x, hx, rfl⟩
    have hmem := mem_survivors_of_definesAt h.exact h.definition?_iff htrailers (kept_of_newId hz) hat hx
    obtain ⟨i', hx', hleft⟩ := mem_survivors.mp hmem
    rw [h.single i i' x.id hat ⟨hxz, x, hx', rfl⟩, hleft]
    rfl
  opcodeOf_rename id hz := by
    refine opcodeOf_flatten h.exact (kept_of_newId hz) fun h0 => ?_
    rw [ResultId.eq_void h0, newId_void asm] at hz
    exact hz rfl
  keep_trailer hi hij := by
    rw [Bool.not_eq_true', flagged_removed_of_trailsAfter h (by simpa using hi) hij]
  dropped {i x} hx hi := by
    obtain ⟨i', x', hx', hpure, -, rfl | hij⟩ := removed_cases h (by simpa using hi)
    · rw [hx, Option.some.injEq] at hx'
      exact .inl (hx' ▸ hpure)
    · obtain ⟨header, t, hheader, ht, hlt, -, hrun⟩ := hij
      obtain ⟨y, hy, hop⟩ := hrun i hlt (Nat.le_refl i)
      rw [hx, Option.some.injEq] at hy
      rw [hx', Option.some.injEq] at hheader
      subst hy hheader
      exact .inr (hop ▸ Opcode.trailer_of_isPure hpure ht)

include h in
/-- **Dead code removal keeps a stream coherent.**  An id may lose its definition, but never gains
    one. -/
theorem Coherent.flatten : asm.flatten.2.Coherent := by
  have hold : ∀ {x : Instruction}, (asm.newId x.id).index ≠ 0 → x.id.index ≠ 0 := by
    intro x hz h0
    rw [ResultId.eq_void h0, newId_void asm] at hz
    exact hz rfl
  refine { exact := h.exact.flatten, sound := definitionsSound_flatten asm,
           complete := definitionsComplete_flatten asm, single := fun i j id hi hj => ?_,
           allocated := fun inst hinst => ?_, opcode := fun i inst hinst hz => ?_ }
  · obtain ⟨hz, y, hy, rfl⟩ := hi
    obtain ⟨-, y', hy', hid⟩ := hj
    obtain ⟨k, x, hx, -, rfl, rfl⟩ := exists_of_code_flatten hy
    obtain ⟨k', x', hx', -, rfl, rfl⟩ := exists_of_code_flatten hy'
    have hnew : asm.newId x'.id = asm.newId x.id := hid
    have hxx : x'.id = x.id :=
      newId_inj (kept_of_newId (hnew ▸ hz)) (kept_of_newId hz) hnew
    rw [h.single k k' x.id ⟨hold hz, x, hx, rfl⟩ ⟨hold hz, x', hx', hxx⟩]
  · by_cases hv : inst.id.isVoid = true
    · exact .inl hv
    · have hz : inst.id.index ≠ 0 := fun hz => hv (ResultId.isVoid_iff.mpr hz)
      obtain ⟨i, hi⟩ := List.mem_iff_getElem?.mp hinst
      rw [Array.getElem?_toList] at hi
      exact .inr (isAllocated_iff.mpr ⟨hz, lt_size_of_definesAt_flatten ⟨hz, inst, hi, rfl⟩⟩)
  · obtain ⟨k, x, hx, -, -, rfl⟩ := exists_of_code_flatten hinst
    show asm.flatten.2.opcodeOf (asm.newId x.id) = x.opcode
    rw [opcodeOf_flatten h.exact (kept_of_newId hz) (hold hz), h.opcode k x hx (hold hz)]

end Flatten

/-! ## Merging of literals -/

section Merge

variable {asm : Assembler} (h : asm.Coherent)
include h

theorem Coherent.distinct : asm.Distinct := ⟨h.exact, h.single, h.allocated⟩

def mergeReduction : Reduction asm asm.mergeLiterals.2 where
  keep _ := true
  place i := i
  rename id := id
  redirect := asm.mergedId
  place_zero := rfl
  place_succ _ := rfl
  size_code := by rw [h.distinct.redirected_mergeLiterals.code, Array.size_map]
  code_of_keep hx _ := by
    rw [h.distinct.redirected_mergeLiterals.code, Array.getElem?_map, hx]
    rfl
  rename_void := rfl
  rename_inj _ _ hxy _ := hxy
  redirect_void := by
    rcases h.distinct.standsFor_mergedId .void with
      heq | ⟨i, j, x, y, -, -, -, -, -, -, hz, -⟩
    · exact heq
    · exact absurd rfl hz
  redirect_slot {i x} hx _ r hr hz := by
    have hstands := h.distinct.standsFor_mergedId r
    refine ⟨_, rfl, ?_, hstands⟩
    rcases hstands with heq | ⟨i, j, x, y, -, -, -, -, -, hs, -⟩
    · rw [heq]
      exact hz
    · exact hs
  rename_id _ _ hz := hz
  keep_definition _ _ := rfl
  opcodeOf_rename id _ := h.distinct.redirected_mergeLiterals.opcodeOf id
  keep_trailer _ _ := rfl
  dropped _ hi := by cases hi

def logReduction (asm : Assembler) (log : ProblemLog) : Reduction asm { asm with log } where
  keep _ := true
  place i := i
  rename id := id
  redirect r := r
  place_zero := rfl
  place_succ _ := rfl
  size_code := rfl
  code_of_keep hx _ := hx
  rename_void := rfl
  rename_inj _ _ hxy _ := hxy
  redirect_void := rfl
  redirect_slot _ _ r _ hz := ⟨r, rfl, hz, .inl rfl⟩
  rename_id _ _ hz := hz
  keep_definition _ _ := rfl
  opcodeOf_rename _ _ := rfl
  keep_trailer _ _ := rfl
  dropped _ hi := by cases hi

theorem Coherent.replace (old new : ResultId) : (asm.replace old new).2.Coherent := by
  obtain ⟨hdefinition, hdefines⟩ := replace_frame asm old new
  -- Replacing changes slots only, so each instruction stems from one with the same id and opcode.
  have hcode : ∀ {i : Nat} {y : Instruction}, (asm.replace old new).2.code[i]? = some y →
      ∃ x, asm.code[i]? = some x ∧ y.id = x.id ∧ y.opcode = x.opcode := by
    intro i y hy
    rcases replace_cases asm old new with ⟨hcode, -⟩ | ⟨-, -, -, heq⟩
    · exact ⟨y, hcode ▸ hy, rfl, rfl⟩
    · rw [heq, Array.getElem?_map, Option.map_eq_some_iff] at hy
      obtain ⟨x, hx, rfl⟩ := hy
      exact ⟨x, hx, rfl, rfl⟩
  refine { exact := h.exact.replace old new, sound := fun id i hi => ?_,
           complete := fun i id hi => ?_, single := fun i j id hi hj => ?_,
           allocated := fun inst hinst => ?_, opcode := fun i inst hinst hz => ?_ }
  · rw [hdefinition] at hi
    exact (hdefines i id).mpr (h.sound id i hi)
  · rw [hdefinition]
    exact h.complete i id ((hdefines i id).mp hi)
  · exact h.single i j id ((hdefines i id).mp hi) ((hdefines j id).mp hj)
  · obtain ⟨i, hi⟩ := List.mem_iff_getElem?.mp hinst
    rw [Array.getElem?_toList] at hi
    obtain ⟨x, hx, hid, -⟩ := hcode hi
    rw [hid, isAllocated, size_ids_replace]
    exact h.allocated x (mem_code hx)
  · obtain ⟨x, hx, hid, hop⟩ := hcode hinst
    rw [opcodeOf_replace, hid, hop]
    exact h.opcode i x hx (hid ▸ hz)

theorem Coherent.mergeLiterals : asm.mergeLiterals.2.Coherent :=
  mergeLiterals_invariant (fun _ old new ha => ha.replace old new) h

end Merge

end Assembler

end ShaderIR
