import ShaderIR.Proofs.Assembler.DeadCode

/-!
# Merging of literals

The literals of a stream that are equal to an earlier one are listed together with the first one
equal to them, and every slot that held one of them holds the first one afterwards.  What a slot
holds then is **no literal that is listed**, and may stand for what it held before.
-/

namespace ShaderIR

variable {e : ResultId × ResultId} {asm : Assembler}

theorem Opcode.isMergeable_iff {op : Opcode} :
    op.isMergeable = true ↔ op ∈ [.intLit, .floatLit, .boolLit, .null, .zero] := by
  cases op <;> decide

def Instruction.isMergeable (inst : Instruction) : Bool :=
  !inst.id.isVoid && inst.opcode.isMergeable

namespace Assembler

/-! ## Literals that stand for others -/

/-- What merging asks of a stream: counts are right, its ids are allocated, and none is defined
twice. -/
structure Distinct (asm : Assembler) : Prop where
  exact : Exact asm
  single : asm.SinglyDefined
  allocated : ∀ inst ∈ asm.code.toList, inst.id.isVoid = true ∨ asm.isAllocated inst.id = true

theorem Accounted.distinct (h : asm.Accounted) (hpos : 0 < asm.ids.size) :
    asm.Distinct := ⟨h.exact hpos, h.single, fun inst hinst => h.allocated inst hinst _ (.inl rfl)⟩

/-- `s` may stand for `r`: they are the same, or two equal literals of which `s` is the earlier. -/
def StandsFor (asm : Assembler) (s r : ResultId) : Prop :=
  s = r ∨ ∃ (i j : Nat) (x y : Instruction), i < j ∧ asm.code[i]? = some x ∧ asm.code[j]? = some y ∧
    x.id = s ∧ y.id = r ∧ s.index ≠ 0 ∧ r.index ≠ 0 ∧ y.opcode.isMergeable = true ∧ x.literalKey = y.literalKey

theorem Distinct.standsFor_trans (h : asm.Distinct) {s r t : ResultId}
    (h1 : asm.StandsFor s r) (h2 : asm.StandsFor r t) : asm.StandsFor s t := by
  rcases h1 with rfl | ⟨i, j, x, y, hij, hx, hy, hxs, hyr, hs, hr, hmerge1, hkey⟩
  · exact h2
  rcases h2 with rfl | ⟨j', k, y', z, hjk, hy', hz, hyr', hzt, -, ht, hmerge, hkey'⟩
  · exact .inr ⟨i, j, x, y, hij, hx, hy, hxs, hyr, hs, hr, hmerge1, hkey⟩
  -- The literal in the middle is defined at one place.
  have hjj : j = j' := h.single j j' r ⟨hr, y, hy, hyr⟩ ⟨hr, y', hy', hyr'⟩
  subst hjj
  rw [hy, Option.some.injEq] at hy'
  subst hy'
  exact .inr ⟨i, k, x, z, by omega, hx, hz, hxs, hzt, hs, ht, hmerge, hkey.trans hkey'⟩

/-! ## Replacing one id after the other -/

/-- What stands for an id after some literals are redirected one after the other. -/
def redirection (pairs : List (ResultId × ResultId)) (id : ResultId) : ResultId :=
  pairs.foldl (fun r e => if r = e.1 then e.2 else r) id

structure Redirected (asm after : Assembler) (g : ResultId → ResultId) : Prop where
  code : after.code = asm.code.map (·.mapSlots g)
  size_ids : after.ids.size = asm.ids.size
  opcodeOf : ∀ id, after.opcodeOf id = asm.opcodeOf id
  definition : ∀ id, after.definition? id = asm.definition? id
  types : after.types = asm.types
  names : after.names = asm.names
  exact : Exact after

theorem opcodeOf_replace (asm : Assembler) (old new id : ResultId) :
    (asm.replace old new).2.opcodeOf id = asm.opcodeOf id := by
  rcases replace_cases asm old new with ⟨-, hids⟩ | ⟨-, -, -, heq⟩
  · exact opcodeOf_congr hids id
  · have hentry := congrArg (·.map (·.1)) (getElem?_movedCounts asm old new id.index)
    simp only [Option.map_map, Function.comp_def] at hentry
    rw [heq, opcodeOf, hentry, opcodeOf]

theorem mapSlots_mapSlots (inst : Instruction) (f g : ResultId → ResultId) :
    (inst.mapSlots f).mapSlots g = inst.mapSlots (g ∘ f) := rfl

theorem mapSlots_eq_self {inst : Instruction} {f : ResultId → ResultId}
    (h : ∀ r ∈ inst.slots, f r = r) : inst.mapSlots f = inst := by
  have hmem : ∀ r, r = inst.refs.fst ∨ r = inst.refs.snd ∨ r = inst.refs.thd ∨ r = inst.resultType →
      f r = r := fun r hr => h r (Instruction.mem_slots.mpr hr)
  rw [Instruction.mapSlots, Triple.map, hmem _ (.inl rfl), hmem _ (.inr (.inl rfl)),
    hmem _ (.inr (.inr (.inl rfl))), hmem _ (.inr (.inr (.inr rfl)))]

theorem redirected_redirectLiterals {pairs : List (ResultId × ResultId)} (h : Exact asm)
    (hpairs : ∀ e ∈ pairs, asm.isAllocated e.1 = true ∧ asm.isAllocated e.2 = true ∧ e.1 ≠ e.2)
    (n : Nat) :
    Redirected asm (redirectLiterals pairs (n, asm)).2 (redirection pairs) := by
  induction pairs generalizing asm n with
  | nil =>
    refine ⟨?_, rfl, fun _ => rfl, fun _ => rfl, rfl, rfl, h⟩
    show asm.code = asm.code.map fun inst => inst
    exact (Array.map_id' asm.code).symm
  | cons e rest ih =>
    obtain ⟨id, first⟩ := e
    obtain ⟨⟨hid, hfirst, hne⟩, hrest⟩ := List.forall_mem_cons.mp hpairs
    -- The first redirection, then the others.
    have hcompose : redirection ((id, first) :: rest)
        = redirection rest ∘ fun r => if r = id then first else r := rfl
    unfold redirectLiterals
    split
    next hzero =>
      have hih := ih h hrest n
      refine { hih with code := ?_ }
      rw [hih.code, hcompose]
      refine Array.map_congr_left fun inst hinst => ?_
      rw [← mapSlots_mapSlots]
      congr 1
      refine (mapSlots_eq_self fun r hr => if_neg ?_).symm
      rintro rfl
      have hnone := slotsIn_eq_zero.mp ((h.useCount_eq r hid).symm.trans hzero)
      exact hnone inst (Array.mem_toList_iff.mpr hinst) hr
    next =>
      have heq := congrArg (·.2) (replace_of_known hid (.inr hfirst) hne)
      have hsize' := size_ids_replace asm id first
      have halloc : ∀ r, (asm.replace id first).2.isAllocated r = asm.isAllocated r := by
        intro r
        rw [isAllocated, isAllocated, hsize']
      have hih := ih (h.replace id first) (fun e he => by rw [halloc, halloc]; exact hrest e he)
        (n + (asm.replace id first).1)
      have hcode : (asm.replace id first).2.code
          = asm.code.map (·.mapSlots fun r => if r = id then first else r) := by rw [heq]
      exact
        { code := by
            rw [hih.code, hcode, Array.map_map]
            rfl
          size_ids := hih.size_ids.trans hsize'
          opcodeOf := fun r => (hih.opcodeOf r).trans (opcodeOf_replace asm id first r)
          definition := fun r => (hih.definition r).trans ((replace_frame asm id first).1 r)
          types := hih.types.trans (by rw [heq])
          names := hih.names.trans (by rw [heq])
          exact := hih.exact }

/-! ## The literals that are listed -/

def firstLiteral? (l : List Instruction) (key : Opcode × Triple UInt32 × ResultId) :
    Option Instruction := l.find? fun inst => inst.isMergeable && decide (inst.literalKey = key)

theorem firstLiteral?_concat (l : List Instruction) (inst : Instruction)
    (key : Opcode × Triple UInt32 × ResultId) :
    firstLiteral? (l ++ [inst]) key = (firstLiteral? l key).or
      (if inst.isMergeable = true ∧ inst.literalKey = key then some inst else none) := by
  rw [firstLiteral?, List.find?_append, firstLiteral?, List.find?_singleton]
  simp only [Bool.and_eq_true, decide_eq_true_eq]

/-- **Repeated literals come with the first one equal to them**, and all of them do. -/
theorem mem_repeatedLiterals_iff {before l : List Instruction}
    {seen : Table (Opcode × Triple UInt32 × ResultId) ResultId}
    (hseen : ∀ key, seen.get? key = (firstLiteral? before key).map (·.id)) :
    e ∈ repeatedLiterals seen l ↔ ∃ j y x, l[j]? = some y ∧ y.isMergeable = true ∧ y.id = e.1 ∧
      firstLiteral? (before ++ l.take j) y.literalKey = some x ∧ x.id = e.2 := by
  induction l generalizing before seen with
  | nil => simp [repeatedLiterals]
  | cons inst rest ih =>
    -- An entry is for the instruction at hand or for a later one.
    have hsplit : (∃ j y x, (inst :: rest)[j]? = some y ∧ y.isMergeable = true ∧ y.id = e.1 ∧
          firstLiteral? (before ++ (inst :: rest).take j) y.literalKey = some x ∧ x.id = e.2) ↔
        (inst.isMergeable = true ∧ inst.id = e.1 ∧
          ∃ x, firstLiteral? before inst.literalKey = some x ∧ x.id = e.2) ∨
        ∃ j y x, rest[j]? = some y ∧ y.isMergeable = true ∧ y.id = e.1 ∧
          firstLiteral? (before ++ [inst] ++ rest.take j) y.literalKey = some x ∧ x.id = e.2 := by
      constructor
      · rintro ⟨j, y, x, hy, hgood, hid, hx, hxid⟩
        cases j with
        | zero =>
          cases hy
          rw [List.take_zero, List.append_nil] at hx
          exact .inl ⟨hgood, hid, x, hx, hxid⟩
        | succ j =>
          rw [List.take_succ_cons, ← List.singleton_append, ← List.append_assoc] at hx
          exact .inr ⟨j, y, x, hy, hgood, hid, hx, hxid⟩
      · rintro (⟨hgood, hid, x, hx, hxid⟩ | ⟨j, y, x, hy, hgood, hid, hx, hxid⟩)
        · refine ⟨0, inst, x, rfl, hgood, hid, ?_, hxid⟩
          rw [List.take_zero, List.append_nil]
          exact hx
        · refine ⟨j + 1, y, x, hy, hgood, hid, ?_, hxid⟩
          rw [List.take_succ_cons, ← List.singleton_append, ← List.append_assoc]
          exact hx
    rw [hsplit]
    unfold repeatedLiterals
    split
    next hbad =>
      have hbad' : inst.isMergeable = false := by
        rw [Instruction.isMergeable]
        revert hbad
        cases inst.id.isVoid <;> cases inst.opcode.isMergeable <;> decide
      have hnext : ∀ key, seen.get? key = (firstLiteral? (before ++ [inst]) key).map (·.id) := by
        intro key
        rw [hseen, firstLiteral?_concat]
        simp [hbad']
      rw [ih hnext]
      refine (or_iff_right fun hgood => ?_).symm
      rw [hbad'] at hgood
      cases hgood.1
    next hgood =>
      have hgood' : inst.isMergeable = true := by
        rw [Instruction.isMergeable]
        revert hgood
        cases inst.id.isVoid <;> cases inst.opcode.isMergeable <;> decide
      split
      next first hfirst =>
        rw [hseen, Option.map_eq_some_iff] at hfirst
        obtain ⟨x0, hx0, rfl⟩ := hfirst
        have hnext : ∀ key, seen.get? key = (firstLiteral? (before ++ [inst]) key).map (·.id) := by
          intro key
          rw [hseen, firstLiteral?_concat]
          by_cases hkey : inst.literalKey = key
          · rw [← hkey, hx0]
            rfl
          · simp [hkey]
        rw [List.mem_cons, ih hnext]
        refine or_congr_left ⟨?_, ?_⟩
        · rintro rfl
          exact ⟨hgood', rfl, x0, hx0, rfl⟩
        · rintro ⟨-, hid, x, hx, hxid⟩
          rw [hx0] at hx
          cases hx
          exact Prod.ext hid.symm hxid.symm
      next hnone =>
        rw [hseen, Option.map_eq_none_iff] at hnone
        have hnext : ∀ key, (seen.insert inst.literalKey inst.id).get? key =
            (firstLiteral? (before ++ [inst]) key).map (·.id) := by
          intro key
          rw [Table.get?_insert, hseen, firstLiteral?_concat]
          by_cases hkey : inst.literalKey = key
          · subst hkey
            simp [hnone, hgood']
          · simp [hkey]
        rw [ih hnext]
        refine (or_iff_right ?_).symm
        rintro ⟨-, -, x, hx, -⟩
        rw [hnone] at hx
        cases hx

theorem firstLiteral?_eq_some {l : List Instruction} {key : Opcode × Triple UInt32 × ResultId}
    {x : Instruction} (h : firstLiteral? l key = some x) :
    ∃ i, l[i]? = some x ∧ x.isMergeable = true ∧ x.literalKey = key ∧ firstLiteral? (l.take i) key =
      none := by
  obtain ⟨hx, before, after, rfl, hbefore⟩ := List.find?_eq_some_iff_append.mp h
  rw [Bool.and_eq_true, decide_eq_true_eq] at hx
  refine ⟨before.length, by simp, hx.1, hx.2, ?_⟩
  rw [List.take_left, firstLiteral?, List.find?_eq_none]
  intro y hy hp
  have hno := hbefore y hy
  rw [hp] at hno
  cases hno

section

variable {asm : Assembler}

theorem mem_repeatedLiterals : e ∈ repeatedLiterals {} asm.code.toList ↔
      ∃ j y x, asm.code.toList[j]? = some y ∧ y.isMergeable = true ∧ y.id = e.1 ∧
        firstLiteral? (asm.code.toList.take j) y.literalKey = some x ∧ x.id = e.2 := by
  have hempty : ∀ key, Table.get? {} key = (firstLiteral? [] key).map (·.id) := fun _ => rfl
  exact mem_repeatedLiterals_iff hempty

theorem isMergeable_iff {inst : Instruction} :
    inst.isMergeable = true ↔ inst.id.index ≠ 0 ∧ inst.opcode.isMergeable = true := by
  rw [Instruction.isMergeable, Bool.and_eq_true, Bool.not_eq_true', ResultId.isVoid_eq_false]

def RepeatsLiteral (asm : Assembler) (r : ResultId) : Prop :=
  ∃ (i j : Nat) (x y : Instruction), i < j ∧ asm.code[i]? = some x ∧ asm.code[j]? = some y ∧
    x.id.index ≠ 0 ∧ y.id = r ∧ r.index ≠ 0 ∧ y.opcode.isMergeable = true ∧ x.literalKey = y.literalKey

def mergedId (asm : Assembler) (r : ResultId) : ResultId :=
  redirection (repeatedLiterals {} asm.code.toList) r

theorem standsFor_of_mem_repeatedLiterals (he : e ∈ repeatedLiterals {} asm.code.toList) :
    ∃ (i j : Nat) (x y : Instruction), i < j ∧ asm.code[i]? = some x ∧ asm.code[j]? = some y ∧
      x.id = e.2 ∧ y.id = e.1 ∧ e.2.index ≠ 0 ∧ e.1.index ≠ 0 ∧ y.opcode.isMergeable = true ∧
        x.literalKey = y.literalKey := by
  obtain ⟨j, y, x, hy, hgood, hid, hfirst, hxid⟩ := mem_repeatedLiterals.mp he
  obtain ⟨i, hi, hxgood, hkey, -⟩ := firstLiteral?_eq_some hfirst
  have hij : i < j := by
    have hlt := (List.getElem?_eq_some_iff.mp hi).1
    rw [List.length_take] at hlt
    omega
  rw [List.getElem?_take_of_lt hij, Array.getElem?_toList] at hi
  rw [Array.getElem?_toList] at hy
  rw [isMergeable_iff] at hgood hxgood
  exact ⟨i, j, x, y, hij, hi, hy, hxid, hid, hxid ▸ hxgood.1, hid ▸ hgood.1, hgood.2, hkey⟩

theorem mem_repeatedLiterals_of_repeatsLiteral {r : ResultId} (hr : asm.RepeatsLiteral r) :
    r ∈ (repeatedLiterals {} asm.code.toList).map (·.1) := by
  obtain ⟨i, j, x, y, hij, hx, hy, hxz, rfl, hyz, hmerge, hkey⟩ := hr
  have hxgood : x.isMergeable = true := by
    refine isMergeable_iff.mpr ⟨hxz, ?_⟩
    rw [show x.opcode = y.opcode from congrArg (·.1) hkey]
    exact hmerge
  rw [← Array.getElem?_toList] at hx hy
  obtain ⟨w, hw⟩ : ∃ w, firstLiteral? (asm.code.toList.take j) y.literalKey = some w := by
    rw [← Option.isSome_iff_exists, firstLiteral?, List.find?_isSome]
    refine ⟨x, List.mem_of_getElem? (i := i) ?_, ?_⟩
    · rw [List.getElem?_take_of_lt hij]
      exact hx
    · rw [hxgood, hkey]
      simp
  exact List.mem_map.mpr ⟨(y.id, w.id), mem_repeatedLiterals.mpr
    ⟨j, y, w, hy, isMergeable_iff.mpr ⟨hyz, hmerge⟩, rfl, hw, rfl⟩, rfl⟩

namespace Distinct

variable (h : asm.Distinct)
include h

theorem allocated_of_mem (he : e ∈ repeatedLiterals {} asm.code.toList) :
    asm.isAllocated e.1 = true ∧ asm.isAllocated e.2 = true ∧ e.1 ≠ e.2 := by
  obtain ⟨i, j, x, y, hij, hx, hy, hxe, hye, hz2, hz1, hmerge, hkey⟩ := standsFor_of_mem_repeatedLiterals he
  have hknown : ∀ {k : Nat} {z : Instruction}, asm.code[k]? = some z → z.id.index ≠ 0 →
      asm.isAllocated z.id = true := by
    intro k z hz hne
    refine (h.allocated z (mem_code hz)).resolve_left ?_
    exact fun hv => hne (ResultId.isVoid_iff.mp hv)
  refine ⟨?_, ?_, ?_⟩
  · rw [← hye]
    exact hknown hy (hye ▸ hz1)
  · rw [← hxe]
    exact hknown hx (hxe ▸ hz2)
  · -- Equal ids would be defined at one place.
    intro heq
    have := h.single i j e.2 ⟨hz2, x, hx, hxe⟩ ⟨hz2, y, hy, hye.trans heq⟩
    omega

theorem standsFor_mergedId (r : ResultId) : asm.StandsFor (asm.mergedId r) r := by
  have hfrom : ∀ (pairs : List (ResultId × ResultId)) (s : ResultId),
      (∀ e ∈ pairs, asm.StandsFor e.2 e.1) → asm.StandsFor s r → asm.StandsFor (redirection pairs s) r := by
    intro pairs
    induction pairs with
    | nil => exact fun s _ hs => hs
    | cons e rest ih =>
      intro s hpairs hs
      obtain ⟨he, hrest⟩ := List.forall_mem_cons.mp hpairs
      refine ih _ hrest ?_
      dsimp only
      split
      next heq => exact h.standsFor_trans (heq ▸ he) hs
      next => exact hs
  exact hfrom _ r (fun e he => .inr (standsFor_of_mem_repeatedLiterals he)) (.inl rfl)

theorem redirected_mergeLiterals : Redirected asm asm.mergeLiterals.2 asm.mergedId :=
  redirected_redirectLiterals h.exact (fun _ => h.allocated_of_mem) 0

theorem not_listed_of_first (he : e ∈ repeatedLiterals {} asm.code.toList) :
    e.2 ∉ (repeatedLiterals {} asm.code.toList).map (·.1) := by
  intro hmem
  obtain ⟨e', he', hid'⟩ := List.mem_map.mp hmem
  obtain ⟨j, y, x, hy, hgood, hid, hfirst, hxid⟩ := mem_repeatedLiterals.mp he
  obtain ⟨k, z, w, hz, hzgood, hzid, hzfirst, -⟩ := mem_repeatedLiterals.mp he'
  obtain ⟨i, hi, hxgood, hkey, hnone⟩ := firstLiteral?_eq_some hfirst
  have hij : i < j := by
    have hlt := (List.getElem?_eq_some_iff.mp hi).1
    rw [List.length_take] at hlt
    omega
  rw [List.getElem?_take_of_lt hij] at hi
  -- Both are the one definition of the id, which is listed and is not.
  have hzx : z.id = x.id := hzid.trans (hid'.trans hxid.symm)
  have hne : x.id.index ≠ 0 := (isMergeable_iff.mp hxgood).1
  rw [Array.getElem?_toList] at hi hz
  obtain rfl : i = k := h.single i k x.id ⟨hne, x, hi, rfl⟩ ⟨hne, z, hz, hzx⟩
  rw [hi, Option.some.injEq] at hz
  subst hz
  rw [List.take_take, Nat.min_eq_left (Nat.le_of_lt hij), ← hkey] at hnone
  rw [hnone] at hzfirst
  cases hzfirst

theorem mergedId_not_listed (r : ResultId) :
    asm.mergedId r ∉ (repeatedLiterals {} asm.code.toList).map (·.1) := by
  have hfrom : ∀ (keys : List ResultId) (pairs : List (ResultId × ResultId)) (r : ResultId),
      (∀ e ∈ pairs, e.2 ∉ keys) → (r ∈ keys → r ∈ pairs.map (·.1)) → redirection pairs r ∉ keys := by
    intro keys pairs
    induction pairs with
    | nil => exact fun r _ hr hmem => absurd (hr hmem) List.not_mem_nil
    | cons e rest ih =>
      intro r hpairs hr
      obtain ⟨he, hrest⟩ := List.forall_mem_cons.mp hpairs
      refine ih _ hrest fun hmem => ?_
      dsimp only at hmem ⊢
      split at hmem
      · exact absurd hmem he
      next hne =>
        rw [if_neg hne]
        exact (List.mem_cons.mp (hr hmem)).resolve_left hne
  exact hfrom _ _ r (fun _ he => h.not_listed_of_first he) id

theorem not_repeatsLiteral_mergedId (r : ResultId) : ¬ asm.RepeatsLiteral (asm.mergedId r) :=
  fun hr => h.mergedId_not_listed r (mem_repeatedLiterals_of_repeatsLiteral hr)

end Distinct

end

end Assembler

end ShaderIR
