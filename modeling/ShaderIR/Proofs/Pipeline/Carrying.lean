import ShaderIR.Proofs.Listing.Types
import ShaderIR.Proofs.Pipeline.Validity
import ShaderIR.Proofs.Spirv.Lowering.Descriptions
import ShaderIR.Spirv.Lowering.Function

/-!
# What a pass carries over

A slot that is left holds the new name of what it held, or of an equal literal.  No type is lost
that is still referred to, so **every question that lowering asks about the types of an instruction
has the answer it had**.
-/

namespace ShaderIR

open Assembler Validation

variable {x : Instruction} {r : ResultId} {i : Nat} {id : ResultId} {op : Opcode}

theorem Opcode.not_isType_of_isMergeable (h : op.isMergeable = true) :
    op.isType = false ∧ op.isVar = false := by
  revert h
  cases op <;> decide

theorem Opcode.needsId_of_isMergeable (h : op.isMergeable = true) : needsId op = true := by
  revert h
  cases op <;> decide

theorem Opcode.needsId_of_isPure (h : op.isPure = true) : needsId op = true := by
  revert h
  cases op <;> decide

namespace Reduction

variable {a b : Assembler} (R : Reduction a b)

/-! ## Ids that are left -/

/-- The id is left, or it is void. -/
def Lives (id : ResultId) : Prop := (R.rename id).index = 0 → id.index = 0

/-- The id stands in a slot that is left, or it is void. -/
def Holds (r : ResultId) : Prop :=
  r = .void ∨ ∃ i x, a.code[i]? = some x ∧ R.keep i = true ∧ r ∈ x.slots

theorem lives_void : R.Lives .void := fun _ => rfl

variable {R} in
theorem Lives.rename_eq_iff {x y : ResultId} (hx : R.Lives x) (hy : R.Lives y) :
    R.rename x = R.rename y ↔ x = y := by
  refine ⟨fun heq => ?_, fun heq => congrArg _ heq⟩
  by_cases hz : (R.rename x).index = 0
  · have hzy : (R.rename y).index = 0 := heq ▸ hz
    exact ResultId.ext_index ((hx hz).trans (hy hzy).symm)
  · exact R.rename_inj x y heq hz

theorem lives_id (hx : a.code[i]? = some x) (hi : R.keep i = true) :
    R.Lives x.id := (R.index_rename_id hx hi).mp

theorem not_lives_of_dropped (hx : a.code[i]? = some x)
    (hi : R.keep i = false) (hz : x.id.index ≠ 0) : ¬ R.Lives x.id := by
  intro hlives
  have hkeep := R.keep_definition hx fun h0 => hz (hlives h0)
  rw [hi] at hkeep
  cases hkeep

/-! ## Slots that are left -/

section

variable {i : Nat} {x : Instruction} (hx : a.code[i]? = some x) (hi : R.keep i = true)
include hx hi

theorem holds_slot (hr : r ∈ x.slots) : R.Holds r := .inr ⟨i, x, hx, hi, hr⟩

theorem holds_fst : R.Holds x.refs.fst := R.holds_slot hx hi (Instruction.mem_slots.mpr (.inl rfl))

theorem holds_snd : R.Holds x.refs.snd :=
  R.holds_slot hx hi (Instruction.mem_slots.mpr (.inr (.inl rfl)))

theorem holds_thd : R.Holds x.refs.thd :=
  R.holds_slot hx hi (Instruction.mem_slots.mpr (.inr (.inr (.inl rfl))))

theorem holds_resultType : R.Holds x.resultType :=
  R.holds_slot hx hi (Instruction.mem_slots.mpr (.inr (.inr (.inr rfl))))

end

section

variable {r : ResultId} (hr : R.Holds r)
include hr

theorem exists_standsFor : ∃ s, R.redirect r = R.rename s ∧ R.Lives s ∧ a.StandsFor s r := by
  rcases hr with rfl | ⟨i, x, hx, hi, hmem⟩
  · exact ⟨.void, R.redirect_void.trans R.rename_void.symm, R.lives_void, .inl rfl⟩
  · by_cases hz : r.index = 0
    · have hvoid : r = .void := ResultId.ext_index hz
      exact ⟨r, by rw [hvoid, R.redirect_void, R.rename_void], fun _ => hz, .inl rfl⟩
    · obtain ⟨s, hs, hne, hstands⟩ := R.redirect_slot hx hi r hmem hz
      exact ⟨s, hs, fun h0 => absurd h0 hne, hstands⟩

theorem opcodeOf_holds (ha : a.Coherent) : b.opcodeOf (R.redirect r) = a.opcodeOf r := by
  rcases hr with rfl | ⟨i, x, hx, hi, hmem⟩
  · rw [R.redirect_void]
    rfl
  · exact R.opcodeOf_redirect hx hi ha hmem

theorem isVoid_holds : (R.redirect r).isVoid = r.isVoid := by
  rcases hr with rfl | ⟨i, x, hx, hi, hmem⟩
  · rw [R.redirect_void]
  · rw [Bool.eq_iff_iff, ResultId.isVoid_iff, ResultId.isVoid_iff]
    exact R.index_redirect hx hi hmem

theorem redirect_of_plain (ha : a.Coherent) (hplain : (a.opcodeOf r).isMergeable = false) :
    R.redirect r = R.rename r ∧ R.Lives r := by
  obtain ⟨s, hs, hlives, rfl | ⟨i, j, x, y, -, -, hy, -, rfl, -, hz, hmerge, -⟩⟩ :=
    R.exists_standsFor hr
  · exact ⟨hs, hlives⟩
  · rw [ha.opcode j y hy hz, hmerge] at hplain
    cases hplain

end

theorem redirect_eq_rename_iff (ha : a.Coherent)
    (hx : a.code[i]? = some x) (hi : R.keep i = true) (hplain : x.opcode.isMergeable = false)
    (hr : R.Holds r) : R.redirect r = R.rename x.id ↔ r = x.id := by
  have hlives := R.lives_id hx hi
  constructor
  · intro heq
    obtain ⟨s, hs, hslives, hstands⟩ := R.exists_standsFor hr
    have hsx : s = x.id := (hslives.rename_eq_iff hlives).mp (hs.symm.trans heq)
    rcases hstands with rfl | ⟨j, _, y, z, -, hy, -, hys, -, hz, -, hmerge, hkey⟩
    · exact hsx
    · -- A literal that stands for another one is not `x`.
      have hop : y.opcode = z.opcode := congrArg (·.1) hkey
      have hjx : j = i := ha.single j i s ⟨hz, y, hy, hys⟩ ⟨hz, x, hx, hsx.symm⟩
      subst hjx
      rw [hx, Option.some.injEq] at hy
      rw [← hy] at hop
      rw [hop, hmerge] at hplain
      cases hplain
  · rintro rfl
    by_cases hz : x.id.index = 0
    · rw [ResultId.eq_void hz, R.redirect_void, R.rename_void]
    · exact (R.redirect_of_plain hr ha (by rw [ha.opcode i x hx hz]; exact hplain)).1

theorem not_holds_of_dropped (ha : a.Coherent) (hx : a.code[i]? = some x) (hi : R.keep i = false)
    (hplain : x.opcode.isMergeable = false) (hz : x.id.index ≠ 0) : ¬ R.Holds x.id := fun hr =>
  R.not_lives_of_dropped hx hi hz (R.redirect_of_plain hr ha (by rw [ha.opcode i x hx hz]; exact hplain)).2

end Reduction

/-! ## Types -/

theorem Assembler.Valid.typeIds {asm : Assembler} (h : asm.Valid) : ∀ inst ∈ asm.code.toList,
    inst.opcode.isType = true → inst.id.index ≠ 0 := by
  intro inst hinst hop
  obtain ⟨i, hi⟩ := List.mem_iff_getElem?.mp hinst
  rw [Array.getElem?_toList] at hi
  refine (h.validAt hi).definesId.mp ?_
  unfold needsId
  rw [hop]
  rfl

/-- A valid stream whose registry agrees with it. -/
structure Assembler.Sound (asm : Assembler) : Prop extends asm.Valid where
  listed : asm.TypesListed

namespace Assembler.Sound

variable {asm : Assembler} (h : asm.Sound)
include h

theorem index_ne_zero (hx : asm.code[i]? = some x)
    (hop : needsId x.opcode = true) : x.id.index ≠ 0 := (h.validAt hx).definesId.mp hop

theorem isType_of_handle? {k : TypeHandle} (hid : asm.types.handle? id = some k) :
    id.index ≠ 0 ∧ (asm.opcodeOf id).isType = true := by
  obtain ⟨x, hx, hop, rfl⟩ := h.listed.declared hid
  have hz := h.toValid.typeIds x hx hop
  obtain ⟨i, hi⟩ := List.mem_iff_getElem?.mp hx
  rw [Array.getElem?_toList] at hi
  exact ⟨hz, by rw [h.coherent.opcode i x hi hz]; exact hop⟩

theorem ofId?_of_isMergeable (hid : (asm.opcodeOf id).isMergeable = true) :
    asm.types.ofId? id = none := by
  unfold TypeRegistry.ofId?
  cases hk : asm.types.handle? id with
  | none => rfl
  | some k =>
    have htype := (h.isType_of_handle? hk).2
    rw [(Opcode.not_isType_of_isMergeable hid).1] at htype
    cases htype

theorem ofId?_of_index_eq_zero (hid : id.index = 0) : asm.types.ofId? id = none := by
  unfold TypeRegistry.ofId?
  cases hk : asm.types.handle? id with
  | none => rfl
  | some k => exact absurd hid (h.isType_of_handle? hk).1

end Assembler.Sound

namespace Reduction

variable {a b : Assembler} (R : Reduction a b)

/-- What else becomes of a sound stream: its registry and its names are renamed. -/
structure Carries : Prop where
  source : a.Sound
  target : b.Coherent
  types : TypeRegistry.Renamed R.rename a.types b.types
  names : ∀ e ∈ b.names.entries, ∃ id, (id, e.2) ∈ a.names.entries ∧ R.rename id = e.1 ∧ R.Lives id

variable (hR : R.Carries)

section

include hR

theorem ofId?_rename (hid : R.Lives id) : b.types.ofId? (R.rename id) = a.types.ofId? id := by
  by_cases hz : (R.rename id).index = 0
  · rw [hR.source.ofId?_of_index_eq_zero (hid hz)]
    cases hd : b.types.ofId? (R.rename id) with
    | none => rfl
    | some d =>
      obtain ⟨_, -, hne, -⟩ := hR.types.exists_ofId? hd
      exact absurd hz hne
  · exact hR.types.ofId? hz

theorem ofId?_redirect (hr : R.Holds r) : b.types.ofId? (R.redirect r) = a.types.ofId? r := by
  obtain ⟨s, hs, hlives, hstands⟩ := R.exists_standsFor hr
  rw [hs, R.ofId?_rename hR hlives]
  have ha := hR.source
  have hop := opcodeOf_of_standsFor ha.coherent hstands
  rcases hstands with rfl | ⟨i, j, x, y, -, -, hy, -, rfl, -, hz, hmerge, -⟩
  · rfl
  · have hliteral : (a.opcodeOf y.id).isMergeable = true := by
      rw [ha.coherent.opcode j y hy hz]
      exact hmerge
    rw [ha.ofId?_of_isMergeable hliteral, ha.ofId?_of_isMergeable (hop ▸ hliteral)]

theorem definingInstruction?_void (hz : r.index = 0) :
    a.definingInstruction? r = none ∧ b.definingInstruction? (R.redirect r) = none := by
  have hnone : ∀ {asm : Assembler}, asm.Coherent → asm.definingInstruction? .void = none := by
    intro asm hasm
    unfold definingInstruction?
    cases hd : asm.definition? .void with
    | none => rfl
    | some k => exact absurd rfl (hasm.sound _ k hd).1
  rw [ResultId.eq_void hz, R.redirect_void]
  exact ⟨hnone hR.source.coherent, hnone hR.target⟩

/-- **What defines the id in a slot** is what defined it, or an equal literal. -/
theorem exists_definingInstruction? (hr : R.Holds r) (hz : r.index ≠ 0) :
    ∃ d d' k, a.definingInstruction? r = some d ∧ a.code[k]? = some d' ∧ R.keep k = true ∧
      b.definingInstruction? (R.redirect r) = some (d'.relabel R.rename R.redirect) ∧
      (d' = d ∨ d.opcode.isMergeable = true ∧ d'.literalKey = d.literalKey) := by
  obtain ⟨i, x, hx, hi, hmem⟩ := hr.resolve_left fun h0 => hz (h0 ▸ rfl)
  obtain ⟨k, hk, -⟩ := (hR.source.validAt hx).defined r hmem hz
  obtain ⟨k', d, d', -, hd, hd', hkeep, hdef, hsame⟩ :=
    R.exists_definition?_redirect hx hi hR.source.coherent hR.target hmem hk
  refine ⟨d, d', k', ?_, hd', hkeep, ?_, hsame⟩
  · rw [definingInstruction?, hk, Option.bind_some, hd]
  · rw [definingInstruction?, hdef, Option.bind_some, R.code_of_keep hd' hkeep]

theorem typeOf_redirect (hr : R.Holds r) :
    R.Holds (Spirv.typeOf a r) ∧ Spirv.typeOf b (R.redirect r) = R.redirect (Spirv.typeOf a r) := by
  unfold Spirv.typeOf
  by_cases hz : r.index = 0
  · obtain ⟨hd, hd'⟩ := R.definingInstruction?_void hR hz
    rw [hd, hd']
    exact ⟨.inl rfl, R.redirect_void.symm⟩
  · obtain ⟨d, d', k, hd, hcode, hkeep, hd', hsame⟩ := R.exists_definingInstruction? hR hr hz
    rw [hd, hd']
    dsimp only
    rw [Instruction.opcode_relabel]
    rcases hsame with rfl | ⟨hmerge, hkey⟩
    · split
      · exact ⟨R.holds_fst hcode hkeep, rfl⟩
      · exact ⟨R.holds_resultType hcode hkeep, rfl⟩
    · have hop : d'.opcode = d.opcode := congrArg (·.1) hkey
      have htype : d'.resultType = d.resultType := congrArg (·.2.2) hkey
      have hvar := (Opcode.not_isType_of_isMergeable hmerge).2
      rw [hop, hvar, ← htype]
      exact ⟨R.holds_resultType hcode hkeep, rfl⟩

theorem described (hr : R.Holds r) : Spirv.Described a b r (R.redirect r) :=
  ⟨R.ofId?_redirect hR hr, hR.types.desc⟩

/-- **The layout of a struct in a slot** puts its members where they were. -/
theorem memberExtents_redirect (hr : R.Holds r) : (b.types.layoutOf? (R.redirect r)).map
        (fun layout => layout.members.map fun m => Spirv.memberExtent b.types m.2) =
          (a.types.layoutOf? r).map
        fun layout => layout.members.map fun m => Spirv.memberExtent a.types m.2 := by
  have hhandle : b.types.layoutHandle? (R.redirect r) = a.types.layoutHandle? r := by
    unfold TypeRegistry.layoutHandle?
    rw [R.ofId?_redirect hR hr]
  unfold TypeRegistry.layoutOf?
  rw [hhandle]
  cases a.types.layoutHandle? r with
  | none => rfl
  | some l =>
    have hlayout := hR.types.layout l
    rw [Option.bind_some, Option.bind_some]
    cases hl : a.types.layout? l with
    | none =>
      rw [hl] at hlayout
      rw [Option.map_eq_none_iff.mp hlayout]
      rfl
    | some layout =>
      rw [hl] at hlayout
      obtain ⟨layout', hl', hshape⟩ := Option.map_eq_some_iff.mp hlayout
      have hmembers : layout'.members = layout.members.map fun m => (m.1, R.rename m.2) :=
        congrArg (·.2) hshape
      rw [hl', Option.map_some, Option.map_some, hmembers, List.map_map]
      refine congrArg some (List.map_congr_left fun m hm => ?_)
      have hz := hR.types.member hl hm
      show Spirv.memberExtent b.types (R.rename m.2) = Spirv.memberExtent a.types m.2
      unfold Spirv.memberExtent
      rw [hR.types.bitAlign? hz, hR.types.bitWidth? hz]

end

/-! ## What follows an instruction -/

theorem drop_of_keep (hx : a.code[i]? = some x) (hi : R.keep i = true) :
    b.code.toList.drop (R.place i) =
      x.relabel R.rename R.redirect :: b.code.toList.drop (R.place (i + 1)) := by
  have hcode := R.code_of_keep hx hi
  rw [← Array.getElem?_toList, List.getElem?_eq_some_iff] at hcode
  obtain ⟨hlt, heq⟩ := hcode
  rw [List.drop_eq_getElem_cons hlt, heq, R.place_succ, if_pos hi]

theorem drop_size : b.code.toList.drop (R.place a.code.size) = [] := by
  rw [← R.size_code, ← Array.length_toList, List.drop_length]

theorem keep_of_stage (hx : a.code[i]? = some x)
    (hop : x.opcode = .stageEnd ∨ x.opcode = .inputVar ∨ x.opcode = .outputVar) :
    R.keep i = true := by
  cases hi : R.keep i with
  | true => rfl
  | false =>
    have hdropped := R.dropped hx hi
    rcases hop with hop | hop | hop <;> rw [hop] at hdropped <;> revert hdropped <;> decide

theorem stageInterface_relabel (hi : R.keep i = true) :
    Spirv.stageInterface b (R.place i) = (Spirv.stageInterface a i).map R.rename := by
  -- By induction on what is left to read, with any position to start from.
  have hrest : ∀ m n, a.code.size - n = m →
      Spirv.interfaceFrom b (R.place n) = (Spirv.interfaceFrom a n).map R.rename := by
    unfold Spirv.interfaceFrom
    intro m
    induction m with
    | zero =>
      -- Behind the end there is nothing.
      intro n hn
      have hplace := R.place_mono (Nat.le_of_sub_eq_zero hn)
      rw [← R.size_code] at hplace
      rw [List.drop_eq_nil_of_le (by rw [Array.length_toList]; omega),
        List.drop_eq_nil_of_le (by rw [Array.length_toList]; omega)]
      rfl
    | succ m ih =>
      intro n hn
      have hlt : n < a.code.size := by omega
      have hx := Array.getElem?_eq_getElem hlt
      have hdrop : a.code.toList.drop n = a.code[n] :: a.code.toList.drop (n + 1) := by
        rw [List.drop_eq_getElem_cons (by rw [Array.length_toList]; exact hlt), Array.getElem_toList]
      have ih := ih (n + 1) (by omega)
      rw [hdrop]
      generalize a.code[n] = x at hx
      cases hkeep : R.keep n with
      | true =>
        rw [R.drop_of_keep hx hkeep, List.takeWhile_cons, List.takeWhile_cons, Instruction.opcode_relabel]
        by_cases hend : (x.opcode != .stageEnd) = true
        · rw [if_pos hend, if_pos hend, List.filter_cons, List.filter_cons, Spirv.isInterfaceVar,
            Spirv.isInterfaceVar, Instruction.opcode_relabel]
          split
          · rw [List.map_cons, List.map_cons, List.map_cons, ih]
            rfl
          · exact ih
        · rw [if_neg hend, if_neg hend]
          rfl
      | false =>
        have hkept := mt (R.keep_of_stage hx) (by rw [hkeep]; exact Bool.false_ne_true)
        rw [not_or, not_or] at hkept
        obtain ⟨hend, hin, hout⟩ := hkept
        have hskip : R.place (n + 1) = R.place n := by rw [R.place_succ, hkeep]; rfl
        rw [List.takeWhile_cons, if_pos (bne_iff_ne.mpr hend), List.filter_cons, if_neg, ← ih, hskip]
        rw [Spirv.isInterfaceVar, Bool.or_eq_true, beq_iff_eq, beq_iff_eq, not_or]
        exact ⟨hin, hout⟩
  have h := hrest _ (i + 1) rfl
  rw [R.place_succ, if_pos hi] at h
  exact h

theorem lives_of_mem_stageInterface (hid : id ∈ Spirv.stageInterface a i) : R.Lives id := by
  obtain ⟨x, hx, rfl⟩ := List.mem_map.mp hid
  obtain ⟨hmem, hop⟩ := List.mem_filter.mp hx
  obtain ⟨j, hj⟩ := List.mem_iff_getElem?.mp
    (List.drop_sublist _ _ |>.mem (List.takeWhile_sublist _ |>.mem hmem))
  rw [Array.getElem?_toList] at hj
  rw [Spirv.isInterfaceVar, Bool.or_eq_true, beq_iff_eq, beq_iff_eq] at hop
  exact R.lives_id hj (R.keep_of_stage hj (.inr hop))

end Reduction

end ShaderIR
