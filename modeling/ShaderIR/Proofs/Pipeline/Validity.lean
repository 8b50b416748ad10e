import ShaderIR.Pipeline
import ShaderIR.Proofs.Pipeline.Passes

/-!
# Passes keep streams valid

`ValidAt` says what it means that the full level finds nothing wrong with an instruction.  A
reduction keeps it, so a stream without findings has none after any pipeline of passes.
-/

namespace ShaderIR

open Assembler Validation
open Operation (runAll)

variable {asm : Assembler} {inst : Instruction} {i : Nat}

namespace Validation

/-! ## Finding nothing -/

@[simp] theorem failIf_eq_nil {bad : Bool} {message : String} :
    failIf bad message = [] ↔ bad = false := by
  cases bad <;> simp [failIf]

@[simp] theorem expectType_eq_nil {id : ResultId} {what : String} :
    expectType asm id what = [] ↔ (asm.opcodeOf id).isType = true := by
  rw [expectType, failIf_eq_nil, Bool.not_eq_false']

@[simp] theorem expectOpcode_eq_nil {id : ResultId} {want : Opcode}
    {what : String} : expectOpcode asm id want what = [] ↔ asm.opcodeOf id = want := by
  rw [expectOpcode, failIf_eq_nil, bne_eq_false_iff_eq]

theorem arityFindings_eq_nil :
    arityFindings asm inst = [] ↔ ∀ callee, asm.definingInstruction? inst.refs.fst = some callee →
      callee.opcode = .function → callee.operands.fst = inst.operands.fst := by
  unfold arityFindings
  cases hd : asm.definingInstruction? inst.refs.fst with
  | none => simp
  | some d =>
    by_cases hfn : d.opcode = .function
    · simp [Option.filter_some, hfn]
    · simp [Option.filter_some, hfn]

/-- The full level finds nothing wrong with `inst`, which stands at position `i`. -/
structure ValidAt (asm : Assembler) (i : Nat) (inst : Instruction) : Prop where
  typed : inst.opcode.isValue = true → inst.opcode ≠ .stringLit → inst.resultType.index ≠ 0
  notSelf : inst.id.index ≠ 0 → inst.id ∉ inst.slots
  defined : ∀ r ∈ inst.slots, r.index ≠ 0 → ∃ k, asm.definition? r = some k ∧
    (i < k → inst.opcode.allowsForward = true ∨ asm.opcodeOf r = .label ∨ asm.opcodeOf r = .function)
  definesId : needsId inst.opcode = true ↔ inst.id.index ≠ 0
  trailers : trailerFindings asm i inst = []
  resultType : inst.opcode.isValue = true → inst.resultType.index ≠ 0 →
    (asm.opcodeOf inst.resultType).isType = true
  operands : operandFindings asm inst = []

theorem referenceFindings_eq_nil {r : ResultId} :
    referenceFindings asm i inst r = [] ↔ ∃ k, asm.definition? r = some k ∧
      (i < k → inst.opcode.allowsForward = true ∨ asm.opcodeOf r = .label ∨ asm.opcodeOf r =
        .function) := by
  rw [referenceFindings]
  cases asm.definition? r with
  | none => simp
  | some k =>
    simp only [failIf_eq_nil, refersAhead, Bool.and_eq_false_imp, decide_eq_true_eq,
      Bool.not_eq_false', Bool.or_eq_true, beq_iff_eq, or_assoc, Option.some.injEq, exists_eq_left']

theorem basicFindings_eq_nil : basicFindings asm i inst = [] ↔
      (inst.opcode.isValue = true → inst.opcode ≠ .stringLit → inst.resultType.index ≠ 0) ∧
      (inst.id.index ≠ 0 → inst.id ∉ inst.slots) ∧
      ∀ r ∈ inst.slots, r.index ≠ 0 → ∃ k, asm.definition? r = some k ∧
        (i < k → inst.opcode.allowsForward = true ∨ asm.opcodeOf r = .label ∨ asm.opcodeOf r =
          .function) := by
  rw [basicFindings, List.append_eq_nil_iff, List.append_eq_nil_iff, failIf_eq_nil, failIf_eq_nil,
    List.flatMap_eq_nil_iff, and_assoc]
  refine and_congr ?_ (and_congr ?_ ?_)
  · rw [Bool.and_eq_false_imp, Bool.and_eq_true, bne_iff_ne, and_imp, ResultId.isVoid_eq_false]
  · rw [Bool.and_eq_false_imp, Bool.not_eq_true', ResultId.isVoid_eq_false, ← Bool.not_eq_true,
      List.contains_iff_mem]
    refine imp_congr_right fun hz => not_congr ?_
    rw [Instruction.mem_referenced]
    exact and_iff_left hz
  · simp only [Instruction.mem_referenced, referenceFindings_eq_nil, and_imp]

theorem shapeFindings_eq_nil : shapeFindings asm i inst = [] ↔
      (needsId inst.opcode = true ↔ inst.id.index ≠ 0) ∧ trailerFindings asm i inst = [] ∧
      (inst.opcode.isValue = true → inst.resultType.index ≠ 0 →
        (asm.opcodeOf inst.resultType).isType = true) ∧ operandFindings asm inst = [] := by
  have hid : (failIf (needsId inst.opcode && inst.id.isVoid) "missing result id" = [] ∧
      failIf (!needsId inst.opcode && !inst.id.isVoid) "must not define an id" = []) ↔
        (needsId inst.opcode = true ↔ inst.id.index ≠ 0) := by
    rw [failIf_eq_nil, failIf_eq_nil, ← ResultId.isVoid_eq_false]
    cases needsId inst.opcode <;> cases inst.id.isVoid <;> decide
  have htype : (if inst.opcode.isValue && !inst.resultType.isVoid then
      expectType asm inst.resultType "result type" else []) = [] ↔
        (inst.opcode.isValue = true → inst.resultType.index ≠ 0 →
          (asm.opcodeOf inst.resultType).isType = true) := by
    split
    next hboth =>
      rw [Bool.and_eq_true, Bool.not_eq_true', ResultId.isVoid_eq_false] at hboth
      rw [expectType_eq_nil]
      exact ⟨fun h _ _ => h, fun h => h hboth.1 hboth.2⟩
    next hnot =>
      refine ⟨fun _ hvalue hz => absurd ?_ hnot, fun _ => rfl⟩
      rw [Bool.and_eq_true, Bool.not_eq_true', ResultId.isVoid_eq_false]
      exact ⟨hvalue, hz⟩
  simp only [shapeFindings, List.append_eq_nil_iff, hid, htype, and_assoc]

/-- **What finding nothing means.** -/
theorem findings_eq_nil_iff : findings .full asm i inst = [] ↔ ValidAt asm i inst := by
  rw [findings, List.append_eq_nil_iff, basicFindings_eq_nil, shapeFindings_eq_nil]
  constructor
  · rintro ⟨⟨h1, h2, h3⟩, h4, h5, h6, h7⟩
    exact ⟨h1, h2, h3, h4, h5, h6, h7⟩
  · rintro ⟨h1, h2, h3, h4, h5, h6, h7⟩
    exact ⟨⟨h1, h2, h3⟩, h4, h5, h6, h7⟩

theorem validate_eq_nil {level : ValidationLevel} :
    asm.validate level = [] ↔ ∀ (i : Nat) inst,
      asm.code[i]? = some inst → findings level asm i inst = [] := by
  rw [validate, List.flatMap_eq_nil_iff]
  constructor
  · intro h i inst hi
    have hmem : (inst, i) ∈ asm.code.toList.zipIdx := by
      rw [List.mem_zipIdx_iff_getElem?, Array.getElem?_toList]
      exact hi
    exact List.map_eq_nil_iff.mp (h (inst, i) hmem)
  · rintro h ⟨inst, i⟩ hmem
    rw [List.mem_zipIdx_iff_getElem?, Array.getElem?_toList] at hmem
    exact List.map_eq_nil_iff.mpr (h i inst hmem)

theorem validate_eq_nil_iff : asm.validate .full = [] ↔
      ∀ (i : Nat) inst, asm.code[i]? = some inst → ValidAt asm i inst := by
  simp only [validate_eq_nil, findings_eq_nil_iff]

end Validation

/-! ## Reductions keep validity -/

theorem Opcode.refersBack_of_isMergeable {op : Opcode} (h : op.isMergeable = true) :
    op.allowsForward = false ∧ op ≠ .label ∧ op ≠ .function := by
  revert h
  cases op <;> decide

namespace Reduction

variable {a b : Assembler} (R : Reduction a b) {i : Nat} {x : Instruction}
  (hx : a.code[i]? = some x) (hi : R.keep i = true)
include hx hi

theorem trailerFindings_relabel (h : trailerFindings a i x = []) :
    trailerFindings b (R.place i) (x.relabel R.rename R.redirect) = [] := by
  unfold trailerFindings at h ⊢
  rw [Instruction.opcode_relabel]
  cases ht : x.opcode.trailer? with
  | none => rfl
  | some t =>
    rw [ht] at h
    simp only [failIf_eq_nil, bne_eq_false_iff_eq] at h ⊢
    show (b.trailersAfter (R.place i) t x.operands.fst.toNat).length = x.operands.fst.toNat
    rw [R.trailersAfter_relabel hx hi ht h, List.length_map, h]

theorem arityFindings_relabel (ha : a.Coherent) (hb : b.Coherent)
    (hdefined : x.refs.fst.index ≠ 0 → ∃ k, a.definition? x.refs.fst = some k)
    (h : arityFindings a x = []) :
    arityFindings b (x.relabel R.rename R.redirect) = [] := by
  have hslot : x.refs.fst ∈ x.slots := Instruction.mem_slots.mpr (.inl rfl)
  rw [arityFindings_eq_nil] at h ⊢
  intro y hy hfn
  obtain ⟨j, hj, hcode⟩ := Option.bind_eq_some_iff.mp hy
  -- Void is not defined by anything.
  have hz : x.refs.fst.index ≠ 0 := fun hz =>
    (hb.sound _ _ hj).1 ((R.index_redirect hx hi hslot).mpr hz)
  obtain ⟨k, hk⟩ := hdefined hz
  obtain ⟨k', d, d', -, hd, hd', hkeep, hdef, hsame⟩ :=
    R.exists_definition?_redirect hx hi ha hb hslot hk
  have hkey : d'.literalKey = d.literalKey := by
    rcases hsame with rfl | ⟨-, hkey⟩
    · rfl
    · exact hkey
  have hop : d'.opcode = d.opcode := congrArg (·.1) hkey
  have hoperands : d'.operands = d.operands := congrArg (·.2.1) hkey
  have hjk : j = R.place k' := Option.some.inj (hj.symm.trans hdef)
  rw [hjk, R.code_of_keep hd' hkeep, Option.some.injEq] at hcode
  subst hcode
  have hold : a.definingInstruction? x.refs.fst = some d := by
    rw [definingInstruction?, hk, Option.bind_some, hd]
  show d'.operands.fst = x.operands.fst
  rw [hoperands]
  exact h d hold (hop ▸ hfn)

theorem operandFindings_relabel (ha : a.Coherent) (hb : b.Coherent)
    (hdefined : ∀ r ∈ x.slots, r.index ≠ 0 → ∃ k, a.definition? r = some k)
    (h : operandFindings a x = []) :
    operandFindings b (x.relabel R.rename R.redirect) = [] := by
  have hfst : x.refs.fst ∈ x.slots := Instruction.mem_slots.mpr (.inl rfl)
  have hop1 := R.opcodeOf_redirect hx hi ha hfst
  have hop2 := R.opcodeOf_redirect hx hi ha (Instruction.mem_slots.mpr (.inr (.inl rfl)))
  have hop3 := R.opcodeOf_redirect hx hi ha (Instruction.mem_slots.mpr (.inr (.inr (.inl rfl))))
  have hvoid : (R.redirect x.refs.fst).isVoid = x.refs.fst.isVoid := by
    rw [Bool.eq_iff_iff, ResultId.isVoid_iff, ResultId.isVoid_iff]
    exact R.index_redirect hx hi hfst
  have harity := R.arityFindings_relabel hx hi ha hb (hdefined _ hfst)
  have hwidth : ∀ min max, expectWidth (x.relabel R.rename R.redirect) min max
      = expectWidth x min max := fun _ _ => rfl
  unfold operandFindings at h ⊢
  simp only [Instruction.opcode_relabel, Instruction.refs_relabel, Instruction.operands_relabel,
    Triple.map, hop1, hvoid, hwidth]
  -- Every rule asks for the opcodes behind the slots, for void and for the operands only.
  split at h <;> simp_all

/-- The first of equal literals is defined in front of the others, so it cannot have referred to one
    of them. -/
theorem notSelf_relabel (ha : a.Coherent) (hvalid : ValidAt a i x)
    (hz : (R.rename x.id).index ≠ 0) :
    R.rename x.id ∉ x.slots.map R.redirect := by
  intro hmem
  obtain ⟨r, hr, hself⟩ := List.mem_map.mp hmem
  have hxz : x.id.index ≠ 0 := fun h0 => hz ((R.index_rename_id hx hi).mpr h0)
  have hrz : r.index ≠ 0 := by
    intro h0
    rw [← hself] at hz
    exact hz ((R.index_redirect hx hi hr).mpr h0)
  obtain ⟨s, hs, hne, hstands⟩ := R.redirect_slot hx hi r hr hrz
  have hsx : s = x.id := R.rename_inj _ _ (hs.symm.trans hself) hne
  subst hsx
  rcases hstands with rfl | ⟨k, j, y, z, hkj, hy, hz', hyid, hzid, -, -, hmerge, hkey⟩
  · exact hvalid.notSelf hxz hr
  · have hki : k = i := ha.single k i x.id ⟨hxz, y, hy, hyid⟩ ⟨hxz, x, hx, rfl⟩
    subst hki
    rw [hx, Option.some.injEq] at hy
    subst hy
    subst hzid
    -- The other literal stands behind, which literals must not refer to.
    obtain ⟨j', hj', hahead⟩ := hvalid.defined z.id hr hrz
    have hjj : j' = j := Option.some.inj (hj'.symm.trans (ha.definition?_eq hz' hrz))
    subst hjj
    have hop : x.opcode = z.opcode := congrArg (·.1) hkey
    have htarget := ha.opcode _ z hz' hrz
    rw [hop, htarget] at hahead
    obtain ⟨hforward, hlabel, hfunction⟩ := Opcode.refersBack_of_isMergeable hmerge
    rcases hahead hkj with h | h | h
    · rw [hforward] at h
      cases h
    · exact hlabel h
    · exact hfunction h

theorem validAt_relabel (ha : a.Coherent) (hb : b.Coherent) (hvalid : ValidAt a i x) :
    ValidAt b (R.place i) (x.relabel R.rename R.redirect) := by
  have htype : x.resultType ∈ x.slots := Instruction.mem_slots.mpr (.inr (.inr (.inr rfl)))
  have hdefined : ∀ r ∈ x.slots, r.index ≠ 0 → ∃ k, a.definition? r = some k := by
    intro r hr hz
    obtain ⟨k, hk, -⟩ := hvalid.defined r hr hz
    exact ⟨k, hk⟩
  refine { typed := fun hvalue hstring hz => ?_, notSelf := R.notSelf_relabel hx hi ha hvalid,
           defined := ?_, definesId := ?_, trailers := R.trailerFindings_relabel hx hi hvalid.trailers,
           resultType := fun hvalue hz => ?_,
           operands := R.operandFindings_relabel hx hi ha hb hdefined hvalid.operands }
  · exact hvalid.typed hvalue hstring ((R.index_redirect hx hi htype).mp hz)
  · intro r' hr' hz'
    rw [Instruction.slots_relabel] at hr'
    obtain ⟨r, hr, rfl⟩ := List.mem_map.mp hr'
    have hz : r.index ≠ 0 := fun h0 => hz' ((R.index_redirect hx hi hr).mpr h0)
    obtain ⟨k, hk, hahead⟩ := hvalid.defined r hr hz
    obtain ⟨k', d, d', hle, -, -, hkeep, hdef, -⟩ :=
      R.exists_definition?_redirect hx hi ha hb hr hk
    refine ⟨R.place k', hdef, fun hlt => ?_⟩
    rw [R.opcodeOf_redirect hx hi ha hr]
    -- If the definition is behind now, it was behind before.
    refine hahead (Nat.lt_of_not_le fun hki => ?_)
    have := R.place_mono (Nat.le_trans hle hki)
    omega
  · rw [Instruction.id_relabel, Instruction.opcode_relabel, ne_eq, R.index_rename_id hx hi]
    exact hvalid.definesId
  · rw [Instruction.resultType_relabel, R.opcodeOf_redirect hx hi ha htype]
    exact hvalid.resultType hvalue fun h0 => hz ((R.index_redirect hx hi htype).mpr h0)

omit hx hi in
include R in
theorem validate_eq_nil (ha : a.Coherent) (hb : b.Coherent) (hvalid : a.validate .full = []) :
    b.validate .full = [] := by
  rw [validate_eq_nil_iff] at hvalid ⊢
  intro j y hy
  obtain ⟨i, x, hx, hi, rfl, rfl⟩ := R.exists_of_code hy
  exact R.validAt_relabel hx hi ha hb (hvalid i x hx)

end Reduction

/-! ## Passes and pipelines -/

theorem Pipeline.run_invariant {P : Assembler → Prop}
    (hpass : ∀ (pass : Pass) {asm : Assembler}, P asm → P (pass.run asm).1) (p : Pipeline)
    (h : P asm) : P (p.run asm) := by
  have hall : ∀ (passes : List Pass) {asm : Assembler}, P asm → P (runAll passes asm).1 := by
    intro passes asm h
    exact List.foldlRecOn (motive := fun r : Assembler × Bool => P r.1) passes _ h
      fun _ hr pass _ => hpass pass hr
  have hsettle : ∀ (rounds : Nat) {asm : Assembler}, P asm → P (settle p.passes rounds asm) := by
    intro rounds
    induction rounds with
    | zero => exact id
    | succ rounds ih =>
      intro asm h
      unfold settle
      dsimp only
      split
      · exact ih (hall _ h)
      · exact hall _ h
  exact hall p.checks (hsettle _ h)

/-- A stream that agrees with its table and without findings. -/
structure Assembler.Valid (asm : Assembler) : Prop where
  coherent : asm.Coherent
  validate : asm.validate .full = []

namespace Assembler.Valid

variable {asm : Assembler} (h : asm.Valid)
include h

theorem validAt {x : Instruction} (hx : asm.code[i]? = some x) : ValidAt asm i x :=
  validate_eq_nil_iff.mp h.validate i x hx

theorem trailers : asm.VoidTrailers := by
  intro inst hinst hop
  obtain ⟨i, hi⟩ := List.mem_iff_getElem?.mp hinst
  rw [Array.getElem?_toList] at hi
  have hid := (h.validAt hi).definesId
  rw [ResultId.isVoid_iff]
  by_cases hz : inst.id.index = 0
  · exact hz
  · have hneeds := hid.mpr hz
    rcases hop with hop | hop <;> rw [hop] at hneeds <;> cases hneeds

theorem flatten : asm.flatten.2.Valid :=
  have hcoherent := h.coherent.flatten
  ⟨hcoherent, (flattenReduction h.coherent h.trailers).validate_eq_nil h.coherent hcoherent h.validate⟩

theorem mergeLiterals : asm.mergeLiterals.2.Valid :=
  have hcoherent := h.coherent.mergeLiterals
  ⟨hcoherent, (mergeReduction h.coherent).validate_eq_nil h.coherent hcoherent h.validate⟩

theorem withLog (log : ProblemLog) : ({ asm with log } : Assembler).Valid := by
  obtain ⟨⟨hexact, hsound, hcomplete, hsingle, hallocated, hopcode⟩, hvalidate⟩ := h
  have hsame : ({ asm with log } : Assembler).validate .full = asm.validate .full := rfl
  exact ⟨⟨Exact.same (a := asm) rfl rfl hexact, hsound, hcomplete, hsingle, hallocated, hopcode⟩,
    hsame.trans hvalidate⟩

/-- **One pass keeps a stream valid.**  A check only writes into the log. -/
theorem pass (pass : Pass) : (pass.run asm).1.Valid := by
  cases pass with
  | mergeLiterals => exact h.mergeLiterals
  | flatten => exact h.flatten
  | validation level => exact h.withLog _

theorem run (p : Pipeline) : (p.run asm).Valid :=
  Pipeline.run_invariant (fun p _ h => h.pass p) p h

end Assembler.Valid

/-- **A valid listing is valid after every pipeline**, if no redefinition was recorded while it was
    read. -/
theorem validate_run_eq_nil {text : String} {asm : Assembler} (h : Listing.parse text = .ok asm)
    (hlog : asm.NoRedefinition) (hvalid : asm.validate .full = []) (opt : OptimizeLevel)
    (validation : ValidationLevel) :
    ((Pipeline.ofLevels opt validation).run asm).validate .full = [] :=
  (Assembler.Valid.run ⟨Listing.coherent_of_parse h hlog, hvalid⟩ _).validate

def spareText : String :=
  "%1 = TYPE_FLOAT [32, 0, 0] (%0, %0, %0) : %0\n" ++
  "%2 = VALUE_LIT_FP [0, 0, 0] (%0, %0, %0) : %1\n" ++
  "%3 = VALUE_LIT_FP [0, 0, 0] (%0, %0, %0) : %1\n" ++
  "%4 = VAR_GLOBAL [0, 0, 0] (%1, %3, %0) : %0\n"

/-- The first literal stands in for the second, which goes, and what is left is valid. -/
theorem validate_run_spareText : ∃ asm, Listing.parse spareText = .ok asm ∧ asm.NoRedefinition ∧
    asm.validate .full = [] ∧
      ((Pipeline.ofLevels .performance .none).run asm).code.map (·.refs.snd) = #[⟨0⟩, ⟨0⟩, ⟨2⟩] ∧
      ((Pipeline.ofLevels .performance .none).run asm).validate .full = [] := by
  obtain ⟨asm, h, hlog, hvalid, hleft⟩ : ∃ asm, Listing.parse spareText = .ok asm ∧
      asm.log.problems = #[] ∧ asm.validate .full = [] ∧
      ((Pipeline.ofLevels .performance .none).run asm).code.map (·.refs.snd) = #[⟨0⟩, ⟨0⟩, ⟨2⟩] :=
    Listing.exists_of_any_ok (by decide +kernel)
  have hnone := Assembler.noRedefinition_of_problems hlog
  exact ⟨asm, h, hnone, hvalid, hleft, validate_run_eq_nil h hnone hvalid .performance .none⟩

/-! ## Definitions come first

What the basic level lets through is defined in front, unless it is a label or a function.
**Branches are let off altogether**: not only for the labels that they jump to, but for every slot,
that of a condition included. -/

theorem Opcode.allowsForward_iff {op : Opcode} :
    op.allowsForward = true ↔ op ∈ [.jump, .branch, .loopMerge] := by
  cases op <;> decide

theorem Assembler.DefinitionsSound.ne_of_not_self (hsound : asm.DefinitionsSound)
    (hinst : asm.code[i]? = some inst) (hself : inst.id.index ≠ 0 → inst.id ∉ inst.slots)
    {r : ResultId} (hr : r ∈ inst.slots) {k : Nat} (hk : asm.definition? r = some k) : k ≠ i := by
  rintro rfl
  obtain ⟨hz, x, hx, rfl⟩ := hsound r k hk
  obtain rfl : inst = x := Option.some.inj (hinst.symm.trans hx)
  exact hself hz hr

/-- **What the basic level demands**: values have a type, texts aside, no instruction refers to
    itself, and each id that is referred to is defined: in front, unless it is a label or a function
    or the reference is one of a branch. -/
theorem validate_basic_eq_nil_iff (h : Reached (fun _ => True) asm) :
    asm.validate .basic = [] ↔ ∀ (i : Nat) inst, asm.code[i]? = some inst →
      (inst.opcode.isValue = true → inst.opcode ≠ .stringLit → inst.resultType.index ≠ 0) ∧
      (inst.id.index ≠ 0 → inst.id ∉ inst.slots) ∧
      ∀ r ∈ inst.slots, r.index ≠ 0 → ∃ k, asm.definition? r = some k ∧ asm.DefinesAt k r ∧
        (k < i ∨ asm.opcodeOf r = .label ∨ asm.opcodeOf r = .function ∨
          inst.opcode ∈ [.jump, .branch, .loopMerge]) := by
  have hsound : asm.DefinitionsSound := definitionsSound_of_reached (fun _ _ _ => trivial) h
  rw [validate_eq_nil]
  refine forall_congr' fun i => forall_congr' fun inst => imp_congr_right fun hinst => ?_
  rw [findings, basicFindings_eq_nil]
  refine and_congr_right fun _ => and_congr_right fun hself => ?_
  refine forall_congr' fun r => imp_congr_right fun hr => imp_congr_right fun _ => exists_congr fun k => ?_
  refine and_congr_right fun hk => ?_
  rw [← Opcode.allowsForward_iff]
  constructor
  · intro hahead
    refine ⟨hsound r k hk, ?_⟩
    rcases Nat.lt_trichotomy k i with hlt | heq | hgt
    · exact .inl hlt
    · exact absurd heq (hsound.ne_of_not_self hinst hself hr hk)
    · rcases hahead hgt with hforward | hlabel | hfunction
      · exact .inr (.inr (.inr hforward))
      · exact .inr (.inl hlabel)
      · exact .inr (.inr (.inl hfunction))
  · rintro ⟨-, hlt | hlabel | hfunction | hforward⟩ hgt
    · omega
    · exact .inr (.inl hlabel)
    · exact .inr (.inr hfunction)
    · exact .inl hforward

def lateConditionRun : List Operation :=
  [.pushType { opcode := .boolType }, .create .zero, .pushNew { opcode := .label },
    .push { opcode := .branch, refs := ⟨⟨2⟩, ⟨3⟩, ⟨3⟩⟩ },
    .push { opcode := .zero, id := ⟨2⟩, resultType := ⟨1⟩ }]

theorem validate_basic_lateConditionRun : (runAll lateConditionRun).validate .basic = [] ∧
    ∃ k, (runAll lateConditionRun).definition? ⟨3⟩ = some k ∧
      (runAll lateConditionRun).DefinesAt k ⟨3⟩ := by
  have hrun : Reached (fun _ => True) (runAll lateConditionRun) := .runAll (by decide +kernel)
  have hvalid : (runAll lateConditionRun).validate .basic = [] := by decide +kernel
  obtain ⟨-, -, hslots⟩ := (validate_basic_eq_nil_iff hrun).mp hvalid 2
    { opcode := .branch, refs := ⟨⟨2⟩, ⟨3⟩, ⟨3⟩⟩ } (by decide +kernel)
  obtain ⟨k, hk, hdefines, -⟩ := hslots ⟨3⟩ (by decide) (by decide)
  exact ⟨hvalid, k, hk, hdefines⟩

/-- Its condition is neither a label nor a function, and nothing in front defines it. -/
theorem exists_late_condition : ∃ (asm : Assembler) (i k : Nat) (inst : Instruction),
    Reached (fun _ => True) asm ∧ asm.validate .basic = [] ∧ asm.code[i]? = some inst ∧
      asm.definition? inst.refs.fst = some k ∧ i < k ∧ asm.opcodeOf inst.refs.fst = .zero :=
  ⟨runAll lateConditionRun, 2, 3, { opcode := .branch, refs := ⟨⟨2⟩, ⟨3⟩, ⟨3⟩⟩ }, .runAll (by decide +kernel),
    by decide +kernel, by decide +kernel, by decide +kernel, by decide, by decide +kernel⟩

end ShaderIR
