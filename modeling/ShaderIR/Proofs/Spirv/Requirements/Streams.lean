import ShaderIR.Proofs.Spirv.Lowering.Positions
import ShaderIR.Proofs.Spirv.Requirements.Frames

/-!
# Streams follow their checks

If every type has a form, **a stream is lowered without a problem exactly if each of its
instructions gets what it asks for**.  What remains for a clean emission is that no entry point is
too long.
-/

namespace ShaderIR.Spirv

open Discipline Spirv.Module

variable {asm : Assembler} {s : Lowering} {inst : Instruction}

section

variable (hforms : HasForms asm.types)
include hforms

/-! ## Instructions -/

theorem followsT_typeInstruction :
    FollowsT asm (do let _ ← requireType asm inst inst.id) s (Check.typed asm inst.id) :=
  (followsT_requireType hforms inst inst.id).finish fun _ _ _ _ _ => .pure fun _ => trivial

/-- **The lowering of an instruction follows its check**, whatever its opcode. -/
theorem follows_attempt (i : Nat) :
    Follows asm (attempt asm i inst).run s (Check.instruction asm i inst) := by
  unfold attempt Check.instruction
  cases inst.opcode with
  | unknown | callArg | structMember | structEnd | constructArg | arrayElem =>
    exact .pure fun _ => trivial
  | stageBegin => exact (followsT_beginStage i).forget
  | stageEnd => exact (followsT_endStage hforms).forget
  | function => exact (followsT_beginFunction hforms i).forget
  | functionArg => exact follows_parameter hforms
  | functionEnd => exact followsT_endFunction.forget
  | localVar => exact (followsT_localVariable hforms).forget
  | globalVar => exact (followsT_globalVariable hforms).forget
  | inputVar | outputVar => exact (followsT_interfaceVariable hforms).forget
  | descriptorVar => exact (followsT_descriptor hforms).forget
  | call => exact (followsT_call hforms i).forget
  | voidType | floatType | sintType | uintType | arrayType | vectorType | matrixType | structType
  | boolType | pointerType | tupleType =>
    exact (followsT_typeInstruction hforms).forget
  | label => exact followsT_label.forget
  | jump => exact followsT_jump.forget
  | branch => exact followsT_branch.forget
  | loopMerge => exact followsT_loopMerge.forget
  | assign => exact followsT_assign.forget
  | compare => exact followsT_compare.forget
  | cast => exact (followsT_cast hforms).forget
  | construct => exact (followsT_construct hforms i).forget
  | deref | readVar => exact followsT_readVariable.forget
  | expand | intToFloat => exact (followsT_convertBy hforms _).forget
  | binary => exact (followsT_binary hforms).forget
  | unary => exact (followsT_unary hforms).forget
  | invokePos | invokeSize => exact follows_invocationLane hforms _
  | builtIn => exact follows_builtInValue hforms
  | arrayLit => exact (followsT_arrayLiteral hforms i).forget
  | boolLit => exact (followsT_boolLiteral hforms).forget
  | floatLit => exact (followsT_floatLiteral hforms).forget
  | intLit => exact (followsT_intLiteral hforms).forget
  | stringLit => exact .fails (not_clean_problem inst _ s)
  | member => exact (followsT_member hforms).forget
  | null | zero => exact (followsT_nullValue hforms).forget
  | toSigned | toUnsigned => exact (followsT_changeSign hforms).forget
  | element => exact (followsT_element hforms).forget
  | swizzle => exact (followsT_swizzle hforms).forget
  | ret | discard => exact (FollowsT.lift (follows_terminate inst rfl)).forget
  | retValue => exact followsT_returnValue.forget

/-- **A stream** that is not stopped has no problem if and only if there was none before and its
    check has an outcome. -/
theorem follows_lowerFrom (insts : List Instruction) (i : Nat) (s : Lowering)
    (hs : s.Clean → s.Sound asm) :
    ((lowerFrom asm i insts s).1.Clean → (lowerFrom asm i insts s).2 = none →
      s.Clean ∧ (lowerFrom asm i insts s).1.Sound asm ∧
        (Check.stream asm i insts).run s.view = some ((), (lowerFrom asm i insts s).1.view)) ∧
    (s.Clean → ((Check.stream asm i insts).run s.view).isSome = true →
      (lowerFrom asm i insts s).1.Clean ∧ (lowerFrom asm i insts s).2 = none) := by
  induction insts generalizing i s with
  | nil => exact ⟨fun hclean _ => ⟨hclean, hs hclean, rfl⟩, fun hclean _ => ⟨hclean, rfl⟩⟩
  | cons inst rest ih =>
    have hcheck : (Check.stream asm i (inst :: rest)).run s.view = StateT.run (do
        guard ((stopsAt? (s.stage.map (·.stage)) inst).isNone = true)
        Check.instruction asm i inst
        Check.stream asm (i + 1) rest) s.view := rfl
    rw [lowerFrom, hcheck]
    cases stopsAt? (s.stage.map (·.stage)) inst with
    | some e => exact ⟨fun _ h => (by cases h), fun _ h => (by cases h)⟩
    | none =>
      obtain ⟨hsound, hcomplete⟩ := follows_attempt hforms i hs
      obtain ⟨hsound', hcomplete'⟩ := ih (i + 1) (lowerInstruction asm i inst s)
        fun hclean => (hsound hclean).2.1
      have hgo : StateT.run (do
          guard ((none : Option EmissionError).isNone = true)
          Check.instruction asm i inst
          Check.stream asm (i + 1) rest) s.view =
          (Check.instruction asm i inst >>= fun _ => Check.stream asm (i + 1) rest).run s.view := rfl
      rw [hgo, StateT.run_bind]
      refine ⟨fun hclean hfatal => ?_, fun hclean hsome => ?_⟩
      · obtain ⟨hclean1, hsound2, hstream⟩ := hsound' hclean hfatal
        obtain ⟨hclean0, -, -, b, hb, -⟩ := hsound hclean1
        refine ⟨hclean0, hsound2, ?_⟩
        rw [hb]
        exact hstream
      · have hinst : ((Check.instruction asm i inst).run s.view).isSome = true := by
          cases hc : (Check.instruction asm i inst).run s.view with
          | none => rw [hc] at hsome; cases hsome
          | some r => rfl
        have hclean1 := hcomplete hclean hinst
        obtain ⟨-, -, -, b, hb, -⟩ := hsound hclean1
        rw [hb] at hsome
        exact hcomplete' hclean1 hsome

end

/-! ## The end of a stream -/

theorem not_clean_report (p : Problem) (s : Lowering) : ¬ ((report p).run s).2.Clean :=
  fun h => Array.push_ne_empty h.problems

theorem follows_closeAll : Follows asm closeAll s Check.closeAll := by
  unfold closeAll Check.closeAll
  refine follows_takeFunction.bind fun outer source s1 _ houter => ?_
  extract_lets leave
  have hleave : ∀ u s', Follows asm (leave u) s' (do
      let v ← get
      guard (v.stage.isNone = true)) := by
    intro u s'
    refine .get_bind (.congr (d := guard ((s'.stage.map (·.stage)).isNone = true)) ?_
      fun _ => rfl)
    cases s'.stage with
    | none => exact .congr (.pure fun _ => trivial) fun _ => rfl
    | some outer => exact .congr (.fails (not_clean_report _ s')) fun _ => rfl
  cases outer with
  | none => exact (hleave () s1).congr fun hclean => by rw [houter hclean]; rfl
  | some f =>
    have hfails : ∀ p, Follows asm (report p) s1 (failure : Check Unit) :=
      fun p => .fails (not_clean_report p s1)
    refine .congr ((hfails _).bind fun _ _ s2 _ _ =>
      (follows_closeFunction f).skip fun u s3 _ _ => hleave u s3) fun hclean => ?_
    rw [houter hclean]
    rfl

theorem follows_writeNames : Follows asm (writeNames asm) s (Check.names asm.names.entries) := by
  unfold writeNames Check.names
  induction asm.names.entries generalizing s with
  | nil => exact .pure fun _ => trivial
  | cons e rest ih =>
    refine .bind (Q := fun _ _ _ => True) ?_ fun _ _ s1 _ _ => ih
    refine .get_bind (.congr
      (d := guard ((((s.ids.get? e.1).map s.module.isConstant).isNone || textFits 1 e.2) = true)) ?_
      fun _ => rfl)
    cases s.ids.get? e.1 with
    | none => exact .congr (.pure fun _ => trivial) fun _ => rfl
    | some n =>
      by_cases hfits : textFits 1 e.2 = true
      · rw [hfits]
        refine .congr (follows_onModule (Build.sharing_emit ?_ s.module)) fun _ => rfl
        exact (fits_name n e.2).trans hfits
      · refine .congr (.fails fun hclean => ?_) fun _ => ?_
        · exact Build.not_whole_emit (fun h => hfits ((fits_name n e.2).symm.trans h)) hclean.whole
        · rw [Bool.eq_false_iff.mpr hfits]
          rfl

/-! ## Whole streams -/

theorem clean_empty : Lowering.Clean {} := ⟨rfl, rfl, rfl⟩

theorem sound_empty (asm : Assembler) : Lowering.Sound asm {} where
  tables := tables_empty
  ids_lt h := by cases h
  types h := by cases h

/-- **A stream is lowered without a problem if and only if it meets its requirements.** -/
theorem lowerAll_clean_iff (hforms : HasForms asm.types) :
    (lowerAll asm).1.Clean ∧ (lowerAll asm).2 = none ↔ meetsRequirements asm = true := by
  have hfrom := follows_lowerFrom hforms asm.code.toList 0 {} fun _ => sound_empty asm
  have hview : Lowering.view {} = {} := rfl
  have hcheck : (Check.whole asm).run {} = ((Check.stream asm 0 asm.code.toList).run {} >>= fun r =>
      (do Check.closeAll; Check.names asm.names.entries).run r.2) := rfl
  unfold lowerAll meetsRequirements
  rw [hcheck]
  rw [hview] at hfrom
  cases hrun : lowerFrom asm 0 asm.code.toList {} with | mk s fatal =>
  rw [hrun] at hfrom
  obtain ⟨hsound, hcomplete⟩ := hfrom
  cases fatal with
  | some e =>
    refine ⟨fun h => (nomatch h.2), fun h => ?_⟩
    cases hstream : (Check.stream asm 0 asm.code.toList).run {} with
    | none => rw [hstream] at h; cases h
    | some r => cases (hcomplete clean_empty (by rw [hstream]; rfl)).2
  | none =>
    have hend : Follows asm (do closeAll; writeNames asm) s
        (do Check.closeAll; Check.names asm.names.entries) :=
      follows_closeAll.bind fun _ _ _ _ _ => follows_writeNames
    obtain ⟨hsound', hcomplete'⟩ := hend fun hclean => (hsound hclean rfl).2.1
    refine ⟨fun h => ?_, fun h => ?_⟩
    · obtain ⟨hclean, -, -, b, hb, -⟩ := hsound' h.1
      rw [(hsound hclean rfl).2.2]
      exact congrArg Option.isSome hb
    · cases hstream : (Check.stream asm 0 asm.code.toList).run {} with
      | none => rw [hstream] at h; cases h
      | some r =>
        have hclean := (hcomplete clean_empty (by rw [hstream]; rfl)).1
        rw [(hsound hclean rfl).2.2] at h
        exact ⟨hcomplete' hclean h, rfl⟩

theorem isClean_iff_clean {major minor : UInt8} {e : Emission}
    (h : emitModule asm major minor = .ok e) :
    e.isClean = true ↔ ((lowerAll asm).1.Clean ∧ (lowerAll asm).2 = none) ∧
      (lowerAll asm).1.module.oversizedEntryPoints = [] := by
  rw [isClean_iff h]
  constructor
  · rintro ⟨hfatal, hproblems, hwhole, hentries⟩
    exact ⟨⟨⟨hproblems, hwhole, (emitModule_eq_ok_iff.mp h).1⟩, hfatal⟩, hentries⟩
  · rintro ⟨⟨hclean, hfatal⟩, hentries⟩
    exact ⟨hfatal, hclean.problems, hclean.whole, hentries⟩

end ShaderIR.Spirv
