import ShaderIR.Proofs.Lists
import ShaderIR.Proofs.Pipeline.Views

/-!
# What is left gets what it asks for

An instruction that is left asks for what it asked for before, and the views before it agree; the
traces of one that is dropped do not matter.  So **what is left of a stream gets all that it asks
for if the whole stream did**.
-/

namespace ShaderIR

open Assembler Spirv
open Instruction (resultType_relabel refs_relabel)

namespace Reduction

variable {a b : Assembler} {R : Reduction a b} {k : Nat} {v v' : View} {x : Instruction}
  {r s : ResultId} {α β : Type} {u : Unit}

/-! ## Lists of checks -/

theorem Entails.mapM {γ δ : Type} {φ : γ → δ} {f : γ → Check α} {g : δ → Check β}
    {Q : α → β → Prop} {l : List γ} (h : ∀ y ∈ l, ∀ w w', R.Entails k w w' (f y) (g (φ y)) Q) :
    R.Entails k v v' (l.mapM f) ((l.map φ).mapM g) (List.Forall₂ Q) := by
  induction l generalizing v v' with
  | nil => exact .pure .nil
  | cons y rest ih =>
    obtain ⟨hy, hrest⟩ := List.forall_mem_cons.mp h
    rw [List.map_cons, List.mapM_cons, List.mapM_cons]
    refine (hy v v').bind fun c c' w w' hc => (ih hrest).bind fun cs cs' u u' hcs => ?_
    exact .pure (.cons hc hcs)

theorem Entails.forM {φ : Instruction → Instruction} {f g : Instruction → Check Unit}
    {l : List Instruction} (h : ∀ y ∈ l, ∀ w w', R.Entails k w w' (f y) (g (φ y))) :
    R.Entails k v v' (l.forM f) ((l.map φ).forM g) := by
  induction l generalizing v v' with
  | nil => exact .pure trivial
  | cons y rest ih =>
    obtain ⟨hy, hrest⟩ := List.forall_mem_cons.mp h
    exact (hy v v').seq (ih hrest)

theorem instruction_of_isMergeable {op : Opcode} (h : op.isMergeable = true) :
    ∃ ok, ∀ (asm : Assembler) (i : Nat) (inst : Instruction), inst.opcode = op →
      Check.instruction asm i inst = Check.literal asm inst ok := by
  cases op with
  | boolLit | null | zero =>
    exact ⟨fun _ => true, fun asm i inst hop => by unfold Check.instruction; rw [hop]⟩
  | floatLit => exact ⟨Check.isFloat, fun asm i inst hop => by unfold Check.instruction; rw [hop]⟩
  | intLit => exact ⟨Check.isInt, fun asm i inst hop => by unfold Check.instruction; rw [hop]⟩
  | _ => cases h

theorem entails_define (hs : R.Lives s) :
    R.Entails k v v' (Check.define s) (Check.define (R.rename s)) :=
  (entails_meetId hs).seq entails_write

theorem entails_defineSlot (hr : R.Holds r) :
    R.Entails k v v' (Check.define r) (Check.define (R.redirect r)) :=
  (entails_meet hr).seq entails_write

theorem entails_operator :
    R.Entails k v v' (Check.operator x) (Check.operator (x.relabel R.rename R.redirect))
      fun op op' => op' = op := .found_self _

/-- What is left of `x` asks for no more than `x` did. -/
abbrev Kept (R : Reduction a b) (k : Nat) (v v' : View) (x : Instruction)
    (f g : Instruction → Check Unit) : Prop :=
  R.Entails k v v' (f x) (g (x.relabel R.rename R.redirect))

namespace Carries

/-! ## Types and values -/

section

variable (hR : R.Carries)
include hR

theorem typed (hr : R.Holds r) :
    R.Entails k v v' (Check.typed a r) (Check.typed b (R.redirect r)) := by
  unfold Check.typed
  rw [R.ofId?_redirect hR hr]
  exact .guarded id

theorem value (hr : R.Holds r) : R.Entails k v v' (Check.value a r) (Check.value b (R.redirect r))
      fun c c' => c = true → c' = true := by
  unfold Check.value
  refine .get_bind fun hv => ?_
  rw [R.opcodeOf_holds hr hR.source.coherent, hv.isPlaced hr]
  split
  · exact entails_write.seq (.pure id)
  · exact entails_meet hr

theorem optionalValue (hr : R.Holds r) :
    R.Entails k v v' (Check.optionalValue a r) (Check.optionalValue b (R.redirect r))
      (Option.Rel fun c c' => c = true → c' = true) := by
  unfold Check.optionalValue
  rw [R.isVoid_holds hr]
  split
  · exact .pure .none
  · rw [map_eq_pure_bind, map_eq_pure_bind]
    exact (hR.value hr).bind fun _ _ _ _ hc => .pure (.some hc)

theorem scalarOf?_typeOf (hr : R.Holds r) :
    scalarOf? b (typeOf b (R.redirect r)) = scalarOf? a (typeOf a r) := by
  obtain ⟨htype, heq⟩ := R.typeOf_redirect hR hr
  rw [heq, (R.described hR htype).scalarOf?_eq]

theorem values {l : List Instruction} (hl : ∀ y ∈ l, R.Holds y.refs.fst) :
    R.Entails k v v' (Check.values a l) (Check.values b (l.map (·.relabel R.rename R.redirect)))
      (List.Forall₂ fun c c' => c = true → c' = true) :=
  Entails.mapM fun y hy _ _ => hR.value (hl y hy)

end

end Carries

/-! ## Instructions that are left -/

/-- An instruction that is left, where what it says of ids is carried over. -/
structure Left (R : Reduction a b) (k : Nat) (x : Instruction) : Prop where
  carries : R.Carries
  code : a.code[k]? = some x
  keep : R.keep k = true

namespace Left

variable (hx : R.Left k x)
include hx

theorem own : R.Lives x.id := R.lives_id hx.code hx.keep

theorem type : R.Holds x.resultType := R.holds_resultType hx.code hx.keep

theorem fst : R.Holds x.refs.fst := R.holds_fst hx.code hx.keep

theorem snd : R.Holds x.refs.snd := R.holds_snd hx.code hx.keep

theorem thd : R.Holds x.refs.thd := R.holds_thd hx.code hx.keep

theorem described : Described a b x.resultType (R.redirect x.resultType) := R.described hx.carries hx.type

theorem place (hplain : x.opcode.isMergeable = false) :
    R.Entails k v v' (Check.setPlace x.id) (Check.setPlace (R.rename x.id)) :=
  entails_setPlace hx.carries.source hx.code hx.keep hplain

theorem trailersAfter {t : Opcode} (ht : x.opcode.trailer? = some t) :
    b.trailersAfter (R.place k) t x.operands.fst.toNat =
        (a.trailersAfter k t x.operands.fst.toNat).map (·.relabel R.rename R.redirect) ∧
      ∀ y ∈ a.trailersAfter k t x.operands.fst.toNat, R.Holds y.refs.fst := by
  have hcount := (hx.carries.source.validAt hx.code).trailers
  unfold Validation.trailerFindings at hcount
  rw [ht] at hcount
  simp only [Validation.failIf_eq_nil, bne_eq_false_iff_eq] at hcount
  refine ⟨R.trailersAfter_relabel hx.code hx.keep ht hcount, fun y hy => ?_⟩
  obtain ⟨j, hj, hkeep⟩ := R.exists_keep_of_mem_trailersAfter hx.code hx.keep ht hy
  exact R.holds_fst hj hkeep

/-! ### Arithmetic -/

theorem comparison (op : Operator) (hr : R.Holds r) : R.Entails k v v' (Check.comparison a x op r)
      (Check.comparison b (x.relabel R.rename R.redirect) op (R.redirect r)) := by
  unfold Check.comparison
  rw [(R.described hx.carries hr).scalarOf?_eq]
  refine (Entails.guarded id).seq ?_
  refine (hx.carries.value hx.fst).seq ?_
  refine (hx.carries.value hx.snd).seq ?_
  exact entails_define hx.own

theorem compare : R.Kept k v v' x (Check.compare a) (Check.compare b) := by
  refine entails_operator.bind fun op op' _ _ hop => ?_
  rw [hop]
  exact hx.comparison op hx.type

theorem binary : R.Kept k v v' x (Check.binary a) (Check.binary b) := by
  refine entails_operator.bind fun op op' _ _ hop => ?_
  rw [hop]
  obtain ⟨htype, heq⟩ := R.typeOf_redirect hx.carries hx.fst
  split
  · show R.Entails k _ _ _ (Check.comparison b _ op (typeOf b (R.redirect x.refs.fst))) _
    rw [heq]
    exact hx.comparison op htype
  · refine (hx.carries.typed hx.type).seq ?_
    refine (hx.carries.value hx.fst).seq ?_
    refine (hx.carries.value hx.snd).seq ?_
    refine (entails_meetId hx.own).seq ?_
    refine (Entails.guarded fun h => ?_).seq entails_write
    rw [resultType_relabel, hx.described.scalarOf?_eq]
    exact h

theorem unary : R.Kept k v v' x (Check.unary a) (Check.unary b) := by
  refine entails_operator.bind fun op op' _ _ hop => ?_
  rw [hop]
  refine (hx.carries.typed hx.type).seq ?_
  refine (hx.carries.value hx.fst).seq ?_
  refine (entails_meetId hx.own).seq ?_
  refine (Entails.guarded fun h => ?_).seq entails_write
  rw [resultType_relabel, hx.described.scalarOf?_eq]
  exact h

theorem convert (choose : Scalar → Option Op) :
    R.Kept k v v' x (Check.convert a · choose) (Check.convert b · choose) := by
  refine (hx.carries.typed hx.type).seq ?_
  refine (Entails.guarded fun h => ?_).seq ?_
  · rw [refs_relabel, Triple.map, hx.carries.scalarOf?_typeOf hx.fst]
    exact h
  · refine (hx.carries.value hx.fst).seq ?_
    exact entails_define hx.own

theorem changeSign : R.Kept k v v' x (Check.changeSign a) (Check.changeSign b) := by
  refine (Entails.guarded fun h => ?_).seq (hx.convert _)
  rw [refs_relabel, Triple.map, hx.carries.scalarOf?_typeOf hx.fst,
    resultType_relabel, hx.described.scalarOf?_eq]
  exact h

/-! ### Composites -/

theorem cast : R.Kept k v v' x (Check.cast a) (Check.cast b) := by
  unfold Kept Check.cast
  rw [refs_relabel, Triple.map, hx.carries.scalarOf?_typeOf hx.fst]
  split
  · refine (hx.carries.typed hx.type).seq ?_
    refine (Entails.guarded fun h => ?_).seq ?_
    · rw [resultType_relabel, hx.described.scalarOf?_eq]
      exact h
    · refine (hx.carries.value hx.fst).seq ?_
      exact entails_define hx.own
  · exact hx.convert _

theorem trailers {t : Opcode} (ht : x.opcode.trailer? = some t) :
    R.Entails k v v' (Check.trailers a k x t)
      (Check.trailers b (R.place k) (x.relabel R.rename R.redirect) t)
      fun args args' => args' = args.map (·.relabel R.rename R.redirect) ∧ ∀ y ∈ args,
        R.Holds y.refs.fst := by
  obtain ⟨heq, hholds⟩ := hx.trailersAfter ht
  unfold Check.trailers
  rw [Instruction.operands_relabel, heq]
  refine (Entails.guarded fun h => ?_).seq (.pure ⟨rfl, hholds⟩)
  rw [List.length_map]
  exact h

theorem construct (hop : x.opcode = .construct) :
    R.Kept k v v' x (Check.construct a k) (Check.construct b (R.place k)) := by
  refine (hx.trailers (by rw [hop]; rfl)).bind fun args args' _ _ hargs => ?_
  rw [hargs.1, List.length_map]
  refine (hx.carries.typed hx.type).seq ?_
  refine (entails_meetId hx.own).seq ?_
  refine (hx.carries.values hargs.2).seq ?_
  exact (Entails.guarded id).seq entails_write

theorem arrayLiteral (hop : x.opcode = .arrayLit) :
    R.Kept k v v' x (Check.arrayLiteral a k) (Check.arrayLiteral b (R.place k)) := by
  have hplain : x.opcode.isMergeable = false := by rw [hop]; rfl
  refine (hx.carries.typed hx.type).seq ?_
  obtain ⟨heq, hholds⟩ := hx.trailersAfter (t := .arrayElem) (by rw [hop]; rfl)
  rw [resultType_relabel, R.ofId?_redirect hx.carries hx.type,
    Instruction.operands_relabel, heq]
  split
  next length _ =>
    refine (Entails.guarded id).seq ?_
    refine (hx.carries.values hholds).bind fun cs cs' _ _ hcs => ?_
    refine (Entails.guarded fun h => hcs.length_eq ▸ h).seq ?_
    by_cases hold : cs.all id = true
    · rw [if_pos hold, if_pos (hcs.all_id hold)]
      exact entails_bindId hx.carries.source hx.code hx.keep hplain id
    · rw [if_neg hold]
      split
      · exact Leaves.behind (entails_meet_bindId hx.carries.source hx.code hx.keep hplain)
      · exact entails_define hx.own
  next => exact fun _ _ _ h => by cases h

theorem swizzle : R.Kept k v v' x (Check.swizzle a) (Check.swizzle b) := by
  refine (hx.carries.typed hx.type).seq ?_
  refine (Entails.guarded id).seq ?_
  refine (hx.carries.value hx.fst).seq ?_
  exact entails_define hx.own

/-! ### Memory -/

theorem assign : R.Kept k v v' x (Check.assign a) (Check.assign b) := by
  refine (entails_isPlaced hx.fst).bind fun p p' _ _ hp => ?_
  refine (Entails.guarded fun h => hp ▸ h).seq ?_
  exact (hx.carries.value hx.snd).seq entails_write

section

variable (hplain : x.opcode.isMergeable = false)
include hplain

theorem load : R.Kept k v v' x Check.load Check.load :=
  entails_write.seq (hx.place hplain)

theorem readThrough : R.Kept k v v' x Check.readThrough Check.readThrough :=
  entails_write.seq (hx.load hplain)

theorem readVariable : R.Kept k v v' x Check.readVariable Check.readVariable := by
  refine .get_bind fun hv => ?_
  have hparams : v'.params.contains (x.relabel R.rename R.redirect).refs.fst =
      v.params.contains x.refs.fst := hv.params hx.fst
  rw [hparams]
  split
  · refine (entails_meet hx.fst).bind fun c c' _ _ hc => ?_
    exact entails_bindId hx.carries.source hx.code hx.keep hplain hc
  · refine (entails_isPlaced hx.fst).bind fun p p' _ _ hp => ?_
    refine (Entails.guarded fun h => hp ▸ h).seq ?_
    exact (entails_meetId hx.own).seq (hx.load hplain)

theorem member : R.Kept k v v' x (Check.member a) (Check.member b) := by
  refine (hx.carries.typed hx.type).seq ?_
  refine (entails_meetId hx.own).seq ?_
  refine (entails_isPlaced hx.fst).bind fun p p' _ _ hp => ?_
  rw [hp]
  split
  · exact hx.readThrough hplain
  · exact (hx.carries.value hx.fst).seq entails_write

theorem element : R.Kept k v v' x (Check.element a) (Check.element b) := by
  refine (hx.carries.typed hx.type).seq ?_
  refine (hx.carries.value hx.snd).seq ?_
  refine (hx.carries.optionalValue hx.thd).seq ?_
  refine (entails_meetId hx.own).seq ?_
  refine (entails_isPlaced hx.fst).bind fun p p' _ _ hp => ?_
  rw [hp]
  split
  · exact hx.readThrough hplain
  · obtain ⟨htype, heq⟩ := R.typeOf_redirect hx.carries hx.fst
    refine (Entails.guarded fun h => ?_).seq ?_
    · rw [refs_relabel, Triple.map, heq, (R.described hx.carries htype).isVector_eq,
        R.isVoid_holds hx.thd]
      exact h
    · exact (hx.carries.value hx.fst).seq entails_write

/-! ### Built-ins -/

theorem readBuiltIn (builtIn : BuiltIn) :
    R.Kept k v v' x (Check.readBuiltIn a · builtIn) (Check.readBuiltIn b · builtIn) := by
  have htype := hx.described
  have hshape : Check.shapeOf? b.types (R.redirect x.resultType) = Check.shapeOf? a.types x.resultType := by
    unfold Check.shapeOf?
    rw [htype.ofId]
    refine congrArg _ (funext fun d => ?_)
    unfold Check.shapeOfDesc?
    rw [funext htype.desc]
  refine (hx.carries.typed hx.type).seq ?_
  refine (entails_meetId hx.own).seq ?_
  rw [resultType_relabel, hshape, htype.canReinterpret_eq]
  split
  · exact hx.load hplain
  · exact (Entails.guarded id).seq entails_write

theorem builtIn : R.Kept k v v' x (Check.builtIn a) (Check.builtIn b) := by
  refine (Entails.found_self _).bind fun c c' _ _ hc => .get_bind fun hv => ?_
  rw [hc, hv.stage]
  unfold Check.builtInIn
  split
  · exact .pure trivial
  · exact (entails_writeIf id).seq (hx.readBuiltIn hplain c)

end

theorem invocationLane : R.Kept k v v' x (Check.invocationLane a) (Check.invocationLane b) := by
  refine .get_bind fun hv => ?_
  rw [hv.stage]
  unfold Check.invocationLaneIn
  split
  · exact .pure trivial
  · refine (Entails.guarded id).seq ?_
    refine (hx.carries.typed hx.type).seq ?_
    exact entails_define hx.own

/-! ### Functions and variables -/

theorem openFunction (hop : x.opcode = .function) :
    R.Kept k v v' x (Check.openFunction a k) (Check.openFunction b (R.place k)) := by
  refine (hx.carries.typed hx.fst).seq ?_
  refine (hx.trailers (by rw [hop]; rfl)).bind fun args args' _ _ hargs => ?_
  rw [hargs.1, List.length_map]
  refine (Entails.forM fun y hy _ _ => hx.carries.typed (hargs.2 y hy)).seq ?_
  refine (Entails.guarded id).seq ?_
  refine (entails_meetId hx.own).seq ?_
  exact entails_setFunction hx.carries.source hx.code hx.keep (by rw [hop]; rfl)

theorem beginFunction (hop : x.opcode = .function) :
    R.Kept k v v' x (Check.beginFunction a k) (Check.beginFunction b (R.place k)) := by
  refine entails_takeFunction.bind fun f f' _ _ hf => ?_
  exact (Entails.guarded (isNone_of_rel hf)).seq (hx.openFunction hop)

theorem parameter (hop : x.opcode = .functionArg) :
    R.Kept k v v' x (Check.parameter a) (Check.parameter b) := by
  unfold Kept Check.parameter
  rw [refs_relabel, Triple.map, R.ofId?_redirect hx.carries hx.fst]
  split
  · refine (entails_meetId hx.own).seq ?_
    refine (entails_addParam hx.carries.source hx.code hx.keep (by rw [hop]; rfl)).seq ?_
    exact .get_bind fun hv => .guarded hv.any_function
  · exact .pure trivial

theorem endFunction : R.Kept k v v' x Check.endFunction Check.endFunction := by
  refine entails_takeFunction.bind fun f f' _ _ hf => .guarded fun h => ?_
  cases hf with
  | none => cases h
  | some hf =>
    cases h
    exact congrArg some (hf hx.fst)

theorem call (hop : x.opcode = .call) :
    R.Kept k v v' x (Check.call a k) (Check.call b (R.place k)) := by
  refine (hx.trailers (by rw [hop]; rfl)).bind fun args args' _ _ hargs => ?_
  rw [hargs.1, List.length_map]
  refine (hx.carries.typed hx.type).seq ?_
  refine (entails_meet hx.fst).seq ?_
  refine (entails_meetId hx.own).seq ?_
  refine (hx.carries.values hargs.2).seq ?_
  exact (Entails.guarded id).seq entails_write

section

variable (hplain : x.opcode.isMergeable = false)
include hplain

theorem localVariable : R.Kept k v v' x (Check.localVariable a) (Check.localVariable b) := by
  refine (hx.carries.typed hx.fst).seq ?_
  refine (hx.carries.optionalValue hx.snd).bind fun c c' _ _ hc => ?_
  refine (entails_meetId hx.own).seq ?_
  refine .seq (Q := fun _ _ => True) (.get_bind fun hv => .guarded fun h => ?_) ?_
  · rw [hv.isSome_function]
    exact h
  · refine (hx.place hplain).seq (entails_writeIf fun h => ?_)
    cases hc with
    | none => exact h
    | @some c c' hcc =>
      rw [Option.any_some, Bool.or_eq_true] at h ⊢
      refine h.imp_right fun hnot => ?_
      rw [Bool.not_eq_true'] at hnot ⊢
      exact Bool.eq_false_iff.mpr fun htrue => Bool.eq_false_iff.mp hnot (hcc htrue)

theorem globalVariable : R.Kept k v v' x (Check.globalVariable a) (Check.globalVariable b) := by
  refine (hx.carries.typed hx.fst).seq ?_
  refine (hx.carries.optionalValue hx.snd).bind fun c c' _ _ hc => ?_
  refine (Entails.guarded fun h => ?_).seq ?_
  · cases hc with
    | none => rfl
    | some hcc => exact hcc h
  · refine (entails_meetId hx.own).seq ?_
    exact hx.place hplain

theorem interfaceVariable :
    R.Kept k v v' x (Check.interfaceVariable a) (Check.interfaceVariable b) := by
  refine (hx.carries.typed hx.fst).seq ?_
  refine (entails_meetId hx.own).seq ?_
  exact hx.place hplain

theorem descriptor : R.Kept k v v' x (Check.descriptor a) (Check.descriptor b) := by
  refine (hx.carries.typed hx.fst).seq fun {_ _ w w'} => ?_
  have hlayout : R.Entails k w w' (Check.found (a.types.layoutOf? x.refs.fst))
      (Check.found (b.types.layoutOf? (R.redirect x.refs.fst))) fun layout layout' =>
        (layout'.members.map fun m => memberExtent b.types m.2) =
          layout.members.map fun m => memberExtent a.types m.2 := by
    refine .found fun layout hl => ?_
    have hextents := R.memberExtents_redirect hx.carries hx.fst
    rw [hl, Option.map_some] at hextents
    exact Option.map_eq_some_iff.mp hextents
  refine hlayout.bind fun layout layout' _ _ heq => ?_
  rw [heq]
  refine (Entails.guarded id).seq ?_
  refine (entails_meetId hx.own).seq ?_
  exact hx.place hplain

end

/-! ### Control flow and stages -/

theorem branch : R.Kept k v v' x (Check.branch a) (Check.branch b) := by
  refine (hx.carries.value hx.fst).seq ?_
  refine (entails_meet hx.snd).seq ?_
  exact (entails_meet hx.thd).seq entails_write

theorem loopMerge : R.Kept k v v' x Check.loopMerge Check.loopMerge := by
  refine (entails_meet hx.fst).seq ?_
  exact (entails_meet hx.snd).seq entails_write

theorem returnValue : R.Kept k v v' x (Check.returnValue a) (Check.returnValue b) :=
  (hx.carries.value hx.fst).seq entails_write

theorem openStage (stage : ShaderStage) :
    R.Kept k v v' x (Check.openStage a k · stage) (Check.openStage b (R.place k) · stage) := by
  unfold Check.openStage
  rw [R.stageInterface_relabel hx.keep, List.length_map]
  refine (Entails.guarded id).seq ?_
  refine (Entails.mapM fun s hs _ _ => entails_meetId (R.lives_of_mem_stageInterface hs)).seq ?_
  exact entails_setStage (some stage)

theorem beginStage : R.Kept k v v' x (Check.beginStage a k) (Check.beginStage b (R.place k)) := by
  refine (Entails.found_self _).bind fun c c' _ _ hc => .get_bind fun hv => ?_
  rw [hc, hv.stage]
  exact (Entails.guarded id).seq (hx.openStage c)

theorem entryResult (hop : x.opcode = .stageEnd) : R.Holds (Check.entryResult a x) ∧
      Check.entryResult b (x.relabel R.rename R.redirect) = R.redirect (Check.entryResult a x) := by
  unfold Check.entryResult
  rw [refs_relabel, Triple.map]
  by_cases hz : x.refs.fst.index = 0
  · obtain ⟨hd, hd'⟩ := R.definingInstruction?_void hx.carries hz
    rw [hd, hd']
    exact ⟨.inl rfl, R.redirect_void.symm⟩
  · obtain ⟨d, d', j, hd, hcode, hkeep, hd', hsame⟩ :=
      R.exists_definingInstruction? hx.carries hx.fst hz
    -- A stage ends with a function, for which no literal stands.
    have hfunction : a.opcodeOf x.refs.fst = .function := by
      have hvalid := (hx.carries.source.validAt hx.code).operands
      unfold Validation.operandFindings at hvalid
      rw [hop] at hvalid
      dsimp only at hvalid
      rw [if_neg fun hv => hz (ResultId.isVoid_iff.mp hv), Validation.expectOpcode_eq_nil] at hvalid
      exact hvalid
    have hopcode : d.opcode = .function := by
      obtain ⟨i, hi', hdi⟩ := Option.bind_eq_some_iff.mp hd
      obtain ⟨d0, hd0, -, -, -, hop0⟩ := hx.carries.source.coherent.exists_of_definition? hi'
      rw [hdi, Option.some.injEq] at hd0
      rw [hd0, ← hop0, hfunction]
    have hself : d' = d := hsame.resolve_right fun h => by
      rw [hopcode] at h
      cases h.1
    rw [hd, hd', hself]
    exact ⟨R.holds_fst (hself ▸ hcode) hkeep, rfl⟩

theorem endStage (hop : x.opcode = .stageEnd) :
    R.Kept k v v' x (Check.endStage a) (Check.endStage b) := by
  obtain ⟨hholds, heq⟩ := hx.entryResult hop
  refine .get_bind fun hv => ?_
  rw [hv.stage]
  refine (Entails.found_self _).bind fun stage stage' _ _ hstage => ?_
  rw [hstage]
  refine (entails_meet hx.fst).seq ?_
  refine (Entails.guarded fun h => ?_).seq (entails_setStage none)
  unfold Check.takesResult at h ⊢
  rw [heq, (R.described hx.carries hholds).returnsSomething_eq, (R.described hx.carries hholds).isVec4_eq]
  exact h

/-! ### Literals and types -/

theorem literal {ok : Option Scalar → Bool} (hv : R.Seen k v v') {w : View}
    (hrun : (Check.literal a x ok).run v = some (u, w)) :
    ∃ w', (Check.literal b (x.relabel R.rename R.redirect) ok).run v' = some ((), w') ∧
      R.Seen (k + 1) w w' := by
  obtain ⟨htype, hok, rfl⟩ := run_literal_eq_some.mp hrun
  have hdescribed := hx.described
  refine ⟨_, run_literal_eq_some.mpr ⟨?_, ?_, rfl⟩, hv.bindLiteral hx.carries.source hx.code hx.keep⟩
  · exact (congrArg Option.isSome hdescribed.ofId).trans htype
  · exact (congrArg ok hdescribed.scalarOf?_eq).trans hok

theorem typedId : R.Entails k v v' (Check.typed a x.id) (Check.typed b (R.rename x.id)) := by
  unfold Check.typed
  rw [R.ofId?_rename hx.carries hx.own]
  exact .guarded id

theorem entails_instruction (hplain : x.opcode.isMergeable = false) :
    R.Kept k v v' x (Check.instruction a k) (Check.instruction b (R.place k)) := by
  unfold Kept Check.instruction
  rw [Instruction.opcode_relabel]
  cases hop : x.opcode with
  | unknown | callArg | structMember | structEnd | constructArg | arrayElem =>
    exact .pure trivial
  | stageBegin => exact hx.beginStage
  | stageEnd => exact hx.endStage hop
  | function => exact hx.beginFunction hop
  | functionArg => exact hx.parameter hop
  | functionEnd => exact hx.endFunction
  | localVar => exact hx.localVariable hplain
  | globalVar => exact hx.globalVariable hplain
  | inputVar | outputVar => exact hx.interfaceVariable hplain
  | descriptorVar => exact hx.descriptor hplain
  | call => exact hx.call hop
  | voidType | floatType | sintType | uintType | arrayType | vectorType | matrixType | structType
  | boolType | pointerType | tupleType => exact hx.typedId
  | label => exact entails_define hx.own
  | jump => exact entails_defineSlot hx.fst
  | branch => exact hx.branch
  | loopMerge => exact hx.loopMerge
  | assign => exact hx.assign
  | compare => exact hx.compare
  | cast => exact hx.cast
  | construct => exact hx.construct hop
  | deref | readVar => exact hx.readVariable hplain
  | expand | intToFloat => exact hx.convert _
  | binary => exact hx.binary
  | unary => exact hx.unary
  | invokePos | invokeSize => exact hx.invocationLane
  | builtIn => exact hx.builtIn hplain
  | arrayLit => exact hx.arrayLiteral hop
  | boolLit | floatLit | intLit | null | zero => rw [hop] at hplain; cases hplain
  | stringLit => exact fun _ _ _ h => by cases h
  | member => exact hx.member hplain
  | toSigned | toUnsigned => exact hx.changeSign
  | element => exact hx.element hplain
  | swizzle => exact hx.swizzle
  | ret | discard => exact entails_write
  | retValue => exact hx.returnValue

theorem instruction (hv : R.Seen k v v') {w : View}
    (hrun : (Check.instruction a k x).run v = some (u, w)) :
    ∃ w', (Check.instruction b (R.place k) (x.relabel R.rename R.redirect)).run v' = some ((), w') ∧
      R.Seen (k + 1) w w' := by
  cases hmerge : x.opcode.isMergeable with
  | true =>
    obtain ⟨ok, hok⟩ := instruction_of_isMergeable hmerge
    rw [hok _ _ _ rfl] at hrun
    rw [hok _ _ _ (Instruction.opcode_relabel _ _ x)]
    exact hx.literal hv hrun
  | false =>
    obtain ⟨_, w', hc', -, hw⟩ := hx.entails_instruction hmerge hv u w hrun
    refine ⟨w', hc', hw.succ hx.code fun htrue => ?_⟩
    rw [hmerge] at htrue
    cases htrue

end Left

namespace Carries

/-! ## Instructions that are dropped -/

section

instance (s : ResultId) : R.Leaves k (Check.isPlaced s) := by unfold Check.isPlaced; infer_instance

instance (s : ResultId) : R.Leaves k (Check.define s) := by unfold Check.define; infer_instance

instance (c : Bool) : R.Leaves k (Check.writeIf c) := by unfold Check.writeIf; infer_instance

variable (asm : Assembler) (i : Nat) (inst : Instruction)

instance : R.Leaves k (Check.typed asm r) := by unfold Check.typed; infer_instance

instance : R.Leaves k (Check.value asm r) := by unfold Check.value; infer_instance

instance : R.Leaves k (Check.optionalValue asm r) := by unfold Check.optionalValue; infer_instance

instance (l : List Instruction) : R.Leaves k (Check.values asm l) := by unfold Check.values; infer_instance

instance (n : Nat) : R.Leaves k (Check.fits n) := by unfold Check.fits; infer_instance

instance : R.Leaves k (Check.operator inst) := by unfold Check.operator; infer_instance

instance (op : Operator) : R.Leaves k (Check.comparison asm inst op r) := by
  unfold Check.comparison; infer_instance

instance (choose : Scalar → Option Op) : R.Leaves k (Check.convert asm inst choose) := by
  unfold Check.convert; infer_instance

instance (t : Opcode) : R.Leaves k (Check.trailers asm i inst t) := by unfold Check.trailers; infer_instance

end

/-- An instruction that is dropped binds and places its own id, which no slot that is left holds. -/
theorem leaves_instruction (ha : a.Sound) (hx : a.code[k]? = some x) (hi : R.keep k = false)
    (hz : x.id.index ≠ 0) (hplain : x.opcode.isMergeable = false) (hop : x.opcode.isPure = true) :
    R.Leaves k (Check.instruction a k x) := by
  have hbind := leaves_bindId ha hx hi hz hplain
  have hplace := leaves_setPlace ha hx hi hz hplain
  have hload : R.Leaves k (Check.load x) := by unfold Check.load; infer_instance
  have hthrough : R.Leaves k (Check.readThrough x) := by unfold Check.readThrough; infer_instance
  unfold Check.instruction
  cases h : x.opcode with
  | voidType | floatType | sintType | uintType | arrayType | vectorType | matrixType | structType
  | boolType | pointerType | tupleType | expand | intToFloat => infer_instance
  | compare => unfold Check.compare; infer_instance
  | cast => unfold Check.cast; infer_instance
  | construct => unfold Check.construct; infer_instance
  | deref | readVar => unfold Check.readVariable; infer_instance
  | binary => unfold Check.binary; infer_instance
  | unary => unfold Check.unary; infer_instance
  | invokePos | invokeSize =>
    have hlane : ∀ stage, R.Leaves k (Check.invocationLaneIn a x stage) := by
      rintro (_ | stage) <;> unfold Check.invocationLaneIn <;> infer_instance
    unfold Check.invocationLane; infer_instance
  | builtIn =>
    have hread : ∀ b, R.Leaves k (Check.readBuiltIn a x b) := fun b => by
      unfold Check.readBuiltIn; infer_instance
    have hin : ∀ b stage, R.Leaves k (Check.builtInIn a x b stage) := by
      rintro b (_ | stage) <;> unfold Check.builtInIn <;> infer_instance
    unfold Check.builtIn; infer_instance
  | arrayLit =>
    change R.Leaves k (Check.arrayLiteral a k x)
    unfold Check.arrayLiteral
    split <;> infer_instance
  | boolLit | floatLit | intLit | null | zero => rw [h] at hplain; cases hplain
  | stringLit => infer_instance
  | member => unfold Check.member; infer_instance
  | toSigned | toUnsigned => unfold Check.changeSign; infer_instance
  | element => exact .bind (g := fun _ => .bind (g := fun _ => inferInstance))
  | swizzle => unfold Check.swizzle; infer_instance
  | _ => rw [h] at hop; cases hop

variable {w : View}

theorem dropped (ha : a.Sound) (hx : a.code[k]? = some x) (hi : R.keep k = false)
    (hv : R.Seen k v v')
    (hrun : (Check.instruction a k x).run v = some (u, w)) : R.Seen (k + 1) w v' := by
  have hpass : x.opcode.isMergeable = false → R.Leaves k (Check.instruction a k x) → R.Seen (k + 1) w v' := by
    intro hplain hleaves
    refine (hleaves.leaves v v' u w hv hrun).succ hx fun hmerge => ?_
    rw [hplain] at hmerge
    cases hmerge
  rcases R.dropped hx hi with hpure | hop
  · have hz := ha.index_ne_zero hx (Opcode.needsId_of_isPure hpure)
    cases hmerge : x.opcode.isMergeable with
    | true =>
      obtain ⟨ok, hok⟩ := instruction_of_isMergeable hmerge
      rw [hok _ _ _ rfl] at hrun
      obtain ⟨-, -, rfl⟩ := run_literal_eq_some.mp hrun
      exact hv.dropLiteral ha hx hi hz
    | false => exact hpass hmerge (leaves_instruction ha hx hi hz hmerge hpure)
  · -- Trailers of what is dropped ask for nothing.
    have hskip : Check.instruction a k x = pure () := by
      unfold Check.instruction
      rcases hop with hop | hop <;> rw [hop]
    refine hpass (by rcases hop with hop | hop <;> rw [hop] <;> rfl) ?_
    rw [hskip]
    exact .pure ()

/-! ## Streams -/

theorem run_stream_cons {asm : Assembler} {i : Nat} {inst : Instruction} {rest : List Instruction} :
    (Check.stream asm i (inst :: rest)).run v = some ((), w) ↔
      (stopsAt? v.stage inst).isNone = true ∧ ∃ w1,
        (Check.instruction asm i inst).run v = some ((), w1) ∧
        (Check.stream asm (i + 1) rest).run w1 = some ((), w) := by
  have hgo : (Check.instruction asm i inst >>= fun _ => Check.stream asm (i + 1) rest).run v =
      some ((), w) ↔ ∃ w1, (Check.instruction asm i inst).run v = some ((), w1) ∧
        (Check.stream asm (i + 1) rest).run w1 = some ((), w) := by
    rw [StateT.run_bind]
    refine Option.bind_eq_some_iff.trans ?_
    exact ⟨fun ⟨⟨_, w1⟩, h⟩ => ⟨w1, h⟩, fun ⟨w1, h⟩ => ⟨⟨(), w1⟩, h⟩⟩
  rw [← hgo]
  exact run_guard_bind (p := (stopsAt? v.stage inst).isNone = true)
    (f := fun _ => Check.instruction asm i inst >>= fun _ => Check.stream asm (i + 1) rest)

theorem stream (hR : R.Carries) {n m : Nat} (hn : n + m = a.code.size) (hv : R.Seen n v v')
    (hrun : (Check.stream a n (a.code.toList.drop n)).run v = some ((), w)) :
    ∃ w', (Check.stream b (R.place n) (b.code.toList.drop (R.place n))).run v' = some ((), w') ∧
      R.Seen a.code.size w w' := by
  induction m generalizing n v v' with
  | zero =>
    cases (Nat.add_zero n).symm.trans hn
    rw [← Array.length_toList, List.drop_length] at hrun
    cases hrun
    rw [R.drop_size]
    exact ⟨v', rfl, hv⟩
  | succ m ih =>
    have hlt : n < a.code.size := by omega
    have hx := Array.getElem?_eq_getElem hlt
    rw [List.drop_eq_getElem_cons (by rw [Array.length_toList]; exact hlt), Array.getElem_toList] at hrun
    generalize a.code[n] = x at hx hrun
    obtain ⟨hgo, w1, hinst, hrest⟩ := run_stream_cons.mp hrun
    have hplace := R.place_succ n
    cases hi : R.keep n with
    | true =>
      obtain ⟨w1', hinst', hw1⟩ := Left.instruction ⟨hR, hx, hi⟩ hv hinst
      obtain ⟨w', hrest', hw⟩ := ih (by omega) hw1 hrest
      rw [hplace, if_pos hi] at hrest'
      refine ⟨w', ?_, hw⟩
      rw [R.drop_of_keep hx hi, hplace, if_pos hi]
      refine run_stream_cons.mpr ⟨?_, w1', hinst', hrest'⟩
      rw [hv.stage]
      exact hgo
    | false =>
      obtain ⟨w', hrest', hw⟩ := ih (by omega) (dropped hR.source hx hi hv hinst) hrest
      rw [hplace, hi] at hrest'
      exact ⟨w', hrest', hw⟩

theorem closeAll : R.Entails k v v' Check.closeAll Check.closeAll := by
  refine entails_takeFunction.bind fun f f' _ _ hf => ?_
  refine (Entails.guarded (isNone_of_rel hf)).seq (.get_bind fun hv => ?_)
  rw [hv.stage]
  exact .guarded id

theorem run_names_eq_some {entries : List (ResultId × String)} :
    (Check.names entries).run v = some (u, w) ↔
      w = v ∧ ∀ e ∈ entries, ((v.known e.1).isNone || textFits 1 e.2) = true := by
  induction entries with
  | nil => exact ⟨fun h => by cases h; exact ⟨rfl, nofun⟩, fun h => by rw [h.1]; rfl⟩
  | cons e rest ih =>
    rw [List.forall_mem_cons, and_left_comm, ← ih]
    exact run_guard_bind (p := ((v.known e.1).isNone || textFits 1 e.2) = true)
      (f := fun _ => Check.names rest)

/-- **What is left of a stream that meets its requirements meets them.** -/
theorem meetsRequirements (hR : R.Carries) (h : meetsRequirements a = true) :
    meetsRequirements b = true := by
  obtain ⟨⟨u, w⟩, hwhole⟩ := Option.isSome_iff_exists.mp h
  unfold Check.whole at hwhole
  rw [StateT.run_bind] at hwhole
  obtain ⟨⟨_, w1⟩, hstream, hend⟩ := Option.bind_eq_some_iff.mp hwhole
  rw [StateT.run_bind] at hend
  obtain ⟨⟨_, w2⟩, hclose, hnames⟩ := Option.bind_eq_some_iff.mp hend
  obtain ⟨w1', hstream', hw1⟩ := hR.stream (Nat.zero_add _) R.seen_empty hstream
  obtain ⟨_, w2', hclose', -, hw2⟩ := closeAll hw1 () w2 hclose
  obtain ⟨-, hfit⟩ := run_names_eq_some.mp hnames
  rw [R.place_zero] at hstream'
  have hnames' : (Check.names b.names.entries).run w2' = some ((), w2') := by
    refine run_names_eq_some.mpr ⟨rfl, fun e he => ?_⟩
    obtain ⟨id, hid, hrename, hlives⟩ := hR.names e he
    -- What is met in the new stream was met in the old one, literals at their definition.
    rw [Bool.or_eq_true, ← hrename]
    by_cases hmet : w2'.known (R.rename id) = none
    · exact .inl (by rw [hmet]; rfl)
    · have hknown : w2.known id ≠ none := by
        rcases hw2.met hlives hmet with hknown | ⟨j, x, hx, hmerge, rfl⟩
        · exact hknown
        · exact hw2.reached (lt_size_code hx) hx hmerge
      have htext := hfit _ hid
      rw [Bool.or_eq_true, Option.isNone_iff_eq_none] at htext
      exact .inr (htext.resolve_left hknown)
  refine Option.isSome_iff_exists.mpr ⟨((), w2'), ?_⟩
  unfold Check.whole
  rw [StateT.run_bind]
  refine Option.bind_eq_some_iff.mpr ⟨_, hstream', ?_⟩
  rw [StateT.run_bind]
  exact Option.bind_eq_some_iff.mpr ⟨_, hclose', hnames'⟩

end Carries

end Reduction

end ShaderIR
