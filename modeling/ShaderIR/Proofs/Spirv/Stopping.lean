import ShaderIR.Proofs.Assembler.Runs
import ShaderIR.Proofs.Spirv.Interfaces.Registering
import ShaderIR.Proofs.Spirv.Lowering.Positions

/-!
# Where emission stops

Which stage an instruction stands in is a matter of the markers in front of it alone: no lowering in
between changes it, also if it records a problem or gives up.  So **the first instruction that stops
the emission can be read off the stream**.
-/

namespace ShaderIR.Spirv

open Discipline
open Operation (runAll)

variable {α : Type} {asm : Assembler} {inst : Instruction} {s : Lowering} {k : Nat}

/-! ## The stage at a position -/

/-- The stage that a marker sets, which is none at the end of a stage. -/
def setsStage? (inst : Instruction) : Option (Option ShaderStage) :=
  match inst.opcode with
  | .stageBegin => (ShaderStage.ofCode? inst.operands.fst.toNat).map some
  | .stageEnd => some none
  | _ => none

/-- The stage that the last marker in front of position `k` sets. -/
def stageBefore (asm : Assembler) (k : Nat) : Option ShaderStage :=
  ((asm.code.toList.take k).reverse.findSome? setsStage?).join

theorem stageBefore_succ (h : asm.code[k]? = some inst) :
    stageBefore asm (k + 1) = (setsStage? inst).getD (stageBefore asm k) := by
  unfold stageBefore
  rw [List.take_add_one, Array.getElem?_toList, h, Option.toList_some, List.reverse_append,
    List.reverse_singleton, List.singleton_append, List.findSome?_cons]
  cases setsStage? inst <;> rfl

/-! ## Instructions between the markers -/

def staging : Discipline Lowering where
  Inv _ := True
  Grows s s' := s'.stage = s.stage
  refl _ := rfl
  trans h h' := h'.trans h

theorem staging_apart {x : Lower α} (h : ∀ s, (x.run s).2.stage = s.stage) : staging.Keeps x :=
  fun s _ => ⟨h s, trivial, trivial⟩

theorem staging_aside {x : Lower α} (h : aside.Keeps x) : staging.Keeps x :=
  staging_apart fun s => (h s trivial).1.stage

theorem bodyRules_staging : BodyRules staging where
  report p := staging_aside (aside_report p)
  fresh := staging_apart fun _ => rfl
  function _ := staging_apart fun _ => rfl
  append _ := staging_apart fun _ => rfl

theorem rules_staging (asm : Assembler) (hop : ¬ movesStage inst.opcode) :
    Rules asm staging (fun _ _ => True) (fun _ _ => True) inst where
  toFlowRules := bodyRules_staging.flowRules inst
  toFormRules := formRules_aside.lift fun h _ => ⟨(h trivial).1.stage, trivial, trivial⟩
  mono _ _ := trivial
  fnMono _ _ := trivial
  report p := staging_aside (aside_report p)
  fresh s := (staging_apart (fun _ => rfl) s).mono fun _ _ _ _ => trivial
  idFor _ := keeps_idFor_of (staging_apart fun _ => rfl) fun _ => staging_apart fun _ => rfl
  bindId _ _ := ⟨rfl, trivial, trivial⟩
  setPlace p := staging_aside (aside_setPlace _ p)
  addParam _ := staging_apart fun _ => rfl
  note _ {f} h := staging_apart fun s => by
    obtain ⟨_, _, _, _, hs⟩ := h s
    change (f s).stage = s.stage
    rw [hs]
  overflow := staging_apart fun _ => rfl
  setStage h := absurd h hop
  lowerType id s _ := ⟨((typeRules_aside asm).attempts_lowerTypeAt _ [] id s trivial).1.stage, trivial,
    fun _ _ => trivial⟩
  capability _ := staging_apart fun _ => rfl
  extension _ := staging_apart fun _ => rfl
  newType _ _ := staging_apart fun _ => rfl
  constantIn s _ _ _ _ := (staging_apart (fun _ => rfl) s).mono fun _ _ _ _ => trivial
  extInstSet := staging_apart fun _ => rfl
  remark _ _ _ _ := staging_apart fun _ => rfl
  global _ _ _ := staging_apart (fun _ => rfl) _
  block _ := staging_apart fun _ => rfl
  addEntryPoint _ _ := staging_apart fun _ => rfl
  modifyEntryPoint _ _ _ := staging_apart fun _ => rfl

/-! ## Markers -/

theorem unruled_any (x : Lower α) (s : Lowering) : unruled.Runs x s :=
  fun _ => ⟨trivial, trivial, trivial⟩

variable {b : BuiltIn} {β : Type}

theorem unruled_mapM (f : β → Lower α) (l : List β) (s : Lowering) :
    unruled.Runs (l.mapM fun b => (liftM (f b) : Attempt α)).run s fun a _ => a.isSome = true := by
  induction l generalizing s with
  | nil =>
    rw [List.mapM_nil]
    exact .pure rfl
  | cons b rest ih =>
    rw [List.mapM_cons]
    refine .lift_bind (unruled_any (f b) s) fun a s1 _ _ => ?_
    exact .run_bind (ih s1) (fun _ has => by cases has) fun _ _ _ _ => .pure rfl

theorem unruled_forM (f : β → Build Unit) (b : Option β) (s : Lowering) :
    unruled.Runs (b.forM fun b => (onModule (f b) : Attempt Unit)).run s fun a _ =>
      a.isSome = true := by
  cases b with
  | none => exact .pure rfl
  | some b => exact fun _ => ⟨trivial, trivial, rfl⟩

theorem unruled_bind {x : Attempt α} {f : α → Attempt β} {Q : Option β → Lowering → Prop}
    (hx : unruled.Runs x.run s fun a _ => a.isSome = true)
    (hf : ∀ a s', unruled.Runs (f a).run s' Q) :
    unruled.Runs (x >>= f).run s Q := .run_bind hx (fun _ ha => by cases ha) fun a s' _ _ => hf a s'

theorem stage_beginStage (i : Nat) (s : Lowering) :
    ((beginStage asm i inst).run.run s).2.stage.map (·.stage) =
      (ShaderStage.ofCode? inst.operands.fst.toNat).or (s.stage.map (·.stage)) := by
  unfold beginStage
  extract_lets code vars
  cases hcode : ShaderStage.ofCode? code.toNat with
  | none => rfl
  | some stage =>
    suffices h : unruled.Runs _ s fun _ s' => s'.stage.map (·.stage) = some stage from (h trivial).2.2
    refine .read_bind ?_
    extract_lets enter start
    have henter : ∀ u s, unruled.Runs (enter u).run s fun _ s' => s'.stage.map (·.stage) = some stage := by
      intro u s
      refine unruled_bind (unruled_mapM idFor vars s) fun interface s1 => ?_
      refine .lift_bind (unruled_any _ s1) fun entry s2 _ _ => ?_
      exact fun _ => ⟨trivial, trivial, rfl⟩
    have hstart : ∀ u s, unruled.Runs (start u).run s fun _ s' => s'.stage.map (·.stage) = some stage := by
      intro u s
      refine unruled_bind (unruled_forM _ _ s) fun _ s1 => ?_
      refine unruled_bind (unruled_forM _ _ s1) fun _ s2 => ?_
      split
      · exact .lift_bind (unruled_any _ s2) fun u s3 _ _ => henter u s3
      · exact henter () s2
    split
    · exact .lift_bind (unruled_any _ s) fun u s1 _ _ => hstart u s1
    · exact hstart () s

theorem stage_endStage (s : Lowering) : ((endStage asm inst).run.run s).2.stage = none := by
  suffices h : unruled.Runs (endStage asm inst).run s fun _ s' => s'.stage = none from (h trivial).2.2
  unfold endStage
  refine .read_bind ?_
  cases hstage : s.stage with
  | none => exact fun _ => ⟨trivial, trivial, hstage⟩
  | some o =>
    refine .lift_bind (unruled_any _ s) fun target s1 _ _ => ?_
    extract_lets close
    have hclose : ∀ function s, unruled.Runs (close function).run s fun _ s' => s'.stage = none := by
      intro function s
      unfold close
      extract_lets leave
      have hleave : ∀ u s, unruled.Runs (leave u).run s fun _ s' => s'.stage = none := fun _ s =>
        Runs.lift_bind (unruled_any _ s) fun _ _ _ _ _ => ⟨trivial, trivial, rfl⟩
      split
      · exact .lift_bind (unruled_any _ s) fun u s1 _ _ => hleave u s1
      · split
        · exact .lift_bind (unruled_any _ s) fun u s1 _ _ => hleave u s1
        · exact hleave () s
    split
    · exact .lift_bind (unruled_any _ s1) fun function s2 _ _ => hclose function s2
    · exact hclose target s1

theorem stage_lowerInstruction (i : Nat) (s : Lowering) :
    (lowerInstruction asm i inst s).stage.map (·.stage) =
      (setsStage? inst).getD (s.stage.map (·.stage)) := by
  by_cases hbegin : inst.opcode = .stageBegin
  · have hattempt : attempt asm i inst = beginStage asm i inst := by rw [attempt, hbegin]
    rw [lowerInstruction, hattempt, stage_beginStage, setsStage?, hbegin]
    cases ShaderStage.ofCode? inst.operands.fst.toNat <;> rfl
  by_cases hend : inst.opcode = .stageEnd
  · have hattempt : attempt asm i inst = endStage asm inst := by rw [attempt, hend]
    rw [lowerInstruction, hattempt, stage_endStage, setsStage?, hend]
    rfl
  · have hnone : setsStage? inst = none := by
      unfold setsStage?
      split
      · exact absurd ‹_› hbegin
      · exact absurd ‹_› hend
      · rfl
    have hkeeps := (rules_staging asm (not_or.mpr ⟨hbegin, hend⟩)).lowerInstruction (s := s) trivial i
    rw [hnone, Option.getD_none, hkeeps.1]

theorem stage_stateAt (hk : k ≤ asm.code.size) :
    (stateAt asm k).stage.map (·.stage) = stageBefore asm k := by
  induction k with
  | zero => rfl
  | succ k ih =>
    have hinst : asm.code[k]? = some asm.code[k] := Array.getElem?_eq_getElem hk
    rw [stateAt_succ hinst, stage_lowerInstruction, ih (Nat.le_of_succ_le hk), stageBefore_succ hinst]

/-! ## What stops an emission -/

/-- The built-in that an instruction asks for. -/
inductive AsksFor (inst : Instruction) : BuiltIn → Prop
  | value {b : BuiltIn} (hop : inst.opcode = .builtIn)
    (hcode : BuiltIn.ofCode? inst.operands.fst.toNat = some b) :
      AsksFor inst b
  | position (hop : inst.opcode = .invokePos) : AsksFor inst .globalInvocationId
  | size (hop : inst.opcode = .invokeSize) : AsksFor inst .numWorkgroups

def IsVertexOutput (stage : ShaderStage) (b : BuiltIn) : Prop :=
  stage = .vertex ∧ (b = .position ∨ b = .pointSize)

/-- **Why an instruction stops the emission**, by the stage that it stands in. -/
inductive Stops (stage : Option ShaderStage) (inst : Instruction) : EmissionError → Prop
  | unknown (hop : inst.opcode = .unknown) : Stops stage inst (.unsupported .unknown)
  | outside {b : BuiltIn} (hasks : AsksFor inst b) (hstage : stage = none) :
      Stops stage inst (.builtInOutsideStage b)
  | illegal {b : BuiltIn} {st : ShaderStage} (hasks : AsksFor inst b) (hstage : stage = some st)
      (hvalue : inst.opcode = .builtIn → ¬ IsVertexOutput st b) (hlegal : b.isLegalIn st = false) :
      Stops stage inst (.illegalBuiltIn b st)

theorem perVertexMember?_eq_none_iff {stage : ShaderStage} :
    perVertexMember? (some stage) b = none ↔ ¬ IsVertexOutput stage b := by
  cases stage <;> cases b <;> simp [perVertexMember?, IsVertexOutput]

/-- A variable of its own is read for what an instruction asks for, vertex outputs apart. -/
theorem builtInRead?_eq_some_iff {stage : Option ShaderStage} : builtInRead? stage inst = some b ↔
      AsksFor inst b ∧ (inst.opcode = .builtIn → perVertexMember? stage b = none) := by
  constructor
  · intro h
    unfold builtInRead? at h
    split at h
    next hop => cases h; exact ⟨.position hop, fun h => by rw [hop] at h; cases h⟩
    next hop => cases h; exact ⟨.size hop, fun h => by rw [hop] at h; cases h⟩
    next hop =>
      obtain ⟨hcode, hmember⟩ := Option.filter_eq_some_iff.mp h
      exact ⟨.value hop hcode, fun _ => Option.isNone_iff_eq_none.mp hmember⟩
    next => cases h
  · rintro ⟨hasks, hmember⟩
    cases hasks with
    | value hop hcode =>
      rw [builtInRead?, hop]
      exact Option.filter_eq_some_iff.mpr ⟨hcode, Option.isNone_iff_eq_none.mpr (hmember hop)⟩
    | position hop | size hop => rw [builtInRead?, hop]

theorem AsksFor.ne_unknown (h : AsksFor inst b) : inst.opcode ≠ .unknown := by
  cases h with
  | value hop | position hop | size hop =>
    rw [hop]
    nofun

theorem stopsAt?_eq_some_iff {stage : Option ShaderStage} {e : EmissionError} :
    stopsAt? stage inst = some e ↔ Stops stage inst e := by
  by_cases hop : inst.opcode = .unknown
  · rw [stopsAt?, if_pos hop]
    constructor
    · rintro ⟨⟩
      exact .unknown hop
    · intro h
      cases h with
      | unknown => rfl
      | outside hasks | illegal hasks => exact absurd hop hasks.ne_unknown
  · rw [stopsAt?, if_neg hop, Option.bind_eq_some_iff]
    constructor
    · rintro ⟨b, hread, he⟩
      obtain ⟨hasks, hmember⟩ := builtInRead?_eq_some_iff.mp hread
      cases stage with
      | none => cases he; exact .outside hasks rfl
      | some st =>
        dsimp only at he
        split at he
        · cases he
        next hlegal =>
          cases he
          exact .illegal hasks rfl (fun h => perVertexMember?_eq_none_iff.mp (hmember h))
            (Bool.eq_false_iff.mpr hlegal)
    · intro h
      cases h with
      | unknown h => exact absurd h hop
      | outside hasks hstage =>
        cases hstage
        exact ⟨_, builtInRead?_eq_some_iff.mpr ⟨hasks, fun _ => rfl⟩, rfl⟩
      | illegal hasks hstage hvalue hlegal =>
        cases hstage
        refine ⟨_, builtInRead?_eq_some_iff.mpr ⟨hasks, fun h => perVertexMember?_eq_none_iff.mpr (hvalue h)⟩, ?_⟩
        dsimp only
        rw [hlegal]
        rfl

/-- The instruction at position `k` stops the emission, if it gets there. -/
def StopsAt (asm : Assembler) (k : Nat) (e : EmissionError) : Prop :=
  ∃ inst, asm.code[k]? = some inst ∧ Stops (stageBefore asm k) inst e

theorem stopAt?_eq_some_iff {e : EmissionError} : stopAt? asm k = some e ↔ StopsAt asm k e := by
  rw [stopAt?, Option.bind_eq_some_iff]
  refine exists_congr fun inst => and_congr_right fun hinst => ?_
  have hk : k < asm.code.size := Assembler.lt_size_code hinst
  rw [stage_stateAt (Nat.le_of_lt hk), stopsAt?_eq_some_iff]

theorem stopAt?_eq_none_iff : stopAt? asm k = none ↔ ∀ e, ¬ StopsAt asm k e := by
  rw [Option.eq_none_iff_forall_ne_some]
  exact forall_congr' fun e => not_congr stopAt?_eq_some_iff

/-! ## Emission -/

theorem fatal_result (s : Lowering) (version : UInt32) (stop : Option EmissionError) :
    (s.result version stop).fatal = stop := by
  cases stop <;> rfl

theorem words_result_eq_nil_iff (s : Lowering) (version : UInt32) (stop : Option EmissionError) :
    (s.result version stop).words = [] ↔ stop.isSome = true := by
  cases stop with
  | some e => exact iff_of_true rfl rfl
  | none => exact iff_of_false (List.cons_ne_nil _ _) nofun

/-- **Why an emission stops**: with the error of the first instruction of the stream that is
    unknown, or that asks for a built-in where there is no stage or a stage without it. There are no
    words if and only if it stops. -/
theorem fatal_eq_some_iff_first {major minor : UInt8} {r : Emission}
    (h : emitModule asm major minor = .ok r) :
    (∀ e, r.fatal = some e ↔ ∃ k, StopsAt asm k e ∧ ∀ j < k, ∀ e', ¬ StopsAt asm j e') ∧
      (r.fatal.isSome = true ↔ ∃ k e, StopsAt asm k e) ∧
      (r.words = [] ↔ r.fatal.isSome = true) := by
  obtain ⟨-, -, rfl⟩ := emitModule_eq_ok_iff.mp h
  rw [fatal_result, words_result_eq_nil_iff]
  have hfirst : ∀ e, (lowerAll asm).2 = some e ↔ ∃ k, StopsAt asm k e ∧ ∀ j < k, ∀ e', ¬ StopsAt asm j e' := by
    intro e
    rw [lowerAll_snd_eq_some_iff]
    simp only [stopAt?_eq_some_iff, stopAt?_eq_none_iff]
  refine ⟨hfirst, ⟨fun hsome => ?_, fun hex => ?_⟩, Iff.rfl⟩
  · obtain ⟨e, he⟩ := Option.isSome_iff_exists.mp hsome
    obtain ⟨k, hk, -⟩ := (hfirst e).mp he
    exact ⟨k, e, hk⟩
  · obtain ⟨k, e, hk⟩ := hex
    refine Option.isSome_iff_ne_none.mpr fun hnone => ?_
    exact stopAt?_eq_none_iff.mp ((lowerFrom_of_snd_eq_none hnone).1 k) e hk

def misplacedRun : List Operation :=
  [.pushType { opcode := .floatType, operands := ⟨32, 0, 0⟩ },
    .pushType { opcode := .vectorType, operands := ⟨4, 0, 0⟩, refs := ⟨⟨1⟩, .void, .void⟩ },
    .pushNew { opcode := .stageBegin, operands := ⟨1, 0, 0⟩ },
    .pushNew { opcode := .stageBegin, operands := ⟨99, 0, 0⟩ },
    .pushNew { opcode := .builtIn, resultType := ⟨2⟩ },
    .pushNew { opcode := .stageBegin, operands := ⟨2, 0, 0⟩ },
    .pushNew { opcode := .builtIn, resultType := ⟨2⟩ }, .push { opcode := .unknown }]

/-- The position is not available in the fragment stage; the unknown stage in front of it did not
    end the vertex stage, where it is. -/
theorem fatal_misplacedRun : ∃ r, emitModule (runAll misplacedRun) 1 5 = .ok r ∧
      r.fatal = some (.illegalBuiltIn .position .fragment) ∧ r.words = [] ∧
      StopsAt (runAll misplacedRun) 6 (.illegalBuiltIn .position .fragment) := by
  have hrun : (emitModule (runAll misplacedRun) 1 5).toOption.map (·.fatal)
      = some (some (.illegalBuiltIn .position .fragment)) := by decide +kernel
  have hinst : (runAll misplacedRun).code[6]? = some { opcode := .builtIn, id := ⟨7⟩, resultType := ⟨2⟩ } := by
    decide +kernel
  have hstage : stageBefore (runAll misplacedRun) 6 = some .fragment := by decide +kernel
  obtain ⟨r, h, hfatal⟩ := exists_emission hrun
  obtain ⟨-, -, hwords⟩ := fatal_eq_some_iff_first h
  refine ⟨r, h, hfatal, hwords.mpr (by rw [hfatal]; rfl), _, hinst, ?_⟩
  rw [hstage]
  refine .illegal (.value rfl rfl) rfl (fun _ hvertex => ?_) rfl
  cases hvertex.1

end ShaderIR.Spirv
