import ShaderIR.Proofs.Spirv.Declarations
import ShaderIR.Spirv.Emission

/-!
# What lowering is made of

All lowerings put together the same few steps.  `Rules` lists them, **each with what is known where
it is taken**; a discipline that keeps the rules is kept by every lowering.  `TypeRules` does so for
the lowering of a type, to any depth.
-/

namespace ShaderIR.Spirv

open Discipline
open Lower (ofBuild)

/-! ## Steps on function bodies -/

namespace OpenFunction

def startBlock (label : ModuleId) (f : OpenFunction) : OpenFunction :=
  { f with body := f.body.push { op := .label, result := some label }, labelled := true, terminated := false }

def write (i : Inst) (f : OpenFunction) : OpenFunction := { f with body := f.body.push i }

def leave (f : OpenFunction) : OpenFunction := { f with terminated := true }

end OpenFunction

/-- The steps inside of a function, for a discipline that allows the changes `A` of the open
    function. -/
structure EditRules (D : Discipline Lowering) (A : (OpenFunction → OpenFunction) → Prop) :
    Prop where
  report : ∀ p, D.Keeps (report p)
  fresh : D.Keeps (ofBuild .fresh)
  edit : ∀ {g}, A g → D.Keeps (modifyFunction g)
  startBlock : ∀ n, A (.startBlock n)
  leave : A .leave

namespace EditRules

variable {D : Discipline Lowering} {A : (OpenFunction → OpenFunction) → Prop} (R : EditRules D A)
include R

theorem keeps_emit {i : Inst} (hi : A (.write i)) (source : Instruction) :
    D.Keeps (emit source i) := by
  refine .get_bind fun s => ?_
  split
  · exact (R.report _).bind fun _ => .pure false
  · refine .bind ?_ fun _ => ?_
    · unfold openBlock
      split
      · exact .bind R.fresh fun n => R.edit (R.startBlock n)
      · exact .pure ()
    · split
      · exact (R.edit hi).bind fun _ => .pure true
      · exact (R.report _).bind fun _ => .pure false

theorem keeps_terminate {i : Inst} (hi : A (.write i)) (source : Instruction) :
    D.Keeps (terminate source i) := by
  refine (R.keeps_emit hi source).bind fun written => ?_
  split
  · exact R.edit R.leave
  · exact .pure ()

theorem keeps_beginBlock {label : ModuleId}
    (h : A (.write { op := .branch, operands := [.id label] })) (source : Instruction) :
    D.Keeps (beginBlock source label) := by
  refine .get_bind fun s => ?_
  split
  · exact R.report _
  · extract_lets start
    split
    · exact (R.edit h).bind fun _ => R.edit (R.startBlock label)
    · exact R.edit (R.startBlock label)

end EditRules

/-- The steps on functions, for a discipline that does not look into them. -/
structure BodyRules (D : Discipline Lowering) : Prop where
  report : ∀ p, D.Keeps (report p)
  fresh : D.Keeps (ofBuild .fresh)
  function : ∀ g : Option OpenFunction → Option OpenFunction,
    D.Keeps (modify fun s => { s with function := g s.function })
  append : ∀ insts, D.Keeps (ofBuild (modify (·.append insts .functions)))

namespace BodyRules

variable {D : Discipline Lowering} (R : BodyRules D)
include R

theorem editRules : EditRules D fun _ => True where
  report := R.report
  fresh := R.fresh
  edit {g} _ := R.function (·.map g)
  startBlock _ := trivial
  leave := trivial

theorem keeps_setFunction (f : Option OpenFunction) :
    D.Keeps (modify fun s : Lowering => { s with function := f }) := R.function fun _ => f

theorem keeps_takeFunction : D.Keeps takeFunction := fun s => R.keeps_setFunction none s

theorem keeps_closeFunction (f : OpenFunction) : D.Keeps (closeFunction f) := by
  unfold closeFunction
  extract_lets f0 write ended
  have hwrite : ∀ u f, D.Keeps (write u f) := fun _ _ => R.append _
  have hended : ∀ u f, D.Keeps (ended u f) := by
    intro u f
    unfold ended
    split
    · exact hwrite () _
    · exact hwrite () _
  split
  · exact .bind R.fresh fun _ => hended () _
  · exact hended () _

end BodyRules

/-! ## Rules -/

open Spirv.Module

def movesFunction (op : Opcode) : Prop := op = .function ∨ op = .functionEnd

def movesStage (op : Opcode) : Prop := op = .stageBegin ∨ op = .stageEnd

/-- The opcodes whose lowering may change entry points and the variables that they list. -/
def movesInterface (op : Opcode) : Prop :=
  movesStage op ∨ op = .inputVar ∨ op = .outputVar ∨ op = .builtIn ∨ op = .invokePos ∨ op = .invokeSize

/-- The opcodes whose lowering reads a built-in. -/
def movesBuiltIns (op : Opcode) : Prop := op = .builtIn ∨ op = .invokePos ∨ op = .invokeSize

def opens? (inst : Instruction) : Option ShaderStage :=
  if inst.opcode = .stageBegin then ShaderStage.ofCode? inst.operands.fst.toNat else none

/-- A change of the tables that lowering keeps for built-ins and outputs, and of nothing else. -/
def Lowering.Notes (s s' : Lowering) : Prop :=
  ∃ builtIns perVertex fragColor offsetOverflow, s' = { s with builtIns, perVertex, fragColor, offsetOverflow }

/-- Whether the operand at position `i` of a declaration is an id; all others are numbers. -/
def Op.takesId : Op → Nat → Bool
  | .typeVector, i | .typeMatrix, i => i == 0
  | .typePointer, i => i == 1
  | .typeArray, _ | .typeStruct, _ | .typeFunction, _ | .constantComposite, _ => true
  | _, _ => false

def Operand.isKind (isId : Bool) : Operand → Bool
  | .id _ => isId
  | .literal _ => !isId
  | .text _ => false

/-- The operands of a declaration are ids and numbers where its operation takes them. -/
def Op.takes (op : Op) (operands : List Operand) : Bool :=
  operands.zipIdx.all fun (o, i) => o.isKind (op.takesId i)

variable {op : Op}

theorem Op.takes_map_id (h : ∀ i, op.takesId i = true) (ns : List ModuleId) :
    op.takes (ns.map .id) = true := by
  refine List.all_eq_true.mpr fun (o, i) ho => ?_
  obtain ⟨n, -, rfl⟩ := List.mem_map.mp (List.fst_mem_of_mem_zipIdx ho)
  exact h i

theorem Op.takes_map_literal (h : ∀ i, op.takesId i = false) (ws : List UInt32) :
    op.takes (ws.map .literal) = true := by
  refine List.all_eq_true.mpr fun (o, i) ho => ?_
  obtain ⟨w, -, rfl⟩ := List.mem_map.mp (List.fst_mem_of_mem_zipIdx ho)
  exact congrArg Bool.not (h i)

def Op.computes (op : Op) : Bool := decide (op.role = .computation) && op != .functionCall

theorem Op.role_of_computes (h : op.computes = true) : op.role = .computation :=
  of_decide_eq_true (Bool.and_eq_true_iff.mp h).1

/-- The steps on functions.  `Ok` is what is known of an id that was handed out, and `Fn` of a
    function that was taken out of the state. -/
structure FlowRules (D : Discipline Lowering) (Ok : ModuleId → Lowering → Prop)
    (Fn : OpenFunction → Lowering → Prop) (inst : Instruction) : Prop where
  compute : ∀ {source i s}, i.op.computes = true → (∀ n, i.result = some n → Ok n s) → D.Runs (emit source i) s
  call : ∀ {source i s}, inst.opcode = .call → i.op = .functionCall → (∀ n, i.result = some n → Ok n s) →
    D.Runs (emit source i) s
  terminate : ∀ {source i}, i.op.role = .terminator → i.result = none → D.Keeps (terminate source i)
  beginBlock : ∀ {source n s}, Ok n s → D.Runs (beginBlock source n) s
  addLocal : ∀ {i n s}, i.IsLocal → i.fits = true → i.result = some n → Ok n s →
    D.Runs (modifyFunction fun f => { f with locals := f.locals.push i }) s
  addParameter : ∀ {i n s}, inst.opcode = .functionArg → i.op = .functionParameter → i.fits = true →
    i.result = some n → Ok n s → D.Runs (modifyFunction fun f => { f with header := f.header.push i }) s
  openFunction : ∀ {i n s} returnsVoid, inst.opcode = .function → i.op = .function →
    i.fits = true → i.result = some n → Ok n s →
    D.Runs (modify fun s => { s with
      function := some { source := inst.id, returnsVoid, header := #[i] } }) s
  takeFunction : movesFunction inst.opcode → ∀ s, D.Runs takeFunction s fun o s' => ∀ f, o = some f → Fn f s'
  closeFunction : movesFunction inst.opcode → ∀ {f s}, Fn f s → D.Runs (closeFunction f) s
  appendFunction : ∀ {insts : Array Inst} {s}, inst.opcode = .stageEnd → IsFunction insts.toList →
    (∀ i ∈ insts.toList, i.fits = true ∧ ∀ n, i.result = some n → Ok n s) →
    D.Runs (ofBuild (modify (·.append insts .functions))) s

theorem BodyRules.flowRules {D : Discipline Lowering} (R : BodyRules D)
    {Ok : ModuleId → Lowering → Prop} (inst : Instruction) :
    FlowRules D Ok (fun _ _ => True) inst where
  compute _ _ := R.editRules.keeps_emit trivial _ _
  call _ _ _ := R.editRules.keeps_emit trivial _ _
  terminate _ _ := R.editRules.keeps_terminate trivial _
  beginBlock _ := R.editRules.keeps_beginBlock trivial _ _
  addLocal _ _ _ _ := R.editRules.edit trivial _
  addParameter _ _ _ _ _ := R.editRules.edit trivial _
  openFunction _ _ _ _ _ _ := R.keeps_setFunction _ _
  takeFunction _ s := (R.keeps_takeFunction s).mono fun _ _ _ _ _ _ => trivial
  closeFunction _ _ _ _ := R.keeps_closeFunction _ _
  appendFunction _ _ _ := R.append _ _

/-- The capability that a variable marked as a built-in calls for, by the number of the built-in. -/
def builtInCapability? (code : UInt32) : Option Capability :=
  if code = 7 then some .geometry
  else if code = 13 ∨ code = 14 then some .tessellation
  else if code = 18 ∨ code = 19 then some .sampleRateShading
  else none

/-- The capability that an instruction calls for: types of some numbers and marks of some built-ins
    do. -/
def Inst.capability? (i : Inst) : Option Capability :=
  match i.op, i.operands with
  | .typeInt, .literal width :: _ => Build.intCapability? width
  | .typeFloat, .literal width :: _ => Build.floatCapability? width
  | .decorate, [.id _, .literal mark, .literal code] =>
    if mark = Decoration.builtIn.code then builtInCapability? code else none
  | _, _ => none

/-- The steps that make a shared type.  `Ok` is what is known of the id of a type. -/
structure FormRules (D : Discipline Lowering) (Ok : ModuleId → Lowering → Prop := fun _ _ => True) :
    Prop where
  carry : ∀ {n s s'}, D.Grows s s' → Ok n s → Ok n s'
  intType : ∀ width signed s, D.Runs (ofBuild (.intType width signed)) s Ok
  floatType : ∀ width s, D.Runs (ofBuild (.floatType width)) s Ok
  type : ∀ {op operands s}, op.role = .type → Inst.capability? { op, operands } = none →
    op.takes operands = true →
    (∀ n ∈ operandIds operands, Ok n s) → D.Runs (ofBuild (.type op operands)) s Ok
  arrayType : ∀ {element s} length, Ok element s → D.Runs (ofBuild (.arrayType element length)) s Ok

/-- **The steps of lowering `inst`.** -/
structure Rules (asm : Assembler) (D : Discipline Lowering) (Ok : ModuleId → Lowering → Prop)
    (Fn : OpenFunction → Lowering → Prop) (inst : Instruction) :
    Prop extends FlowRules D Ok Fn inst, FormRules D where
  mono : ∀ {n s s'}, D.Grows s s' → Ok n s → Ok n s'
  fnMono : ∀ {f s s'}, D.Grows s s' → Fn f s → Fn f s'
  report : ∀ p, D.Keeps (report p)
  -- Ids
  fresh : ∀ s, D.Runs (ofBuild .fresh) s Ok
  idFor : ∀ id s, D.Runs (idFor id) s Ok
  bindId : ∀ {n s}, Ok n s → D.Runs (bindId inst.id n) s
  setPlace : ∀ p, D.Keeps (setPlace inst.id p)
  addParam : inst.opcode = .functionArg →
    D.Keeps (modify fun s => { s with params := s.params.insert inst.id })
  note : movesInterface inst.opcode → ∀ {f : Lowering → Lowering}, (∀ s, Lowering.Notes s (f s)) →
    D.Keeps (modify f)
  overflow : D.Keeps (modify fun s => { s with offsetOverflow := true })
  setStage : movesStage inst.opcode → ∀ stage, D.Keeps (modify fun s => { s with stage })
  -- Declarations
  lowerType : ∀ id, D.Attempts (lowerType asm id)
  capability : ∀ {c}, movesBuiltIns inst.opcode ∨ (opens? inst).bind (·.capability?) = some c →
    D.Keeps (ofBuild (.requireCapability c))
  extension : ∀ {e}, (opens? inst).bind (·.extension?) = some e → D.Keeps (ofBuild (.requireExtension e))
  newType : ∀ operands, Op.typeStruct.takes operands = true →
    D.Keeps (ofBuild (.newType .typeStruct operands))
  constantIn : ∀ {sec op type operands} s, sec = .types ∨ sec = .constants → sec.admits op = true →
    op.role = .constant → op.takes operands = true →
    D.Runs (ofBuild (.constantIn sec type op operands)) s Ok
  extInstSet : D.Keeps (ofBuild .extInstSet)
  remark : ∀ {sec i}, sec.isRemark = true → sec.admits i.op = true → i.result = none →
    movesBuiltIns inst.opcode ∨ i.capability? = none → D.Keeps (ofBuild (.emit sec i))
  global : ∀ {i n s}, i.op = .variable → i.result = some n → Ok n s →
    D.Runs (ofBuild (.emit .globals i)) s
  block : ∀ id, D.Keeps (ofBuild (modify fun m => { m with blocks := id :: m.blocks }))
  addEntryPoint : movesInterface inst.opcode → ∀ e, D.Keeps (ofBuild (.addEntryPoint e))
  modifyEntryPoint : movesInterface inst.opcode → ∀ i f, D.Keeps (ofBuild (.modifyEntryPoint i f))

/-! ## Steps on the module -/

section

variable {D : Discipline Lowering} {α β : Type} {s : Lowering}

theorem runs_ofBuild_bind {x : Build α} {f : α → Build β} {Q : α → Lowering → Prop}
    {R : β → Lowering → Prop} (hx : D.Runs (ofBuild x) s Q)
    (hf : ∀ a s', D.Grows s s' → Q a s' → D.Runs (ofBuild (f a)) s' R) :
    D.Runs (ofBuild (x >>= f)) s R := hx.bind hf

theorem keeps_ofBuild_bind {x : Build α} {f : α → Build β} (hx : D.Keeps (ofBuild x))
    (hf : ∀ a, D.Keeps (ofBuild (f a))) : D.Keeps (ofBuild (x >>= f)) := hx.bind hf

theorem keeps_ofBuild_pure (a : α) : D.Keeps (ofBuild (pure a)) := .pure a

theorem runs_ofBuild_get_bind {f : Module → Build α} {R : α → Lowering → Prop}
    (hf : D.Runs (ofBuild (f s.module)) s R) : D.Runs (ofBuild (get >>= f)) s R := hf

theorem keeps_ofBuild_get_bind {f : Module → Build α} (hf : ∀ m, D.Keeps (ofBuild (f m))) :
    D.Keeps (ofBuild (get >>= f)) := fun s => runs_ofBuild_get_bind (hf s.module s)

theorem keeps_ofBuild_forM {o : Option α} {f : α → Build Unit}
    (hf : ∀ a, D.Keeps (ofBuild (f a))) : D.Keeps (ofBuild (o.forM f)) := by
  cases o with
  | none => exact .pure ()
  | some a => exact hf a

theorem keeps_ofBuild_type {op : Op} {operands : List Operand}
    (hnew : D.Keeps (ofBuild (.newType op operands)))
    (hnote : ∀ n,
      D.Keeps (ofBuild (modify fun m => { m with typeIds := m.typeIds.insert (op, operands) n }))) :
    D.Keeps (ofBuild (.type op operands)) := by
  refine keeps_ofBuild_get_bind fun m => ?_
  split
  · exact keeps_ofBuild_pure _
  · exact keeps_ofBuild_bind hnew fun n => keeps_ofBuild_bind (hnote n) fun _ => keeps_ofBuild_pure n

theorem keeps_ofBuild_extInstSet (hfresh : D.Keeps (ofBuild .fresh))
    (hemit : ∀ i, i.op = .extInstImport → D.Keeps (ofBuild (.emit .imports i)))
    (hnote : ∀ n, D.Keeps (ofBuild (modify fun m => { m with extInsts := some n }))) :
    D.Keeps (ofBuild .extInstSet) := by
  refine keeps_ofBuild_get_bind fun m => ?_
  split
  · exact keeps_ofBuild_pure _
  · refine keeps_ofBuild_bind hfresh fun n => keeps_ofBuild_bind (hemit _ rfl) fun _ => ?_
    exact keeps_ofBuild_bind (hnote n) fun _ => keeps_ofBuild_pure n

theorem keeps_idFor_of {id : ResultId} (hfresh : D.Keeps (ofBuild .fresh))
    (hbind : ∀ n, D.Keeps (bindId id n)) :
    D.Keeps (idFor id) := by
  refine .get_bind fun s => ?_
  split
  · exact .pure _
  · exact hfresh.bind fun n => (hbind n).bind fun _ => .pure n

theorem FormRules.of_keeps (hcapability : ∀ c, D.Keeps (ofBuild (.requireCapability c)))
    (htype : ∀ {op} operands, op.role = .type → op.takes operands = true →
      D.Keeps (ofBuild (.type op operands)))
    (hlength : ∀ type n, D.Keeps (ofBuild (.constantIn .types type .constant [.literal n]))) :
    FormRules D := by
  have hint : ∀ width signed, D.Keeps (ofBuild (.intType width signed)) := fun _ _ =>
    keeps_ofBuild_bind (keeps_ofBuild_forM hcapability) fun _ => htype _ rfl rfl
  refine ⟨fun _ _ => trivial, hint, fun _ => ?_, fun hrole _ htakes _ => htype _ hrole htakes _, fun _ _ => ?_⟩
  · exact keeps_ofBuild_bind (keeps_ofBuild_forM hcapability) fun _ => htype _ rfl rfl
  · exact keeps_ofBuild_bind (hint 32 false) (fun type =>
      keeps_ofBuild_bind (hlength type _) fun _ => htype _ rfl rfl) _

theorem FormRules.lift {D' : Discipline Lowering} (R : FormRules D)
    (h : ∀ {α : Type} {x : Lower α} {s}, D.Runs x s → D'.Runs x s) : FormRules D' :=
  ⟨fun _ _ => trivial, fun w signed s => h (R.intType w signed s), fun w s => h (R.floatType w s),
    fun hrole hop htakes _ => h (R.type hrole hop htakes fun _ _ => trivial),
    fun length _ => h (R.arrayType length trivial)⟩

theorem tries_onModule_of {b : Build α} {Q : α → Lowering → Prop}
    (h : D.Runs (ofBuild b) s Q) : D.Tries (onModule b) s Q := .lift h

theorem attempts_onModule_of {b : Build α} (h : D.Keeps (ofBuild b)) :
    D.Attempts (onModule b) := .lift h

end

namespace Rules

variable {asm : Assembler} {D : Discipline Lowering} {Ok : ModuleId → Lowering → Prop}
  {Fn : OpenFunction → Lowering → Prop} {inst : Instruction}

theorem attempts_orGiveUp {α : Type} (a : Option α) : D.Attempts (orGiveUp a) :=
  fun _ => Runs.pure fun _ _ => trivial

theorem attempts_giveUp {α : Type} (R : Rules asm D Ok Fn inst) (source : Instruction)
    (message : String) : D.Attempts (giveUp source message : Attempt α) := fun s =>
  (Tries.lift (R.report _ s)).bind fun _ _ _ _ => .failure

theorem fits_variable (pointer id : ModuleId) (storage : StorageClass) (init : Option ModuleId) :
    Inst.fits { op := .variable, resultType := some pointer, result := some id,
                operands := .literal storage.code :: init.toList.map .id } = true := by
  cases init <;> rfl

end Rules

/-! ## Types -/

/-- The steps of lowering a type. -/
structure TypeRules (asm : Assembler) (D : Discipline Lowering)
    (Ok : ModuleId → Lowering → Prop := fun _ _ => True) :
    Prop extends FormRules D Ok where
  known : ∀ {s id n}, D.Inv s → s.typeIds.get? id = some n → Ok n s
  newType : ∀ {operands s}, Op.typeStruct.takes operands = true → (∀ n ∈ operandIds operands, Ok n s) →
    D.Runs (ofBuild (.newType .typeStruct operands)) s Ok
  debug : ∀ {i}, Section.debug.admits i.op = true → i.result = none → D.Keeps (ofBuild (.emit .debug i))
  /-- An id is noted if it is a type and was not known when its lowering began. -/
  note : ∀ {s s' id n}, D.Inv s → s.typeIds.get? id = none → (asm.types.ofId? id).isSome = true → Ok n s' →
    D.Runs (modify fun s => { s with typeIds := s.typeIds.insert id n }) s'

theorem attempt_of_isType (asm : Assembler) (i : Nat) {inst : Instruction}
    (hop : inst.opcode.isType = true) :
    attempt asm i inst = requireType asm inst inst.id >>= fun _ => pure () := by
  unfold attempt
  cases hinst : inst.opcode <;> rw [hinst] at hop <;> first | rfl | cases hop

namespace TypeRules

variable {asm : Assembler} {D : Discipline Lowering} {Ok : ModuleId → Lowering → Prop} (R : TypeRules asm D Ok)
include R

theorem tries_lowerTypeAt (fuel : Nat) (pending : List ResultId) (id : ResultId) (s : Lowering) :
    D.Tries (lowerTypeAt asm fuel pending id) s fun n s' => s'.typeIds.get? id = some n ∧
      Ok n s' := by
  induction fuel generalizing pending id s with
  | zero => exact .failure
  | succ fuel ih =>
    refine .of_inv fun hs => .get_bind ?_
    cases hid : s.typeIds.get? id with
    | some n => exact .pure ⟨hid, R.known hs hid⟩
    | none =>
    cases hdesc : asm.types.ofId? id with
    | none => exact .failure
    | some desc =>
      refine Attempts.tries_bind (Rules.attempts_orGiveUp _) fun desc s1 => ?_
      refine Attempts.tries_bind (fun _ => Tries.of_guard.weaken) fun _ s2 => ?_
      extract_lets lowerId lowerHandle note
      -- Parts are lowered with less fuel, by id or by handle; what was lowered is noted at the end.
      have hpart : ∀ {s} id, D.Tries (lowerId id) s Ok := fun id => (ih _ id _).mono fun _ _ _ h => h.2
      have hhandle : ∀ {s} h, D.Tries (lowerHandle h) s Ok := fun h =>
        (Rules.attempts_orGiveUp _).tries_bind fun id _ => hpart id
      have hnote : ∀ {n s}, Ok n s → D.Tries (note n) s fun n s' => s'.typeIds.get? id = some n ∧ Ok n s' := by
        intro n s hn
        refine .bind (.lift fun hs' => ?_) fun _ _ _ hnoted => .pure hnoted
        obtain ⟨hgrows, hinv, -⟩ := R.note hs hid (by rw [hdesc]; rfl) hn hs'
        exact ⟨hgrows, hinv, Table.get?_insert_self, R.carry hgrows hn⟩
      have hbuild : ∀ {b : Build ModuleId} {s}, D.Runs (ofBuild b) s Ok →
          D.Tries (onModule b >>= note) s fun n s' => s'.typeIds.get? id = some n ∧ Ok n s' := fun hb =>
        (tries_onModule_of hb).bind fun _ _ _ => hnote
      have hone : ∀ {op operands n s}, op.role = .type → Inst.capability? { op, operands } = none →
          op.takes operands = true → operandIds operands = [n] → Ok n s →
            D.Runs (ofBuild (.type op operands)) s Ok :=
        fun hrole hop htakes hids hn => R.type hrole hop htakes (hids ▸ List.forall_mem_singleton.mpr hn)
      split
      iterate 2 exact hbuild (R.type rfl rfl rfl (List.forall_mem_nil _))
      · exact hbuild (R.floatType _ _)
      · exact hbuild (R.intType _ _ _)
      · exact hbuild (R.intType _ _ _)
      · exact (hhandle _).bind fun component _ _ h => hbuild (hone rfl rfl rfl rfl h)
      · refine (hhandle _).bind fun component _ _ h => ?_
        exact (tries_onModule_of (hone rfl rfl rfl rfl h)).bind fun column _ _ h =>
          hbuild (hone rfl rfl rfl rfl h)
      · exact (hhandle _).bind fun element _ _ h => hbuild (R.arrayType _ h)
      · exact (hhandle _).bind fun pointee _ _ h => hbuild (hone rfl rfl rfl rfl h)
      · refine (hhandle _).bind fun a _ _ ha => (hhandle _).bind fun b _ hgrows hb =>
          hbuild (R.type rfl rfl rfl ?_)
        exact List.forall_mem_cons.mpr ⟨R.carry hgrows ha, List.forall_mem_singleton.mpr hb⟩
      · refine (Rules.attempts_orGiveUp _).tries_bind fun layout _ => ?_
        refine (Tries.mapM (Q := Ok) (fun m _ _ => hpart m.2) fun _ _ _ =>
          R.carry).bind fun members _ _ hmembers => ?_
        -- A struct is not shared, and its names are remarks.
        refine (tries_onModule_of (R.newType (Op.takes_map_id (fun _ => rfl) _) ?_)).bind fun n s4 _ hn => ?_
        · rw [operandIds_map_id]
          exact hmembers
        · refine (attempts_onModule_of (R.debug rfl rfl) _).bind fun _ s5 h5 _ => ?_
          refine (Attempts.forM (fun e => attempts_onModule_of (R.debug rfl rfl)) _).bind fun _ s6 h6 _ => ?_
          exact .pure_bind (hnote (R.carry h6 (R.carry h5 hn)))

theorem attempts_lowerTypeAt (fuel : Nat) (pending : List ResultId) (id : ResultId) :
    D.Attempts (lowerTypeAt asm fuel pending id) := fun s =>
  (R.tries_lowerTypeAt fuel pending id s).weaken

theorem runs_requireType (hreport : ∀ p, D.Keeps (report p)) (inst : Instruction) (id : ResultId)
    (s : Lowering) : D.Runs (requireType asm inst id).run s fun a s' =>
      match a with
      | none => s'.problems ≠ #[]
      | some n => s'.typeIds.get? id = some n := by
  unfold requireType
  rw [OptionT.run_orElse, Option.elimM]
  refine .bind (R.tries_lowerTypeAt _ [] id s) fun a s1 _ hnoted => ?_
  cases a with
  | some n => exact .pure (hnoted n rfl).1
  | none =>
    intro hs
    obtain ⟨hgrows, hinv, -⟩ := hreport _ s1 hs
    exact ⟨hgrows, hinv, Array.push_ne_empty⟩

end TypeRules

end ShaderIR.Spirv
