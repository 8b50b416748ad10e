import ShaderIR.Spirv.Lowering.Basic

/-!
Lowering of shader stages. A stage becomes an entry point, in most graphics stages a function `main`
that calls the entry function of the stage.
-/

namespace ShaderIR.Spirv

variable [WordLimit]
variable (asm : Assembler)

def isInterfaceVar (inst : Instruction) : Bool :=
  inst.opcode == .inputVar || inst.opcode == .outputVar

/-- The ids of the interface variables declared from position `k` on up to the end of the stage. -/
def interfaceFrom (k : Nat) : List ResultId :=
  (((asm.code.toList.drop k).takeWhile (·.opcode != .stageEnd)).filter isInterfaceVar).map (·.id)

/-- The interface variables of the stage that begins at position `i`. -/
def stageInterface (i : Nat) : List ResultId := interfaceFrom asm (i + 1)

def beginStage (i : Nat) (inst : Instruction) : Attempt Unit := do
  let code := inst.operands.fst
  match ShaderStage.ofCode? code.toNat with
  | none => problem inst ("unknown shader stage " ++ toString code.toNat)
  | some stage =>
    if let some outer := (← get).stage then
      problem inst (outer.stage.name ++ " stage is still open")
    stage.capability?.forM fun c => onModule (.requireCapability c)
    stage.extension?.forM fun e => onModule (.requireExtension e)
    let vars := stageInterface asm i
    if vars.length != inst.operands.snd.toNat then
      problem inst
        ("declares " ++ toString inst.operands.snd.toNat ++ " inputs and outputs, found "
          ++ toString vars.length)
    let interface ← vars.mapM fun id => idFor id
    let entry ← onModule (.addEntryPoint { model := stage.executionModel, interface })
    modify fun s => { s with stage := some { stage, entry } }

def isVec4 (id : ResultId) : Bool :=
  match asm.types.ofId? id with
  | some (.vector inner lanes) => lanes == 4 && asm.types.desc? inner == some (.float 32)
  | _ => false

def returnsSomething (id : ResultId) : Bool :=
  match asm.types.ofId? id with
  | none | some .void => false
  | _ => true

def storeResult (inst : Instruction) (stage : ShaderStage) (type result : ModuleId) :
    Lower (Array Inst) := do
  match stage with
  | .vertex =>
    let block ← perVertexBlock
    let first ← onModule (.word true 0)
    let pointer ← onModule (.pointerType .output type)
    let position ← onModule .fresh
    return #[
      { op := .accessChain, resultType := some pointer, result := some position,
        operands := [.id block, .id first] },
      { op := .store, operands := [.id position, .id result] }]
  | .fragment =>
    let color ← fragColorOutput type
    return #[{ op := .store, operands := [.id color, .id result] }]
  | _ =>
    problem inst (stage.name ++ " entry points cannot return a value")
    return #[]

def wrapEntry (inst : Instruction) (stage : ShaderStage) (target : ModuleId) :
    Lower ModuleId := do
  let resultType := ((asm.definingInstruction? inst.refs.fst).map (·.refs.fst)).getD .void
  let returns := returnsSomething asm resultType
  let void ← onModule .voidType
  let type ←
    if returns then (·.getD void) <$> (lowerType asm resultType).run else pure void
  let functionType ← onModule (.functionType void [])
  let main ← onModule .fresh
  let label ← onModule .fresh
  let result ← onModule .fresh
  let stores ←
    if !returns then pure #[]
    else if isVec4 asm resultType then storeResult inst stage type result
    else do
      problem inst (stage.name ++ " entry points must return vec4<f32>")
      pure #[]
  let insts : Array Inst :=
    #[{ op := .function, resultType := some void, result := some main,
        operands := [.literal functionControlNone, .id functionType] },
      { op := .label, result := some label },
      { op := .functionCall, resultType := some type, result := some result,
        operands := [.id target] }]
    ++ stores
    ++ #[{ op := .ret }, { op := .functionEnd }]
  onModule (modify (·.append insts .functions))
  onModule (.name main "main")
  return main

def endStage (inst : Instruction) : Attempt Unit := do
  match (← get).stage with
  | none => problem inst "no shader stage is open"
  | some { stage, entry } =>
    let target ← idFor inst.refs.fst
    let function ← if stage.wrapsEntry then wrapEntry asm inst stage target else pure target
    if stage.hasLocalSize then
      onModule (.executionMode function .localSize (inst.operands.toList.map fun n => max n 1))
    else if stage = .fragment then
      onModule (.executionMode function .originUpperLeft [])
    onModule (.modifyEntryPoint entry fun e => { e with function })
    modify fun s => { s with stage := none }

end ShaderIR.Spirv
