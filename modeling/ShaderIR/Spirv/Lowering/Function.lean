import ShaderIR.Spirv.Lowering.Basic

/-!
Lowering of functions, variables, calls and control flow.
-/

namespace ShaderIR.Spirv

variable [WordLimit]
variable (asm : Assembler) (inst : Instruction)

/-! ## Functions -/

def beginFunction (i : Nat) (inst : Instruction) : Attempt Unit := do
  if let some outer ← OptionT.lift takeFunction then
    problem inst (outer.source.text ++ " is still open")
    closeFunction outer
  let void ← onModule .voidType
  let result : ModuleId ← requireType asm inst inst.refs.fst <|> pure void
  let count := inst.operands.fst.toNat
  let args := asm.trailersAfter i .functionArg count
  if args.length != count then
    problem inst
      ("declares " ++ toString count ++ " parameters, found " ++ toString args.length)
  let lowered : List (Option ModuleId) ←
    args.mapM fun arg => (some <$> requireType asm arg arg.refs.fst) <|> pure none
  let type ← onModule (.functionType result (lowered.filterMap id))
  let function ← idFor inst.id
  let header : Inst :=
    { op := .function, resultType := some result, result := some function,
      operands := [.literal functionControlNone, .id type] }
  modify fun s =>
    { s with
      function := some
        { source := inst.id, returnsVoid := result == void, header := #[header] } }

def parameter : Attempt Unit := do
  let type ← lowerType asm inst.refs.fst
  let param ← idFor inst.id
  modify fun s => { s with params := s.params.insert inst.id }
  let isOpen := match (← get).function with
    | some f => f.body.isEmpty
    | none => false
  if isOpen then
    modifyFunction fun f =>
      { f with
        header := f.header.push
          { op := .functionParameter, resultType := some type, result := some param } }
  else problem inst "parameters must directly follow their function"

def endFunction : Attempt Unit := do
  match ← OptionT.lift takeFunction with
  | none => problem inst "no function is open"
  | some f =>
    if f.source != inst.refs.fst then
      problem inst ("closes " ++ inst.refs.fst.text ++ " but " ++ f.source.text ++ " is open")
    closeFunction f

def call (i : Nat) (inst : Instruction) : Attempt Unit := do
  let count := inst.operands.fst.toNat
  let args := asm.trailersAfter i .callArg count
  if args.length != count then
    problem inst ("passes " ++ toString count ++ " arguments, found " ++ toString args.length)
  let type ← requireType asm inst inst.resultType
  let callee ← idFor inst.refs.fst
  let result ← idFor inst.id
  let values ← args.mapM fun arg => value asm arg arg.refs.fst
  emitAnd inst
    { op := .functionCall, resultType := some type, result := some result,
      operands := .id callee :: values.map .id }

/-! ## Variables -/

/-- A variable of the open function, or one that its workgroup shares. -/
def localVariable : Attempt Unit := do
  let pointee ← requireType asm inst inst.refs.fst
  let shared := (Modifiers.ofBits inst.operands.fst).contains .isShared
  let storage : StorageClass := if shared then .workgroup else .function
  let source := inst.refs.snd
  let init : Option ModuleId ←
    if source.isVoid then pure none else some <$> OptionT.lift (value asm inst source)
  let m := (← get).module
  let constant := init.filter fun v => !shared && m.isConstant v
  let var ← idFor inst.id
  let place ← declareVariable inst var storage pointee constant
  setPlace inst.id place
  match init, constant with
  | some v, none => store inst var v
  | _, _ => pure ()

def globalVariable : Attempt Unit := do
  let pointee ← requireType asm inst inst.refs.fst
  let source := inst.refs.snd
  let init : Option ModuleId ←
    if source.isVoid then pure none
    else do
      let v ← value asm inst source
      if (← get).module.isConstant v then pure (some v)
      else
        problem inst "global initializers must be constant"
        pure none
  let var ← idFor inst.id
  let place ← declareVariable inst var .invocation pointee init
  setPlace inst.id place

def interfaceVariable : Attempt Unit := do
  let pointee ← requireType asm inst inst.refs.fst
  let storage : StorageClass := if inst.opcode = .inputVar then .input else .output
  let var ← idFor inst.id
  let place ← declareVariable inst var storage pointee none
  onModule (.decorate var .location [inst.operands.fst])
  setPlace inst.id place
  addInterface var

/-! ## Descriptors -/

def memberExtent (types : TypeRegistry) (id : ResultId) : Nat × Nat :=
  (max ((types.bitAlign? id).getD 8 / 8) 1, (types.bitWidth? id).getD 0 / 8)

/-- The least multiple of `align` that is not below `n`. -/
def alignUp (n align : Nat) : Nat := if n % align = 0 then n else n + (align - n % align)

/-- Byte offsets of members laid out one after the other, if all of them fit into a word. -/
def memberOffsets? : List (Nat × Nat) → Nat → Option (List Nat)
  | [], _ => some []
  | (align, size) :: rest, offset =>
    let start := alignUp offset align
    if start + size < 2 ^ 32 then (memberOffsets? rest (start + size)).map (start :: ·) else none

/-- A struct that is bound to the shader from outside. -/
def descriptor : Attempt Unit := do
  let type := inst.refs.fst
  let pointee ← requireType asm inst type
  match asm.types.layoutOf? type with
  | none => problem inst "descriptors must have a struct type"
  | some layout =>
    match memberOffsets? (layout.members.map fun m => memberExtent asm.types m.2) 0 with
    | none => modify fun s => { s with offsetOverflow := true }
    | some offsets =>
      onModule (.markBlock pointee)
      offsets.zipIdx.forM fun (offset, i) =>
        onModule (.memberDecorate pointee i.toUInt32 .offset [offset.toUInt32])
  let var ← idFor inst.id
  let place ← declareVariable inst var .uniform pointee none
  onModule (.decorate var .descriptorSet [inst.operands.fst])
  onModule (.decorate var .binding [inst.operands.snd])
  setPlace inst.id place

/-! ## Control flow -/

def label : Attempt Unit := do beginBlock inst (← idFor inst.id)

def jump : Attempt Unit := do
  let target ← idFor inst.refs.fst
  terminate inst { op := .branch, operands := [.id target] }

def branch : Attempt Unit := do
  let condition ← value asm inst inst.refs.fst
  let onTrue ← idFor inst.refs.snd
  let onFalse ← idFor inst.refs.thd
  terminate inst { op := .branchConditional, operands := [.id condition, .id onTrue, .id onFalse] }

def loopMerge : Attempt Unit := do
  let merge ← idFor inst.refs.fst
  let continueTarget ← idFor inst.refs.snd
  emitAnd inst
    { op := .loopMerge, operands := [.id merge, .id continueTarget, .literal loopControlNone] }

def returnVoid : Attempt Unit := terminate inst { op := .ret }

def returnValue : Attempt Unit := do
  let v ← value asm inst inst.refs.fst
  terminate inst { op := .retValue, operands := [.id v] }

def discard : Attempt Unit := terminate inst { op := .kill }

end ShaderIR.Spirv
