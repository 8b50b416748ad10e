import Mathlib.Data.List.Nodup
import ShaderIR.Proofs.Assembler.Histories

/-!
# Chains of conversions

Whatever is widened, cast to an integer or made by a call has the wanted type at once, and only a
truth value on its way to a float passes through an integer; so a chain ends **after two steps at
most**.  A conversion that is refused at once leaves everything as it was; one that fails later
leaves the step that it took.
-/

namespace ShaderIR

open Operation (runAll)

variable {d : TypeDesc} {w : UInt32}

def TypeDesc.isUnsigned : TypeDesc → Bool
  | .uint _ => true
  | _ => false

/-- Whether the operator takes no operand of the type `d`, whatever it is to become. -/
def Operator.refuses (op : Operator) (d : TypeDesc) : Bool :=
  op = .append && (d.isInt || d.isFloat) || (op = .neg || op = .abs) && d.isUnsigned

theorem TypeDesc.exists_float (h : d.isFloat = true) : ∃ w, d = .float w := by
  cases d with
  | float w => exact ⟨w, rfl⟩
  | _ => cases h

namespace Assembler

variable {asm mid : Assembler} {target : ResultId} {value : TypedValue} {op : Operator} {want : TypeDesc}

/-! ## The rules -/

/-- A value fits without having the wanted type itself: it has the same scalar type under another
id, or is a truth value that a logical operator takes. -/
def Fits (asm : Assembler) (target : ResultId) (value : TypedValue) (op : Operator) : Prop :=
  (∃ d, d.isScalar = true ∧ asm.types.ofId? value.type = some d ∧ asm.types.ofId? target = some d) ∨
    asm.types.ofId? value.type = some .bool ∧ op.isLogical = true

def Applies (asm : Assembler) (target : ResultId) (value : TypedValue) (op : Operator) :
    ConversionStep → Prop
  | .compatible => value.type = target ∨ asm.Fits target value op
  | .widen => ∃ want, asm.types.ofId? target = some want
  | .bitcastToInt => ∃ want, asm.types.ofId? value.type = some .bool ∧ asm.types.ofId? target = some want ∧
    (want.isInt = true ∨ want.isFloat = true)
  | .intToFloat => ∃ given want, asm.types.ofId? value.type = some given ∧ asm.types.ofId? target = some want ∧
    given.isInt = true ∧ (want.isFloat = true ∨ op = .div)
  | .methodCall => ∃ want function, asm.types.ofId? target = some want ∧
    (asm.types.layoutOf? value.type).bind (·.conversion? target) = some function
  | .incompatible => True

theorem applies_conversionStep (asm : Assembler) (target : ResultId) (value : TypedValue)
    (op : Operator) :
    asm.Applies target value op (asm.conversionStep target value op) := by
  have hwidths : ∀ {a b : UInt32} (d : UInt32 → TypeDesc), (d a).isScalar = true →
      asm.types.ofId? target = some (d b) → asm.types.ofId? value.type = some (d a) →
      asm.Applies target value op (.ofWidths a b) := by
    intro a b d hd hwant hgiven
    unfold ConversionStep.ofWidths
    split
    next heq => exact .inr (.inl ⟨d a, hd, hgiven, heq ▸ hwant⟩)
    split
    · exact ⟨d b, hwant⟩
    · trivial
  unfold conversionStep
  split
  next want given hwant hgiven =>
    split
    · trivial
    change asm.Applies target value op (if ((op = .neg || op = .abs) && given.isUnsigned) = true then _ else _)
    split
    · trivial
    split
    next heq => exact .inl heq
    split
    · exact hwidths .float rfl hwant hgiven
    · exact hwidths .sint rfl hwant hgiven
    · exact hwidths .uint rfl hwant hgiven
    split
    next hint =>
      simp only [Bool.and_eq_true, Bool.or_eq_true, decide_eq_true_eq] at hint
      exact ⟨given, want, hgiven, hwant, hint⟩
    split
    next hbool =>
      simp only [Bool.and_eq_true, Bool.or_eq_true, decide_eq_true_eq] at hbool
      exact ⟨want, hbool.1 ▸ hgiven, hwant, hbool.2⟩
    split
    next hlogic =>
      simp only [Bool.and_eq_true, decide_eq_true_eq] at hlogic
      exact .inr (.inr ⟨hlogic.1 ▸ hgiven, hlogic.2⟩)
    split
    · split
      next hcall =>
        obtain ⟨function, hfunction⟩ := Option.isSome_iff_exists.mp hcall
        exact ⟨want, function, hwant, by rw [TypeRegistry.layoutOf?_of_ofId? hgiven]; exact hfunction⟩
      · trivial
    · trivial
  · trivial

theorem conversionStep_self (op : Operator) (hwant : asm.types.ofId? target = some want)
    (htype : value.type = target) :
    asm.conversionStep target value op =
      if op.refuses want then .incompatible else .compatible := by
  rw [conversionStep, htype, hwant, Operator.refuses]
  change (if _ then _ else if ((op = Operator.neg || op = Operator.abs) && want.isUnsigned) = true then _ else _) = _
  rw [if_pos rfl]
  cases op = .append && (want.isInt || want.isFloat) <;> rfl

theorem conversionStep_sint (op : Operator) {v : UInt32}
    (hwant : asm.types.ofId? target = some (.float v))
    (hgiven : asm.types.ofId? value.type = some (.sint w)) :
    asm.conversionStep target value op =
      if op.refuses (.float v) then .incompatible else .intToFloat := by
  have hne : value.type ≠ target := fun heq => by rw [heq, hwant] at hgiven; cases hgiven
  rw [conversionStep, hwant, hgiven]
  dsimp only
  rw [if_neg hne]
  cases op <;> rfl

theorem conversionStep_float (hwant : asm.types.ofId? target = some want)
    (hfloat : want.isFloat = false) (hgiven : asm.types.ofId? value.type = some (.float w)) :
    asm.conversionStep target value op = .incompatible := by
  have hne : value.type ≠ target := by
    intro heq
    rw [heq, hwant] at hgiven
    cases hgiven
    cases hfloat
  rw [conversionStep, hwant, hgiven]
  dsimp only
  rw [if_neg hne]
  cases want with
  | float => cases hfloat
  | _ => cases op <;> rfl

/-! ## One step -/

/-- The instructions that make `result` of `value`. -/
inductive Makes (value result : TypedValue) : List Instruction → Prop
  | convert {opcode : Opcode} (hop : opcode ∈ [.expand, .cast, .intToFloat]) : Makes value result
      [{ opcode, id := result.value, refs := ⟨value.value, .void, .void⟩, resultType := result.type }]
  | call (function : ResultId) : Makes value result
      [{ opcode := .call, id := result.value, operands := ⟨1, 0, 0⟩, refs := ⟨function, .void, .void⟩,
         resultType := result.type },
       { opcode := .callArg, refs := ⟨value.value, .void, .void⟩ }]

/-- `Chain value insts n result`: by `insts`, which declare types and convert `n` times, each time
what came out before, `result` is made of `value`. -/
inductive Chain : TypedValue → List Instruction → Nat → TypedValue → Prop
  | nil {value : TypedValue} : Chain value [] 0 value
  | cons {value mid result : TypedValue} {types insts rest : List Instruction} {n : Nat}
    (htypes : ∀ x ∈ types, x.opcode.isType = true) (hmakes : Makes value mid insts)
    (hrest : Chain mid rest n result) : Chain value (types ++ (insts ++ rest)) (n + 1) result

structure Declaring (asm mid : Assembler) (types : List Instruction) : Prop where
  code : mid.code.toList = asm.code.toList ++ types
  types : ∀ x ∈ types, x.opcode.isType = true

theorem Declaring.refl : Declaring asm asm [] := ⟨(List.append_nil _).symm, nofun⟩

theorem exists_pushType (h : asm.Registered) (inst : Instruction) (hid : inst.id.isVoid = true)
    (hd : asm.describe inst = .ok d) :
    ∃ type mid types, asm.pushType inst = .ok (type, mid) ∧ Declaring asm mid types ∧
      (∀ {id d'}, id.index < asm.ids.size ∨ type ≠ id → asm.types.ofId? id = some d' →
        mid.types.ofId? id = some d') ∧
          ((∀ id, asm.typeCount id ≤ 1) → mid.types.ofId? type = some d) := by
  rw [pushType_eq hid hd]
  cases hknown : asm.types.declared? d with
  | some type =>
    refine ⟨type, asm, [], rfl, .refl, fun _ hid => hid, fun honce => ?_⟩
    obtain ⟨k, hk, hidOf⟩ := TypeRegistry.declared?_eq_some hknown
    have hhandle := h.canonical _ (Table.mem_of_get? hidOf) (honce type)
    exact (TypeRegistry.ofId?_of_handle? hhandle).trans hk
  | none =>
    refine ⟨_, _, _, rfl, ⟨(congrArg Array.toList (code_pushNew asm inst)).trans Array.toList_push,
      fun x hx => ?_⟩,
      fun {id d'} hne hold => ?_, fun _ => (TypeRegistry.declares_declare asm.types _ d).ofId?_self⟩
    · rw [List.mem_singleton.mp hx]
      exact isType_of_describe hd
    · replace hne : ⟨asm.ids.size⟩ ≠ id := hne.elim (fun hlt heq => Nat.lt_irrefl _ (heq ▸ hlt)) fun hne => hne
      obtain ⟨k, hk, hdesc⟩ := Option.bind_eq_some_iff.mp hold
      have hhandle := (TypeRegistry.declares_declare asm.types ⟨asm.ids.size⟩ d).handle id
      rw [if_neg hne, hk] at hhandle
      exact (TypeRegistry.ofId?_of_handle? hhandle).trans (TypeRegistry.desc?_intern_of_desc? hdesc d)

theorem isWidth_of_isWidth :
    (isWidth minFloatBits maxFloatBits w = true → isWidth minIntBits maxIntBits w = true) ∧
    (isWidth minIntBits maxIntBits w = true →
      isWidth minFloatBits maxFloatBits (min (max w minFloatBits) maxFloatBits) = true) := by
  have hsmall : ∀ k : Fin 65,
      (isWidth minFloatBits maxFloatBits (.ofNat k) = true → isWidth minIntBits maxIntBits (.ofNat k) = true) ∧
      (isWidth minIntBits maxIntBits (.ofNat k) = true →
        isWidth minFloatBits maxFloatBits (min (max (.ofNat k) minFloatBits) maxFloatBits) = true) := by
    decide +kernel
  by_cases hw : w ≤ 64
  · have hk := hsmall ⟨w.toNat, Nat.lt_succ_of_le (UInt32.le_iff_toNat_le.mp hw)⟩
    rwa [UInt32.ofNat_toNat] at hk
  · simp [isWidth, maxFloatBits, maxIntBits, hw]

/-- Where the first step of a conversion leads: to the wanted type, from a truth value to an
integer, or away from what is wanted. -/
inductive Lands (types : TypeRegistry) (target type : ResultId) : Prop
  | target {d : TypeDesc} (htype : type = target) (hd : types.ofId? target = some d)
  | sint {v w : UInt32} (hd : types.ofId? target = some (.float v)) (htype : types.ofId? type = some (.sint w))
  | float {want : TypeDesc} {w : UInt32} (hd : types.ofId? target = some want) (hwant : want.isFloat = false)
    (htype : types.ofId? type = some (.float w))

theorem types_pushConversion (asm : Assembler) (opcode : Opcode) (value : TypedValue)
    (type : ResultId) :
    (asm.pushConversion opcode value type).2.types = asm.types := types_push _ _

theorem code_pushConversion (asm : Assembler) (opcode : Opcode)
    (hop : opcode ∈ [.expand, .cast, .intToFloat]) (value : TypedValue) (type : ResultId) :
    ∃ insts, (asm.pushConversion opcode value type).2.code.toList = asm.code.toList ++ insts ∧
      Makes value (asm.pushConversion opcode value type).1 insts :=
  ⟨_, (congrArg Array.toList (code_pushNew asm _)).trans Array.toList_push, .convert hop⟩

theorem describe_number {kind : NumericKind} {min max : UInt32} (hw : isWidth min max w = true) :
    (do checkWidth kind min max w; return d) = .ok d := by
  rw [checkWidth, if_pos hw]
  rfl

theorem exists_pushFloat (op : Operator) (h : asm.Registered) {given : TypeDesc}
    (hgiven : asm.types.ofId? value.type = some given) (hint : given.isInt = true)
    (hwant : asm.types.ofId? target = some want) (hfloat : want.isFloat = false) :
    ∃ w type mid types, asm.takeStep target value op .intToFloat =
        .ok (some (mid.pushConversion .intToFloat value type)) ∧ Declaring asm mid types ∧
      (∀ {id d}, id.index < asm.ids.size ∨ type ≠ id → asm.types.ofId? id = some d →
        mid.types.ofId? id = some d) ∧
      ((∀ id, asm.typeCount id ≤ 1) → mid.types.ofId? type = some (.float w)) := by
  obtain ⟨w, hw, hscalar⟩ : ∃ w, isWidth minIntBits maxIntBits w = true ∧ given.scalarWidth? = some w := by
    obtain ⟨k, -, hk⟩ := Option.bind_eq_some_iff.mp hgiven
    have hvalid := h.sized k _ hk
    cases given with
    | sint w | uint w => exact ⟨w, hvalid, rfl⟩
    | _ => cases hint
  obtain ⟨type, mid, types, heq, hcode, hother, hself⟩ :=
    exists_pushType h { opcode := .floatType, operands := ⟨min (max w minFloatBits) maxFloatBits, 0, 0⟩ } rfl
      (describe_number (isWidth_of_isWidth.2 hw))
  replace heq : asm.pushFloat (min (max w minFloatBits) maxFloatBits) = .ok (type, mid) := heq
  refine ⟨_, type, mid, types, ?_, hcode, hother, hself⟩
  rw [takeStep, intToFloatTarget, hwant, Option.any_some, hfloat, hgiven, Option.bind_some, hscalar,
    Option.getD_some, if_neg Bool.false_ne_true, heq]
  rfl

/-- **A step by one instruction** is taken, and what it leads to is known if no id is declared as a
    type twice. -/
theorem exists_pushConversion (h : asm.Registered) {step : ConversionStep}
    (hstep : step ∈ [.widen, .bitcastToInt, .intToFloat])
    (happlies : asm.Applies target value op step) :
    ∃ opcode ∈ [Opcode.expand, .cast, .intToFloat], ∃ type mid types,
      asm.takeStep target value op step = .ok (some (mid.pushConversion opcode value type)) ∧
      Declaring asm mid types ∧ ((∀ id, asm.typeCount id ≤ 1) → Lands mid.types target type) := by
  cases step with
  | compatible | incompatible | methodCall => simp at hstep
  | widen =>
    obtain ⟨want, hwant⟩ := happlies
    exact ⟨.expand, by decide, target, asm, [], rfl, .refl, fun _ => .target rfl hwant⟩
  | bitcastToInt =>
    obtain ⟨want, -, hwant, hnumber⟩ := happlies
    rw [takeStep, bitcastTarget, hwant]
    cases hint : want.isInt with
    | true =>
      dsimp only
      rw [if_pos hint]
      exact ⟨.cast, by decide, target, asm, [], rfl, .refl, fun _ => .target rfl hwant⟩
    | false =>
      obtain ⟨v, rfl⟩ := TypeDesc.exists_float (hnumber.resolve_left (by rw [hint]; exact Bool.false_ne_true))
      obtain ⟨k, -, hk⟩ := Option.bind_eq_some_iff.mp hwant
      obtain ⟨type, mid, types, heq, hcode, hother, hself⟩ :=
        exists_pushType h { opcode := .sintType, operands := ⟨v, 0, 0⟩ } rfl
          (describe_number (isWidth_of_isWidth.1 (h.sized k _ hk)))
      replace heq : asm.pushInt true ((TypeDesc.float v).scalarWidth?.getD 32) = .ok (type, mid) := heq
      refine ⟨.cast, by decide, type, mid, types, ?_, hcode, fun honce => ?_⟩
      · dsimp only
        rw [hint, if_neg Bool.false_ne_true, heq]
        rfl
      · by_cases htarget : type = target
        · exact .target htarget (htarget ▸ hself honce)
        · exact .sint (hother (.inr htarget) hwant) (hself honce)
  | intToFloat =>
    obtain ⟨given, want, hgiven, hwant, hint, -⟩ := happlies
    cases hfloat : want.isFloat with
    | true =>
      rw [takeStep, intToFloatTarget, hwant, Option.any_some, hfloat]
      exact ⟨.intToFloat, by decide, target, asm, [], rfl, .refl, fun _ => .target rfl hwant⟩
    | false =>
      obtain ⟨w, type, mid, types, htake, hcode, hother, hself⟩ := exists_pushFloat op h hgiven hint hwant hfloat
      refine ⟨.intToFloat, by decide, type, mid, types, htake, hcode, fun honce => ?_⟩
      by_cases htarget : type = target
      · exact .target htarget (htarget ▸ hself honce)
      · exact .float (hother (.inr htarget) hwant) hfloat (hself honce)

theorem exists_takeStep (h : asm.Registered)
    (hcompatible : asm.conversionStep target value op ≠ .compatible)
    (hincompatible : asm.conversionStep target value op ≠ .incompatible) : ∃ result mid types insts,
      asm.takeStep target value op (asm.conversionStep target value op) = .ok (some (result, mid)) ∧
      mid.code.toList = asm.code.toList ++ (types ++ insts) ∧
      (∀ x ∈ types, x.opcode.isType = true) ∧ Makes value result insts ∧
      ((∀ id, asm.typeCount id ≤ 1) → Lands mid.types target result.type) := by
  have happlies := applies_conversionStep asm target value op
  by_cases hcall : asm.conversionStep target value op = .methodCall
  · rw [hcall] at happlies ⊢
    obtain ⟨want, function, hwant, hfunction⟩ := happlies
    let call : Instruction :=
      { opcode := .call, operands := ⟨1, 0, 0⟩, refs := ⟨function, .void, .void⟩, resultType := target }
    let argument : Instruction := { opcode := .callArg, refs := ⟨value.value, .void, .void⟩ }
    have htypes : ((asm.pushNew call).2.push argument).types = asm.types := (types_push _ _).trans (types_push _ _)
    refine ⟨⟨target, (asm.pushNew call).1⟩, _, [], _, ?_, ?_, nofun, .call function, fun _ =>
      .target rfl (htypes ▸ hwant)⟩
    · rw [takeStep, pushConversionCall, hfunction]
      rfl
    · rw [code_push, Array.toList_push, code_pushNew, Array.toList_push, List.append_assoc]
      rfl
  · obtain ⟨opcode, hop, type, mid, types, htake, hdeclaring, hlands⟩ := exists_pushConversion h
      (by cases hs : asm.conversionStep target value op <;> simp_all) happlies
    obtain ⟨insts, hinsts, hmakes⟩ := code_pushConversion mid _ hop value type
    let made := mid.pushConversion opcode value type
    refine ⟨made.1, made.2, types, insts, htake, ?_, hdeclaring.types, hmakes, ?_⟩
    · rw [hinsts, hdeclaring.code, List.append_assoc]
    · rw [types_pushConversion]
      exact hlands

/-! ## Whole chains -/

variable {source : ResultId}

theorem convertSteps_of_takeStep {result : TypedValue}
    (h : asm.takeStep target value op (asm.conversionStep target value op) =
      .ok (some (result, mid))) (n : Nat) :
    convertSteps source target op (n + 1) asm value =
      convertSteps source target op n mid result := by
  rw [convertSteps, h]

theorem convertSteps_of_compatible (h : asm.conversionStep target value op = .compatible)
    (n : Nat) :
    convertSteps source target op (n + 1) asm value = (.ok value, asm) := by
  rw [convertSteps, h]
  rfl

theorem convertSteps_of_incompatible (h : asm.conversionStep target value op = .incompatible)
    (n : Nat) : convertSteps source target op (n + 1) asm value =
      (.error (.incompatibleTypes value.type target op), asm) := by
  rw [convertSteps, h]
  rfl

def declaredTypes (asm : Assembler) : List ResultId := (asm.code.toList.filter (·.opcode.isType)).map (·.id)

theorem typeCount_le_one (h : asm.declaredTypes.Nodup) (id : ResultId) : asm.typeCount id ≤ 1 := by
  have hcount := List.nodup_iff_count_le_one.mp h id
  rw [declaredTypes, List.count, List.countP_map, List.countP_filter] at hcount
  simpa only [typeCount, Bool.and_comm, Function.comp_apply, beq_eq_decide] using hcount

/-- **Conversions end with the right type.**  If no id is declared as a type twice, a conversion
    takes two steps at most; it gives a value of the wanted type, or the given one if that fits, and
    its only error is that the types are incompatible. -/
theorem convert_chain (h : Reached (fun _ => True) asm) (honce : asm.declaredTypes.Nodup)
    (target : ResultId) (value : TypedValue) (op : Operator) :
    ∃ insts n last, (asm.convert target value op).2.code.toList = asm.code.toList ++ insts ∧
      Chain value insts n last ∧ n ≤ 2 ∧ ((asm.convert target value op).1 = .ok last ∧
          (last.type = target ∨ last = value ∧ asm.Fits target value op) ∨
        (asm.convert target value op).1 = .error (.incompatibleTypes last.type target op)) := by
  rw [convert, maxConversionSteps]
  by_cases hc : asm.conversionStep target value op = .compatible
  · rw [convertSteps_of_compatible hc]
    refine ⟨[], 0, value, (List.append_nil _).symm, .nil, Nat.zero_le _, .inl ⟨rfl, ?_⟩⟩
    have hfits : asm.Applies target value op .compatible := hc ▸ applies_conversionStep asm target value op
    exact hfits.imp_right fun hfits => ⟨rfl, hfits⟩
  by_cases hi : asm.conversionStep target value op = .incompatible
  · rw [convertSteps_of_incompatible hi]
    exact ⟨[], 0, value, (List.append_nil _).symm, .nil, Nat.zero_le _, .inr rfl⟩
  obtain ⟨result, mid, types, insts, hstep, hcode, htypes, hmakes, hlands⟩ := exists_takeStep h.registered hc hi
  have hone : mid.code.toList = asm.code.toList ++ (types ++ (insts ++ [])) := by rw [List.append_nil, hcode]
  have hchain : Chain value (types ++ (insts ++ [])) 1 result := .cons htypes hmakes .nil
  rw [convertSteps_of_takeStep hstep]
  cases hlands (typeCount_le_one honce) with
  | @target d htype hd =>
    have hself := conversionStep_self op hd htype
    split at hself
    · rw [convertSteps_of_incompatible hself]
      exact ⟨_, 1, result, hone, hchain, by decide, .inr rfl⟩
    · rw [convertSteps_of_compatible hself]
      exact ⟨_, 1, result, hone, hchain, by decide, .inl ⟨rfl, .inl htype⟩⟩
  | float hd hwant htype =>
    rw [convertSteps_of_incompatible (conversionStep_float hd hwant htype)]
    exact ⟨_, 1, result, hone, hchain, by decide, .inr rfl⟩
  | @sint v w hd htype =>
    have hnext := conversionStep_sint op hd htype
    split at hnext
    · rw [convertSteps_of_incompatible hnext]
      exact ⟨_, 1, result, hone, hchain, by decide, .inr rfl⟩
    next hop =>
      -- The integer becomes a float of the wanted type.
      let made := mid.pushConversion .intToFloat result target
      have htake : mid.takeStep target result op (mid.conversionStep target result op) =
          .ok (some (made.1, made.2)) := by
        rw [hnext, takeStep, intToFloatTarget, hd]
        rfl
      have hmade : made.2.types.ofId? target = some (.float v) := types_pushConversion mid .. ▸ hd
      have hself := conversionStep_self op hmade (show made.1.type = target from rfl)
      rw [if_neg hop] at hself
      obtain ⟨last, hlast, hmade⟩ := code_pushConversion mid .intToFloat (by decide) result target
      rw [convertSteps_of_takeStep htake, convertSteps_of_compatible hself]
      refine ⟨types ++ (insts ++ ([] ++ (last ++ []))), 2, _, ?_,
        .cons htypes hmakes (.cons nofun hmade .nil), Nat.le_refl 2, .inl ⟨rfl, .inl rfl⟩⟩
      rw [hlast, hcode, List.append_nil, List.nil_append, List.append_assoc, List.append_assoc]

def truthRun : List Operation :=
  [.pushType { opcode := .boolType }, .pushType { opcode := .floatType, operands := ⟨32, 0, 0⟩ },
    .pushValue { opcode := .zero } ⟨1⟩]

/-- A truth value becomes a float in two steps, by way of an integer. -/
theorem convert_chain_truthRun : (runAll truthRun).declaredTypes.Nodup ∧
      ∃ insts n last, ((runAll truthRun).convert ⟨2⟩ ⟨⟨1⟩, ⟨3⟩⟩ .add).2.code.toList =
        (runAll truthRun).code.toList ++ insts ∧
        insts.map (·.opcode) = [.sintType, .cast, .intToFloat] ∧ Chain ⟨⟨1⟩, ⟨3⟩⟩ insts n last ∧
        n ≤ 2 ∧ ((runAll truthRun).convert ⟨2⟩ ⟨⟨1⟩, ⟨3⟩⟩ .add).1 = .ok last ∧ last.type = ⟨2⟩ := by
  have hrun : Reached (fun _ => True) (runAll truthRun) := .runAll (by decide +kernel)
  have honce : (runAll truthRun).declaredTypes.Nodup := by decide +kernel
  have htype : ((runAll truthRun).convert ⟨2⟩ ⟨⟨1⟩, ⟨3⟩⟩ .add).1.toOption.map (·.type) = some ⟨2⟩ := by
    decide +kernel
  have hops : (((runAll truthRun).convert ⟨2⟩ ⟨⟨1⟩, ⟨3⟩⟩ .add).2.code.toList.drop
      (runAll truthRun).code.toList.length).map (·.opcode) = [.sintType, .cast, .intToFloat] := by
    decide +kernel
  obtain ⟨insts, n, last, hcode, hchain, hn, hend⟩ := convert_chain hrun honce ⟨2⟩ ⟨⟨1⟩, ⟨3⟩⟩ .add
  rw [hcode, List.drop_left] at hops
  rcases hend with ⟨hlast, -⟩ | herror
  · rw [hlast] at htype
    exact ⟨honce, insts, n, last, hcode, hops, hchain, hn, hlast, Option.some.inj htype⟩
  · rw [herror] at htype
    cases htype

/-! ## Failures -/

theorem convert_eq_self_iff (h : asm.Registered) {e : AssemblyError}
    (herror : (asm.convert target value op).1 = .error e) :
    (asm.convert target value op).2 = asm ↔ asm.conversionStep target value op = .incompatible := by
  rw [convert, maxConversionSteps] at herror ⊢
  refine ⟨fun hsame => ?_, fun hi => by rw [convertSteps_of_incompatible hi]⟩
  by_cases hc : asm.conversionStep target value op = .compatible
  · rw [convertSteps_of_compatible hc] at herror
    cases herror
  by_cases hi : asm.conversionStep target value op = .incompatible
  · exact hi
  obtain ⟨result, mid, types, insts, hstep, hcode, -, hmakes, -⟩ := exists_takeStep h hc hi
  rw [convertSteps_of_takeStep hstep] at hsame
  -- The rest of the chain only appends.
  have hbuilds : Builds (fun _ => True) mid _ :=
    Operation.builds_convertSteps (fun _ _ _ => trivial) value.type target op 7 mid result fun _ _ => trivial
  obtain ⟨rest, hrest⟩ := hbuilds.toList_code
  rw [hsame, hcode] at hrest
  have hlength := congrArg List.length hrest
  cases hmakes <;> simp only [List.length_append, List.length_cons] at hlength <;> omega

/-- **A conversion that fails leaves everything as it was exactly if its first step is refused**,
    and unifying two operands exactly if it is refused in both directions. -/
theorem failed_conversion_eq_self_iff (h : Reached (fun _ => True) asm) (target : ResultId)
    (value other : TypedValue) (op : Operator) (e : AssemblyError) :
    ((asm.convert target value op).1 = .error e →
      ((asm.convert target value op).2 = asm ↔
        asm.conversionStep target value op = .incompatible)) ∧
    ((asm.unifyOperands value other op).1 = .error e → ((asm.unifyOperands value other op).2 = asm ↔
        asm.conversionStep value.type other op = .incompatible ∧
          asm.conversionStep other.type value op = .incompatible)) := by
  refine ⟨convert_eq_self_iff h.registered, fun herror => ?_⟩
  have hconvert : ∀ {target value} {f : TypedValue → TypedValue × TypedValue},
      ((asm.convert target value op).1.map f) = .error e → (asm.convert target value op).1 = .error e := by
    intro target value f hmap
    cases hr : (asm.convert target value op).1 with
    | error => rw [hr] at hmap; cases hmap; rfl
    | ok => rw [hr] at hmap; cases hmap
  unfold unifyOperands at herror ⊢
  split at herror
  · cases herror
  next hne =>
  rw [if_neg hne]
  split at herror
  next hstep =>
    rw [if_pos hstep]
    exact (convert_eq_self_iff h.registered (hconvert herror)).trans
      ⟨fun hi => absurd hi hstep, fun hi => absurd hi.1 hstep⟩
  next hstep =>
    rw [if_neg hstep]
    exact (convert_eq_self_iff h.registered (hconvert herror)).trans
      ⟨fun hi => ⟨not_not.mp hstep, hi⟩, fun hi => hi.2⟩

theorem failed_conversion_truthRun :
    ((runAll truthRun).convert ⟨2⟩ ⟨⟨1⟩, ⟨3⟩⟩ .append).1 =
      .error (.incompatibleTypes ⟨4⟩ ⟨2⟩ .append) ∧
      ((runAll truthRun).convert ⟨2⟩ ⟨⟨1⟩, ⟨3⟩⟩ .append).2 ≠ runAll truthRun := by
  have hrun : Reached (fun _ => True) (runAll truthRun) := .runAll (by decide +kernel)
  have herror : ((runAll truthRun).convert ⟨2⟩ ⟨⟨1⟩, ⟨3⟩⟩ .append).1 =
      .error (.incompatibleTypes ⟨4⟩ ⟨2⟩ .append) := by decide +kernel
  refine ⟨herror, fun hsame => ?_⟩
  have hstep := ((failed_conversion_eq_self_iff hrun ⟨2⟩ ⟨⟨1⟩, ⟨3⟩⟩ ⟨⟨1⟩, ⟨3⟩⟩ .append _).1 herror).mp hsame
  revert hstep
  decide +kernel

theorem exists_failed_conversion_ne :
    ∃ (asm : Assembler) (target : ResultId) (value : TypedValue) (op : Operator)
    (e : AssemblyError), Reached (fun _ => True) asm ∧ (asm.convert target value op).1 = .error e ∧
      (asm.convert target value op).2 ≠ asm :=
  ⟨runAll truthRun, ⟨2⟩, ⟨⟨1⟩, ⟨3⟩⟩, .append, .incompatibleTypes ⟨4⟩ ⟨2⟩ .append,
    .runAll (by decide +kernel), by decide +kernel, by decide +kernel⟩

end Assembler

end ShaderIR
