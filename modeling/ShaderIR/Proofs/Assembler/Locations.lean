import ShaderIR.Proofs.Assembler.Growth

/-!
# Locations of interface variables

A new input or output takes the number of variables of its direction as its location, which is free
as long as all locations are **dense**: below that number.  Dense locations stay dense over a whole
run.  A listing chooses its locations itself, so they have to be dense to begin with.
-/

namespace ShaderIR

namespace Assembler

variable {asm after : Assembler} {inst : Instruction} {v : InterfaceVar}

/-! ## Dense locations -/

def LocationsApart (asm : Assembler) : Prop :=
  asm.interface.toList.Pairwise fun v w => v.direction = w.direction → v.location ≠ w.location

/-- Variables of one direction have different locations, all below the number of these variables. -/
structure LocationsDense (asm : Assembler) : Prop where
  apart : asm.LocationsApart
  below : ∀ v ∈ asm.interface.toList,
    v.location.toNat < asm.interface.toList.countP (·.direction = v.direction)

instance (asm : Assembler) : Decidable asm.LocationsApart :=
  inferInstanceAs (Decidable (asm.interface.toList.Pairwise _))

instance (asm : Assembler) : Decidable asm.LocationsDense :=
  decidable_of_iff (asm.LocationsApart ∧ ∀ v ∈ asm.interface.toList,
    v.location.toNat < asm.interface.toList.countP (·.direction = v.direction))
      ⟨fun h => ⟨h.1, h.2⟩, fun h => ⟨h.1, h.2⟩⟩

/-- The variable has an id, and an instruction of its direction defines it and states its location.
    -/
def Declares (asm : Assembler) (v : InterfaceVar) : Prop :=
  v.var.index ≠ 0 ∧ ∃ inst ∈ asm.code.toList,
    inst.id = v.var ∧ inst.opcode = v.direction.opcode ∧ inst.operands.fst = v.location

/-- The stream declares the variables of the interface, and their locations are dense.  There are no
    more variables than words. -/
structure LaidOut (asm : Assembler) : Prop where
  coherent : asm.Coherent
  declared : ∀ v ∈ asm.interface.toList, asm.Declares v
  dense : asm.interface.size ≤ UInt32.size → asm.LocationsDense

theorem LocationsDense.congr (h : asm.LocationsDense) (heq : after.interface = asm.interface) :
    after.LocationsDense := by
  refine ⟨?_, ?_⟩
  · rw [LocationsApart, heq]
    exact h.apart
  · rw [heq]
    exact h.below

theorem LocationsDense.push (h : asm.LocationsDense) (hsize : asm.interface.size < UInt32.size)
    (hv : v.location = (asm.interface.countP (·.direction = v.direction)).toUInt32)
    (heq : after.interface = asm.interface.push v) : after.LocationsDense := by
  have hcount : v.location.toNat = asm.interface.toList.countP (·.direction = v.direction) := by
    have hle : asm.interface.countP (·.direction = v.direction) ≤ asm.interface.size := Array.countP_le_size
    rw [hv, Nat.toUInt32_eq, UInt32.toNat_ofNat_of_lt' (Nat.lt_of_le_of_lt hle hsize), Array.countP_toList]
  refine ⟨?_, ?_⟩
  · rw [LocationsApart, heq, Array.toList_push, List.pairwise_append]
    refine ⟨h.apart, List.pairwise_singleton _ _, fun w hw x hx hdir hloc => ?_⟩
    cases List.mem_singleton.mp hx
    have hlt := h.below w hw
    rw [hloc, hdir, hcount] at hlt
    exact Nat.lt_irrefl _ hlt
  · rw [heq, Array.toList_push]
    intro w hw
    rw [List.countP_append]
    rcases List.mem_append.mp hw with hw | hw
    · exact Nat.lt_of_lt_of_le (h.below w hw) (Nat.le_add_right _ _)
    · cases List.mem_singleton.mp hw
      rw [hcount, List.countP_singleton, if_pos (decide_eq_true rfl)]
      exact Nat.lt_succ_self _

/-! ## Steps -/

theorem Declares.mono (h : asm.Declares v)
    (hcode : ∀ x ∈ asm.code.toList, x ∈ after.code.toList) : after.Declares v := by
  obtain ⟨hz, x, hx, hrest⟩ := h
  exact ⟨hz, x, hcode x hx, hrest⟩

namespace LaidOut

theorem empty : LaidOut .empty where
  coherent := coherent_empty
  declared := List.forall_mem_nil _
  dense _ := ⟨.nil, List.forall_mem_nil _⟩

variable (h : asm.LaidOut)
include h

theorem same (hcode : after.code = asm.code) (hids : after.ids = asm.ids)
    (hinterface : after.interface = asm.interface) : after.LaidOut where
  coherent := h.coherent.same hcode hids
  declared v hv := (h.declared v (hinterface ▸ hv)).mono fun _ hx => hcode ▸ hx
  dense hsize := (h.dense (hinterface ▸ hsize)).congr hinterface

theorem create (op : Opcode) : (asm.create op).2.LaidOut where
  coherent := h.coherent.create op
  declared := h.declared
  dense hsize := (h.dense hsize).congr rfl

theorem push (ha : asm.Accepts inst) : (asm.push inst).LaidOut := by
  have hinterface : (asm.push inst).interface = asm.interface :=
    congrArg (·.2.2) (Listing.Contents.labels_push asm inst)
  refine ⟨h.coherent.push ha, fun v hv => ?_, fun hsize => ?_⟩
  · exact (h.declared v (hinterface ▸ hv)).mono fun x hx => mem_code_push (code_push asm inst) hx
  · exact (h.dense (hinterface ▸ hsize)).congr hinterface

theorem pushClean (hclean : (asm.push inst).Clean) : (asm.push inst).LaidOut := h.push (clean_push.mp hclean).2

theorem pushNew (hclean : (asm.pushNew inst).2.Clean) : (asm.pushNew inst).2.LaidOut :=
  (h.create inst.opcode).pushClean hclean

theorem setName (id : ResultId) (name : String) : (asm.setName id name).LaidOut :=
  h.same (code_setName ..) (ids_setName ..) (by rw [setName_eq])

/-- **A new variable** has an id of its own and the next location. -/
theorem pushInterface {direction : Direction} {name : String} {type id : ResultId}
    (heq : asm.pushInterface direction name type = .ok (id, after)) (hclean : after.Clean) :
    after.LaidOut := by
  rcases pushInterface_cases heq with rfl | rfl
  · exact h
  · have hpushed := h.pushNew (clean_setName.mp hclean)
    let v : InterfaceVar :=
      { name, direction, var := ⟨asm.ids.size⟩, type,
        location := (asm.interface.countP (·.direction = direction)).toUInt32 }
    let new := (asm.pushNew (asm.interfaceDecl direction type)).2
    have hold : new.interface = asm.interface :=
      congrArg (·.2.2) (Listing.Contents.labels_push (asm.create direction.opcode).2 _)
    have hinterface : (new.registerInterface v).interface = asm.interface.push v := by
      rw [registerInterface, setName_eq, ← hold]
    refine ⟨hpushed.coherent.same (code_registerInterface ..) (ids_registerInterface ..),
      fun w hw => ?_, fun hsize => ?_⟩
    · rw [hinterface, Array.toList_push] at hw
      have hcode : ∀ x ∈ new.code.toList, x ∈ (new.registerInterface v).code.toList := fun x hx => by
        rwa [code_registerInterface]
      rcases List.mem_append.mp hw with hw | hw
      · exact (hpushed.declared w (hold ▸ hw)).mono hcode
      · cases List.mem_singleton.mp hw
        refine ⟨Nat.ne_of_gt h.coherent.exact.nonempty,
          { asm.interfaceDecl direction type with id := v.var }, hcode _ ?_, rfl, rfl, rfl⟩
        rw [code_pushNew, Array.toList_push]
        exact List.mem_append_right _ (List.mem_singleton.mpr rfl)
    · have hlt : asm.interface.size < UInt32.size := by
        rw [hinterface, Array.size_push] at hsize
        exact hsize
      exact (h.dense (Nat.le_of_lt hlt)).push hlt rfl hinterface

theorem replace (old new : ResultId) : (asm.replace old new).2.LaidOut := by
  have hinterface : (asm.replace old new).2.interface = asm.interface := by rw [replace_touches]
  refine ⟨h.coherent.replace old new, fun v hv => ?_, fun hsize => (h.dense (hinterface ▸ hsize)).congr hinterface⟩
  have hdeclared := h.declared v (hinterface ▸ hv)
  rcases replace_cases asm old new with ⟨hcode, -⟩ | ⟨-, -, -, heq⟩
  · exact hdeclared.mono fun x hx => hcode ▸ hx
  · obtain ⟨hz, x, hx, hid, hop, hloc⟩ := hdeclared
    refine ⟨hz, x.mapSlots fun id => if id = old then new else id, ?_, hid, hop, hloc⟩
    rw [heq, Array.toList_map]
    exact List.mem_map_of_mem hx

/-- **Dead code removal** drops no variable, and leaves directions and locations as they are. -/
theorem flatten : asm.flatten.2.LaidOut := by
  let move (v : InterfaceVar) : InterfaceVar := { v with var := asm.newId v.var, type := asm.newId v.type }
  have hmoved : ∀ v ∈ asm.interface.toList, asm.flatten.2.Declares (move v) := by
    intro v hv
    obtain ⟨hz, x, hx, hid, hop, hloc⟩ := h.declared v hv
    obtain ⟨i, hi⟩ := List.mem_iff_getElem?.mp hx
    rw [Array.getElem?_toList] at hi
    -- Declarations of variables are not pure, so none of them is dead code.
    have hleft : flagged asm.sweep.removed i = false := by
      refine not_removed_of_opcode hi ?_ ?_ ?_ <;> rw [hop] <;> cases v.direction <;> decide
    have hsurvives := mem_survivors.mpr ⟨i, hi, hleft⟩
    have hkept := kept_of_mem_survivors h.coherent.exact h.coherent.definition?_iff h.coherent.allocated hsurvives
      (.inl rfl)
    refine ⟨newId_ne_zero (hid ▸ hkept) hz, x.rename asm.newId, ?_, congrArg asm.newId hid, hop, hloc⟩
    rw [code_flatten]
    exact List.mem_map_of_mem hsurvives
  have hinterface : asm.flatten.2.interface.toList = asm.interface.toList.map move := by
    show ((asm.sweep.asm.interface.map move).filter (!·.var.isVoid)).toList = _
    rw [(traced_sweep asm).frame, Array.toList_filter, Array.toList_map, List.filter_eq_self]
    intro w hw
    obtain ⟨v, hv, rfl⟩ := List.mem_map.mp hw
    simpa using (hmoved v hv).1
  refine ⟨h.coherent.flatten, fun w hw => ?_, fun hsize => ⟨?_, ?_⟩⟩
  · rw [hinterface] at hw
    obtain ⟨v, hv, rfl⟩ := List.mem_map.mp hw
    exact hmoved v hv
  all_goals
    have hdense := h.dense (by
      rwa [← Array.length_toList, hinterface, List.length_map, Array.length_toList] at hsize)
  · rw [LocationsApart, hinterface, List.pairwise_map]
    exact hdense.apart
  · rw [hinterface]
    intro w hw
    obtain ⟨v, hv, rfl⟩ := List.mem_map.mp hw
    rw [List.countP_map]
    exact hdense.below v hv

theorem pushMembers {i : Nat} {members : List (String × ResultId)}
    (hclean : (pushMembers i members asm).Clean) :
    (pushMembers i members asm).LaidOut := by
  induction members generalizing i asm with
  | nil => exact h
  | cons m rest ih =>
    have hstring : (asm.addString m.1).2.LaidOut := h.same rfl rfl rfl
    exact ih (hstring.pushClean
      (@clean_of_pushMembers ((asm.addString m.1).2.push (asm.structTrailer i m)) rest (i + 1) hclean)) hclean

theorem pushStruct {name : String} {members : List (String × ResultId)}
    (hclean : (asm.pushStruct name members).2.Clean) : (asm.pushStruct name members).2.LaidOut := by
  obtain ⟨-, -, -, hended, heq⟩ := pushStruct_of_clean hclean
  have hlisted := (clean_push.mp hended).1
  have hstring : (asm.addString name).2.LaidOut := h.same rfl rfl rfl
  have hheader := (hstring.create .structType).pushClean (clean_of_pushMembers hlisted)
  have hall : (asm.structEnded name members).LaidOut := (hheader.pushMembers hlisted).pushClean hended
  rw [heq]
  apply setName
  exact hall.same rfl rfl rfl

theorem pushType {id : ResultId} (heq : asm.pushType inst = .ok (id, after))
    (hclean : after.Clean) :
    after.LaidOut := by
  obtain ⟨d, -, rfl | ⟨-, rfl⟩ | ⟨-, rfl⟩⟩ := pushType_ok heq
  · exact h
  · have hpushed : (asm.pushNew inst).2.LaidOut := h.pushNew hclean
    exact hpushed.same rfl rfl rfl
  · have hpushed : (asm.push inst).LaidOut := h.pushClean hclean
    exact hpushed.same rfl rfl rfl

end LaidOut

end Assembler

open Assembler in
theorem Operation.laidOut_run {asm : Assembler} (o : Operation) (h : asm.LaidOut)
    (hclean : (o.run asm).Clean) :
    (o.run asm).LaidOut := by
  have hsurvives : o.Survives asm fun b => b.Clean → b.LaidOut := by
    constructor
    case aside => exact fun _ _ _ _ ha hb => (ha hb).same rfl rfl rfl
    case create => exact fun op ha hb => (ha hb).create op
    case push => exact fun _ ha hb => (ha (clean_push.mp hb).1).pushClean hb
    case setName => exact fun id name ha hb => (ha (clean_setName.mp hb)).setName id name
    case interface => exact h.pushInterface
    case type => exact fun _ heq ha hb => (ha (clean_of_pushType heq hb)).pushType heq hb
    case struct => exact h.pushStruct
    case layout => exact fun _ _ _ _ => h.same rfl rfl rfl
    case finish => exact fun _ => h.same (code_finish _) (ids_finish _) (by rw [finish_eq])
    case replace => exact fun _ _ => h.replace _ _
    case flatten => exact fun _ _ => h.flatten
    case merge => exact fun _ => mergeLiterals_invariant (fun _ old new ha => ha.replace old new) h
  exact hsurvives.run (fun _ => h) hclean

/-! ## Listings -/

namespace Listing

open Assembler

theorem mem_foldl_addInterface {l : List Instruction} {asm : Assembler}
    (hv : v ∈ (l.foldl Contents.addInterface asm).interface.toList) : v ∈ asm.interface.toList ∨
      ∃ inst ∈ l, inst.id = v.var ∧ inst.opcode = v.direction.opcode ∧ inst.operands.fst =
        v.location := by
  induction l generalizing asm with
  | nil => exact .inl hv
  | cons inst rest ih =>
    rcases ih hv with hv | ⟨x, hx, hrest⟩
    · have hadd : ∀ w : InterfaceVar, v ∈ (asm.registerInterface w).interface.toList →
          v ∈ asm.interface.toList ∨ v = w := by
        intro w hw
        rw [registerInterface, setName_eq, Array.toList_push, List.mem_append, List.mem_singleton] at hw
        exact hw
      unfold Contents.addInterface at hv
      split at hv
      next hop =>
        rcases hadd _ hv with hv | rfl
        · exact .inl hv
        · exact .inr ⟨inst, List.mem_cons_self, rfl, hop, rfl⟩
      next hop =>
        rcases hadd _ hv with hv | rfl
        · exact .inl hv
        · exact .inr ⟨inst, List.mem_cons_self, rfl, hop, rfl⟩
      next => exact .inl hv
    · exact .inr ⟨x, List.mem_cons_of_mem _ hx, hrest⟩

theorem laidOut_of_parse {text : String} {asm : Assembler} (h : parse text = .ok asm)
    (hclean : asm.Clean) (hids : ∀ v ∈ asm.interface.toList, v.var.index ≠ 0)
    (hdense : asm.LocationsDense) : asm.LaidOut := by
  refine ⟨coherent_of_parse h (Assembler.noRedefinition_of_problems hclean),
    fun v hv => ⟨hids v hv, ?_⟩, fun _ => hdense⟩
  · obtain ⟨c, -, hc⟩ := exists_of_bind_eq_ok h
    obtain ⟨-, b, hr⟩ := Contents.exists_rebuilt hc
    have hnone : b.asm.interface = #[] :=
      congrArg (·.2.2) ((Contents.labels_rebuildCode hr.stream).trans c.labels_allocate)
    have hinterface : asm.interface = (c.withInterface b.asm).interface := by rw [hr.eq_finish, finish_eq]
    rw [hinterface] at hv
    rw [hr.code]
    refine (mem_foldl_addInterface hv).resolve_left fun hv => ?_
    rw [hnone] at hv
    cases hv

end Listing

/-- **Locations never collide.**  In every run without problems from nothing, or from a listing
    whose variables have ids and dense locations, variables of one direction have different
    locations, and the instruction that defines a variable states its location. -/
theorem Assembler.interface_locations_apart {start : Assembler}
    (hstart : start = .empty ∨ ∃ text, Listing.parse text = .ok start ∧
      (∀ v ∈ start.interface.toList, v.var.index ≠ 0) ∧ start.LocationsDense) (ops : List Operation)
    {asm : Assembler} (hrun : ops.foldl (fun asm o => o.run asm) start = asm) (hclean : asm.Clean)
    (hsize : asm.interface.size ≤ UInt32.size) :
    asm.LocationsApart ∧ ∀ v ∈ asm.interface.toList, ∃ inst,
      asm.definingInstruction? v.var = some inst ∧
      inst.opcode = v.direction.opcode ∧ inst.operands.fst = v.location := by
  -- Problems are never taken back, so every state on the way is without them.
  have hrest : ∀ (ops : List Operation) (a : Assembler), (ops.foldl (fun asm o => o.run asm) a).Clean →
      a.Clean ∧ (a.LaidOut → (ops.foldl (fun asm o => o.run asm) a).LaidOut) := by
    intro ops
    induction ops with
    | nil => exact fun _ ha => ⟨ha, id⟩
    | cons o rest ih =>
      intro a ha
      obtain ⟨hnext, hlaid⟩ := ih (o.run a) ha
      exact ⟨Operation.clean_of_run hnext, fun h => hlaid (o.laidOut_run h hnext)⟩
  have hlaid : asm.LaidOut := by
    subst hrun
    obtain ⟨hfirst, hlaid⟩ := hrest ops start hclean
    rcases hstart with rfl | ⟨text, hparse, hids, hdense⟩
    · exact hlaid .empty
    · exact hlaid (Listing.laidOut_of_parse hparse hfirst hids hdense)
  refine ⟨(hlaid.dense hsize).apart, fun v hv => ?_⟩
  obtain ⟨hz, x, hx, hid, hrest⟩ := hlaid.declared v hv
  obtain ⟨i, hi⟩ := List.mem_iff_getElem?.mp hx
  rw [Array.getElem?_toList] at hi
  have hdef := hlaid.coherent.definition?_eq hi (hid ▸ hz)
  exact ⟨x, by rw [definingInstruction?, ← hid, hdef, Option.bind_some, hi], hrest⟩

def Assembler.swappedInputsText : String :=
  "%1 = TYPE_FLOAT [32, 0, 0] (%0, %0, %0) : %0\n" ++
  "%2 = VAR_SHADER_IN [1, 0, 0] (%1, %0, %0) : %0\n" ++
  "%3 = VAR_SHADER_IN [0, 0, 0] (%1, %0, %0) : %0\n"

theorem Assembler.interface_locations_swappedInputs : ∃ start asm : Assembler,
    Listing.parse swappedInputsText = .ok start ∧ start.LocationsDense ∧ asm.Clean ∧
      asm.interface.size = 4 ∧ asm.LocationsApart ∧ ∀ v ∈ asm.interface.toList, ∃ inst,
        asm.definingInstruction? v.var = some inst ∧
        inst.opcode = v.direction.opcode ∧ inst.operands.fst = v.location := by
  let ops : List Operation := [.pushInterface .input "b" ⟨1⟩, .flatten, .pushInterface .output "c" ⟨1⟩]
  obtain ⟨start, hparse, hids, hdense, hclean, hsize⟩ := @Listing.exists_of_any_ok
    (fun start => (∀ v ∈ start.interface.toList, v.var.index ≠ 0) ∧ start.LocationsDense ∧
      (ops.foldl (fun asm o => o.run asm) start).Clean ∧
      (ops.foldl (fun asm o => o.run asm) start).interface.size = 4) _ swappedInputsText (by decide +kernel)
  refine ⟨start, _, hparse, hdense, hclean, hsize,
    interface_locations_apart (.inr ⟨_, hparse, hids, hdense⟩) ops rfl hclean ?_⟩
  rw [hsize]
  decide

def Assembler.secondInputText : String :=
  "%1 = TYPE_FLOAT [32, 0, 0] (%0, %0, %0) : %0\n" ++
  "%2 = VAR_SHADER_IN [1, 0, 0] (%1, %0, %0) : %0\n"

/-- Locations that are apart but not dense are not enough: the next input gets the second location
    again. -/
theorem Assembler.exists_equal_locations : ∃ start, Listing.parse secondInputText = .ok start ∧
    start.LocationsApart ∧ ((Operation.pushInterface .input "b" ⟨1⟩).run start).Clean ∧
      ¬ ((Operation.pushInterface .input "b" ⟨1⟩).run start).LocationsApart :=
  Listing.exists_of_any_ok (p := fun start => start.LocationsApart ∧
    ((Operation.pushInterface .input "b" ⟨1⟩).run start).Clean ∧
      ¬ ((Operation.pushInterface .input "b" ⟨1⟩).run start).LocationsApart) (by decide +kernel)

end ShaderIR
