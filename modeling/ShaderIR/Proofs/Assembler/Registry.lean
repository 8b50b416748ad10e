import ShaderIR.Proofs.Assembler.DeadCode
import ShaderIR.Proofs.Listing.RoundTrip
import ShaderIR.Proofs.Types.Shapes

/-!
# Ids of types and of names

In every state that a run reaches, all ids that the registry knows are **declared in the stream**,
and the id that stands for a descriptor **was declared with it**, unless it is declared twice.  Dead
code removal takes a declaration from the stream only if its id dies, and then the registry forgets
the id.
-/

namespace ShaderIR

variable {asm : Assembler} {id : ResultId} {inst : Instruction}

/-! ## Registries -/

def TypeDesc.WidthValid : TypeDesc → Prop
  | .float w => isWidth minFloatBits maxFloatBits w = true
  | .sint w | .uint w => isWidth minIntBits maxIntBits w = true
  | _ => True

theorem Assembler.widthValid_of_describe {d : TypeDesc} (h : asm.describe inst = .ok d) :
    d.WidthValid := by
  have hwidth : ∀ {kind min max w}, Assembler.checkWidth kind min max w = .ok () → isWidth min max w = true := by
    intro kind min max w hw
    unfold Assembler.checkWidth at hw
    split at hw
    · assumption
    · cases hw
  unfold Assembler.describe at h
  split at h
  case h_1 | h_2 => cases h; trivial
  case h_3 | h_4 | h_5 =>
    obtain ⟨⟨⟩, hw, h⟩ := exists_of_bind_eq_ok h
    cases h
    exact hwidth hw
  case h_11 => cases h
  all_goals
    simp only [throw, throwThe, MonadExceptOf.throw, bind, Except.bind, pure, Except.pure] at h
    repeat' split at h
    all_goals first | (cases h; trivial) | cases h

namespace TypeRegistry

/-- All ids that the registry knows as types satisfy `D`. -/
structure Within (D : ResultId → Prop) (types : TypeRegistry) : Prop where
  handles : ∀ e ∈ types.handles.entries, D e.1
  declared : ∀ e ∈ types.declared.entries, D e.2

namespace Within

variable {D D' : ResultId → Prop} {types : TypeRegistry} {id : ResultId}

theorem empty : Within D {} :=
  ⟨nofun, nofun⟩

theorem mono (h : types.Within D) (hD : ∀ id, D id → D' id) : types.Within D' :=
  ⟨fun e he => hD _ (h.handles e he), fun e he => hD _ (h.declared e he)⟩

theorem declares (h : types.Within D) (hid : D id) {d : TypeDesc} {types' : TypeRegistry}
    (hnew : Declares id d types types') : types'.Within D where
  handles e he := by
    rw [hnew.handles] at he
    rcases Table.mem_insert he with rfl | he
    · exact hid
    · exact h.handles e he
  declared e he := by
    rcases hnew.declared e he with rfl | he
    · exact hid
    · exact h.declared e he

theorem rename {f : ResultId → ResultId} (h : types.Within D)
    (hf : ∀ id, D id → (f id).index ≠ 0 → D' (f id)) : (types.rename f).Within D' where
  handles e he := by
    obtain ⟨x, hx, hz, rfl⟩ := mem_filterMap_renamed.mp he
    exact hf _ (h.handles x hx) hz
  declared e he := by
    obtain ⟨x, hx, hz, rfl⟩ := mem_filterMap_renamed.mp he
    exact hf _ (h.declared x hx) hz

end Within

/-- An id that satisfies `S` and stands for a descriptor was declared with it. -/
def Canonical (S : ResultId → Prop) (types : TypeRegistry) : Prop :=
  ∀ e ∈ types.declared.entries, S e.2 → types.handle? e.2 = some e.1

def Sized (types : TypeRegistry) : Prop := ∀ h d, types.desc? h = some d → d.WidthValid

section

variable {S S' : ResultId → Prop} {types types' : TypeRegistry} {id : ResultId} {d : TypeDesc}

theorem Canonical.declares (h : types.Canonical S) (hS : ∀ j, S' j → S j)
    (hnew : Declares id d types types') (hid : S' id → ∀ e ∈ types.declared.entries, e.2 ≠ id) :
    types'.Canonical S' := by
  intro e he hs
  rw [hnew.handle]
  rcases hnew.declared e he with rfl | he
  · exact if_pos rfl
  · have hne : id ≠ e.2 := fun heq => hid (heq ▸ hs) e he heq.symm
    rw [if_neg hne]
    exact h e he (hS _ hs)

theorem Canonical.rename {f : ResultId → ResultId} (h : types.Canonical S) (hf : Parts f)
    (hS : ∀ j, (f j).index ≠ 0 → S' (f j) → S j) : (types.rename f).Canonical S' := by
  intro e he hs
  obtain ⟨x, hx, hz, rfl⟩ := mem_filterMap_renamed.mp he
  exact (get?_renameKeys types.handles hf hz).trans (h x hx (hS _ hz hs))

theorem Sized.declares (h : types.Sized) (hd : d.WidthValid) (hnew : Declares id d types types') :
    types'.Sized := by
  intro k d' hk
  rw [hnew.desc] at hk
  rcases desc?_intern_cases hk with hk | ⟨rfl, -⟩
  · exact h k d' hk
  · exact hd

end

end TypeRegistry

namespace Assembler

/-! ## The registry and the stream -/

def DeclaresType (asm : Assembler) (id : ResultId) : Prop :=
  ∃ inst ∈ asm.code.toList, inst.opcode.isType = true ∧ inst.id = id

def typeCount (asm : Assembler) (id : ResultId) : Nat :=
  asm.code.toList.countP fun inst => inst.opcode.isType && decide (inst.id = id)

/-- What is known of ids outside of the stream. -/
structure Registered (asm : Assembler) : Prop where
  types : asm.types.Within asm.DeclaresType
  canonical : asm.types.Canonical fun id => asm.typeCount id ≤ 1
  names : ∀ e ∈ asm.names.entries, e.1.index ≠ 0
  unrepeated : asm.types.Unrepeated
  sized : asm.types.Sized

theorem registered_of_types_eq_empty (htypes : asm.types = {}) (hnames : asm.names = {}) :
    asm.Registered where
  types := htypes ▸ .empty
  canonical := htypes ▸ nofun
  names := hnames ▸ nofun
  unrepeated := by rw [htypes]; nofun
  sized := by rw [htypes]; nofun

variable {a b : Assembler} {l : List Instruction}

theorem DeclaresType.append
    (hcode : b.code.toList = a.code.toList ++ l) (h : a.DeclaresType id) : b.DeclaresType id := by
  obtain ⟨inst, hinst, hrest⟩ := h
  exact ⟨inst, hcode ▸ List.mem_append_left l hinst, hrest⟩

theorem DeclaresType.typeCount_pos (h : asm.DeclaresType id) : 0 < asm.typeCount id := by
  obtain ⟨inst, hinst, htype, hid⟩ := h
  exact List.countP_pos_iff.mpr ⟨inst, hinst, by rw [htype, hid, decide_eq_true rfl]; rfl⟩

theorem typeCount_append (hcode : b.code.toList = a.code.toList ++ l)
    (id : ResultId) : a.typeCount id ≤ b.typeCount id := by
  rw [typeCount, typeCount, hcode, List.countP_append]
  exact Nat.le_add_right _ _

theorem typeCount_push_self (hop : inst.opcode.isType = true) :
    (asm.push inst).typeCount inst.id = asm.typeCount inst.id + 1 := by
  rw [typeCount, code_push, Array.toList_push, List.countP_append, List.countP_singleton, hop, decide_eq_true rfl]
  rfl

theorem Registered.append (h : a.Registered) (hcode : b.code.toList = a.code.toList ++ l)
    (htypes : b.types = a.types) (hnames : b.names = a.names) : b.Registered where
  types := htypes ▸ h.types.mono fun _ => .append hcode
  canonical e he hone := by
    rw [htypes] at he ⊢
    exact h.canonical e he (Nat.le_trans (typeCount_append hcode _) hone)
  names := hnames ▸ h.names
  unrepeated := htypes ▸ h.unrepeated
  sized := htypes ▸ h.sized

theorem Registered.same (h : a.Registered) (hcode : b.code = a.code)
    (htypes : b.types = a.types) (hnames : b.names = a.names) : b.Registered :=
  h.append (l := []) (by rw [hcode, List.append_nil]) htypes hnames

/-- No registered type has the id `id`, unless the stream declares it twice. -/
def Fresh (asm : Assembler) (id : ResultId) : Prop :=
  asm.typeCount id ≤ 1 → ∀ e ∈ asm.types.declared.entries, e.2 ≠ id

theorem Fresh.append (h : a.Fresh id)
    (hcode : b.code.toList = a.code.toList ++ l) (htypes : b.types = a.types) : b.Fresh id := fun hone =>
  htypes ▸ h (Nat.le_trans (typeCount_append hcode id) hone)

theorem types_finish (asm : Assembler) : asm.finish.types = asm.types := by rw [finish_eq]

theorem names_finish (asm : Assembler) : asm.finish.names = asm.names := by rw [finish_eq]

namespace Registered

variable {asm after : Assembler} (h : asm.Registered)
include h

theorem push (inst : Instruction) : (asm.push inst).Registered :=
  h.append (l := [inst]) (by rw [code_push, Array.toList_push]) (types_push asm inst) (names_push asm inst)

theorem pushNew (inst : Instruction) : (asm.pushNew inst).2.Registered := by
  have hcreate : (asm.create inst.opcode).2.Registered := h.same rfl rfl rfl
  exact hcreate.push _

theorem setName (id : ResultId) (name : String) : (asm.setName id name).Registered := by
  unfold Assembler.setName
  split
  · exact h
  next hv =>
    refine { h with names := fun e he => ?_ }
    rcases NameTable.mem_insert he with rfl | he
    · exact fun hz => hv (ResultId.isVoid_iff.mpr hz)
    · exact h.names e he

theorem registerInterface (v : InterfaceVar) : (asm.registerInterface v).Registered :=
  (h.setName v.var v.name).same rfl rfl rfl

theorem pushInterface {direction : Direction} {name : String} {type id : ResultId}
    (heq : asm.pushInterface direction name type = .ok (id, after)) : after.Registered := by
  rcases pushInterface_cases heq with rfl | rfl
  · exact h
  · exact (h.pushNew _).registerInterface _

theorem fresh_push (hop : inst.opcode.isType = true) :
    (asm.push inst).DeclaresType inst.id ∧ (asm.push inst).Fresh inst.id := by
  refine ⟨⟨inst, ?_, hop, rfl⟩, fun hone e he heq => ?_⟩
  · rw [code_push, Array.toList_push]
    exact List.mem_append_right _ (List.mem_singleton.mpr rfl)
  · rw [types_push] at he
    have hold := (h.types.declared e he).typeCount_pos
    rw [typeCount_push_self hop] at hone
    rw [heq] at hold
    omega

theorem declares (hid : asm.DeclaresType id) (hfresh : asm.Fresh id) {d : TypeDesc}
    (hd : d.WidthValid) {types : TypeRegistry} (hnew : TypeRegistry.Declares id d asm.types types) :
    Registered { asm with types } where
  types := h.types.declares hid hnew
  canonical := h.canonical.declares (fun _ hone => hone) hnew hfresh
  names := h.names
  unrepeated := hnew.unrepeated h.unrepeated
  sized := h.sized.declares hd hnew

theorem pushDeclared {inst : Instruction} (hop : inst.opcode.isType = true) {d : TypeDesc}
    (hd : d.WidthValid) {types : TypeRegistry}
    (hnew : TypeRegistry.Declares inst.id d asm.types types) :
    Registered { asm.push inst with types } := by
  obtain ⟨hid, hfresh⟩ := h.fresh_push hop
  rw [← types_push asm inst] at hnew
  exact (h.push inst).declares hid hfresh hd hnew

theorem pushType {id : ResultId} (heq : asm.pushType inst = .ok (id, after)) :
    after.Registered := by
  obtain ⟨d, hd, rfl | ⟨-, rfl⟩ | ⟨-, rfl⟩⟩ := pushType_ok heq
  · exact h
  · -- Under a new id or under its own, the descriptor is declared for what was pushed.
    have hcreate : (asm.create inst.opcode).2.Registered := h.same rfl rfl rfl
    let new : Instruction := { inst with id := ⟨asm.ids.size⟩ }
    have hnew : new.opcode.isType = true := isType_of_describe hd
    exact hcreate.pushDeclared hnew (widthValid_of_describe hd) (TypeRegistry.declares_declare _ _ d)
  · exact h.pushDeclared (isType_of_describe hd) (widthValid_of_describe hd) (TypeRegistry.declares_declare _ _ d)

theorem pushStruct (name : String) (members : List (String × ResultId)) :
    (asm.pushStruct name members).2.Registered := by
  obtain ⟨log, layout, heq, -⟩ := layoutMembers_eq name members asm { name } (List.forall_mem_nil _)
  let laid : Assembler := { asm with log }
  let start := ((laid.addString name).2.create .structType).2
  have hstart : start.Registered := h.same rfl rfl rfl
  let header := laid.structHeader name layout.members.length
  let listed := Assembler.pushMembers 0 layout.members (start.push header)
  let footer := structFooter ⟨asm.ids.size⟩
  obtain ⟨insts, hinsts, -⟩ := pushMembers_steps (fun _ => True) 0 layout.members (start.push header)
  have hcode : (listed.push footer).code.toList = (start.push header).code.toList ++ (insts ++ [footer]) := by
    rw [code_push, Array.toList_push, hinsts, List.append_assoc]
  have htypes : (listed.push footer).types = (start.push header).types :=
    (types_push listed footer).trans (by unfold listed; rw [pushMembers_eq])
  have hnames : (listed.push footer).names = (start.push header).names :=
    (names_push listed footer).trans (by unfold listed; rw [pushMembers_eq])
  obtain ⟨hid, hfresh⟩ := hstart.fresh_push (show header.opcode.isType = true from rfl)
  have hfooter := (hstart.push header).append hcode htypes hnames
  have hstruct := hfooter.declares (hid.append hcode) (hfresh.append hcode htypes) (d := .record _) trivial
    (TypeRegistry.declares_declareStruct _ header.id layout)
  rw [htypes, types_push] at hstruct
  rw [pushStruct_eq heq]
  have hclosed : ∀ closedSections, Registered { listed.push footer with
      closedSections, types := asm.types.declareStruct ⟨asm.ids.size⟩ layout } := fun _ =>
    hstruct.same rfl rfl rfl
  exact (hclosed _).setName header.id name

theorem replace (old new : ResultId) : (asm.replace old new).2.Registered := by
  have htypes : (asm.replace old new).2.types = asm.types := by rw [replace_touches]
  have hnames : (asm.replace old new).2.names = asm.names := by rw [replace_touches]
  rcases replace_cases asm old new with ⟨hcode, -⟩ | ⟨-, -, -, heq⟩
  · exact h.same hcode htypes hnames
  · refine ⟨htypes ▸ h.types.mono fun id hid => ?_, ?_, hnames ▸ h.names, htypes ▸ h.unrepeated, htypes ▸ h.sized⟩
    · obtain ⟨inst, hinst, hrest⟩ := hid
      refine ⟨inst.mapSlots fun id => if id = old then new else id, ?_, hrest⟩
      rw [heq, Array.toList_map]
      exact List.mem_map_of_mem hinst
    · intro e he hone
      rw [typeCount, heq, Array.toList_map, List.countP_map] at hone
      rw [htypes] at he ⊢
      exact h.canonical e he hone

end Registered

/-! ## Dead code removal -/

theorem isType_trailer {op t : Opcode} (h : op.trailer? = some t) : t.isType = false := by
  unfold Opcode.trailer? at h
  split at h <;> cases h <;> rfl

theorem mem_doomed_cases {i : Nat} (hi : i ∈ Sweep.doomed asm id)
    (hinst : asm.code[i]? = some inst) :
    ∃ first x, asm.definition? id = some first ∧ asm.code[first]? = some x ∧
      (i = first ∨ x.opcode.trailer? = some inst.opcode) := by
  unfold Sweep.doomed at hi
  split at hi
  · cases hi
  next first hdef =>
    split at hi
    · cases hi
    next x hx =>
      refine ⟨first, x, hdef, hx, ?_⟩
      obtain ⟨k, hk, rfl⟩ := List.mem_map.mp hi
      rw [List.mem_range] at hk
      rcases Nat.eq_zero_or_pos k with rfl | hpos
      · exact .inl rfl
      cases ht : x.opcode.trailer? with
      | none =>
        simp only [ht] at hk
        omega
      | some t =>
        simp only [ht] at hk
        obtain ⟨-, hrun⟩ := le_length_trailersAfter_iff.mp (Nat.le_of_lt_succ hk)
        obtain ⟨y, hy, hop⟩ := hrun (first + k) (by omega) (Nat.le_refl _)
        rw [hinst, Option.some.injEq] at hy
        rw [hy, hop]
        exact .inr rfl

theorem eq_of_mem_doomed (hsound : asm.DefinitionsSound) {i : Nat} (hi : i ∈ Sweep.doomed asm id)
    (hinst : asm.code[i]? = some inst) (htype : inst.opcode.isType = true) : inst.id = id := by
  obtain ⟨first, x, hdef, -, rfl | ht⟩ := mem_doomed_cases hi hinst
  · obtain ⟨-, y, hy, hyid⟩ := hsound id i hdef
    rw [hinst] at hy
    cases hy
    exact hyid
  · rw [isType_trailer ht] at htype
    cases htype

theorem typeCount_flatten (hsound : asm.DefinitionsSound) (hid : (asm.newId id).index ≠ 0) :
    asm.typeCount id ≤ asm.flatten.2.typeCount (asm.newId id) := by
  have hleft : ∀ e ∈ asm.code.toList.zipIdx, (e.1.opcode.isType && decide (e.1.id = id)) = true →
      flagged asm.sweep.removed e.2 = false := by
    intro e he hdecl
    obtain ⟨htype, rfl⟩ : e.1.opcode.isType = true ∧ e.1.id = id := by simpa using hdecl
    rw [List.mem_zipIdx_iff_getElem?, Array.getElem?_toList] at he
    rw [← Bool.not_eq_true]
    intro hgone
    obtain ⟨x, hx, hdoomed⟩ := (traced_sweep asm).removed e.2 hgone
    rw [← eq_of_mem_doomed hsound hdoomed he htype, (kept_of_newId hid).2] at hx
    cases hx
  rw [typeCount, typeCount, code_flatten, survivors, List.map_map, List.countP_map, List.countP_filter,
    ← List.zipIdx_map_fst 0 asm.code.toList, List.countP_map, List.zipIdx_map_fst]
  refine List.countP_mono_left fun e he hdecl => ?_
  obtain ⟨htype, hname⟩ : e.1.opcode.isType = true ∧ e.1.id = id := by simpa using hdecl
  have hsame : (e.1.rename asm.newId).opcode = e.1.opcode := rfl
  simp [hsame, htype, hname, hleft e he hdecl]

theorem DeclaresType.flatten (hsound : asm.DefinitionsSound) (h : asm.DeclaresType id)
    (hid : (asm.newId id).index ≠ 0) : asm.flatten.2.DeclaresType (asm.newId id) := by
  have hpos := Nat.lt_of_lt_of_le h.typeCount_pos (typeCount_flatten hsound hid)
  obtain ⟨inst, hinst, hdecl⟩ := List.countP_pos_iff.mp hpos
  exact ⟨inst, hinst, by simpa using hdecl⟩

theorem types_flatten (asm : Assembler) : asm.flatten.2.types = asm.types.rename asm.newId := by
  show asm.sweep.asm.types.rename asm.newId = _
  rw [(traced_sweep asm).frame]

theorem parts_newId (asm : Assembler) : TypeRegistry.Parts asm.newId := fun _ _ heq hz =>
  newId_inj (kept_of_newId hz) (kept_of_newId (heq ▸ hz)) heq

theorem Registered.flatten (h : asm.Registered) (hsound : asm.DefinitionsSound) :
    asm.flatten.2.Registered where
  types := types_flatten asm ▸ h.types.rename fun _ => .flatten hsound
  canonical := types_flatten asm ▸ h.canonical.rename (parts_newId asm) fun _ hid =>
    Nat.le_trans (typeCount_flatten hsound hid)
  names e he := by
    obtain ⟨x, -, hz, rfl⟩ := mem_filterMap_renamed.mp he
    exact hz
  unrepeated := types_flatten asm ▸ h.unrepeated
  sized := types_flatten asm ▸ h.sized

end Assembler

/-! ## Listings and whole runs -/

namespace Listing.Contents

open Assembler

/-- While a listing is read, the struct that is being read is declared by its header. -/
structure Rebuilding.Registered (b : Rebuilding) : Prop where
  asm : b.asm.Registered
  struct : ∀ {id layout}, b.struct? = some (id, layout) → b.asm.DeclaresType id ∧ b.asm.Fresh id

namespace Rebuilding.Registered

variable {b b' : Rebuilding} {inst : Instruction} (h : b.Registered)
include h

theorem push
    (heq : ∃ opened closed,
      b'.asm = { b.asm.push inst with openSections := opened, closedSections := closed })
    (hstruct : ∀ {id layout'}, b'.struct? = some (id, layout') → ∃ layout,
      b.struct? = some (id, layout)) :
    b'.Registered := by
  obtain ⟨opened, closed, heq⟩ := heq
  have hcode : b'.asm.code.toList = b.asm.code.toList ++ [inst] := by
    rw [heq]
    exact (congrArg Array.toList (code_push b.asm inst)).trans Array.toList_push
  have htypes : b'.asm.types = b.asm.types := by rw [heq]; exact types_push b.asm inst
  refine ⟨?_, fun hs => ?_⟩
  · rw [heq]
    exact (h.asm.push inst).same rfl rfl rfl
  · obtain ⟨layout, hs⟩ := hstruct hs
    exact (h.struct hs).imp (.append hcode) (·.append hcode htypes)

theorem add (hadds : Adds b inst b') : b'.Registered := by
  have hcode : (b.asm.push inst).code.toList = b.asm.code.toList ++ [inst] := by
    rw [code_push, Array.toList_push]
  cases hadds with
  | structType hop =>
    refine ⟨(h.asm.push inst).same rfl rfl rfl, fun hs => ?_⟩
    cases hs
    exact h.asm.fresh_push (by rw [hop]; rfl)
  | structMember =>
    refine h.push ⟨_, _, rfl⟩ fun hs => ?_
    obtain ⟨⟨id, layout⟩, hold, heq⟩ := Option.map_eq_some_iff.mp hs
    cases heq
    exact ⟨layout, hold⟩
  | @structEnd s outer =>
    have hended : (b.asm.closed inst s outer).Registered := (h.asm.push inst).same rfl rfl rfl
    rw [Rebuilding.endedTypes, ← types_closed b.asm inst s outer]
    cases hs : b.struct? with
    | none => exact ⟨hended, nofun⟩
    | some p =>
      obtain ⟨hdeclared, hfresh⟩ := h.struct hs
      have hclosed : (b.asm.closed inst s outer).Fresh p.1 := hfresh.append hcode (types_closed b.asm inst s outer)
      exact ⟨hended.declares (hdeclared.append hcode) hclosed (d := .record _) trivial
        (TypeRegistry.declares_declareStruct _ p.1 p.2), nofun⟩
  | @type d hd =>
    have hpushed := h.asm.pushDeclared (isType_of_describe hd) (widthValid_of_describe hd)
      (TypeRegistry.declares_declareAlso _ _ d)
    refine ⟨hpushed, fun {id _} hs => ?_⟩
    obtain ⟨hdeclared, hfresh⟩ := h.struct hs
    refine ⟨hdeclared.append hcode, fun hone e he heq => ?_⟩
    have hone : (b.asm.push inst).typeCount id ≤ 1 := hone
    rcases Table.mem_insertIfNew he with rfl | he
    · -- Under the id of the struct, another type makes it declared twice.
      obtain rfl : inst.id = id := heq
      have hpos := hdeclared.typeCount_pos
      rw [typeCount_push_self (isType_of_describe hd)] at hone
      omega
    · exact hfresh (Nat.le_trans (typeCount_append hcode id) hone) e he heq
  | opens | closes | plain => exact h.push ⟨_, _, rfl⟩ fun hs => ⟨_, hs⟩

end Rebuilding.Registered

theorem types_allocate (c : Contents) : c.allocate.types = {} := by
  have hfold : ∀ (ops : List Opcode) (asm : Assembler),
      (ops.foldl (fun asm op => (asm.create op).2) asm).types = asm.types := by
    intro ops
    induction ops with
    | nil => exact fun _ => rfl
    | cons op rest ih => exact fun _ => ih _
  rw [allocate_eq]
  exact hfold _ .empty

theorem registered_allocate (c : Contents) : Rebuilding.Registered { asm := c.allocate } :=
  ⟨registered_of_types_eq_empty (types_allocate c) (congrArg (·.2.1) c.labels_allocate), nofun⟩

end Contents

open Assembler Contents in
theorem registered_parse {text : String} (h : parse text = .ok asm) : asm.Registered := by
  obtain ⟨c, -, hc⟩ := exists_of_bind_eq_ok h
  have hstart := registered_allocate c
  exact rebuild_invariant hc (fun b hb =>
    ((rebuildCode_eq_ok_iff.mp hb).invariant (fun _ hadds h => h.add hadds) hstart).asm)
    (fun _ id name hasm => hasm.setName id name) (fun _ v hasm => hasm.registerInterface v)
    fun _ hasm => hasm.same (code_finish _) (types_finish _) (names_finish _)

end Listing

open Assembler in
theorem Operation.survives_registered (o : Operation) (hsound : asm.DefinitionsSound)
    (h : asm.Registered) :
    o.Survives asm Registered where
  aside _ _ _ _ ha := ha.same rfl rfl rfl
  create _ ha := ha.same rfl rfl rfl
  push _ ha := ha.push _
  setName id name ha := ha.setName id name
  interface heq := h.pushInterface heq
  type _ heq ha := ha.pushType heq
  struct := h.pushStruct _ _
  layout _ _ _ := ⟨⟨h.types.handles, h.types.declared⟩, h.canonical, h.names, h.unrepeated, h.sized⟩
  finish := h.same (code_finish _) (types_finish _) (names_finish _)
  replace _ := h.replace _ _
  flatten _ := h.flatten hsound
  merge := mergeLiterals_invariant (fun _ old new ha => ha.replace old new) h

/-- **The registry knows only types that the stream declares**, and void has no name, in every state
    that a run reaches. -/
theorem Reached.registered (h : Reached (fun _ => True) asm) : asm.Registered := by
  induction h with
  | empty => exact Assembler.registered_of_types_eq_empty rfl rfl
  | parsed hparse => exact Listing.registered_parse hparse
  | step o hreach _ ih =>
    exact (o.survives_registered (Assembler.definitionsSound_of_reached (fun _ _ _ => trivial) hreach) ih).run ih

namespace Assembler

/-! ## What dead code removal takes, whatever the counts are -/

variable {i : Nat} {x : Instruction}

theorem removed_cases_of_traced (hi : flagged asm.sweep.removed i = true)
    (hx : asm.code[i]? = some x) :
    (x.opcode.isPure = true ∧ ∃ id, asm.sweep.marked id = true ∧ asm.definition? id = some i) ∨
      x.opcode = .constructArg ∨ x.opcode = .arrayElem := by
  have hsweep := traced_sweep asm
  obtain ⟨id, hid, hdoomed⟩ := hsweep.removed i hi
  obtain ⟨first, header, hfirst, hheader, hplace⟩ := mem_doomed_cases hdoomed hx
  have hpure : header.opcode.isPure = true := by
    have hdrop := hsweep.droppable id hid
    rw [mayDrop, definingInstruction?, hfirst, Option.bind_some, hheader] at hdrop
    exact hdrop
  rcases hplace with rfl | ht
  · rw [hheader, Option.some.injEq] at hx
    subst hx
    exact .inl ⟨hpure, id, hid, hfirst⟩
  · exact .inr (Opcode.trailer_of_isPure hpure ht)

theorem opcode_of_removed (hi : flagged asm.sweep.removed i = true) (hx : asm.code[i]? = some x) :
    x.opcode.isPure = true ∨ x.opcode = .constructArg ∨ x.opcode = .arrayElem :=
  (removed_cases_of_traced hi hx).imp_left And.left

theorem not_removed_of_opcode (hx : asm.code[i]? = some x) (hpure : x.opcode.isPure = false)
    (hconstruct : x.opcode ≠ .constructArg) (harray : x.opcode ≠ .arrayElem) :
    flagged asm.sweep.removed i = false := by
  rw [Bool.eq_false_iff]
  intro hi
  rcases opcode_of_removed hi hx with hop | hop | hop
  · rw [hpure] at hop
    cases hop
  · exact hconstruct hop
  · exact harray hop

theorem not_removed_of_isMarker (hx : asm.code[i]? = some x)
    (hop : x.opcode.opens?.isSome = true ∨ x.opcode.closes?.isSome = true) :
    flagged asm.sweep.removed i = false := by
  have hmarker : ∀ op : Opcode, op.opens?.isSome = true ∨ op.closes?.isSome = true →
      op.isPure = false ∧ op ≠ .constructArg ∧ op ≠ .arrayElem := by
    intro op
    cases op <;> decide
  obtain ⟨hpure, hconstruct, harray⟩ := hmarker _ hop
  exact not_removed_of_opcode hx hpure hconstruct harray

/-! ## Where the rest moves to -/

def movedTo (asm : Assembler) (i : Nat) : Option Nat :=
  ((((Arena.mk asm.code).compact fun i _ => !asm.sweep.removed.getD i false).2)[i]?).join

theorem movedTo_eq (hi : i < asm.code.size) (hleft : flagged asm.sweep.removed i = false) :
    asm.movedTo i = some (rank asm.sweep.removed i) := Arena.join_compact asm.sweep.removed hi hleft

theorem closedSections_flatten (asm : Assembler) :
    asm.flatten.2.closedSections = asm.closedSections.filterMap fun c =>
      if c.span.stop = 0 then none
      else (asm.movedTo c.span.first).bind fun first =>
        (asm.movedTo (c.span.stop - 1)).bind fun last =>
          some { c with header := asm.newId c.header, span := .inclusive first last } := by
  have hframe := (traced_sweep asm).frame
  have hcode : asm.sweep.asm.code = asm.code := by rw [hframe]
  have hclosed : asm.sweep.asm.closedSections = asm.closedSections := by rw [hframe]
  rw [← hclosed]
  unfold movedTo
  rw [← hcode]
  rfl

theorem openSections_flatten (asm : Assembler) :
    asm.flatten.2.openSections = asm.openSections.map fun s =>
      { s with
        header := asm.newId s.header
        start := (asm.movedTo s.start).getD s.start
        loops := s.loops.map (·.rename asm.newId) } := by
  have hframe := (traced_sweep asm).frame
  have hcode : asm.sweep.asm.code = asm.code := by rw [hframe]
  have hopened : asm.sweep.asm.openSections = asm.openSections := by rw [hframe]
  rw [← hopened]
  unfold movedTo
  rw [← hcode]
  rfl

end Assembler

end ShaderIR
