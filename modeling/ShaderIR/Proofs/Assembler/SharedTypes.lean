import ShaderIR.Proofs.Assembler.Histories

/-!
# Types are shared over whole histories

Descriptors name what is nested in them by position and are never dropped, while dead code removal
drops and renumbers ids; so a descriptor may outlive its id and get another one later.  The
invariant ties them to the stream: every declaration **stands** for the descriptor that the registry
has for its id.
-/

namespace ShaderIR

open Operation (runAll)

namespace Assembler

variable {inst : Instruction} {after : Assembler} {b : Assembler}

/-! ## Declarations and descriptors -/

theorem describe_related {R : TypeHandle → TypeHandle → Prop} {a : Assembler} {x y : Instruction}
    (hop : y.opcode = x.opcode) (hoperands : y.operands = x.operands)
    (hfst : ∀ h, a.types.handle? x.refs.fst = some h → ∃ k, b.types.handle? y.refs.fst = some k ∧
      R h k)
    (hsnd : ∀ h, a.types.handle? x.refs.snd = some h → ∃ k, b.types.handle? y.refs.snd = some k ∧
      R h k) {d : TypeDesc} (hd : a.describe x = .ok d) :
    ∃ d', b.describe y = .ok d' ∧ d.Related R d' := by
  have hinner : ∀ {r s : ResultId} {h : TypeHandle},
      (∀ h, a.types.handle? r = some h → ∃ k, b.types.handle? s = some k ∧ R h k) →
      a.innerHandle r = .ok h → ∃ k, b.innerHandle s = .ok k ∧ R h k := by
    intro r s h hrs hr
    unfold innerHandle at hr
    split at hr
    next hk =>
      cases hr
      obtain ⟨k, hk, hR⟩ := hrs _ hk
      exact ⟨k, by rw [innerHandle, hk], hR⟩
    next => cases hr
  unfold describe at hd ⊢
  dsimp only at hd ⊢
  rw [hop, hoperands]
  generalize x.opcode = op at hd ⊢
  cases op with
  | voidType | boolType =>
    cases hd
    exact ⟨_, rfl, .same rfl nofun⟩
  | floatType | sintType | uintType =>
    obtain ⟨_, hwidth, hd⟩ := exists_of_bind_eq_ok hd
    cases hd
    exact ⟨_, by dsimp only; rw [hwidth]; rfl, .same rfl nofun⟩
  | arrayType | vectorType =>
    dsimp only at hd ⊢
    split at hd
    · cases hd
    next hcount =>
      rw [if_neg hcount]
      obtain ⟨h, hh, hd⟩ := exists_of_bind_eq_ok hd
      obtain ⟨k, hk, hR⟩ := hinner hfst hh
      cases hd
      exact ⟨_, by rw [hk]; rfl, by constructor; exact hR⟩
  | matrixType =>
    dsimp only at hd ⊢
    split at hd
    · cases hd
    next hcolumns =>
      split at hd
      · cases hd
      next hrows =>
        rw [if_neg hcolumns, if_neg hrows]
        obtain ⟨h, hh, hd⟩ := exists_of_bind_eq_ok hd
        obtain ⟨k, hk, hR⟩ := hinner hfst hh
        cases hd
        exact ⟨.matrix k x.operands.fst x.operands.snd, by rw [hk]; rfl, .matrix hR⟩
  | pointerType =>
    obtain ⟨h, hh, hd⟩ := exists_of_bind_eq_ok hd
    obtain ⟨k, hk, hR⟩ := hinner hfst hh
    cases hd
    exact ⟨.pointer k, by dsimp only; rw [hk]; rfl, .pointer hR⟩
  | tupleType =>
    obtain ⟨h, hh, hd⟩ := exists_of_bind_eq_ok hd
    obtain ⟨i, hi, hd⟩ := exists_of_bind_eq_ok hd
    obtain ⟨k, hk, hR⟩ := hinner hfst hh
    obtain ⟨j, hj, hR'⟩ := hinner hsnd hi
    cases hd
    exact ⟨.tuple k j, by dsimp only; rw [hk, hj]; rfl, .tuple hR hR'⟩
  | _ => cases hd

variable {asm : Assembler}

theorem describe_ne_record {d : TypeDesc}
    (hd : asm.describe inst = .ok d) (l : LayoutHandle) : d ≠ .record l := by
  obtain ⟨d', -, hrelated⟩ := describe_related (R := Eq) (b := asm) (y := inst) rfl rfl
    (fun k hk => ⟨k, hk, rfl⟩) (fun k hk => ⟨k, hk, rfl⟩) hd
  exact hrelated.ne_record l

/-- The descriptor that the registry has for the id of a declaration is what the declaration says.
    -/
structure Stands (asm : Assembler) (inst : Instruction) : Prop where
  id : inst.id.index ≠ 0
  struct : inst.opcode = .structType → ∃ l, asm.types.ofId? inst.id = some (.record l)
  type : inst.opcode ≠ .structType → ∃ d, asm.describe inst = .ok d ∧ asm.types.ofId? inst.id = some d

theorem Stands.transport {a : Assembler} {x y : Instruction} (h : a.Stands x)
    (hop : y.opcode = x.opcode) (hoperands : y.operands = x.operands) (hz : y.id.index ≠ 0)
    (hid : b.types.ofId? y.id = a.types.ofId? x.id)
    (hfst : ∀ k, a.types.handle? x.refs.fst = some k → b.types.handle? y.refs.fst = some k)
    (hsnd : ∀ k, a.types.handle? x.refs.snd = some k → b.types.handle? y.refs.snd = some k) :
    b.Stands y where
  id := hz
  struct hy := hid ▸ h.struct (hop ▸ hy)
  type hy := by
    obtain ⟨d, hd, hofId⟩ := h.type (hop ▸ hy)
    obtain ⟨d', hd', hrelated⟩ := describe_related (R := Eq) (b := b) hop hoperands
      (fun k hk => ⟨k, hfst k hk, rfl⟩) (fun k hk => ⟨k, hsnd k hk, rfl⟩) hd
    rw [hrelated.eq] at hd'
    exact ⟨d, hd', hid.trans hofId⟩

/-! ## The invariant -/

/-- The stream, the table of ids and the registry agree on what is a type, and no type is there
    twice. -/
structure SharesTypes (asm : Assembler) : Prop where
  coherent : asm.Coherent
  interned : asm.types.Interned
  declares : ∀ {id h}, asm.types.handle? id = some h → asm.DeclaresType id
  stands : ∀ inst ∈ asm.code.toList, inst.opcode.isType = true → asm.Stands inst

theorem sharesTypes_empty : SharesTypes .empty where
  coherent := coherent_empty
  interned := .empty
  declares h := by cases h
  stands inst hinst := by cases hinst

namespace SharesTypes

variable {asm : Assembler} (h : asm.SharesTypes)
include h

/-- **The ids that are types** are those that a declaration defines. -/
theorem isSome_handle?_iff (id : ResultId) : (asm.types.handle? id).isSome = true ↔
      ∃ inst, asm.definingInstruction? id = some inst ∧ inst.opcode.isType = true := by
  constructor
  · intro hid
    obtain ⟨k, hk⟩ := Option.isSome_iff_exists.mp hid
    obtain ⟨inst, hinst, htype, rfl⟩ := h.declares hk
    obtain ⟨i, hi⟩ := Array.getElem?_of_mem (Array.mem_toList_iff.mp hinst)
    have hdef := h.coherent.definition?_eq hi (h.stands inst hinst htype).id
    exact ⟨inst, by rw [definingInstruction?, hdef, Option.bind_some, hi], htype⟩
  · rintro ⟨inst, hdef, htype⟩
    obtain ⟨i, hi, hinst⟩ := Option.bind_eq_some_iff.mp hdef
    obtain ⟨x, hx, rfl, -⟩ := h.coherent.exists_of_definition? hi
    cases hinst.symm.trans hx
    have hstands := h.stands inst (mem_code hinst) htype
    -- Every declaration has a descriptor, so its id has one.
    have hofId : (asm.types.ofId? inst.id).isSome = true := by
      by_cases hop : inst.opcode = .structType
      · obtain ⟨l, hl⟩ := hstands.struct hop
        rw [hl]
        rfl
      · obtain ⟨d, -, hd⟩ := hstands.type hop
        rw [hd]
        rfl
    obtain ⟨d, hd⟩ := Option.isSome_iff_exists.mp hofId
    obtain ⟨k, hk, -⟩ := Option.bind_eq_some_iff.mp hd
    rw [hk]
    rfl

theorem handle?_eq_some_iff (id : ResultId) (k : TypeHandle) :
    asm.types.handle? id = some k ↔ asm.types.idOf? k = some id :=
  ⟨h.interned.standing, h.interned.canonical⟩

theorem handle?_of_accepts (ha : asm.Accepts inst) (hz : inst.id.index ≠ 0) :
    asm.types.handle? inst.id = none := by
  rw [← Option.not_isSome_iff_eq_none, h.isSome_handle?_iff]
  rintro ⟨x, hx, -⟩
  rw [definingInstruction?, (ha.own hz).2.2] at hx
  cases hx

/-! ## Steps that build -/

omit h in
theorem same (h : asm.SharesTypes) (hcode : b.code = asm.code) (hids : b.ids = asm.ids)
    (htypes : b.types = asm.types) : b.SharesTypes where
  coherent := h.coherent.same hcode hids
  interned := htypes ▸ h.interned
  declares hk := by
    obtain ⟨inst, hinst, hinst'⟩ := h.declares (htypes ▸ hk)
    exact ⟨inst, hcode ▸ hinst, hinst'⟩
  stands inst hinst htype := by
    have hstands := h.stands inst (hcode ▸ hinst) htype
    exact hstands.transport rfl rfl hstands.id (by rw [htypes]) (by rw [htypes]; exact fun _ => id)
      (by rw [htypes]; exact fun _ => id)

theorem setLayout (l : LayoutHandle) (layout : StructLayout) :
    SharesTypes { asm with types := asm.types.setLayout l layout } where
  coherent := h.coherent.same rfl rfl
  interned := h.interned.setLayout l layout
  declares := h.declares
  stands inst hinst htype := by
    have hstands := h.stands inst hinst htype
    exact hstands.transport rfl rfl hstands.id rfl (fun _ => id) (fun _ => id)

theorem create (op : Opcode) : (asm.create op).2.SharesTypes where
  coherent := h.coherent.create op
  interned := h.interned
  declares := h.declares
  stands inst hinst htype := by
    have hstands := h.stands inst hinst htype
    exact hstands.transport rfl rfl hstands.id rfl (fun _ => id) (fun _ => id)

theorem push (ha : asm.Accepts inst) (hop : inst.opcode.isType = false) :
    (asm.push inst).SharesTypes where
  coherent := h.coherent.push ha
  interned := types_push asm inst ▸ h.interned
  declares hk := (h.declares (types_push asm inst ▸ hk)).push (code_push asm inst)
  stands x hx htype := by
    rcases mem_of_code_push (code_push asm inst) hx with hx | rfl
    · have hstands := h.stands x hx htype
      have htypes := types_push asm inst
      exact hstands.transport rfl rfl hstands.id (by rw [htypes]) (by rw [htypes]; exact fun _ => id)
        (by rw [htypes]; exact fun _ => id)
    · rw [hop] at htype
      cases htype

theorem pushDeclared (ha : asm.Accepts inst) (hop : inst.opcode.isType = true)
    (hz : inst.id.index ≠ 0) {types : TypeRegistry} (hinterned : types.Interned)
    (hhandle : ∀ {id}, id ≠ inst.id → types.handle? id = asm.types.handle? id)
    (hofId : ∀ {id}, id ≠ inst.id → types.ofId? id = asm.types.ofId? id)
    (hself : Stands { asm.push inst with types } inst) :
    SharesTypes { asm.push inst with types } where
  coherent := (h.coherent.push ha).same rfl rfl
  interned := hinterned
  declares {id k} hk := by
    by_cases hid : id = inst.id
    · exact ⟨inst, mem_code_push_self (code_push asm inst), hop, hid.symm⟩
    · exact (h.declares ((hhandle hid).symm.trans hk)).push (code_push asm inst)
  stands x hx htype := by
    rcases mem_of_code_push (code_push asm inst) hx with hx | rfl
    · have hstands := h.stands x hx htype
      have hnone := h.handle?_of_accepts ha hz
      -- What was a type before is not what is declared now.
      have hkeep : ∀ {r k}, asm.types.handle? r = some k → types.handle? r = some k := by
        intro r k hk
        have hne : r ≠ inst.id := by
          rintro rfl
          rw [hnone] at hk
          cases hk
        rw [hhandle hne, hk]
      have hne := h.coherent.id_ne_of_accepts ha hz hx
      exact hstands.transport rfl rfl hstands.id (hofId hne) (fun _ => hkeep) (fun _ => hkeep)
    · exact hself

theorem declare {d : TypeDesc} (ha : asm.Accepts inst) (hz : inst.id.index ≠ 0)
    (hd : asm.describe inst = .ok d) (hnew : asm.types.declared? d = none) :
    SharesTypes { asm.push inst with types := asm.types.declare inst.id d } := by
  have hnone := h.handle?_of_accepts ha hz
  have hop := isType_of_describe hd
  have hparts := nested_of_describe hd
  have hinner : ∀ i ∈ d.inner, (asm.types.desc? i).isSome = true := by
    intro i hi
    obtain ⟨r, -, hr⟩ := hparts i hi
    exact h.interned.described hr
  have hdeclares := TypeRegistry.declares_declare asm.types inst.id d
  have hhandle : ∀ {id}, id ≠ inst.id → (asm.types.declare inst.id d).handle? id = asm.types.handle? id :=
    fun hne => Table.get?_insert_of_ne hne.symm
  refine h.pushDeclared ha hop hz (h.interned.declare hnone hnew hinner fun l hl => ?_) hhandle
    (hdeclares.ofId?_of_ne h.interned.toConsistent) ⟨hz, fun hstruct => ?_, fun _ => ?_⟩
  · exact absurd hl (describe_ne_record hd l)
  · rw [describe, hstruct] at hd
    cases hd
  · obtain ⟨d', hd', hrelated⟩ := describe_related (R := Eq) (a := asm)
      (b := { asm.push inst with types := asm.types.declare inst.id d }) (x := inst) (y := inst) rfl rfl
      (fun k hk => ⟨k, hdeclares.handle?_of_handle? hnone hk, rfl⟩)
      (fun k hk => ⟨k, hdeclares.handle?_of_handle? hnone hk, rfl⟩) hd
    rw [hrelated.eq] at hd'
    exact ⟨d, hd', hdeclares.ofId?_self⟩

theorem declareStruct (ha : asm.Accepts inst) (hz : inst.id.index ≠ 0)
    (hop : inst.opcode = .structType) (layout : StructLayout) :
    SharesTypes { asm.push inst with types := asm.types.declareStruct inst.id layout } := by
  have hnone := h.handle?_of_accepts ha hz
  refine h.pushDeclared ha (by rw [hop]; rfl) hz (h.interned.declareStruct layout hnone) (fun hne => ?_)
    (fun hne => ?_) ⟨hz, fun _ => ?_, fun hne => absurd hop hne⟩
  · exact Table.get?_insert_of_ne hne.symm
  · exact (TypeRegistry.declares_declareStruct ..).ofId?_of_ne h.interned.toConsistent hne
  · exact ⟨_, (TypeRegistry.declares_declareStruct ..).ofId?_self⟩

/-! ## Passes -/

omit h in
theorem types_replace (asm : Assembler) (old new : ResultId) :
    (asm.replace old new).2.types = asm.types := by
  rw [replace_touches]

/-- **Replacing an id that is no type.**  The parts of a type are types, so they are left alone. -/
theorem replace {old : ResultId} (hold : asm.types.handle? old = none) (new : ResultId) :
    (asm.replace old new).2.SharesTypes := by
  have htypes := types_replace asm old new
  rcases replace_cases asm old new with ⟨hcode, hids⟩ | ⟨-, -, -, heq⟩
  · exact h.same hcode hids htypes
  · have hcode : (asm.replace old new).2.code.toList =
        asm.code.toList.map (·.mapSlots fun id => if id = old then new else id) := by
      rw [heq]
      exact Array.toList_map
    have hkeep : ∀ {r k}, asm.types.handle? r = some k →
        (asm.replace old new).2.types.handle? (if r = old then new else r) = some k := by
      intro r k hk
      have hne : r ≠ old := by
        rintro rfl
        rw [hold] at hk
        cases hk
      rw [if_neg hne, htypes, hk]
    refine ⟨h.coherent.replace old new, htypes ▸ h.interned, fun {id k} hk => ?_, fun y hy htype => ?_⟩
    · obtain ⟨x, hx, htype, rfl⟩ := h.declares (htypes ▸ hk)
      refine ⟨x.mapSlots fun id => if id = old then new else id, ?_, htype, rfl⟩
      rw [hcode]
      exact List.mem_map_of_mem hx
    · rw [hcode] at hy
      obtain ⟨x, hx, rfl⟩ := List.mem_map.mp hy
      have hstands := h.stands x hx htype
      exact hstands.transport rfl rfl hstands.id (by rw [htypes]; rfl) (fun _ => hkeep) (fun _ => hkeep)

theorem mergeLiterals : asm.mergeLiterals.2.SharesTypes := by
  have hfold : ∀ (l : List (ResultId × ResultId)) (n : Nat) (asm : Assembler), asm.SharesTypes →
      (∀ e ∈ l, asm.types.handle? e.1 = none) → (redirectLiterals l (n, asm)).2.SharesTypes := by
    intro l
    induction l with
    | nil => exact fun _ _ h _ => h
    | cons e rest ih =>
      intro n asm h hl
      obtain ⟨hfirst, hrest⟩ := List.forall_mem_cons.mp hl
      unfold redirectLiterals
      split
      · exact ih n asm h hrest
      · refine ih _ (asm.replace e.1 e.2).2 (h.replace hfirst e.2) fun x hx => ?_
        rw [types_replace, hrest x hx]
  refine hfold _ 0 asm h fun e he => ?_
  obtain ⟨-, j, -, y, -, -, hy, -, hid, -, hz, hmerge, -⟩ := standsFor_of_mem_repeatedLiterals he
  rw [← Option.not_isSome_iff_eq_none, h.isSome_handle?_iff]
  rintro ⟨inst, hinst, htype⟩
  have hdef := h.coherent.definition?_eq hy (hid ▸ hz)
  rw [definingInstruction?, ← hid, hdef, Option.bind_some, hy, Option.some.injEq] at hinst
  subst hinst
  generalize y.opcode = op at hmerge htype
  cases op <;> simp [Opcode.isMergeable, Opcode.isType] at hmerge htype

/-- **Dead code removal** gives every type that is left its new number, in the stream and in the
    registry. -/
theorem flatten : asm.flatten.2.SharesTypes := by
  have hexact := h.coherent.exact
  have hparts := parts_newId asm
  have hhandle : ∀ {r}, (asm.newId r).index ≠ 0 →
      asm.flatten.2.types.handle? (asm.newId r) = asm.types.handle? r := by
    intro r hr
    rw [types_flatten]
    exact TypeRegistry.get?_renameKeys asm.types.handles hparts hr
  refine ⟨h.coherent.flatten, types_flatten asm ▸ h.interned.rename hparts, fun {id k} hk => ?_,
    fun y hy htype => ?_⟩
  · rw [types_flatten] at hk
    obtain ⟨x, rfl, hz, hx⟩ := TypeRegistry.exists_of_handle?_rename hparts hk
    exact (h.declares hx).flatten h.coherent.sound hz
  · rw [code_flatten asm] at hy
    obtain ⟨x, hx, rfl⟩ := List.mem_map.mp hy
    obtain ⟨i, hi, -⟩ := mem_survivors.mp hx
    have hstands := h.stands x (mem_code hi) htype
    have hkept := kept_of_mem_survivors hexact h.coherent.definition?_iff h.coherent.allocated hx (.inl rfl)
    have hz := newId_ne_zero hkept hstands.id
    -- What a declaration that is left refers to is left as well.
    have hkeep : ∀ {r k}, r ∈ x.slots → asm.types.handle? r = some k →
        asm.flatten.2.types.handle? (asm.newId r) = some k := by
      intro r k hr hk
      obtain ⟨decl, hdecl, hdeclType, rfl⟩ := h.declares hk
      have hrz := newId_ne_zero (kept_of_mem_slots hexact hx hr) (h.stands decl hdecl hdeclType).id
      rw [hhandle hrz, hk]
    refine hstands.transport rfl rfl hz ?_ (fun _ hk => hkeep ?_ hk) (fun _ hk => hkeep ?_ hk)
    · show asm.flatten.2.types.ofId? (asm.newId x.id) = _
      rw [TypeRegistry.ofId?, hhandle hz, types_flatten]
      rfl
    · exact Instruction.mem_slots.mpr (.inl rfl)
    · exact Instruction.mem_slots.mpr (.inr (.inl rfl))

/-! ## Operations -/

theorem pushNew (hop : inst.opcode.isType = false)
    (hclean : (asm.pushNew inst).2.Clean) : (asm.pushNew inst).2.SharesTypes :=
  (h.create inst.opcode).push (clean_push.mp hclean).2 hop

theorem setName (id : ResultId) (name : String) : (asm.setName id name).SharesTypes := by
  refine h.same (code_setName ..) (ids_setName ..) ?_
  unfold Assembler.setName
  split <;> rfl

theorem pushInterface {direction : Direction} {name : String} {type id : ResultId}
    (heq : asm.pushInterface direction name type = .ok (id, after)) (hclean : after.Clean) :
    after.SharesTypes := by
  rcases pushInterface_cases heq with rfl | rfl
  · exact h
  · have hpushed : (asm.pushNew (asm.interfaceDecl direction type)).2.Clean := clean_setName.mp hclean
    refine ((h.pushNew ?_ hpushed).setName _ _).same rfl rfl rfl
    cases direction <;> rfl

theorem pushType {id : ResultId} (hv : inst.id.isVoid = true)
    (heq : asm.pushType inst = .ok (id, after)) (hclean : after.Clean) : after.SharesTypes := by
  obtain ⟨d, hd, ⟨-, rfl⟩ | ⟨hnew, -, rfl⟩⟩ := pushType_cases hv heq
  · exact h
  · have hpushed : (asm.pushNew inst).2.Clean := hclean
    have hz : asm.ids.size ≠ 0 := Nat.ne_of_gt h.coherent.exact.nonempty
    exact (h.create inst.opcode).declare (clean_push.mp hpushed).2 hz hd hnew

theorem pushMembers {i : Nat} {members : List (String × ResultId)}
    (hclean : (pushMembers i members asm).Clean) : (pushMembers i members asm).SharesTypes := by
  induction members generalizing i asm with
  | nil => exact h
  | cons m rest ih =>
    have hpushed := @clean_of_pushMembers ((asm.addString m.1).2.push (asm.structTrailer i m)) rest (i + 1) hclean
    have hstring : (asm.addString m.1).2.SharesTypes := h.same rfl rfl rfl
    exact ih (hstring.push (clean_push.mp hpushed).2 rfl) hclean

omit h in
theorem pushMembers_withTypes (types : TypeRegistry) (i : Nat) (members : List (String × ResultId))
    (asm : Assembler) : Assembler.pushMembers i members { asm with types } =
      { Assembler.pushMembers i members asm with types } := by
  induction members generalizing i asm with
  | nil => rfl
  | cons m rest ih =>
    rw [pushMembers_cons, pushMembers_cons, ← ih, ← push_withTypes]
    rfl

theorem pushStruct {name : String} {members : List (String × ResultId)}
    (hclean : (asm.pushStruct name members).2.Clean) :
    (asm.pushStruct name members).2.SharesTypes := by
  obtain ⟨-, -, -, hended, heq⟩ := pushStruct_of_clean hclean
  obtain ⟨hlisted, hfooter⟩ := clean_push.mp hended
  have hopened : (asm.structOpened name members.length).Clean := clean_of_pushMembers hlisted
  have hz : asm.ids.size ≠ 0 := Nat.ne_of_gt h.coherent.exact.nonempty
  -- The registry may as well learn of the struct before its members are listed.
  let types := asm.types.declareStruct ⟨asm.ids.size⟩ { name, members }
  have hstring : (asm.addString name).2.SharesTypes := h.same rfl rfl rfl
  have hheader : SharesTypes { asm.structOpened name members.length with types } :=
    (hstring.create .structType).declareStruct (clean_push.mp hopened).2 hz rfl { name, members }
  have hmembers : SharesTypes
      { Assembler.pushMembers 0 members (asm.structOpened name members.length) with types } := by
    rw [← pushMembers_withTypes]
    apply hheader.pushMembers
    rw [pushMembers_withTypes]
    exact hlisted
  have hall : SharesTypes { asm.structEnded name members with types } := by
    rw [structEnded, ← push_withTypes]
    exact hmembers.push ⟨hfooter.own, hfooter.slots⟩ rfl
  rw [heq]
  apply setName
  exact hall.same rfl rfl rfl

end SharesTypes

/-! ## Histories -/

/-- Types are declared as such, and only ids that are no types are replaced. -/
def PermitsSharing (asm : Assembler) : Operation → Prop
  | .push inst | .pushNew inst | .pushValue inst _ | .beginSection inst => inst.opcode.isType = false
  | .pushMany insts => ∀ inst ∈ insts, inst.opcode.isType = false
  | .pushType inst => inst.id.isVoid = true
  | .replace old _ => asm.types.handle? old = none
  | _ => True

instance (asm : Assembler) : DecidablePred asm.PermitsSharing
  | .push _ | .pushNew _ | .pushValue _ _ | .beginSection _ => inferInstanceAs (Decidable (_ = _))
  | .pushMany insts => inferInstanceAs (Decidable (∀ inst ∈ insts, inst.opcode.isType = false))
  | .pushType _ => inferInstanceAs (Decidable (_ = _))
  | .replace _ _ => inferInstanceAs (Decidable (_ = _))
  | .create _ | .endSection _ | .pushLoop _ | .popLoop | .pushLoopExit _ | .finish | .addString _
  | .setName _ _ | .pushInterface _ _ _ | .pushStruct _ _ | .modifyLayout _ _ | .convert _ _ _
  | .unifyOperands _ _ _ | .flatten | .mergeLiterals => .isTrue trivial

theorem SharesTypes.run {o : Operation} (h : asm.SharesTypes)
    (hpermits : asm.PermitsSharing o) (hclean : (o.run asm).Clean) : (o.run asm).SharesTypes := by
  have hpushed : ∀ op ∈ o.pushed, op.isType = false := by
    cases o with
    | push | pushNew | pushValue | beginSection => exact List.forall_mem_singleton.mpr hpermits
    | pushMany insts => exact List.forall_mem_map.mpr hpermits
    | _ => exact List.forall_mem_nil _
  have hsurvives : o.Survives asm fun b => b.Clean → b.SharesTypes := by
    constructor
    case aside => exact fun _ _ _ _ ha hb => (ha hb).same rfl rfl rfl
    case create => exact fun op ha hb => (ha hb).create op
    case push =>
      intro a inst hop ha hb
      obtain ⟨hclean, haccepts⟩ := clean_push.mp hb
      refine (ha hclean).push haccepts (Bool.eq_false_iff.mpr fun htype => ?_)
      rw [hpushed _ (hop htype)] at htype
      cases htype
    case setName => exact fun id name ha hb => (ha (clean_setName.mp hb)).setName id name
    case interface => exact h.pushInterface
    case type =>
      intro a inst id after hvoid heq ha hb
      have hv : inst.id.isVoid = true := by
        rcases hvoid with hv | rfl
        · exact hv
        · exact hpermits
      exact (ha (clean_of_pushType heq hb)).pushType hv heq hb
    case struct => exact h.pushStruct
    case layout => exact fun l layout _ _ => h.setLayout l layout
    case finish => exact fun _ => h.same (code_finish _) (ids_finish _) (types_finish _)
    case replace =>
      rintro old new rfl _
      exact h.replace hpermits new
    case flatten => exact fun _ _ => h.flatten
    case merge => exact fun _ => h.mergeLiterals
  exact hsurvives.run (fun _ => h) hclean

theorem sharesTypes_of_history (h : History PermitsSharing asm) (hclean : asm.Clean) :
    asm.SharesTypes :=
  h.invariant hclean sharesTypes_empty fun _ _ _ hpermits hclean hasm => hasm.run hpermits hclean

/-! ## Asking for a type -/

namespace SharesTypes

variable {asm : Assembler} (h : asm.SharesTypes) {inst : Instruction} {d : TypeDesc}
include h

theorem isSome_desc?_of_describe (hd : asm.describe inst = .ok d) :
    ∀ i ∈ d.inner, (asm.types.desc? i).isSome = true := by
  intro i hi
  obtain ⟨r, -, hr⟩ := nested_of_describe hd i hi
  exact h.interned.described hr

theorem exists_shape_of_describe (hd : asm.describe inst = .ok d) :
    ∃ s, d.shapeWith asm.types.shape? = some s := by
  refine Option.isSome_iff_exists.mp (TypeDesc.isSome_shapeWith fun i hi => ?_)
  exact h.interned.layered.isSome_shapeAt (Nat.lt_succ_self i.slot) (h.isSome_desc?_of_describe hd i hi)

/-- **An id has the shape of a descriptor** exactly if it stands for it. -/
theorem shapeOf?_eq_iff {s : TypeShape} (hs : d.shapeWith asm.types.shape? = some s)
    (id : ResultId) :
    asm.types.shapeOf? id = some s ↔ asm.types.declared? d = some id := by
  constructor
  · intro hid
    obtain ⟨k, hk, hshape⟩ := Option.bind_eq_some_iff.mp hid
    obtain ⟨d', hd'⟩ := Option.isSome_iff_exists.mp (h.interned.described hk)
    have heq : d = d' := by
      refine TypeDesc.eq_of_shapeWith hs ((h.interned.layered.shape?_eq hd').symm.trans hshape) ?_
      exact fun i _ j _ t hi hj => h.interned.unrepeated.eq_of_shapeAt hi hj
    subst heq
    rw [h.interned.declared?_of_desc? hd', h.interned.standing hk]
  · intro hid
    obtain ⟨k, hk, hidOf⟩ := TypeRegistry.declared?_eq_some hid
    rw [TypeRegistry.shapeOf?, h.interned.canonical hidOf, Option.bind_some, h.interned.layered.shape?_eq hk, hs]

end SharesTypes

/-- **What it means that types are shared.** -/
structure InternsTypes (asm : Assembler) : Prop where
  /-- The tables from ids to descriptors and back are inverse to each other. -/
  inverse : ∀ id k, asm.types.handle? id = some k ↔ asm.types.idOf? k = some id
  /-- Types are the ids that a declaration defines. -/
  declared : ∀ id, (asm.types.handle? id).isSome = true ↔
    ∃ inst, asm.definingInstruction? id = some inst ∧ inst.opcode.isType = true
  /-- A declaration describes the descriptor that its id has. -/
  described : ∀ id inst, asm.definingInstruction? id = some inst → inst.opcode.isType = true →
    inst.opcode ≠ .structType → ∃ d, asm.describe inst = .ok d ∧ asm.types.ofId? id = some d
  shaped : ∀ id, (asm.types.handle? id).isSome = true → (asm.types.shapeOf? id).isSome = true
  distinct : ∀ x y s, asm.types.shapeOf? x = some s → asm.types.shapeOf? y = some s → x = y
  /-- Asking for a type finds the one of its shape. -/
  found : ∀ inst d, inst.id.isVoid = true → asm.describe inst = .ok d →
    ∀ id, asm.types.shapeOf? id = d.shapeWith asm.types.shape? → asm.pushType inst = .ok (id, asm)
  /-- If there is none, it appends one declaration, of that shape. -/
  appended : ∀ inst d, inst.id.isVoid = true → asm.describe inst = .ok d →
    (∀ id, asm.types.shapeOf? id ≠ d.shapeWith asm.types.shape?) →
    ∃ after, asm.pushType inst = .ok (⟨asm.ids.size⟩, after) ∧
      after.code = asm.code.push { inst with id := ⟨asm.ids.size⟩ } ∧
      after.types.shapeOf? ⟨asm.ids.size⟩ = d.shapeWith asm.types.shape? ∧
      (d.shapeWith asm.types.shape?).isSome = true

/-- In every history without problems that declares types by asking for them, and in which no type
    is replaced, types are shared; dead code may be removed at any point. -/
theorem internsTypes_of_history {asm : Assembler} (h : History PermitsSharing asm)
    (hclean : asm.Clean) :
    asm.InternsTypes := by
  have hshares := sharesTypes_of_history h hclean
  refine ⟨hshares.handle?_eq_some_iff, hshares.isSome_handle?_iff, fun id inst hdef htype hop => ?_,
    fun id hid => ?_, fun x y s hx hy => hshares.interned.eq_of_shapeOf? hx hy,
    fun inst d hv hd id hid => ?_, fun inst d hv hd hnone => ?_⟩
  · obtain ⟨i, hi, hinst⟩ := Option.bind_eq_some_iff.mp hdef
    obtain ⟨x, hx, rfl, -⟩ := hshares.coherent.exists_of_definition? hi
    cases hinst.symm.trans hx
    exact (hshares.stands inst (mem_code hinst) htype).type hop
  · obtain ⟨k, hk⟩ := Option.isSome_iff_exists.mp hid
    exact hshares.interned.layered.isSome_shapeOf? hk
  · obtain ⟨s, hs⟩ := hshares.exists_shape_of_describe hd
    rw [pushType_eq hv hd, (hshares.shapeOf?_eq_iff hs id).mp (hid.trans hs)]
  · obtain ⟨s, hs⟩ := hshares.exists_shape_of_describe hd
    -- No id has this shape, so none stands for the descriptor.
    have hnew : asm.types.declared? d = none := by
      rw [Option.eq_none_iff_forall_ne_some]
      intro id hid
      exact hnone id (((hshares.shapeOf?_eq_iff hs id).mpr hid).trans hs.symm)
    have hinner := hshares.isSome_desc?_of_describe hd
    refine ⟨asm.declareNew inst d, by rw [pushType_eq hv hd, hnew], code_pushNew asm inst, ?_, by rw [hs]; rfl⟩
    exact (TypeRegistry.declares_declare ..).shapeOf?_self hshares.interned.layered hinner

def redeclaringRun : List Operation :=
  [.pushType { opcode := .floatType, operands := ⟨32, 0, 0⟩ },
    .pushType { opcode := .vectorType, operands := ⟨4, 0, 0⟩, refs := ⟨⟨1⟩, .void, .void⟩ },
    .pushType { opcode := .sintType, operands := ⟨32, 0, 0⟩ },
    .pushNew { opcode := .globalVar, refs := ⟨⟨3⟩, .void, .void⟩ }, .flatten,
    .pushStruct "pair" [("first", ⟨1⟩), ("second", ⟨1⟩)],
    .pushType { opcode := .floatType, operands := ⟨32, 0, 0⟩ },
    .pushType { opcode := .vectorType, operands := ⟨4, 0, 0⟩, refs := ⟨⟨4⟩, .void, .void⟩ }]

theorem internsTypes_redeclaringRun : (runAll redeclaringRun).Clean ∧
      (runAll redeclaringRun).types.shapeOf? ⟨5⟩ = some (.vector (.float 32) 4) ∧
      (runAll redeclaringRun).InternsTypes := by
  have hclean : (runAll redeclaringRun).Clean := by decide +kernel
  have hpermitted : Operation.permitted PermitsSharing .empty redeclaringRun = true := by decide +kernel
  exact ⟨hclean, by decide +kernel, internsTypes_of_history (.runAll hpermitted) hclean⟩

end Assembler

end ShaderIR
