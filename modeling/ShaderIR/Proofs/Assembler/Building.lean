import ShaderIR.Assembler.Conversion
import ShaderIR.Proofs.Assembler.Effects

/-!
# Operations that append

Appending is made of three kinds of steps: allocating an id, pushing an instruction, and changes
that touch neither the stream nor the table of ids.  What survives these survives every operation
that appends.
-/

namespace ShaderIR

variable {id : ResultId}

theorem exists_of_bind_eq_ok {ε α β : Type} {x : Except ε α} {f : α → Except ε β} {b : β}
    (h : (x >>= f) = .ok b) : ∃ a, x = .ok a ∧ f a = .ok b := by
  cases x with
  | error e => cases h
  | ok a => exact ⟨a, rfl, h⟩

/-! ## What was appended -/

/-- An instruction put into the stream, with the number of ids allocated by then. -/
structure Appended where
  inst : Instruction
  bound : Nat

namespace Appended

def RefsKnown (a : Appended) : Prop := ∀ r ∈ a.inst.slots, r.isVoid = true ∨ r.index < a.bound

def IdKnown (a : Appended) : Prop := a.inst.id.isVoid = true ∨ a.inst.id.index < a.bound

instance : DecidablePred RefsKnown := fun a =>
  inferInstanceAs (Decidable (∀ r ∈ a.inst.slots, r.isVoid = true ∨ r.index < a.bound))

instance : DecidablePred IdKnown := fun a =>
  inferInstanceAs (Decidable (a.inst.id.isVoid = true ∨ a.inst.id.index < a.bound))

end Appended

def appendedBetween (before after : Assembler) : List Appended :=
  (after.code.toList.drop before.code.size).map fun inst => ⟨inst, after.ids.size⟩

theorem appendedBetween_eq {before after : Assembler} {l : List Instruction}
    (h : after.code.toList = before.code.toList ++ l) :
    appendedBetween before after = l.map fun inst => ⟨inst, after.ids.size⟩ := by
  have hlen : before.code.size = before.code.toList.length := Array.length_toList.symm
  rw [appendedBetween, h, hlen, List.drop_left]

theorem mem_appendedBetween {before after : Assembler} {l : List Instruction}
    (h : after.code.toList = before.code.toList ++ l) {inst : Instruction} (hi : inst ∈ l) :
    ⟨inst, after.ids.size⟩ ∈ appendedBetween before after := by
  rw [appendedBetween_eq h]
  exact List.mem_map_of_mem hi

/-! ## Steps that build -/

/-- `Builds ok a b` says that `b` is `a` after allocations, pushes of instructions that satisfy `ok`
and changes that leave the stream and the ids alone. -/
inductive Builds (ok : Appended → Prop) : Assembler → Assembler → Prop
  | same {a b : Assembler} (hcode : b.code = a.code) (hids : b.ids = a.ids) : Builds ok a b
  | create {a : Assembler} (op : Opcode) : Builds ok a (a.create op).2
  | push {a : Assembler} {inst : Instruction} (h : ok ⟨inst, a.ids.size⟩) : Builds ok a (a.push inst)
  | trans {a b c : Assembler} : Builds ok a b → Builds ok b c → Builds ok a c

namespace Builds

variable {ok : Appended → Prop} {a b c : Assembler}

theorem refl : Builds ok a a := .same rfl rfl

theorem andSame (h : Builds ok a b) (hcode : c.code = b.code) (hids : c.ids = b.ids) :
    Builds ok a c := h.trans (.same hcode hids)

theorem mono {ok' : Appended → Prop} (hok : ∀ x, ok x → ok' x) (h : Builds ok a b) :
    Builds ok' a b := by
  induction h with
  | same hcode hids => exact .same hcode hids
  | create op => exact .create op
  | push h => exact .push (hok _ h)
  | trans _ _ ih1 ih2 => exact ih1.trans ih2

/-- **Induction over building.**  What survives the three kinds of steps survives building. -/
theorem preserves {I : Assembler → Prop} (h : Builds ok a b)
    (hsame : ∀ a b : Assembler, b.code = a.code → b.ids = a.ids → I a → I b)
    (hcreate : ∀ (a : Assembler) (op : Opcode), I a → I (a.create op).2)
    (hpush : ∀ (a : Assembler) (inst : Instruction), ok ⟨inst, a.ids.size⟩ → I a → I (a.push inst))
    (ha : I a) : I b := by
  induction h with
  | same hcode hids => exact hsame _ _ hcode hids ha
  | create op => exact hcreate _ op ha
  | push h => exact hpush _ _ h ha
  | trans _ _ ih1 ih2 => exact ih2 (ih1 ha)

theorem toList_code (h : Builds ok a b) : ∃ l, b.code.toList = a.code.toList ++ l := by
  induction h with
  | same hcode _ => exact ⟨[], by rw [hcode, List.append_nil]⟩
  | create op => exact ⟨[], (List.append_nil _).symm⟩
  | @push a inst _ => exact ⟨[inst], by rw [Assembler.code_push, Array.toList_push]⟩
  | trans _ _ ih1 ih2 =>
    obtain ⟨l1, h1⟩ := ih1
    obtain ⟨l2, h2⟩ := ih2
    exact ⟨l1 ++ l2, by rw [h2, h1, List.append_assoc]⟩

end Builds

/-! ## The operations -/

namespace Assembler

variable {ok : Appended → Prop}

@[simp] theorem code_pushNew (asm : Assembler) (inst : Instruction) :
    (asm.pushNew inst).2.code = asm.code.push { inst with id := (asm.create inst.opcode).1 } := by
  rw [pushNew, code_push]; rfl

@[simp] theorem size_ids_pushNew (asm : Assembler) (inst : Instruction) :
    (asm.pushNew inst).2.ids.size = asm.ids.size + 1 := by
  rw [pushNew, size_ids_push, ids_create, Array.size_push]

variable {inst : Instruction} {target : ResultId}

theorem builds_pushNew {asm : Assembler}
    (h : ok ⟨{ inst with id := (asm.create inst.opcode).1 }, asm.ids.size + 1⟩) :
    Builds ok asm (asm.pushNew inst).2 := by
  refine (Builds.create inst.opcode).trans (.push ?_)
  rw [ids_create, Array.size_push]
  exact h

@[simp] theorem size_ids_pushMany (asm : Assembler) (insts : List Instruction) :
    (asm.pushMany insts).ids.size = asm.ids.size := by
  induction insts generalizing asm with
  | nil => rfl
  | cons inst rest ih =>
    have := ih (asm.push inst)
    rwa [size_ids_push] at this

theorem toList_code_pushMany (asm : Assembler) (insts : List Instruction) :
    (asm.pushMany insts).code.toList = asm.code.toList ++ insts := by
  induction insts generalizing asm with
  | nil => exact (List.append_nil _).symm
  | cons inst rest ih =>
    have h := ih (asm.push inst)
    rw [code_push, Array.toList_push, List.append_assoc, List.singleton_append] at h
    exact h

theorem builds_pushMany {asm : Assembler} {insts : List Instruction}
    (h : ∀ inst ∈ insts, ok ⟨inst, asm.ids.size⟩) : Builds ok asm (asm.pushMany insts) := by
  induction insts generalizing asm with
  | nil => exact .refl
  | cons inst rest ih =>
    have hpush : Builds ok asm (asm.push inst) := .push (h inst List.mem_cons_self)
    refine hpush.trans (ih fun i hi => ?_)
    rw [size_ids_push]
    exact h i (List.mem_cons_of_mem _ hi)

def opened (asm : Assembler) (header : Instruction) (kind : SectionKind) : Assembler :=
  { asm.push header with
    openSections := { kind, header := header.id, start := asm.code.size } :: asm.openSections }

def closed (asm : Assembler) (footer : Instruction) (s : OpenSection) (outer : List OpenSection) :
    Assembler :=
  { asm.push footer with
    openSections := outer
    closedSections := asm.closedSections.push
      { kind := s.kind, header := s.header, span := .inclusive s.start asm.code.size } }

variable {asm after : Assembler} {value result : TypedValue} {name : String} {members : List (String × ResultId)}

theorem beginSection_cases {header : Instruction} (h : asm.beginSection header = .ok (id, after)) :
    ∃ kind, header.opcode.opens? = some kind ∧ after = asm.opened header kind := by
  unfold beginSection at h
  split at h
  · cases h
  next kind hkind =>
    cases h
    exact ⟨kind, hkind, by rw [openSections_push, opened]⟩

theorem endSection_cases {footer : Instruction} (h : asm.endSection footer = .ok after) :
    ∃ s outer, footer.opcode.closes? = some s.kind ∧ asm.openSections = s :: outer ∧
      after = asm.closed footer s outer := by
  unfold endSection at h
  split at h
  · cases h
  next found hfound =>
    split at h
    · cases h
    next s outer hopen =>
      split at h
      next hkind =>
        cases h
        exact ⟨s, outer, hkind ▸ hfound, hopen, by rw [closedSections_push, closed]⟩
      · cases h

theorem pushLoopExit_cases {exit : LoopExit} (h : asm.pushLoopExit exit = .ok after) :
    ∃ label, after = asm.push { opcode := .jump, refs := ⟨label, .void, .void⟩ } := by
  unfold pushLoopExit at h
  split at h
  · cases h
  · cases h
    exact ⟨_, rfl⟩

def interfaceDecl (asm : Assembler) (direction : Direction) (type : ResultId) : Instruction :=
  { opcode := direction.opcode,
    operands := ⟨(asm.interface.countP (·.direction = direction)).toUInt32, 0, 0⟩,
    refs := ⟨type, .void, .void⟩ }

theorem pushInterface_cases {direction : Direction} {name : String}
    {type : ResultId} (h : asm.pushInterface direction name type = .ok (id, after)) : after = asm ∨
      after = (asm.pushNew (asm.interfaceDecl direction type)).2.registerInterface
        { name, direction, var := ⟨asm.ids.size⟩, type,
          location := (asm.interface.countP (·.direction = direction)).toUInt32 } := by
  unfold pushInterface at h
  split at h
  · split at h
    · cases h
      exact .inl rfl
    · cases h
  · cases h
    exact .inr rfl

theorem modifyLayout_ok {f : StructLayout → StructLayout} (h : asm.modifyLayout id f = .ok after) :
    ∃ l layout, after = { asm with types := asm.types.setLayout l layout } := by
  unfold modifyLayout at h
  split at h
  · cases h
  · split at h
    · cases h
    · cases h
      exact ⟨_, _, rfl⟩

def declareNew (asm : Assembler) (inst : Instruction) (d : TypeDesc) : Assembler :=
  { (asm.pushNew inst).2 with types := asm.types.declare ⟨asm.ids.size⟩ d }

theorem pushType_ok (h : asm.pushType inst = .ok (id, after)) :
    ∃ d, asm.describe inst = .ok d ∧
      (after = asm ∨ inst.id.isVoid = true ∧ after = asm.declareNew inst d ∨
      inst.id.isVoid = false ∧
      after = { asm.push inst with types := asm.types.declare inst.id d }) := by
  unfold pushType at h
  obtain ⟨d, hd, h⟩ := exists_of_bind_eq_ok h
  simp only [pure, Except.pure] at h
  refine ⟨d, hd, ?_⟩
  split at h
  · cases h
    exact .inl rfl
  · cases hv : inst.id.isVoid with
    | true =>
      rw [hv] at h
      cases h
      have htypes : (asm.pushNew inst).2.types = asm.types := types_push _ _
      exact .inr (.inl ⟨rfl, by rw [declareNew, ← htypes]; rfl⟩)
    | false =>
      rw [hv] at h
      cases h
      exact .inr (.inr ⟨rfl, by rw [← types_push asm inst]; rfl⟩)

/-! ## Structs -/

def structHeader (asm : Assembler) (name : String) (n : Nat) : Instruction :=
  { opcode := .structType, id := ⟨asm.ids.size⟩,
    operands := ⟨n.toUInt32, (asm.strings.insert name).1.toUInt32, 0⟩ }

def structTrailer (asm : Assembler) (i : Nat) (m : String × ResultId) : Instruction :=
  { opcode := .structMember, operands := ⟨i.toUInt32, (asm.strings.insert m.1).1.toUInt32, 0⟩,
    refs := ⟨m.2, .void, .void⟩ }

def structFooter (id : ResultId) : Instruction := { opcode := .structEnd, refs := ⟨id, .void, .void⟩ }

def structOpened (asm : Assembler) (name : String) (n : Nat) : Assembler :=
  ((asm.addString name).2.create .structType).2.push (asm.structHeader name n)

def structEnded (asm : Assembler) (name : String) (members : List (String × ResultId)) :
    Assembler :=
  (pushMembers 0 members (asm.structOpened name members.length)).push (structFooter ⟨asm.ids.size⟩)

def structSection (asm : Assembler) (n : Nat) : ClosedSection :=
  { kind := .record, header := ⟨asm.ids.size⟩, span := .inclusive asm.code.size (asm.code.size + 1 + n) }

theorem pushMembers_cons (i : Nat) (m : String × ResultId) (rest : List (String × ResultId))
    (asm : Assembler) : pushMembers i (m :: rest) asm =
      pushMembers (i + 1) rest ((asm.addString m.1).2.push (asm.structTrailer i m)) := rfl

theorem pushMembers_eq (i : Nat) (members : List (String × ResultId)) (asm : Assembler) :
    pushMembers i members asm =
      { asm with
        code := (pushMembers i members asm).code, ids := (pushMembers i members asm).ids,
        strings := (pushMembers i members asm).strings, log :=
          (pushMembers i members asm).log } := by
  induction members generalizing i asm with
  | nil => rfl
  | cons m rest ih =>
    have heq := ih (i + 1) ((asm.addString m.1).2.push (asm.structTrailer i m))
    rw [push_eq] at heq
    rw [pushMembers_cons, push_eq]
    exact heq

theorem size_code_pushMembers (i : Nat) (members : List (String × ResultId)) (asm : Assembler) :
    (pushMembers i members asm).code.size = asm.code.size + members.length := by
  induction members generalizing i asm with
  | nil => rfl
  | cons m rest ih =>
    rw [pushMembers_cons, ih, code_push, Array.size_push, code_addString, List.length_cons]
    omega

/-- Looking at the members reports those that cannot be declared, and nothing else. -/
theorem layoutMembers_eq (name : String) (members : List (String × ResultId)) (asm : Assembler)
    (layout : StructLayout) (h : ∀ m ∈ layout.members, (asm.types.handle? m.2).isSome = true) :
    ∃ log laid, layoutMembers name members (asm, layout) = ({ asm with log }, laid) ∧
      ∀ m ∈ laid.members, (asm.types.handle? m.2).isSome = true := by
  induction members generalizing asm layout with
  | nil => exact ⟨asm.log, layout, rfl, h⟩
  | cons m rest ih =>
    obtain ⟨member, type⟩ := m
    have hreport : ∀ e, ∃ log laid, layoutMembers name rest (asm.report e, layout) = ({ asm with log }, laid) ∧
        ∀ m ∈ laid.members, (asm.types.handle? m.2).isSome = true := fun e => ih (asm.report e) layout h
    unfold layoutMembers StructLayout.addMember?
    split
    next htype =>
      by_cases htaken : layout.members.any (·.1 == member) = true
      · rw [if_pos htaken]
        exact hreport _
      · rw [if_neg htaken]
        refine ih _ _ fun m hm => ?_
        rcases List.mem_append.mp hm with hm | hm
        · exact h m hm
        · cases List.mem_singleton.mp hm
          exact htype
    next => exact hreport _

theorem pushMembers_steps (ok : Appended → Prop) (i : Nat) (members : List (String × ResultId))
    (asm : Assembler) : ∃ insts : List Instruction,
      (pushMembers i members asm).code.toList = asm.code.toList ++ insts
        ∧ (pushMembers i members asm).ids.size = asm.ids.size ∧
            ((∀ inst ∈ insts, ok ⟨inst, asm.ids.size⟩) →
            Builds ok asm (pushMembers i members asm)) := by
  induction members generalizing i asm with
  | nil => exact ⟨[], (List.append_nil _).symm, rfl, fun _ => .refl⟩
  | cons m rest ih =>
    obtain ⟨member, type⟩ := m
    unfold pushMembers
    -- The member itself is pushed first, and the rest goes on from there.
    obtain ⟨insts, hcode, hsize, hbuilds⟩ := ih (i + 1) ((asm.addString member).2.push
      { opcode := .structMember,
        operands := ⟨i.toUInt32, (asm.addString member).1.toUInt32, 0⟩,
        refs := ⟨type, .void, .void⟩ })
    rw [code_push, code_addString, Array.toList_push, List.append_assoc, List.singleton_append] at hcode
    rw [size_ids_push, ids_addString] at hsize hbuilds
    refine ⟨_, hcode, hsize, fun h => ?_⟩
    have hstring : Builds ok asm (asm.addString member).2 := .same rfl rfl
    refine hstring.trans ((Builds.push ?_).trans (hbuilds fun inst hi => ?_))
    · exact h _ List.mem_cons_self
    · exact h inst (List.mem_cons_of_mem _ hi)

theorem structEnded_eq (asm : Assembler) (name : String) (members : List (String × ResultId)) :
    asm.structEnded name members =
      { asm with
        code := (asm.structEnded name members).code, ids := (asm.structEnded name members).ids,
        strings := (asm.structEnded name members).strings,
        log := (asm.structEnded name members).log } := by
  rw [structEnded, push_eq, pushMembers_eq, structOpened, push_eq]
  rfl

theorem pushStruct_eq {laid : Assembler} {layout : StructLayout}
    (h : layoutMembers name members (asm, { name }) = (laid, layout)) :
    (asm.pushStruct name members).2 =
      ({ laid.structEnded name layout.members with
          closedSections := laid.closedSections.push (laid.structSection layout.members.length)
          types := laid.types.declareStruct ⟨laid.ids.size⟩ layout } : Assembler).setName
            ⟨laid.ids.size⟩ name := by
  have hended := laid.structEnded_eq name layout.members
  have hsections := congrArg Assembler.closedSections hended
  have hregistry := congrArg Assembler.types hended
  have hlast : (pushMembers 0 layout.members (laid.structOpened name layout.members.length)).code.size =
      laid.code.size + 1 + layout.members.length := by
    rw [size_code_pushMembers, structOpened, code_push, Array.size_push]
    rfl
  dsimp only at hsections hregistry
  rw [structSection, ← hlast, ← hsections, ← hregistry, pushStruct, h]
  rfl

theorem pushStruct_steps (ok : Appended → Prop) (asm : Assembler) (name : String)
    (members : List (String × ResultId)) : ∃ insts : List Instruction,
      (asm.pushStruct name members).2.code.toList = asm.code.toList ++ insts
        ∧ (asm.pushStruct name members).2.ids.size = asm.ids.size + 1
        ∧ ((∀ inst ∈ insts, ok ⟨inst, asm.ids.size + 1⟩) →
          Builds ok asm (asm.pushStruct name members).2) := by
  obtain ⟨log, layout, heq, -⟩ := layoutMembers_eq name members asm { name } (List.forall_mem_nil _)
  -- The state after the name is in the string table and the id is allocated.
  let laid : Assembler := { asm with log }
  let start := ((laid.addString name).2.create .structType).2
  have hstartIds : start.ids.size = asm.ids.size + 1 := Array.size_push _
  let header := laid.structHeader name layout.members.length
  let footer := structFooter ⟨asm.ids.size⟩
  obtain ⟨insts, hcode, hsize, hbuilds⟩ := pushMembers_steps ok 0 layout.members (start.push header)
  -- What is done last, the layout and the name, touches neither the stream nor the ids.
  have hfinal : (asm.pushStruct name members).2.code = (laid.structEnded name layout.members).code := by
    rw [pushStruct_eq heq, code_setName]
  have hfinalIds : (asm.pushStruct name members).2.ids = (laid.structEnded name layout.members).ids := by
    rw [pushStruct_eq heq, ids_setName]
  refine ⟨header :: insts ++ [footer], ?_, ?_, fun h => ?_⟩
  · rw [hfinal, structEnded, code_push, Array.toList_push, structOpened, hcode, code_push, Array.toList_push]
    simp only [List.append_assoc, List.cons_append, List.nil_append]
    rfl
  · rw [hfinalIds, structEnded, size_ids_push, structOpened, hsize, size_ids_push, hstartIds]
  · have hnamed : Builds ok asm (laid.addString name).2 := .same rfl rfl
    have hopen : Builds ok asm start := hnamed.trans (.create .structType)
    have hheader : Builds ok asm (start.push header) := by
      refine hopen.trans (.push ?_)
      rw [hstartIds]
      exact h header (by simp)
    have hmembers : Builds ok asm (pushMembers 0 layout.members (start.push header)) := by
      refine hheader.trans (hbuilds fun inst hi => ?_)
      rw [size_ids_push, hstartIds]
      exact h inst (by simp [hi])
    have hfooter : Builds ok asm (laid.structEnded name layout.members) := by
      refine hmembers.trans (.push ?_)
      rw [hsize, size_ids_push, hstartIds]
      exact h footer (by simp)
    exact hfooter.andSame hfinal hfinalIds

/-! ## Conversions -/

/-- What conversions do: they ask for types, and push values and arguments of calls. -/
inductive Converts : Assembler → Assembler → Prop
  | refl {a : Assembler} : Converts a a
  | type {a b : Assembler} {inst : Instruction} {id : ResultId} (hid : inst.id.isVoid = true)
      (heq : a.pushType inst = .ok (id, b)) : Converts a b
  | value {a : Assembler} {inst : Instruction} (hop : inst.opcode.isType = false) : Converts a (a.pushNew inst).2
  | argument {a : Assembler} {inst : Instruction} (hop : inst.opcode.isType = false) : Converts a (a.push inst)
  | trans {a b c : Assembler} : Converts a b → Converts b c → Converts a c

theorem converts_takeStep {op : Operator} {step : ConversionStep}
    (heq : asm.takeStep target value op step = .ok (some (result, after))) :
    Converts asm after := by
  cases step with
  | compatible | incompatible => cases heq
  | widen =>
    cases heq
    exact .value rfl
  | bitcastToInt =>
    obtain ⟨⟨type, mid⟩, htype, heq⟩ := exists_of_bind_eq_ok heq
    cases heq
    refine Converts.trans ?_ (.value rfl)
    unfold bitcastTarget at htype
    split at htype
    · split at htype
      · cases htype; exact .refl
      · exact .type rfl htype
    · cases htype
  | intToFloat =>
    obtain ⟨⟨type, mid⟩, htype, heq⟩ := exists_of_bind_eq_ok heq
    cases heq
    refine Converts.trans ?_ (.value rfl)
    unfold intToFloatTarget at htype
    split at htype
    · cases htype; exact .refl
    · exact .type rfl htype
  | methodCall =>
    obtain ⟨r, hcall, heq⟩ := exists_of_bind_eq_ok heq
    cases heq
    unfold pushConversionCall at hcall
    split at hcall
    · cases hcall
    · cases hcall
      exact (Converts.value rfl).trans (.argument rfl)

theorem converts_convertSteps (source target : ResultId) (op : Operator) (fuel : Nat)
    (asm : Assembler) (value : TypedValue) :
    Converts asm (convertSteps source target op fuel asm value).2 := by
  induction fuel generalizing asm value with
  | zero => exact .refl
  | succ fuel ih =>
    unfold convertSteps
    split
    next => exact .refl
    next => exact .refl
    next heq => exact (converts_takeStep heq).trans (ih _ _)

theorem converts_unifyOperands (asm : Assembler) (lhs rhs : TypedValue) (op : Operator) :
    Converts asm (asm.unifyOperands lhs rhs op).2 := by
  unfold unifyOperands
  split
  · exact .refl
  · split <;> exact converts_convertSteps _ _ _ _ _ _

variable {asm asm' : Assembler}

theorem builds_pushScalar (hok : ∀ x : Appended, x.RefsKnown → x.IdKnown → ok x)
    {opcode : Opcode} {operands : Triple UInt32}
    (h : asm.pushType { opcode, operands } = .ok (id, asm')) : Builds ok asm asm' := by
  obtain ⟨d, -, rfl | ⟨-, rfl⟩ | ⟨hv, -⟩⟩ := pushType_ok h
  · exact .refl
  · refine (builds_pushNew (hok _ ?_ ?_)).andSame rfl rfl
    · -- All four slots are void.
      intro r hr
      rw [Instruction.slots_withId, Instruction.mem_slots] at hr
      rcases hr with rfl | rfl | rfl | rfl <;> exact .inl rfl
    · exact .inr (Nat.lt_succ_self _)
  · cases hv

theorem builds_bitcastTarget (hok : ∀ x : Appended, x.RefsKnown → x.IdKnown → ok x)
    {target : ResultId} (h : asm.bitcastTarget target = .ok (id, asm')) : Builds ok asm asm' := by
  unfold bitcastTarget at h
  split at h
  · split at h
    · cases h; exact .refl
    · exact builds_pushScalar hok h
  · cases h

theorem builds_intToFloatTarget (hok : ∀ x : Appended, x.RefsKnown → x.IdKnown → ok x)
    {target source : ResultId}
    (h : asm.intToFloatTarget target source = .ok (id, asm')) : Builds ok asm asm' := by
  unfold intToFloatTarget at h
  split at h
  · cases h; exact .refl
  · exact builds_pushScalar hok h

theorem builds_pushValue {asm mid : Assembler} (hmid : Builds ok asm mid)
    {type : ResultId} (h : ∀ x ∈ appendedBetween asm (mid.pushValue inst type).2, ok x) :
    Builds ok asm (mid.pushValue inst type).2 := by
  obtain ⟨l, hl⟩ := hmid.toList_code
  refine hmid.trans (builds_pushNew ?_)
  have hcode : (mid.pushValue inst type).2.code.toList = asm.code.toList ++
      (l ++ [{ inst with resultType := type, id := (mid.create inst.opcode).1 }]) := by
    show (mid.pushNew _).2.code.toList = _
    rw [code_pushNew, Array.toList_push, hl, List.append_assoc]
  have hsize : (mid.pushValue inst type).2.ids.size = mid.ids.size + 1 := size_ids_pushNew _ _
  rw [← hsize]
  exact h _ (mem_appendedBetween hcode (by simp))

theorem builds_pushConversionCall (heq : asm.pushConversionCall target value = .ok (result, asm'))
    (h : ∀ x ∈ appendedBetween asm asm', ok x) : Builds ok asm asm' := by
  unfold pushConversionCall at heq
  split at heq
  · cases heq
  next function _ =>
    cases heq
    -- The call and its argument share the table of ids: only the call has an id of its own.
    let called : Instruction :=
      { opcode := .call, operands := ⟨1, 0, 0⟩, refs := ⟨function, .void, .void⟩,
        resultType := target, id := (asm.create .call).1 }
    let argument : Instruction := { opcode := .callArg, refs := ⟨value.value, .void, .void⟩ }
    have hcode : ((asm.pushNew { called with id := .void }).2.push argument).code.toList
        = asm.code.toList ++ [called, argument] := by
      rw [code_push, code_pushNew, Array.toList_push, Array.toList_push, List.append_assoc]
      rfl
    have hsize : ((asm.pushNew { called with id := .void }).2.push argument).ids.size = asm.ids.size + 1 := by
      rw [size_ids_push, size_ids_pushNew]
    have hmem : ∀ inst ∈ [called, argument], ok ⟨inst, asm.ids.size + 1⟩ := by
      intro inst hi
      rw [← hsize]
      exact h _ (mem_appendedBetween hcode hi)
    refine (builds_pushNew (hmem called (by simp))).trans (.push ?_)
    rw [size_ids_pushNew]
    exact hmem argument (by simp)

theorem builds_takeStep (hok : ∀ x : Appended, x.RefsKnown → x.IdKnown → ok x) {op : Operator}
    {step : ConversionStep} (heq : asm.takeStep target value op step = .ok (some (result, asm')))
    (h : ∀ x ∈ appendedBetween asm asm', ok x) : Builds ok asm asm' := by
  cases step with
  | compatible | incompatible => cases heq
  | widen =>
    cases heq
    exact builds_pushValue .refl h
  | bitcastToInt =>
    obtain ⟨r, htype, heq⟩ := exists_of_bind_eq_ok heq
    cases heq
    exact builds_pushValue (builds_bitcastTarget hok htype) h
  | intToFloat =>
    obtain ⟨r, htype, heq⟩ := exists_of_bind_eq_ok heq
    cases heq
    exact builds_pushValue (builds_intToFloatTarget hok htype) h
  | methodCall =>
    obtain ⟨r, hcall, heq⟩ := exists_of_bind_eq_ok heq
    cases heq
    exact builds_pushConversionCall hcall h

end Assembler

end ShaderIR
