import ShaderIR.Assembler.Basic

/-!
# What the operations of an assembler do to its stream and to its table of ids

`getElem?_ids_push` states the whole effect of a push on the table, and later proofs read counts and
definitions off it.
-/

namespace ShaderIR

variable {id : ResultId}

/-! ## Ids and slots -/

@[simp] theorem ResultId.isVoid_iff : id.isVoid = true ↔ id.index = 0 := by
  simp [ResultId.isVoid]

@[simp] theorem ResultId.isVoid_eq_false : id.isVoid = false ↔ id.index ≠ 0 := by
  simp [ResultId.isVoid]

@[simp] theorem ResultId.index_void : ResultId.void.index = 0 := rfl

theorem ResultId.ext_index {a b : ResultId} (h : a.index = b.index) : a = b := by
  cases a; cases b; cases h; rfl

theorem ResultId.eq_void (h : id.index = 0) : id = .void := ext_index h

namespace Instruction

theorem mem_slots {inst : Instruction} {r : ResultId} : r ∈ inst.slots ↔
      r = inst.refs.fst ∨ r = inst.refs.snd ∨ r = inst.refs.thd ∨ r = inst.resultType := by
  simp [slots, Triple.toList]

theorem mem_referenced {inst : Instruction} {r : ResultId} :
    r ∈ inst.referenced ↔ r ∈ inst.slots ∧ r.index ≠ 0 := by
  simp [referenced]

theorem count_referenced (inst : Instruction) (h : id.index ≠ 0) :
    inst.referenced.count id = inst.slots.count id := by
  have hkeep : (!id.isVoid) = true := by simpa using h
  exact List.count_filter hkeep

@[simp] theorem slots_mapSlots (inst : Instruction) (f : ResultId → ResultId) :
    (inst.mapSlots f).slots = inst.slots.map f := rfl

@[simp] theorem slots_withId (inst : Instruction) (id : ResultId) :
    ({ inst with id } : Instruction).slots = inst.slots := rfl

end Instruction

namespace Assembler

theorem mem_code {asm : Assembler} {inst : Instruction} {i : Nat} (h : asm.code[i]? = some inst) :
    inst ∈ asm.code.toList :=
  Array.mem_toList_iff.mpr (Array.mem_of_getElem? h)

theorem lt_size_code {asm : Assembler} {inst : Instruction} {i : Nat}
    (h : asm.code[i]? = some inst) :
    i < asm.code.size :=
  (Array.getElem?_eq_some_iff.mp h).1

theorem isAllocated_iff {asm : Assembler} :
    asm.isAllocated id = true ↔ id.index ≠ 0 ∧ id.index < asm.ids.size := by
  simp [isAllocated]

/-! ## Steps that leave the stream and the ids alone -/

section Frame

variable (asm : Assembler)

@[simp] theorem ids_reportAt (e : AssemblyError) (loc : Option Location) :
    (asm.reportAt e loc).ids = asm.ids := rfl

@[simp] theorem code_addString (s : String) : (asm.addString s).2.code = asm.code := rfl

@[simp] theorem ids_addString (s : String) : (asm.addString s).2.ids = asm.ids := rfl

@[simp] theorem code_setName (id : ResultId) (name : String) :
    (asm.setName id name).code = asm.code := by
  unfold setName; split <;> rfl

@[simp] theorem ids_setName (id : ResultId) (name : String) :
    (asm.setName id name).ids = asm.ids := by
  unfold setName; split <;> rfl

@[simp] theorem code_registerInterface (v : InterfaceVar) :
    (asm.registerInterface v).code = asm.code := asm.code_setName v.var v.name

@[simp] theorem ids_registerInterface (v : InterfaceVar) :
    (asm.registerInterface v).ids = asm.ids := asm.ids_setName v.var v.name

@[simp] theorem code_setLoops (loops : List LoopTargets) :
    (asm.setLoops loops).code = asm.code := by
  unfold setLoops; split <;> rfl

@[simp] theorem ids_setLoops (loops : List LoopTargets) : (asm.setLoops loops).ids = asm.ids := by
  unfold setLoops; split <;> rfl

theorem finish_eq : asm.finish = { asm with openSections := [], log := asm.finish.log } := by
  have hfold : ∀ (l : List OpenSection) (asm : Assembler),
      l.foldl (fun asm s => asm.report (.unclosedSection s.kind s.header)) asm =
        { asm with log := (l.foldl (fun asm s => asm.report (.unclosedSection s.kind s.header)) asm).log } := by
    intro l
    induction l with
    | nil => exact fun _ => rfl
    | cons s rest ih => exact fun asm => ih (asm.report _)
  exact hfold _ _

@[simp] theorem code_finish : asm.finish.code = asm.code := by rw [finish_eq]

@[simp] theorem ids_finish : asm.finish.ids = asm.ids := by rw [finish_eq]

end Frame

/-! ## Allocating and pushing -/

@[simp] theorem code_create (asm : Assembler) (op : Opcode) : (asm.create op).2.code = asm.code := rfl

@[simp] theorem ids_create (asm : Assembler) (op : Opcode) :
    (asm.create op).2.ids = asm.ids.push { opcode := op } := rfl

@[simp] theorem code_define (asm : Assembler) (inst : Instruction) :
    (asm.define inst).code = asm.code := by
  simp only [define]
  split
  · rfl
  · split
    · rfl
    · split <;> split <;> rfl

theorem getElem?_ids_define (asm : Assembler) (inst : Instruction) (k : Nat) :
    (asm.define inst).ids[k]? = (asm.ids[k]?).map fun e =>
      if inst.id.index = k ∧ k ≠ 0 then
        { e with definition := e.definition.or (some asm.code.size) }
      else e := by
  -- In all cases but the last the table stays as it is, and then so must every entry.
  have hsame (h : ∀ e, asm.ids[k]? = some e → (if inst.id.index = k ∧ k ≠ 0 then
        { e with definition := e.definition.or (some asm.code.size) } else e) = e) :
      asm.ids[k]? = (asm.ids[k]?).map fun e => if inst.id.index = k ∧ k ≠ 0 then
        { e with definition := e.definition.or (some asm.code.size) } else e := by
    cases hk : asm.ids[k]? with
    | none => rfl
    | some e => rw [Option.map_some, h e hk]
  simp only [define]
  split
  next hv =>
    rw [ResultId.isVoid_iff] at hv
    exact hsame fun e _ => if_neg (by omega)
  next hv =>
    split
    next hnone =>
      refine hsame fun e hk => if_neg fun hi => ?_
      rw [hi.1, hk] at hnone
      cases hnone
    next entry hentry =>
      -- Reporting an opcode that does not match changes neither the ids nor the stream.
      have hreport : ∀ c : Prop, [Decidable c] → ∀ e : AssemblyError,
          (if c then asm else asm.reportAt e inst.location).ids = asm.ids := by
        intro c _ e; split <;> rfl
      have hstream : ∀ c : Prop, [Decidable c] → ∀ e : AssemblyError,
          (if c then asm else asm.reportAt e inst.location).code = asm.code := by
        intro c _ e; split <;> rfl
      split
      next i hdef =>
        -- A second definition is reported, and the first one stays.
        rw [ids_reportAt, hreport]
        refine hsame fun e hk => ?_
        split
        next hi =>
          rw [hi.1, hk] at hentry
          cases hentry
          rw [hdef, Option.some_or, ← hdef]
        next => rfl
      next hdef =>
        rw [hreport, hstream, Array.getElem?_modify]
        by_cases hi : inst.id.index = k
        · rw [if_pos hi, ← hi, hentry]
          have hnz : inst.id.index ≠ 0 := by simpa using hv
          simp only [Option.map_some, hdef, Option.none_or, hnz, ne_eq, not_false_eq_true, and_self, if_true]
        · rw [if_neg hi]
          exact hsame fun e _ => if_neg fun h => hi h.1

@[simp] theorem code_countUse (loc : Option Location) (asm : Assembler) (id : ResultId) :
    (countUse loc asm id).code = asm.code := by
  unfold countUse; split <;> rfl

theorem getElem?_ids_countUse (loc : Option Location) (asm : Assembler) (id : ResultId) (k : Nat) :
    (countUse loc asm id).ids[k]? = (asm.ids[k]?).map fun e =>
      if id.index = k ∧ k ≠ 0 then { e with uses := e.uses + 1 } else e := by
  unfold countUse
  split
  next h =>
    rw [isAllocated_iff] at h
    rw [Array.getElem?_modify]
    by_cases hk : id.index = k
    · have hz : k ≠ 0 := by omega
      simp [hk, hz]
    · simp [hk]
  next h =>
    rw [isAllocated_iff] at h
    rw [ids_reportAt]
    cases hk : asm.ids[k]? with
    | none => rfl
    | some e =>
      have hlt : k < asm.ids.size := (Array.getElem?_eq_some_iff.mp hk).1
      have hne : ¬(id.index = k ∧ k ≠ 0) := by omega
      rw [Option.map_some, if_neg hne]

theorem foldl_countUse (loc : Option Location) (l : List ResultId) (asm : Assembler) (k : Nat) :
    (l.foldl (countUse loc) asm).ids[k]? = (asm.ids[k]?).map fun e =>
      { e with uses := e.uses + if k = 0 then 0 else l.count ⟨k⟩ } := by
  induction l generalizing asm with
  | nil => simp
  | cons id rest ih =>
    -- One use after the other: the updates of an entry compose, and its counts add up.
    rw [List.foldl_cons, ih, getElem?_ids_countUse, Option.map_map]
    congr 1
    funext e
    by_cases hz : k = 0
    · simp [hz]
    · by_cases hk : id.index = k
      · have heq : id = ⟨k⟩ := ResultId.ext_index hk
        simp only [Function.comp, heq, hz, ne_eq, not_false_eq_true, and_self, if_true, if_false,
          List.count_cons_self]
        rw [Nat.add_assoc, Nat.add_comm 1]
      · have hne : id ≠ ⟨k⟩ := fun h => hk (by rw [h])
        simp only [Function.comp, hk, hz, false_and, if_false, List.count_cons_of_ne hne]

@[simp] theorem code_foldl_countUse (loc : Option Location) (l : List ResultId) (asm : Assembler) :
    (l.foldl (countUse loc) asm).code = asm.code := by
  induction l generalizing asm with
  | nil => rfl
  | cons id rest ih => rw [List.foldl_cons, ih, code_countUse]

theorem foldl_countUse_eq (loc : Option Location) (l : List ResultId) (asm : Assembler) :
    l.foldl (countUse loc) asm =
      { asm with
        ids := (l.foldl (countUse loc) asm).ids, log := (l.foldl (countUse loc) asm).log } := by
  induction l generalizing asm with
  | nil => rfl
  | cons id rest ih =>
    have hfirst : countUse loc asm id =
        { asm with ids := (countUse loc asm id).ids, log := (countUse loc asm id).log } := by
      unfold countUse
      split <;> rfl
    rw [List.foldl_cons, ih, hfirst]

section Push

variable (asm : Assembler) (inst : Instruction)

@[simp] theorem code_push : (asm.push inst).code = asm.code.push inst := by
  simp only [push, code_foldl_countUse, code_define]

theorem define_eq :
    asm.define inst = { asm with ids := (asm.define inst).ids, log := (asm.define inst).log } := by
  unfold define
  split
  · rfl
  · split
    · rfl
    · dsimp only
      split <;> split <;> rfl

theorem push_eq : asm.push inst =
      { asm with
        code := asm.code.push inst, ids := (asm.push inst).ids, log := (asm.push inst).log } := by
  have hcode := code_push asm inst
  unfold push at hcode ⊢
  dsimp only at hcode ⊢
  rw [hcode, foldl_countUse_eq, define_eq]

@[simp] theorem openSections_push : (asm.push inst).openSections = asm.openSections := by rw [push_eq]

@[simp] theorem closedSections_push : (asm.push inst).closedSections = asm.closedSections := by rw [push_eq]

@[simp] theorem strings_push : (asm.push inst).strings = asm.strings := by rw [push_eq]

theorem types_push : (asm.push inst).types = asm.types := by rw [push_eq]

theorem names_push : (asm.push inst).names = asm.names := by rw [push_eq]

/-- **The ids after a push.**  Entries of ids that the instruction refers to count its slots, and
    the entry of the id it defines, if that is new, has its position. -/
theorem getElem?_ids_push (k : Nat) : (asm.push inst).ids[k]? = (asm.ids[k]?).map fun e =>
      { e with
        uses := e.uses + if k = 0 then 0 else inst.slots.count ⟨k⟩
        definition :=
          if inst.id.index = k ∧ k ≠ 0 then e.definition.or (some asm.code.size)
          else e.definition } := by
  simp only [push, foldl_countUse, getElem?_ids_define, Option.map_map]
  congr 1
  funext e
  by_cases hz : k = 0
  · simp [hz]
  · rw [Function.comp, if_neg hz, if_neg hz, Instruction.count_referenced inst (by simpa using hz)]
    split <;> rfl

@[simp] theorem size_ids_push : (asm.push inst).ids.size = asm.ids.size := by
  -- The entries before and after a push are missing at the same places.
  have h : ∀ k : Nat, (asm.push inst).ids[k]? = none ↔ asm.ids[k]? = none := by
    intro k
    rw [getElem?_ids_push, Option.map_eq_none_iff]
  simp only [Array.getElem?_eq_none_iff] at h
  have h1 := (h asm.ids.size).mpr (Nat.le_refl _)
  have h2 := (h (asm.push inst).ids.size).mp (Nat.le_refl _)
  omega

theorem useCount_push (h : asm.isAllocated id = true) :
    (asm.push inst).useCount id = asm.useCount id + inst.slots.count id := by
  rw [isAllocated_iff] at h
  have hentry := Array.getElem?_eq_getElem h.2
  simp only [useCount, getElem?_ids_push, hentry, Option.map_some, Option.getD_some, if_neg h.1]

end Push

/-! ## Replacing -/

def movedCounts (asm : Assembler) (old new : ResultId) : Array IdEntry :=
  let ids := asm.ids.modify old.index fun e => { e with uses := 0 }
  if new.isVoid then ids
  else ids.modify new.index fun e => { e with uses := e.uses + asm.useCount old }

theorem replace_of_known {asm : Assembler} {old new : ResultId} (hold : asm.isAllocated old = true)
    (hnew : new.isVoid = true ∨ asm.isAllocated new = true) (hne : old ≠ new) :
    asm.replace old new = (asm.code.foldl (fun n inst => n + inst.slots.count old) 0,
      { asm with
        code := asm.code.map (·.mapSlots fun id => if id = old then new else id)
        ids := asm.movedCounts old new }) := by
  have hv : ¬ old.isVoid = true := fun hv => (isAllocated_iff.mp hold).1 (ResultId.isVoid_iff.mp hv)
  unfold replace
  rw [if_neg hv, if_neg (by simp [hold]), if_neg (by rcases hnew with h | h <;> simp [h]), if_neg hne]
  rfl

theorem replace_touches (asm : Assembler) (old new : ResultId) : (asm.replace old new).2 =
      { asm with
        code := (asm.replace old new).2.code, ids := (asm.replace old new).2.ids,
        log := (asm.replace old new).2.log } := by
  unfold replace
  split
  · rfl
  split
  · rfl
  split
  · rfl
  split <;> rfl

/-- **What `replace` does.**  It leaves the stream and the ids alone, or moves all slots of one
    known id to another. -/
theorem replace_cases (asm : Assembler) (old new : ResultId) :
    ((asm.replace old new).2.code = asm.code ∧ (asm.replace old new).2.ids = asm.ids) ∨
      (asm.isAllocated old = true ∧ (new.isVoid = true ∨ asm.isAllocated new = true) ∧ old ≠ new ∧
        (asm.replace old new).2 =
          { asm with
            code := asm.code.map (·.mapSlots fun id => if id = old then new else id)
            ids := asm.movedCounts old new }) := by
  unfold replace
  split
  next => exact .inl ⟨rfl, rfl⟩
  next =>
  split
  next => exact .inl ⟨rfl, rfl⟩
  next hold =>
  split
  next => exact .inl ⟨rfl, rfl⟩
  next hnew =>
  split
  next => exact .inl ⟨rfl, rfl⟩
  next hne =>
    have hknown : new.isVoid = true ∨ asm.isAllocated new = true := by
      rw [Bool.and_eq_true, Bool.not_eq_true', Bool.not_eq_true'] at hnew
      cases hv : new.isVoid with
      | true => exact .inl rfl
      | false =>
        right
        rw [← Bool.not_eq_false]
        exact fun ha => hnew ⟨hv, ha⟩
    exact .inr ⟨by simpa using hold, hknown, hne, rfl⟩

@[simp] theorem size_movedCounts (asm : Assembler) (old new : ResultId) :
    (asm.movedCounts old new).size = asm.ids.size := by
  unfold movedCounts
  extract_lets ids
  split
  · exact Array.size_modify
  · rw [Array.size_modify]
    exact Array.size_modify

theorem getElem?_movedCounts (asm : Assembler) (old new : ResultId) (k : Nat) :
    ((asm.movedCounts old new)[k]?).map (fun e => (e.opcode, e.definition)) =
      (asm.ids[k]?).map fun e => (e.opcode, e.definition) := by
  have hmodify : ∀ (ids : Array IdEntry) (i : Nat) (f : Nat → Nat),
      ((ids.modify i fun e => { e with uses := f e.uses })[k]?).map (fun e => (e.opcode, e.definition)) =
        (ids[k]?).map fun e => (e.opcode, e.definition) := by
    intro ids i f
    rw [Array.getElem?_modify]
    split
    · cases ids[k]? <;> rfl
    · rfl
  unfold movedCounts
  split
  · exact hmodify _ _ fun _ => 0
  · exact (hmodify _ _ fun n => n + asm.useCount old).trans (hmodify _ _ fun _ => 0)

end Assembler

end ShaderIR
