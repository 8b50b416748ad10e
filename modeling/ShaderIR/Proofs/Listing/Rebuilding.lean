import ShaderIR.Listing.Reader
import ShaderIR.Proofs.Assembler.Building

/-!
# How a listing becomes an assembler

A listing allocates all its ids before the first instruction is pushed.  So reading it is building
from the empty assembler, and every instruction it pushes knows its ids.
-/

namespace ShaderIR

variable {asm : Assembler} {op : Opcode} {ok : Appended → Prop}

namespace Opcode

def isPlain (op : Opcode) : Bool :=
  op != .structMember && !op.isType && op.opens?.isNone && op.closes?.isNone

theorem isPlain_iff : op.isPlain = true ↔
    op ≠ .structMember ∧ op.isType = false ∧ op.opens? = none ∧ op.closes? = none := by
  simp [isPlain, and_assoc]

theorem eq_of_opens? {kind : SectionKind} (h : op.opens? = some kind)
    (hne : kind ≠ .record) : op = .stageBegin ∨ op = .function := by
  cases op <;> first | cases h; simp at hne ⊢ | cases h

theorem eq_structType_of_opens? (h : op.opens? = some .record) : op = .structType := by
  cases op <;> first | rfl | cases h

theorem eq_structEnd_of_closes? (h : op.closes? = some .record) : op = .structEnd := by
  cases op <;> first | rfl | cases h

theorem eq_of_closes? {kind : SectionKind} (h : op.closes? = some kind)
    (hne : kind ≠ .record) : op = .stageEnd ∨ op = .functionEnd := by
  cases op <;> first | cases h; simp at hne ⊢ | cases h

end Opcode

theorem Assembler.isType_of_describe {inst : Instruction} {desc : TypeDesc}
    (heq : asm.describe inst = .ok desc) : inst.opcode.isType = true := by
  unfold describe at heq
  generalize inst.opcode = op at heq ⊢
  cases op with
  | voidType | boolType | floatType | sintType | uintType | arrayType | vectorType | matrixType
  | pointerType | tupleType => rfl
  | _ => cases heq

namespace Listing

open Assembler

namespace Contents

/-! ## The bound on ids -/

theorem foldl_max_le_iff {α : Type} {f : α → Nat} {l : List α} {m n : Nat} :
    l.foldl (fun m a => max m (f a)) m ≤ n ↔ m ≤ n ∧ ∀ a ∈ l, f a ≤ n := by
  induction l generalizing m with
  | nil => exact ⟨fun h => ⟨h, List.forall_mem_nil _⟩, And.left⟩
  | cons a rest ih => rw [List.foldl_cons, ih, Nat.max_le, List.forall_mem_cons, and_assoc]

theorem le_foldl_max {α : Type} (f : α → Nat) (l : List α) (m : Nat) :
    m ≤ l.foldl (fun m a => max m (f a)) m :=
  (foldl_max_le_iff.mp (Nat.le_refl _)).1

theorem le_foldl_max_of_mem {α : Type} (f : α → Nat) {l : List α} {a : α} (h : a ∈ l) (m : Nat) :
    f a ≤ l.foldl (fun m a => max m (f a)) m := (foldl_max_le_iff.mp (Nat.le_refl _)).2 a h

def instIndex (inst : Instruction) : Nat :=
  inst.slots.foldl (fun m id => max m id.index) inst.id.index

theorem foldl_max_max (l : List ResultId) (m n : Nat) :
    l.foldl (fun m id => max m id.index) (max m n)
      = max m (l.foldl (fun m id => max m id.index) n) := by
  induction l generalizing n with
  | nil => rfl
  | cons id rest ih => rw [List.foldl_cons, Nat.max_assoc, ih, List.foldl_cons]

theorem maxIndex_eq (c : Contents) : c.maxIndex = c.names.toList.foldl (fun m e => max m e.1.index)
      (c.code.toList.foldl (fun m e => max m (instIndex e.2)) 0) := by
  simp only [maxIndex, ← Array.foldl_toList, foldl_max_max, instIndex]

variable {inst : Instruction} {b b' : Rebuilding} {c : Contents}

theorem instIndex_le_maxIndex {n : Nat} (h : (n, inst) ∈ c.code.toList) :
    instIndex inst ≤ c.maxIndex := by
  rw [maxIndex_eq]
  refine Nat.le_trans ?_ (le_foldl_max (fun e : ResultId × String => e.1.index) _ _)
  exact le_foldl_max_of_mem (fun e : Nat × Instruction => instIndex e.2) h 0

theorem id_le_instIndex (inst : Instruction) : inst.id.index ≤ instIndex inst :=
  le_foldl_max _ _ _

theorem slot_le_instIndex {r : ResultId} (h : r ∈ inst.slots) :
    r.index ≤ instIndex inst := le_foldl_max_of_mem ResultId.index h _

theorem maxIndex_lt_bound (c : Contents) : c.maxIndex < c.bound := by
  unfold bound
  omega

/-! ## Allocation -/

theorem ids_foldl_create (ops : List Opcode) (asm : Assembler) :
    (ops.foldl (fun asm op => (asm.create op).2) asm).ids.size = asm.ids.size + ops.length := by
  induction ops generalizing asm with
  | nil => rfl
  | cons op rest ih =>
    rw [List.foldl_cons, ih, ids_create, Array.size_push, List.length_cons]
    omega

theorem builds_foldl_create (ops : List Opcode) (asm : Assembler) :
    Builds ok asm (ops.foldl (fun asm op => (asm.create op).2) asm) := by
  induction ops generalizing asm with
  | nil => exact .refl
  | cons op rest ih => exact (Builds.create op).trans (ih _)

theorem foldl_addString_frame (l : List String) (asm : Assembler) :
    (l.foldl (fun asm s => (asm.addString s).2) asm).code = asm.code
      ∧ (l.foldl (fun asm s => (asm.addString s).2) asm).ids = asm.ids := by
  induction l generalizing asm with
  | nil => exact ⟨rfl, rfl⟩
  | cons s rest ih => exact ih _

theorem size_foldl_of_step {α β : Type} {step : Array α → β → Array α}
    (hstep : ∀ table e, (step table e).size = table.size) (l : List β) (table : Array α) :
    (l.foldl step table).size = table.size := by
  induction l generalizing table with
  | nil => rfl
  | cons e rest ih => rw [List.foldl_cons, ih, hstep]

theorem size_opcodes (c : Contents) : c.opcodes.size = c.bound := by
  rw [opcodes, ← Array.foldl_toList, size_foldl_of_step, Array.size_replicate]
  intro table e
  dsimp only
  split
  · rfl
  · rw [Array.size_modify]

theorem size_ids_allocate (c : Contents) : c.allocate.ids.size = c.bound := by
  have hstrings := (foldl_addString_frame c.strings.toList
    ((c.opcodes.toList.drop 1).foldl (fun asm op => (asm.create op).2) .empty)).2
  rw [Array.foldl_toList] at hstrings
  have hpos : 0 < c.bound := Nat.lt_of_le_of_lt (Nat.zero_le _) c.maxIndex_lt_bound
  have hempty : Assembler.empty.ids.size = 1 := rfl
  rw [allocate, hstrings, ids_foldl_create, List.length_drop, Array.length_toList, size_opcodes, hempty]
  omega

theorem builds_allocate (c : Contents) : Builds ok .empty c.allocate := by
  obtain ⟨hcode, hids⟩ := foldl_addString_frame c.strings.toList
    ((c.opcodes.toList.drop 1).foldl (fun asm op => (asm.create op).2) .empty)
  rw [Array.foldl_toList] at hcode hids
  exact (builds_foldl_create _ _).andSame hcode hids

/-! ## The stream -/

def Rebuilding.endedTypes (b : Rebuilding) : TypeRegistry :=
  match b.struct? with
  | some (id, layout) => b.asm.types.declareStruct id layout
  | none => b.asm.types

/-- What a member does to the layout that is being read: a name that is taken is not taken again. -/
def nextLayout (text : UInt32 → String) (layout : StructLayout) (inst : Instruction) :
    StructLayout :=
  (layout.addMember? (text inst.operands.snd) inst.refs.fst).getD layout

/-- **What an instruction of a listing does.** -/
inductive Adds (b : Rebuilding) (inst : Instruction) : Rebuilding → Prop
  | structType : inst.opcode = .structType →
    Adds b inst ⟨b.asm.opened inst .record, some (inst.id, { name := stringAt b.asm inst.operands.snd })⟩
  | structMember : inst.opcode = .structMember →
    Adds b inst ⟨b.asm.push inst, b.struct?.map fun p => (p.1, nextLayout (stringAt b.asm) p.2 inst)⟩
  | structEnd {s : OpenSection} {outer : List OpenSection} : inst.opcode = .structEnd →
    b.asm.openSections = s :: outer → s.kind = .record →
    Adds b inst ⟨{ b.asm.closed inst s outer with types := b.endedTypes }, none⟩
  | type {d : TypeDesc} : b.asm.describe inst = .ok d →
    Adds b inst ⟨{ b.asm.push inst with types := b.asm.types.declareAlso inst.id d }, b.struct?⟩
  | opens {kind : SectionKind} : inst.opcode.opens? = some kind → kind ≠ .record →
    Adds b inst ⟨b.asm.opened inst kind, b.struct?⟩
  | closes {s : OpenSection} {outer : List OpenSection} : inst.opcode.closes? = some s.kind →
    s.kind ≠ .record → b.asm.openSections = s :: outer → Adds b inst ⟨b.asm.closed inst s outer, b.struct?⟩
  | plain : inst.opcode.isPlain = true → Adds b inst ⟨b.asm.push inst, b.struct?⟩

theorem beginSection_eq {header : Instruction} {kind : SectionKind}
    (h : header.opcode.opens? = some kind) :
    asm.beginSection header = .ok (header.id, asm.opened header kind) := by
  rw [beginSection, h, opened, ← openSections_push asm header]

theorem endSection_eq {footer : Instruction} {s : OpenSection} {outer : List OpenSection}
    (h : footer.opcode.closes? = some s.kind) (hopen : asm.openSections = s :: outer) :
    asm.endSection footer = .ok (asm.closed footer s outer) := by
  rw [endSection, h, hopen]
  dsimp only
  rw [if_pos rfl, closed, ← closedSections_push asm footer]

theorem types_closed (asm : Assembler) (footer : Instruction) (s : OpenSection)
    (outer : List OpenSection) : (asm.closed footer s outer).types = asm.types := types_push asm footer

theorem toList_closedSections_closed (asm : Assembler) (footer : Instruction) (s : OpenSection)
    (outer : List OpenSection) :
    (asm.closed footer s outer).closedSections.toList = asm.closedSections.toList ++
      [{ kind := s.kind, header := s.header, span := .inclusive s.start asm.code.size }] :=
  Array.toList_push

theorem Adds.add (h : Adds b inst b') : b.add inst = .ok b' := by
  unfold Rebuilding.add
  cases h with
  | structType hop =>
    have hstring : stringAt (b.asm.opened inst .record) = stringAt b.asm := by
      unfold stringAt string? opened
      rw [strings_push]
    rw [if_pos hop, @beginSection_eq _ _ .record (by rw [hop]; rfl), ← hstring]
    rfl
  | structMember hop =>
    rw [if_neg (by rw [hop]; nofun), if_pos hop]
    rfl
  | @structEnd s outer hop hopen hkind =>
    rw [if_neg (by rw [hop]; nofun), if_neg (by rw [hop]; nofun), if_pos hop,
      endSection_eq (by rw [hop, hkind]; rfl) hopen]
    show Except.bind (.ok (b.asm.closed inst _ _)) _ = _
    rw [Except.bind]
    unfold Rebuilding.endedTypes
    cases b.struct? <;>
    · rw [← types_closed b.asm inst s outer]
      rfl
  | type hd =>
    have htype := isType_of_describe hd
    have hstruct : inst.opcode ≠ .structType := by
      intro hop
      rw [describe, hop] at hd
      cases hd
    have hne : ∀ {op : Opcode}, op.isType = false → inst.opcode ≠ op := by
      rintro op hop rfl
      rw [htype] at hop
      cases hop
    rw [if_neg hstruct, if_neg (hne rfl), if_neg (hne rfl), if_pos htype, pushTypeAsIs, hd,
      ← types_push b.asm inst]
    rfl
  | opens hkind hne =>
    rw [beginSection_eq hkind]
    rcases Opcode.eq_of_opens? hkind hne with hop | hop <;> rw [hop] <;> rfl
  | closes hkind hne hopen =>
    rw [endSection_eq hkind hopen]
    rcases Opcode.eq_of_closes? hkind hne with hop | hop <;> rw [hop] <;> rfl
  | plain hop =>
    obtain ⟨hmember, htype, hopens, hcloses⟩ := Opcode.isPlain_iff.mp hop
    have hstruct : inst.opcode ≠ .structType := by
      intro heq
      rw [heq] at htype
      cases htype
    have hend : inst.opcode ≠ .structEnd := by
      intro heq
      rw [heq] at hcloses
      cases hcloses
    rw [if_neg hstruct, if_neg hmember, if_neg hend, if_neg (by rw [htype]; nofun),
      if_neg (by rw [hopens]; nofun), if_neg (by rw [hcloses]; nofun)]

theorem Adds.of_add {b b1 b' : Rebuilding} (h : Adds b inst b1)
    (hadd : b.add inst = .ok b') : Adds b inst b' := by
  rw [h.add] at hadd
  cases hadd
  exact h

theorem adds_of_add (hadd : b.add inst = .ok b') : Adds b inst b' := by
  have h := hadd
  unfold Rebuilding.add at h
  split at h
  next hop =>
    exact (Adds.structType hop).of_add hadd
  split at h
  next hop =>
    cases h
    exact .structMember hop
  split at h
  next hop =>
    obtain ⟨asm, hasm, -⟩ := exists_of_bind_eq_ok h
    obtain ⟨s, outer, hkind, hopen, -⟩ := endSection_cases hasm
    rw [hop] at hkind
    exact (Adds.structEnd hop hopen (Option.some.inj hkind).symm).of_add hadd
  next hmember hend =>
  split at h
  next htype =>
    obtain ⟨asm, hasm, -⟩ := exists_of_bind_eq_ok h
    obtain ⟨d, hd, -⟩ := exists_of_bind_eq_ok hasm
    exact (Adds.type hd).of_add hadd
  next hstruct htype =>
  split at h
  next hopens =>
    obtain ⟨kind, hkind⟩ := Option.isSome_iff_exists.mp hopens
    have hne : kind ≠ .record := by
      rintro rfl
      exact hstruct (Opcode.eq_structType_of_opens? hkind)
    exact (Adds.opens hkind hne).of_add hadd
  next hopens =>
  split at h
  next hcloses =>
    obtain ⟨asm, hasm, -⟩ := exists_of_bind_eq_ok h
    obtain ⟨s, outer, hkind, hopen, -⟩ := endSection_cases hasm
    have hne : s.kind ≠ .record := by
      intro heq
      exact hend (Opcode.eq_structEnd_of_closes? (heq ▸ hkind))
    exact (Adds.closes hkind hne hopen).of_add hadd
  next hcloses =>
    cases h
    refine .plain (Opcode.isPlain_iff.mpr ⟨hmember, by simpa using htype, ?_, ?_⟩)
    · simpa using hopens
    · simpa using hcloses

/-- Whatever an instruction means, it is pushed as it stands; sections and types are all that
    changes besides. -/
theorem Adds.asm_eq (h : Adds b inst b') :
    ∃ opened closed types, b'.asm = { b.asm.push inst with
      openSections := opened, closedSections := closed, types } := by
  cases h <;> exact ⟨_, _, _, rfl⟩

theorem Adds.code (h : Adds b inst b') : b'.asm.code = b.asm.code.push inst := by
  obtain ⟨_, _, _, heq⟩ := h.asm_eq
  rw [heq]
  exact code_push b.asm inst

theorem Adds.ids (h : Adds b inst b') : b'.asm.ids = (b.asm.push inst).ids := by
  obtain ⟨_, _, _, heq⟩ := h.asm_eq
  rw [heq]

inductive Reads : List Instruction → Rebuilding → Rebuilding → Prop
  | nil {b : Rebuilding} : Reads [] b b
  | cons {b b1 b' : Rebuilding} {inst : Instruction} {rest : List Instruction} :
    Adds b inst b1 → Reads rest b1 b' → Reads (inst :: rest) b b'

theorem rebuildCode_eq_ok_iff {l : List (Nat × Instruction)} {b b' : Rebuilding} :
    rebuildCode l b = .ok b' ↔ Reads (l.map (·.2)) b b' := by
  induction l generalizing b with
  | nil =>
    constructor
    · intro h
      cases h
      exact .nil
    · intro h
      cases h
      rfl
  | cons e rest ih =>
    obtain ⟨number, inst⟩ := e
    rw [rebuildCode, List.map_cons]
    constructor
    · intro h
      split at h
      next b1 hadd => exact .cons (adds_of_add hadd) (ih.mp h)
      next => cases h
    · intro h
      cases h with
      | cons hadds hrest =>
        rw [hadds.add]
        exact ih.mpr hrest

namespace Reads

variable {l : List Instruction} {b b' : Rebuilding}

theorem append {l' : List Instruction} {b'' : Rebuilding} (h : Reads l b b')
    (h' : Reads l' b' b'') :
    Reads (l ++ l') b b'' := by
  induction h with
  | nil => exact h'
  | cons hadds _ ih => exact .cons hadds (ih h')

theorem concat {b'' : Rebuilding} (h : Reads l b b') (h' : Adds b' inst b'') :
    Reads (l ++ [inst]) b b'' :=
  h.append (.cons h' .nil)

theorem invariant {I : Rebuilding → Prop} (h : Reads l b b')
    (hstep : ∀ {b inst b'}, inst ∈ l → Adds b inst b' → I b → I b') (hb : I b) : I b' := by
  induction h with
  | nil => exact hb
  | cons hadds _ ih =>
    exact ih (fun hi => hstep (List.mem_cons_of_mem _ hi)) (hstep List.mem_cons_self hadds hb)

theorem code (h : Reads l b b') : b'.asm.code.toList = b.asm.code.toList ++ l := by
  induction h with
  | nil => exact (List.append_nil _).symm
  | cons hadds _ ih =>
    rw [ih, hadds.code, Array.toList_push, List.append_assoc, List.singleton_append]

theorem size_ids (h : Reads l b b') : b'.asm.ids.size = b.asm.ids.size :=
  h.invariant (I := fun b' => b'.asm.ids.size = b.asm.ids.size)
    (fun _ hadds hb => by rw [hadds.ids, size_ids_push, hb]) rfl

theorem builds (h : Reads l b b') (hok : ∀ inst ∈ l, ok ⟨inst, b.asm.ids.size⟩) :
    Builds ok b.asm b'.asm := by
  refine (h.invariant (I := fun b' => Builds ok b.asm b'.asm ∧ b'.asm.ids.size = b.asm.ids.size)
    (fun hi hadds hb => ?_) ⟨.refl, rfl⟩).1
  obtain ⟨_, _, _, heq⟩ := hadds.asm_eq
  obtain ⟨hbuilds, hsize⟩ := hb
  rw [heq]
  exact ⟨(hbuilds.trans (.push (hsize ▸ hok _ hi))).andSame rfl rfl, (size_ids_push _ _).trans hsize⟩

end Reads

/-! ## The whole listing -/

theorem foldl_setName_frame (l : List (ResultId × String)) (asm : Assembler) :
    (l.foldl (fun asm (id, name) => asm.setName id name) asm).code = asm.code
      ∧ (l.foldl (fun asm (id, name) => asm.setName id name) asm).ids = asm.ids := by
  induction l generalizing asm with
  | nil => exact ⟨rfl, rfl⟩
  | cons e rest ih =>
    obtain ⟨hcode, hids⟩ := ih (asm.setName e.1 e.2)
    rw [code_setName] at hcode
    rw [ids_setName] at hids
    exact ⟨hcode, hids⟩

theorem addInterface_frame (asm : Assembler) (inst : Instruction) :
    (addInterface asm inst).code = asm.code ∧ (addInterface asm inst).ids = asm.ids := by
  unfold addInterface
  split
  iterate 2 exact ⟨code_registerInterface _ _, ids_registerInterface _ _⟩
  · exact ⟨rfl, rfl⟩

theorem foldl_addInterface_frame (l : List (Nat × Instruction)) (asm : Assembler) :
    (l.foldl (fun asm (_, inst) => addInterface asm inst) asm).code = asm.code
      ∧ (l.foldl (fun asm (_, inst) => addInterface asm inst) asm).ids = asm.ids := by
  induction l generalizing asm with
  | nil => exact ⟨rfl, rfl⟩
  | cons e rest ih =>
    obtain ⟨hcode, hids⟩ := ih (addInterface asm e.2)
    obtain ⟨hcode', hids'⟩ := addInterface_frame asm e.2
    exact ⟨hcode.trans hcode', hids.trans hids'⟩

theorem rebuild_ok (h : c.rebuild = .ok asm) :
    c.bound ≤ c.limit ∧ ∃ b, rebuildCode c.code.toList { asm := c.allocate } = .ok b
      ∧ asm = (c.code.foldl (fun asm (_, inst) => addInterface asm inst)
          (c.names.foldl (fun asm (id, name) => asm.setName id name) b.asm)).finish := by
  unfold rebuild at h
  split at h
  next => cases h
  next hlimit =>
    obtain ⟨b, hb, h⟩ := exists_of_bind_eq_ok h
    cases h
    exact ⟨Nat.le_of_not_lt hlimit, b, hb, rfl⟩

/-- **Reading a listing is building**, and no instruction of it is pushed before its ids are
    allocated. -/
theorem builds_rebuild (h : c.rebuild = .ok asm) :
    Builds (fun x => x.RefsKnown ∧ x.IdKnown) .empty asm := by
  obtain ⟨-, b, hb, rfl⟩ := rebuild_ok h
  have hstream : Builds (fun x => x.RefsKnown ∧ x.IdKnown) c.allocate b.asm := by
    refine (rebuildCode_eq_ok_iff.mp hb).builds (List.forall_mem_map.mpr fun e he => ?_)
    -- All ids are allocated by now, and every index of the instruction is below their number.
    have hle := instIndex_le_maxIndex he
    have hlt := c.maxIndex_lt_bound
    simp only [size_ids_allocate]
    refine ⟨fun r hr => .inr ?_, .inr ?_⟩
    · exact Nat.lt_of_le_of_lt (Nat.le_trans (slot_le_instIndex hr) hle) hlt
    · exact Nat.lt_of_le_of_lt (Nat.le_trans (id_le_instIndex e.2) hle) hlt
  refine (c.builds_allocate.trans hstream).andSame ?_ ?_
  · rw [code_finish, ← Array.foldl_toList, (foldl_addInterface_frame _ _).1, ← Array.foldl_toList,
      (foldl_setName_frame _ _).1]
  · rw [ids_finish, ← Array.foldl_toList, (foldl_addInterface_frame _ _).2, ← Array.foldl_toList,
      (foldl_setName_frame _ _).2]

end Contents

theorem builds_parse {text : String} (h : parse text = .ok asm) :
    Builds (fun x => x.RefsKnown ∧ x.IdKnown) .empty asm := by
  obtain ⟨c, -, h⟩ := exists_of_bind_eq_ok h
  exact Contents.builds_rebuild h

end Listing

end ShaderIR
