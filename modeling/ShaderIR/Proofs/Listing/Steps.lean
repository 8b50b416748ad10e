import ShaderIR.Proofs.Assembler.Histories

/-!
# Reading one instruction after the other

Each instruction of a listing is pushed as it stands; what else it does is decided by its opcode.
`Adds` names these cases with all they do, and the induction over a listing is packed into two
lemmas, one for every listing that is read and one for those that are read without problems.
-/

namespace ShaderIR

variable {inst : Instruction}

namespace Listing.Contents

open Assembler

/-! ## One instruction -/

theorem Adds.unique {b b1 b2 : Rebuilding} (h1 : Adds b inst b1) (h2 : Adds b inst b2) : b1 = b2 :=
  Except.ok.inj (h1.add.symm.trans h2.add)

theorem Adds.exists_of_structEnd {b b' : Rebuilding} (h : Adds b inst b')
    (hop : inst.opcode = .structEnd) :
    ∃ s outer, b.asm.openSections = s :: outer ∧ s.kind = .record := by
  cases h with
  | @structEnd s outer _ hopen hkind => exact ⟨s, outer, hopen, hkind⟩
  | @closes s outer hkind _ hopen =>
    rw [hop] at hkind
    exact ⟨s, outer, hopen, (Option.some.inj hkind).symm⟩
  | structType hother | structMember hother | opens hother | plain hother =>
    rw [hop] at hother
    cases hother
  | type hd =>
    rw [describe, hop] at hd
    cases hd

section

variable {b b' : Rebuilding} {inst : Instruction} (h : Adds b inst b')
include h

theorem Adds.strings : b'.asm.strings = b.asm.strings := by
  obtain ⟨_, _, _, heq⟩ := h.asm_eq
  rw [heq]
  exact strings_push b.asm inst

theorem Adds.stringAt : stringAt b'.asm = stringAt b.asm := by
  unfold Contents.stringAt string?
  rw [h.strings]

theorem Adds.clean_iff : b'.asm.Clean ↔ b.asm.Clean ∧ b.asm.Accepts inst := by
  obtain ⟨_, _, _, heq⟩ := h.asm_eq
  rw [← clean_push, heq]
  rfl

theorem Adds.mem_openSections {s : OpenSection} (hs : s ∈ b'.asm.openSections) :
    s ∈ b.asm.openSections ∨
      (s = { kind := s.kind, header := inst.id, start := b.asm.code.size } ∧
        inst.opcode.opens? = some s.kind) := by
  cases h with
  | structType hop =>
    rcases List.mem_cons.mp hs with rfl | hs
    · exact .inr ⟨rfl, by rw [hop]; rfl⟩
    · exact .inl hs
  | opens hkind =>
    rcases List.mem_cons.mp hs with rfl | hs
    · exact .inr ⟨rfl, hkind⟩
    · exact .inl hs
  | structEnd _ houter | closes _ _ houter => exact .inl (houter ▸ List.mem_cons_of_mem _ hs)
  | structMember | type | plain => exact .inl (openSections_push b.asm inst ▸ hs)

theorem Adds.mem_closedSections {s : ClosedSection} (hs : s ∈ b'.asm.closedSections.toList) :
    s ∈ b.asm.closedSections.toList ∨
      ∃ o outer, b.asm.openSections = o :: outer ∧ inst.opcode.closes? = some o.kind ∧
        s = { kind := o.kind, header := o.header, span := .inclusive o.start b.asm.code.size } := by
  cases h with
  | @structEnd o outer hop hopen hkind =>
    change s ∈ (b.asm.closed inst o outer).closedSections.toList at hs
    rw [toList_closedSections_closed, List.mem_append, List.mem_singleton] at hs
    refine hs.imp_right fun heq => ⟨o, outer, hopen, ?_, heq⟩
    rw [hop, hkind]
    rfl
  | @closes o outer hkind _ hopen =>
    change s ∈ (b.asm.closed inst o outer).closedSections.toList at hs
    rw [toList_closedSections_closed, List.mem_append, List.mem_singleton] at hs
    exact hs.imp_right fun heq => ⟨o, outer, hopen, hkind, heq⟩
  | structType | structMember | type | opens | plain => exact .inl (closedSections_push b.asm inst ▸ hs)

theorem Adds.coherent (hb : b.asm.Coherent) (ha : b.asm.Accepts inst) : b'.asm.Coherent := by
  obtain ⟨_, _, _, heq⟩ := h.asm_eq
  rw [heq]
  exact (hb.push ha).same rfl rfl

end

/-! ## Many instructions -/

namespace Reads

variable {l : List Instruction} {b b' : Rebuilding}

theorem clean_of_clean (h : Reads l b b') (hclean : b'.asm.Clean) : b.asm.Clean := by
  induction h with
  | nil => exact hclean
  | cons hadds _ ih => exact (hadds.clean_iff.mp (ih hclean)).1

/-- **Induction over what is read without problems**: every instruction was accepted. -/
theorem cleanInvariant {I : Rebuilding → Prop} (h : Reads l b b') (hclean : b'.asm.Clean)
    (hstep : ∀ (b : Rebuilding) (inst : Instruction) (b' : Rebuilding), Adds b inst b' →
      b.asm.Accepts inst → I b → I b') (hb : I b) : I b' := by
  induction h with
  | nil => exact hb
  | cons hadds hrest ih =>
    have haccepts := (hadds.clean_iff.mp (hrest.clean_of_clean hclean)).2
    exact ih hclean (hstep _ _ _ hadds haccepts hb)

theorem strings (h : Reads l b b') : b'.asm.strings = b.asm.strings := by
  induction h with
  | nil => rfl
  | cons hadds _ ih => rw [ih, hadds.strings]

end Reads

/-! ## Whole listings -/

theorem exists_allocate_eq (c : Contents) :
    ∃ ids, c.allocate = { Assembler.empty with ids, strings := c.allocate.strings } := by
  have hcreate : ∀ (ops : List Opcode) (asm : Assembler),
      ∃ ids, ops.foldl (fun asm op => (asm.create op).2) asm = { asm with ids } := by
    intro ops
    induction ops with
    | nil => exact fun asm => ⟨asm.ids, rfl⟩
    | cons op rest ih => exact fun asm => ih (asm.create op).2
  obtain ⟨ids, hids⟩ := hcreate (c.opcodes.toList.drop 1) .empty
  refine ⟨ids, ?_⟩
  rw [allocate_eq, allocated, hids]

theorem coherent_allocate (c : Contents) : c.allocate.Coherent := by
  have hcreate : ∀ (ops : List Opcode) (asm : Assembler), asm.Coherent →
      (ops.foldl (fun asm op => (asm.create op).2) asm).Coherent := by
    intro ops
    induction ops with
    | nil => exact fun _ h => h
    | cons op rest ih => exact fun _ h => ih _ (h.create op)
  rw [allocate_eq]
  exact (hcreate _ _ coherent_empty).same rfl rfl

theorem finish_eq_of_clean {asm : Assembler} (h : asm.finish.Clean) :
    asm.openSections = [] ∧ asm.Clean ∧ asm.finish = asm := by
  obtain ⟨hclean, hopen⟩ := clean_finish.mp h
  refine ⟨hopen, hclean, ?_⟩
  rw [finish, hopen]
  cases asm
  cases hopen
  rfl

end Listing.Contents

open Listing.Contents Assembler in
/-- **A listing that is read without problems**: its instructions are, and then names and the
    interface are put on. -/
theorem Listing.reads_of_parse {text : String} {asm : Assembler} (h : Listing.parse text = .ok asm)
    (hclean : asm.Clean) :
    ∃ c b, Reads asm.code.toList { asm := Contents.allocate c } b ∧ b.asm.Clean ∧
      b.asm.openSections = [] ∧ ∃ names interface, asm = { b.asm with names, interface } := by
  obtain ⟨c, -, hc⟩ := exists_of_bind_eq_ok h
  obtain ⟨-, b, hr⟩ := exists_rebuilt hc
  obtain ⟨names, interface, hasm⟩ := hr.exists_eq_finish
  rw [hasm] at hclean
  obtain ⟨hopen, hbefore, heq⟩ := finish_eq_of_clean hclean
  refine ⟨c, b, ?_, hbefore, hopen, names, interface, hasm.trans heq⟩
  rw [hr.code]
  exact rebuildCode_eq_ok_iff.mp hr.stream

end ShaderIR
