import ShaderIR.Proofs.Listing.Types
import ShaderIR.Proofs.Pipeline.Passes

/-!
# Histories without problems

The log only grows, so an assembler with an empty log has had one all along; and while it is empty,
every instruction that was pushed was **accepted**: its id was allocated for its opcode and not yet
defined, and all it refers to was allocated.
-/

namespace ShaderIR

variable {asm : Assembler} {inst : Instruction} {members : List (String × ResultId)} {name : String}
  {id : ResultId}

namespace Assembler

/-! ## What pushing touches -/

theorem push_congr {a b : Assembler} (hcode : b.code = a.code) (hids : b.ids = a.ids)
    (hlog : b.log = a.log) (inst : Instruction) :
    (b.push inst).ids = (a.push inst).ids ∧ (b.push inst).log = (a.push inst).log := by
  have hdefine : (b.define inst).ids = (a.define inst).ids ∧ (b.define inst).log = (a.define inst).log := by
    cases a
    cases b
    dsimp only at hcode hids hlog
    subst hcode hids hlog
    unfold define
    split
    · exact ⟨rfl, rfl⟩
    · dsimp only
      split
      · exact ⟨rfl, rfl⟩
      · split <;> split <;> exact ⟨rfl, rfl⟩
  have hcount : ∀ (l : List ResultId) (a b : Assembler), b.ids = a.ids ∧ b.log = a.log →
      (l.foldl (countUse inst.location) b).ids = (l.foldl (countUse inst.location) a).ids ∧
        (l.foldl (countUse inst.location) b).log = (l.foldl (countUse inst.location) a).log := by
    intro l
    induction l with
    | nil => exact fun _ _ h => h
    | cons id rest ih =>
      rintro a b ⟨hids, hlog⟩
      apply ih
      unfold countUse isAllocated
      rw [hids]
      split
      · exact ⟨rfl, hlog⟩
      · exact ⟨hids, congrArg (fun log : ProblemLog => log.record (.unknownId id) inst.location) hlog⟩
  exact hcount inst.referenced _ _ hdefine

theorem push_withTypes (asm : Assembler) (types : TypeRegistry) (inst : Instruction) :
    ({ asm with types } : Assembler).push inst = { asm.push inst with types } := by
  obtain ⟨hids, hlog⟩ := push_congr (a := asm) (b := { asm with types }) rfl rfl rfl inst
  rw [push_eq, hids, hlog, push_eq asm inst]

/-! ## Clean logs -/

def Clean (asm : Assembler) : Prop := asm.log.problems = #[]

instance (asm : Assembler) : Decidable asm.Clean :=
  inferInstanceAs (Decidable (asm.log.problems = #[]))

/-- An instruction whose id, if it has one, was allocated for it and is not defined yet, and that
    refers to allocated ids only. -/
structure Accepts (asm : Assembler) (inst : Instruction) : Prop where
  own : inst.id.index ≠ 0 → asm.isAllocated inst.id = true ∧ asm.opcodeOf inst.id = inst.opcode ∧
    asm.definition? inst.id = none
  slots : ∀ r ∈ inst.slots, r.index ≠ 0 → asm.isAllocated r = true

theorem not_clean_reportAt (asm : Assembler) (e : AssemblyError) (loc : Option Location) :
    ¬ (asm.reportAt e loc).Clean := by
  intro h
  have hsize := congrArg Array.size h
  simp [reportAt, ProblemLog.record, ProblemLog.push] at hsize

theorem clean_define :
    (asm.define inst).Clean ↔ asm.Clean ∧ (inst.id.index ≠ 0 → asm.isAllocated inst.id = true ∧
      asm.opcodeOf inst.id = inst.opcode ∧ asm.definition? inst.id = none) := by
  unfold define
  by_cases hv : inst.id.isVoid = true
  · rw [if_pos hv]
    exact ⟨fun h => ⟨h, fun hz => absurd (ResultId.isVoid_iff.mp hv) hz⟩, And.left⟩
  · have hz : inst.id.index ≠ 0 := fun hz => hv (ResultId.isVoid_iff.mpr hz)
    rw [if_neg hv]
    split
    next hnone =>
      -- Not in the table: reported as unknown.
      refine ⟨fun h => absurd h (not_clean_reportAt _ _ _), fun h => ?_⟩
      have hlt := (isAllocated_iff.mp (h.2 hz).1).2
      rw [Array.getElem?_eq_none_iff] at hnone
      omega
    next entry hentry =>
      have hlt := (Array.getElem?_eq_some_iff.mp hentry).1
      have hop : asm.opcodeOf inst.id = entry.opcode := by
        rw [opcodeOf, if_neg hv, hentry]
        rfl
      have hdef : asm.definition? inst.id = entry.definition := by
        rw [definition?, hentry]
        rfl
      rw [hop, hdef]
      extract_lets checked
      have hchecked : checked.Clean ↔ asm.Clean ∧ entry.opcode = inst.opcode := by
        unfold checked
        split
        next heq => exact ⟨fun h => ⟨h, heq⟩, And.left⟩
        next hne => exact ⟨fun h => absurd h (not_clean_reportAt _ _ _), fun h => absurd h.2 hne⟩
      cases hd : entry.definition with
      | some i =>
        refine ⟨fun h => absurd h (not_clean_reportAt _ _ _), fun h => ?_⟩
        cases (h.2 hz).2.2
      | none =>
        refine (show _ ↔ checked.Clean from Iff.rfl).trans (hchecked.trans ?_)
        refine and_congr_right fun _ => ⟨fun h _ => ?_, fun h => (h hz).2.1⟩
        exact ⟨isAllocated_iff.mpr ⟨hz, hlt⟩, h, rfl⟩

theorem isAllocated_define (asm : Assembler) (inst : Instruction) (id : ResultId) :
    (asm.define inst).isAllocated id = asm.isAllocated id := by
  have hsize : (asm.define inst).ids.size = asm.ids.size := by
    unfold define
    split
    · rfl
    · split
      · rfl
      · dsimp only
        split <;> split <;> simp
  rw [isAllocated, isAllocated, hsize]

theorem clean_foldl_countUse {loc : Option Location} {l : List ResultId} :
    (l.foldl (countUse loc) asm).Clean ↔ asm.Clean ∧ ∀ id ∈ l, asm.isAllocated id = true := by
  induction l generalizing asm with
  | nil => exact ⟨fun h => ⟨h, nofun⟩, And.left⟩
  | cons id rest ih =>
    rw [List.foldl_cons, ih, List.forall_mem_cons]
    by_cases hid : asm.isAllocated id = true
    · have hsame : ∀ x, (countUse loc asm id).isAllocated x = asm.isAllocated x := by
        intro x
        rw [countUse, if_pos hid, isAllocated, isAllocated, Array.size_modify]
      have hclean : (countUse loc asm id).Clean ↔ asm.Clean := by
        rw [countUse, if_pos hid]
        rfl
      simp only [hsame, hclean, hid, true_and]
    · rw [countUse, if_neg hid]
      exact ⟨fun h => absurd h.1 (not_clean_reportAt _ _ _), fun h => absurd h.2.1 hid⟩

/-- **Nothing is recorded** exactly if the instruction is accepted. -/
theorem clean_push : (asm.push inst).Clean ↔ asm.Clean ∧ asm.Accepts inst := by
  have hpush : (asm.push inst).Clean ↔
      (inst.referenced.foldl (countUse inst.location) (asm.define inst)).Clean := Iff.rfl
  rw [hpush, clean_foldl_countUse, clean_define, and_assoc]
  simp only [isAllocated_define, Instruction.mem_referenced, and_imp]
  exact and_congr_right fun _ => ⟨fun h => ⟨h.1, h.2⟩, fun h => ⟨h.own, h.slots⟩⟩

/-! ## Accepted instructions keep the table and the stream together -/

theorem Accepts.refsKnown (h : asm.Accepts inst) : Appended.RefsKnown ⟨inst, asm.ids.size⟩ := by
  intro r hr
  by_cases hz : r.index = 0
  · exact .inl (ResultId.isVoid_iff.mpr hz)
  · exact .inr (isAllocated_iff.mp (h.slots r hr hz)).2

theorem Accepts.idKnown (h : asm.Accepts inst) : Appended.IdKnown ⟨inst, asm.ids.size⟩ := by
  by_cases hz : inst.id.index = 0
  · exact .inl (ResultId.isVoid_iff.mpr hz)
  · exact .inr (isAllocated_iff.mp (h.own hz).1).2

theorem coherent_empty : Coherent .empty where
  exact := exact_empty
  sound id i hi := by
    have hlt := lt_size_of_definition? hi
    have hsize : Assembler.empty.ids.size = 1 := rfl
    rw [show id = .void from ResultId.eq_void (by omega)] at hi
    cases hi
  complete i id hat := by
    obtain ⟨-, inst, hinst, -⟩ := hat
    cases hinst
  single i j id hat := by
    obtain ⟨-, inst, hinst, -⟩ := hat
    cases hinst
  allocated inst hinst := by cases hinst
  opcode i inst hinst := by cases hinst

namespace Coherent

variable {asm : Assembler} (h : asm.Coherent)
include h

theorem same {b : Assembler} (hcode : b.code = asm.code) (hids : b.ids = asm.ids) : b.Coherent where
  exact := h.exact.same hcode hids
  sound id i hi := (definesAt_congr hcode i id).mpr (h.sound id i (definition?_congr hids id ▸ hi))
  complete i id hat := by
    rw [definition?_congr hids]
    exact h.complete i id ((definesAt_congr hcode i id).mp hat)
  single i j id hi hj :=
    h.single i j id ((definesAt_congr hcode i id).mp hi) ((definesAt_congr hcode j id).mp hj)
  allocated inst hinst := by
    rw [isAllocated, hids]
    exact h.allocated inst (hcode ▸ hinst)
  opcode i inst hinst hz := by
    rw [opcodeOf_congr hids]
    exact h.opcode i inst (hcode ▸ hinst) hz

theorem isAllocated_of_mem (hinst : inst ∈ asm.code.toList)
    (hz : inst.id.index ≠ 0) : asm.isAllocated inst.id = true :=
  (h.allocated inst hinst).resolve_left fun hv => hz (ResultId.isVoid_iff.mp hv)

theorem id_ne_of_accepts {x inst : Instruction} (ha : asm.Accepts inst) (hz : inst.id.index ≠ 0)
    (hx : x ∈ asm.code.toList) : x.id ≠ inst.id := by
  intro heq
  obtain ⟨i, hi⟩ := Array.getElem?_of_mem (Array.mem_toList_iff.mp hx)
  obtain ⟨j, hj⟩ := h.complete i inst.id ⟨hz, x, hi, heq⟩
  rw [(ha.own hz).2.2] at hj
  cases hj

theorem create (op : Opcode) : (asm.create op).2.Coherent where
  exact := h.exact.create op
  sound id i hi := h.sound id i (definition?_create asm op id ▸ hi)
  complete i id hat := by
    rw [definition?_create]
    exact h.complete i id hat
  single := h.single
  allocated inst hinst := by
    refine (h.allocated inst hinst).imp_right fun halloc => ?_
    rw [isAllocated_iff] at halloc ⊢
    rw [ids_create, Array.size_push]
    omega
  opcode i inst hinst hz := by
    -- The id of an instruction is older than the one that was just allocated.
    have hlt := (isAllocated_iff.mp (h.isAllocated_of_mem
      (mem_code hinst) hz)).2
    rw [← h.opcode i inst hinst hz]
    simp only [opcodeOf, ids_create, Array.getElem?_push, Nat.ne_of_lt hlt, if_false]

theorem push (ha : asm.Accepts inst) : (asm.push inst).Coherent where
  exact := h.exact.push ha.refsKnown
  sound := definitionsSound_push inst h.sound
  complete := definitionsComplete_push ha.idKnown h.complete
  single := by
    refine single_push ha.idKnown h.complete (fun halloc => ?_) h.single
    exact (ha.own (isAllocated_iff.mp halloc).1).2.2
  allocated x hx := by
    rw [isAllocated, size_ids_push]
    rcases mem_of_code_push (code_push asm inst) hx with hx | rfl
    · exact h.allocated x hx
    · by_cases hz : x.id.index = 0
      · exact .inl (ResultId.isVoid_iff.mpr hz)
      · exact .inr (ha.own hz).1
  opcode i x hx hz := by
    rw [opcodeOf_push]
    rw [code_push, Array.getElem?_push] at hx
    split at hx
    next =>
      cases hx
      exact (ha.own hz).2.1
    next => exact h.opcode i x hx hz

end Coherent

/-! ## Structs without problems -/

theorem layoutMembers_of_clean
    {layout : StructLayout} (h : (layoutMembers name members (asm, layout)).1.Clean) : asm.Clean ∧
      layoutMembers name members (asm, layout) =
        (asm, { layout with members := layout.members ++ members }) ∧
      (∀ m ∈ members, (asm.types.handle? m.2).isSome = true) ∧
      (members.map (·.1)).Nodup ∧ ∀ m ∈ members, m.1 ∉ layout.members.map (·.1) := by
  induction members generalizing asm layout with
  | nil => exact ⟨h, by rw [List.append_nil]; rfl, nofun, .nil, nofun⟩
  | cons m rest ih =>
    obtain ⟨member, type⟩ := m
    rw [layoutMembers] at h ⊢
    by_cases htype : asm.types.handles.contains type = true
    · rw [if_pos htype] at h ⊢
      unfold StructLayout.addMember? at h ⊢
      by_cases htaken : layout.members.any (·.1 == member) = true
      · -- A member whose name is taken is reported.
        rw [if_pos htaken] at h
        exact absurd (ih h).1 (not_clean_reportAt _ _ _)
      · rw [if_neg htaken] at h ⊢
        obtain ⟨hclean, heq, htypes, hnodup, hfresh⟩ := ih h
        have hnot : member ∉ layout.members.map (·.1) := by
          intro hmem
          obtain ⟨x, hx, rfl⟩ := List.mem_map.mp hmem
          exact htaken (List.any_eq_true.mpr ⟨x, hx, beq_self_eq_true _⟩)
        refine ⟨hclean, ?_, List.forall_mem_cons.mpr ⟨htype, htypes⟩, ?_, ?_⟩
        · dsimp only
          rw [heq, List.append_assoc, List.singleton_append]
        · refine List.nodup_cons.mpr ⟨fun hmem => ?_, hnodup⟩
          obtain ⟨x, hx, hname⟩ := List.mem_map.mp hmem
          apply hfresh x hx
          simp [hname]
        · refine List.forall_mem_cons.mpr ⟨hnot, fun x hx hmem => hfresh x hx ?_⟩
          simp only [List.map_append, List.mem_append]
          exact .inl hmem
    · -- So is a member that is no type.
      rw [if_neg htype] at h
      exact absurd (ih h).1 (not_clean_reportAt _ _ _)

theorem clean_of_pushMembers {i : Nat} (h : (pushMembers i members asm).Clean) : asm.Clean := by
  induction members generalizing i asm with
  | nil => exact h
  | cons m rest ih => exact (clean_push.mp (ih h)).1

theorem log_setName (asm : Assembler) (id : ResultId) (name : String) :
    (asm.setName id name).log = asm.log := by
  unfold setName
  split <;> rfl

theorem clean_setName : (asm.setName id name).Clean ↔ asm.Clean := by
  rw [Clean, log_setName, Clean]

theorem setName_eq (asm : Assembler) (id : ResultId) (name : String) :
    asm.setName id name = { asm with names := asm.names.nameAll [(id, name)] } := by
  rw [← Listing.Contents.foldl_setName_eq]
  rfl

theorem pushStruct_of_clean (h : (asm.pushStruct name members).2.Clean) :
    asm.Clean ∧ (∀ m ∈ members, (asm.types.handle? m.2).isSome = true) ∧ (members.map (·.1)).Nodup ∧
      (asm.structEnded name members).Clean ∧ (asm.pushStruct name members).2 =
        ({ asm.structEnded name members with
            closedSections := asm.closedSections.push (asm.structSection members.length)
            types := asm.types.declareStruct ⟨asm.ids.size⟩ { name, members } } :
          Assembler).setName ⟨asm.ids.size⟩ name := by
  -- Everything that is pushed comes after the members are looked at.
  have hlaid : (layoutMembers name members (asm, { name })).1.Clean := by
    have hpushed := clean_setName.mp h
    have hlisted := (clean_push.mp hpushed).1
    exact (clean_push.mp (clean_of_pushMembers hlisted)).1
  obtain ⟨hclean, heq, htypes, hnodup, -⟩ := layoutMembers_of_clean hlaid
  have hfinal := pushStruct_eq heq
  refine ⟨hclean, htypes, hnodup, ?_, hfinal⟩
  rw [hfinal] at h
  have hdeclared := clean_setName.mp h
  exact hdeclared

/-! ## Types without problems -/

theorem pushType_eq {d : TypeDesc} (hv : inst.id.isVoid = true) (hd : asm.describe inst = .ok d) :
    asm.pushType inst = .ok (match asm.types.declared? d with
      | some id => (id, asm)
      | none => (⟨asm.ids.size⟩, asm.declareNew inst d)) := by
  rw [pushType, hd, hv]
  show (match asm.types.declared? d with | some id => _ | none => _) = _
  cases asm.types.declared? d with
  | some id => rfl
  | none =>
    have htypes : (asm.pushNew inst).2.types = asm.types := types_push _ _
    rw [declareNew, ← htypes]
    rfl

variable {asm after : Assembler}

theorem pushType_cases (hv : inst.id.isVoid = true) (h : asm.pushType inst = .ok (id, after)) :
    ∃ d, asm.describe inst = .ok d ∧ ((asm.types.declared? d = some id ∧ after = asm) ∨
        (asm.types.declared? d = none ∧ id = ⟨asm.ids.size⟩ ∧ after = asm.declareNew inst d)) := by
  obtain ⟨d, hd, -⟩ := exists_of_bind_eq_ok h
  rw [pushType_eq hv hd, Except.ok.injEq] at h
  refine ⟨d, hd, ?_⟩
  cases hknown : asm.types.declared? d with
  | some j =>
    rw [hknown] at h
    cases h
    exact .inl ⟨rfl, rfl⟩
  | none =>
    rw [hknown] at h
    cases h
    exact .inr ⟨rfl, rfl, rfl⟩

theorem clean_of_pushType (heq : asm.pushType inst = .ok (id, after)) (h : after.Clean) :
    asm.Clean := by
  obtain ⟨d, -, rfl | ⟨-, rfl⟩ | ⟨-, rfl⟩⟩ := pushType_ok heq
  · exact h
  · exact (clean_push.mp h).1
  · exact (clean_push.mp h).1

/-! ## The log only grows -/

theorem clean_finish : asm.finish.Clean ↔ asm.Clean ∧ asm.openSections = [] := by
  have hfold : ∀ (l : List OpenSection) (asm : Assembler),
      (l.foldl (fun asm s => asm.report (.unclosedSection s.kind s.header)) asm).Clean → asm.Clean ∧ l = [] := by
    intro l
    induction l with
    | nil => exact fun _ h => ⟨h, rfl⟩
    | cons s rest ih => exact fun _ h => absurd (ih _ h).1 (not_clean_reportAt _ _ _)
  constructor
  · intro h
    exact hfold _ { asm with openSections := [] } h
  · rintro ⟨hclean, hopen⟩
    rw [finish, hopen]
    exact hclean

theorem clean_of_replace {old new : ResultId} (h : (asm.replace old new).2.Clean) :
    asm.Clean ∧
      (asm.isAllocated old = true ∧ (new.isVoid = true ∨ asm.isAllocated new = true)) := by
  unfold replace at h
  by_cases hold : asm.isAllocated old = true
  · have hnotVoid : old.isVoid = false := ResultId.isVoid_eq_false.mpr (isAllocated_iff.mp hold).1
    rw [if_neg (by simp [hnotVoid]), if_neg (by simp [hold])] at h
    by_cases hnew : new.isVoid = true ∨ asm.isAllocated new = true
    · rw [if_neg (by rcases hnew with hnew | hnew <;> simp [hnew])] at h
      refine ⟨?_, hold, hnew⟩
      split at h <;> exact h
    · rw [if_pos (by simpa using hnew)] at h
      exact absurd h (not_clean_reportAt _ _ _)
  · split at h
    · exact absurd h (not_clean_reportAt _ _ _)
    · rw [if_pos (by simpa using hold)] at h
      exact absurd h (not_clean_reportAt _ _ _)

theorem clean_flatten : asm.flatten.2.Clean ↔ asm.Clean := by
  have hlog : asm.sweep.asm.log = asm.log := by rw [(traced_sweep asm).frame]
  rw [Clean, Clean, ← hlog]
  rfl

theorem clean_of_pushInterface {direction : Direction}
    {type id : ResultId} (heq : asm.pushInterface direction name type = .ok (id, after))
    (h : after.Clean) : asm.Clean := by
  rcases pushInterface_cases heq with rfl | rfl
  · exact h
  · have hpushed := clean_setName.mp h
    exact (clean_push.mp hpushed).1

end Assembler

open Assembler in
theorem Operation.clean_of_run {o : Operation} (h : (o.run asm).Clean) : asm.Clean := by
  have hreplace : ∀ {a : Assembler} {old new}, (a.replace old new).2.Clean → a.Clean :=
    fun h => (clean_of_replace h).1
  have hsurvives : o.Survives asm fun b => b.Clean → asm.Clean := by
    constructor
    case aside => exact fun _ _ _ _ ha => ha
    case create => exact fun _ ha => ha
    case push => exact fun _ ha hb => ha (clean_push.mp hb).1
    case setName => exact fun _ _ ha hb => ha (clean_setName.mp hb)
    case interface => exact clean_of_pushInterface
    case type => exact fun _ heq ha hb => ha (clean_of_pushType heq hb)
    case struct => exact fun hb => (pushStruct_of_clean hb).1
    case layout => exact fun _ _ _ => id
    case finish => exact fun hb => (clean_finish.mp hb).1
    case replace => exact fun _ => hreplace
    case flatten => exact fun _ => clean_flatten.mp
    case merge =>
      exact mergeLiterals_invariant (I := fun b => b.Clean → asm.Clean) (fun _ _ _ ha hb => ha (hreplace hb)) id
  exact hsurvives.run id h

/-! ## Histories -/

/-- The assemblers that some run from nothing reaches in which every operation was permitted when it
    was called. -/
inductive History (permits : Assembler → Operation → Prop) : Assembler → Prop
  | empty : History permits .empty
  | step {asm : Assembler} (o : Operation) : History permits asm → permits asm o → History permits (o.run asm)

def Operation.permitted (permits : Assembler → Operation → Prop)
    [∀ asm, DecidablePred (permits asm)] :
    Assembler → List Operation → Bool
  | _, [] => true
  | asm, o :: rest => decide (permits asm o) && permitted permits (o.run asm) rest

namespace History

variable {permits : Assembler → Operation → Prop} {asm : Assembler}

theorem runAll [∀ asm, DecidablePred (permits asm)] {ops : List Operation}
    (h : Operation.permitted permits .empty ops = true) :
    History permits (Operation.runAll ops) := by
  have hfrom : ∀ (ops : List Operation) (asm : Assembler), History permits asm →
      Operation.permitted permits asm ops = true →
      History permits (ops.foldl (fun asm o => o.run asm) asm) := by
    intro ops
    induction ops with
    | nil => exact fun _ hasm _ => hasm
    | cons o rest ih =>
      intro asm hasm hops
      rw [Operation.permitted, Bool.and_eq_true, decide_eq_true_eq] at hops
      exact ih _ (hasm.step o hops.1) hops.2
  exact hfrom ops _ .empty h

/-- **Induction over histories without problems.**  All states before one with an empty log have
    one. -/
theorem invariant {I : Assembler → Prop} (h : History permits asm) (hclean : asm.Clean)
    (hempty : I .empty)
    (hstep : ∀ (asm : Assembler) (o : Operation), History permits asm → permits asm o →
      (o.run asm).Clean → I asm → I (o.run asm)) : I asm := by
  induction h with
  | empty => exact hempty
  | step o hasm hpermits ih =>
    exact hstep _ o hasm hpermits hclean (ih (Operation.clean_of_run hclean))

end History

end ShaderIR
