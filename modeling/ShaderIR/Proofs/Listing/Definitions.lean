import ShaderIR.Proofs.Assembler.DeadCode
import ShaderIR.Proofs.Listing.RoundTrip

/-!
# Definitions in a listing

A listing allocates each id for the opcode of the instruction that defines it.  If no redefinition
was recorded while it was read, each id is defined once, and the table and the stream agree on where
and by what.
-/

namespace ShaderIR

variable {asm : Assembler} {inst : Instruction} {id : ResultId}

namespace Assembler

/-! ## Streams and their tables -/

/-- The table says of every id what the stream says: how often it is used, where it is defined,
    which is at one place only, and by which opcode. -/
structure Coherent (asm : Assembler) : Prop where
  exact : Exact asm
  sound : asm.DefinitionsSound
  complete : asm.DefinitionsComplete
  single : asm.SinglyDefined
  allocated : ∀ inst ∈ asm.code.toList, inst.id.isVoid = true ∨ asm.isAllocated inst.id = true
  opcode : ∀ (i : Nat) inst, asm.code[i]? = some inst → inst.id.index ≠ 0 → asm.opcodeOf inst.id = inst.opcode

namespace Coherent

variable {asm : Assembler} (h : asm.Coherent)
include h

theorem definition?_iff (id : ResultId) (i : Nat) :
    asm.definition? id = some i ↔ asm.DefinesAt i id :=
  definition?_eq_some_iff h.sound h.complete h.single

theorem definition?_eq {i : Nat} (hi : asm.code[i]? = some inst)
    (hz : inst.id.index ≠ 0) : asm.definition? inst.id = some i :=
  (h.definition?_iff _ _).mpr ⟨hz, inst, hi, rfl⟩

theorem exists_of_definition? {i : Nat} (hi : asm.definition? id = some i) :
    ∃ inst, asm.code[i]? = some inst ∧ inst.id = id ∧ id.index ≠ 0 ∧
      asm.definingInstruction? id = some inst ∧ asm.opcodeOf id = inst.opcode := by
  obtain ⟨hz, inst, hinst, rfl⟩ := (h.definition?_iff _ _).mp hi
  refine ⟨inst, hinst, rfl, hz, ?_, h.opcode i inst hinst hz⟩
  rw [definingInstruction?, hi, Option.bind_some, hinst]

end Coherent

/-! ## The log of a run -/

def NoRedefinition (asm : Assembler) : Prop :=
  ∀ p ∈ asm.log.problems, ∀ id, p.message ≠ (AssemblyError.redefinition id).message

theorem noRedefinition_of_problems (h : asm.log.problems = #[]) : asm.NoRedefinition := by
  intro p hp
  rw [h] at hp
  exact absurd hp (Array.not_mem_empty p)

variable {loc : Option Location}

theorem noRedefinition_of_reportAt {e : AssemblyError} (h : (asm.reportAt e loc).NoRedefinition) :
    asm.NoRedefinition ∧ ∀ id, e ≠ .redefinition id := by
  refine ⟨fun p hp id => h p (Array.mem_push_of_mem _ hp) id, ?_⟩
  rintro id rfl
  exact h _ (Array.mem_push_self) id rfl

theorem noRedefinition_of_countUse
    (h : (countUse loc asm id).NoRedefinition) : asm.NoRedefinition := by
  unfold countUse at h
  split at h
  · exact h
  · exact (noRedefinition_of_reportAt h).1

theorem noRedefinition_of_foldl_countUse
    {l : List ResultId} (h : (l.foldl (countUse loc) asm).NoRedefinition) : asm.NoRedefinition := by
  induction l generalizing asm with
  | nil => exact h
  | cons id rest ih => exact noRedefinition_of_countUse (ih h)

theorem noRedefinition_of_define (h : (asm.define inst).NoRedefinition) :
    asm.NoRedefinition ∧ (asm.isAllocated inst.id = true → asm.definition? inst.id = none) := by
  have hif : ∀ {c : Prop} [Decidable c] {e : AssemblyError} {loc : Option Location},
      (if c then asm else asm.reportAt e loc).NoRedefinition → asm.NoRedefinition := by
    intro c _ e loc h
    split at h
    · exact h
    · exact (noRedefinition_of_reportAt h).1
  unfold define at h
  split at h
  next hv =>
    refine ⟨h, fun ha => ?_⟩
    exact absurd (ResultId.isVoid_iff.mp hv) (isAllocated_iff.mp ha).1
  next =>
    split at h
    next hnone =>
      refine ⟨(noRedefinition_of_reportAt h).1, fun _ => ?_⟩
      rw [definition?, hnone]
      rfl
    next entry hentry =>
      extract_lets asm' at h
      split at h
      next => exact absurd rfl ((noRedefinition_of_reportAt h).2 inst.id)
      next hdef =>
        refine ⟨hif h, fun _ => ?_⟩
        rw [definition?, hentry]
        exact hdef

theorem noRedefinition_of_push (h : (asm.push inst).NoRedefinition) :
    asm.NoRedefinition ∧ (asm.isAllocated inst.id = true → asm.definition? inst.id = none) :=
  noRedefinition_of_define (noRedefinition_of_foldl_countUse h)

theorem noRedefinition_of_finish (h : asm.finish.NoRedefinition) : asm.NoRedefinition := by
  have hfold : ∀ (l : List OpenSection) (asm : Assembler),
      (l.foldl (fun asm s => asm.report (.unclosedSection s.kind s.header)) asm).NoRedefinition →
        asm.NoRedefinition := by
    intro l
    induction l with
    | nil => exact fun _ h => h
    | cons s rest ih => exact fun asm h => (noRedefinition_of_reportAt (ih _ h)).1
  exact hfold asm.openSections { asm with openSections := [] } h

theorem single_push (hid : Appended.IdKnown ⟨inst, asm.ids.size⟩)
    (hcomplete : asm.DefinitionsComplete)
    (hnew : asm.isAllocated inst.id = true → asm.definition? inst.id = none)
    (hsingle : asm.SinglyDefined) :
    (asm.push inst).SinglyDefined := by
  -- The id that is defined now was not defined before.
  have hfresh : ∀ i, inst.id.index ≠ 0 → ¬ asm.DefinesAt i inst.id := by
    intro i hz hat
    have hlt : inst.id.index < asm.ids.size :=
      hid.resolve_left fun hv => hz (ResultId.isVoid_iff.mp hv)
    obtain ⟨j, hj⟩ := hcomplete i inst.id hat
    rw [hnew (isAllocated_iff.mpr ⟨hz, hlt⟩)] at hj
    cases hj
  intro i j id hi hj
  rcases definesAt_push.mp hi with hi | ⟨rfl, rfl, hz⟩
  · rcases definesAt_push.mp hj with hj | ⟨rfl, rfl, hz⟩
    · exact hsingle i j id hi hj
    · exact absurd hi (hfresh i hz)
  · rcases definesAt_push.mp hj with hj | ⟨rfl, -, -⟩
    · exact absurd hj (hfresh j hz)
    · rfl

theorem opcodeOf_push (asm : Assembler) (inst : Instruction) (id : ResultId) :
    (asm.push inst).opcodeOf id = asm.opcodeOf id := by
  rw [opcodeOf, opcodeOf, getElem?_ids_push, Option.map_map]
  rfl

end Assembler

namespace Listing.Contents

open Assembler

/-! ## What ids are allocated for -/

theorem opcodes_foldl {k : Nat} {op : Opcode} (hk : k ≠ 0) (l : List (Nat × Instruction))
    (hl : ∀ e ∈ l, e.2.id.index = k → e.2.opcode = op) {table : Array Opcode} {old : Opcode}
    (htable : table[k]? = some old) (hold : old = .unknown ∨ old = op) :
    ∃ new, (l.foldl (fun table e =>
        if e.2.id.isVoid then table
        else table.modify e.2.id.index fun op => if op = .unknown then e.2.opcode else op)
          table)[k]? = some new ∧ (new = .unknown ∨ new = op) ∧
      ((∃ e ∈ l, e.2.id.index = k) ∨ old = op → new = op) := by
  induction l generalizing table old with
  | nil =>
    refine ⟨old, htable, hold, ?_⟩
    rintro (⟨e, he, -⟩ | h)
    · cases he
    · exact h
  | cons e rest ih =>
    have hrest : ∀ e ∈ rest, e.2.id.index = k → e.2.opcode = op :=
      fun x hx => hl x (List.mem_cons_of_mem _ hx)
    rw [List.foldl_cons]
    by_cases hid : e.2.id.index = k
    · -- This is a definition of the id: from now on its opcode is known.
      have hop := hl e List.mem_cons_self hid
      have hnv : ¬ e.2.id.isVoid = true := fun hv => hk (hid ▸ ResultId.isVoid_iff.mp hv)
      rw [if_neg hnv]
      have hnext : (table.modify e.2.id.index fun op =>
          if op = .unknown then e.2.opcode else op)[k]? = some op := by
        rw [Array.getElem?_modify, if_pos hid, htable, Option.map_some, hop]
        rcases hold with rfl | rfl
        · rfl
        · split <;> rfl
      obtain ⟨new, hnew, hor, hop'⟩ := ih hrest hnext (.inr rfl)
      exact ⟨new, hnew, hor, fun _ => hop' (.inr rfl)⟩
    · have hnext : (if e.2.id.isVoid then table else table.modify e.2.id.index fun op =>
          if op = .unknown then e.2.opcode else op)[k]? = some old := by
        split
        · exact htable
        · rw [Array.getElem?_modify, if_neg hid]
          exact htable
      obtain ⟨new, hnew, hor, hop'⟩ := ih hrest hnext hold
      refine ⟨new, hnew, hor, ?_⟩
      rintro (⟨x, hx, hxk⟩ | h)
      · rcases List.mem_cons.mp hx with rfl | hx
        · exact absurd hxk hid
        · exact hop' (.inl ⟨x, hx, hxk⟩)
      · exact hop' (.inr h)

theorem getElem?_ids_foldl_create (ops : List Opcode) (asm : Assembler) (k : Nat) :
    (ops.foldl (fun asm op => (asm.create op).2) asm).ids[k]? =
      if k < asm.ids.size then asm.ids[k]?
      else (ops[k - asm.ids.size]?).map fun op => { opcode := op } := by
  induction ops generalizing asm with
  | nil =>
    rw [List.foldl_nil, List.getElem?_nil, Option.map_none]
    split
    · rfl
    next h => exact Array.getElem?_eq_none_iff.mpr (by omega)
  | cons op rest ih =>
    rw [List.foldl_cons, ih, ids_create, Array.size_push, Array.getElem?_push]
    by_cases hlt : k < asm.ids.size
    · rw [if_pos (by omega), if_neg (by omega), if_pos hlt]
    · rw [if_neg hlt]
      by_cases heq : k = asm.ids.size
      · rw [if_pos (by omega), if_pos heq, heq, Nat.sub_self, List.getElem?_cons_zero]
        rfl
      · rw [if_neg (by omega), show k - asm.ids.size = (k - (asm.ids.size + 1)) + 1 by omega,
          List.getElem?_cons_succ]

theorem opcodeOf_allocate (c : Contents) (hz : id.index ≠ 0) {op : Opcode}
    (h : c.opcodes[id.index]? = some op) : c.allocate.opcodeOf id = op := by
  have hids := (foldl_addString_frame c.strings.toList
    ((c.opcodes.toList.drop 1).foldl (fun asm op => (asm.create op).2) .empty)).2
  rw [Array.foldl_toList] at hids
  have hempty : Assembler.empty.ids.size = 1 := rfl
  rw [allocate, opcodeOf_congr hids, opcodeOf, if_neg (fun hv => hz (ResultId.isVoid_iff.mp hv)),
    getElem?_ids_foldl_create, hempty, if_neg (by omega), List.getElem?_drop,
    show 1 + (id.index - 1) = id.index by omega, Array.getElem?_toList, h]
  rfl

theorem opcodeOf_allocate_of_mem {c : Contents} {e : Nat × Instruction} (he : e ∈ c.code.toList)
    (hz : e.2.id.index ≠ 0)
    (hsame : ∀ d ∈ c.code.toList, d.2.id.index = e.2.id.index → d.2.opcode = e.2.opcode) :
    c.allocate.opcodeOf e.2.id = e.2.opcode := by
  have hlt : e.2.id.index < c.bound :=
    Nat.lt_of_le_of_lt (Nat.le_trans (id_le_instIndex e.2) (instIndex_le_maxIndex he)) c.maxIndex_lt_bound
  have hstart : (Array.replicate c.bound Opcode.unknown)[e.2.id.index]? = some .unknown := by
    rw [Array.getElem?_replicate, if_pos hlt]
  obtain ⟨new, hnew, -, hop⟩ := opcodes_foldl hz c.code.toList hsame hstart (.inl rfl)
  refine opcodeOf_allocate c hz ?_
  rw [opcodes, ← Array.foldl_toList]
  rw [hop (.inl ⟨e, he, rfl⟩)] at hnew
  exact hnew

/-! ## The stream of a listing -/

theorem Reads.definitions {l : List Instruction} {b b' : Rebuilding} (h : Reads l b b')
    (hlog : b'.asm.NoRedefinition) (hids : ∀ inst ∈ l, Appended.IdKnown ⟨inst, b.asm.ids.size⟩) :
    b.asm.NoRedefinition ∧ (∀ id, b'.asm.opcodeOf id = b.asm.opcodeOf id) ∧
      (b.asm.DefinitionsComplete → b.asm.SinglyDefined →
        b'.asm.SinglyDefined) := by
  induction h with
  | nil => exact ⟨hlog, fun _ => rfl, fun _ h => h⟩
  | @cons b b1 b' inst rest hadds _ ih =>
    obtain ⟨_, _, _, heq⟩ := hadds.asm_eq
    have hcode : b1.asm.code = (b.asm.push inst).code := by rw [heq]
    have hentries := hadds.ids
    have hproblems : b1.asm.log = (b.asm.push inst).log := by rw [heq]
    obtain ⟨hknown, hrest⟩ := List.forall_mem_cons.mp hids
    obtain ⟨hlog1, hopcodes, hsingle⟩ := ih hlog (by rwa [hentries, size_ids_push])
    have hpushed : (b.asm.push inst).NoRedefinition := by
      intro p hp
      rw [← hproblems] at hp
      exact hlog1 p hp
    obtain ⟨hlog0, hnew⟩ := noRedefinition_of_push hpushed
    refine ⟨hlog0, fun id => ?_, fun hcomplete hb => hsingle ?_ ?_⟩
    · rw [hopcodes, opcodeOf_congr hentries, opcodeOf_push]
    · intro i id hat
      rw [definition?_congr hentries]
      exact definitionsComplete_push hknown hcomplete i id ((definesAt_congr hcode i id).mp hat)
    · intro i j id hi hj
      exact single_push hknown hcomplete hnew hb i j id ((definesAt_congr hcode i id).mp hi)
        ((definesAt_congr hcode j id).mp hj)

/-- What no redefinition among the problems of a listing says about its stream. -/
theorem definitions_rebuild {c : Contents} (h : c.rebuild = .ok asm) (hlog : asm.NoRedefinition) :
    asm.SinglyDefined ∧
      ∀ (i : Nat) inst, asm.code[i]? = some inst → inst.id.index ≠ 0 →
        asm.opcodeOf inst.id = inst.opcode := by
  obtain ⟨-, b, hr⟩ := exists_rebuilt h
  -- Names and the interface are put on behind the stream; neither concerns its ids.
  obtain ⟨names, interface, hasm⟩ := hr.exists_eq_finish
  have hcode : asm.code = b.asm.code := by rw [hasm, code_finish]
  have hentries : asm.ids = b.asm.ids := by rw [hasm, ids_finish]
  have hlog' : b.asm.NoRedefinition := by
    rw [hasm] at hlog
    exact fun p hp => noRedefinition_of_finish hlog p hp
  have hknown : ∀ e ∈ c.code.toList, Appended.IdKnown ⟨e.2, c.allocate.ids.size⟩ := by
    intro e he
    have hle := Nat.le_trans (id_le_instIndex e.2) (instIndex_le_maxIndex he)
    refine .inr ?_
    rw [size_ids_allocate]
    exact Nat.lt_of_le_of_lt hle c.maxIndex_lt_bound
  obtain ⟨-, hopcodes, hsingle⟩ :=
    (rebuildCode_eq_ok_iff.mp hr.stream).definitions hlog' (List.forall_mem_map.mpr hknown)
  have hnone : ∀ i id, ¬ c.allocate.DefinesAt i id := by
    rintro i id ⟨-, inst, hinst, -⟩
    rw [code_allocate] at hinst
    cases hinst
  have hone : asm.SinglyDefined := by
    intro i j id hi hj
    exact hsingle (fun i id hat => absurd hat (hnone i id)) (fun i _ id hat => absurd hat (hnone i id))
      i j id ((definesAt_congr hcode i id).mp hi) ((definesAt_congr hcode j id).mp hj)
  refine ⟨hone, fun i inst hinst hz => ?_⟩
  -- All definitions of the id are at one place, so they have one opcode.
  have hat : ∀ e ∈ c.code.toList, ∃ k : Nat, asm.code[k]? = some e.2 := by
    intro e he
    have hmem : e.2 ∈ asm.code.toList := by rw [hr.code]; exact List.mem_map_of_mem he
    obtain ⟨k, hk⟩ := List.mem_iff_getElem?.mp hmem
    exact ⟨k, by rw [← Array.getElem?_toList]; exact hk⟩
  have hsame : ∀ e ∈ c.code.toList, e.2.id.index = inst.id.index → e.2.opcode = inst.opcode := by
    intro e he hid
    obtain ⟨k, hk⟩ := hat e he
    have hki := hone k i inst.id ⟨hz, e.2, hk, ResultId.ext_index hid⟩ ⟨hz, inst, hinst, rfl⟩
    rw [hki, hinst, Option.some.injEq] at hk
    rw [hk]
  have hmem : inst ∈ c.code.toList.map (·.2) := by
    rw [← hr.code]
    exact mem_code hinst
  obtain ⟨e, he, rfl⟩ := List.mem_map.mp hmem
  rw [opcodeOf_congr hentries, hopcodes, opcodeOf_allocate_of_mem he hz hsame]

end Contents

open Assembler in
/-- **A listing without redefinitions is coherent.** -/
theorem coherent_of_parse {text : String} (h : parse text = .ok asm)
    (hlog : asm.NoRedefinition) : asm.Coherent := by
  have hreach : Reached Appended.IdKnown asm := .parsed h
  obtain ⟨c, -, hc⟩ := exists_of_bind_eq_ok h
  obtain ⟨hsingle, hopcode⟩ := Contents.definitions_rebuild hc hlog
  refine { exact := ?_, sound := ?_, complete := ?_, single := hsingle, allocated := ?_,
           opcode := hopcode }
  · exact Exact.builds ((builds_parse h).mono fun _ hx => hx.1) exact_empty
  · exact definitionsSound_of_reached (fun _ _ hid => hid) hreach
  · exact definitionsComplete_of_reached hreach
  · -- Every id was allocated before the first instruction was pushed.
    refine (builds_parse h).preserves
      (I := fun a => ∀ inst ∈ a.code.toList, inst.id.isVoid = true ∨ a.isAllocated inst.id = true) ?_ ?_ ?_ ?_
    · intro a b hcode hids ha inst hinst
      rw [hcode] at hinst
      rw [isAllocated_iff, hids, ← isAllocated_iff]
      exact ha inst hinst
    · intro a op ha inst hinst
      refine (ha inst hinst).imp_right fun halloc => ?_
      rw [isAllocated_iff] at halloc ⊢
      rw [ids_create, Array.size_push]
      omega
    · intro a new hnew ha inst hinst
      rw [code_push, Array.toList_push, List.mem_append, List.mem_singleton] at hinst
      rw [isAllocated_iff, size_ids_push, ← isAllocated_iff]
      rcases hinst with hinst | rfl
      · exact ha inst hinst
      · by_cases hv : inst.id.isVoid = true
        · exact .inl hv
        · refine .inr (isAllocated_iff.mpr ⟨fun hz => hv (ResultId.isVoid_iff.mpr hz), ?_⟩)
          exact hnew.2.resolve_left hv
    · intro inst hinst
      cases hinst

end Listing

end ShaderIR
