import ShaderIR.Proofs.Assembler.Sections
import ShaderIR.Proofs.Lists

/-!
# Removing dead code twice

What is left after dead code removal has no dead ids: an id that nothing refers to stayed only
because its definition has an effect, and that definition is still there.  So a second removal marks
nothing and renames nothing.
-/

namespace ShaderIR

variable {asm : Assembler} (hsound : asm.DefinitionsSound)
  (hsingle : asm.SinglyDefined) (htrailers : asm.VoidTrailers)

namespace Assembler

/-! ## Nothing is dead afterwards -/

def NoneDead (asm : Assembler) : Prop := ∀ id, id.index ≠ 0 → asm.isDead id = false

section

include htrailers

theorem not_removed_of_not_isPure {i : Nat} {x : Instruction} (hx : asm.code[i]? = some x)
    (hid : x.id.index ≠ 0) (hpure : x.opcode.isPure = false) :
    flagged asm.sweep.removed i = false := by
  rw [Bool.eq_false_iff]
  intro hi
  rcases removed_cases_of_traced hi hx with ⟨hp, -⟩ | hop
  · rw [hpure] at hp
    cases hp
  · have hmem : x ∈ asm.code.toList := mem_code hx
    exact hid (ResultId.isVoid_iff.mp (htrailers x hmem hop))

include hsound hsingle in
theorem noneDead_flatten : asm.flatten.2.NoneDead := by
  intro id hz
  rw [Bool.eq_false_iff]
  intro hdead
  obtain ⟨hlt, huses, hdrop⟩ := isDead_iff.mp hdead
  obtain ⟨old, hkept, rfl⟩ := exists_newId_eq hlt
  have hold : old.index ≠ 0 := by
    intro h0
    rw [ResultId.eq_void h0, newId_void] at hz
    exact hz rfl
  obtain ⟨e, d, he, hd, hin⟩ := getElem?_ids_flatten hkept hold
  -- Nothing referred to the id when the removal ended, so its definition has an effect.
  have hcount : asm.sweep.asm.useCount old = 0 := by
    rw [useCount, hd] at huses
    rw [useCount, he]
    exact huses
  have hstays := (traced_sweep asm).complete old (isAllocated_iff.mpr ⟨hold, hkept.1⟩) hkept.2 hcount
  cases hdef : asm.definingInstruction? old with
  | none =>
    rw [mayDrop, hdef] at hstays
    cases hstays
  | some x =>
    rw [mayDrop, hdef] at hstays
    obtain ⟨i, hi, hx⟩ := Option.bind_eq_some_iff.mp hdef
    obtain ⟨-, x', hx', hid⟩ := hsound old i hi
    rw [hx, Option.some.injEq] at hx'
    subst hx'
    have hleft := not_removed_of_not_isPure htrailers hx (hid ▸ hold) hstays
    have hthere := getElem?_code_flatten hx hleft
    -- The new table finds that definition, since no other instruction has the id.
    have hdefinition : asm.flatten.2.definition? (asm.newId old) = d := by
      rw [definition?, hd]
      rfl
    cases d with
    | none =>
      refine hin _ (mem_code hthere) ?_
      rw [Instruction.id_rename, hid]
    | some j =>
      obtain ⟨y, hy, hyid⟩ := hin
      rw [Array.getElem?_toList] at hy
      obtain ⟨k, z, hz', hkeep, rfl, rfl⟩ := exists_of_code_flatten hy
      rw [Instruction.id_rename] at hyid
      have hsame : z.id = old :=
        newId_inj (kept_of_newId (hyid ▸ hz)) hkept (ResultId.ext_index hyid)
      have hik : k = i := hsingle k i old ⟨hold, z, hz', hsame⟩ ⟨hold, x, hx, hid⟩
      subst hik
      rw [mayDrop, definingInstruction?, hdefinition, Option.bind_some, hthere] at hdrop
      exact absurd (hdrop.symm.trans hstays) (by decide)

end

/-! ## What a removal does when nothing is dead -/

namespace NoneDead

variable {asm : Assembler} (h : asm.NoneDead)
include h

theorem sweep_eq : asm.sweep = .start asm := by
  have hpending : (Sweep.start asm).pending = [] := by
    rw [List.eq_nil_iff_forall_not_mem]
    intro id hid
    have hmarked := (Sweep.traced_start asm).pending id hid
    rw [Sweep.marked, Sweep.flagged_start] at hmarked
    rw [Bool.and_eq_true, bne_iff_ne, h id hmarked.1] at hmarked
    exact absurd hmarked.2 (by decide)
  unfold sweep
  cases asm.ids.size with
  | zero => rfl
  | succ n => rw [Sweep.run, hpending]

theorem flagged_dead (k : Nat) : flagged asm.sweep.dead k = false := by
  rw [h.sweep_eq, Sweep.flagged_start]
  by_cases hk : k = 0
  · simp [hk]
  · rw [h ⟨k⟩ hk, Bool.and_false]

theorem flagged_removed (k : Nat) : flagged asm.sweep.removed k = false := by
  rw [h.sweep_eq, flagged_eq]
  simp only [Sweep.start, Array.getElem?_replicate]
  split <;> rfl

omit h in
theorem rank_eq {flags : Array Bool} (hflags : ∀ k, flagged flags k = false) (k : Nat) :
    rank flags k = k := by
  induction k with
  | zero => rfl
  | succ k ih => rw [rank_succ, ih, hflags]; rfl

omit h in
theorem survivors_eq {α : Type} {flags : Array Bool} (hflags : ∀ k, flagged flags k = false)
    (values : Array α) :
    survivors flags values = values.toList := by
  simp [survivors, hflags]

theorem newId_eq {id : ResultId} (hid : id.index < asm.ids.size) : asm.newId id = id := by
  rw [newId_of_kept ⟨hid, h.flagged_dead _⟩, rank_eq h.flagged_dead]

theorem changed_eq : (Renumbering.ofDead asm.sweep.dead).changed = 0 := by
  rw [Renumbering.changed, Array.count_eq_zero]
  intro hmem
  obtain ⟨i, hi, hchanged⟩ := Array.mem_iff_getElem.mp hmem
  rw [Array.getElem_mapIdx, Bool.and_eq_true, bne_iff_ne] at hchanged
  rw [Array.size_mapIdx] at hi
  -- An image that is not void is the id itself.
  have himage : asm.newId ⟨i⟩ = (Renumbering.ofDead asm.sweep.dead).images[i] := by
    rw [newId, Renumbering.apply, Array.getD_eq_getD_getElem?, Array.getElem?_eq_getElem hi]
    rfl
  rw [← himage] at hchanged
  have hne : (asm.newId ⟨i⟩).index ≠ 0 := fun h0 => by
    rw [ResultId.isVoid_iff.mpr h0] at hchanged
    exact absurd hchanged.1 (by decide)
  exact hchanged.2 (congrArg ResultId.index (h.newId_eq (kept_of_newId hne).1))

end NoneDead

end Assembler

/-! ## Renaming twice -/

section Rename

variable {f g : ResultId → ResultId} (hgf : ∀ id, g (f id) = f id)
include hgf

theorem Instruction.rename_rename (inst : Instruction) :
    (inst.rename f).rename g = inst.rename f := by
  simp [Instruction.rename, Instruction.mapSlots, Triple.map, hgf]

theorem LoopTargets.rename_rename (t : LoopTargets) : (t.rename f).rename g = t.rename f := by
  simp [LoopTargets.rename, hgf]

theorem filterMap_keys_again {α : Type} (l : List (ResultId × α)) :
    (l.filterMap fun e => if (f e.1).isVoid then none else some (f e.1, e.2)).filterMap
        (fun e => if (g e.1).isVoid then none else some (g e.1, e.2)) =
      l.filterMap fun e => if (f e.1).isVoid then none else some (f e.1, e.2) :=
  List.filterMap_filterMap_of_fixes (fun _ _ _ => by grind) l

theorem interface_rename_rename (vars : Array InterfaceVar) :
    (((vars.map fun v => { v with var := f v.var, type := f v.type }).filter (!·.var.isVoid)).map
        fun v => { v with var := g v.var, type := g v.type }).filter (!·.var.isVoid) =
      (vars.map fun v => { v with var := f v.var, type := f v.type }).filter (!·.var.isVoid) := by
  rw [← Array.toList_inj]
  simp only [Array.toList_filter, Array.toList_map]
  have hmap : ((vars.toList.map fun v => { v with var := f v.var, type := f v.type }).filter (!·.var.isVoid)).map
      (fun v => { v with var := g v.var, type := g v.type }) =
      (vars.toList.map fun v => { v with var := f v.var, type := f v.type }).filter (!·.var.isVoid) := by
    refine (List.map_congr_left fun v hv => ?_).trans (List.map_id _)
    obtain ⟨old, -, rfl⟩ := List.mem_map.mp (List.mem_filter.mp hv).1
    simp [hgf]
  rw [hmap, List.filter_filter]
  simp

theorem StructLayout.rename_rename (l : StructLayout) : (l.rename f).rename g = l.rename f := by
  have hconversions : ((l.rename f).rename g).conversions = (l.rename f).conversions :=
    congrArg Table.mk (List.filterMap_filterMap_of_fixes (fun _ _ _ => by grind) _)
  have hmethods : ((l.rename f).rename g).methods = (l.rename f).methods := by
    refine congrArg Table.mk (List.filterMap_filterMap_of_fixes (fun e e' he => ?_) _)
    cases he
    have hmap : ((e.2.map f).filter (!·.isVoid)).map g = (e.2.map f).filter (!·.isVoid) := by
      refine (List.map_congr_left fun id hid => ?_).trans (List.map_id _)
      obtain ⟨old, -, rfl⟩ := List.mem_map.mp (List.mem_filter.mp hid).1
      exact hgf old
    simp [hmap]
  have hmembers : ((l.rename f).rename g).members = (l.rename f).members := by
    simp [StructLayout.rename, hgf]
  unfold StructLayout.rename at *
  simp only at *
  rw [hconversions, hmethods, hmembers]

theorem TypeRegistry.rename_rename (types : TypeRegistry) :
    (types.rename f).rename g = types.rename f := by
  have hhandles : ((types.rename f).rename g).handles = (types.rename f).handles :=
    congrArg Table.mk (filterMap_keys_again hgf _)
  have hdeclared : ((types.rename f).rename g).declared = (types.rename f).declared :=
    congrArg Table.mk (List.filterMap_filterMap_of_fixes (fun _ _ _ => by grind) _)
  have hlayouts : ((types.rename f).rename g).layouts = (types.rename f).layouts := by
    simp only [TypeRegistry.rename, Arena.mapIdx, Array.mapIdx_mapIdx, Function.comp_def,
      StructLayout.rename_rename hgf]
  unfold TypeRegistry.rename at *
  simp only at *
  rw [hhandles, hdeclared, hlayouts]

end Rename

/-! ## The second removal -/

namespace Assembler

theorem clear_recordDefinitions (i : Nat) (insts : List Instruction) (ids : Array IdEntry) :
    (recordDefinitions i insts ids).toList.map (fun e => { e with definition := none })
      = ids.toList.map fun e => { e with definition := none } := by
  induction insts generalizing i ids with
  | nil => rfl
  | cons inst rest ih =>
    unfold recordDefinitions
    split
    · exact ih _ _
    · rw [ih]
      refine List.ext_getElem? fun k => ?_
      rw [List.getElem?_map, List.getElem?_map, Array.getElem?_toList, Array.getElem?_toList,
        Array.getElem?_modify]
      split
      · cases ids[k]? <;> rfl
      · rfl

section

include hsound hsingle htrailers

theorem newId_newId (id : ResultId) : asm.flatten.2.newId (asm.newId id) = asm.newId id := by
  by_cases hz : (asm.newId id).index = 0
  · rw [ResultId.eq_void hz, newId_void]
  · exact (noneDead_flatten hsound hsingle htrailers).newId_eq (newId_lt_size (kept_of_newId hz))

theorem flatten_flatten (hbracketed : asm.Bracketed) :
    asm.flatten.2.flatten = (0, asm.flatten.2) := by
  have hdead := noneDead_flatten hsound hsingle htrailers
  have hfixed := newId_newId hsound hsingle htrailers
  have hframe : asm.flatten.2.sweep.asm = asm.flatten.2 := by rw [hdead.sweep_eq]; rfl
  have hrank := NoneDead.rank_eq hdead.flagged_removed
  have hcode : asm.flatten.2.flatten.2.code = asm.flatten.2.code := by
    rw [← Array.toList_inj, code_flatten, NoneDead.survivors_eq hdead.flagged_removed, code_flatten, List.map_map]
    exact List.map_congr_left fun inst _ => Instruction.rename_rename hfixed inst
  have hids : asm.flatten.2.flatten.2.ids = asm.flatten.2.ids := by
    rw [ids_flatten, hcode, hframe, movedEntries, NoneDead.survivors_eq hdead.flagged_dead]
    have hcleared : asm.flatten.2.ids.toList.map (fun e => { e with definition := none }) =
        asm.sweep.asm.movedEntries asm.sweep.dead := by
      rw [ids_flatten, clear_recordDefinitions]
      simp [movedEntries]
    rw [hcleared, ← ids_flatten]
  have hclosed : asm.flatten.2.flatten.2.closedSections = asm.flatten.2.closedSections := by
    rw [← Array.toList_inj, hbracketed.flatten.closedSections_flatten,
      hbracketed.closedSections_flatten, List.map_map]
    refine List.map_congr_left fun c _ => ?_
    simp [movedSection, Span.inclusive, hfixed, hrank]
  have hopened : asm.flatten.2.flatten.2.openSections = asm.flatten.2.openSections := by
    rw [hbracketed.flatten.openSections_flatten, hbracketed.openSections_flatten, List.map_map]
    refine List.map_congr_left fun s _ => ?_
    simp [movedOpenSection, LoopTargets.rename_rename hfixed, hfixed, hrank]
  have hloops : asm.flatten.2.flatten.2.rootLoops = asm.flatten.2.rootLoops := by
    show asm.flatten.2.sweep.asm.rootLoops.map (·.rename asm.flatten.2.newId) = _
    rw [hframe]
    show (asm.sweep.asm.rootLoops.map (·.rename asm.newId)).map _ =
      asm.sweep.asm.rootLoops.map (·.rename asm.newId)
    simp [LoopTargets.rename_rename hfixed]
  have hnames : asm.flatten.2.flatten.2.names = asm.flatten.2.names := by
    show NameTable.mk (asm.flatten.2.sweep.asm.names.entries.filterMap _) = _
    rw [hframe]
    exact congrArg NameTable.mk (filterMap_keys_again hfixed asm.sweep.asm.names.entries)
  have hinterface : asm.flatten.2.flatten.2.interface = asm.flatten.2.interface := by
    show (asm.flatten.2.sweep.asm.interface.map _).filter _ = _
    rw [hframe]
    exact interface_rename_rename hfixed asm.sweep.asm.interface
  have htypes : asm.flatten.2.flatten.2.types = asm.flatten.2.types := by
    show asm.flatten.2.sweep.asm.types.rename asm.flatten.2.newId = _
    rw [hframe]
    exact asm.sweep.asm.types.rename_rename hfixed
  have hparts : asm.flatten.2.flatten.2 = { asm.flatten.2.sweep.asm with
      code := asm.flatten.2.flatten.2.code, ids := asm.flatten.2.flatten.2.ids
      closedSections := asm.flatten.2.flatten.2.closedSections
      openSections := asm.flatten.2.flatten.2.openSections, rootLoops := asm.flatten.2.flatten.2.rootLoops
      names := asm.flatten.2.flatten.2.names, interface := asm.flatten.2.flatten.2.interface
      types := asm.flatten.2.flatten.2.types } := rfl
  refine Prod.ext hdead.changed_eq (hparts.trans ?_)
  rw [hcode, hids, hclosed, hopened, hloops, hnames, hinterface, htypes, hframe]

end

end Assembler

open Assembler in
/-- **Removing dead code is idempotent** in every state that a run reaches in which no id is defined
    twice and arguments define nothing. -/
theorem Reached.second_flatten_eq {asm : Assembler} (hreach : Reached (fun _ => True) asm)
    (hsingle : asm.SinglyDefined) (htrailers : asm.VoidTrailers) :
    asm.flatten.2.flatten = (0, asm.flatten.2) :=
  flatten_flatten (definitionsSound_of_reached (fun _ _ _ => trivial) hreach) hsingle htrailers hreach.bracketed

theorem second_flatten_unusedLiteral :
    Assembler.unusedLiteral.flatten.1 = 1 ∧ Assembler.unusedLiteral.flatten.2.code.size = 3 ∧
      Assembler.unusedLiteral.flatten.2.flatten = (0, Assembler.unusedLiteral.flatten.2) :=
  ⟨by decide +kernel, by decide +kernel, Reached.second_flatten_eq (.runAll (by decide +kernel))
    Assembler.consistent_unusedLiteral.single Assembler.consistent_unusedLiteral.trailers⟩

end ShaderIR
