import ShaderIR.Proofs.Assembler.Registry
import ShaderIR.Proofs.Spirv.Twins.Lowerings

/-!
# The module does not depend on the numbers of ids

Dead code removal that finds no dead code still closes gaps between ids.  The lowerings of the two
streams are twins, so that **both have the same words**.
-/

namespace ShaderIR

open Operation (runAll)

variable {r : ResultId}

/-! ## Renaming all ids -/

/-- `b` is `a` with its ids renamed by `f`. The ids in `K` keep apart, and the others are lost. -/
structure Relabels (K : ResultId → Prop) (f : ResultId → ResultId) (a b : Assembler) : Prop where
  code : b.code.toList = a.code.toList.map (Instruction.rename f)
  keepsVoid : K .void ∧ f .void = .void
  inj : ∀ {x y}, K x → K y → f x = f y → x = y
  lost : ∀ {x}, ¬ K x → f x = .void
  stream : ∀ inst ∈ a.code.toList, ∀ r, r = inst.id ∨ r ∈ inst.slots → K r
  defined : ∀ id i, a.definition? id = some i ↔ a.DefinesAt i id
  defined' : ∀ id i, b.definition? id = some i ↔ b.DefinesAt i id
  opcodeOf : ∀ {r}, K r → b.opcodeOf (f r) = a.opcodeOf r
  types : b.types = a.types.rename f
  typesKept : a.types.Within fun id => K id ∧ id.index ≠ 0
  names : b.names.entries = a.names.entries.filterMap fun (id, name) =>
    if (f id).isVoid then none else some (f id, name)
  named : ∀ e ∈ a.names.entries, e.1.index ≠ 0

namespace Relabels

open Spirv

variable {K : ResultId → Prop} {f : ResultId → ResultId} {a b : Assembler} (h : Relabels K f a b)
include h

theorem index_ne_zero (hr : K r) (hz : r.index ≠ 0) : (f r).index ≠ 0 := by
  intro h0
  have hvoid : f r = f .void := by
    rw [h.keepsVoid.2]
    exact ResultId.ext_index h0
  exact hz (congrArg ResultId.index (h.inj hr h.keepsVoid.1 hvoid))

theorem isVoid_eq (hr : K r) : (f r).isVoid = r.isVoid := by
  cases hv : r.isVoid with
  | true =>
    rw [ResultId.eq_void (ResultId.isVoid_iff.mp hv), h.keepsVoid.2]
    rfl
  | false => exact ResultId.isVoid_eq_false.mpr (h.index_ne_zero hr (ResultId.isVoid_eq_false.mp hv))

theorem kept_of_ne_zero (hr : (f r).index ≠ 0) : K r := by
  by_contra hlost
  exact hr (congrArg ResultId.index (h.lost hlost))

theorem parts : TypeRegistry.Parts f := fun _ _ heq hz =>
  h.inj (h.kept_of_ne_zero hz) (h.kept_of_ne_zero (heq ▸ hz)) heq

/-! ### Types -/

theorem kept_of_handle? {x : ResultId} {k : TypeHandle} (hx : a.types.handle? x = some k) :
    K x ∧ x.index ≠ 0 := h.typesKept.handles _ (Table.mem_of_get? hx)

theorem handle?_eq (x : ResultId) : b.types.handle? (f x) = a.types.handle? x := by
  rw [h.types]
  by_cases hz : (f x).index = 0
  · -- What is lost was no type, and void is none.
    have hold : a.types.handle? x = none := by
      cases hx : a.types.handle? x with
      | none => rfl
      | some k =>
        obtain ⟨hkept, hne⟩ := h.kept_of_handle? hx
        exact absurd hz (h.index_ne_zero hkept hne)
    rw [hold]
    cases hy : (a.types.rename f).handle? (f x) with
    | none => rfl
    | some k =>
      obtain ⟨-, -, hne, -⟩ := TypeRegistry.exists_of_handle?_rename h.parts hy
      exact absurd hz hne
  · exact TypeRegistry.get?_renameKeys a.types.handles h.parts hz

theorem filterMap_kept {α β : Type} {l : List α} {r : α → ResultId} (g : α → β)
    (hl : ∀ e ∈ l, K (r e) ∧ (r e).index ≠ 0) :
    (l.filterMap fun e => if (f (r e)).isVoid then none else some (g e)) = l.map g := by
  rw [← List.filterMap_eq_map]
  refine List.filterMap_congr fun e he => if_neg ?_
  rw [Bool.not_eq_true]
  exact ResultId.isVoid_eq_false.mpr (h.index_ne_zero (hl e he).1 (hl e he).2)

theorem idOf?_eq (k : TypeHandle) : b.types.idOf? k = (a.types.idOf? k).map f := by
  have hkept := h.filterMap_kept (fun e => (e.1, f e.2)) h.typesKept.declared
  rw [h.types]
  show Table.get? ⟨_⟩ k = (Table.get? ⟨a.types.declared.entries⟩ k).map f
  rw [hkept, Table.get?, Table.get?, List.find?_map, Option.map_map, Option.map_map]
  rfl

theorem size_types : b.types.size = a.types.size := by
  rw [h.types]
  exact (congrArg List.length (h.filterMap_kept _ h.typesKept.handles)).trans (List.length_map _)

theorem typeTwins : TypeTwins a.types b.types fun x x' => x' = f x where
  handle {x x'} hx := hx ▸ h.handle?_eq x
  desc k := by rw [h.types]; rfl
  nested k := by
    rw [h.idOf?_eq k]
    cases a.types.idOf? k with
    | none => exact .none
    | some id => exact .some rfl
  layout l := by
    rw [h.types, TypeRegistry.layout?_rename]
    cases a.types.layout? l with
    | none => exact .none
    | some layout =>
      refine .some ⟨rfl, ?_⟩
      show List.Forall₂ _ layout.members (layout.members.map fun m => (m.1, f m.2))
      exact List.forall₂_map_right_iff.mpr (List.forall₂_same.mpr fun m _ => ⟨rfl, rfl⟩)
  size := h.size_types
  apart {x x' y y'} hx hy htype := by
    obtain ⟨k, hk⟩ := Option.isSome_iff_exists.mp htype
    obtain ⟨hkept, hz⟩ := h.kept_of_handle? hk
    rw [hx, hy]
    refine ⟨congrArg f, fun heq => h.inj (h.kept_of_ne_zero ?_) hkept heq⟩
    rw [heq]
    exact h.index_ne_zero hkept hz

/-! ### Definitions -/

theorem getElem?_code (i : Nat) : b.code[i]? = (a.code[i]?).map (Instruction.rename f) := by
  rw [← Array.getElem?_toList, h.code, List.getElem?_map, Array.getElem?_toList]

theorem definition?_eq (hr : K r) : b.definition? (f r) = a.definition? r := by
  have hiff : ∀ i, b.definition? (f r) = some i ↔ a.definition? r = some i := by
    intro i
    rw [h.defined, h.defined']
    constructor
    · rintro ⟨hz, inst', hinst', hid⟩
      rw [h.getElem?_code] at hinst'
      obtain ⟨inst, hinst, rfl⟩ := Option.map_eq_some_iff.mp hinst'
      have hmem : inst ∈ a.code.toList := Assembler.mem_code hinst
      have heq : inst.id = r := h.inj (h.stream inst hmem _ (.inl rfl)) hr hid
      refine ⟨fun h0 => hz ?_, inst, hinst, heq⟩
      rw [ResultId.eq_void h0, h.keepsVoid.2]
      rfl
    · rintro ⟨hz, inst, hinst, hid⟩
      refine ⟨h.index_ne_zero hr hz, inst.rename f, ?_, congrArg f hid⟩
      rw [h.getElem?_code, hinst]
      rfl
  cases hd : a.definition? r with
  | some i => exact (hiff i).mpr hd
  | none =>
    cases hd' : b.definition? (f r) with
    | none => rfl
    | some i =>
      rw [(hiff i).mp hd'] at hd
      cases hd

theorem definingInstruction?_eq (hr : K r) :
    b.definingInstruction? (f r) = (a.definingInstruction? r).map (Instruction.rename f) := by
  unfold Assembler.definingInstruction?
  rw [h.definition?_eq hr]
  cases a.definition? r with
  | none => rfl
  | some i => exact h.getElem?_code i

theorem typeOf_eq (hr : K r) : typeOf b (f r) = f (typeOf a r) := by
  unfold Spirv.typeOf
  rw [h.definingInstruction?_eq hr]
  cases a.definingInstruction? r with
  | none => exact h.keepsVoid.2.symm
  | some inst =>
    show (if inst.opcode.isVar then f inst.refs.fst else f inst.resultType) =
      f (if inst.opcode.isVar then inst.refs.fst else inst.resultType)
    split <;> rfl

theorem entryType_eq (hr : K r) : entryType b (f r) = f (entryType a r) := by
  unfold Spirv.entryType
  rw [h.definingInstruction?_eq hr]
  cases a.definingInstruction? r with
  | none => exact h.keepsVoid.2.symm
  | some inst => rfl

/-! ### Instructions -/

theorem slots (hr : K r) :
    Slots a b (fun r r' => K r ∧ r' = f r) (fun r r' => r' = f r) r (f r) where
  void := h.isVoid_eq hr
  pair := ⟨hr, rfl⟩
  type := rfl
  typeOf := h.typeOf_eq hr

theorem own {d : ResultId} (hd : K d) : Own a b (fun r r' => K r ∧ r' = f r) d (f d) where
  pair := ⟨hd, rfl⟩
  apart {q q'} hq := by
    rw [hq.2]
    exact ⟨congrArg f, h.inj hq.1 hd⟩
  kind := by rw [h.opcodeOf hd]

theorem pair {i : Nat} {inst : Instruction} (hinst : a.code.toList[i]? = some inst) :
    Pair a b (fun r r' => K r ∧ r' = f r) (fun r r' => r' = f r) i inst (inst.rename f) := by
  have hkept := h.stream inst (List.mem_of_getElem? hinst)
  have hfst : K inst.refs.fst := hkept _ (.inr (Instruction.mem_slots.mpr (.inl rfl)))
  refine
    { opcode := rfl, operands := rfl, own := h.own (hkept _ (.inl rfl)), ownType := rfl
      fst := h.slots hfst
      snd := h.slots (hkept _ (.inr (Instruction.mem_slots.mpr (.inr (.inl rfl)))))
      thd := h.slots (hkept _ (.inr (Instruction.mem_slots.mpr (.inr (.inr (.inl rfl))))))
      resultType := rfl, trailers := fun {op} n _ => ?_, interface := fun _ => ?_
      entry := fun _ => h.entryType_eq hfst }
  · rw [trailersAfter_map h.code fun _ => rfl]
    refine List.forall₂_map_right_iff.mpr (List.forall₂_same.mpr fun x hx => ?_)
    have hmem : x ∈ a.code.toList := by
      have hwindow := (List.takeWhile_sublist _).subset hx
      rw [Array.toList_extract, List.extract_eq_take_drop] at hwindow
      exact List.mem_of_mem_drop (List.mem_of_mem_take hwindow)
    exact ⟨⟨h.stream x hmem _ (.inr (Instruction.mem_slots.mpr (.inl rfl))), rfl⟩, rfl⟩
  · rw [stageInterface_map (f := f) h.code (fun _ => rfl) fun _ => rfl]
    refine List.forall₂_map_right_iff.mpr (List.forall₂_same.mpr fun id hid => ⟨?_, rfl⟩)
    obtain ⟨x, hx, rfl⟩ := List.mem_map.mp hid
    have hrest := (List.takeWhile_sublist _).subset (List.mem_filter.mp hx).1
    exact h.stream x (List.mem_of_mem_drop hrest) _ (.inl rfl)

theorem nameTwins : NameTwins (fun r r' => K r ∧ r' = f r) a.names.entries b.names.entries := by
  have hnamed := h.named
  rw [h.names]
  generalize a.names.entries = entries at hnamed ⊢
  induction entries with
  | nil => exact .nil
  | cons e rest ih =>
    obtain ⟨hz, hrest⟩ := List.forall_mem_cons.mp hnamed
    obtain ⟨id, name⟩ := e
    dsimp only at hz
    rw [List.filterMap_cons]
    dsimp only
    by_cases hv : (f id).isVoid = true
    · rw [if_pos hv]
      refine .skip (fun r' hr' => ?_) (ih hrest)
      exact h.index_ne_zero hr'.1 hz (ResultId.isVoid_iff.mp hv)
    · rw [if_neg hv]
      refine .cons ⟨h.kept_of_ne_zero fun h0 => hv (ResultId.isVoid_iff.mpr h0), rfl⟩ (ih hrest)

theorem words_emitModule (major minor : UInt8) :
    (emitModule b major minor).map (·.words) = (emitModule a major minor).map (·.words) := by
  have hempty : Twins a b (fun r r' => K r ∧ r' = f r) (fun r r' => r' = f r) {} {} := by
    refine twins_empty fun {r r' q q'} hr hq => ?_
    rw [hr.2, hq.2]
    exact ⟨congrArg f, h.inj hq.1 hr.1⟩
  have hstops : ∀ inst stage, stopsAt? stage (inst.rename f) = stopsAt? stage inst := fun _ _ => rfl
  obtain ⟨⟨-, htwins, -⟩, hfatal⟩ := lockstep_lowerFrom (w := 0) (Q := fun _ => True)
    (S := fun _ => Twins a b (fun r r' => K r ∧ r' = f r) (fun r r' => r' = f r))
    (fun _ => trivial) (fun hs => hs.stage) hstops
    (fun hinst hs _ => (h.pair hinst).lowerInstruction h.typeTwins hs) (List.drop_zero) hempty trivial
  rw [← h.code] at htwins hfatal
  obtain ⟨hall, hfatal⟩ := twins_lowerAll (w := 0) h.nameTwins htwins hfatal
  exact words_emitModule_eq (hall.resolve_left (Lowering.not_lost _)) hfatal major minor

end Relabels

/-! ## Closing gaps -/

theorem survivors_eq_of_length {α : Type} {removed : Array Bool} {values : Array α}
    (h : (survivors removed values).length = values.size) :
    survivors removed values = values.toList := by
  have hall : (values.toList.zipIdx.filter fun e => !flagged removed e.2).length =
      values.toList.zipIdx.length := by
    rw [survivors, List.length_map] at h
    rw [h, List.length_zipIdx, Array.length_toList]
  rw [survivors, List.filter_eq_self.mpr (List.length_filter_eq_length_iff.mp hall), List.zipIdx_map_fst]

namespace Assembler

/-- A stream without dead code: its ids are accounted for, types have ids, and dead code removal
leaves every instruction. -/
structure Alive (asm : Assembler) : Prop extends Accounted asm where
  types : ∀ inst ∈ asm.code.toList, inst.opcode.isType = true → inst.id.isVoid = false
  size : asm.flatten.2.code.size = asm.code.size

namespace Alive

variable {asm : Assembler} (h : asm.Alive)
include h

theorem code_flatten :
    asm.flatten.2.code.toList = asm.code.toList.map (Instruction.rename asm.newId) := by
  have hcode := Assembler.code_flatten asm
  have hlength : (survivors asm.sweep.removed asm.code).length = asm.code.size := by
    have hlen := congrArg List.length hcode
    rw [Array.length_toList, h.size, List.length_map] at hlen
    exact hlen.symm
  rw [hcode, survivors_eq_of_length hlength]

theorem relabels (hreach : Reached (fun _ => True) asm) (hcomplete : asm.DefinitionsComplete) :
    Relabels asm.Kept asm.newId asm asm.flatten.2 := by
  have hexact := h.exact (ids_nonempty_of_reached (fun _ _ _ => trivial) hreach)
  have hframe := (traced_sweep asm).frame
  have hdefined : ∀ id i, asm.definition? id = some i ↔ asm.DefinesAt i id := fun _ _ =>
    definition?_eq_some_iff (definitionsSound_of_reached (fun _ _ _ => trivial) hreach) hcomplete h.single
  have hcode := h.code_flatten
  have hstream : ∀ inst ∈ asm.code.toList, ∀ r, r = inst.id ∨ r ∈ inst.slots → asm.Kept r := by
    intro inst hinst r hr
    have hlength := congrArg List.length ((Assembler.code_flatten asm).symm.trans hcode)
    rw [List.length_map, List.length_map, Array.length_toList] at hlength
    refine kept_of_mem_survivors hexact hdefined (fun x hx => h.allocated x hx _ (.inl rfl)) ?_ hr
    rw [survivors_eq_of_length hlength]
    exact hinst
  have hregistered := hreach.registered
  exact
    { code := hcode
      keepsVoid := ⟨kept_void hexact.nonempty, newId_void asm⟩
      inj := newId_inj
      lost := fun {x} hx => by
        by_contra hne
        exact hx (kept_of_newId fun h0 => hne (ResultId.ext_index h0))
      stream := hstream
      defined := hdefined
      defined' := fun id i => definition?_eq_some_iff (definitionsSound_flatten asm)
        (definitionsComplete_flatten asm) (by
          -- Two definitions of one id come from definitions of one id.
          rintro j k id ⟨hz, x', hx', rfl⟩ ⟨-, y', hy', hid⟩
          rw [← Array.getElem?_toList, hcode, List.getElem?_map, Array.getElem?_toList] at hx' hy'
          obtain ⟨x, hx, rfl⟩ := Option.map_eq_some_iff.mp hx'
          obtain ⟨y, hy, rfl⟩ := Option.map_eq_some_iff.mp hy'
          have hkx := kept_of_newId hz
          have hnew : asm.newId y.id = asm.newId x.id := hid
          have hky := kept_of_newId (show (asm.newId y.id).index ≠ 0 from hnew ▸ hz)
          have heq : y.id = x.id := newId_inj hky hkx hnew
          refine h.single j k x.id ⟨fun h0 => hz ?_, x, hx, rfl⟩ ⟨fun h0 => hz ?_, y, hy, heq⟩ <;>
          · rw [Instruction.id_rename, ResultId.eq_void h0, newId_void asm]
            rfl)
      opcodeOf := fun {r} hr => by
        by_cases hz : r.index = 0
        · rw [ResultId.eq_void hz, newId_void asm]
          rfl
        · exact opcodeOf_flatten hexact hr hz
      types := by
        show asm.sweep.asm.types.rename asm.newId = _
        rw [hframe]
      typesKept := hregistered.types.mono fun id hid => by
        obtain ⟨inst, hinst, htype, rfl⟩ := hid
        exact ⟨hstream inst hinst _ (.inl rfl), ResultId.isVoid_eq_false.mp (h.types inst hinst htype)⟩
      names := by
        show (asm.sweep.asm.names.entries.filterMap _) = _
        rw [hframe]
        rfl
      named := hregistered.names }

end Alive

end Assembler

namespace Spirv

open Assembler

/-- **The words of a module do not depend on the numbers of ids.**  If dead code removal leaves
    every instruction, so that it only closes gaps between the ids, the stream has the same words
    after it. -/
theorem words_emitModule_flatten {asm : Assembler} (hreach : Reached (fun _ => True) asm)
    (halive : asm.Alive) (hcomplete : asm.DefinitionsComplete) (major minor : UInt8) :
    (emitModule asm.flatten.2 major minor).map (·.words) =
      (emitModule asm major minor).map (·.words) :=
  (halive.relabels hreach hcomplete).words_emitModule major minor

def spacedRun : List Operation :=
  [.create .label, .pushType { opcode := .floatType, operands := ⟨32, 0, 0⟩ }, .create .label,
    .pushType { opcode := .vectorType, operands := ⟨4, 0, 0⟩, refs := ⟨⟨2⟩, .void, .void⟩ }, .create .label,
    .pushInterface .output "color" ⟨4⟩]

theorem alive_spacedRun : (runAll spacedRun).Alive :=
  { toAccounted := .of_checks (by decide +kernel) (by decide +kernel) (by decide +kernel)
    types := by decide +kernel
    size := by decide +kernel }

theorem words_emitModule_flatten_spacedRun :
    (runAll spacedRun).code.toList.map (·.id) = [⟨2⟩, ⟨4⟩, ⟨6⟩] ∧
      (runAll spacedRun).flatten.2.code.toList.map (·.id) = [⟨1⟩, ⟨2⟩, ⟨3⟩] ∧
      Reached (fun _ => True) (runAll spacedRun) ∧ (runAll spacedRun).Alive ∧
      (runAll spacedRun).DefinitionsComplete ∧
      ∀ major minor, (emitModule (runAll spacedRun).flatten.2 major minor).map (·.words) =
        (emitModule (runAll spacedRun) major minor).map (·.words) := by
  have hreach : Reached (fun _ => True) (runAll spacedRun) := .runAll (by decide +kernel)
  have hcomplete : (runAll spacedRun).DefinitionsComplete :=
    definitionsComplete_of_reached (.runAll (by decide +kernel))
  exact ⟨by decide +kernel, by decide +kernel, hreach, alive_spacedRun, hcomplete,
    words_emitModule_flatten hreach alive_spacedRun hcomplete⟩

/-- A type is declared before its id is allocated; the table forgets the definition. -/
def earlyFloatRun : List Operation :=
  [.pushType { opcode := .floatType, id := ⟨1⟩, operands := ⟨32, 0, 0⟩ }, .create .floatType]

theorem alive_earlyFloatRun : (runAll earlyFloatRun).Alive :=
  { toAccounted := .of_checks (by decide +kernel) (by decide +kernel) (by decide +kernel)
    types := by decide +kernel
    size := by decide +kernel }

/-- Without a definition in the table an unused type counts as dead.  Its instruction stays, but
    without the id, and the module loses the type. -/
theorem words_emitModule_flatten_earlyFloatRun : Reached (fun _ => True) (runAll earlyFloatRun) ∧
      (runAll earlyFloatRun).Alive ∧
      (emitModule (runAll earlyFloatRun).flatten.2 1 0).map (·.words) ≠
        (emitModule (runAll earlyFloatRun) 1 0).map (·.words) := by
  refine ⟨.runAll (by decide +kernel), alive_earlyFloatRun, fun heq => ?_⟩
  have hlength := congrArg (fun r => r.toOption.map List.length) heq
  revert hlength
  decide +kernel

end Spirv

end ShaderIR
