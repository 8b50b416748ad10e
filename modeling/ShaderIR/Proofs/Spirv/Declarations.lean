import ShaderIR.Proofs.Spirv.Discipline
import ShaderIR.Spirv.Module

/-!
# The declarations of a module

`Module.Settled` says which ids a type or a constant may use, and **where the exception is**: the
length of an array type may be a constant that was first asked for as a value, and then stands
behind all types.  An oversized instruction declares nothing, although its id was handed out.
-/

namespace ShaderIR.Spirv

variable {m : Module} {id : ModuleId} {inst : Inst} {ok : List Inst → Inst → ModuleId → Prop}

/-! ## Uses and results -/

def Operand.id? : Operand → Option ModuleId
  | .id n => some n
  | _ => none

def operandIds (operands : List Operand) : List ModuleId := operands.filterMap Operand.id?

/-- The ids that an instruction uses: its result type and its id operands. -/
def Inst.uses (inst : Inst) : List ModuleId := inst.resultType.toList ++ operandIds inst.operands

def results (insts : List Inst) : List ModuleId := insts.filterMap (·.result)

def Section.isRemark : Section → Bool
  | .executionModes | .debug | .annotations => true
  | _ => false

def Module.contents (m : Module) : Section → Array Inst
  | .imports => m.imports
  | .executionModes => m.executionModes
  | .debug => m.debug
  | .annotations => m.annotations
  | .types => m.types
  | .constants => m.constants
  | .globals => m.globals
  | .functions => m.functions

theorem Module.contents_append (m : Module) (insts : Array Inst) (s sec : Section) :
    (m.append insts s).contents sec = if sec = s then m.contents sec ++
      insts else m.contents sec := by
  cases s <;> cases sec <;> rfl

theorem Module.mem_contents_emit (m : Module) (sec : Section) {i : Inst} (h : i.fits = true) :
    i ∈ ((m.emit sec i).contents sec).toList := by
  rw [Module.emit, if_pos h, Module.contents_append, if_pos rfl, Array.toList_append]
  exact List.mem_append_right _ (List.mem_singleton.mpr rfl)

@[simp] theorem results_append (l1 l2 : List Inst) :
    results (l1 ++ l2) = results l1 ++ results l2 := List.filterMap_append

theorem results_eq_nil {insts : List Inst} (h : ∀ inst ∈ insts, inst.result = none) :
    results insts = [] := List.filterMap_eq_nil_iff.mpr h

theorem results_map_eq_nil {α : Type} {f : α → Inst} (h : ∀ x, (f x).result = none) (l : List α) :
    results (l.map f) = [] := results_eq_nil (List.forall_mem_map.mpr fun x _ => h x)

/-- Capabilities, extensions, the memory model and entry points have no results. -/
theorem Module.results_preamble (m : Module) : results m.preamble =
    results m.imports.toList ++ results m.executionModes.toList ++ results m.debug.toList ++
      results m.annotations.toList := by
  have hentries : results ((m.entryPoints.toList.map (·.inst)).filter (·.fits)) = [] := by
    rw [List.filter_map]
    exact results_map_eq_nil (fun _ => rfl) _
  have hmodel : results [memoryModel] = [] := rfl
  simp only [preamble, results_append, hentries, hmodel, List.append_nil, List.nil_append,
    results_map_eq_nil (f := Capability.inst) fun _ => rfl,
    results_map_eq_nil (f := Extension.inst) fun _ => rfl]

theorem operandIds_map_id (ids : List ModuleId) : operandIds (ids.map .id) = ids := by
  induction ids with
  | nil => rfl
  | cons n rest ih => exact congrArg (n :: ·) ih

theorem operandIds_map_literal (ws : List UInt32) : operandIds (ws.map .literal) = [] := by
  induction ws with
  | nil => rfl
  | cons w rest ih => exact ih

/-- `ok` holds of every id used in a list, given the instructions before its use. -/
def UsesOk (ok : List Inst → Inst → ModuleId → Prop) (l : List Inst) : Prop :=
  ∀ before inst after, l = before ++ inst :: after → ∀ id ∈ inst.uses, ok before inst id

theorem UsesOk.nil : UsesOk ok [] := by
  intro before inst after h
  cases before <;> cases h

theorem UsesOk.mono {ok' : List Inst → Inst → ModuleId → Prop} {l : List Inst}
    (h : UsesOk ok l) (himp : ∀ before inst id, ok before inst id → ok' before inst id) :
    UsesOk ok' l :=
  fun before inst after hl id hid => himp _ _ _ (h before inst after hl id hid)

theorem UsesOk.concat {l : List Inst}
    (h : UsesOk ok l) (hinst : ∀ id ∈ inst.uses, ok l inst id) : UsesOk ok (l ++ [inst]) := by
  intro before inst' after hl
  rcases List.eq_nil_or_concat after with rfl | ⟨after', last, rfl⟩
  · -- The use is in the instruction that was added.
    obtain ⟨rfl, hlast⟩ := List.append_inj' hl rfl
    cases hlast
    exact hinst
  · rw [List.concat_eq_append, ← List.cons_append, ← List.append_assoc] at hl
    obtain ⟨hl', -⟩ := List.append_inj' hl rfl
    exact h before inst' after' hl'

namespace Module

/-! ## The invariant -/

/-- The length of an array type that stands among the constants. -/
def LateLength (m : Module) (inst : Inst) (id : ModuleId) : Prop :=
  inst.op = .typeArray ∧ inst.operands[1]? = some (.id id) ∧ id ∈ results m.constants.toList

/-- The instructions up to the constants that may have a result. -/
def definitions (m : Module) : List Inst :=
  m.imports.toList ++ m.types.toList ++ m.constants.toList

/-- What holds of the declarations of a module at all times. -/
structure Settled (m : Module) : Prop where
  types : UsesOk (fun before inst id => id ∈ results before ∨ m.LateLength inst id) m.types.toList
  constants : UsesOk (fun before _ id => id ∈ results (m.types.toList ++ before)) m.constants.toList
  globals : ∀ inst ∈ m.globals.toList, ∀ id ∈ inst.uses, id ∈ results (m.types.toList ++ m.constants.toList)
  typeIds : ∀ e ∈ m.typeIds.entries, e.2 ∈ results m.types.toList
  constantIds : ∀ e ∈ m.constantIds.entries, e.2 ∈ results (m.types.toList ++ m.constants.toList)
  /-- No constant shares its id with a type. -/
  apart : ∀ id ∈ results m.constants.toList, id ∉ results (m.imports.toList ++ m.types.toList)
  below : ∀ id ∈ results m.definitions, id < m.nextId
  /-- Modes, names and annotations define nothing. -/
  silent : results (m.executionModes.toList ++ m.debug.toList ++ m.annotations.toList) = []

/-- The invariant of modules in which every instruction was written. -/
def Ordered (m : Module) : Prop := m.oversized = #[] → m.Settled

/-- Growth: declared ids stay declared, and what did not fit is not forgotten. -/
structure Extends (m m' : Module) : Prop where
  oversized : m'.oversized = #[] → m.oversized = #[]
  types : ∀ id ∈ results m.types.toList, id ∈ results m'.types.toList
  constants : ∀ id ∈ results m.constants.toList, id ∈ results m'.constants.toList

theorem Extends.refl (m : Module) : m.Extends m := ⟨id, fun _ h => h, fun _ h => h⟩

theorem Extends.trans {m1 m2 m3 : Module} (h1 : m1.Extends m2) (h2 : m2.Extends m3) :
    m1.Extends m3 :=
  ⟨fun h => h1.oversized (h2.oversized h), fun id h => h2.types id (h1.types id h),
    fun id h => h2.constants id (h1.constants id h)⟩

def IsType (m : Module) (id : ModuleId) : Prop :=
  m.oversized = #[] → id ∈ results m.types.toList

def IsDeclared (m : Module) (id : ModuleId) : Prop :=
  m.oversized = #[] → id ∈ results (m.types.toList ++ m.constants.toList)

variable {m m' : Module} {s : Section}

theorem IsType.extends (h : m.IsType id) (hext : m.Extends m') :
    m'.IsType id := fun hover => hext.types id (h (hext.oversized hover))

theorem IsType.isDeclared (h : m.IsType id) : m.IsDeclared id := by
  intro hover
  rw [results_append]
  exact List.mem_append_left _ (h hover)

theorem IsDeclared.extends (h : m.IsDeclared id) (hext : m.Extends m') : m'.IsDeclared id := by
  intro hover
  have hid := h (hext.oversized hover)
  rw [results_append, List.mem_append] at hid ⊢
  exact hid.imp (hext.types id) (hext.constants id)

theorem settled_empty : Settled {} where
  types := .nil
  constants := .nil
  globals := nofun
  typeIds := nofun
  constantIds := nofun
  apart := nofun
  below := nofun
  silent := rfl

/-! ## Growing -/

/-- Steps away from the declarations: ids are handed out, and instructions without a result are
    written in front of the types. -/
structure Quiet (m m' : Module) : Prop where
  oversized : m'.oversized = #[] → m.oversized = #[]
  imports : m'.imports = m.imports
  types : m'.types = m.types
  constants : m'.constants = m.constants
  globals : m'.globals = m.globals
  typeIds : m'.typeIds = m.typeIds
  constantIds : m'.constantIds = m.constantIds
  nextId : m.nextId ≤ m'.nextId
  silent : results (m.executionModes.toList ++ m.debug.toList ++ m.annotations.toList) = [] →
    results (m'.executionModes.toList ++ m'.debug.toList ++ m'.annotations.toList) = []

theorem Quiet.extends (h : m.Quiet m') : m.Extends m' := by
  refine ⟨h.oversized, fun id hid => ?_, fun id hid => ?_⟩
  · rw [h.types]
    exact hid
  · rw [h.constants]
    exact hid

theorem Quiet.ordered (h : m.Quiet m') (hm : m.Ordered) : m'.Ordered := by
  intro hover
  have hs := hm (h.oversized hover)
  have hdefs : m'.definitions = m.definitions := by
    rw [definitions, h.imports, h.types, h.constants, definitions]
  constructor
  · rw [h.types]
    refine hs.types.mono fun before inst id hid => ?_
    rw [LateLength, h.constants]
    exact hid
  · rw [h.types, h.constants]
    exact hs.constants
  · rw [h.types, h.constants, h.globals]
    exact hs.globals
  · rw [h.types, h.typeIds]
    exact hs.typeIds
  · rw [h.types, h.constants, h.constantIds]
    exact hs.constantIds
  · rw [h.imports, h.types, h.constants]
    exact hs.apart
  · rw [hdefs]
    exact fun id hid => Nat.lt_of_lt_of_le (hs.below id hid) h.nextId
  · exact h.silent hs.silent

def afterFresh (m : Module) : Module := { m with nextId := m.nextId + 1 }

def declare (m : Module) (s : Section) (inst : Inst) : Module :=
  m.afterFresh.emit s { inst with result := some m.nextId }

theorem emit_of_not_fits (h : ¬ inst.fits = true) :
    m.Extends (m.emit s inst) ∧ (m.emit s inst).Ordered ∧ (m.emit s inst).oversized ≠ #[] := by
  have hemit : m.emit s inst = { m with oversized := m.oversized.push inst.oversized } := by
    rw [emit, if_neg h]
  have hne : (m.emit s inst).oversized ≠ #[] := by
    rw [hemit]
    exact Array.push_ne_empty
  refine ⟨⟨fun hover => absurd hover hne, fun id hid => ?_, fun id hid => ?_⟩,
    fun hover => absurd hover hne, hne⟩
  · rw [hemit]
    exact hid
  · rw [hemit]
    exact hid

theorem emit_of_fits (h : inst.fits = true) : m.emit s inst = m.append #[inst] s := by
  rw [emit, if_pos h]

theorem mem_results_definitions :
    id ∈ results m.definitions ↔ id ∈ results m.imports.toList ∨ id ∈ results m.types.toList ∨
      id ∈ results m.constants.toList := by
  rw [definitions, results_append, results_append, List.mem_append, List.mem_append, or_assoc]

/-- The next id is defined in the section `s`. -/
structure Defines (s : Section) (m m' : Module) : Prop where
  imports : ∀ id, id ∈ results m'.imports.toList ↔ id ∈ results m.imports.toList ∨ s = .imports ∧ id = m.nextId
  types : ∀ id, id ∈ results m'.types.toList ↔ id ∈ results m.types.toList ∨ s = .types ∧ id = m.nextId
  constants : ∀ id, id ∈ results m'.constants.toList ↔
    id ∈ results m.constants.toList ∨ s = .constants ∧ id = m.nextId

theorem defines_append (hsec : s = .imports ∨ s = .types ∨ s = .constants) (inst : Inst) :
    m.Defines s (m.afterFresh.append #[{ inst with result := some m.nextId }] s) := by
  rcases hsec with rfl | rfl | rfl <;> constructor <;> simp [append, afterFresh, results]

/-- A new type is no constant and a new constant no type, since the id is new. -/
theorem Settled.defines (h : m.Settled) (hdefines : m.Defines s m') :
    (∀ id ∈ results m'.constants.toList, id ∉ results (m'.imports.toList ++ m'.types.toList)) ∧
      ∀ id ∈ results m'.definitions, id < m.nextId + 1 := by
  have hbelow := h.below
  have hapart := h.apart
  simp only [mem_results_definitions, results_append, List.mem_append, hdefines.imports,
    hdefines.types, hdefines.constants] at hbelow hapart ⊢
  grind

/-- Earlier types keep their uses: a length that stood among the constants still does. -/
theorem Settled.types_extends (h : m.Settled) (hext : m.Extends m') :
    UsesOk (fun before inst id => id ∈ results before ∨ m'.LateLength inst id) m.types.toList :=
  h.types.mono fun _ _ id hid => hid.imp_right fun ⟨hop, hlength, hlate⟩ => ⟨hop, hlength, hext.constants id hlate⟩

theorem Settled.constants_extends (h : m.Settled) (hext : m.Extends m') :
    UsesOk (fun before _ id => id ∈ results (m'.types.toList ++ before)) m.constants.toList := by
  refine h.constants.mono fun before _ id hid => ?_
  rw [results_append, List.mem_append] at hid ⊢
  exact hid.imp_left (hext.types id)

/-- **One more id, in one section.**  A type may use types, and an array any constant as its length.
    -/
theorem Ordered.declare (hm : m.Ordered) (hsec : s = .imports ∨ s = .types ∨ s = .constants)
    (inst : Inst)
    (htypes : s = .types → ∀ id ∈ inst.uses, m.IsType id ∨ inst.op = .typeArray ∧
      inst.operands[1]? = some (.id id) ∧ m.IsDeclared id)
    (hconstants : s = .constants → ∀ id ∈ inst.uses, m.IsDeclared id) :
    m.Extends (m.declare s inst) ∧ (m.declare s inst).Ordered ∧
      (s = .types → (m.declare s inst).IsType m.nextId) ∧
      (s = .constants → (m.declare s inst).IsDeclared m.nextId) := by
  by_cases hfits : Inst.fits { inst with result := some m.nextId } = true
  · have hdefines := defines_append hsec (m := m) inst
    rw [Module.declare, emit_of_fits hfits]
    have hext : m.Extends (m.afterFresh.append #[{ inst with result := some m.nextId }] s) := by
      refine ⟨?_, fun id hid => (hdefines.types id).mpr (.inl hid),
        fun id hid => (hdefines.constants id).mpr (.inl hid)⟩
      cases s <;> exact id
    refine ⟨hext, fun hover => ?_, fun hs _ => (hdefines.types _).mpr (.inr ⟨hs, rfl⟩), fun hs _ => ?_⟩
    · have hover' := hext.oversized hover
      have hs := hm hover'
      have hgrown : ∀ id ∈ results (m.types.toList ++ m.constants.toList), _ :=
        fun id hid => IsDeclared.extends (fun _ => hid) hext hover
      obtain ⟨hapart, hbelow⟩ := hs.defines hdefines
      rcases hsec with rfl | rfl | rfl <;>
        refine ⟨?_, ?_, fun g hg id hid => hgrown id (hs.globals g hg id hid),
          fun e he => hext.types _ (hs.typeIds e he),
          fun e he => hgrown _ (hs.constantIds e he), hapart, hbelow, hs.silent⟩
      · exact hs.types_extends hext
      · exact hs.constants_extends hext
      · change UsesOk _ (m.types ++ #[_]).toList
        rw [Array.toList_append]
        refine (hs.types_extends hext).concat fun id hid => (htypes rfl id hid).elim (fun h => .inl (h hover')) ?_
        rintro ⟨hop, hlength, hdecl⟩
        have hdecl := hdecl hover'
        rw [results_append, List.mem_append] at hdecl
        exact hdecl.imp_right fun hconst => ⟨hop, hlength, hconst⟩
      · exact hs.constants_extends hext
      · exact hs.types_extends hext
      · change UsesOk _ (m.constants ++ #[_]).toList
        rw [Array.toList_append]
        exact (hs.constants_extends hext).concat fun id hid => hconstants rfl id hid hover'
    · rw [results_append, List.mem_append]
      exact .inr ((hdefines.constants _).mpr (.inr ⟨hs, rfl⟩))
  · obtain ⟨hext, hord, hne⟩ := emit_of_not_fits (m := m.afterFresh) (s := s) hfits
    exact ⟨{ hext with }, hord, fun _ hover => absurd hover hne,
      fun _ hover => absurd hover hne⟩

theorem emit_globals (inst : Inst) (hm : m.Ordered) (huses : ∀ id ∈ inst.uses, m.IsDeclared id) :
    m.Extends (m.emit .globals inst) ∧ (m.emit .globals inst).Ordered := by
  by_cases hfits : inst.fits = true
  · rw [emit_of_fits hfits]
    refine ⟨⟨id, fun _ hid => hid, fun _ hid => hid⟩, fun hover => ?_⟩
    have hs := hm hover
    refine { hs with globals := fun g hg => ?_ }
    change g ∈ (m.globals ++ #[inst]).toList at hg
    rw [Array.toList_append, List.mem_append] at hg
    rcases hg with hg | hg
    · exact hs.globals g hg
    · rw [List.mem_singleton.mp hg]
      exact fun id hid => huses id hid hover
  · obtain ⟨hext, hord, -⟩ := emit_of_not_fits (m := m) (s := .globals) hfits
    exact ⟨hext, hord⟩

theorem quiet_emit (hs : s.isRemark = true) (hinst : inst.result = none) :
    m.Quiet (m.emit s inst) := by
  have hresult : results #[inst].toList = [] := by simp [results, hinst]
  by_cases hfits : inst.fits = true
  · rw [emit_of_fits hfits]
    cases s with
    | executionModes | debug | annotations =>
      refine ⟨id, rfl, rfl, rfl, rfl, rfl, rfl, Nat.le_refl _, fun hsilent => ?_⟩
      simp only [results_append, List.append_eq_nil_iff] at hsilent
      simp only [append, Array.toList_append, results_append, hresult, hsilent, List.append_nil]
    | imports | types | constants | globals | functions => cases hs
  · rw [emit, if_neg hfits]
    exact ⟨fun hover => absurd hover Array.push_ne_empty, rfl, rfl, rfl, rfl, rfl, rfl,
      Nat.le_refl _, fun hsilent => hsilent⟩

end Module

/-! ## Asking for types and constants

Each step of building a module keeps the declarations in order, provided that what it is given is
declared, and what it answers is declared afterwards. -/

open Discipline Spirv.Module

variable {operands : List Operand} {op : Op}

/-- Declarations stay in order while a module grows. -/
def declaring : Discipline Module := ⟨Ordered, Extends, Extends.refl, Extends.trans⟩

namespace Build

variable {α : Type} {m : Module} {s : Section}

theorem runs_declared {inst : ModuleId → Inst} {f : ModuleId → Build α}
    {Q : ModuleId → Module → Prop} {R : α → Module → Prop} (hwrite : declaring.Runs (do
      let id ← fresh
      emit s (inst id)
      pure id) m Q)
    (hf : ∀ id m', m.Extends m' → Q id m' → declaring.Runs (f id) m' R) :
    declaring.Runs (do
      let id ← fresh
      emit s (inst id)
      f id) m R := hwrite.bind hf

/-! ## Steps away from the declarations -/

theorem keeps_of_quiet {x : Build α} (h : ∀ m : Module, m.Quiet (x.run m).2) : declaring.Keeps x :=
  fun m hm => ⟨(h m).extends, (h m).ordered hm, trivial⟩

theorem keeps_fresh : declaring.Keeps fresh :=
  keeps_of_quiet fun _ => ⟨id, rfl, rfl, rfl, rfl, rfl, rfl, Nat.le_succ _, id⟩

theorem keeps_aside {x : Build α} (h : ∀ m, ∃ capabilities extensions entryPoints functions blocks,
    (x.run m).2 = { m with capabilities, extensions, entryPoints, functions, blocks }) :
    declaring.Keeps x := by
  refine keeps_of_quiet fun m => ?_
  obtain ⟨_, _, _, _, _, hm⟩ := h m
  rw [hm]
  exact ⟨id, rfl, rfl, rfl, rfl, rfl, rfl, Nat.le_refl _, id⟩

theorem keeps_requireCapability (c : Capability) : declaring.Keeps (requireCapability c) :=
  keeps_aside fun _ => ⟨_, _, _, _, _, rfl⟩

theorem keeps_remark {inst : Inst} (hs : s.isRemark = true)
    (hinst : inst.result = none) : declaring.Keeps (emit s inst) :=
  keeps_of_quiet fun _ => quiet_emit hs hinst

/-! ## Types -/

theorem runs_newType (huses : ∀ id ∈ operandIds operands, m.IsType id ∨
      op = .typeArray ∧ operands[1]? = some (.id id) ∧ m.IsDeclared id) :
    declaring.Runs (newType op operands) m fun id m' => m'.IsType id :=
  fun hm => (hm.declare (.inr (.inl rfl)) { op, operands } (fun _ => huses) nofun).imp id
    (And.imp id fun h => h.1 rfl)

theorem runs_type (huses : ∀ id ∈ operandIds operands, m.IsType id ∨
      op = .typeArray ∧ operands[1]? = some (.id id) ∧ m.IsDeclared id) :
    declaring.Runs (type op operands) m fun id m' => m'.IsType id := by
  refine .get_bind ?_
  split
  next id hid =>
    intro hm
    exact ⟨Extends.refl m, hm, fun hover => (hm hover).typeIds _ (Table.mem_of_get? hid)⟩
  next =>
    refine (runs_newType huses).bind fun id m1 _ hid => ?_
    refine .bind (Q := fun _ m' => m'.IsType id) (.modify fun hm => ?_) fun _ m2 _ hid => .pure hid
    refine ⟨⟨fun h => h, fun _ h => h, fun _ h => h⟩, fun hover => ?_, hid⟩
    have hs := hm hover
    refine { hs with typeIds := fun e he => ?_ }
    rcases Table.mem_insert he with rfl | he
    · exact hid hover
    · exact hs.typeIds e he

theorem runs_basicType (h : operandIds operands = []) :
    declaring.Runs (type op operands) m fun id m' => m'.IsType id := by
  refine runs_type fun id hid => ?_
  rw [h] at hid
  exact absurd hid List.not_mem_nil

theorem runs_intType (width : UInt32) (signed : Bool) :
    declaring.Runs (intType width signed) m fun id m' => m'.IsType id :=
  (Keeps.forM_option keeps_requireCapability m).bind fun _ _ _ _ => runs_basicType rfl

theorem runs_floatType (width : UInt32) :
    declaring.Runs (floatType width) m fun id m' => m'.IsType id :=
  (Keeps.forM_option keeps_requireCapability m).bind fun _ _ _ _ => runs_basicType rfl

/-! ## Constants -/

theorem runs_noteConstant {key : Op × ModuleId × List Operand} {id : ModuleId}
    (h : m.IsDeclared id) :
    declaring.Runs (modify fun m => { m with constantIds := m.constantIds.insert key id }) m
      fun _ m' => m'.IsDeclared id := by
  refine .modify fun hm => ⟨⟨fun h => h, fun _ h => h, fun _ h => h⟩, fun hover => ?_, h⟩
  have hs := hm hover
  refine { hs with constantIds := fun e he => ?_ }
  rcases Table.mem_insert he with rfl | he
  · exact h hover
  · exact hs.constantIds e he

/-- **A constant answers with the id it has, wherever it stands**, or is declared where it is asked
    for. -/
theorem runs_constantIn {type : ModuleId} (htype : m.IsType type)
    (hs : s = .types ∧ operandIds operands = [] ∨ s = .constants ∧ ∀ id ∈ operandIds operands,
      m.IsDeclared id) :
    declaring.Runs (constantIn s type op operands) m fun id m' => m'.IsDeclared id := by
  refine .get_bind ?_
  split
  next id hid =>
    intro hm
    exact ⟨Extends.refl m, hm, fun hover => (hm hover).constantIds _ (Table.mem_of_get? hid)⟩
  next =>
    have hwrite : declaring.Runs (do
        let id ← fresh
        emit s { op, resultType := some type, result := some id, operands }
        pure id) m fun id m' => m'.IsDeclared id := by
      rcases hs with ⟨rfl, hids⟩ | ⟨rfl, hids⟩
      · -- Among the types a constant may use its type and nothing else.
        intro hm
        have huses : ∀ id ∈ Inst.uses { op, resultType := some type, operands }, m.IsType id := by
          intro id hid
          rw [Inst.uses, hids, List.append_nil] at hid
          rw [List.mem_singleton.mp hid]
          exact htype
        obtain ⟨hext, hord, hid, -⟩ := hm.declare (.inr (.inl rfl)) _ (fun _ id hid => .inl (huses id hid)) nofun
        exact ⟨hext, hord, (hid rfl).isDeclared⟩
      · intro hm
        refine (hm.declare (.inr (.inr rfl)) { op, resultType := some type, operands } nofun fun _ id hid => ?_).imp id
          (And.imp id fun h => h.2 rfl)
        rcases List.mem_append.mp hid with hid | hid
        · rw [List.mem_singleton.mp hid]
          exact htype.isDeclared
        · exact hids id hid
    exact runs_declared hwrite fun id m1 _ hid =>
      (runs_noteConstant hid).bind fun _ _ _ hid => .pure hid

/-- **An array type is declared behind its element**, and its length in front unless a value asked
    for it first. -/
theorem runs_arrayType {element : ModuleId} (h : m.IsType element) (length : UInt32) :
    declaring.Runs (arrayType element length) m fun id m' => m'.IsType id := by
  refine (runs_intType 32 false).bind fun type m1 h1 htype => ?_
  refine (runs_constantIn htype (.inl ⟨rfl, rfl⟩)).bind fun count m2 h2 hcount => ?_
  refine runs_type fun id hid => ?_
  change id ∈ [element, count] at hid
  rcases List.mem_cons.mp hid with rfl | hid
  · exact .inl ((h.extends h1).extends h2)
  · rw [List.mem_singleton.mp hid]
    exact .inr ⟨rfl, rfl, hcount⟩

theorem keeps_extInstSet : declaring.Keeps extInstSet := by
  intro m
  refine .get_bind ?_
  split
  · exact .pure trivial
  · have hwrite : declaring.Runs (do
        let id ← fresh
        emit .imports { op := .extInstImport, result := some id, operands := [.text Spirv.extInstSet] }
        pure id) m := by
      intro hm
      obtain ⟨hext, hord, -⟩ :=
        hm.declare (.inl rfl) { op := .extInstImport, operands := [.text Spirv.extInstSet] } nofun
        nofun
      exact ⟨hext, hord, trivial⟩
    have hnote : ∀ id : ModuleId, declaring.Keeps
        (modify fun m => { m with extInsts := some id } : Build Unit) := fun id =>
      keeps_of_quiet fun _ => ⟨fun h => h, rfl, rfl, rfl, rfl, rfl, rfl, Nat.le_refl _, fun h => h⟩
    exact runs_declared hwrite fun id _ _ _ =>
      (hnote id _).bind fun _ _ _ _ => .pure trivial

end Build

variable {insts : List Inst}

/-! ## Roles of operations

The roles say which section an instruction may stand in, and inside the functions they are all that
the control flow depends on. -/

/-- What an operation is for. -/
inductive Role
  | capability | extension | library | memoryModel | entryPoint | executionMode | debugName
  | decoration | type | constant | variable | function | parameter | functionEnd | label | terminator
  | computation
deriving DecidableEq

def Op.role : Op → Role
  | .capability => .capability
  | .extension => .extension
  | .extInstImport => .library
  | .memoryModel => .memoryModel
  | .entryPoint => .entryPoint
  | .executionMode => .executionMode
  | .name | .memberName => .debugName
  | .decorate | .memberDecorate => .decoration
  | .typeVoid | .typeBool | .typeInt | .typeFloat | .typeVector | .typeMatrix | .typeArray
  | .typeStruct | .typePointer | .typeFunction => .type
  | .constantTrue | .constantFalse | .constant | .constantComposite | .constantNull => .constant
  | .variable => .variable
  | .function => .function
  | .functionParameter => .parameter
  | .functionEnd => .functionEnd
  | .label => .label
  | .branch | .branchConditional | .kill | .ret | .retValue | .unreachable => .terminator
  | _ => .computation

/-- The operations that may stand in a section in front of the functions.  The length of an array
    type is a constant among the types. -/
def Section.admits : Section → Op → Bool
  | .imports, op => op.role = .library
  | .executionModes, op => op.role = .executionMode
  | .debug, op => op.role = .debugName
  | .annotations, op => op.role = .decoration
  | .types, op => op.role = .type || op = .constant
  | .constants, op => op.role = .constant
  | .globals, op => op.role = .variable
  | .functions, _ => false

/-! ## Blocks and functions -/

def Inst.IsLocal (inst : Inst) : Prop :=
  inst.op = .variable ∧ inst.operands[0]? = some (.literal StorageClass.function.code)

/-- A block that has not been left yet: a label and what is computed behind it. -/
def IsOpenBlock (insts : List Inst) : Prop :=
  ∃ label body, insts = label :: body ∧ label.op = .label ∧ ∀ i ∈ body, i.op.role = .computation

/-- **A block**: a label, what is computed, and exactly one terminator. -/
def IsBlock (insts : List Inst) : Prop :=
  ∃ before terminator, insts = before ++ [terminator] ∧ IsOpenBlock before ∧ terminator.op.role = .terminator

def AreBlocks (insts : List Inst) : Prop :=
  ∃ blocks : List (List Inst), insts = blocks.flatten ∧ ∀ b ∈ blocks, IsBlock b

/-- **A function**: its parameters and its blocks between the two instructions of its frame, and its
    variables directly behind the label of the first block. -/
def IsFunction (insts : List Inst) : Prop :=
  ∃ header params label locals body blocks last,
    insts = header :: params ++ (label :: locals ++ body) ++ blocks ++ [last] ∧
      header.op = .function ∧ (∀ p ∈ params, p.op = .functionParameter) ∧
      (∀ v ∈ locals, v.IsLocal) ∧ IsBlock (label :: body) ∧ AreBlocks blocks ∧ last.op = .functionEnd

theorem areBlocks_nil : AreBlocks [] := ⟨[], rfl, nofun⟩

theorem AreBlocks.concat {done last : List Inst} (h : AreBlocks done) (hlast : IsBlock last) :
    AreBlocks (done ++ last) := by
  obtain ⟨blocks, rfl, hblocks⟩ := h
  refine ⟨blocks ++ [last], by simp, fun b hb => ?_⟩
  rcases List.mem_append.mp hb with hb | hb
  · exact hblocks b hb
  · rw [List.mem_singleton.mp hb]
    exact hlast

theorem AreBlocks.uncons (h : AreBlocks insts) (hne : insts ≠ []) :
    ∃ label body rest, insts = label :: body ++ rest ∧ IsBlock (label :: body) ∧
      AreBlocks rest := by
  obtain ⟨blocks, rfl, hblocks⟩ := h
  cases blocks with
  | nil => exact absurd rfl hne
  | cons first rest =>
    have hfirst := hblocks first List.mem_cons_self
    obtain ⟨_, terminator, rfl, ⟨label, body, rfl, hlabel, hbody⟩, hterminator⟩ := hfirst
    refine ⟨label, body ++ [terminator], rest.flatten, by simp, ?_, rest, rfl,
      fun b hb => hblocks b (List.mem_cons_of_mem _ hb)⟩
    exact ⟨label :: body, terminator, rfl, ⟨label, body, rfl, hlabel, hbody⟩, hterminator⟩

theorem isOpenBlock_label {label : Inst} (h : label.op = .label) : IsOpenBlock [label] :=
  ⟨label, [], rfl, h, nofun⟩

theorem IsOpenBlock.concat {inst : Inst} (h : IsOpenBlock insts)
    (hinst : inst.op.role = .computation) : IsOpenBlock (insts ++ [inst]) := by
  obtain ⟨label, body, rfl, hlabel, hbody⟩ := h
  refine ⟨label, body ++ [inst], rfl, hlabel, fun i hi => ?_⟩
  rcases List.mem_append.mp hi with hi | hi
  · exact hbody i hi
  · rw [List.mem_singleton.mp hi]
    exact hinst

theorem IsOpenBlock.terminate {inst : Inst} (h : IsOpenBlock insts)
    (hinst : inst.op.role = .terminator) : IsBlock (insts ++ [inst]) :=
  ⟨insts, inst, rfl, h, hinst⟩

def Role.isInFunction : Role → Bool
  | .function | .parameter | .functionEnd | .label | .terminator | .computation | .variable => true
  | _ => false

theorem IsOpenBlock.isInFunction (h : IsOpenBlock insts) :
    ∀ i ∈ insts, i.op.role.isInFunction = true := by
  obtain ⟨label, body, rfl, hlabel, hbody⟩ := h
  intro i hi
  rcases List.mem_cons.mp hi with rfl | hi
  · rw [hlabel]
    rfl
  · rw [hbody i hi]
    rfl

theorem IsBlock.isInFunction (h : IsBlock insts) : ∀ i ∈ insts, i.op.role.isInFunction = true := by
  obtain ⟨before, terminator, rfl, hbefore, hterminator⟩ := h
  intro i hi
  rcases List.mem_append.mp hi with hi | hi
  · exact hbefore.isInFunction i hi
  · rw [List.mem_singleton.mp hi, hterminator]
    rfl

theorem AreBlocks.isInFunction (h : AreBlocks insts) :
    ∀ i ∈ insts, i.op.role.isInFunction = true := by
  obtain ⟨blocks, rfl, hblocks⟩ := h
  intro i hi
  obtain ⟨b, hb, hi⟩ := List.mem_flatten.mp hi
  exact (hblocks b hb).isInFunction i hi

theorem IsFunction.isInFunction (h : IsFunction insts) :
    ∀ i ∈ insts, i.op.role.isInFunction = true := by
  obtain ⟨header, params, label, locals, body, blocks, last, rfl, hheader, hparams, hlocals, hfirst,
    hblocks, hlast⟩ := h
  intro i hi
  simp only [List.mem_append, List.mem_cons, List.not_mem_nil, or_false] at hi
  rcases hi with (((rfl | hi) | (rfl | hi) | hi) | hi) | rfl
  · rw [hheader]
    rfl
  · rw [hparams i hi]
    rfl
  · exact hfirst.isInFunction _ List.mem_cons_self
  · rw [(hlocals i hi).1]
    rfl
  · exact hfirst.isInFunction i (List.mem_cons_of_mem _ hi)
  · exact hblocks.isInFunction i hi
  · rw [hlast]
    rfl

end ShaderIR.Spirv
