import Mathlib.Data.List.Nodup
import ShaderIR.Proofs.Pipeline.Agreement
import ShaderIR.Proofs.Spirv.Requirements.Forms
import ShaderIR.Proofs.Spirv.Requirements.Streams

/-!
# Translation after optimization

What may get lost is the id that stands for the description of a type: if a type is declared under
two ids, the one that is dropped takes with it the way from what is nested to the id that is left.
So **a stream that could be translated can be translated after any pipeline exactly if every nested
type has kept an id**.
-/

namespace ShaderIR

open Assembler Spirv
open Pipeline (ofLevels)

/-! ## Types that are declared once -/

namespace TypeRegistry

/-- No type is declared under two ids. -/
def Unshared (types : TypeRegistry) : Prop :=
  ∀ id id' h, types.handle? id = some h → types.handle? id' = some h → id = id'

theorem unshared_of_nodup {types : TypeRegistry} (h : (types.handles.entries.map (·.2)).Nodup) :
    types.Unshared := by
  intro id id' k hid hid'
  have heq := List.inj_on_of_nodup_map h (Table.mem_of_get? hid) (Table.mem_of_get? hid') rfl
  exact congrArg (·.1) heq

/-- Every id stands for its own description. -/
def SelfStanding (types : TypeRegistry) : Prop :=
  ∀ id h, types.handle? id = some h → types.idOf? h = some id

theorem Unshared.selfStanding {types : TypeRegistry} (h : types.Unshared) (hc : types.Consistent)
    (hs : types.Standing) : types.SelfStanding := by
  intro id k hid
  obtain ⟨y, hy⟩ := Option.isSome_iff_exists.mp (hs id k hid)
  rw [hy, h y id k (hc.canonical hy) hid]

theorem SelfStanding.renamed {f : ResultId → ResultId} {a b : TypeRegistry} (h : a.SelfStanding)
    (hf : Renamed f a b) : b.SelfStanding := by
  intro y k hy
  obtain ⟨x, rfl, hz, hx⟩ := hf.exists_handle hy
  exact hf.idOf (h x k hx) hz

end TypeRegistry

theorem Assembler.TypesListed.complete {asm : Assembler} (h : asm.TypesListed)
    (hself : asm.types.SelfStanding) : asm.types.Complete := by
  intro id d hid k hk
  obtain ⟨handle, hhandle, -⟩ := Option.bind_eq_some_iff.mp hid
  obtain ⟨inst, hinst, hop, rfl⟩ := h.declared hhandle
  obtain ⟨r, -, hr⟩ := h.nested hinst hop hid k hk
  rw [hself r k hr]
  rfl

/-! ## Passes carry streams over -/

namespace Reduction

variable {a b : Assembler} (R : Reduction a b)

theorem redirect_type (ha : a.Coherent) {r : ResultId} (hr : R.Holds r)
    (hop : (a.opcodeOf r).isType = true) : R.redirect r = R.rename r ∧ (R.rename r).index ≠ 0 := by
  have hplain : (a.opcodeOf r).isMergeable = false := by
    rw [Bool.eq_false_iff]
    intro hmerge
    rw [(Opcode.not_isType_of_isMergeable hmerge).1] at hop
    cases hop
  obtain ⟨heq, hlives⟩ := R.redirect_of_plain hr ha hplain
  refine ⟨heq, fun hz => ?_⟩
  rw [ResultId.eq_void (hlives hz)] at hop
  cases hop

theorem exists_member (ha : a.Sound) {l : LayoutHandle} {layout : StructLayout}
    {m : String × ResultId} (hl : a.types.layout? l = some layout) (hm : m ∈ layout.members) :
    ∃ (i : Nat) (x : Instruction),
      a.code[i]? = some x ∧ R.keep i = true ∧ x.opcode = .structMember ∧
      x.refs.fst = m.2 ∧ R.redirect m.2 = R.rename m.2 ∧ (R.rename m.2).index ≠ 0 := by
  obtain ⟨x, hx, hop, hfst⟩ := ha.listed.members hl hm
  obtain ⟨i, hi⟩ := List.mem_iff_getElem?.mp hx
  rw [Array.getElem?_toList] at hi
  have hkeep : R.keep i = true := by
    cases hkeep : R.keep i with
    | true => rfl
    | false =>
      have hdropped := R.dropped hi hkeep
      rw [hop] at hdropped
      revert hdropped
      decide
  have htype : (a.opcodeOf x.refs.fst).isType = true := by
    have hvalid := (ha.validAt hi).operands
    unfold Validation.operandFindings at hvalid
    rw [hop] at hvalid
    exact Validation.expectType_eq_nil.mp hvalid
  have hred := R.redirect_type ha.coherent (R.holds_fst hi hkeep) htype
  exact ⟨i, x, hi, hkeep, hop, hfst, hfst ▸ hred⟩

variable {R}

theorem Carries.sound (hR : R.Carries) (hvalid : b.Valid) (hconsistent : b.types.Consistent) :
    b.Sound := by
  have ha := hR.source
  refine ⟨hvalid, hconsistent, fun {y k} hy => ?_, fun {l layout' m'} hl' hm' => ?_,
    fun {inst d} hinst hop hd k hk => ?_⟩
  · obtain ⟨id, rfl, hz, hid⟩ := hR.types.exists_handle hy
    obtain ⟨x, hx, hop, rfl⟩ := ha.listed.declared hid
    obtain ⟨i, hi⟩ := List.mem_iff_getElem?.mp hx
    rw [Array.getElem?_toList] at hi
    have hcode := R.code_of_keep hi (R.keep_definition hi hz)
    exact ⟨_, mem_code hcode, hop, rfl⟩
  · have heq := hR.types.layout l
    rw [hl'] at heq
    obtain ⟨layout, hl, hshape⟩ := Option.map_eq_some_iff.mp heq.symm
    have hmembers : layout.members.map (fun m => (m.1, R.rename m.2)) = layout'.members :=
      congrArg (·.2) hshape
    rw [← hmembers] at hm'
    obtain ⟨m, hm, rfl⟩ := List.mem_map.mp hm'
    obtain ⟨i, x, hx, hkeep, hop, hfst, hred, -⟩ := R.exists_member ha hl hm
    have hcode := R.code_of_keep hx hkeep
    refine ⟨_, mem_code hcode, hop, ?_⟩
    show R.redirect x.refs.fst = R.rename m.2
    rw [hfst, hred]
  · obtain ⟨j, hj⟩ := List.mem_iff_getElem?.mp hinst
    rw [Array.getElem?_toList] at hj
    obtain ⟨i, x, hx, hi, rfl, rfl⟩ := R.exists_of_code hj
    have hold : a.types.ofId? x.id = some d :=
      (R.ofId?_rename hR (R.lives_id hx hi)).symm.trans hd
    obtain ⟨r, hr, hrk⟩ := ha.listed.nested (mem_code hx) hop hold k hk
    obtain ⟨heq, hz⟩ := R.redirect_type ha.coherent (R.holds_slot hx hi hr) (ha.isType_of_handle? hrk).2
    refine ⟨R.redirect r, List.mem_map_of_mem hr, ?_⟩
    rw [heq, hR.types.handle hz]
    exact hrk

end Reduction

namespace Assembler.Sound

variable {asm : Assembler} (h : asm.Sound)
include h

theorem carries_flatten : (flattenReduction h.coherent h.trailers).Carries := by
  have hframe := (traced_sweep asm).frame
  have htypes : asm.flatten.2.types = asm.types.rename asm.newId := by
    show asm.sweep.asm.types.rename asm.newId = _
    rw [hframe]
  refine ⟨h, h.flatten.coherent, ?_, fun e he => ?_⟩
  · rw [htypes]
    exact TypeRegistry.renamed_rename (flattenReduction h.coherent h.trailers).rename_inj
      h.listed.consistent.distinct fun hl hm =>
        let ⟨_, _, _, _, _, _, _, hz⟩ := (flattenReduction h.coherent h.trailers).exists_member h hl hm
        hz
  · have hnames : asm.flatten.2.names.entries = asm.names.entries.filterMap fun e =>
        if (asm.newId e.1).isVoid then none else some (asm.newId e.1, e.2) := by
      show (asm.sweep.asm.names.entries.filterMap _) = _
      rw [hframe]
      rfl
    rw [hnames] at he
    obtain ⟨⟨id, name⟩, hmem, hz, rfl⟩ := mem_filterMap_renamed.mp he
    exact ⟨id, hmem, rfl, fun h => absurd h hz⟩

theorem carries_withLog (log : ProblemLog) : (logReduction asm log).Carries := by
  refine ⟨h, (h.toValid.withLog log).coherent, ?_, fun e he => ⟨e.1, he, rfl, id⟩⟩
  refine h.listed.consistent.renamed_self (fun hid => (h.isType_of_handle? hid).1) fun hl hm => ?_
  obtain ⟨_, _, _, _, _, _, _, hz⟩ := (logReduction asm log).exists_member h hl hm
  exact hz

theorem carries_mergeLiterals : (mergeReduction h.coherent).Carries := by
  have hmerged := h.coherent.distinct.redirected_mergeLiterals
  refine ⟨h, h.mergeLiterals.coherent, ?_, fun e he => ?_⟩
  · rw [hmerged.types]
    refine h.listed.consistent.renamed_self (fun hid => (h.isType_of_handle? hid).1) fun hl hm => ?_
    obtain ⟨_, _, _, _, _, _, _, hz⟩ := (mergeReduction h.coherent).exists_member h hl hm
    exact hz
  · rw [hmerged.names] at he
    exact ⟨e.1, he, rfl, id⟩

theorem consistent_flatten : asm.flatten.2.types.Consistent := by
  have hframe := (traced_sweep asm).frame
  show (asm.sweep.asm.types.rename asm.newId).Consistent
  rw [hframe]
  exact h.listed.consistent.rename (flattenReduction h.coherent h.trailers).rename_inj

theorem exists_carries (pass : Pass) :
    (pass.run asm).1.Sound ∧ ∃ R : Reduction asm (pass.run asm).1, R.Carries := by
  cases pass with
  | mergeLiterals =>
    have hR := h.carries_mergeLiterals
    have hconsistent := h.coherent.distinct.redirected_mergeLiterals.types ▸ h.listed.consistent
    exact ⟨hR.sound h.mergeLiterals hconsistent, _, hR⟩
  | flatten =>
    have hR := h.carries_flatten
    exact ⟨hR.sound h.flatten h.consistent_flatten, _, hR⟩
  | validation level =>
    have hR := h.carries_withLog (asm.log.extend (asm.validate level))
    exact ⟨hR.sound (h.toValid.withLog _) h.listed.consistent, _, hR⟩

theorem run_invariant {P : Assembler → Prop}
    (hcarries : ∀ {a b : Assembler} {R : Reduction a b}, R.Carries → b.Sound → P a → P b)
    (hP : P asm) (p : Pipeline) : (p.run asm).Sound ∧ P (p.run asm) := by
  refine Pipeline.run_invariant (P := fun asm => asm.Sound ∧ P asm) (fun pass asm h => ?_) p ⟨h, hP⟩
  obtain ⟨hb, R, hR⟩ := h.1.exists_carries pass
  exact ⟨hb, hcarries hR hb h.2⟩

end Assembler.Sound

/-! ## Translation -/

/-- Everything that a translation asks for is there, apart from ids of nested types. -/
structure Assembler.Translatable (asm : Assembler) : Prop where
  grounded : asm.types.Grounded
  fits : ∀ {id layout}, asm.types.layoutOf? id = some layout → layoutFits layout = true
  meets : meetsRequirements asm = true

theorem Reduction.Carries.translatable {a b : Assembler} {R : Reduction a b} (hR : R.Carries)
    (hb : b.Sound) (ha : a.Translatable) : b.Translatable where
  grounded := hR.types.grounded ha.grounded hb.listed.consistent
  fits {y layout} hlayout := by
    obtain ⟨l, hy, -⟩ := TypeRegistry.exists_of_layoutOf? hlayout
    obtain ⟨x, rfl, hz, -⟩ := hR.types.exists_ofId? hy
    obtain ⟨layout', hlayout', hname, hmembers⟩ := hR.types.exists_layoutOf? hz hlayout
    have hfits := ha.fits hlayout'
    unfold layoutFits at hfits ⊢
    rw [hname, hmembers, List.length_map, List.all_map]
    exact hfits
  meets := hR.meetsRequirements ha.meets

namespace Assembler.Sound

variable {asm : Assembler} (h : asm.Sound)
include h

theorem translatable_of_clean (hclean : (lowerAll asm).1.Clean) (hfatal : (lowerAll asm).2 = none) :
    asm.Translatable ∧ asm.types.Complete := by
  have hforms : HasForms asm.types := by
    refine hasForms_of_hasForm h.listed.consistent fun {id} hid => ?_
    obtain ⟨d, hd⟩ := Option.isSome_iff_exists.mp hid
    obtain ⟨k, hk, -⟩ := Option.bind_eq_some_iff.mp hd
    obtain ⟨inst, hinst, hop, rfl⟩ := h.listed.declared hk
    exact hasForm_of_clean hclean hfatal inst hinst hop
  exact ⟨⟨hforms.grounded, hforms.fits, (lowerAll_clean_iff hforms).mp ⟨hclean, hfatal⟩⟩, hforms.complete⟩

theorem clean_iff_complete (ht : asm.Translatable) :
    (lowerAll asm).1.Clean ∧ (lowerAll asm).2 = none ↔ asm.types.Complete :=
  ⟨fun hclean => (h.translatable_of_clean hclean.1 hclean.2).2,
    fun hcomplete => (lowerAll_clean_iff ⟨ht.grounded, hcomplete, ht.fits⟩).mpr ht.meets⟩

end Assembler.Sound

/-- **When a listing stays translatable.**  Take a listing without redefinitions and findings whose
    translation is clean. After the passes of any level its translation is clean exactly if every
    nested type has kept an id, the ids of the module can be stated and no entry point is too long;
    the first holds if no type was declared twice. -/
theorem isClean_run_iff {text : String} {asm : Assembler} (h : Listing.parse text = .ok asm)
    (hlog : asm.NoRedefinition) (hvalid : asm.validate .full = []) {major minor : UInt8}
    {e : Emission} (he : emitModule asm major minor = .ok e) (hclean : e.isClean = true)
    (opt : OptimizeLevel) (validation : ValidationLevel) :
    ((∃ e', emitModule ((ofLevels opt validation).run asm) major minor = .ok e' ∧
        e'.isClean = true) ↔ ((ofLevels opt validation).run asm).types.Complete ∧
        (lowerAll ((ofLevels opt validation).run asm)).1.module.bound < 0x100000000 ∧
        (lowerAll ((ofLevels opt validation).run asm)).1.module.oversizedEntryPoints = []) ∧
    (asm.types.Unshared → ((ofLevels opt validation).run asm).types.Complete) := by
  have hvalid' : asm.Valid := ⟨Listing.coherent_of_parse h hlog, hvalid⟩
  obtain ⟨hlisted, hstanding⟩ := Listing.typesListed_of_parse h hvalid'.coherent hvalid'.typeIds
  have hsound : asm.Sound := ⟨hvalid', hlisted⟩
  obtain ⟨⟨hlowered, hfatal⟩, -⟩ := (isClean_iff_clean he).mp hclean
  have ht := (hsound.translatable_of_clean hlowered hfatal).1
  generalize ofLevels opt validation = p
  obtain ⟨hb, htb⟩ := hsound.run_invariant (fun hR hb ha => hR.translatable hb ha) ht p
  have hiff := hb.clean_iff_complete htb
  refine ⟨⟨?_, ?_⟩, fun hunshared => ?_⟩
  · rintro ⟨e', he', hclean'⟩
    obtain ⟨hlowered', hentries⟩ := (isClean_iff_clean he').mp hclean'
    exact ⟨hiff.mp hlowered', (emitModule_eq_ok_iff.mp he').2.1, hentries⟩
  · rintro ⟨hcomplete, hbound, hentries⟩
    have hlowered' := hiff.mpr hcomplete
    have he' : emitModule (p.run asm) major minor = .ok _ :=
      emitModule_eq_ok_iff.mpr ⟨hlowered'.1.offsets, hbound, rfl⟩
    exact ⟨_, he', (isClean_iff_clean he').mpr ⟨hlowered', hentries⟩⟩
  · have hself := hunshared.selfStanding hlisted.consistent hstanding
    exact hb.listed.complete (hsound.run_invariant (P := fun asm => asm.types.SelfStanding)
      (fun hR _ hs => hs.renamed hR.types) hself p).2

def spareLiteralText : String :=
  "%1 = TYPE_FLOAT [32, 0, 0] (%0, %0, %0) : %0\n" ++
  "%2 = TYPE_VECTOR [4, 0, 0] (%1, %0, %0) : %0\n" ++
  "%3 = VALUE_LIT_FP [0, 0, 0] (%0, %0, %0) : %1\n" ++
  "%4 = VAR_GLOBAL [0, 0, 0] (%2, %0, %0) : %0\n"

theorem isClean_run_spareLiteralText : ∃ asm e, Listing.parse spareLiteralText = .ok asm ∧
    asm.NoRedefinition ∧ asm.validate .full = [] ∧ emitModule asm 1 5 = .ok e ∧ e.isClean = true ∧
    asm.types.Unshared ∧ ((ofLevels .performance .none).run asm).code.size = 3 ∧
      ∃ e', emitModule ((ofLevels .performance .none).run asm) 1 5 = .ok e' ∧
        e'.isClean = true := by
  obtain ⟨asm, h, hlog, hvalid, hclean, hnodup, hsize, hbound, hentries⟩ :
      ∃ asm, Listing.parse spareLiteralText = .ok asm ∧ asm.log.problems = #[] ∧
        asm.validate .full = [] ∧ (emitModule asm 1 5).toOption.map (·.isClean) = some true ∧
        (asm.types.handles.entries.map (·.2)).Nodup ∧
        ((ofLevels .performance .none).run asm).code.size = 3 ∧
        (lowerAll ((ofLevels .performance .none).run asm)).1.module.bound = 5 ∧
        (lowerAll ((ofLevels .performance .none).run asm)).1.module.oversizedEntryPoints = [] :=
    Listing.exists_of_any_ok (by decide +kernel)
  obtain ⟨e, he, hclean⟩ := exists_emission hclean
  have hnone := Assembler.noRedefinition_of_problems hlog
  have hunshared := TypeRegistry.unshared_of_nodup hnodup
  obtain ⟨hiff, hcomplete⟩ := isClean_run_iff h hnone hvalid he hclean .performance .none
  exact ⟨asm, e, h, hnone, hvalid, he, hclean, hunshared, hsize,
    hiff.mpr ⟨hcomplete hunshared, by rw [hbound]; decide, hentries⟩⟩

/-- A type that is declared twice: nothing refers to the first declaration. -/
def repeatedTypeText : String :=
  "%1 = TYPE_FLOAT [32, 0, 0] (%0, %0, %0) : %0\n" ++
  "%2 = TYPE_FLOAT [32, 0, 0] (%0, %0, %0) : %0\n" ++
  "%3 = TYPE_VECTOR [4, 0, 0] (%2, %0, %0) : %0\n" ++
  "%4 = VAR_GLOBAL [0, 0, 0] (%3, %0, %0) : %0\n"

/-- **Optimization can make a listing untranslatable.**  The first declaration is dropped, and what
    is nested in the vector has no id any more. -/
theorem exists_not_isClean_run : ∃ asm e e', Listing.parse repeatedTypeText = .ok asm ∧
    asm.log.problems = #[] ∧ asm.validate .full = [] ∧ emitModule asm 1 5 = .ok e ∧
    e.isClean = true ∧ emitModule ((ofLevels .basic .none).run asm) 1 5 = .ok e' ∧
    e'.isClean = false := by
  obtain ⟨asm, h, hlog, hvalid, hclean, hclean'⟩ : ∃ asm, Listing.parse repeatedTypeText = .ok asm ∧
      asm.log.problems = #[] ∧ asm.validate .full = [] ∧
      (emitModule asm 1 5).toOption.map (·.isClean) = some true ∧
      (emitModule ((ofLevels .basic .none).run asm) 1 5).toOption.map (·.isClean) = some false :=
    Listing.exists_of_any_ok (by decide +kernel)
  obtain ⟨e, he, hclean⟩ := exists_emission hclean
  obtain ⟨e', he', hclean'⟩ := exists_emission hclean'
  exact ⟨asm, e, e', h, hlog, hvalid, he, hclean, he', hclean'⟩

end ShaderIR
