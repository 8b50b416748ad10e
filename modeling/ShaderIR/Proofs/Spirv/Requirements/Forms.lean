import ShaderIR.Proofs.Spirv.Lowering.Positions
import ShaderIR.Proofs.Spirv.Requirements.Types

/-!
# Types of a stream without problems

If a stream is lowered without a problem, **every type that it declares has a form**: everything
that is nested in it has an id and a form of its own, no type contains itself, and structs are not
too long.
-/

namespace ShaderIR.Spirv

open Discipline Spirv.Module

/-! ## Forms -/

/-- A type has a form if everything that it is made of has one. -/
inductive HasForm (types : TypeRegistry) : ResultId → Prop
  | intro {id : ResultId} {d : TypeDesc} : types.ofId? id = some d →
    (∀ h ∈ d.inner, (types.idOf? h).isSome = true) →
    (∀ l, d = .record l → ∃ layout, types.layoutOf? id = some layout ∧ layoutFits layout = true) →
    (∀ y, types.IsPart y id → HasForm types y) → HasForm types id

namespace HasForm

variable {types : TypeRegistry} {id : ResultId}

theorem of_inner {d : TypeDesc} (hid : types.ofId? id = some d) (hd : ∀ l, d ≠ .record l)
    (h : ∀ h ∈ d.inner, ∃ y, types.idOf? h = some y ∧ HasForm types y) : HasForm types id := by
  refine .intro hid (fun k hk => ?_) (fun l hl => absurd hl (hd l)) fun y hy => ?_
  · obtain ⟨y, hy, -⟩ := h k hk
    rw [hy]
    rfl
  · cases hy with
    | nested hid' hk hy =>
      cases hid.symm.trans hid'
      obtain ⟨y', hy', hform⟩ := h _ hk
      cases hy'.symm.trans hy
      exact hform
    | member hlayout hm =>
      obtain ⟨l, hrecord, -⟩ := TypeRegistry.exists_of_layoutOf? hlayout
      exact absurd (Option.some.inj (hid.symm.trans hrecord)) (hd l)

theorem of_members {l : LayoutHandle} {layout : StructLayout}
    (hid : types.ofId? id = some (.record l)) (hlayout : types.layoutOf? id = some layout)
    (hfits : layoutFits layout = true) (h : ∀ m ∈ layout.members, HasForm types m.2) :
    HasForm types id := by
  refine .intro hid nofun (fun _ _ => ⟨layout, hlayout, hfits⟩) fun y hy => ?_
  cases hy with
  | nested hid' hk _ =>
    cases hid.symm.trans hid'
    exact absurd hk List.not_mem_nil
  | member hlayout' hm =>
    cases hlayout.symm.trans hlayout'
    exact h _ hm

theorem isType (h : HasForm types id) : (types.ofId? id).isSome = true := by
  cases h with
  | intro hid _ _ _ => rw [hid]; rfl

theorem founded (h : HasForm types id) : Acc types.IsPart id := by
  induction h with
  | intro _ _ _ _ ih => exact .intro _ ih

end HasForm

theorem hasForms_of_hasForm {types : TypeRegistry} (hconsistent : types.Consistent)
    (hall : ∀ {id}, (types.ofId? id).isSome = true → HasForm types id) : HasForms types := by
  have hstruct : ∀ {id l}, types.ofId? id = some (.record l) →
      ∃ layout, types.layoutOf? id = some layout ∧ layoutFits layout = true := by
    intro id l hid
    cases hall (by rw [hid]; rfl) with
    | intro hid' _ hlayout _ =>
      cases hid.symm.trans hid'
      exact hlayout l rfl
  refine ⟨⟨hconsistent, fun hid => ?_, fun hlayout hm => ?_, fun hid => (hall hid).founded⟩,
    fun id d hid => ?_, fun hlayout => ?_⟩
  · obtain ⟨layout, hlayout, -⟩ := hstruct hid
    rw [TypeRegistry.layoutOf?_of_ofId? hid] at hlayout
    rw [hlayout]
    rfl
  · obtain ⟨l, hid, -⟩ := TypeRegistry.exists_of_layoutOf? hlayout
    cases hall (by rw [hid]; rfl) with
    | intro _ _ _ hparts => exact (hparts _ (.member hlayout hm)).isType
  · cases hall (by rw [hid]; rfl) with
    | intro hid' hinner _ _ =>
      cases hid.symm.trans hid'
      exact hinner
  · obtain ⟨l, hid, -⟩ := TypeRegistry.exists_of_layoutOf? hlayout
    obtain ⟨layout', hlayout', hfits⟩ := hstruct hid
    cases hlayout.symm.trans hlayout'
    exact hfits

/-! ## What lowering leaves behind -/

/-- No problem was recorded and no instruction left out. -/
def Lowering.Faultless (s : Lowering) : Prop := s.problems = #[] ∧ s.module.Whole

/-- Types that were lowered without a problem have a form. -/
def forming (types : TypeRegistry) : Discipline Lowering where
  Inv s := s.Faultless → ∀ {id n}, s.typeIds.get? id = some n → HasForm types id
  Grows s s' := s'.Faultless → s.Faultless
  refl _ := id
  trans h1 h2 := h1 ∘ h2

variable {types : TypeRegistry} {asm : Assembler} {α : Type} {s : Lowering}

theorem forming_apart {x : Lower α} (h : ∀ s, ((x.run s).2.Faultless → s.Faultless) ∧
    (x.run s).2.typeIds = s.typeIds) : (forming types).Keeps x := by
  intro s hs
  obtain ⟨hfaultless, htypes⟩ := h s
  refine ⟨hfaultless, fun hend id n hn => ?_, trivial⟩
  rw [htypes] at hn
  exact hs (hfaultless hend) hn

theorem forming_modify {f : Lowering → Lowering} (h : ∀ s, (f s).problems = s.problems ∧
    (f s).module = s.module ∧ (f s).typeIds = s.typeIds) :
    (forming types).Keeps (modify f : Lower Unit) := by
  refine forming_apart fun s => ?_
  obtain ⟨hproblems, hmodule, htypes⟩ := h s
  refine ⟨fun hend => ⟨?_, ?_⟩, htypes⟩
  · exact hproblems.symm.trans hend.1
  · have hwhole : (f s).module.Whole := hend.2
    rw [hmodule] at hwhole
    exact hwhole

theorem forming_ofBuild {b c : Build α} [Builds 1 b c] : (forming types).Keeps (Lower.ofBuild b) :=
  forming_apart fun _ => ⟨fun hend => ⟨hend.1, Build.whole_before hend.2⟩, rfl⟩

theorem forming_report (p : Problem) : (forming types).Keeps (report p) :=
  forming_apart fun _ => ⟨fun h => absurd h.1 Array.push_ne_empty, rfl⟩

theorem forming_write (sec : Section) (i : Inst) (s : Lowering) :
    (forming types).Runs (Lower.ofBuild (.emit sec i)) s fun _ s' => s'.Faultless →
      i.fits = true := by
  intro hs
  obtain ⟨hgrows, hinv, -⟩ := forming_ofBuild (b := .emit sec i) s hs
  exact ⟨hgrows, hinv, fun hend => Classical.byContradiction fun hnot =>
    Build.not_whole_emit hnot hend.2⟩

theorem forming_newType (op : Op) (operands : List Operand) (s : Lowering) :
    (forming types).Runs (Lower.ofBuild (.newType op operands)) s
      fun n s' => s'.Faultless → Inst.fits { op, result := some n, operands } = true :=
  runs_ofBuild_bind (forming_ofBuild s) fun _ s1 _ _ =>
    runs_ofBuild_bind (forming_write _ _ s1) fun _ _ _ hfits => .pure hfits

/-! ## Types -/

theorem forming_lowerTypeAt (asm : Assembler) (fuel : Nat) (pending : List ResultId) (id : ResultId)
    (s : Lowering) : (forming asm.types).Tries (lowerTypeAt asm fuel pending id) s
      fun _ s' => s'.Faultless → HasForm asm.types id := by
  induction fuel generalizing pending id s with
  | zero => exact .failure
  | succ fuel ih =>
    refine .get_bind ?_
    split
    next n hn => exact .of_inv fun hs => .pure fun hend => hs hend hn
    next =>
      have hread : ∀ {α : Type} (a : Option α) s, (forming asm.types).Tries (orGiveUp a) s
          fun v _ => a = some v := fun a s => Runs.pure fun v hv => hv
      refine (hread (asm.types.ofId? id) s).bind fun desc s1 _ hdesc => ?_
      refine .bind Tries.of_guard fun _ s2 _ _ => ?_
      extract_lets lowerId lowerHandle note
      have hhandle : ∀ h s, (forming asm.types).Tries (lowerHandle h) s
          fun _ s' => s'.Faultless → ∃ y, asm.types.idOf? h = some y ∧ HasForm asm.types y := by
        intro h s
        refine (hread _ s).bind fun y s' _ hy => (ih _ y s').mono fun _ _ _ hform hend => ?_
        exact ⟨y, hy, hform hend⟩
      -- Noting a type only asks that it has a form.
      have hnote : ∀ n s, (s.Faultless → HasForm asm.types id) → (forming asm.types).Tries (note n) s
          fun _ s' => s'.Faultless → HasForm asm.types id := by
        intro n s hform
        refine .bind (Q := fun _ s' => s'.Faultless → HasForm asm.types id)
          (.lift fun hs => ⟨fun hend => hend, fun hend j k hk => ?_, hform⟩) fun _ s' _ h =>
            Tries.pure h
        rcases Table.get?_insert_cases hk with ⟨rfl, -⟩ | hk
        · exact hform hend
        · exact hs hend hk
      have hwhole : ∀ {b c : Build ModuleId} [Builds 1 b c], (forming asm.types).Attempts (onModule b) :=
        attempts_onModule_of forming_ofBuild
      have hbuild : ∀ {b c : Build ModuleId} [Builds 1 b c] {s}, (s.Faultless → HasForm asm.types id) →
          (forming asm.types).Tries (onModule b >>= note) s
            fun _ s' => s'.Faultless → HasForm asm.types id := fun hform =>
        (hwhole _).bind fun n s' hgrows _ =>
          hnote n s' fun hend => hform (hgrows hend)
      have hleaf : ∀ {b c : Build ModuleId} [Builds 1 b c], (∀ l, desc ≠ .record l) → desc.inner = [] →
          (forming asm.types).Tries (onModule b >>= note) s2
            fun _ s' => s'.Faultless → HasForm asm.types id := fun hd hinner =>
        hbuild fun _ => .of_inner hdesc hd fun h hh => by rw [hinner] at hh; cases hh
      have hone : ∀ {h} {f : ModuleId → Attempt ModuleId}, (∀ l, desc ≠ .record l) → desc.inner = [h] →
          (∀ n, (forming asm.types).Attempts (f n)) →
            (forming asm.types).Tries (lowerHandle h >>= fun n => f n >>= note)
            s2 fun _ s' => s'.Faultless → HasForm asm.types id := by
        intro h f hd hinner hf
        refine (hhandle h s2).bind fun part s3 _ hpart => ?_
        refine (hf part s3).bind fun n s4 hgrows _ => hnote n s4 fun hend => .of_inner hdesc hd fun k hk => ?_
        rw [hinner, List.mem_singleton] at hk
        exact hk ▸ hpart (hgrows hend)
      cases desc with
      | void | bool | float w | sint w | uint w => exact hleaf (by simp) rfl
      | vector inner lanes | pointer inner => exact hone (by simp) rfl fun _ => hwhole
      | matrix inner columns rows =>
        have hcolumns := hone (by simp) rfl fun component =>
          (hwhole (b := .vectorType component rows)).bind fun column => hwhole (b := .matrixType column columns)
        simp only [bind_assoc] at hcolumns
        exact hcolumns
      | array inner length => exact hone (by simp) rfl fun element => hwhole
      | tuple a b =>
        refine (hhandle a s2).bind fun fst s3 _ hfst => ?_
        refine (hhandle b s3).bind fun snd s4 hgrows hsnd => ?_
        refine hbuild fun hend => .of_inner hdesc (by simp) fun h hh => ?_
        rcases List.mem_cons.mp hh with rfl | hh
        · exact hfst (hgrows hend)
        · rw [List.mem_singleton.mp hh]
          exact hsnd hend
      | record l =>
        refine (hread _ s2).bind fun layout s3 _ hlayout => ?_
        have hparts := Tries.mapM_all (D := forming asm.types) (s := s3) (l := layout.members)
          (f := fun m => lowerId m.2) (P := fun m s' => s'.Faultless → HasForm asm.types m.2)
          (fun m s => ih _ m.2 s) fun _ _ _ hgrows h hend => h (hgrows hend)
        refine hparts.bind fun members s4 _ hmembers => ?_
        refine (Tries.lift (forming_newType _ _ s4)).bind fun n s5 h5 hstruct => ?_
        refine (Tries.lift (forming_write _ _ s5)).bind fun _ s6 h6 hname => ?_
        have hremarks := Tries.forM_all (D := forming asm.types) (s := s6) (l := layout.members.zipIdx)
          (f := fun e => onModule (.memberName n e.2.toUInt32 e.1.1))
          (P := fun e s' => s'.Faultless → textFits 2 e.1.1 = true) (fun e s => .lift
            ((forming_write _ _ s).mono fun _ _ _ h hend => (fits_memberName n _ _).symm.trans (h hend)))
          fun _ _ _ hgrows h hend => h (hgrows hend)
        refine hremarks.bind fun _ s7 h7 hnames => ?_
        refine .pure_bind (hnote n s7 fun hend => ?_)
        have hend6 := h7 hend
        have hend5 := h6 hend6
        refine .of_members hdesc hlayout ?_ fun m hm => hmembers.2 m hm (h5 hend5)
        rw [layoutFits, Bool.and_eq_true, Bool.and_eq_true, decide_eq_true_iff, List.all_eq_true, ← hmembers.1]
        refine ⟨⟨(fits_typeOf _ n members).mp (hstruct hend5), ?_⟩, fun m hm => ?_⟩
        · exact (fits_name n _).symm.trans (hname hend6)
        · obtain ⟨i, hi, heq⟩ := List.getElem_of_mem hm
          have hmem : (m, i) ∈ layout.members.zipIdx :=
            List.mem_zipIdx_iff_getElem?.mpr (heq ▸ List.getElem?_eq_getElem hi)
          exact hnames _ hmem hend

theorem forming_requireType (source : Instruction) (id : ResultId) (s : Lowering) :
    (forming asm.types).Runs (requireType asm source id).run s
      fun _ s' => s'.Faultless → HasForm asm.types id := by
  rw [requireType, OptionT.run_orElse, Option.elimM]
  refine .bind (forming_lowerTypeAt asm _ [] id s) fun o s1 _ hform => ?_
  cases o with
  | some n => exact .pure (hform n rfl)
  | none =>
    intro hs
    obtain ⟨hgrows, hinv, -⟩ := forming_report _ s1 hs
    exact ⟨hgrows, hinv, fun hend => absurd hend.1 Array.push_ne_empty⟩

/-! ## Streams -/

theorem bodyRules_forming : BodyRules (forming types) where
  report := forming_report
  fresh := forming_ofBuild
  function _ := forming_modify fun _ => ⟨rfl, rfl, rfl⟩
  append _ := forming_ofBuild

theorem rules_forming (asm : Assembler) (inst : Instruction) :
    Rules asm (forming asm.types) (fun _ _ => True) (fun _ _ => True) inst where
  toFlowRules := bodyRules_forming.flowRules inst
  toFormRules := .of_keeps (fun _ => forming_ofBuild) (fun _ _ _ => forming_ofBuild) fun _ _ => forming_ofBuild
  mono _ _ := trivial
  fnMono _ _ := trivial
  report := forming_report
  fresh := forming_ofBuild
  idFor _ := keeps_idFor_of forming_ofBuild fun _ => forming_modify fun _ => ⟨rfl, rfl, rfl⟩
  bindId _ := forming_modify (fun _ => ⟨rfl, rfl, rfl⟩) _
  setPlace _ := forming_modify fun _ => ⟨rfl, rfl, rfl⟩
  addParam _ := forming_modify fun _ => ⟨rfl, rfl, rfl⟩
  note _ _ h := forming_modify fun s => by
    obtain ⟨_, _, _, _, hs⟩ := h s
    rw [hs]
    exact ⟨rfl, rfl, rfl⟩
  overflow := forming_modify fun _ => ⟨rfl, rfl, rfl⟩
  setStage _ _ := forming_modify fun _ => ⟨rfl, rfl, rfl⟩
  lowerType id s := (forming_lowerTypeAt asm _ [] id s).weaken
  capability _ := forming_ofBuild
  extension _ := forming_ofBuild
  newType _ _ := forming_ofBuild
  constantIn s _ _ _ _ := forming_ofBuild s
  extInstSet := forming_ofBuild
  remark _ _ _ _ := forming_ofBuild
  global _ _ _ := forming_ofBuild _
  block _ := forming_ofBuild
  addEntryPoint _ _ := forming_ofBuild
  modifyEntryPoint _ _ _ := forming_ofBuild

theorem forming_typeInstruction {inst : Instruction} (hop : inst.opcode.isType = true) (i : Nat)
    (s : Lowering) : (forming asm.types).Runs (attempt asm i inst).run s
      fun _ s' => s'.Faultless → HasForm asm.types inst.id := by
  rw [attempt_of_isType asm i hop]
  exact .run_bind (forming_requireType inst inst.id s) (fun _ hform => hform) fun _ _ _ hform => .pure hform

theorem hasForm_of_clean (hclean : (lowerAll asm).1.Clean) (hfatal : (lowerAll asm).2 = none) :
    ∀ inst ∈ asm.code.toList, inst.opcode.isType = true → HasForm asm.types inst.id := by
  intro inst hinst hop
  obtain ⟨k, hlt, hk⟩ := Array.mem_iff_getElem.mp (Array.mem_toList_iff.mp hinst)
  have hk : asm.code[k]? = some inst := Array.getElem?_eq_some_iff.mpr ⟨hlt, hk⟩
  have hempty : (forming asm.types).Inv {} := fun _ _ _ h => by cases h
  have hsteps : Lowers asm (forming asm.types) := Rules.lowers (rules_forming asm)
  -- What was without problems at the end was so after the instruction.
  have hend := (hsteps.lowerAll (rules_forming asm _) hempty hfatal hlt).1 ⟨hclean.problems, hclean.whole⟩
  rw [stateAt_succ hk] at hend
  exact (forming_typeInstruction hop k _ (hsteps.inv_stateAt hempty k)).2.2 hend

end ShaderIR.Spirv
