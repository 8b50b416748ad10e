import ShaderIR.Proofs.Spirv.Interfaces.Sections

/-!
# Which variables the entry points of a module list

Once a variable is listed by an entry point it stays there and is not listed again.  So what an
instruction has listed can be read off the finished module: the variable that it declares, the
vertex output block, the output that a result is written to, and the variable behind a built-in
**unless an earlier section of the same kind of stage reads that built-in too**.
-/

namespace ShaderIR.Spirv

open Discipline Spirv.Module
open Operation (runAll)

variable {s : Lowering} {stage : ShaderStage} {ns : List ModuleId}

variable {asm : Assembler} {inst : Instruction} {j k : Nat} {o : OpenStage} {e e' : EntryPoint} {n : ModuleId}

/-! ## What later steps leave alone -/

namespace EntryPoint.Continues

variable {known : Table (ShaderStage × BuiltIn) ModuleId}

theorem count_of_mem (h : e.Continues known e') (hn : n ∈ e.interface) :
    e'.interface.count n = e.interface.count n := h.listed.count_of_mem hn

theorem count_of_known (h : e.Continues known e') {key : ShaderStage × BuiltIn}
    (hn : known.get? key = some n) :
    e'.interface.count n = e.interface.count n := by
  by_cases hmem : n ∈ e.interface
  · exact h.count_of_mem hmem
  · rw [List.count_eq_zero.mpr hmem, List.count_eq_zero.mpr fun h' => hmem (h.old hn h')]

end EntryPoint.Continues

namespace Lowering

/-- What holds of entry points and of the variables behind them in `s` and in every later state. -/
structure Retains (s s' : Lowering) : Prop extends s.Persists s' where
  entries : ∀ {i : Nat} {e}, s.module.entryPoints[i]? = some e →
    ∃ e', s'.module.entryPoints[i]? = some e' ∧ e.Continues s.builtIns e'

variable {s s' s'' : Lowering}

theorem Retains.refl (s : Lowering) : s.Retains s := ⟨.refl s, fun {_ e} h => ⟨e, h, .refl e _⟩⟩

theorem Retains.trans (h : s.Retains s') (h' : s'.Retains s'') : s.Retains s'' where
  toPersists := h.toPersists.trans h'.toPersists
  entries he := by
    obtain ⟨e', he', hc⟩ := h.entries he
    obtain ⟨e'', he'', hc'⟩ := h'.entries he'
    exact ⟨e'', he'', h.continues hc hc'⟩

theorem Retains.hasVariable (h : s.Retains s') {storage : StorageClass}
    (hn : s.module.HasVariable storage n) :
    s'.module.HasVariable storage n := hn.imp fun _ hmem => h.globals _ hmem

theorem Widens.retains {id : ResultId} {Reads : ShaderStage → BuiltIn → Prop}
    (h : s.Widens id Reads s') :
    s.Retains s' where
  toPersists := h.toPersists
  entries {i e} he := by
    by_cases hopen : ∃ o, s.stage = some o ∧ o.entry = i
    · obtain ⟨o, ho, rfl⟩ := hopen
      obtain ⟨e', he', hlists⟩ := h.entry ho he
      exact ⟨e', he', hlists.toContinues⟩
    · have hothers := h.others fun o ho heq => hopen ⟨o, ho, heq⟩
      exact ⟨e, hothers.trans he, .refl e _⟩

theorem retains_opened (s : Lowering) (stage : ShaderStage) (interface : List ModuleId) :
    s.Retains (s.opened stage interface) where
  toPersists := { Persists.refl s with }
  entries {i e} he := by
    refine ⟨e, ?_, .refl e _⟩
    have hi : i < s.module.entryPoints.size := (Array.getElem?_eq_some_iff.mp he).1
    exact (Array.getElem?_push_lt hi).trans (by rw [← Array.getElem?_eq_getElem hi, he])

theorem retains_closed (s : Lowering) (entry : Nat) (function : ModuleId) :
    s.Retains (s.closed entry function) where
  toPersists := { Persists.refl s with }
  entries {i e} he := by
    have hget : (s.closed entry function).module.entryPoints[i]? =
        some (if entry = i then { e with function } else e) := by
      show (s.module.entryPoints.modify entry _)[i]? = _
      rw [Array.getElem?_modify, he]
      split <;> rfl
    refine ⟨_, hget, ?_, ?_, ?_⟩
    · split <;> rfl
    · split <;> exact .refl _
    · intro key n _ hn
      split at hn <;> exact hn

theorem Step.retains (h : s.Step asm k inst s') : s.Retains s' := by
  cases h with
  | within _ hwidens => exact hwidens.retains
  | begins _ _ stage _ hopens =>
    obtain ⟨ns, t, hwidens, -, -, rfl⟩ := hopens
    exact hwidens.retains.trans (t.retains_opened stage ns)
  | ends _ o _ hcloses =>
    obtain ⟨t, function, hwidens, -, rfl, -⟩ := hcloses
    exact hwidens.retains.trans (t.retains_closed o.entry function)

end Lowering

/-! ## What an instruction has listed -/

/-- **What the entry point `e` of the section `o` lists on account of the instruction at position
    `j`.** -/
structure Lowering.Covers (s : Lowering) (asm : Assembler) (o : OpenStage) (e : EntryPoint)
    (j : Nat) (inst : Instruction) : Prop where
  /-- The variable that a built-in is read through is missing if an earlier section reads it too. -/
  builtIn : ∀ {b}, builtInRead? (some o.stage) inst = some b → ∃ n,
    n = ((builtInPlace o.stage b).run (stateAt asm j)).1.pointer ∧ s.builtIns.get? (o.stage, b) = some n ∧
      e.interface.count n = if readEarlier asm o b then 0 else 1
  member : ∀ {index}, memberRead? (some o.stage) inst = some index → ∃ n, s.perVertex = some n ∧
    e.interface.count n = 1
  /-- The id of a declared variable is what the id of the instruction stands for behind it. -/
  declared : isInterfaceVar inst = true → ∃ n, (stateAt asm (j + 1)).ids.get? inst.id = some n ∧
    s.module.HasVariable (interfaceStorage inst) n ∧ n ∈ e.interface ∧ (SingleIds asm → e.interface.count n = 1)
  output : inst.opcode = .stageEnd → writesResult asm inst o.stage → ∃ n, s.output? o.stage = some n ∧
    e.interface.count n = 1

theorem mem_of_count {l : List ModuleId} (h : l.count n = 1) : n ∈ l := List.count_pos_iff.mp (by omega)

theorem Lowering.Covers.retains {s s' : Lowering} (h : s.Covers asm o e j inst) (hr : s.Retains s')
    (hc : e.Continues s.builtIns e') : s'.Covers asm o e' j inst where
  builtIn hb := by
    obtain ⟨n, hplace, hn, hcount⟩ := h.builtIn hb
    exact ⟨n, hplace, hr.builtIns hn, (hc.count_of_known hn).trans hcount⟩
  member hm := by
    obtain ⟨n, hn, hcount⟩ := h.member hm
    exact ⟨n, hr.perVertex hn, (hc.count_of_mem (mem_of_count hcount)).trans hcount⟩
  declared hvar := by
    obtain ⟨n, hid, hvariable, hmem, hcount⟩ := h.declared hvar
    exact ⟨n, hid, hr.hasVariable hvariable, hc.listed.mem hmem,
      fun hsingle => (hc.count_of_mem hmem).trans (hcount hsingle)⟩
  output hop hwrites := by
    obtain ⟨n, hn, hcount⟩ := h.output hop hwrites
    exact ⟨n, hr.output hn, (hc.count_of_mem (mem_of_count hcount)).trans hcount⟩

theorem Lowering.owns_of_output (h : s.output? stage = some n) : s.Owns n := by
  cases stage with
  | vertex => exact .inr (.inl h)
  | fragment => exact .inr (.inr h)
  | _ => cases h

theorem Lowering.Numbered.output {Awaits : ResultId → Prop} (hs : s.Numbered Awaits)
    (h : s.output? stage = some n) : s.module.HasVariable .output n := by
  cases stage with
  | vertex => exact hs.perVertex h
  | fragment => exact hs.fragColor h
  | _ => cases h

theorem Lowering.Tracks.count_eq_one (h : s.Tracks asm o e ns) (hn : s.Owns n)
    (hmem : n ∈ e.interface) : e.interface.count n = 1 := by
  rw [h.count_of_owns hn, if_pos hmem]

/-- **Between the markers of a stage** everything that is needed is listed, unless it was needed
    before. -/
theorem covers_within (hinst : asm.code[j]? = some inst) (hop : ¬ movesStage inst.opcode)
    (ho : (stateAt asm (j + 1)).stage = some o)
    (hprovides : (stateAt asm j).Provides o inst (stateAt asm (j + 1)))
    (htracks : (stateAt asm (j + 1)).Tracks asm o e ns)
    (hawaits : SingleIds asm → (stateAt asm j).Awaits asm j ns) :
    (stateAt asm (j + 1)).Covers asm o e j inst where
  builtIn {b} hb := by
    have hn := hprovides.builtIn hb
    refine ⟨_, rfl, hn, ?_⟩
    rw [htracks.count_of_owns (.inl ⟨_, hn⟩)]
    simp only [htracks.builtIns hn]
    cases readEarlier asm o b <;> rfl
  member hm := by
    obtain ⟨n, hn, hlisted⟩ := hprovides.member hm
    exact ⟨n, hn, htracks.count_eq_one (.inr (.inl hn)) (hlisted ho htracks.found)⟩
  declared hvar := by
    have hend : inst.opcode ≠ .stageEnd := fun h => hop (.inr h)
    have hopcode : inst.opcode = .inputVar ∨ inst.opcode = .outputVar := by
      simpa [isInterfaceVar] using hvar
    obtain ⟨n, hid, hsame, hvariable, hlisted⟩ := hprovides.declared hopcode
    refine ⟨n, hid, hvariable, hlisted ho htracks.found, fun hsingle => ?_⟩
    -- The variable was listed when the stage was opened, under the id that it has now.
    have hmem : inst.id ∈ interfaceFrom asm j := by
      rw [interfaceFrom_eq hinst hend, if_pos hvar]
      exact List.mem_append_left _ List.mem_cons_self
    obtain ⟨m, hm, hidm⟩ := (hawaits hsingle).mem hmem
    cases hsame hidm
    rw [htracks.listed.count_of_mem hm]
    rw [(hawaits hsingle).nodup.count, if_pos hm]
  output h := absurd (.inr h) hop

/-- **At the marker that closes a stage** the output is listed. -/
theorem covers_closed {t : Lowering} {function : ModuleId} (hop : inst.opcode = .stageEnd)
    (ho : t.stage = some o) (htracks : t.Tracks asm o e ns)
    (houtput : writesResult asm inst o.stage → t.HasOutput o.stage) :
    (t.closed o.entry function).Covers asm o { e with function } j inst where
  builtIn hb := absurd hb (Lowering.Records.not_readsOf (.inr hop))
  member hm := by
    simp [memberRead?, hop] at hm
  declared hvar := by
    simp [isInterfaceVar, hop] at hvar
  output _ hwrites := by
    obtain ⟨n, hn, hlisted⟩ := houtput hwrites
    exact ⟨n, hn, htracks.count_eq_one (Lowering.owns_of_output hn) (hlisted ho htracks.found)⟩

theorem exists_covers_succ (h : (stateAt asm j).Records asm j) (hinst : asm.code[j]? = some inst)
    (hstep : (stateAt asm j).Step asm j inst (stateAt asm (j + 1)))
    (ho : sectionAt asm j = some o) :
    ∃ e, (stateAt asm (j + 1)).module.entryPoints[o.entry]? = some e ∧
      e.model = o.stage.executionModel ∧ (stateAt asm (j + 1)).Covers asm o e j inst := by
  have hopen : (stateAt asm j).stage = some o := h.stage.trans ho
  obtain ⟨e, ns, htracks, hawaits⟩ := h.entry hopen
  cases hstep with
  | within hop hw _ hprovides =>
    obtain ⟨e', htracks'⟩ := htracks.widens hw hopen (h.readEarlier_noted hopen)
    exact ⟨e', htracks'.found, htracks'.model,
      covers_within hinst hop (hw.stage.trans hopen) (hprovides hopen) htracks' hawaits⟩
  | begins _ hnone =>
    rw [hopen] at hnone
    cases hnone
  | ends hop o' ho' hcloses =>
    obtain ⟨t, function, hw, -, hs', houtput⟩ := hcloses
    cases hopen.symm.trans ho'
    obtain ⟨e', htracks'⟩ := htracks.widens hw hopen (h.readEarlier_noted hopen)
    rw [hs']
    refine ⟨{ e' with function }, ?_, htracks'.model, covers_closed hop (hw.stage.trans hopen) htracks' houtput⟩
    show (t.module.entryPoints.modify o.entry _)[o.entry]? = _
    rw [Array.getElem?_modify, if_pos rfl, htracks'.found, Option.map_some]

/-! ## Up to the end of the stream -/

/-- **Every position of a clean run** has its records, and lowering gets there from any position
    before it. -/
theorem records_stateAt (hk : k ≤ asm.code.size) (h : (stateAt asm k).problems = #[]) :
    (stateAt asm k).Records asm k := by
  induction k with
  | zero => exact .empty asm
  | succ k ih =>
    have hinst : asm.code[k]? = some asm.code[k] := Array.getElem?_eq_getElem hk
    have hrecords := ih (Nat.le_of_succ_le hk) (problems_stateAt (Nat.le_succ k) h)
    rw [stateAt_succ hinst] at h ⊢
    exact hrecords.step hinst (step_lowerInstruction hrecords.numbered hinst h)

theorem step_stateAt (hinst : asm.code[k]? = some inst) (h : (stateAt asm (k + 1)).problems = #[]) :
    (stateAt asm k).Step asm k inst (stateAt asm (k + 1)) := by
  have hk : k < asm.code.size := Assembler.lt_size_code hinst
  have hrecords := records_stateAt (Nat.le_of_lt hk) (problems_stateAt (Nat.le_succ k) h)
  rw [stateAt_succ hinst] at h ⊢
  exact step_lowerInstruction hrecords.numbered hinst h

theorem retains_stateAt (hjk : j ≤ k) (hk : k ≤ asm.code.size)
    (h : (stateAt asm k).problems = #[]) :
    (stateAt asm j).Retains (stateAt asm k) := by
  induction k with
  | zero =>
    cases Nat.le_zero.mp hjk
    exact .refl _
  | succ k ih =>
    rcases Nat.le_succ_iff.mp hjk with hle | rfl
    · have hstep := step_stateAt (Array.getElem?_eq_getElem hk) h
      exact (ih hle (Nat.le_of_succ_le hk) (problems_stateAt (Nat.le_succ k) h)).trans hstep.retains
    · exact .refl _

theorem sectionAt_of_size_le (h : asm.code.size ≤ k) :
    sectionAt asm k = sectionAt asm asm.code.size := by
  induction h with
  | refl => rfl
  | step h ih =>
    rw [sectionAt, Array.getElem?_eq_none h]
    exact ih

theorem widens_lowerAll (hfatal : (lowerAll asm).2 = none) {Awaits : ResultId → Prop}
    (hs : (stateAt asm asm.code.size).Numbered Awaits) :
    (stateAt asm asm.code.size).Widens .void (fun _ _ => False) (lowerAll asm).1 ∧
      (lowerAll asm).1.Numbered fun _ => False := by
  have hop : ¬ movesInterface ({ opcode := .functionEnd } : Instruction).opcode := by
    simp [movesInterface, movesStage]
  have R : Rules asm (widening (fun _ => False) .void fun _ _ => False) _ _ { opcode := .functionEnd } :=
    rules_widening hop fun h => h
  obtain ⟨hwidens, hnumbered, -⟩ :=
    (R.keeps_closeAll rfl).bind (fun _ => R.keeps_writeNames) _ (hs.mono fun _ h => h.elim)
  rw [lowerAll_of_snd_eq_none hfatal]
  exact ⟨hwidens, hnumbered⟩

/-- **The entry points of a clean run**: every section has one, and it covers the instructions of
    the section. -/
theorem exists_covers (hfatal : (lowerAll asm).2 = none)
    (hproblems : (lowerAll asm).1.problems = #[]) (ho : sectionAt asm k = some o) :
    ∃ e, (lowerAll asm).1.module.entryPoints[o.entry]? = some e ∧ e.model = o.stage.executionModel ∧
      ∀ {j inst}, asm.code[j]? = some inst → sectionAt asm j = some o →
        (lowerAll asm).1.Covers asm o e j inst := by
  have hend := problems_stateAt_of_lowerAll (Nat.le_refl _) hfatal hproblems
  have hrecords := records_stateAt (Nat.le_refl _) hend
  have hlast := (widens_lowerAll hfatal hrecords.numbered).1.retains
  have hretains : ∀ {i}, i ≤ asm.code.size → (stateAt asm i).Retains (lowerAll asm).1 :=
    fun hi => (retains_stateAt hi (Nat.le_refl _) hend).trans hlast
  -- The section is open somewhere in front of the end, and there it has an entry point.
  obtain ⟨i, hi, hoi⟩ : ∃ i, i ≤ asm.code.size ∧ sectionAt asm i = some o := by
    rcases Nat.le_total k asm.code.size with hk | hk
    · exact ⟨k, hk, ho⟩
    · exact ⟨_, Nat.le_refl _, (sectionAt_of_size_le hk).symm.trans ho⟩
  have hrecordsi := records_stateAt hi (problems_stateAt hi hend)
  obtain ⟨e0, ns, htracks, -⟩ := hrecordsi.entry (hrecordsi.stage.trans hoi)
  obtain ⟨e, he, hc⟩ := (hretains hi).entries htracks.found
  refine ⟨e, he, hc.model.trans htracks.model, fun {j inst} hinst hoj => ?_⟩
  have hj : j < asm.code.size := Assembler.lt_size_code hinst
  have hproblemsj := problems_stateAt (Nat.succ_le_of_lt hj) hend
  have hrecordsj := records_stateAt (Nat.le_of_lt hj) (problems_stateAt (Nat.le_of_lt hj) hend)
  obtain ⟨e1, he1, -, hcovers⟩ := exists_covers_succ hrecordsj hinst (step_stateAt hinst hproblemsj) hoj
  have hretainsj := hretains (Nat.succ_le_of_lt hj)
  obtain ⟨e2, he2, hc2⟩ := hretainsj.entries he1
  cases he.symm.trans he2
  exact hcovers.retains hretainsj hc2

/-! ## Complete interfaces -/

/-- The variables that the entry point of the section `o` has to list. -/
inductive Lowering.Requires (s : Lowering) (asm : Assembler) (o : OpenStage) : ModuleId → Prop
  | builtIn {j : Nat} {inst : Instruction} {b : BuiltIn} {n : ModuleId} (hinst : asm.code[j]? = some inst)
      (ho : sectionAt asm j = some o) (hreads : builtInRead? (some o.stage) inst = some b)
      (hn : s.builtIns.get? (o.stage, b) = some n) : Requires s asm o n
  | member {j : Nat} {inst : Instruction} {index : UInt32} {n : ModuleId} (hinst : asm.code[j]? = some inst)
      (ho : sectionAt asm j = some o) (hreads : memberRead? (some o.stage) inst = some index)
      (hn : s.perVertex = some n) : Requires s asm o n
  | declared {j : Nat} {inst : Instruction} {n : ModuleId} (hinst : asm.code[j]? = some inst)
      (ho : sectionAt asm j = some o) (hvar : isInterfaceVar inst = true)
      (hn : (stateAt asm (j + 1)).ids.get? inst.id = some n) : Requires s asm o n
  | output {j : Nat} {inst : Instruction} {n : ModuleId} (hinst : asm.code[j]? = some inst)
      (ho : sectionAt asm j = some o) (hop : inst.opcode = .stageEnd) (hwrites : writesResult asm inst o.stage)
      (hn : s.output? o.stage = some n) : Requires s asm o n

theorem complete_iff_of_covers (hsingle : SingleIds asm)
    (hcovers : ∀ {j inst}, asm.code[j]? = some inst → sectionAt asm j = some o →
      s.Covers asm o e j inst) :
    (∀ n, s.Requires asm o n → e.interface.count n = 1) ↔
      ∀ {j inst b}, asm.code[j]? = some inst → sectionAt asm j = some o →
        builtInRead? (some o.stage) inst = some b → readEarlier asm o b = false := by
  constructor
  · intro hall j inst b hinst ho hreads
    obtain ⟨n, -, hn, hcount⟩ := (hcovers hinst ho).builtIn hreads
    rw [hall n (.builtIn hinst ho hreads hn)] at hcount
    cases hread : readEarlier asm o b with
    | false => rfl
    | true =>
      rw [hread] at hcount
      cases hcount
  · intro hfirst n hn
    cases hn with
    | builtIn hinst ho hreads hn =>
      obtain ⟨m, -, hm, hcount⟩ := (hcovers hinst ho).builtIn hreads
      cases hn.symm.trans hm
      rw [hcount, hfirst hinst ho hreads]
      rfl
    | member hinst ho hreads hn =>
      obtain ⟨m, hm, hcount⟩ := (hcovers hinst ho).member hreads
      cases hn.symm.trans hm
      exact hcount
    | declared hinst ho hvar hn =>
      obtain ⟨m, hm, -, -, hcount⟩ := (hcovers hinst ho).declared hvar
      cases hn.symm.trans hm
      exact hcount hsingle
    | output hinst ho hop hwrites hn =>
      obtain ⟨m, hm, hcount⟩ := (hcovers hinst ho).output hop hwrites
      cases hn.symm.trans hm
      exact hcount

theorem inst_mem_instructions {m : Module} (hfits : m.oversizedEntryPoints = [])
    (he : m.entryPoints[k]? = some e) : e.inst ∈ m.instructions := by
  have hmem : e.inst ∈ m.entryPoints.toList.map (·.inst) :=
    List.mem_map_of_mem (List.mem_of_getElem? (Array.getElem?_toList ▸ he))
  have hwritten : e.inst ∈ (m.entryPoints.toList.map (·.inst)).filter (·.fits) := by
    refine List.mem_filter.mpr ⟨hmem, Classical.byContradiction fun hnot => ?_⟩
    have hnone := List.filterMap_eq_nil_iff.mp hfits e.inst hmem
    rw [if_neg hnot] at hnone
    cases hnone
  simp only [instructions, preamble, List.mem_append]
  simp only [hwritten, or_true, true_or]

/-- **Which variables an entry point lists.**  In a clean emission every section has an entry point
    of its kind. It lists, once, what its instructions declare, the vertex output block and the
    output; the variable behind a built-in is listed only if no earlier section of the same kind
    reads it. So the interface is complete if and only if no built-in of the section was read
    before. -/
theorem interface_complete_iff {major minor : UInt8} {r : Emission}
    (h : emitModule asm major minor = .ok r) (hclean : r.isClean = true)
    (ho : sectionAt asm k = some o) :
    let s := (lowerAll asm).1
    ∃ e, s.module.entryPoints[o.entry]? = some e ∧ e.inst ∈ s.module.instructions ∧
      e.model = o.stage.executionModel ∧
      (∀ {j inst}, asm.code[j]? = some inst → sectionAt asm j = some o → s.Covers asm o e j inst) ∧
      (∀ {b n}, s.builtIns.get? (o.stage, b) = some n →
        s.module.HasVariable b.info.storage n ∧ s.module.MarksBuiltIn b n) ∧
      (∀ {n}, s.output? o.stage = some n → s.module.HasVariable .output n) ∧
      (SingleIds asm → ((∀ n, s.Requires asm o n → e.interface.count n = 1) ↔
        ∀ {j inst b}, asm.code[j]? = some inst → sectionAt asm j = some o →
          builtInRead? (some o.stage) inst = some b → readEarlier asm o b = false)) := by
  intro s
  obtain ⟨hfatal, hproblems, -, hfits⟩ := (isClean_iff h).mp hclean
  obtain ⟨e, he, hmodel, hcovers⟩ := exists_covers hfatal hproblems ho
  have hrecords := records_stateAt (Nat.le_refl _) (problems_stateAt_of_lowerAll (Nat.le_refl _) hfatal hproblems)
  have hnumbered := (widens_lowerAll hfatal hrecords.numbered).2
  exact ⟨e, he, inst_mem_instructions hfits he, hmodel, hcovers, hnumbered.builtIns,
    hnumbered.output, fun hsingle => complete_iff_of_covers hsingle hcovers⟩

def twinStagesRun : List Operation :=
  [.pushType { opcode := .voidType }, .pushType { opcode := .uintType, operands := ⟨32, 0, 0⟩ },
    .pushNew { opcode := .stageBegin }, .pushNew { opcode := .function, refs := ⟨⟨1⟩, .void, .void⟩ },
    .pushNew { opcode := .invokePos, resultType := ⟨2⟩ },
    .push { opcode := .functionEnd, refs := ⟨⟨4⟩, .void, .void⟩ },
    .push { opcode := .stageEnd, operands := ⟨1, 1, 1⟩, refs := ⟨⟨4⟩, .void, .void⟩ },
    .pushNew { opcode := .stageBegin }, .pushNew { opcode := .function, refs := ⟨⟨1⟩, .void, .void⟩ },
    .pushNew { opcode := .invokePos, resultType := ⟨2⟩ },
    .push { opcode := .functionEnd, refs := ⟨⟨7⟩, .void, .void⟩ },
    .push { opcode := .stageEnd, operands := ⟨1, 1, 1⟩, refs := ⟨⟨7⟩, .void, .void⟩ }]

/-- The second stage reads the position through a variable that its entry point does not list. -/
theorem interface_incomplete_twinStagesRun :
    ∃ r e n, emitModule (runAll twinStagesRun) 1 5 = .ok r ∧ r.isClean = true ∧
      (lowerAll (runAll twinStagesRun)).1.module.entryPoints[1]? = some e ∧
      (lowerAll (runAll twinStagesRun)).1.builtIns.get? (.compute, .globalInvocationId) = some n ∧
      e.interface.count n = 0 := by
  have hrun : (emitModule (runAll twinStagesRun) 1 5).toOption.map (·.isClean) = some true := by
    decide +kernel
  have hinst : (runAll twinStagesRun).code[9]? = some { opcode := .invokePos, id := ⟨8⟩, resultType := ⟨2⟩ } := by
    decide +kernel
  have ho : sectionAt (runAll twinStagesRun) 9 = some { stage := .compute, entry := 1 } := by
    decide +kernel
  have hearlier : readEarlier (runAll twinStagesRun) { stage := .compute, entry := 1 } .globalInvocationId
      = true := by
    decide +kernel
  obtain ⟨r, h, hclean⟩ := exists_emission hrun
  obtain ⟨e, he, -, -, hcovers, -⟩ := interface_complete_iff h hclean ho
  obtain ⟨n, -, hn, hcount⟩ := (hcovers hinst ho).builtIn rfl
  rw [hearlier] at hcount
  exact ⟨r, e, n, h, hclean, he, hn, hcount⟩

end ShaderIR.Spirv
