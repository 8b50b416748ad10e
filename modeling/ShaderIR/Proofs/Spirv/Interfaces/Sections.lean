import ShaderIR.Proofs.Spirv.Interfaces.Stages
import ShaderIR.Proofs.Spirv.Literals

/-!
# The sections of a stream and its entry points

In a clean run each stage of the stream has an entry point of its own.  Which variables behind
built-ins it lists follows from the stream alone: those that no earlier section of the same kind of
stage reads.
-/

namespace ShaderIR.Spirv

open Discipline Spirv.Module

variable {asm : Assembler} {inst : Instruction} {i j k : Nat} {stage : ShaderStage}

/-! ## Sections -/

def stagesBefore (asm : Assembler) (i : Nat) : Nat :=
  (asm.code.toList.take i).countP (·.opcode == .stageBegin)

/-- The stage that is open in front of position `i`: its kind, and how many stages begin before it.
    -/
def sectionAt (asm : Assembler) : Nat → Option OpenStage
  | 0 => none
  | i + 1 =>
    match asm.code[i]? with
    | none => sectionAt asm i
    | some inst =>
      if inst.opcode = .stageBegin then
        (ShaderStage.ofCode? inst.operands.fst.toNat).map fun stage => { stage, entry := stagesBefore asm i }
      else if inst.opcode = .stageEnd then none
      else sectionAt asm i

theorem stagesBefore_succ (h : asm.code[i]? = some inst) :
    stagesBefore asm (i + 1) = stagesBefore asm i + if inst.opcode = .stageBegin then 1 else 0 := by
  unfold stagesBefore
  rw [List.take_add_one, Array.getElem?_toList, h, List.countP_append]
  simp [List.countP_singleton]

theorem stagesBefore_succ_of_none (h : asm.code[i]? = none) :
    stagesBefore asm (i + 1) = stagesBefore asm i := by
  unfold stagesBefore
  rw [List.take_add_one, Array.getElem?_toList, h, Option.toList_none, List.append_nil]

theorem stagesBefore_mono (asm : Assembler) (h : i ≤ j) : stagesBefore asm i ≤ stagesBefore asm j :=
  (List.take_sublist_take_left h).countP_le

theorem sectionAt_begin (h : asm.code[i]? = some inst) (hop : inst.opcode = .stageBegin) :
    sectionAt asm (i + 1) =
      (ShaderStage.ofCode? inst.operands.fst.toNat).map fun stage =>
        { stage, entry := stagesBefore asm i } := by
  simp only [sectionAt, h, if_pos hop]

theorem sectionAt_end (h : asm.code[i]? = some inst) (hop : inst.opcode = .stageEnd) :
    sectionAt asm (i + 1) = none := by
  simp [sectionAt, h, hop]

theorem sectionAt_within (h : asm.code[i]? = some inst) (hop : ¬ movesStage inst.opcode) :
    sectionAt asm (i + 1) = sectionAt asm i := by
  have hbegin : inst.opcode ≠ .stageBegin := fun h => hop (.inl h)
  have hend : inst.opcode ≠ .stageEnd := fun h => hop (.inr h)
  simp only [sectionAt, h, if_neg hbegin, if_neg hend]

theorem entry_of_sectionAt {o : OpenStage} (h : sectionAt asm i = some o) :
    o.entry + 1 = stagesBefore asm i := by
  induction i with
  | zero => cases h
  | succ i ih =>
    cases hinst : asm.code[i]? with
    | none =>
      simp only [sectionAt, hinst] at h
      rw [stagesBefore_succ_of_none hinst]
      exact ih h
    | some inst =>
      rw [stagesBefore_succ hinst]
      by_cases hbegin : inst.opcode = .stageBegin
      · rw [sectionAt_begin hinst hbegin] at h
        obtain ⟨stage, -, rfl⟩ := Option.map_eq_some_iff.mp h
        rw [if_pos hbegin]
      · by_cases hend : inst.opcode = .stageEnd
        · rw [sectionAt_end hinst hend] at h
          cases h
        · rw [sectionAt_within hinst (not_or.mpr ⟨hbegin, hend⟩)] at h
          rw [if_neg hbegin, Nat.add_zero]
          exact ih h

/-- The built-in `b` is read at position `j`, in a stage of the given kind. -/
def readsBuiltIn (asm : Assembler) (stage : ShaderStage) (b : BuiltIn) (j : Nat) : Bool :=
  (sectionAt asm j).any (·.stage == stage) && asm.code[j]?.any fun inst => builtInRead? (some stage) inst == some b

/-- Whether a section in front of `o`, and of the same kind of stage, reads the built-in `b`. -/
def readEarlier (asm : Assembler) (o : OpenStage) (b : BuiltIn) : Bool :=
  (List.range asm.code.size).any fun j => readsBuiltIn asm o.stage b j && (sectionAt asm j).any (·.entry < o.entry)

theorem readsBuiltIn_iff {b : BuiltIn} :
    readsBuiltIn asm stage b j = true ↔ ∃ inst o,
      asm.code[j]? = some inst ∧ sectionAt asm j = some o ∧
      o.stage = stage ∧ builtInRead? (some stage) inst = some b := by
  unfold readsBuiltIn
  rw [Bool.and_eq_true, Option.any_eq_true, Option.any_eq_true]
  constructor
  · rintro ⟨⟨o, ho, hstage⟩, inst, hinst, hreads⟩
    exact ⟨inst, o, hinst, ho, eq_of_beq hstage, eq_of_beq hreads⟩
  · rintro ⟨inst, o, hinst, ho, rfl, hreads⟩
    exact ⟨⟨o, ho, beq_self_eq_true _⟩, inst, hinst, beq_iff_eq.mpr hreads⟩

theorem readEarlier_of_reads {o : OpenStage} {b : BuiltIn}
    (hreads : readsBuiltIn asm o.stage b j = true) (hj : stagesBefore asm j ≤ o.entry) :
    readEarlier asm o b = true := by
  obtain ⟨inst, o', hinst, ho', -⟩ := readsBuiltIn_iff.mp hreads
  have hsize : j < asm.code.size := Assembler.lt_size_code hinst
  have hentry : o'.entry < o.entry := by
    rw [← entry_of_sectionAt ho'] at hj
    exact hj
  refine List.any_eq_true.mpr ⟨j, List.mem_range.mpr hsize, ?_⟩
  rw [hreads, ho', Option.any_some, Bool.true_and, decide_eq_true hentry]

theorem exists_reads_of_readEarlier {o : OpenStage} {b : BuiltIn} (ho : sectionAt asm k = some o)
    (h : readEarlier asm o b = true) : ∃ j < k, readsBuiltIn asm o.stage b j = true := by
  obtain ⟨j, -, hj⟩ := List.any_eq_true.mp h
  obtain ⟨hreads, hentry⟩ := Bool.and_eq_true_iff.mp hj
  obtain ⟨o', ho', hlt⟩ := (Option.any_eq_true ..).mp hentry
  refine ⟨j, Nat.lt_of_not_le fun hle => ?_, hreads⟩
  have hmono := stagesBefore_mono asm hle
  rw [← entry_of_sectionAt ho, ← entry_of_sectionAt ho'] at hmono
  have hlt' : o'.entry < o.entry := of_decide_eq_true hlt
  omega

/-! ## Interface variables that follow -/

theorem interfaceFrom_eq (h : asm.code[k]? = some inst) (hop : inst.opcode ≠ .stageEnd) :
    interfaceFrom asm k = (if isInterfaceVar inst then [inst.id] else []) ++
      interfaceFrom asm (k + 1) := by
  rw [← Array.getElem?_toList] at h
  obtain ⟨hlt, hget⟩ := List.getElem?_eq_some_iff.mp h
  have hop' : (inst.opcode != .stageEnd) = true := bne_iff_ne.mpr hop
  simp only [interfaceFrom, List.drop_eq_getElem_cons hlt, hget, List.takeWhile_cons, hop', if_true,
    List.filter_cons]
  split <;> rfl

theorem exists_of_mem_interfaceFrom {y : ResultId} (hy : y ∈ interfaceFrom asm k) :
    ∃ j inst, k ≤ j ∧ asm.code[j]? = some inst ∧ isInterfaceVar inst = true ∧ inst.id = y := by
  obtain ⟨inst, hmem, rfl⟩ := List.mem_map.mp hy
  obtain ⟨hmem, hvar⟩ := List.mem_filter.mp hmem
  obtain ⟨j, hj⟩ := List.getElem?_of_mem (List.takeWhile_subset _ hmem)
  rw [List.getElem?_drop, Array.getElem?_toList] at hj
  exact ⟨k + j, inst, Nat.le_add_right k j, hj, hvar, rfl⟩

/-- Ids are defined once, and interface variables have ids. -/
structure SingleIds (asm : Assembler) : Prop where
  single : asm.SinglyDefined
  named : ∀ inst ∈ asm.code.toList, isInterfaceVar inst = true → inst.id.isVoid = false

theorem SingleIds.definesAt (h : SingleIds asm) (hinst : asm.code[j]? = some inst)
    (hvar : isInterfaceVar inst = true) :
    asm.DefinesAt j inst.id := by
  refine ⟨?_, inst, hinst, rfl⟩
  have hvoid := h.named inst (Assembler.mem_code hinst) hvar
  simpa [ResultId.isVoid] using hvoid

theorem SingleIds.nodup_interfaceFrom (h : SingleIds asm) (k : Nat) :
    (interfaceFrom asm k).Nodup := by
  have hcode : asm.code.toList.Pairwise fun a b =>
      isInterfaceVar a = true → isInterfaceVar b = true → a.id ≠ b.id := by
    refine List.pairwise_iff_getElem.mpr fun i j hi hj hij ha hb heq => ?_
    have hdefi : asm.DefinesAt i _ := h.definesAt (Array.getElem?_toList ▸ List.getElem?_eq_getElem hi) ha
    have hdefj : asm.DefinesAt j _ := h.definesAt (Array.getElem?_toList ▸ List.getElem?_eq_getElem hj) hb
    exact Nat.ne_of_lt hij (h.single i j _ hdefi (heq ▸ hdefj))
  refine List.pairwise_map.mpr (List.pairwise_filter.mpr ?_)
  exact hcode.sublist ((List.takeWhile_sublist _).trans (List.drop_sublist k _))

/-! ## Steps -/

/-- The ids that no instruction in front of position `k` defines. -/
def Pending (asm : Assembler) (k : Nat) (y : ResultId) : Prop :=
  y.isVoid = false ∧ ∀ j < k, ¬ asm.DefinesAt j y

theorem Pending.of_succ {y : ResultId} (h : Pending asm (k + 1) y) : Pending asm k y :=
  ⟨h.1, fun j hj => h.2 j (Nat.lt_succ_of_lt hj)⟩

theorem not_pending_succ (h : asm.code[k]? = some inst) : ¬ Pending asm (k + 1) inst.id := by
  rintro ⟨hvoid, hundefined⟩
  refine hundefined k (Nat.lt_succ_self k) ⟨?_, inst, h, rfl⟩
  simpa [ResultId.isVoid] using hvoid

/-- The built-ins that an instruction reads, by the stage that it stands in. -/
def readsOf (inst : Instruction) (stage : ShaderStage) (b : BuiltIn) : Prop :=
  builtInRead? (some stage) inst = some b

/-- **What lowering the instruction at position `k` can do**, as long as no problem is recorded. -/
inductive Lowering.Step (asm : Assembler) (k : Nat) (inst : Instruction) (s s' : Lowering) : Prop
  | within (hop : ¬ movesStage inst.opcode) (hwidens : s.Widens inst.id (readsOf inst) s')
      (hnumbered : s'.Numbered (Pending asm (k + 1))) (hprovides : ∀ {o}, s.stage = some o → s.Provides o inst s')
  | begins (hop : inst.opcode = .stageBegin) (hnone : s.stage = none) (stage : ShaderStage)
      (hstage : ShaderStage.ofCode? inst.operands.fst.toNat = some stage)
      (hopens : s.Opens (Pending asm (k + 1)) inst.id (readsOf inst) (interfaceFrom asm (k + 1)) stage s')
  | ends (hop : inst.opcode = .stageEnd) (o : OpenStage) (ho : s.stage = some o)
      (hcloses : s.Closes (Pending asm (k + 1)) inst.id (readsOf inst) o (writesResult asm inst o.stage) s')

theorem step_lowerInstruction {s : Lowering} (hs : s.Numbered (Pending asm k))
    (h : asm.code[k]? = some inst) (hclean : (lowerInstruction asm k inst s).problems = #[]) :
    s.Step asm k inst (lowerInstruction asm k inst s) := by
  have hs' : s.Numbered (Pending asm (k + 1)) := hs.mono fun y hy => hy.of_succ
  by_cases hbegin : inst.opcode = .stageBegin
  · have hattempt : attempt asm k inst = beginStage asm k inst := by rw [attempt, hbegin]
    unfold lowerInstruction at hclean ⊢
    rw [hattempt] at hclean ⊢
    obtain ⟨hnone, stage, hstage, hopens⟩ := (runs_beginStage hs' k trivial).2.2 hclean
    exact .begins hbegin hnone stage hstage hopens
  by_cases hend : inst.opcode = .stageEnd
  · have hattempt : attempt asm k inst = endStage asm inst := by rw [attempt, hend]
    unfold lowerInstruction at hclean ⊢
    rw [hattempt] at hclean ⊢
    obtain ⟨o, ho, hcloses⟩ := (runs_endStage hs' trivial).2.2 hclean
    exact .ends hend o ho hcloses
  have hop : ¬ movesStage inst.opcode := not_or.mpr ⟨hbegin, hend⟩
  have hrun : (widening _ inst.id (readsOf inst)).Runs (attempt asm k inst).run s _ :=
    widening_attempt (not_pending_succ h) hop (fun h => h) k s
  obtain ⟨hwidens, hnumbered, hprovides⟩ := hrun hs'
  exact .within hop hwidens hnumbered (hprovides hclean)

theorem isLegalIn_of_stopsAt? {b : BuiltIn} (h : stopsAt? (some stage) inst = none)
    (hreads : readsOf inst stage b) :
    b.isLegalIn stage = true := by
  unfold stopsAt? at h
  split at h
  · cases h
  · unfold readsOf at hreads
    rw [hreads] at h
    by_contra hlegal
    cases h.symm.trans (if_neg hlegal)

/-- **The variables behind built-ins** that an instruction adds where lowering does not stop are
    those that its stage may read. -/
theorem isLegalIn_of_lowerInstruction {s : Lowering} (hs : s.Numbered (Pending asm k))
    (h : asm.code[k]? = some inst) (hop : ¬ movesStage inst.opcode)
    (hstops : stopsAt? (s.stage.map (·.stage)) inst = none) {key : ShaderStage × BuiltIn}
    {n : ModuleId} (hnone : s.builtIns.get? key = none)
    (hn : (lowerInstruction asm k inst s).builtIns.get? key = some n) :
    key.2.isLegalIn key.1 = true := by
  have hrun : (widening _ inst.id (readsOf inst)).Runs (attempt asm k inst).run s _ :=
    widening_attempt (not_pending_succ h) hop (fun h => h) k s
  obtain ⟨hwidens, -⟩ := hrun (hs.mono fun y hy => hy.of_succ)
  rcases hwidens.reads hn with hold | ⟨-, o, ho, hkey, hreads⟩
  · cases hnone.symm.trans hold
  · rw [ho, Option.map_some, ← hkey] at hstops
    exact isLegalIn_of_stopsAt? hstops hreads

/-! ## The entry point of the open stage -/

/-- What is known of the entry point `e` of the open stage `o`, which listed `ns` when it was
    opened. -/
structure Lowering.Tracks (s : Lowering) (asm : Assembler) (o : OpenStage) (e : EntryPoint)
    (ns : List ModuleId) :
    Prop where
  found : s.module.entryPoints[o.entry]? = some e
  model : e.model = o.stage.executionModel
  listed : Listed ns e.interface
  frees : ∀ n ∈ ns, s.Frees n
  builtIns : ∀ {b n}, s.builtIns.get? (o.stage, b) = some n → (n ∈ e.interface ↔ readEarlier asm o b = false)

namespace Lowering.Tracks

variable {s s' : Lowering} {o : OpenStage} {e : EntryPoint} {ns : List ModuleId} {n : ModuleId}

theorem count_of_owns (h : s.Tracks asm o e ns) (hn : s.Owns n) :
    e.interface.count n = if n ∈ e.interface then 1 else 0 :=
  h.listed.count_of_not_mem fun hmem => (h.frees n hmem).2 hn

/-- **Between the markers** the entry point lists what is read for the first time. -/
theorem widens {id : ResultId} {Reads : ShaderStage → BuiltIn → Prop} (h : s.Tracks asm o e ns)
    (hw : s.Widens id Reads s') (ho : s.stage = some o)
    (hearlier : ∀ {b}, readEarlier asm o b = true → ∃ n, s.builtIns.get? (o.stage, b) = some n) :
    ∃ e', s'.Tracks asm o e' ns := by
  obtain ⟨e', he', hlists⟩ := hw.entry ho h.found
  refine ⟨e', he', hlists.model.trans h.model, h.listed.trans hlists.listed,
    fun n hn => hw.frees (h.frees n hn), ?_⟩
  intro b n hn
  rcases hw.reads hn with hold | ⟨hnone, -⟩
  · rw [← h.builtIns hold]
    exact ⟨hlists.old hold, hlists.listed.mem⟩
  · refine iff_of_true (hlists.new hnone hn) ?_
    refine Bool.eq_false_iff.mpr fun hread => ?_
    obtain ⟨m, hm⟩ := hearlier hread
    rw [hnone] at hm
    cases hm

end Lowering.Tracks

/-- The interface variables from position `k` on stand for different ids, and these are among `ns`.
    -/
structure Lowering.Awaits (s : Lowering) (asm : Assembler) (k : Nat) (ns : List ModuleId) :
    Prop where
  nodup : ns.Nodup
  mem : ∀ {y}, y ∈ interfaceFrom asm k → ∃ n ∈ ns, s.ids.get? y = some n

theorem Lowering.Awaits.widens {s s' : Lowering} {ns : List ModuleId}
    {Reads : ShaderStage → BuiltIn → Prop} (h : s.Awaits asm k ns) (hw : s.Widens inst.id Reads s')
    (hsingle : SingleIds asm) (hinst : asm.code[k]? = some inst) (hop : inst.opcode ≠ .stageEnd) :
    s'.Awaits asm (k + 1) ns where
  nodup := h.nodup
  mem {y} hy := by
    obtain ⟨j, later, hj, hlater, hvar, rfl⟩ := exists_of_mem_interfaceFrom hy
    have hmem : later.id ∈ interfaceFrom asm k := by
      rw [interfaceFrom_eq hinst hop]
      exact List.mem_append_right _ hy
    obtain ⟨n, hn, hid⟩ := h.mem hmem
    refine ⟨n, hn, hw.ids (fun heq => ?_) hid⟩
    have hdef : asm.DefinesAt j later.id := hsingle.definesAt hlater hvar
    have hsame : j = k := hsingle.single j k _ hdef ⟨hdef.1, inst, hinst, heq.symm⟩
    omega

theorem Lowering.awaits_opened {t : Lowering} {ns : List ModuleId}
    (ht : t.Numbered (Pending asm k)) (hns : (interfaceFrom asm k).map t.ids.get? = ns.map some)
    (hsingle : SingleIds asm) : (t.opened stage ns).Awaits asm k ns where
  nodup := by
    have hpending : ∀ y ∈ interfaceFrom asm k, Pending asm k y := by
      intro y hy
      obtain ⟨j, inst, hj, hinst, hvar, rfl⟩ := exists_of_mem_interfaceFrom hy
      refine ⟨hsingle.named inst (Assembler.mem_code hinst) hvar, fun l hl hdef => ?_⟩
      have hsame : l = j := hsingle.single l j _ hdef (hsingle.definesAt hinst hvar)
      omega
    have hids : ((interfaceFrom asm k).map t.ids.get?).Nodup := by
      refine List.pairwise_map.mpr ((hsingle.nodup_interfaceFrom k).imp_of_mem fun {y z} hy hz hne heq => ?_)
      have hy' : t.ids.get? y ∈ ns.map some := hns ▸ List.mem_map_of_mem hy
      obtain ⟨n, -, hn⟩ := List.mem_map.mp hy'
      exact hne (ht.apart (hpending y hy) (hpending z hz) hn.symm (heq ▸ hn.symm))
    rw [hns] at hids
    exact (List.pairwise_map.mp hids).imp fun hne heq => hne (congrArg some heq)
  mem {y} hy := by
    have hmem : t.ids.get? y ∈ ns.map some := hns ▸ List.mem_map_of_mem hy
    obtain ⟨n, hn, heq⟩ := List.mem_map.mp hmem
    exact ⟨n, hn, heq.symm⟩

/-! ## Streams -/

/-- **What the state in front of position `k` records of the stream.** -/
structure Lowering.Records (s : Lowering) (asm : Assembler) (k : Nat) : Prop where
  numbered : s.Numbered (Pending asm k)
  stage : s.stage = sectionAt asm k
  size : s.module.entryPoints.size = stagesBefore asm k
  builtIns : ∀ {stage b}, (∃ n, s.builtIns.get? (stage, b) = some n) ↔ ∃ j < k, readsBuiltIn asm stage b j = true
  entry : ∀ {o}, s.stage = some o → ∃ e ns, s.Tracks asm o e ns ∧ (SingleIds asm → s.Awaits asm k ns)

namespace Lowering.Records

variable {s s' t : Lowering}

theorem empty (asm : Assembler) : Records {} asm 0 where
  numbered := by
    refine ⟨nofun, nofun, ?_, nofun, nofun, nofun, nofun, nofun⟩
    rintro n (⟨key, h⟩ | h | h) <;> cases h
  stage := rfl
  size := rfl
  builtIns := ⟨nofun, nofun⟩
  entry := nofun

theorem readEarlier_noted (h : s.Records asm k) {o : OpenStage} (ho : s.stage = some o)
    {b : BuiltIn} (hread : readEarlier asm o b = true) :
    ∃ n, s.builtIns.get? (o.stage, b) = some n :=
  h.builtIns.mpr (exists_reads_of_readEarlier (h.stage ▸ ho) hread)

theorem builtIns_widens (h : s.Records asm k) (hinst : asm.code[k]? = some inst)
    (hw : s.Widens inst.id (readsOf inst) t)
    (hserves : ∀ {o b}, s.stage = some o → readsOf inst o.stage b → ∃ n,
      t.builtIns.get? (o.stage, b) = some n) {b : BuiltIn} :
    (∃ n, t.builtIns.get? (stage, b) = some n) ↔ ∃ j < k + 1,
      readsBuiltIn asm stage b j = true := by
  constructor
  · rintro ⟨n, hn⟩
    rcases hw.reads hn with hold | ⟨-, o, ho, hkey, hreads⟩
    · obtain ⟨j, hj, hread⟩ := h.builtIns.mp ⟨n, hold⟩
      exact ⟨j, Nat.lt_succ_of_lt hj, hread⟩
    · exact ⟨k, Nat.lt_succ_self k, readsBuiltIn_iff.mpr ⟨inst, o, hinst, h.stage ▸ ho, hkey.symm, hreads⟩⟩
  · rintro ⟨j, hj, hread⟩
    rcases Nat.lt_succ_iff_lt_or_eq.mp hj with hlt | rfl
    · obtain ⟨n, hn⟩ := h.builtIns.mpr ⟨j, hlt, hread⟩
      exact ⟨n, hw.builtIns hn⟩
    · obtain ⟨inst', o, hinst', ho, rfl, hreads⟩ := readsBuiltIn_iff.mp hread
      rw [hinst] at hinst'
      cases hinst'
      exact hserves (h.stage.trans ho) hreads

theorem tracks_opened (h : s.Records asm k) {id : ResultId} {ys : List ResultId}
    {ns : List ModuleId} (hnone : s.stage = none) (hw : s.Widens id (readsOf inst) t)
    (ht : t.Numbered (Pending asm (k + 1))) (hns : ys.map t.ids.get? = ns.map some) :
    (t.opened stage ns).Tracks asm { stage, entry := t.module.entryPoints.size }
      { model := stage.executionModel, interface := ns } ns where
  found := Array.getElem?_push_size
  model := rfl
  listed := .refl ns
  frees n hn := by
    have hmem : some n ∈ ys.map t.ids.get? := hns ▸ List.mem_map_of_mem hn
    obtain ⟨y, -, hy⟩ := List.mem_map.mp hmem
    exact ht.ids hy
  builtIns {b n} hn := by
    have hmem : some n ∉ ys.map t.ids.get? := by
      intro hmem
      obtain ⟨y, -, hy⟩ := List.mem_map.mp hmem
      exact (ht.ids hy).2 (.inl ⟨_, hn⟩)
    have hread : readEarlier asm { stage, entry := t.module.entryPoints.size } b = true := by
      rcases hw.reads hn with hold | ⟨-, o, ho, -⟩
      · obtain ⟨j, hj, hreads⟩ := h.builtIns.mp ⟨n, hold⟩
        refine readEarlier_of_reads hreads ?_
        show stagesBefore asm j ≤ t.module.entryPoints.size
        rw [hw.size, h.size]
        exact stagesBefore_mono asm (Nat.le_of_lt hj)
      · rw [hnone] at ho
        cases ho
    refine iff_of_false (fun hn => hmem (hns ▸ List.mem_map_of_mem hn)) ?_
    rw [hread]
    nofun

theorem not_readsOf (hop : movesStage inst.opcode) {b : BuiltIn} : ¬ readsOf inst stage b := by
  unfold readsOf builtInRead?
  rcases hop with hop | hop <;> rw [hop] <;> nofun

theorem step (h : s.Records asm k) (hinst : asm.code[k]? = some inst)
    (hstep : s.Step asm k inst s') :
    s'.Records asm (k + 1) := by
  cases hstep with
  | within hop hw hnumbered hprovides =>
    have hend : inst.opcode ≠ .stageEnd := fun h => hop (.inr h)
    have hbegin : inst.opcode ≠ .stageBegin := fun h => hop (.inl h)
    refine ⟨hnumbered, ?_, ?_, h.builtIns_widens hinst hw fun ho hreads => ⟨_, (hprovides ho).builtIn hreads⟩, ?_⟩
    · rw [hw.stage, h.stage, sectionAt_within hinst hop]
    · rw [hw.size, h.size, stagesBefore_succ hinst, if_neg hbegin, Nat.add_zero]
    · intro o ho
      rw [hw.stage] at ho
      obtain ⟨e, ns, htracks, hawaits⟩ := h.entry ho
      obtain ⟨e', htracks'⟩ := htracks.widens hw ho (h.readEarlier_noted ho)
      exact ⟨e', ns, htracks', fun hsingle => (hawaits hsingle).widens hw hsingle hinst hend⟩
  | begins hop hnone stage hstage hopens =>
    obtain ⟨ns, t, hw, ht, hns, rfl⟩ := hopens
    refine ⟨{ ht with }, ?_, ?_, h.builtIns_widens hinst hw fun ho => ?_, ?_⟩
    · rw [sectionAt_begin hinst hop, hstage, Option.map_some, ← h.size, ← hw.size]
      rfl
    · rw [stagesBefore_succ hinst, if_pos hop, ← h.size, ← hw.size]
      exact Array.size_push _
    · rw [hnone] at ho
      cases ho
    · intro o ho
      cases ho
      exact ⟨_, ns, h.tracks_opened hnone hw ht hns, fun hsingle => awaits_opened ht hns hsingle⟩
  | ends hop o ho hcloses =>
    obtain ⟨t, function, hw, ht, rfl, -⟩ := hcloses
    have hbegin : inst.opcode ≠ .stageBegin := by
      rw [hop]
      nofun
    refine ⟨{ ht with }, ?_, ?_, h.builtIns_widens hinst hw fun _ hreads => ?_, nofun⟩
    · rw [sectionAt_end hinst hop]
      rfl
    · rw [stagesBefore_succ hinst, if_neg hbegin, Nat.add_zero, ← h.size, ← hw.size]
      exact Array.size_modify
    · exact absurd hreads (not_readsOf (.inr hop))

end Lowering.Records

end ShaderIR.Spirv
