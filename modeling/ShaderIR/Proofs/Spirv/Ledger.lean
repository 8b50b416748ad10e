import ShaderIR.Proofs.Spirv.Shaping

/-!
# A ledger of ids

The ledger keeps apart **the ids that are defined, those that some step still owes a definition, and
those that stand for ids of the stream yet to be defined**.  Making up an id puts it among the owed
ones, writing an instruction takes it from there; nothing is ever in two places.
-/

namespace ShaderIR.Spirv

open Discipline
open Lower (ofBuild)

variable {rest : List ModuleId} {l : List ModuleId}

/-! ## What is defined -/

def Module.defined (m : Module) : List ModuleId :=
  results (m.imports.toList ++ m.executionModes.toList ++ m.debug.toList ++ m.annotations.toList
    ++ m.types.toList ++ m.constants.toList ++ m.globals.toList ++ m.functions.toList)

def OpenFunction.defined (f : OpenFunction) : List ModuleId :=
  results (f.header.toList ++ f.locals.toList ++ f.body.toList)

def Lowering.defined (s : Lowering) : List ModuleId :=
  s.function.elim [] OpenFunction.defined ++ s.module.defined

theorem results_singleton (i : Inst) : results [i] = i.result.toList := by
  cases h : i.result <;> simp [results, h]

theorem Module.defined_append (m : Module) (insts : Array Inst) (sec : Section) :
    (m.append insts sec).defined.Perm (results insts.toList ++ m.defined) := by
  refine List.perm_iff_count.mpr fun n => ?_
  cases sec <;>
    simp only [append, defined, Array.toList_append, results_append, List.count_append] <;> omega

theorem Module.results_instructions (m : Module) : (results m.instructions).Perm m.defined := by
  simp only [instructions, defined, results_preamble, results_append]
  exact .refl _

theorem OpenFunction.results_insts (f : OpenFunction) :
    (results f.insts.toList).Perm f.defined := by
  have hbody : results f.body.toList = results (f.body.toList.take 1) ++ results (f.body.toList.drop 1) := by
    rw [← results_append, List.take_append_drop]
  have hlast : results [({ op := .functionEnd } : Inst)] = [] := rfl
  refine List.perm_iff_count.mpr fun n => ?_
  rw [toList_insts]
  simp only [defined, hbody, hlast, results_append, List.count_append, List.count_nil]
  omega

/-! ## The ledger -/

/-- **The ids of the module are in order.**  `Awaits` are ids of the stream that are yet to be
    defined, and `owed` ids of the module that steps under way are yet to define. -/
structure Ledger (Awaits : ResultId → Prop) (owed : List ModuleId) (s : Lowering) : Prop where
  nodup : (owed ++ s.defined).Nodup
  below : ∀ n ∈ owed ++ s.defined, n < s.module.nextId
  reserved : ∀ y n, Awaits y → s.ids.get? y = some n → n < s.module.nextId ∧ n ∉ owed ++ s.defined
  apart : ∀ y z n, Awaits y → Awaits z → s.ids.get? y = some n → s.ids.get? z = some n → y = z

def Without (Awaits : ResultId → Prop) (x y : ResultId) : Prop := Awaits y ∧ y ≠ x

def ledger (Awaits : ResultId → Prop) (owed : List ModuleId) : Discipline Lowering where
  Inv := Ledger Awaits owed
  Grows _ _ := True
  refl _ := trivial
  trans _ _ := trivial

variable {Awaits : ResultId → Prop} {owed : List ModuleId} {s s' : Lowering} {α β : Type}

namespace Ledger

variable (h : Ledger Awaits owed s)
include h

theorem rearrange (hids : s'.ids = s.ids)
    (hnext : s.module.nextId ≤ s'.module.nextId) (hnodup : (rest ++ s'.defined).Nodup)
    (hsub : ∀ n ∈ rest ++ s'.defined, n ∈ owed ++ s.defined) : Ledger Awaits rest s' where
  nodup := hnodup
  below n hn := Nat.lt_of_lt_of_le (h.below n (hsub n hn)) hnext
  reserved y n hy hn := by
    rw [hids] at hn
    obtain ⟨hlt, hnot⟩ := h.reserved y n hy hn
    exact ⟨Nat.lt_of_lt_of_le hlt hnext, fun hmem => hnot (hsub n hmem)⟩
  apart y z n hy hz hyn hzn := by
    rw [hids] at hyn hzn
    exact h.apart y z n hy hz hyn hzn

theorem of_perm (hids : s'.ids = s.ids) (hnext : s.module.nextId ≤ s'.module.nextId)
    (hperm : (rest ++ s'.defined).Perm (owed ++ s.defined)) : Ledger Awaits rest s' :=
  h.rearrange hids hnext (hperm.symm.nodup h.nodup) fun _ hn => hperm.subset hn

theorem forgive (hrest : rest.Sublist owed) : Ledger Awaits rest s :=
  h.rearrange rfl (Nat.le_refl _) (h.nodup.sublist (hrest.append_right _)) fun _ hn =>
    (hrest.append_right _).subset hn

theorem mono {Awaits' : ResultId → Prop}
    (hsub : ∀ y, Awaits' y → Awaits y) : Ledger Awaits' owed s :=
  { h with
    reserved := fun y n hy => h.reserved y n (hsub y hy)
    apart := fun y z n hy hz => h.apart y z n (hsub y hy) (hsub z hz) }

theorem of_eq (hids : s'.ids = s.ids)
    (hmodule : s'.module = s.module) (hfunction : s'.function = s.function) :
    Ledger Awaits owed s' := by
  refine h.of_perm hids (Nat.le_of_eq (by rw [hmodule])) ?_
  rw [Lowering.defined, Lowering.defined, hmodule, hfunction]

theorem take {x : ResultId} {n : ModuleId} (hx : Awaits x)
    (hn : s.ids.get? x = some n) : Ledger (Without Awaits x) (n :: owed) s where
  nodup := List.nodup_cons.mpr ⟨(h.reserved x n hx hn).2, h.nodup⟩
  below k hk := by
    rcases List.mem_cons.mp hk with rfl | hk
    · exact (h.reserved x k hx hn).1
    · exact h.below k hk
  reserved y k hy hk := by
    obtain ⟨hlt, hnot⟩ := h.reserved y k hy.1 hk
    refine ⟨hlt, fun hmem => ?_⟩
    rcases List.mem_cons.mp hmem with rfl | hmem
    · exact hy.2 (h.apart y x k hy.1 hx hk hn)
    · exact hnot hmem
  apart y z k hy hz := h.apart y z k hy.1 hz.1

end Ledger

variable {x : Lower α}

theorem turns_of_keeps (h : (ledger Awaits owed).Keeps x) :
    Turns x (Ledger Awaits owed) := fun s hs => (h s hs).2.1

theorem keeps_of_turns (h : Turns x (Ledger Awaits owed)) :
    (ledger Awaits owed).Keeps x := fun s hs => ⟨trivial, h s hs, trivial⟩

/-! ## Ids -/

theorem ledger_apart (h : ∀ s, (x.run s).2.module = s.module ∧
    (x.run s).2.ids = s.ids ∧ (x.run s).2.function = s.function) :
    (ledger Awaits owed).Keeps x := keeps_of_turns fun s hs => by
  obtain ⟨hmodule, hids, hfunction⟩ := h s
  exact hs.of_eq hids hmodule hfunction

theorem turns_fresh : Turns (ofBuild .fresh) (Ledger Awaits owed) fun n =>
    Ledger Awaits (n :: owed) := fun s hs => by
  have hnew : s.module.nextId ∉ owed ++ s.defined := fun hmem =>
    Nat.lt_irrefl _ (hs.below _ hmem)
  exact
    { nodup := List.nodup_cons.mpr ⟨hnew, hs.nodup⟩
      below := fun n hn => by
        rcases List.mem_cons.mp hn with rfl | hn
        · exact Nat.lt_succ_self _
        · exact Nat.lt_succ_of_lt (hs.below n hn)
      reserved := fun y n hy hn => by
        obtain ⟨hlt, hnot⟩ := hs.reserved y n hy hn
        refine ⟨Nat.lt_succ_of_lt hlt, fun hmem => ?_⟩
        rcases List.mem_cons.mp hmem with rfl | hmem
        · exact Nat.lt_irrefl _ hlt
        · exact hnot hmem
      apart := hs.apart }

theorem Ledger.insert {id : ResultId} (h : Ledger Awaits owed s) : Ledger Awaits owed { s with
    module := { s.module with nextId := s.module.nextId + 1 },
    ids := s.ids.insert id s.module.nextId } where
  nodup := h.nodup
  below n hn := Nat.lt_succ_of_lt (h.below n hn)
  reserved y n hy hn := by
    rcases Table.get?_insert_cases hn with ⟨-, rfl⟩ | hn
    · exact ⟨Nat.lt_succ_self _, fun hmem => Nat.lt_irrefl _ (h.below _ hmem)⟩
    · obtain ⟨hlt, hnot⟩ := h.reserved y n hy hn
      exact ⟨Nat.lt_succ_of_lt hlt, hnot⟩
  apart y z n hy hz hyn hzn := by
    rw [Table.get?_insert] at hyn hzn
    split at hyn <;> split at hzn
    next h1 h2 => exact h1.symm.trans h2
    next => cases hyn; exact absurd (h.reserved z _ hz hzn).1 (Nat.lt_irrefl _)
    next => cases hzn; exact absurd (h.reserved y _ hy hyn).1 (Nat.lt_irrefl _)
    next => exact h.apart y z n hy hz hyn hzn

theorem turns_idFor (id : ResultId) : Turns (idFor id) (Ledger Awaits owed) fun n s =>
    Ledger Awaits owed s ∧ s.ids.get? id = some n := by
  intro s hs
  rw [idFor, StateT.run_bind, StateT.run_get, pure_bind]
  dsimp only
  cases hn : s.ids.get? id with
  | some n => exact ⟨hs, hn⟩
  | none =>
    exact ⟨hs.insert, Table.get?_insert_self⟩

theorem ledger_idFor (id : ResultId) : (ledger Awaits owed).Keeps (idFor id) :=
  keeps_of_turns ((turns_idFor id).weaken fun _ _ h => h.1)

theorem turns_ownId {x : ResultId} (hx : Awaits x) : Turns (idFor x) (Ledger Awaits owed) fun n =>
    Ledger (Without Awaits x) (n :: owed) :=
  (turns_idFor x).weaken fun _ _ h => h.1.take hx h.2

theorem turns_bindId (x : ResultId) (n : ModuleId) : Turns (bindId x n) (Ledger Awaits owed)
    fun _ => Ledger (Without Awaits x) owed := by
  intro s hs
  have hget : ∀ y, y ≠ x → (s.ids.insert x n).get? y = s.ids.get? y := fun y hy => Table.get?_insert_of_ne hy.symm
  refine ⟨hs.nodup, hs.below, fun y k hy hk => ?_, fun y z k hy hz hyk hzk => ?_⟩
  · exact hs.reserved y k hy.1 ((hget y hy.2).symm.trans hk)
  · exact hs.apart y z k hy.1 hz.1 ((hget y hy.2).symm.trans hyk) ((hget z hz.2).symm.trans hzk)

/-! ## Writing to the module -/

theorem Ledger.write {m : Module} (h : Ledger Awaits (l ++ owed) s)
    (hnext : s.module.nextId ≤ m.nextId) (hdefined : m.defined.Perm (l ++ s.module.defined)) :
    Ledger Awaits owed { s with module := m } := by
  refine h.of_perm rfl hnext (List.perm_iff_count.mpr fun n => ?_)
  have hcount := List.perm_iff_count.mp hdefined n
  simp only [Lowering.defined, List.count_append] at hcount ⊢
  omega

theorem ledger_aside {b : Build α} (h : ∀ m, (b.run m).2.nextId = m.nextId ∧
    (b.run m).2.defined = m.defined) : (ledger Awaits owed).Keeps (ofBuild b) :=
  keeps_of_turns fun s hs => by
    obtain ⟨hnext, hdefined⟩ := h s.module
    exact Ledger.write (l := []) hs (Nat.le_of_eq hnext.symm) (.of_eq hdefined)

theorem ledger_capability (c : Capability) :
    (ledger Awaits owed).Keeps (ofBuild (.requireCapability c)) :=
  ledger_aside fun _ => ⟨rfl, rfl⟩

theorem turns_append {insts : Array Inst} (sec : Section) :
    Turns (ofBuild (modify (·.append insts sec)))
      (Ledger Awaits (results insts.toList ++ owed)) fun _ => Ledger Awaits owed := fun s hs => by
  have hnext : (s.module.append insts sec).nextId = s.module.nextId := by cases sec <;> rfl
  exact hs.write (Nat.le_of_eq hnext.symm) (s.module.defined_append insts sec)

theorem turns_write (sec : Section) (i : Inst) : Turns (ofBuild (.emit sec i))
    (Ledger Awaits (i.result.toList ++ owed)) fun _ => Ledger Awaits owed := by
  intro s hs
  change Ledger Awaits owed { s with module := s.module.emit sec i }
  unfold Module.emit
  split
  · exact @turns_append Awaits owed #[i] sec s (results_singleton i ▸ hs)
  · exact Ledger.write (l := []) (hs.forgive (List.sublist_append_right _ _)) (Nat.le_refl _) (.refl _)

variable {i : Inst}

theorem ledger_remark {sec : Section} (h : i.result = none) :
    (ledger Awaits owed).Keeps (ofBuild (.emit sec i)) :=
  keeps_of_turns fun s hs => turns_write sec i s (by rw [h]; exact hs)

theorem ledger_define {sec : Section} {i : ModuleId → Inst} (hi : ∀ n, (i n).result = some n)
    {f : ModuleId → Build α} (hf : ∀ n, (ledger Awaits owed).Keeps (ofBuild (f n))) :
    (ledger Awaits owed).Keeps (ofBuild (do
      let n ← .fresh
      .emit sec (i n)
      f n)) := by
  have hwrite : ∀ n, Turns (ofBuild (.emit sec (i n))) (Ledger Awaits (n :: owed))
      fun _ => Ledger Awaits owed := fun n s hs => turns_write sec (i n) s (by rw [hi]; exact hs)
  have hall : Turns (do
      let n ← ofBuild .fresh
      ofBuild (.emit sec (i n))
      ofBuild (f n)) (Ledger Awaits owed) :=
    turns_fresh.bind fun n => (hwrite n).bind fun _ => turns_of_keeps (hf n)
  exact keeps_of_turns hall

theorem ledger_newType (op : Op) (operands : List Operand) :
    (ledger Awaits owed).Keeps (ofBuild (.newType op operands)) :=
  ledger_define (fun _ => rfl) fun n => keeps_ofBuild_pure n

theorem ledger_type (op : Op) (operands : List Operand) :
    (ledger Awaits owed).Keeps (ofBuild (.type op operands)) :=
  keeps_ofBuild_type (ledger_newType op operands) fun _ => ledger_aside fun _ => ⟨rfl, rfl⟩

theorem ledger_constantIn (sec : Section) (type : ModuleId) (op : Op) (operands : List Operand) :
    (ledger Awaits owed).Keeps (ofBuild (.constantIn sec type op operands)) := by
  refine keeps_ofBuild_get_bind fun m => ?_
  split
  · exact keeps_ofBuild_pure _
  · exact ledger_define (fun _ => rfl) fun n =>
      keeps_ofBuild_bind (ledger_aside fun _ => ⟨rfl, rfl⟩) fun _ => keeps_ofBuild_pure n

theorem ledger_extInstSet : (ledger Awaits owed).Keeps (ofBuild .extInstSet) := by
  refine keeps_ofBuild_get_bind fun m => ?_
  split
  · exact keeps_ofBuild_pure _
  · exact ledger_define (fun _ => rfl) fun n =>
      keeps_ofBuild_bind (ledger_aside fun _ => ⟨rfl, rfl⟩) fun _ => keeps_ofBuild_pure n

theorem formRules_ledger : FormRules (ledger Awaits owed) :=
  .of_keeps ledger_capability (fun operands _ _ => ledger_type _ operands) fun type _ =>
    ledger_constantIn _ type _ _

theorem typeRules_ledger (asm : Assembler) : TypeRules asm (ledger Awaits owed) where
  toFormRules := formRules_ledger
  known _ _ := trivial
  newType _ _ := ledger_newType _ _ _
  debug _ := ledger_remark
  note _ _ _ _ := ledger_apart (fun _ => ⟨rfl, rfl, rfl⟩) _

/-! ## Function bodies -/

theorem ledger_problem (source : Instruction) (message : String) :
    (ledger Awaits owed).Keeps (problem source message) := ledger_apart fun _ => ⟨rfl, rfl, rfl⟩

theorem turns_modifyFunction {g : OpenFunction → OpenFunction}
    (hg : ∀ f, (g f).defined.Perm (l ++ f.defined)) :
    Turns (modifyFunction g) (Ledger Awaits (l ++ owed)) fun _ => Ledger Awaits owed := by
  intro s hs
  change Ledger Awaits owed { s with function := s.function.map g }
  cases hf : s.function with
  | none => exact (hs.forgive (List.sublist_append_right _ _)).of_eq rfl rfl hf.symm
  | some f =>
    refine hs.of_perm rfl (Nat.le_refl _) (List.perm_iff_count.mpr fun n => ?_)
    have hcount := List.perm_iff_count.mp (hg f) n
    simp only [Lowering.defined, hf, Option.map_some, Option.elim_some, List.count_append] at hcount ⊢
    omega

theorem OpenFunction.defined_pushBody (f : OpenFunction) (i : Inst) (labelled terminated : Bool) :
    (OpenFunction.defined { f with body := f.body.push i, labelled, terminated }).Perm
      (i.result.toList ++ f.defined) := by
  refine List.perm_iff_count.mpr fun n => ?_
  simp only [OpenFunction.defined, Array.toList_push, results_append, results_singleton, List.count_append]
  omega

theorem turns_pushBody (i : Inst) : Turns (modifyFunction fun f => { f with body := f.body.push i })
    (Ledger Awaits (i.result.toList ++ owed)) fun _ => Ledger Awaits owed :=
  turns_modifyFunction fun f => f.defined_pushBody i f.labelled f.terminated

theorem turns_pushLocal (i : Inst) :
    Turns (modifyFunction fun f => { f with locals := f.locals.push i })
      (Ledger Awaits (i.result.toList ++ owed)) fun _ => Ledger Awaits owed := by
  refine turns_modifyFunction fun f => List.perm_iff_count.mpr fun n => ?_
  simp only [OpenFunction.defined, Array.toList_push, results_append, results_singleton, List.count_append]
  omega

theorem turns_pushHeader (i : Inst) :
    Turns (modifyFunction fun f => { f with header := f.header.push i })
      (Ledger Awaits (i.result.toList ++ owed)) fun _ => Ledger Awaits owed := by
  refine turns_modifyFunction fun f => List.perm_iff_count.mpr fun n => ?_
  simp only [OpenFunction.defined, Array.toList_push, results_append, results_singleton, List.count_append]
  omega

theorem turns_pushLabel (n : ModuleId) :
    Turns (modifyFunction fun f => { f with
        body := f.body.push { op := .label, result := some n }
        labelled := true
        terminated := false })
      (Ledger Awaits (n :: owed)) fun _ => Ledger Awaits owed :=
  turns_modifyFunction (l := [n]) fun f => f.defined_pushBody _ true false

theorem ledger_openBlock (f : OpenFunction) : (ledger Awaits owed).Keeps (openBlock f) := by
  unfold openBlock
  split
  · exact keeps_of_turns (turns_fresh.bind turns_pushLabel)
  · exact .pure ()

theorem turns_emit (source : Instruction) (i : Inst) : Turns (emit source i)
    (Ledger Awaits (i.result.toList ++ owed)) fun _ => Ledger Awaits owed := by
  have hproblem : ∀ message, Turns (do problem source message; return false)
      (Ledger Awaits (i.result.toList ++ owed)) fun _ => Ledger Awaits owed := fun message =>
    (turns_of_keeps (ledger_problem source message)).bind fun _ =>
      Turns.pure fun _ hs => hs.forgive (List.sublist_append_right _ _)
  refine .get_bind fun s => ?_
  split
  · exact hproblem _
  next f _ =>
    refine (turns_of_keeps (ledger_openBlock f)).bind fun _ => ?_
    split
    · exact (turns_pushBody i).bind fun _ => .pure fun _ hs => hs
    · exact hproblem _

theorem ledger_emit (source : Instruction) (hi : i.result = none) :
    (ledger Awaits owed).Keeps (emit source i) := by
  refine keeps_of_turns fun s hs => turns_emit source i s ?_
  rw [hi]
  exact hs

theorem ledger_terminate (source : Instruction) (hi : i.result = none) :
    (ledger Awaits owed).Keeps (terminate source i) := by
  refine (ledger_emit source hi).bind fun written => ?_
  split
  · exact keeps_of_turns (turns_modifyFunction (l := []) fun f => .refl _)
  · exact .pure ()

theorem turns_beginBlock (source : Instruction) (n : ModuleId) :
    Turns (beginBlock source n) (Ledger Awaits (n :: owed)) fun _ => Ledger Awaits owed := by
  refine .get_bind fun s => ?_
  split
  · exact (turns_of_keeps (ledger_problem source _)).weaken fun _ _ hs =>
      hs.forgive (List.sublist_cons_self _ _)
  · extract_lets start
    split
    · have hbranch : (ledger Awaits (n :: owed)).Keeps (modifyFunction fun f =>
          { f with body := f.body.push { op := .branch, operands := [.id n] } }) :=
        keeps_of_turns (turns_pushBody _)
      exact (turns_of_keeps hbranch).bind fun _ => turns_pushLabel n
    · exact turns_pushLabel n

/-! ## Functions -/

theorem turns_openFunction (source : ResultId) (returnsVoid : Bool) (i : Inst) :
    Turns (modify fun s => { s with
        function := some { source, returnsVoid, header := #[i] } })
      (Ledger Awaits (i.result.toList ++ owed)) fun _ => Ledger Awaits owed := by
  intro s hs
  have hopened : (Lowering.defined { s with
      function := some { source, returnsVoid, header := #[i] } }) = i.result.toList ++ s.module.defined :=
    congrArg (· ++ _) (results_singleton i)
  have hperm : ((i.result.toList ++ owed) ++ s.module.defined).Perm
      (owed ++ (i.result.toList ++ s.module.defined)) :=
    List.perm_iff_count.mpr fun n => by simp only [List.count_append]; omega
  have hsub : ((i.result.toList ++ owed) ++ s.module.defined).Sublist
      ((i.result.toList ++ owed) ++ s.defined) :=
    (List.sublist_append_right _ _).append_left _
  refine hs.rearrange rfl (Nat.le_refl _) ?_ ?_
  · exact hopened ▸ hperm.nodup (hs.nodup.sublist hsub)
  · exact fun n hn => hsub.subset (hperm.symm.subset (hopened ▸ hn))

theorem turns_takeFunction : Turns takeFunction (Ledger Awaits owed) fun f =>
    Ledger Awaits (f.elim [] OpenFunction.defined ++ owed) := fun s hs => by
  refine hs.of_perm rfl (Nat.le_refl _) (List.perm_iff_count.mpr fun n => ?_)
  change List.count n ((s.function.elim [] OpenFunction.defined ++ owed) ++ s.module.defined) = _
  simp only [Lowering.defined, List.count_append]
  omega

theorem turns_writeFunction (f : OpenFunction) :
    Turns (ofBuild (modify (·.append f.insts .functions)))
      (Ledger Awaits (f.defined ++ owed)) fun _ => Ledger Awaits owed := fun s hs =>
  turns_append .functions s (hs.of_perm rfl (Nat.le_refl _) ((f.results_insts.append_right _).append_right _))

theorem turns_closeFunction (f : OpenFunction) :
    Turns (closeFunction f) (Ledger Awaits (f.defined ++ owed)) fun _ => Ledger Awaits owed := by
  unfold closeFunction
  extract_lets f0 write ended
  have hended : ∀ g, Turns (ended () g) (Ledger Awaits (g.defined ++ owed)) fun _ => Ledger Awaits owed := by
    intro g
    unfold ended
    split
    · refine fun s hs => turns_writeFunction _ s (hs.of_perm rfl (Nat.le_refl _) ?_)
      exact ((g.defined_pushBody _ g.labelled g.terminated).append_right _).append_right _
    · exact turns_writeFunction g
  split
  · refine turns_fresh.bind fun label => ?_
    refine fun s hs => hended _ s (hs.of_perm rfl (Nat.le_refl _) ?_)
    exact ((f0.defined_pushBody _ f0.labelled f0.terminated).append_right _).append_right _
  · exact hended f

/-! ## The steps of lowering -/

/-- The ledger where the lowering of an instruction stands.  When its id has been taken up, `Left`
    are the ids that are waited for. -/
def Balanced (Awaits Left : ResultId → Prop) (inst : Instruction) (c : Standing) (s : Lowering) :
    Prop :=
  (c.awaited = true → Awaits inst.id ∧ Left = Without Awaits inst.id) ∧
    Ledger (if c.awaited then Awaits else Left) (c.owed ++ c.held.elim [] OpenFunction.defined) s

variable {Left : ResultId → Prop} {inst : Instruction} {c : Standing}

theorem balanced_keeps (h : ∀ {Awaits owed}, (ledger Awaits owed).Keeps x) :
    Turns x (Balanced Awaits Left inst c) fun _ => Balanced Awaits Left inst c := fun s hs =>
  ⟨hs.1, turns_of_keeps h s hs.2⟩

theorem balanced_pays
    (h : ∀ {Awaits owed}, Turns x (Ledger Awaits (l ++ owed)) fun _ => Ledger Awaits owed) :
    Turns x (Balanced Awaits Left inst (c.owing l)) fun _ => Balanced Awaits Left inst c :=
  fun s hs => ⟨hs.1, h s (List.append_assoc .. ▸ hs.2)⟩

theorem Ledger.reorder (h : Ledger Awaits owed s) (hperm : rest.Perm owed) :
    Ledger Awaits rest s := h.of_perm rfl (Nat.le_refl _) (hperm.append_right _)

/-- **Lowering an instruction keeps the ledger**: it defines its id at most once, and makes up every
    other id that it defines. -/
theorem steps_ledger (asm : Assembler) : Steps asm (Balanced Awaits Left inst) inst where
  forget _ hs := hs
  found _ hs := hs
  report _ := balanced_keeps (ledger_apart fun _ => ⟨rfl, rfl, rfl⟩)
  fresh s hs := ⟨hs.1, turns_fresh s hs.2⟩
  idFor id := balanced_keeps (ledger_idFor id)
  own {c} hc s hs := by
    obtain ⟨hown, hleft⟩ := hs.1 hc
    have hledger := hs.2
    rw [if_pos hc] at hledger
    refine ⟨nofun, ?_⟩
    subst hleft
    exact turns_ownId hown s hledger
  bindId {c n} hc _ s hs := by
    obtain ⟨-, hleft⟩ := hs.1 hc
    have hledger := hs.2
    rw [if_pos hc] at hledger
    refine ⟨{ c with awaited := false }, nofun, ?_⟩
    subst hleft
    exact turns_bindId inst.id n s hledger
  setPlace _ := balanced_keeps (ledger_apart fun _ => ⟨rfl, rfl, rfl⟩)
  addParam _ := balanced_keeps (ledger_apart fun _ => ⟨rfl, rfl, rfl⟩)
  note _ _ hf := balanced_keeps (ledger_apart fun s => by
    obtain ⟨_, _, _, _, h⟩ := hf s
    rw [show (modify _ : Lower Unit).run s = ((), _) from rfl, h]
    exact ⟨rfl, rfl, rfl⟩)
  overflow := balanced_keeps (ledger_apart fun _ => ⟨rfl, rfl, rfl⟩)
  setStage _ _ := balanced_keeps (ledger_apart fun _ => ⟨rfl, rfl, rfl⟩)
  lowerType {c} id s hs := by
    have hend : Ledger _ _ ((lowerType asm id).run.run s).2 :=
      ((typeRules_ledger asm).attempts_lowerTypeAt _ [] id s hs.2).2.1
    change ((lowerType asm id).run.run s).1.elim _ _
    cases ((lowerType asm id).run.run s).1 with
    | none => exact ⟨hs.1, hend⟩
    | some n => exact ⟨hs.1, hend⟩
  capability _ := balanced_keeps (ledger_capability _)
  extension _ := balanced_keeps (ledger_aside fun _ => ⟨rfl, rfl⟩)
  intType width signed := balanced_keeps (formRules_ledger.intType width signed)
  floatType width := balanced_keeps (formRules_ledger.floatType width)
  type _ _ _ _ := balanced_keeps (ledger_type _ _)
  newType _ _ := balanced_keeps (ledger_newType _ _)
  constantIn _ _ _ _ := balanced_keeps (ledger_constantIn _ _ _ _)
  extInstSet := balanced_keeps ledger_extInstSet
  remark _ _ hi _ := balanced_keeps (ledger_remark hi)
  global _ hi _ := balanced_pays (l := [_]) fun s hs => turns_write _ _ s (by rw [hi]; exact hs)
  block _ := balanced_keeps (ledger_aside fun _ => ⟨rfl, rfl⟩)
  addEntryPoint _ _ := balanced_keeps (ledger_aside fun _ => ⟨rfl, rfl⟩)
  modifyEntryPoint _ _ _ := balanced_keeps (ledger_aside fun _ => ⟨rfl, rfl⟩)
  compute _ := balanced_pays (turns_emit _ _)
  call _ _ := balanced_pays (turns_emit _ _)
  terminate _ hi := balanced_keeps (ledger_terminate _ hi)
  beginBlock := balanced_pays (l := [_]) (turns_beginBlock _ _)
  addLocal _ _ hi := balanced_pays (l := [_]) fun s hs => turns_pushLocal _ s (by rw [hi]; exact hs)
  addParameter _ _ _ hi := balanced_pays (l := [_]) fun s hs => turns_pushHeader _ s (by rw [hi]; exact hs)
  openFunction _ _ _ _ hi :=
    balanced_pays (l := [_]) fun s hs => turns_openFunction _ _ _ s (by rw [hi]; exact hs)
  takeFunction {c} _ s hs := by
    have htaken := turns_takeFunction s hs.2
    generalize (takeFunction.run s).1 = f at htaken ⊢
    have hperm : ((c.owed ++ f.elim [] OpenFunction.defined) ++ c.held.elim [] OpenFunction.defined).Perm
        (f.elim [] OpenFunction.defined ++ (c.owed ++ c.held.elim [] OpenFunction.defined)) :=
      List.perm_iff_count.mpr fun n => by simp only [List.count_append]; omega
    exact ⟨hs.1, (htaken.reorder hperm).forgive (List.sublist_append_left _ _)⟩
  closeFunction {c f} _ s hs := by
    refine ⟨hs.1, ?_⟩
    have hclosed := turns_closeFunction f s (hs.2.reorder List.perm_append_comm)
    exact hclosed.reorder (.of_eq (List.append_nil _))
  appendFunction _ _ _ hperm := balanced_pays fun s hs =>
    turns_append .functions s (hs.reorder (hperm.append_right _))

end ShaderIR.Spirv
