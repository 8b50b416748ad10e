import ShaderIR.Proofs.Spirv.Lowering.Traversal
import ShaderIR.Proofs.Types.Declaring

/-!
# What may change between the markers of stages

The variables behind built-ins and outputs are made up when they are first needed, and kept in
tables of their own.  Most steps of lowering leave these tables and the entry points alone; the few
others make **a list grow by variables that were not in it**.
-/

namespace ShaderIR.Spirv

open Discipline Spirv.Module
open Lower (ofBuild)

variable {n : ModuleId}

/-! ## Lists that grow -/

/-- `l'` is `l` with variables behind it that are not in it, each once. -/
def Listed (l l' : List ModuleId) : Prop := ∃ more, l' = l ++ more ∧ more.Nodup ∧ ∀ n ∈ more, n ∉ l

namespace Listed

variable {l l' l'' : List ModuleId} {n : ModuleId}

theorem refl (l : List ModuleId) : Listed l l := ⟨[], (List.append_nil l).symm, .nil, nofun⟩

theorem mem (h : Listed l l') (hn : n ∈ l) : n ∈ l' := by
  obtain ⟨more, rfl, -, -⟩ := h
  exact List.mem_append_left more hn

theorem trans (h : Listed l l') (h' : Listed l' l'') : Listed l l'' := by
  obtain ⟨more, rfl, hnodup, hnew⟩ := h
  obtain ⟨more', rfl, hnodup', hnew'⟩ := h'
  refine ⟨more ++ more', List.append_assoc l more more', ?_, fun n hn => ?_⟩
  · refine List.nodup_append.mpr ⟨hnodup, hnodup', fun a ha b hb heq => ?_⟩
    exact hnew' b hb (List.mem_append_right l (heq ▸ ha))
  · rcases List.mem_append.mp hn with hn | hn
    · exact hnew n hn
    · exact fun hmem => hnew' n hn (List.mem_append_left more hmem)

theorem count_of_mem (h : Listed l l') (hn : n ∈ l) : l'.count n = l.count n := by
  obtain ⟨more, rfl, -, hnew⟩ := h
  rw [List.count_append, List.count_eq_zero.mpr fun hmem => hnew n hmem hn, Nat.add_zero]

theorem count_of_not_mem (h : Listed l l') (hn : n ∉ l) : l'.count n = if n ∈ l' then 1 else 0 := by
  obtain ⟨more, rfl, hnodup, -⟩ := h
  have hmem : n ∈ l ++ more ↔ n ∈ more := by rw [List.mem_append, or_iff_right hn]
  rw [List.count_append, List.count_eq_zero.mpr hn, Nat.zero_add, hnodup.count]
  simp only [hmem]

end Listed

/-- An entry point with one more variable, unless it is listed. -/
def EntryPoint.list (e : EntryPoint) (n : ModuleId) : EntryPoint :=
  if e.interface.contains n then e else { e with interface := e.interface ++ [n] }

namespace EntryPoint

variable (e : EntryPoint) (n : ModuleId)

theorem model_list : (e.list n).model = e.model := by
  unfold list
  split <;> rfl

theorem listed_list : Listed e.interface (e.list n).interface := by
  unfold list
  split
  · exact .refl _
  next hn =>
    refine ⟨[n], rfl, List.nodup_cons.mpr ⟨List.not_mem_nil, .nil⟩, fun k hk => ?_⟩
    rw [List.mem_singleton.mp hk]
    exact fun hmem => hn (List.contains_iff_mem.mpr hmem)

theorem mem_list {k : ModuleId} : k ∈ (e.list n).interface ↔ k ∈ e.interface ∨ k = n := by
  unfold list
  split
  next hn =>
    refine (or_iff_left_of_imp fun hk => ?_).symm
    rw [hk]
    exact List.contains_iff_mem.mp hn
  next => rw [List.mem_append, List.mem_singleton]

end EntryPoint

/-! ## Steps that leave entry points alone -/

/-- A module grows without a change of its entry points; its new constants have new ids. -/
structure Module.Accrues (m m' : Module) : Prop where
  nextId : m.nextId ≤ m'.nextId
  entryPoints : m'.entryPoints = m.entryPoints
  constants : ∀ {key n}, m'.constantIds.get? key = some n →
    m.constantIds.get? key = some n ∨ m.nextId ≤ n ∧ n < m'.nextId
  globals : ∀ i ∈ m.globals.toList, i ∈ m'.globals.toList
  annotations : ∀ i ∈ m.annotations.toList, i ∈ m'.annotations.toList

theorem Module.Accrues.refl (m : Module) : m.Accrues m :=
  ⟨Nat.le_refl _, rfl, .inl, fun _ h => h, fun _ h => h⟩

theorem Module.Accrues.trans {m1 m2 m3 : Module} (h : m1.Accrues m2) (h' : m2.Accrues m3) :
    m1.Accrues m3 where
  nextId := Nat.le_trans h.nextId h'.nextId
  entryPoints := h'.entryPoints.trans h.entryPoints
  constants hn := by
    rcases h'.constants hn with hn | ⟨hle, hlt⟩
    · exact (h.constants hn).imp_right fun hn => ⟨hn.1, Nat.lt_of_lt_of_le hn.2 h'.nextId⟩
    · exact .inr ⟨Nat.le_trans h.nextId hle, hlt⟩
  globals i hi := h'.globals i (h.globals i hi)
  annotations i hi := h'.annotations i (h.annotations i hi)

/-- A state changes in what neither entry points nor the tables behind them depend on. -/
structure Lowering.Aside (s s' : Lowering) : Prop where
  module : s.module.Accrues s'.module
  ids : s'.ids = s.ids
  stage : s'.stage = s.stage
  builtIns : s'.builtIns = s.builtIns
  perVertex : s'.perVertex = s.perVertex
  fragColor : s'.fragColor = s.fragColor
  problems : s'.problems = #[] → s.problems = #[]

theorem Lowering.Aside.trans {s1 s2 s3 : Lowering} (h : s1.Aside s2) (h' : s2.Aside s3) :
    s1.Aside s3 where
  module := h.module.trans h'.module
  ids := h'.ids.trans h.ids
  stage := h'.stage.trans h.stage
  builtIns := h'.builtIns.trans h.builtIns
  perVertex := h'.perVertex.trans h.perVertex
  fragColor := h'.fragColor.trans h.fragColor
  problems hp := h.problems (h'.problems hp)

theorem Lowering.Aside.refl (s : Lowering) : s.Aside s := ⟨.refl _, rfl, rfl, rfl, rfl, rfl, fun h => h⟩

def aside : Discipline Lowering where
  Inv _ := True
  Grows := Lowering.Aside
  refl := .refl
  trans := .trans

variable {α : Type} {s : Lowering}

theorem aside_apart {x : Lower α} (h : ∀ s : Lowering, s.Aside (x.run s).2) : aside.Keeps x :=
  fun s _ => ⟨h s, trivial, trivial⟩

theorem aside_build {b : Build α} (h : ∀ m : Module, m.Accrues (b.run m).2) :
    aside.Keeps (ofBuild b) :=
  aside_apart fun s => ⟨h s.module, rfl, rfl, rfl, rfl, rfl, fun h => h⟩

theorem Module.accrues_append (m : Module) (insts : Array Inst) (sec : Section) :
    m.Accrues (m.append insts sec) := by
  cases sec <;>
    exact ⟨Nat.le_refl _, rfl, .inl,
      fun _ h => by first | exact h | exact Array.toList_append ▸ List.mem_append_left _ h,
      fun _ h => by first | exact h | exact Array.toList_append ▸ List.mem_append_left _ h⟩

theorem Module.accrues_emit (m : Module) (sec : Section) (i : Inst) : m.Accrues (m.emit sec i) := by
  unfold Module.emit
  split
  · exact m.accrues_append _ sec
  · exact { Accrues.refl m with }

theorem aside_emit (sec : Section) (i : Inst) : aside.Keeps (ofBuild (.emit sec i)) :=
  aside_build fun m => m.accrues_emit sec i

def Lowering.bumped (s : Lowering) : Lowering :=
  { s with module := { s.module with nextId := s.module.nextId + 1 } }

theorem Lowering.aside_bumped (s : Lowering) : s.Aside s.bumped :=
  ⟨⟨Nat.le_succ _, rfl, .inl, fun _ h => h, fun _ h => h⟩, rfl, rfl, rfl, rfl, rfl, fun h => h⟩

theorem aside_fresh (s : Lowering) :
    aside.Runs (ofBuild .fresh) s fun n s' => n = s.module.nextId ∧ s' = s.bumped :=
  fun _ => ⟨s.aside_bumped, trivial, rfl, rfl⟩

theorem aside_newType (op : Op) (operands : List Operand) :
    aside.Keeps (ofBuild (.newType op operands)) :=
  keeps_ofBuild_bind (fun s => (aside_fresh s).weaken) fun id =>
    keeps_ofBuild_bind (aside_emit _ _) fun _ => keeps_ofBuild_pure id

theorem aside_type (op : Op) (operands : List Operand) :
    aside.Keeps (ofBuild (.type op operands)) :=
  keeps_ofBuild_type (aside_newType op operands) fun _ =>
    aside_build fun m => { Module.Accrues.refl m with }

theorem aside_constantIn (sec : Section) (type : ModuleId) (op : Op) (operands : List Operand)
    (s : Lowering) : aside.Runs (ofBuild (.constantIn sec type op operands)) s fun n s' =>
      s'.module.constantIds.get? (op, type, operands) = some n := by
  refine runs_ofBuild_get_bind ?_
  cases hkey : s.module.constantIds.get? (op, type, operands) with
  | some id => exact .pure hkey
  | none =>
    intro _
    -- The id is new, so the constant is as well.
    let m := s.module
    let m1 : Module := { m with nextId := m.nextId + 1 }
    let m2 := m1.emit sec { op, resultType := some type, result := some m.nextId, operands }
    have h1 : m.Accrues m1 := ⟨Nat.le_succ _, rfl, .inl, fun _ h => h, fun _ h => h⟩
    have h2 : m1.Accrues m2 := m1.accrues_emit sec _
    have hnext : m.nextId < m2.nextId := Nat.lt_of_lt_of_le (Nat.lt_succ_self _) h2.nextId
    have h12 := h1.trans h2
    refine ⟨⟨{ h12 with constants := fun {key n} hn => ?_ },
      rfl, rfl, rfl, rfl, rfl, fun h => h⟩, trivial, Table.get?_insert_self⟩
    rcases Table.get?_insert_cases hn with ⟨-, rfl⟩ | hn
    · exact .inr ⟨Nat.le_refl _, hnext⟩
    · exact h12.constants hn

theorem aside_extInstSet : aside.Keeps (ofBuild .extInstSet) :=
  keeps_ofBuild_extInstSet (fun s => (aside_fresh s).weaken) (fun _ _ => aside_emit _ _) fun _ =>
    aside_build fun m => { Module.Accrues.refl m with }

/-! ### Function bodies -/

theorem aside_report (p : Problem) : aside.Keeps (report p) :=
  aside_apart fun _ => ⟨.refl _, rfl, rfl, rfl, rfl, rfl, fun h => absurd h Array.push_ne_empty⟩

theorem aside_setPlace (id : ResultId) (place : Place) : aside.Keeps (setPlace id place) :=
  aside_apart fun _ => ⟨.refl _, rfl, rfl, rfl, rfl, rfl, fun h => h⟩

theorem bodyRules_aside : BodyRules aside where
  report := aside_report
  fresh s := (aside_fresh s).weaken
  function _ := aside_apart fun _ => ⟨.refl _, rfl, rfl, rfl, rfl, rfl, fun h => h⟩
  append insts := aside_build fun m => m.accrues_append insts .functions

theorem aside_extension (e : Extension) : aside.Keeps (ofBuild (.requireExtension e)) :=
  aside_build fun m => { Module.Accrues.refl m with }

theorem aside_capability (c : Capability) : aside.Keeps (ofBuild (.requireCapability c)) :=
  aside_build fun m => { Module.Accrues.refl m with }

theorem formRules_aside : FormRules aside :=
  .of_keeps aside_capability (fun operands _ _ => aside_type _ operands)
    fun type _ s => (aside_constantIn _ type _ _ s).weaken

theorem typeRules_aside (asm : Assembler) : TypeRules asm aside where
  toFormRules := formRules_aside
  known _ _ := trivial
  newType _ _ := aside_newType _ _ _
  debug _ _ := aside_emit _ _
  note _ _ _ _ _ := ⟨⟨.refl _, rfl, rfl, rfl, rfl, rfl, fun h => h⟩, trivial, trivial⟩

/-! ## Numbers -/

def Module.HasVariable (m : Module) (storage : StorageClass) (n : ModuleId) : Prop :=
  ∃ pointer, { op := .variable, resultType := some pointer, result := some n,
               operands := [.literal storage.code] } ∈ m.globals.toList

def Module.MarksBuiltIn (m : Module) (b : BuiltIn) (n : ModuleId) : Prop :=
  { op := .decorate, operands := [.id n, .literal Decoration.builtIn.code, .literal b.info.code] }
    ∈ m.annotations.toList

theorem Module.Accrues.hasVariable {m m' : Module} (h : m.Accrues m') {storage : StorageClass}
    (hn : m.HasVariable storage n) : m'.HasVariable storage n :=
  hn.imp fun _ hmem => h.globals _ hmem

/-- An entry point later on: `known` are the variables behind built-ins that were made up before. -/
structure EntryPoint.Continues (e : EntryPoint) (known : Table (ShaderStage × BuiltIn) ModuleId)
    (e' : EntryPoint) : Prop where
  model : e'.model = e.model
  listed : Listed e.interface e'.interface
  old : ∀ {key n}, known.get? key = some n → n ∈ e'.interface → n ∈ e.interface

theorem EntryPoint.Continues.refl (e : EntryPoint)
    (known : Table (ShaderStage × BuiltIn) ModuleId) :
    e.Continues known e := ⟨rfl, .refl _, fun _ hn => hn⟩

/-- What an entry point may come to list while its stage is open: variables behind built-ins only
    when they are made up. -/
structure EntryPoint.Lists (e : EntryPoint) (known known' : Table (ShaderStage × BuiltIn) ModuleId)
    (e' : EntryPoint) : Prop extends e.Continues known e' where
  new : ∀ {key n}, known.get? key = none → known'.get? key = some n → n ∈ e'.interface

namespace Lowering

/-- The variables that lowering made up for built-ins and outputs. -/
def Owns (s : Lowering) (n : ModuleId) : Prop :=
  (∃ key, s.builtIns.get? key = some n) ∨ s.perVertex = some n ∨ s.fragColor = some n

/-- An id that is in use and not one of these variables. -/
def Frees (s : Lowering) (n : ModuleId) : Prop := n < s.module.nextId ∧ ¬ s.Owns n

/-- **The variables behind built-ins and outputs are not behind anything else**, and they are
    declared. -/
structure Numbered (Awaits : ResultId → Prop) (s : Lowering) : Prop where
  ids : ∀ {y n}, s.ids.get? y = some n → s.Frees n
  constants : ∀ {key n}, s.module.constantIds.get? key = some n → s.Frees n
  owned : ∀ {n}, s.Owns n → n < s.module.nextId
  outputs : ∀ {key n}, s.builtIns.get? key = some n → s.perVertex ≠ some n ∧ s.fragColor ≠ some n
  apart : ∀ {y z n}, Awaits y → Awaits z → s.ids.get? y = some n → s.ids.get? z = some n → y = z
  builtIns : ∀ {stage b n}, s.builtIns.get? (stage, b) = some n →
    s.module.HasVariable b.info.storage n ∧ s.module.MarksBuiltIn b n
  perVertex : ∀ {n}, s.perVertex = some n → s.module.HasVariable .output n
  fragColor : ∀ {n}, s.fragColor = some n → s.module.HasVariable .output n

theorem Numbered.mono {Awaits Awaits' : ResultId → Prop} {s : Lowering} (h : s.Numbered Awaits)
    (hsub : ∀ y, Awaits' y → Awaits y) : s.Numbered Awaits' :=
  { h with apart := fun hy hz => h.apart (hsub _ hy) (hsub _ hz) }

/-- The variables behind built-ins and outputs stay behind them. -/
structure Persists (s s' : Lowering) : Prop where
  builtIns : ∀ {key n}, s.builtIns.get? key = some n → s'.builtIns.get? key = some n
  perVertex : ∀ {n}, s.perVertex = some n → s'.perVertex = some n
  fragColor : ∀ {n}, s.fragColor = some n → s'.fragColor = some n
  globals : ∀ i ∈ s.module.globals.toList, i ∈ s'.module.globals.toList

/-- **What may happen between the markers of stages** while the definition of `id` is lowered, which
    reads `Reads`. -/
structure Widens (id : ResultId) (Reads : ShaderStage → BuiltIn → Prop) (s s' : Lowering) : Prop
    extends s.Persists s' where
  stage : s'.stage = s.stage
  nextId : s.module.nextId ≤ s'.module.nextId
  ids : ∀ {y n}, y ≠ id → s.ids.get? y = some n → s'.ids.get? y = some n
  owns : ∀ {n}, s'.Owns n → s.Owns n ∨ s.module.nextId ≤ n
  reads : ∀ {key n}, s'.builtIns.get? key = some n → s.builtIns.get? key = some n ∨
    s.builtIns.get? key = none ∧ ∃ o, s.stage = some o ∧ key.1 = o.stage ∧ Reads key.1 key.2
  size : s'.module.entryPoints.size = s.module.entryPoints.size
  others : ∀ {k : Nat}, (∀ o, s.stage = some o → o.entry ≠ k) →
    s'.module.entryPoints[k]? = s.module.entryPoints[k]?
  entry : ∀ {o e}, s.stage = some o → s.module.entryPoints[o.entry]? = some e →
    ∃ e', s'.module.entryPoints[o.entry]? = some e' ∧ e.Lists s.builtIns s'.builtIns e'
  problems : s'.problems = #[] → s.problems = #[]

variable {id : ResultId} {Reads : ShaderStage → BuiltIn → Prop} {s s' s'' : Lowering}

theorem Persists.refl (s : Lowering) : s.Persists s := ⟨id, id, id, fun _ h => h⟩

theorem Persists.trans (h : s.Persists s') (h' : s'.Persists s'') : s.Persists s'' where
  builtIns hn := h'.builtIns (h.builtIns hn)
  perVertex hn := h'.perVertex (h.perVertex hn)
  fragColor hn := h'.fragColor (h.fragColor hn)
  globals i hi := h'.globals i (h.globals i hi)

theorem Persists.continues {e e' e'' : EntryPoint} (h : s.Persists s')
    (hc : e.Continues s.builtIns e') (hc' : e'.Continues s'.builtIns e'') :
    e.Continues s.builtIns e'' where
  model := hc'.model.trans hc.model
  listed := hc.listed.trans hc'.listed
  old hkey hn := hc.old hkey (hc'.old (h.builtIns hkey) hn)

theorem Widens.trans (h : s.Widens id Reads s') (h' : s'.Widens id Reads s'') :
    s.Widens id Reads s'' where
  toPersists := h.toPersists.trans h'.toPersists
  stage := h'.stage.trans h.stage
  nextId := Nat.le_trans h.nextId h'.nextId
  ids hy hn := h'.ids hy (h.ids hy hn)
  owns hn := by
    rcases h'.owns hn with hn | hn
    · exact h.owns hn
    · exact .inr (Nat.le_trans h.nextId hn)
  reads {key n} hn := by
    rcases h'.reads hn with hn | ⟨hnone, o, ho, hkey, hreads⟩
    · exact h.reads hn
    · refine .inr ⟨?_, o, h.stage ▸ ho, hkey, hreads⟩
      cases hkey : s.builtIns.get? key with
      | none => rfl
      | some m => rw [h.builtIns hkey] at hnone; cases hnone
  size := h'.size.trans h.size
  others hk := (h'.others (h.stage ▸ hk)).trans (h.others hk)
  entry ho he := by
    obtain ⟨e', he', hlists⟩ := h.entry ho he
    obtain ⟨e'', he'', hlists'⟩ := h'.entry (h.stage ▸ ho) he'
    refine ⟨e'', he'', h.continues hlists.toContinues hlists'.toContinues, fun {key n} hnone hn => ?_⟩
    -- The variable was made up in the first part or in the second.
    cases hkey : s'.builtIns.get? key with
    | none => exact hlists'.new hkey hn
    | some m =>
      have hsame := h'.builtIns hkey
      rw [hn] at hsame
      cases hsame
      exact hlists'.listed.mem (hlists.new hnone hkey)
  problems hp := h.problems (h'.problems hp)

theorem Aside.owns_iff (h : s.Aside s') : s'.Owns n ↔ s.Owns n := by
  unfold Owns
  rw [h.builtIns, h.perVertex, h.fragColor]

theorem Aside.frees (h : s.Aside s') (hn : s.Frees n) : s'.Frees n :=
  ⟨Nat.lt_of_lt_of_le hn.1 h.module.nextId, fun howns => hn.2 (h.owns_iff.mp howns)⟩

theorem Aside.persists (h : s.Aside s') : s.Persists s' :=
  ⟨fun hn => h.builtIns ▸ hn, fun hn => h.perVertex ▸ hn, fun hn => h.fragColor ▸ hn, h.module.globals⟩

theorem Aside.widens (h : s.Aside s') : s.Widens id Reads s' where
  toPersists := h.persists
  stage := h.stage
  nextId := h.module.nextId
  ids _ hn := h.ids ▸ hn
  owns hn := .inl (h.owns_iff.mp hn)
  reads hn := .inl (h.builtIns ▸ hn)
  size := by rw [h.module.entryPoints]
  others _ := by rw [h.module.entryPoints]
  entry {o e} _ he := by
    refine ⟨e, h.module.entryPoints ▸ he, .refl e _, fun hnone hn => ?_⟩
    rw [h.builtIns, hnone] at hn
    cases hn
  problems := h.problems

theorem Widens.frees (h : s.Widens id Reads s') (hn : s.Frees n) : s'.Frees n := by
  refine ⟨Nat.lt_of_lt_of_le hn.1 h.nextId, fun howns => ?_⟩
  rcases h.owns howns with howns | hle
  · exact hn.2 howns
  · exact Nat.lt_irrefl _ (Nat.lt_of_lt_of_le hn.1 hle)

theorem Aside.numbered {Awaits : ResultId → Prop} (h : s.Aside s') (hs : s.Numbered Awaits) :
    s'.Numbered Awaits where
  ids hn := h.frees (hs.ids (h.ids ▸ hn))
  constants hn := by
    rcases h.module.constants hn with hn | ⟨hle, hlt⟩
    · exact h.frees (hs.constants hn)
    · refine ⟨hlt, fun howns => ?_⟩
      exact Nat.lt_irrefl _ (Nat.lt_of_lt_of_le (hs.owned (h.owns_iff.mp howns)) hle)
  owned hn := Nat.lt_of_lt_of_le (hs.owned (h.owns_iff.mp hn)) h.module.nextId
  outputs hn := by
    rw [h.perVertex, h.fragColor]
    exact hs.outputs (h.builtIns ▸ hn)
  apart hy hz hyn hzn := hs.apart hy hz (h.ids ▸ hyn) (h.ids ▸ hzn)
  builtIns hn := by
    obtain ⟨hvar, hmark⟩ := hs.builtIns (h.builtIns ▸ hn)
    exact ⟨h.module.hasVariable hvar, h.module.annotations _ hmark⟩
  perVertex hn := h.module.hasVariable (hs.perVertex (h.perVertex ▸ hn))
  fragColor hn := h.module.hasVariable (hs.fragColor (h.fragColor ▸ hn))

end Lowering

def widening (Awaits : ResultId → Prop) (id : ResultId) (Reads : ShaderStage → BuiltIn → Prop) :
    Discipline Lowering where
  Inv := Lowering.Numbered Awaits
  Grows := Lowering.Widens id Reads
  refl s := (Lowering.Aside.refl s).widens
  trans := .trans

section

variable {Awaits : ResultId → Prop} {id : ResultId} {Reads : ShaderStage → BuiltIn → Prop} {x : Lower α}

theorem widening_aside {Q : α → Lowering → Prop} (h : aside.Runs x s Q) :
    (widening Awaits id Reads).Runs x s fun a s' => s.Aside s' ∧ Q a s' := by
  intro hs
  obtain ⟨haside, -, hpost⟩ := h trivial
  exact ⟨haside.widens, haside.numbered hs, haside, hpost⟩

theorem widening_runs {Q : α → Lowering → Prop} (h : aside.Runs x s Q) :
    (widening Awaits id Reads).Runs x s Q := (widening_aside h).mono fun _ _ _ hpost => hpost.2

theorem widening_keeps (h : aside.Keeps x) : (widening Awaits id Reads).Keeps x :=
  fun s => widening_runs (h s)

theorem widening_fresh (s : Lowering) :
    (widening Awaits id Reads).Runs (ofBuild .fresh) s fun n s' => s'.Frees n := by
  intro hs
  refine ⟨s.aside_bumped.widens, s.aside_bumped.numbered hs, Nat.lt_succ_self _, fun howns => ?_⟩
  exact Nat.lt_irrefl _ (hs.owned howns)

theorem widening_constantIn (sec : Section) (type : ModuleId) (op : Op) (operands : List Operand)
    (s : Lowering) : (widening Awaits id Reads).Runs (ofBuild (.constantIn sec type op operands)) s
      fun n s' => s'.Frees n := by
  intro hs
  obtain ⟨haside, -, hn⟩ := aside_constantIn sec type op operands s trivial
  exact ⟨haside.widens, haside.numbered hs, (haside.numbered hs).constants hn⟩

theorem widening_idFor (y : ResultId) (s : Lowering) :
    (widening Awaits id Reads).Runs (idFor y) s fun n s' =>
      s'.ids.get? y = some n ∧ ∀ {z m}, s.ids.get? z = some m → s'.ids.get? z = some m := by
  refine .of_inv fun hs => .get_bind ?_
  cases hy : s.ids.get? y with
  | some n => exact .pure ⟨hy, fun hz => hz⟩
  | none =>
    intro _
    have hs1 := s.aside_bumped.numbered hs
    have hnew : s.bumped.Frees s.module.nextId :=
      ⟨Nat.lt_succ_self _, fun howns => Nat.lt_irrefl _ (hs.owned howns)⟩
    -- The new id is larger than all that are in the table.
    have hlarge : ∀ {z}, s.ids.get? z ≠ some s.module.nextId :=
      fun hz => Nat.lt_irrefl _ (hs.ids hz).1
    have hkept : ∀ {z m}, s.ids.get? z = some m → (s.ids.insert y s.module.nextId).get? z = some m :=
      Table.get?_insert_of_none hy
    have hw1 : s.Widens id Reads s.bumped := s.aside_bumped.widens
    refine ⟨{ hw1 with ids := fun _ hz => hkept hz },
      { hs1 with ids := fun {z n} hz => ?_, apart := fun {z w n} hz hw hzn hwn => ?_ },
      Table.get?_insert_self, hkept⟩
    · rcases Table.get?_insert_cases hz with ⟨-, rfl⟩ | hz
      · exact hnew
      · exact hs1.ids hz
    · rcases Table.get?_insert_cases hzn with ⟨hzy, hn⟩ | hzn'
      · rcases Table.get?_insert_cases hwn with ⟨hwy, -⟩ | hwn'
        · rw [hzy, hwy]
        · exact absurd (hn ▸ hwn') hlarge
      · rcases Table.get?_insert_cases hwn with ⟨-, hn⟩ | hwn'
        · exact absurd (hn ▸ hzn') hlarge
        · exact hs.apart hz hw hzn' hwn'

theorem widening_idFor_frees (y : ResultId) (s : Lowering) :
    (widening Awaits id Reads).Runs (idFor y) s fun n s' => s'.Frees n := by
  intro hs
  obtain ⟨hwidens, hs', hy, -⟩ := widening_idFor y s hs
  exact ⟨hwidens, hs', hs'.ids hy⟩

theorem widening_bindId (hid : ¬ Awaits id) (hn : s.Frees n) :
    (widening Awaits id Reads).Runs (bindId id n) s := by
  intro hs
  have h : s.Widens id Reads s := (Lowering.Aside.refl s).widens
  refine ⟨{ h with ids := fun {z m} hne hz => ?_ },
    { hs with ids := fun {z m} hz => ?_, apart := fun {z w m} hz hw hzm hwm => ?_ }, trivial⟩
  · exact (Table.get?_insert_of_ne hne.symm).trans hz
  · rcases Table.get?_insert_cases hz with ⟨-, rfl⟩ | hz
    · exact hn
    · exact hs.ids hz
  · -- The id that is bound is not waited for.
    have hne : ∀ {y}, Awaits y → ¬ id = y := fun hy heq => hid (heq ▸ hy)
    have hold : ∀ {y}, Awaits y → (s.ids.insert id n).get? y = some m → s.ids.get? y = some m := fun hy hym =>
      (Table.get?_insert_of_ne (hne hy)).symm.trans hym
    exact hs.apart hz hw (hold hz hzm) (hold hw hwm)

theorem bodyRules_widening : BodyRules (widening Awaits id Reads) where
  report p := widening_keeps (aside_report p)
  fresh := widening_keeps bodyRules_aside.fresh
  function g := widening_keeps (bodyRules_aside.function g)
  append insts := widening_keeps (bodyRules_aside.append insts)

/-- **Instructions that move no interface** leave entry points and the tables behind them alone. -/
theorem rules_widening {asm : Assembler} {inst : Instruction} (hop : ¬ movesInterface inst.opcode)
    (hid : ¬ Awaits inst.id) :
    Rules asm (widening Awaits inst.id Reads) (fun n s => s.Frees n) (fun _ _ => True) inst where
  toFlowRules := bodyRules_widening.flowRules inst
  toFormRules := formRules_aside.lift fun h => widening_runs h
  mono h hn := h.frees hn
  fnMono _ _ := trivial
  report p := widening_keeps (aside_report p)
  fresh := widening_fresh
  idFor y s := widening_idFor_frees y s
  bindId := widening_bindId hid
  setPlace _ := widening_keeps (aside_setPlace _ _)
  addParam _ := widening_keeps (aside_apart fun _ => ⟨.refl _, rfl, rfl, rfl, rfl, rfl, fun h => h⟩)
  note h := absurd h hop
  overflow := widening_keeps (aside_apart fun _ => ⟨.refl _, rfl, rfl, rfl, rfl, rfl, fun h => h⟩)
  setStage h := absurd (.inl h) hop
  lowerType y s := widening_runs ((typeRules_aside asm).attempts_lowerTypeAt _ [] y s)
  capability _ := widening_keeps (aside_capability _)
  extension _ := widening_keeps (aside_extension _)
  newType operands _ := widening_keeps (aside_newType _ operands)
  constantIn s _ _ _ _ := widening_constantIn _ _ _ _ s
  extInstSet := widening_keeps aside_extInstSet
  remark _ _ _ _ := widening_keeps (aside_emit _ _)
  global _ _ _ := widening_keeps (aside_emit _ _) _
  block _ := widening_keeps (aside_build fun m => { Module.Accrues.refl m with })
  addEntryPoint h := absurd h hop
  modifyEntryPoint h := absurd h hop

end

end ShaderIR.Spirv
