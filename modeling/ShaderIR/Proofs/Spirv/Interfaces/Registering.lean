import ShaderIR.Proofs.Spirv.Interfaces.Widening

/-!
# Registering variables

A variable behind a built-in or an output is made up, declared, noted and then listed by the entry
point of the open stage.  Over all these steps **the lists only grow, and what is behind the tables
stays apart from everything else**.
-/

namespace ShaderIR.Spirv

open Discipline Spirv.Module

variable {m : ModuleId} {b : BuiltIn}

/-! ## Variables that are made up -/

namespace Lowering

def register (s : Lowering) (n : ModuleId) : Lowering :=
  match s.stage with
  | none => s
  | some o => { s with module := { s.module with entryPoints := s.module.entryPoints.modify o.entry (·.list n) } }

/-- The variable `n` was made up on the way from `s` to `s'`, with steps aside before and after. -/
def MakesUp (s : Lowering) (n : ModuleId) (s' : Lowering) : Prop :=
  ∃ t : Lowering, s.Aside t ∧ n = t.module.nextId ∧ t.bumped.Aside s'

/-- `n` is in use, and stands for nothing yet. -/
structure Spares (s : Lowering) (n : ModuleId) : Prop where
  lt : n < s.module.nextId
  ids : ∀ y, s.ids.get? y ≠ some n
  constants : ∀ key, s.module.constantIds.get? key ≠ some n
  owns : ¬ s.Owns n

variable {Awaits : ResultId → Prop} {id : ResultId} {Reads : ShaderStage → BuiltIn → Prop}
  {s s1 s2 s' : Lowering} {n : ModuleId}

theorem MakesUp.aside (h : s.MakesUp n s') : s.Aside s' := by
  obtain ⟨t, ht, -, ht'⟩ := h
  exact ht.trans (t.aside_bumped.trans ht')

theorem MakesUp.le (h : s.MakesUp n s') : s.module.nextId ≤ n := by
  obtain ⟨t, ht, rfl, -⟩ := h
  exact ht.module.nextId

theorem MakesUp.spares (h : s.MakesUp n s') (hs : s.Numbered Awaits) : s'.Spares n := by
  obtain ⟨t, ht, rfl, ht'⟩ := h
  have hnumbered := ht.numbered hs
  refine ⟨Nat.lt_of_lt_of_le (Nat.lt_succ_self _) ht'.module.nextId, fun y hy => ?_,
    fun key hkey => ?_, fun howns => ?_⟩
  · rw [ht'.ids] at hy
    exact Nat.lt_irrefl _ (hnumbered.ids hy).1
  · rcases ht'.module.constants hkey with hkey | ⟨hle, -⟩
    · exact Nat.lt_irrefl _ (hnumbered.constants hkey).1
    · exact Nat.not_succ_le_self _ hle
  · exact Nat.lt_irrefl _ (hnumbered.owned (ht'.owns_iff.mp howns))

/-- `n` becomes the variable behind something, in tables that are otherwise as they were. -/
structure Takes (Reads : ShaderStage → BuiltIn → Prop) (n : ModuleId) (s s' : Lowering) : Prop where
  module : s'.module = s.module
  ids : s'.ids = s.ids
  stage : s'.stage = s.stage
  builtIns : ∀ {key m}, s.builtIns.get? key = some m → s'.builtIns.get? key = some m
  reads : ∀ {key m}, s'.builtIns.get? key = some m → s.builtIns.get? key = some m ∨
    m = n ∧ s.builtIns.get? key = none ∧ ∃ o, s.stage = some o ∧ key.1 = o.stage ∧ Reads key.1 key.2
  perVertex : s'.perVertex = s.perVertex ∨ s.perVertex = none ∧ s'.perVertex = some n
  fragColor : s'.fragColor = s.fragColor ∨ s.fragColor = none ∧ s'.fragColor = some n
  problems : s'.problems = s.problems

theorem eq_of_set {x x' : Option ModuleId} (h : x' = x ∨ x = none ∧ x' = some n)
    (hm : x' = some m) :
    x = some m ∨ m = n := by
  rcases h with heq | ⟨-, heq⟩
  · exact .inl (heq ▸ hm)
  · rw [heq] at hm
    exact .inr (Option.some.inj hm).symm

theorem eq_some_of_set {x x' : Option ModuleId} (h : x' = x ∨ x = none ∧ x' = some n)
    (hm : x = some m) :
    x' = some m := by
  rcases h with heq | ⟨hnone, -⟩
  · exact heq.trans hm
  · cases hnone.symm.trans hm

namespace Takes

variable (h : Takes Reads n s s')
include h

theorem perVertex_eq (hm : s'.perVertex = some m) : s.perVertex = some m ∨ m = n := eq_of_set h.perVertex hm

theorem fragColor_eq (hm : s'.fragColor = some m) : s.fragColor = some m ∨ m = n := eq_of_set h.fragColor hm

theorem owns (hm : s'.Owns m) : s.Owns m ∨ m = n := by
  rcases hm with ⟨key, hkey⟩ | hm | hm
  · exact (h.reads hkey).imp (fun hkey => .inl ⟨key, hkey⟩) (·.1)
  · exact (h.perVertex_eq hm).imp_left fun hm => .inr (.inl hm)
  · exact (h.fragColor_eq hm).imp_left fun hm => .inr (.inr hm)

theorem persists : s.Persists s' :=
  ⟨h.builtIns, eq_some_of_set h.perVertex, eq_some_of_set h.fragColor, fun _ hi => h.module ▸ hi⟩

theorem frees (hm : s.Frees m) (hne : m ≠ n) : s'.Frees m :=
  ⟨h.module ▸ hm.1, fun howns => (h.owns howns).elim hm.2 hne⟩

theorem numbered (hs : s.Numbered Awaits) (hn : s.Spares n)
    (houtputs : ∀ {key}, s'.builtIns.get? key = some n → s'.perVertex ≠ some n ∧
      s'.fragColor ≠ some n)
    (hbuiltIns : ∀ {stage b}, s'.builtIns.get? (stage, b) = some n →
      s.module.HasVariable b.info.storage n ∧ s.module.MarksBuiltIn b n)
    (hvertex : s'.perVertex = some n → s.module.HasVariable .output n)
    (hcolor : s'.fragColor = some n → s.module.HasVariable .output n) : s'.Numbered Awaits where
  ids {y m} hm := by
    rw [h.ids] at hm
    exact h.frees (hs.ids hm) fun heq => hn.ids y (heq ▸ hm)
  constants {key m} hm := by
    rw [h.module] at hm
    exact h.frees (hs.constants hm) fun heq => hn.constants key (heq ▸ hm)
  owned {m} hm := by
    rw [h.module]
    exact (h.owns hm).elim hs.owned fun heq => heq ▸ hn.lt
  outputs {key m} hm := by
    by_cases heq : m = n
    · rw [heq] at hm ⊢
      exact houtputs hm
    · have hold := (h.reads hm).resolve_right fun hnew => heq hnew.1
      refine ⟨fun hp => ?_, fun hp => ?_⟩
      · exact (hs.outputs hold).1 ((h.perVertex_eq hp).resolve_right heq)
      · exact (hs.outputs hold).2 ((h.fragColor_eq hp).resolve_right heq)
  apart hy hz hyn hzn := hs.apart hy hz (h.ids ▸ hyn) (h.ids ▸ hzn)
  builtIns {stage b m} hm := by
    rw [h.module]
    rcases h.reads hm with hold | ⟨rfl, -⟩
    · exact hs.builtIns hold
    · exact hbuiltIns hm
  perVertex {m} hm := by
    rw [h.module]
    rcases h.perVertex_eq hm with hold | rfl
    · exact hs.perVertex hold
    · exact hvertex hm
  fragColor {m} hm := by
    rw [h.module]
    rcases h.fragColor_eq hm with hold | rfl
    · exact hs.fragColor hold
    · exact hcolor hm

end Takes

/-! ## Registering -/

theorem register_none (h : s.stage = none) (n : ModuleId) : s.register n = s := by rw [register, h]

variable {o : OpenStage}

theorem getElem?_register (h : s.stage = some o) (n : ModuleId) (k : Nat) :
    (s.register n).module.entryPoints[k]? =
      if o.entry =
        k then s.module.entryPoints[k]?.map (·.list n) else s.module.entryPoints[k]? := by
  rw [register, h]
  exact Array.getElem?_modify

theorem register_eq (s : Lowering) (n : ModuleId) :
    s.register n =
      { s with module := { s.module with entryPoints := (s.register n).module.entryPoints } } := by
  unfold register
  split <;> rfl

theorem size_register (s : Lowering) (n : ModuleId) :
    (s.register n).module.entryPoints.size = s.module.entryPoints.size := by
  unfold register
  split
  · rfl
  · exact Array.size_modify

theorem Numbered.register (h : s.Numbered Awaits) (n : ModuleId) :
    (s.register n).Numbered Awaits := by
  rw [register_eq]
  exact { h with }

/-- **Registering widens**, from before the steps aside that made the variable up, if it was made
    up. -/
theorem Takes.widens_register (ht : Takes Reads n s1 s2) (h : s.Aside s1)
    (hn : ∀ key, s.builtIns.get? key ≠ some n)
    (howns : ∀ {m}, s2.Owns m → s.Owns m ∨ s.module.nextId ≤ m) :
    s.Widens id Reads (s2.register n) := by
  have hstage : s2.stage = s.stage := ht.stage.trans h.stage
  have hentries : s2.module.entryPoints = s.module.entryPoints := by rw [ht.module, h.module.entryPoints]
  rw [register_eq]
  refine
    { toPersists := { h.persists.trans ht.persists with }
      stage := hstage
      nextId := ?_
      ids := fun _ hy => ?_
      owns := howns
      reads := fun {key m} hkey => ?_
      size := (s2.size_register n).trans (congrArg Array.size hentries)
      others := fun {k} hk => ?_
      entry := fun {o e} ho he => ?_
      problems := fun hp => h.problems (ht.problems ▸ hp) }
  · rw [ht.module]
    exact h.module.nextId
  · rw [ht.ids, h.ids]
    exact hy
  · rw [← h.builtIns, ← h.stage]
    exact (ht.reads hkey).imp_right fun hnew => hnew.2
  · show (s2.register n).module.entryPoints[k]? = _
    cases ho : s.stage with
    | none => rw [register_none (hstage.trans ho), hentries]
    | some o => rw [getElem?_register (hstage.trans ho), if_neg (hk o ho), hentries]
  · refine ⟨e.list n, ?_, ⟨e.model_list n, e.listed_list n, fun {key m} hkey hm => ?_⟩, fun {key m} hnone hm => ?_⟩
    · show (s2.register n).module.entryPoints[o.entry]? = _
      rw [getElem?_register (hstage.trans ho), if_pos rfl, hentries, he, Option.map_some]
    · refine ((e.mem_list n).mp hm).resolve_right fun hmn => ?_
      exact hn key (hmn ▸ hkey)
    · rcases ht.reads hm with hold | ⟨rfl, -⟩
      · rw [h.builtIns, hnone] at hold
        cases hold
      · exact (e.mem_list m).mpr (.inr rfl)

theorem Takes.refl (s : Lowering) (n : ModuleId) : Takes Reads n s s :=
  ⟨rfl, rfl, rfl, fun h => h, .inl, .inl rfl, .inl rfl, rfl⟩

theorem widens_register (hn : ∀ key, s.builtIns.get? key ≠ some n) :
    s.Widens id Reads (s.register n) :=
  (Takes.refl s n).widens_register (.refl s) hn .inl

theorem MakesUp.widens_register (h : s.MakesUp n s1) (hs : s.Numbered Awaits)
    (ht : Takes Reads n s1 s2) :
    s.Widens id Reads (s2.register n) := by
  refine ht.widens_register h.aside (fun key hkey => ?_) fun {m} hm => ?_
  · exact Nat.lt_irrefl _ (Nat.lt_of_lt_of_le (hs.owned (.inl ⟨key, hkey⟩)) h.le)
  · rcases ht.owns hm with hm | rfl
    · exact .inl (h.aside.owns_iff.mp hm)
    · exact .inr h.le

/-- The entry point of the open stage lists `n`. -/
def Enlists (s : Lowering) (n : ModuleId) : Prop :=
  ∀ {o e}, s.stage = some o → s.module.entryPoints[o.entry]? = some e → n ∈ e.interface

theorem enlists_register (s : Lowering) (n : ModuleId) : (s.register n).Enlists n := by
  intro o e' ho he'
  have hstage : s.stage = some o := (congrArg Lowering.stage (s.register_eq n)).symm.trans ho
  rw [getElem?_register hstage, if_pos rfl] at he'
  obtain ⟨e, -, rfl⟩ := Option.map_eq_some_iff.mp he'
  exact (e.mem_list n).mpr (.inr rfl)

theorem Widens.enlists (h : s.Widens id Reads s') (hn : s.Enlists n) : s'.Enlists n := by
  intro o e' ho he'
  rw [h.stage] at ho
  have hlt : o.entry < s.module.entryPoints.size := by
    rw [← h.size]
    exact (Array.getElem?_eq_some_iff.mp he').1
  obtain ⟨e'', he'', hlists⟩ := h.entry ho (Array.getElem?_eq_getElem hlt)
  rw [he'] at he''
  cases he''
  exact hlists.listed.mem (hn ho (Array.getElem?_eq_getElem hlt))

/-! ## The tables -/

theorem takes_builtIn (ho : s.stage = some o)
    (hnone : s.builtIns.get? (o.stage, b) = none) (hreads : Reads o.stage b) (n : ModuleId) :
    Takes Reads n s { s with builtIns := s.builtIns.insert (o.stage, b) n } where
  module := rfl
  ids := rfl
  stage := rfl
  builtIns hm := Table.get?_insert_of_none hnone hm
  reads hm := by
    rcases Table.get?_insert_cases hm with ⟨rfl, rfl⟩ | hm
    · exact .inr ⟨rfl, hnone, o, ho, rfl, hreads⟩
    · exact .inl hm
  perVertex := .inl rfl
  fragColor := .inl rfl
  problems := rfl

theorem takes_perVertex (hnone : s.perVertex = none) (n : ModuleId) :
    Takes Reads n s { s with perVertex := some n } :=
  ⟨rfl, rfl, rfl, fun h => h, .inl, .inr ⟨hnone, rfl⟩, .inl rfl, rfl⟩

theorem takes_fragColor (hnone : s.fragColor = none) (n : ModuleId) :
    Takes Reads n s { s with fragColor := some n } :=
  ⟨rfl, rfl, rfl, fun h => h, .inl, .inl rfl, .inr ⟨hnone, rfl⟩, rfl⟩

theorem Numbered.takeBuiltIn (hs : s.Numbered Awaits) (hn : s.Spares n)
    (ht : Takes Reads n s { s with builtIns := s.builtIns.insert (o.stage, b) n })
    (hvar : s.module.HasVariable b.info.storage n) (hmark : s.module.MarksBuiltIn b n) :
    Numbered Awaits { s with builtIns := s.builtIns.insert (o.stage, b) n } := by
  refine ht.numbered hs hn (fun _ => ⟨fun h => ?_, fun h => ?_⟩) (fun hkey => ?_) (fun h => ?_) fun h => ?_
  · exact hn.owns (.inr (.inl h))
  · exact hn.owns (.inr (.inr h))
  · rcases Table.get?_insert_cases hkey with ⟨hkey, -⟩ | hkey
    · cases hkey
      exact ⟨hvar, hmark⟩
    · exact absurd (.inl ⟨_, hkey⟩) hn.owns
  · exact absurd (.inr (.inl h)) hn.owns
  · exact absurd (.inr (.inr h)) hn.owns

theorem Numbered.takeOutput (hs : s.Numbered Awaits) (hn : s.Spares n) (ht : Takes Reads n s s')
    (hsame : s'.builtIns = s.builtIns) (hvar : s.module.HasVariable .output n) :
    s'.Numbered Awaits := by
  have hnone : ∀ {key}, s'.builtIns.get? key ≠ some n := fun hkey => hn.owns (.inl ⟨_, hsame ▸ hkey⟩)
  exact ht.numbered hs hn (fun hkey => absurd hkey hnone) (fun hkey => absurd hkey hnone)
    (fun _ => hvar) fun _ => hvar

end Lowering

/-! ## Programs that register -/

section

variable {α β : Type} {Awaits : ResultId → Prop} {id : ResultId} {Reads : ShaderStage → BuiltIn → Prop}
  {s : Lowering} {n : ModuleId}

theorem run_addInterface (s : Lowering) (n : ModuleId) :
    (addInterface n).run s = ((), s.register n) := by
  obtain ⟨module, ids, typeIds, places, params, builtIns, stage, _⟩ := s
  cases stage with
  | none => rfl
  | some o => rfl

/-- No order and no invariant: what a program does is then all in its answer. -/
def unruled : Discipline Lowering where
  Inv _ := True
  Grows _ _ := True
  refl _ := trivial
  trans _ _ := trivial

variable {Q : α → Lowering → Prop}

theorem unruled_of_aside {x : Lower α} (h : aside.Runs x s Q) :
    unruled.Runs x s fun a s' => s.Aside s' ∧ Q a s' := by
  intro _
  obtain ⟨haside, -, hpost⟩ := h trivial
  exact ⟨trivial, trivial, haside, hpost⟩

theorem widening_of_unruled {x : Lower α} (h : s.Numbered Awaits →
      unruled.Runs x s fun a s' => s.Widens id Reads s' ∧ s'.Numbered Awaits ∧ Q a s') :
    (widening Awaits id Reads).Runs x s Q := fun hs => (h hs trivial).2.2

theorem unruled_take {f : Lowering → Lowering} {a : α} (h : Q a ((f s).register n)) :
    unruled.Runs (do modify f; addInterface n; return a) s Q := by
  intro _
  refine ⟨trivial, trivial, ?_⟩
  change Q a ((addInterface n).run (f s)).2
  rw [run_addInterface]
  exact h

theorem widening_addInterface (hn : ∀ key, s.builtIns.get? key ≠ some n) :
    (widening Awaits id Reads).Runs (addInterface n) s fun _ s' => s' = s.register n := by
  intro hs
  rw [run_addInterface]
  exact ⟨Lowering.widens_register hn, hs.register n, rfl⟩

/-! ### Declarations -/

theorem aside_builtInType (shape : BuiltInShape) :
    aside.Keeps (Lower.ofBuild (builtInType shape)) := by
  have hscalar : aside.Keeps (Lower.ofBuild (builtInScalarType shape.scalar)) := by
    unfold builtInScalarType
    split
    · exact aside_type _ _
    · exact formRules_aside.intType 32 true
    · exact formRules_aside.intType 32 false
    · exact formRules_aside.floatType 32
  refine keeps_ofBuild_bind hscalar fun scalar => ?_
  split
  · exact keeps_ofBuild_pure scalar
  · exact aside_type _ _

theorem aside_variable (pointer n : ModuleId) (storage : StorageClass) (s : Lowering) :
    aside.Runs (Lower.ofBuild (.emit .globals
      { op := .variable, resultType := some pointer, result := some n,
        operands := [.literal storage.code] })) s fun _ s' => s'.module.HasVariable storage n := by
  intro _
  refine ⟨(aside_emit _ _ s trivial).1, trivial, pointer, ?_⟩
  exact s.module.mem_contents_emit .globals (Rules.fits_variable pointer n storage none)

theorem aside_mark (b : BuiltIn) (n : ModuleId) (s : Lowering) :
    aside.Runs (Lower.ofBuild (.decorate n .builtIn [b.info.code])) s
      fun _ s' => s'.module.MarksBuiltIn b n := by
  intro _
  refine ⟨(aside_emit _ _ s trivial).1, trivial, ?_⟩
  exact s.module.mem_contents_emit .annotations rfl

/-! ### Built-ins and outputs -/

/-- **The variable behind a built-in** is noted for the stage that is open. -/
theorem widening_builtInPlace {o : OpenStage} (ho : s.stage = some o) (hreads : Reads o.stage b) :
    (widening Awaits id Reads).Runs (builtInPlace o.stage b) s
      fun place s' => s'.builtIns.get? (o.stage, b) = some place.pointer := by
  refine widening_of_unruled fun hs => ?_
  refine (unruled_of_aside (aside_builtInType _ s)).bind fun pointee s1 _ h1 => ?_
  refine .get_bind ?_
  cases hkey : s1.builtIns.get? (o.stage, b) with
  | some var => exact .pure ⟨h1.1.widens, h1.1.numbered hs, hkey⟩
  | none =>
    refine (unruled_of_aside (Keeps.forM_option aside_capability s1)).bind fun _ s2 _ h2 => ?_
    refine (unruled_of_aside (aside_fresh s2)).bind fun var s3 _ ⟨_, hvar, hs3⟩ => ?_
    refine (unruled_of_aside (aside_type _ _ s3)).bind fun pointer s4 _ h4 => ?_
    refine (unruled_of_aside (aside_variable pointer var _ s4)).bind fun _ s5 _ h5 => ?_
    refine (unruled_of_aside (aside_mark b var s5)).bind fun _ s6 _ h6 => ?_
    refine (unruled_of_aside (aside_emit .debug _ s6)).bind fun _ s7 _ h7 => ?_
    have h57 : s5.Aside s7 := h6.1.trans h7.1
    have hmade : s.MakesUp var s7 := ⟨s2, h1.1.trans h2.1, hvar, hs3 ▸ h4.1.trans (h5.1.trans h57)⟩
    have hs7 : s7.Numbered Awaits := hmade.aside.numbered hs
    have hnone : s7.builtIns.get? (o.stage, b) = none := by
      rw [hmade.aside.builtIns, ← h1.1.builtIns]
      exact hkey
    have ht : s7.Takes Reads var _ := Lowering.takes_builtIn (hmade.aside.stage.trans ho) hnone hreads var
    refine unruled_take ⟨hmade.widens_register hs ht, Lowering.Numbered.register ?_ _, ?_⟩
    · exact hs7.takeBuiltIn (hmade.spares hs) ht (h57.module.hasVariable h5.2) (h7.1.module.annotations _ h6.2)
    · rw [Lowering.register_eq]
      exact Table.get?_insert_self

theorem widening_perVertexBlock (s : Lowering) : (widening Awaits id Reads).Runs perVertexBlock s
      fun n s' => s'.perVertex = some n ∧ s'.Enlists n := by
  refine .of_inv fun hs => .get_bind ?_
  cases hvertex : s.perVertex with
  | some var =>
    have hn : ∀ key, s.builtIns.get? key ≠ some var := fun key hkey => (hs.outputs hkey).1 hvertex
    refine (widening_addInterface hn).bind fun _ s' _ hs' => .pure ?_
    rw [hs']
    exact ⟨(congrArg Lowering.perVertex (s.register_eq var)).trans hvertex, s.enlists_register var⟩
  | none =>
    refine widening_of_unruled fun hs => ?_
    refine (unruled_of_aside (formRules_aside.floatType 32 s)).bind fun float s1 _ h1 => ?_
    refine (unruled_of_aside (aside_type _ _ s1)).bind fun position s2 _ h2 => ?_
    refine (unruled_of_aside (formRules_aside.arrayType 1 trivial)).bind fun distances s3 _ h3 => ?_
    refine (unruled_of_aside (aside_newType _ _ s3)).bind fun block s4 _ h4 => ?_
    refine (unruled_of_aside (aside_emit .annotations _ s4)).bind fun _ s5 _ h5 => ?_
    refine (unruled_of_aside (aside_emit .debug _ s5)).bind fun _ s6 _ h6 => ?_
    refine (unruled_of_aside (Keeps.forM (fun e =>
      Keeps.bind (aside_emit .annotations _) fun _ => aside_emit .debug _) s6)).bind fun _ s7 _ h7 => ?_
    refine (unruled_of_aside (aside_type _ _ s7)).bind fun pointer s8 _ h8 => ?_
    have h : s.Aside s8 := h1.1.trans (h2.1.trans (h3.1.trans (h4.1.trans
      (h5.1.trans (h6.1.trans (h7.1.trans h8.1))))))
    refine (unruled_of_aside (aside_fresh s8)).bind fun var s9 _ ⟨_, hvar, hs9⟩ => ?_
    refine (unruled_of_aside (aside_variable pointer var _ s9)).bind fun _ s' _ h' => ?_
    have hmade : s.MakesUp var s' := ⟨s8, h, hvar, hs9 ▸ h'.1⟩
    have ht : s'.Takes Reads var _ := Lowering.takes_perVertex (hmade.aside.perVertex.trans hvertex) var
    refine unruled_take ⟨hmade.widens_register hs ht, Lowering.Numbered.register ?_ _, ?_,
      Lowering.enlists_register _ var⟩
    · exact (hmade.aside.numbered hs).takeOutput (hmade.spares hs) ht rfl h'.2
    · exact congrArg Lowering.perVertex (Lowering.register_eq _ var)

theorem widening_fragColorOutput (type : ModuleId) (s : Lowering) :
    (widening Awaits id Reads).Runs (fragColorOutput type) s
      fun n s' => s'.fragColor = some n ∧ s'.Enlists n := by
  refine .of_inv fun hs => .get_bind ?_
  cases hcolor : s.fragColor with
  | some var =>
    have hn : ∀ key, s.builtIns.get? key ≠ some var := fun key hkey => (hs.outputs hkey).2 hcolor
    refine (widening_addInterface hn).bind fun _ s' _ hs' => .pure ?_
    rw [hs']
    exact ⟨(congrArg Lowering.fragColor (s.register_eq var)).trans hcolor, s.enlists_register var⟩
  | none =>
    refine widening_of_unruled fun hs => ?_
    refine (unruled_of_aside (aside_type _ _ s)).bind fun pointer s1 _ h1 => ?_
    refine (unruled_of_aside (aside_fresh s1)).bind fun var s2 _ ⟨_, hvar, hs2⟩ => ?_
    refine (unruled_of_aside (aside_variable pointer var _ s2)).bind fun _ s3 _ h3 => ?_
    refine (unruled_of_aside (aside_emit .annotations _ s3)).bind fun _ s4 _ h4 => ?_
    refine (unruled_of_aside (aside_emit .debug _ s4)).bind fun _ s' _ h' => ?_
    have h3' : s3.Aside s' := h4.1.trans h'.1
    have hmade : s.MakesUp var s' := ⟨s1, h1.1, hvar, hs2 ▸ h3.1.trans h3'⟩
    have ht : s'.Takes Reads var _ := Lowering.takes_fragColor (hmade.aside.fragColor.trans hcolor) var
    refine unruled_take ⟨hmade.widens_register hs ht, Lowering.Numbered.register ?_ _, ?_,
      Lowering.enlists_register _ var⟩
    · exact (hmade.aside.numbered hs).takeOutput (hmade.spares hs) ht rfl (h3'.module.hasVariable h3.2)
    · exact congrArg Lowering.fragColor (Lowering.register_eq _ var)

end

end ShaderIR.Spirv
