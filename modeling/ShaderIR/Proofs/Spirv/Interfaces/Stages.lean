import ShaderIR.Proofs.Spirv.Interfaces.Registering
import ShaderIR.Proofs.Spirv.Requirements.View

/-!
# What the instructions of a stage register

Interface variables are listed when they are declared, and variables behind built-ins and outputs
when they are made up.  The marker that opens a stage adds its entry point; the marker that closes
it fills in the function.
-/

namespace ShaderIR.Spirv

open Discipline Spirv.Module

variable {id : ResultId}

variable {Awaits : ResultId → Prop} {Reads : ShaderStage → BuiltIn → Prop} {asm : Assembler}
  {inst : Instruction} {s s' : Lowering}

/-! ## Interface variables -/

def interfaceStorage (inst : Instruction) : StorageClass := if inst.opcode = .inputVar then .input else .output

theorem interfaceStorage_ne (inst : Instruction) : interfaceStorage inst ≠ .function := by
  unfold interfaceStorage
  split <;> nofun

theorem aside_declareVariable {source : Instruction} {n pointee : ModuleId} {storage : StorageClass}
    (h : storage ≠ .function) (s : Lowering) :
    aside.Runs (declareVariable source n storage pointee none).run s fun a s' =>
      a.isSome = true ∧ s'.module.HasVariable storage n := by
  refine .lift_bind (aside_type _ _ s) fun pointer s1 _ _ => ?_
  rw [if_neg h]
  refine .lift_bind (aside_variable pointer n storage s1) fun _ s2 _ hvar => ?_
  exact .pure ⟨rfl, hvar⟩

/-- On the way from `s` to `s'` an interface variable was declared under its id, and listed. -/
def Lowering.Declares (s : Lowering) (inst : Instruction) (s' : Lowering) : Prop :=
  ∃ n, s'.ids.get? inst.id = some n ∧ (∀ {m}, s.ids.get? inst.id = some m → m = n) ∧
    s'.module.HasVariable (interfaceStorage inst) n ∧ s'.Enlists n

theorem widening_interfaceVariable (s : Lowering) :
    (widening Awaits inst.id Reads).Runs (interfaceVariable asm inst).run s fun _ s' =>
      s'.problems = #[] → s.Declares inst s' := by
  refine .run_bind (widening_aside ((typeRules_aside asm).runs_requireType aside_report inst _ s))
    (fun _ h hp => absurd hp h.2) fun pointee s1 _ ⟨h1, _⟩ => ?_
  refine .lift_bind (widening_idFor inst.id s1) fun n s2 _ hn => .of_inv fun hs2 => ?_
  refine .run_bind (widening_aside (aside_declareVariable (interfaceStorage_ne inst) s2))
    (fun _ h => by cases h.2.1) fun place s3 _ ⟨h3, _, hvar⟩ => ?_
  refine .lift_bind (widening_aside (aside_emit .annotations _ s3)) fun _ s4 _ h4 => ?_
  refine .lift_bind (widening_aside (aside_setPlace _ _ s4)) fun _ s5 _ h5 => ?_
  have h35 : s3.Aside s5 := h4.1.trans h5.1
  have h : s2.Aside s5 := h3.trans h35
  -- The id stands for a variable of its own, so it is listed like one that was there.
  have hfree : ∀ key, s5.builtIns.get? key ≠ some n :=
    fun key hkey => (h.frees (hs2.ids hn.1)).2 (.inl ⟨key, hkey⟩)
  refine .lift_bind (x := addInterface n) (widening_addInterface hfree) fun _ s' _ hs' => .pure fun _ => ?_
  rw [hs']
  refine ⟨n, ?_, fun {m} hm => ?_, ?_, s5.enlists_register n⟩
  · rw [congrArg Lowering.ids (s5.register_eq n), h.ids]
    exact hn.1
  · rw [← h1.ids] at hm
    exact Option.some.inj ((hn.2 hm).symm.trans hn.1)
  · rw [Lowering.register_eq]
    exact h35.module.hasVariable hvar

/-! ## Built-ins -/

/-- The member of the vertex output block that an instruction reads. -/
def memberRead? (stage : Option ShaderStage) (inst : Instruction) : Option UInt32 :=
  if inst.opcode = .builtIn then (BuiltIn.ofCode? inst.operands.fst.toNat).bind (perVertexMember? stage) else none

/-- An instruction of the open stage reads a built-in through the variable that is noted for it, or
    the vertex output block, which is listed. -/
structure Lowering.Serves (s : Lowering) (o : OpenStage) (inst : Instruction) (s' : Lowering) :
    Prop where
  builtIn : ∀ {b}, builtInRead? (some o.stage) inst = some b →
    s'.builtIns.get? (o.stage, b) = some ((builtInPlace o.stage b).run s).1.pointer
  member : ∀ {index}, memberRead? (some o.stage) inst = some index → ∃ n, s'.perVertex = some n ∧ s'.Enlists n

theorem Lowering.Serves.widens {o : OpenStage} {s1 : Lowering} (hs : s.Serves o inst s1)
    (h : s1.Widens id Reads s') : s.Serves o inst s' where
  builtIn hb := h.builtIns (hs.builtIn hb)
  member hm := (hs.member hm).imp fun _ hn => ⟨h.perVertex hn.1, h.enlists hn.2⟩

variable {α : Type}

theorem widening_servingPlace {o : OpenStage} {b : BuiltIn} (ho : s.stage = some o)
    (hb : builtInRead? (some o.stage) inst = some b)
    (hmember : memberRead? (some o.stage) inst = none) (hreads : Reads o.stage b) :
    (widening Awaits id Reads).Runs (builtInPlace o.stage b) s fun _ s' => s.Serves o inst s' := by
  intro hs
  obtain ⟨hwidens, hnumbered, hplace⟩ := widening_builtInPlace ho hreads hs
  refine ⟨hwidens, hnumbered, fun hb' => ?_, fun hm => ?_⟩
  · rw [hb] at hb'
    cases hb'
    exact hplace
  · rw [hmember] at hm
    cases hm

theorem rules_reading (asm : Assembler) (hid : ¬ Awaits inst.id) :
    Rules asm (widening Awaits inst.id Reads) (fun n s => s.Frees n) (fun _ _ => True)
      { inst with opcode := .ret } := by
  have hop : ¬ movesInterface ({ inst with opcode := .ret } : Instruction).opcode := by
    simp [movesInterface, movesStage]
  exact rules_widening hop hid

theorem widening_perVertexPlace (hid : ¬ Awaits inst.id) (b : BuiltIn) (index : UInt32)
    (s : Lowering) :
    (widening Awaits inst.id Reads).Runs (perVertexPlace inst b index).run s fun _ s' =>
      ∃ n, s'.perVertex = some n ∧ s'.Enlists n := by
  refine .lift_bind (widening_keeps (aside_builtInType _) s) fun pointee s1 _ _ => ?_
  refine .lift_bind (widening_perVertexBlock s1) fun n s2 _ hn => ?_
  have hchain : (widening Awaits inst.id Reads).Attempts _ := Rules.attempts_of_turnsOr [pointee] fun s0 =>
    (((rules_reading default hid).steps s0).perVertexChain inst List.mem_cons_self n index).weaken
      (fun _ _ hs => ⟨_, hs⟩) fun _ hs => hs
  refine .mono (hchain s2) fun _ s' h _ => ?_
  exact ⟨n, h.perVertex hn.1, h.enlists hn.2⟩

theorem runs_given {α β : Type} {D : Discipline Lowering} {a : α} {f : α → Attempt β}
    {Q : Option β → Lowering → Prop} (h : D.Runs (f a).run s Q) :
    D.Runs (orGiveUp (some a) >>= f).run s Q := h

theorem builtInRead?_of_opcode (hop : inst.opcode = .builtIn) (stage : Option ShaderStage) :
    builtInRead? stage inst =
      (BuiltIn.ofCode? inst.operands.fst.toNat).filter fun b =>
        (perVertexMember? stage b).isNone := by
  rw [builtInRead?, hop]

theorem memberRead?_of_opcode (hop : inst.opcode = .builtIn) (stage : Option ShaderStage) :
    memberRead? stage inst =
      (BuiltIn.ofCode? inst.operands.fst.toNat).bind (perVertexMember? stage) :=
  if_pos hop

theorem widening_builtInValue (hid : ¬ Awaits inst.id) (hop : inst.opcode = .builtIn)
    (hreads : ∀ {stage b}, builtInRead? (some stage) inst = some b → Reads stage b) (s : Lowering) :
    (widening Awaits inst.id Reads).Runs (builtInValue asm inst).run s fun _ s' =>
      ∀ {o}, s.stage = some o → s.Serves o inst s' := by
  have hR : Rules asm (widening Awaits inst.id Reads) _ _ _ := rules_reading asm hid
  have hread : ∀ b place, (widening Awaits inst.id Reads).Attempts (readBuiltIn asm inst b place) :=
    fun b place =>
    Rules.attempts_of_turnsOr [] fun s0 => (((hR.steps s0).lane inst rfl 0).joint_readBuiltIn (by rfl) b place).1
  unfold builtInValue
  extract_lets code
  cases hcode : BuiltIn.ofCode? code.toNat with
  | none =>
    refine Runs.mono (Attempts.lift (hR.report _) s) fun _ s' _ _ o _ => ⟨fun hb => ?_, fun hm => ?_⟩
    · rw [builtInRead?_of_opcode hop, hcode] at hb
      cases hb
    · rw [memberRead?_of_opcode hop, hcode] at hm
      cases hm
  | some b =>
    refine .read_bind ?_
    cases ho : s.stage with
    | none =>
      refine .pure fun hstage => ?_
      cases hstage
    | some o =>
      -- The place is found first; what is read from it then is the same in both cases.
      refine runs_given ?_
      cases hmember : perVertexMember? (some o.stage) b with
      | some index =>
        have hserves : ∀ {s1}, (∃ n, s1.perVertex = some n ∧ s1.Enlists n) → s.Serves o inst s1 := by
          refine fun hblock => ⟨fun hb => ?_, fun _ => hblock⟩
          rw [builtInRead?_of_opcode hop, hcode, Option.filter_some, hmember] at hb
          cases hb
        refine .run_bind (widening_perVertexPlace hid b index s) (fun s1 hblock _ heq => ?_)
          fun place s1 _ hblock => .mono (hread b place s1) fun _ s' h _ _ heq => ?_
        all_goals cases heq
        · exact hserves hblock
        · exact (hserves hblock).widens h
      | none =>
        have hb : builtInRead? (some o.stage) inst = some b := by
          rw [builtInRead?_of_opcode hop, hcode, Option.filter_some, hmember]
          rfl
        have hnone : memberRead? (some o.stage) inst = none := by
          rw [memberRead?_of_opcode hop, hcode, Option.bind_some, hmember]
        refine .lift_bind (widening_servingPlace ho hb hnone (hreads hb)) fun place s1 _ hserves => ?_
        refine .mono (hread b place s1) fun _ s' h _ _ heq => ?_
        cases heq
        exact hserves.widens h

theorem widening_invocationLane (hid : ¬ Awaits inst.id) {b : BuiltIn}
    (hb : ∀ stage, builtInRead? stage inst = some b) (hop : inst.opcode ≠ .builtIn)
    (hreads : ∀ {stage b}, builtInRead? (some stage) inst = some b → Reads stage b) (s : Lowering) :
    (widening Awaits inst.id Reads).Runs (invocationLane asm inst b).run s fun _ s' =>
      ∀ {o}, s.stage = some o → s.Serves o inst s' := by
  have hR : Rules asm (widening Awaits inst.id Reads) _ _ _ := rules_reading asm hid
  refine .read_bind ?_
  cases ho : s.stage with
  | none => exact .pure nofun
  | some o =>
    refine runs_given (.lift_bind (widening_servingPlace ho (hb _) (if_neg hop) (hreads (hb _)))
      fun place s1 _ hserves => ?_)
    have hend : ∀ {o'}, some o = some o' → ∀ {s'}, s1.Widens inst.id Reads s' → s.Serves o' inst s' := by
      intro o' heq s' h
      cases heq
      exact hserves.widens h
    extract_lets lane read
    have hread : (widening Awaits inst.id Reads).Attempts (read ()) :=
      Rules.attempts_of_turnsOr [] fun s0 =>
        (((hR.steps s0).lane inst rfl 0).joint_readLane (by rfl) lane place).1
    split
    · refine .mono (((hR.attempts_giveUp inst _).bind fun _ => hread) s1) fun _ s' h _ _ heq => ?_
      exact hend heq h
    · exact .mono (hread s1) fun _ s' h _ _ heq => hend heq h

/-! ## Any instruction between the markers -/

/-- What an instruction in the open stage leaves behind: the variables that it declares or reads. -/
structure Lowering.Provides (s : Lowering) (o : OpenStage) (inst : Instruction) (s' : Lowering) :
    Prop
    extends s.Serves o inst s' where
  declared : inst.opcode = .inputVar ∨ inst.opcode = .outputVar → s.Declares inst s'

theorem Lowering.serves_of_opcode (s : Lowering) (o : OpenStage) (s' : Lowering)
    (hbuiltIn : inst.opcode ≠ .builtIn) (hpos : inst.opcode ≠ .invokePos)
    (hsize : inst.opcode ≠ .invokeSize) : s.Serves o inst s' where
  builtIn hb := by
    unfold builtInRead? at hb
    split at hb
    next h => exact absurd h hpos
    next h => exact absurd h hsize
    next h => exact absurd h hbuiltIn
    next => cases hb
  member hm := by
    rw [memberRead?, if_neg hbuiltIn] at hm
    cases hm

/-- **One instruction between the markers** registers the variables that it declares or reads. -/
theorem widening_attempt (hid : ¬ Awaits inst.id) (hstage : ¬ movesStage inst.opcode)
    (hreads : ∀ {stage b}, builtInRead? (some stage) inst = some b → Reads stage b) (i : Nat)
    (s : Lowering) :
    (widening Awaits inst.id Reads).Runs (attempt asm i inst).run s fun _ s' =>
      s'.problems = #[] → ∀ {o}, s.stage = some o → s.Provides o inst s' := by
  by_cases hinterface : movesInterface inst.opcode
  · rcases hinterface with hop | hop | hop | hop | hop | hop
    · exact absurd hop hstage
    all_goals unfold attempt; rw [hop]
    iterate 2
      · refine (widening_interfaceVariable s).mono fun _ s' _ hvar hp o _ => ⟨?_, fun _ => hvar hp⟩
        apply s.serves_of_opcode o s' <;> rw [hop] <;> nofun
    · refine (widening_builtInValue hid hop hreads s).mono fun _ s' _ hserves _ o ho => ⟨hserves ho, ?_⟩
      rw [hop]
      nofun
    all_goals
      refine (widening_invocationLane hid (fun _ => ?_) ?_ hreads s).mono
        fun _ s' _ hserves _ o ho => ⟨hserves ho, ?_⟩
      · rw [builtInRead?, hop]
      all_goals rw [hop]; nofun
  · refine .mono ((rules_widening hinterface hid).attempts_attempt i s) fun _ s' _ _ _ o _ => ⟨?_, fun hop => ?_⟩
    · apply s.serves_of_opcode o s' <;> exact fun hop => hinterface (by simp [movesInterface, hop])
    · exact absurd (by rcases hop with hop | hop <;> simp [movesInterface, hop]) hinterface

/-! ## The marker that opens a stage -/

def Lowering.opened (s : Lowering) (stage : ShaderStage) (interface : List ModuleId) : Lowering :=
  { s with
    module := { s.module with
      entryPoints := s.module.entryPoints.push { model := stage.executionModel, interface } }
    stage := some { stage, entry := s.module.entryPoints.size } }

theorem unruled_of_widening {x : Lower α} {Q : α → Lowering → Prop}
    (hs : s.Numbered Awaits) (h : (widening Awaits id Reads).Runs x s Q) :
    unruled.Runs x s fun a s' => s.Widens id Reads s' ∧ s'.Numbered Awaits ∧ Q a s' :=
  fun _ => ⟨trivial, trivial, h hs⟩

theorem widening_mapM_idFor (ys : List ResultId) (s : Lowering) :
    (widening Awaits id Reads).Runs (ys.mapM fun y => (liftM (idFor y) : Attempt ModuleId)).run s
      fun a s' =>
      (∃ ns, a = some ns ∧ ys.map s'.ids.get? = ns.map some) ∧
        ∀ {z m}, s.ids.get? z = some m → s'.ids.get? z = some m := by
  induction ys generalizing s with
  | nil =>
    rw [List.mapM_nil]
    exact .pure ⟨⟨[], rfl, rfl⟩, fun hz => hz⟩
  | cons y rest ih =>
    rw [List.mapM_cons]
    refine .lift_bind (widening_idFor y s) fun n s1 _ hn => ?_
    refine .run_bind (ih s1) (fun _ ⟨⟨_, ha, _⟩, _⟩ => by cases ha) fun ns s2 _ ⟨⟨_, rfl, hns⟩, hkept⟩ => ?_
    refine .pure ⟨⟨n :: ns, rfl, ?_⟩, fun hz => hkept (hn.2 hz)⟩
    rw [List.map_cons, List.map_cons, hkept hn.1, hns]

theorem widening_forM_option {f : α → Build Unit}
    (h : ∀ a, aside.Keeps (Lower.ofBuild (f a))) (o : Option α) (s : Lowering) :
    (widening Awaits id Reads).Runs (o.forM fun a => (onModule (f a) : Attempt Unit)).run s
      fun a _ => a = some () := by
  cases o with
  | none => exact .pure rfl
  | some a => exact .bind (widening_keeps (h a) s) fun _ _ _ _ => .pure rfl

/-- On the way from `s` to `s'` a stage is opened, with an entry point that lists `ys`. -/
def Lowering.Opens (s : Lowering) (Awaits : ResultId → Prop) (id : ResultId)
    (Reads : ShaderStage → BuiltIn → Prop) (ys : List ResultId) (stage : ShaderStage)
    (s' : Lowering) : Prop :=
  ∃ interface t, s.Widens id Reads t ∧ t.Numbered Awaits ∧ ys.map t.ids.get? = interface.map some ∧
    s' = t.opened stage interface

namespace Lowering.Opens

variable {s1 : Lowering} {id : ResultId} {ys : List ResultId} {stage : ShaderStage}

theorem of_widens (h : s1.Opens Awaits id Reads ys stage s') (hw : s.Widens id Reads s1) :
    s.Opens Awaits id Reads ys stage s' := by
  obtain ⟨interface, t, ht, hopened⟩ := h
  exact ⟨interface, t, hw.trans ht, hopened⟩

theorem problems (h : s.Opens Awaits id Reads ys stage s') (hp : s'.problems = #[]) :
    s.problems = #[] := by
  obtain ⟨interface, t, ht, -, -, rfl⟩ := h
  exact ht.problems hp

end Lowering.Opens

theorem aside_problem (source : Instruction) (message : String) (s : Lowering) :
    aside.Runs (problem source message) s fun _ s' => s'.problems ≠ #[] :=
  fun _ => ⟨(aside_report _ s trivial).1, trivial, Array.push_ne_empty⟩

theorem runs_problem_bind {message : String} {f : Unit → Attempt Unit} (hs : s.Numbered Awaits)
    (h : ∀ s1, s1.Numbered Awaits →
      unruled.Runs (f ()).run s1 fun _ s' => s'.problems = #[] → s1.problems = #[]) :
    unruled.Runs (liftM (problem inst message) >>= f : Attempt Unit).run s fun _ s' =>
      s'.problems ≠ #[] := by
  refine .lift_bind (unruled_of_aside (aside_problem inst message s)) fun _ s1 _ ⟨h1, hproblem⟩ => ?_
  exact (h s1 (h1.numbered hs)).mono fun _ s' _ hback hp => hproblem (hback hp)

/-- **A stage is opened** by one entry point, which lists the interface variables that follow. -/
theorem runs_beginStage (hs : s.Numbered Awaits) (i : Nat) :
    unruled.Runs (beginStage asm i inst).run s fun _ s' => s'.problems = #[] →
      s.stage = none ∧ ∃ stage, ShaderStage.ofCode? inst.operands.fst.toNat = some stage ∧
        s.Opens Awaits inst.id Reads (stageInterface asm i) stage s' := by
  unfold beginStage
  extract_lets code vars
  cases hcode : ShaderStage.ofCode? code.toNat with
  | none => exact fun _ => ⟨trivial, trivial, fun hp => absurd hp Array.push_ne_empty⟩
  | some stage =>
    refine .read_bind ?_
    extract_lets enter start
    have henter : ∀ {s1}, s1.Numbered Awaits →
        unruled.Runs (enter ()).run s1 fun _ s' => s1.Opens Awaits inst.id Reads vars stage s' := by
      intro s1 hs1
      have hids : (widening Awaits inst.id Reads).Runs _ s1 _ := widening_mapM_idFor vars s1
      refine .run_bind (unruled_of_widening hs1 hids) (fun _ ⟨_, _, ⟨_, ha, _⟩, _⟩ => by cases ha)
        fun ns t _ ⟨ht, hnumbered, ⟨_, rfl, hns⟩, _⟩ _ => ?_
      exact ⟨trivial, trivial, ns, t, ht, hnumbered, hns, rfl⟩
    have hstart : ∀ {s1}, s1.Numbered Awaits → unruled.Runs (start ()).run s1 fun _ s' =>
          s'.problems = #[] → s1.Opens Awaits inst.id Reads vars stage s' := by
      intro s1 hs1
      have hcapability : (widening Awaits inst.id Reads).Runs _ s1 _ :=
        widening_forM_option aside_capability stage.capability? s1
      refine .run_bind (unruled_of_widening hs1 hcapability) (fun _ h => by cases h.2.2)
        fun _ s2 _ ⟨h2, hs2, _⟩ => ?_
      have hextension : (widening Awaits inst.id Reads).Runs _ s2 _ :=
        widening_forM_option aside_extension stage.extension? s2
      refine .run_bind (unruled_of_widening hs2 hextension) (fun _ h => by cases h.2.2)
        fun _ s3 _ ⟨h3, hs3, _⟩ => ?_
      have h13 : s1.Widens inst.id Reads s3 := h2.trans h3
      split
      · exact (runs_problem_bind hs3 fun s4 hs4 => (henter hs4).mono fun _ _ _ h hp => h.problems hp).mono
          fun _ _ _ hproblem hp => absurd hp hproblem
      · exact (henter hs3).mono fun _ _ _ h _ => h.of_widens h13
    cases ho : s.stage with
    | some outer =>
      exact (runs_problem_bind hs fun s1 hs1 => (hstart hs1).mono fun _ _ _ h hp => (h hp).problems hp).mono
        fun _ _ _ hproblem hp => absurd hp hproblem
    | none => exact (hstart hs).mono fun _ _ _ h hp => ⟨rfl, stage, rfl, h hp⟩

/-! ## The marker that closes a stage -/

def Lowering.output? (s : Lowering) : ShaderStage → Option ModuleId
  | .vertex => s.perVertex
  | .fragment => s.fragColor
  | _ => none

def Lowering.HasOutput (s : Lowering) (stage : ShaderStage) : Prop := ∃ n, s.output? stage = some n ∧ s.Enlists n

theorem Lowering.Persists.output {stage : ShaderStage} {n : ModuleId} (h : s.Persists s')
    (hn : s.output? stage = some n) : s'.output? stage = some n := by
  cases stage with
  | vertex => exact h.perVertex hn
  | fragment => exact h.fragColor hn
  | _ => cases hn

theorem Lowering.Widens.hasOutput {stage : ShaderStage} (h : s.Widens id Reads s')
    (hs : s.HasOutput stage) : s'.HasOutput stage :=
  hs.imp fun _ hn => ⟨h.output hn.1, h.enlists hn.2⟩

theorem widening_storeResult (stage : ShaderStage) (type result : ModuleId) (s : Lowering) :
    (widening Awaits id Reads).Runs (storeResult inst stage type result) s fun _ s' =>
      s'.problems = #[] → s'.HasOutput stage := by
  unfold storeResult
  split
  · refine (widening_perVertexBlock s).bind fun block s1 _ hblock => ?_
    have hword : aside.Keeps (Lower.ofBuild (.word true 0)) :=
      keeps_ofBuild_bind (formRules_aside.intType 32 true) fun type s => (aside_constantIn _ type _ _ s).weaken
    refine (widening_keeps hword s1).bind fun first s2 h2 _ => ?_
    refine (widening_keeps (aside_type _ _) s2).bind fun pointer s3 h3 _ => ?_
    refine (widening_fresh s3).bind fun position s4 h4 _ => .pure fun _ => ?_
    have h : s1.Widens id Reads s4 := h2.trans (h3.trans h4)
    exact ⟨block, h.perVertex hblock.1, h.enlists hblock.2⟩
  · exact (widening_fragColorOutput type s).bind fun color s1 _ hcolor => .pure fun _ => ⟨color, hcolor⟩
  · exact (widening_runs (aside_problem inst _ s)).bind fun _ s1 _ hproblem =>
      Runs.pure fun hp => absurd hp hproblem

/-- **The function that calls the entry function of a stage** writes to an output that is listed. -/
theorem widening_wrapEntry (stage : ShaderStage) (target : ModuleId) (s : Lowering) :
    (widening Awaits id Reads).Runs (wrapEntry asm inst stage target) s fun _ s' =>
      s'.problems = #[] →
      returnsSomething asm (Check.entryResult asm inst) = true → s'.HasOutput stage := by
  unfold wrapEntry
  extract_lets resultType returns
  refine (widening_keeps (aside_type _ _) s).bind fun void s1 _ _ => ?_
  extract_lets wrap
  have hwrap : ∀ type s1, (widening Awaits id Reads).Runs (wrap type) s1 fun _ s' => s'.problems = #[] →
      returns = true → s'.HasOutput stage := by
    intro type s1
    refine (widening_keeps (aside_type _ _) s1).bind fun functionType s2 _ _ => ?_
    refine (widening_fresh s2).bind fun main s3 _ _ => ?_
    refine (widening_fresh s3).bind fun label s4 _ _ => ?_
    refine (widening_fresh s4).bind fun result s5 _ _ => ?_
    extract_lets write
    have hwrite : ∀ stores s', (widening Awaits id Reads).Runs (write stores) s' fun _ s'' => True := by
      intro stores s'
      refine (widening_keeps (bodyRules_aside.append _) s').bind fun _ s'' _ _ => ?_
      exact (widening_keeps (aside_emit .debug _) s'').bind fun _ _ _ _ => .pure trivial
    split
    next hnone =>
      refine .pure_bind ((hwrite #[] s5).mono fun _ _ _ _ _ hreturns => ?_)
      rw [hreturns] at hnone
      cases hnone
    next =>
      split
      · refine (widening_storeResult stage type result s5).bind fun stores s6 _ hstores => ?_
        refine (hwrite stores s6).mono fun _ s' h _ hp _ => ?_
        exact h.hasOutput (hstores (h.problems hp))
      · refine (widening_runs (aside_problem inst _ s5)).bind fun _ s6 _ hproblem => ?_
        exact .pure_bind ((hwrite #[] s6).mono fun _ s' h _ hp _ => absurd (h.problems hp) hproblem)
  split
  · have htype : (widening Awaits id Reads).Runs ((·.getD void) <$> (lowerType asm resultType).run) s1 :=
      Runs.map (widening_runs ((typeRules_aside asm).attempts_lowerTypeAt _ [] resultType s1)).weaken
    exact htype.bind fun type s2 _ _ => hwrap type s2
  · exact .pure_bind (hwrap void s1)

def Lowering.closed (s : Lowering) (entry : Nat) (function : ModuleId) : Lowering :=
  { s with
    module := { s.module with entryPoints := s.module.entryPoints.modify entry fun e => { e with function } }
    stage := none }

/-- Whether the entry point of a stage that `inst` closes hands on a result. -/
def writesResult (asm : Assembler) (inst : Instruction) (stage : ShaderStage) : Prop :=
  stage.wrapsEntry = true ∧ returnsSomething asm (Check.entryResult asm inst) = true

/-- On the way from `s` to `s'` the stage `o` is closed, and its output is listed if there is one.
    -/
def Lowering.Closes (s : Lowering) (Awaits : ResultId → Prop) (id : ResultId)
    (Reads : ShaderStage → BuiltIn → Prop) (o : OpenStage) (writes : Prop) (s' : Lowering) : Prop :=
  ∃ t function, s.Widens id Reads t ∧ t.Numbered Awaits ∧ s' = t.closed o.entry function ∧
    (writes → t.HasOutput o.stage)

/-- **A stage is closed**: its entry point gets its function, and lists the output if there is a
    result. -/
theorem runs_endStage (hs : s.Numbered Awaits) :
    unruled.Runs (endStage asm inst).run s fun _ s' => s'.problems = #[] →
      ∃ o, s.stage = some o ∧
        s.Closes Awaits inst.id Reads o (writesResult asm inst o.stage) s' := by
  unfold endStage
  refine .read_bind ?_
  cases ho : s.stage with
  | none => exact fun _ => ⟨trivial, trivial, fun hp => absurd hp Array.push_ne_empty⟩
  | some o =>
    have htarget : (widening Awaits inst.id Reads).Runs _ s _ := widening_idFor inst.refs.fst s
    refine .lift_bind (unruled_of_widening hs htarget) fun target s1 _ ⟨h1, hs1, _⟩ => ?_
    extract_lets close
    -- What is left once the function is known.
    have hclose : ∀ {function s2}, s.Widens inst.id Reads s2 → s2.Numbered Awaits →
        (s2.problems = #[] → writesResult asm inst o.stage → s2.HasOutput o.stage) →
        unruled.Runs (close function).run s2 fun _ s' => s'.problems = #[] →
          s.Closes Awaits inst.id Reads o (writesResult asm inst o.stage) s' := by
      intro function s2 h2 hs2 houtput
      unfold close
      extract_lets leave
      have hleave : ∀ {t}, s2.Aside t → unruled.Runs (leave ()).run t fun _ s' => s'.problems = #[] →
          s.Closes Awaits inst.id Reads o (writesResult asm inst o.stage) s' := by
        intro t ht _
        have hw : s2.Widens inst.id Reads t := ht.widens
        refine ⟨trivial, trivial, fun hp => ⟨t, function, h2.trans hw, ht.numbered hs2, rfl, fun hwrites => ?_⟩⟩
        exact hw.hasOutput (houtput (ht.problems hp) hwrites)
      split
      · exact .lift_bind (unruled_of_aside (aside_emit .executionModes _ s2)) fun _ t _ ht => hleave ht.1
      · split
        · exact .lift_bind (unruled_of_aside (aside_emit .executionModes _ s2)) fun _ t _ ht => hleave ht.1
        · exact hleave (.refl s2)
    split
    next hwraps =>
      have hmain : (widening Awaits inst.id Reads).Runs (wrapEntry asm inst o.stage target) s1 _ :=
        widening_wrapEntry o.stage target s1
      refine .lift_bind (unruled_of_widening hs1 hmain) fun function s2 _ ⟨h2, hs2, hresult⟩ => ?_
      refine (hclose (h1.trans h2) hs2 fun hp hwrites =>
        hresult hp hwrites.2).mono fun _ _ _ h hp => ⟨o, rfl, h hp⟩
    next hwraps =>
      refine (hclose h1 hs1 fun _ hwrites => absurd hwrites.1 hwraps).mono fun _ _ _ h hp => ⟨o, rfl, h hp⟩

end ShaderIR.Spirv
