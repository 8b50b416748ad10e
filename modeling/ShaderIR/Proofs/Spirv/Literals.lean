import ShaderIR.Proofs.Assembler.Literals
import ShaderIR.Proofs.Spirv.Lowering.Positions

/-!
# What literals stand for

A literal becomes a constant of the module, which equal literals share.  As long as no problem is
recorded, **every literal that was lowered stands for its constant**, and none can be written to.
Few steps change the tables of lowering; what they leave is said once, for all of them.
-/

namespace ShaderIR.Spirv

open Discipline Spirv.Module
open Lower (ofBuild)

/-! ## The tables of lowering -/

/-- What lowering leaves of its tables.  Ids keep their numbers, except those in `B`, and the types
    in `K` theirs; only ids in `P` are placed. -/
structure Lowering.KeepsTables (asm : Assembler) (B P K : ResultId → Prop) (s s' : Lowering) :
    Prop where
  ids : ∀ {y n}, ¬ B y → s.ids.get? y = some n → s'.ids.get? y = some n
  types : ∀ {y n}, K y → s.typeIds.get? y = some n → s'.typeIds.get? y = some n
  known : ∀ {y n}, s'.typeIds.get? y = some n → s.typeIds.get? y = some n ∨ (asm.types.ofId? y).isSome = true
  constants : ∀ {key n}, s.module.constantIds.get? key = some n → s'.module.constantIds.get? key = some n
  places : ∀ {y}, ¬ P y → s.places.get? y = none → s'.places.get? y = none
  params : ∀ {y}, ¬ P y → y ∉ s.params → y ∉ s'.params
  annotations : ∀ i ∈ s.module.annotations.toList, i ∈ s'.module.annotations.toList
  problems : s'.problems = #[] → s.problems = #[]

open Lowering (KeepsTables)

/-- A type is noted if it was not known when its lowering began, so one that is in `K` has to be
    known. -/
def tabling (asm : Assembler) (B P K : ResultId → Prop) : Discipline Lowering where
  Inv s := ∀ y, K y → (s.typeIds.get? y).isSome = true
  Grows := KeepsTables asm B P K
  refl _ := ⟨fun _ h => h, fun _ h => h, .inl, fun h => h, fun _ h => h, fun _ h => h, fun _ h => h, fun h => h⟩
  trans h1 h2 :=
    { ids := fun hy h => h2.ids hy (h1.ids hy h)
      types := fun hy h => h2.types hy (h1.types hy h)
      known := fun h => (h2.known h).elim h1.known .inr
      constants := fun h => h2.constants (h1.constants h)
      places := fun hy h => h2.places hy (h1.places hy h)
      params := fun hy h => h2.params hy (h1.params hy h)
      annotations := fun i hi => h2.annotations i (h1.annotations i hi)
      problems := fun h => h1.problems (h2.problems h) }

variable {inst : Instruction} {asm : Assembler} {s : Lowering}

section

variable {α : Type} {B P K : ResultId → Prop}

theorem Lowering.KeepsTables.refl (asm : Assembler) (s : Lowering) : s.KeepsTables asm B P K s :=
  (tabling asm B P K).refl s

theorem runs_tabling {x : Lower α} {Q : α → Lowering → Prop}
    (h : s.KeepsTables asm B P K (x.run s).2) (hQ : Q (x.run s).1 (x.run s).2) :
    (tabling asm B P K).Runs x s Q := by
  refine fun hs => ⟨h, fun y hy => ?_, hQ⟩
  obtain ⟨n, hn⟩ := Option.isSome_iff_exists.mp (hs y hy)
  rw [h.types hy hn]
  rfl

theorem keeps_tabling {x : Lower α} (h : ∀ s, KeepsTables asm B P K s (x.run s).2) :
    (tabling asm B P K).Keeps x := fun s => runs_tabling (h s) trivial

theorem tabling_run {x : Build α} (h : ∀ m : Module, (x.run m).2.constantIds = m.constantIds ∧
    ∀ i ∈ m.annotations.toList, i ∈ (x.run m).2.annotations.toList) :
    (tabling asm B P K).Keeps (ofBuild x) :=
  keeps_tabling fun s => { KeepsTables.refl asm s with
    constants := fun hn => (h s.module).1.symm ▸ hn
    annotations := (h s.module).2 }

theorem tabling_build {x : Build α} (h : ∀ m : Module, (x.run m).2.constantIds = m.constantIds ∧
    (x.run m).2.annotations = m.annotations) : (tabling asm B P K).Keeps (ofBuild x) :=
  tabling_run fun m => ⟨(h m).1, fun _ hi => (h m).2.symm ▸ hi⟩

theorem tables_emit (m : Module) (sec : Section) (i : Inst) :
    (m.emit sec i).constantIds = m.constantIds ∧
    ∀ j ∈ m.annotations.toList, j ∈ (m.emit sec i).annotations.toList := by
  unfold Module.emit
  split
  · have hcontents := m.contents_append #[i] sec .annotations
    refine ⟨by cases sec <;> rfl, fun j hj => ?_⟩
    change j ∈ ((m.append #[i] sec).contents .annotations).toList
    rw [hcontents]
    split
    · exact Array.toList_append ▸ List.mem_append_left _ hj
    · exact hj
  · exact ⟨rfl, fun _ hj => hj⟩

theorem tabling_emit (sec : Section) (i : Inst) :
    (tabling asm B P K).Keeps (ofBuild (.emit sec i)) :=
  tabling_run fun m => tables_emit m sec i

theorem tabling_newType (op : Op) (operands : List Operand) :
    (tabling asm B P K).Keeps (ofBuild (.newType op operands)) :=
  tabling_run fun m => tables_emit { m with nextId := m.nextId + 1 } _ _

theorem tabling_constantIn (sec : Section) (type : ModuleId) (op : Op) (operands : List Operand)
    (s : Lowering) :
    (tabling asm B P K).Runs (ofBuild (.constantIn sec type op operands)) s fun n s' =>
      s'.typeIds = s.typeIds ∧ s'.module.constantIds.get? (op, type, operands) = some n := by
  refine runs_ofBuild_get_bind ?_
  cases hkey : s.module.constantIds.get? (op, type, operands) with
  | some id => exact .pure ⟨rfl, hkey⟩
  | none =>
    have hemit := tables_emit { s.module with nextId := s.module.nextId + 1 } sec
      { op, resultType := some type, result := some s.module.nextId, operands }
    refine runs_tabling { KeepsTables.refl asm s with
      constants := fun hn => ?_, annotations := hemit.2 } ⟨rfl, Table.get?_insert_self⟩
    refine Table.get?_insert_of_none ?_ ?_
    all_goals rw [hemit.1]
    · exact hkey
    · exact hn

theorem tabling_report (p : Problem) : (tabling asm B P K).Keeps (report p) :=
  keeps_tabling fun s => { KeepsTables.refl asm s with problems := fun hp => absurd hp Array.push_ne_empty }

theorem tabling_idFor (id : ResultId) : (tabling asm B P K).Keeps (idFor id) := by
  refine fun s => .get_bind ?_
  cases hid : s.ids.get? id with
  | some n => exact .pure trivial
  | none =>
    refine runs_tabling { KeepsTables.refl (B := B) asm s with ids := fun _ => ?_ } trivial
    exact Table.get?_insert_of_none hid

theorem tabling_noteType {id : ResultId} (n : ModuleId) (hs : (tabling asm B P K).Inv s)
    (hnone : s.typeIds.get? id = none) (htype : (asm.types.ofId? id).isSome = true) :
    (tabling asm B P K).Keeps (modify fun s => { s with typeIds := s.typeIds.insert id n }) := by
  refine keeps_tabling fun s' =>
    { KeepsTables.refl (K := K) asm s' with types := fun {y m} hy hm => ?_, known := fun {y m} hm => ?_ }
  · have hne : id ≠ y := by
      rintro rfl
      have := hs id hy
      rw [hnone] at this
      cases this
    exact (Table.get?_insert_of_ne hne).trans hm
  · rcases Table.get?_insert_cases hm with ⟨rfl, -⟩ | hm
    · exact .inr htype
    · exact .inl hm

theorem tabling_bindId {id : ResultId} (h : B id) (n : ModuleId) :
    (tabling asm B P K).Keeps (bindId id n) :=
  keeps_tabling fun s => { KeepsTables.refl (B := B) asm s with
    ids := fun {y _} hy hm => (Table.get?_insert_of_ne fun heq : id = y => hy (heq ▸ h)).trans hm }

theorem tabling_fresh : (tabling asm B P K).Keeps (ofBuild .fresh) := tabling_build fun _ => ⟨rfl, rfl⟩

theorem typeRules_tabling : TypeRules asm (tabling asm B P K) where
  toFormRules := .of_keeps (fun _ => tabling_build fun _ => ⟨rfl, rfl⟩)
    (fun operands _ _ => keeps_ofBuild_type (tabling_newType _ operands) fun _ =>
      tabling_build fun _ => ⟨rfl, rfl⟩)
    fun type _ s => (tabling_constantIn _ type _ _ s).weaken
  known _ _ := trivial
  newType _ _ := tabling_newType _ _ _
  debug _ _ := tabling_emit _ _
  note hs hid htype _ := tabling_noteType _ hs hid htype _

/-- **Every lowering leaves the tables**, apart from the entry of the id that it defines. -/
theorem rules_tabling (hB : B inst.id) (hP : P inst.id) :
    Rules asm (tabling asm B P K) (fun _ _ => True) (fun _ _ => True) inst where
  toFlowRules := BodyRules.flowRules
    { report := tabling_report
      fresh := tabling_fresh
      function := fun _ => keeps_tabling fun s => { KeepsTables.refl asm s with }
      append := fun _ => tabling_build fun _ => ⟨rfl, rfl⟩ } inst
  toFormRules := typeRules_tabling.toFormRules
  mono _ _ := trivial
  fnMono _ _ := trivial
  report := tabling_report
  fresh s := (tabling_fresh s).mono fun _ _ _ _ => trivial
  idFor id s := (tabling_idFor id s).mono fun _ _ _ _ => trivial
  bindId {n s} _ := tabling_bindId hB n s
  setPlace p := keeps_tabling fun s => { KeepsTables.refl (P := P) asm s with
    places := fun {y} hy hm => (Table.get?_insert_of_ne fun heq : inst.id = y => hy (heq ▸ hP)).trans hm }
  addParam _ := keeps_tabling fun s => { KeepsTables.refl (P := P) asm s with
    params := fun hy hm hmem => (List.mem_insert_iff.mp hmem).elim (fun heq => hy (heq ▸ hP)) hm }
  note _ {f} h := keeps_tabling fun s => by
    obtain ⟨_, _, _, _, hs⟩ := h s
    change s.KeepsTables asm B P K (f s)
    rw [hs]
    exact { KeepsTables.refl asm s with }
  overflow := keeps_tabling fun s => { KeepsTables.refl asm s with }
  setStage _ _ := keeps_tabling fun s => { KeepsTables.refl asm s with }
  lowerType id := typeRules_tabling.attempts_lowerTypeAt _ [] id
  capability _ := tabling_build fun _ => ⟨rfl, rfl⟩
  extension _ := tabling_build fun _ => ⟨rfl, rfl⟩
  newType operands _ := tabling_newType _ operands
  constantIn s _ _ _ _ := (tabling_constantIn _ _ _ _ s).mono fun _ _ _ _ => trivial
  extInstSet := keeps_ofBuild_extInstSet tabling_fresh (fun _ _ => tabling_emit _ _) fun _ =>
    tabling_build fun _ => ⟨rfl, rfl⟩
  remark _ _ _ _ := tabling_emit _ _
  global {i n s} _ _ _ := tabling_emit _ _ s
  block _ := tabling_build fun _ => ⟨rfl, rfl⟩
  addEntryPoint _ _ := tabling_build fun _ => ⟨rfl, rfl⟩
  modifyEntryPoint _ _ _ := tabling_build fun _ => ⟨rfl, rfl⟩

end

/-! ## The constant of a literal -/

/-- The constant that a literal becomes: its opcode and its operands. -/
def constantOf? (asm : Assembler) (inst : Instruction) : Option (Op × List Operand) :=
  match inst.opcode with
  | .boolLit => some (if inst.operands.fst = 0 then Op.constantFalse else .constantTrue, [])
  | .intLit =>
    match scalarOf? asm inst.resultType with
    | some (.sint width) => some (.constant, (intWords width true inst.wide).map .literal)
    | some (.uint width) => some (.constant, (intWords width false inst.wide).map .literal)
    | _ => none
  | .floatLit =>
    match scalarOf? asm inst.resultType with
    | some (.float width) => some (.constant, (floatWords width inst.wide).map .literal)
    | _ => none
  | .null | .zero => some (.constantNull, [])
  | _ => none

theorem constantOf?_congr {x y : Instruction} (h : x.literalKey = y.literalKey) :
    constantOf? asm x = constantOf? asm y := by
  obtain ⟨hop, hrest⟩ := Prod.mk.inj h
  obtain ⟨hoperands, htype⟩ := Prod.mk.inj hrest
  unfold constantOf? Instruction.wide
  rw [hop, hoperands, htype]

theorem attempt_literal (asm : Assembler) (h : inst.opcode.isMergeable = true) (i : Nat) :
    ∃ message, attempt asm i inst = (do
      let type ← requireType asm inst inst.resultType
      match constantOf? asm inst with
      | some (op, operands) => aliasConstant inst (.constant type op operands)
      | none => problem inst message) := by
  unfold attempt constantOf?
  cases hop : inst.opcode with
  | boolLit | null | zero => exact ⟨"", rfl⟩
  | intLit =>
    refine ⟨"integer literals need an integer type", ?_⟩
    show intLiteral asm inst = _
    unfold intLiteral
    rcases scalarOf? asm inst.resultType with _ | (_ | _ | _ | _) <;> rfl
  | floatLit =>
    refine ⟨"float literals need a float type", ?_⟩
    show floatLiteral asm inst = _
    unfold floatLiteral
    rcases scalarOf? asm inst.resultType with _ | (_ | _ | _ | _) <;> rfl
  | _ => rw [hop] at h; cases h

/-! ## What stays -/

def TypesKnown (asm : Assembler) (s : Lowering) : Prop :=
  ∀ {id n}, s.typeIds.get? id = some n → (asm.types.ofId? id).isSome = true

def StandsForConstant (asm : Assembler) (inst : Instruction) (s : Lowering) : Prop :=
  ∃ type op operands n, s.typeIds.get? inst.resultType = some type ∧
    constantOf? asm inst = some (op, operands) ∧
    s.module.constantIds.get? (op, type, operands) = some n ∧ s.ids.get? inst.id = some n

def Unplaced (y : ResultId) (s : Lowering) : Prop := s.places.get? y = none ∧ y ∉ s.params

/-- **A literal that is lowered stands for its constant**, unless a problem is recorded, and even
    then if its type has a form and its value is one of that type. -/
theorem runs_literal (asm : Assembler) (h : inst.opcode.isMergeable = true) (i : Nat)
    (s : Lowering) :
    (tabling asm (inst.id = ·) (fun _ => False) fun _ => False).Runs (attempt asm i inst).run s
      fun _ s' =>
      s'.problems = #[] ∨
          ((requireType asm inst inst.resultType).run.run s).1.isSome = true ∧
          (constantOf? asm inst).isSome = true →
        StandsForConstant asm inst s' := by
  obtain ⟨message, hattempt⟩ := attempt_literal asm h i
  have R : TypeRules asm (tabling asm (inst.id = ·) (fun _ => False) fun _ => False) := typeRules_tabling
  have htypes := R.runs_requireType tabling_report inst inst.resultType s
  rw [hattempt]
  refine .run_bind htypes.answer (fun s1 htype hp => ?_) fun type s1 _ htype => ?_
  · rw [← htype.1] at hp
    exact absurd (hp.resolve_right fun h => by cases h.1) htype.2
  cases hconstant : constantOf? asm inst with
  | none =>
    intro hs
    obtain ⟨hgrows, hinv, -⟩ := tabling_report _ s1 hs
    exact ⟨hgrows, hinv, fun hp => absurd (hp.resolve_right fun h => by cases h.2) Array.push_ne_empty⟩
  | some c =>
    obtain ⟨op, operands⟩ := c
    have halias : (tabling asm (inst.id = ·) (fun _ => False) fun _ => False).Runs
        (aliasConstant inst (.constant type op operands)) s1 fun _ s' => StandsForConstant asm inst s' := by
      refine .bind (tabling_constantIn _ type op operands s1) fun n s2 _ hn hs => ?_
      obtain ⟨hgrows, hinv, -⟩ := tabling_bindId rfl n s2 hs
      refine ⟨hgrows, hinv, type, op, operands, n, ?_, hconstant, hn.2, Table.get?_insert_self⟩
      show s2.typeIds.get? inst.resultType = some type
      rw [hn.1]
      exact htype.2
    exact .bind halias fun _ _ _ hstands => .pure fun _ => hstands

/-! ## The literals of a stream -/

theorem rules_quiet (inst : Instruction) :
    Rules asm (tabling asm (fun _ => True) (fun _ => True) fun _ => False) (fun _ _ =>
      True) (fun _ _ => True) inst :=
  rules_tabling trivial trivial

theorem problems_of_lowerInstruction {i : Nat}
    (h : (lowerInstruction asm i inst s).problems = #[]) : s.problems = #[] :=
  ((rules_quiet inst).lowerInstruction (fun _ => False.elim) i).1.problems h

theorem problems_of_lowerAll (h : (lowerAll asm).1.problems = #[]) :
    (lowerFrom asm 0 asm.code.toList {}).1.problems = #[] := by
  unfold lowerAll at h
  split at h
  next s fatal heq =>
    rw [heq]
    cases fatal with
    | some e => exact h
    | none =>
      have R : Rules asm _ _ _ { opcode := .functionEnd } := rules_quiet _
      exact ((R.keeps_closeAll rfl).bind (fun _ => R.keeps_writeNames) s fun _ => False.elim).1.problems h

theorem problems_stateAt {j k : Nat} (hjk : j ≤ k) (h : (stateAt asm k).problems = #[]) :
    (stateAt asm j).problems = #[] :=
  ((Rules.lowers rules_quiet).grows_stateAt (fun _ => False.elim) hjk).problems h

theorem problems_stateAt_of_lowerAll {j : Nat} (hj : j ≤ asm.code.size)
    (hfatal : (lowerAll asm).2 = none) (h : (lowerAll asm).1.problems = #[]) :
    (stateAt asm j).problems = #[] :=
  ((Rules.lowers rules_quiet).lowerAll (rules_quiet _) (fun _ => False.elim) hfatal hj).1.problems h

/-- What is known of the literals of a stream when the first `k` instructions are lowered. -/
structure LiteralsStand (asm : Assembler) (k : Nat) (s : Lowering) : Prop where
  types : TypesKnown asm s
  unplaced : ∀ {j : Nat} {lit}, asm.code[j]? = some lit → lit.isMergeable = true → Unplaced lit.id s
  stand : ∀ {j : Nat} {lit}, j < k → asm.code[j]? = some lit → lit.isMergeable = true →
    StandsForConstant asm lit s

theorem literalsStand_empty : LiteralsStand asm 0 {} where
  types h := by cases h
  unplaced _ _ := ⟨rfl, List.not_mem_nil⟩
  stand h := by cases h

/-- **One more instruction** leaves what is known of the literals before it, and adds itself if it
    is one. -/
theorem LiteralsStand.lowerInstruction (hsingle : asm.SinglyDefined) {k : Nat}
    (hinst : asm.code[k]? = some inst) (h : LiteralsStand asm k s)
    (hclean : (lowerInstruction asm k inst s).problems = #[]) :
    LiteralsStand asm (k + 1) (lowerInstruction asm k inst s) := by
  have hgrows : ∀ {K : ResultId → Prop}, (∀ y, K y → (s.typeIds.get? y).isSome = true) →
      s.KeepsTables asm (inst.id = ·) (inst.id = ·) K (Spirv.lowerInstruction asm k inst s) :=
    fun {K} hK =>
      have R : Rules asm (tabling asm (inst.id = ·) (inst.id = ·) K) _ _ inst := rules_tabling rfl rfl
      (R.lowerInstruction hK k).1
  have hliteral (hmerge : inst.isMergeable = true) :=
    runs_literal asm (Assembler.isMergeable_iff.mp hmerge).2 k s fun _ => False.elim
  have hcases : ∀ {j : Nat} {lit}, asm.code[j]? = some lit → lit.isMergeable = true → lit = inst ∨
      j ≠ k ∧ inst.id ≠ lit.id := by
    intro j lit hlit hmerge
    by_cases hjk : j = k
    · rw [hjk, hinst, Option.some.injEq] at hlit
      exact .inl hlit.symm
    · have hz := (Assembler.isMergeable_iff.mp hmerge).1
      exact .inr ⟨hjk, fun heq => hjk (hsingle j k lit.id ⟨hz, lit, hlit, rfl⟩ ⟨hz, inst, hinst, heq⟩)⟩
  refine ⟨fun hn => ?_, fun {j lit} hlit hmerge => ?_, fun {j lit} hj hlit hmerge => ?_⟩
  · exact ((hgrows (K := fun _ => False) fun _ => False.elim).known hn).elim h.types id
  · have hlit' := h.unplaced hlit hmerge
    rcases hcases hlit hmerge with rfl | ⟨-, hne⟩
    · have hkeeps := (hliteral hmerge).1
      exact ⟨hkeeps.places id hlit'.1, hkeeps.params id hlit'.2⟩
    · have hkeeps := hgrows (K := fun _ => False) fun _ => False.elim
      exact ⟨hkeeps.places hne hlit'.1, hkeeps.params hne hlit'.2⟩
  · rcases hcases hlit hmerge with rfl | ⟨hjk, hne⟩
    · exact (hliteral hmerge).2.2 (.inl hclean)
    · obtain ⟨type, op, operands, n, htype, hconstant, hn, hid⟩ := h.stand (by omega) hlit hmerge
      have hkeeps := hgrows (K := (lit.resultType = ·)) fun y hy => by rw [← hy, htype]; rfl
      exact ⟨type, op, operands, n, hkeeps.types rfl htype, hconstant, hkeeps.constants hn, hkeeps.ids hne hid⟩

theorem StandsForConstant.ids_eq {x y : Instruction} (hx : StandsForConstant asm x s)
    (hy : StandsForConstant asm y s) (hkey : x.literalKey = y.literalKey) :
    ∃ n, s.ids.get? x.id = some n ∧ s.ids.get? y.id = some n := by
  obtain ⟨type, op, operands, n, htype, hconstant, hn, hid⟩ := hx
  obtain ⟨type', op', operands', n', htype', hconstant', hn', hid'⟩ := hy
  have hresult : x.resultType = y.resultType := congrArg (·.2.2) hkey
  rw [← hresult, htype, Option.some.injEq] at htype'
  rw [← constantOf?_congr hkey, hconstant, Option.some.injEq, Prod.mk.injEq] at hconstant'
  rw [← htype', ← hconstant'.1, ← hconstant'.2, hn, Option.some.injEq] at hn'
  exact ⟨n, hid, hn' ▸ hid'⟩

end ShaderIR.Spirv
