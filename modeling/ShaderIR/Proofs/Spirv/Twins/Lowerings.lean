import ShaderIR.Proofs.Spirv.Lowering.Traversal

/-!
# Streams that differ in ids only

If every two instructions of two streams are paired, the lowerings of the streams stay twins, step
by step, and **write one module**.
-/

namespace ShaderIR.Spirv

variable {a b : Assembler} {P T : ResultId → ResultId → Prop} {w i : Nat} {inst inst' : Instruction}
  {s t : Lowering}

/-- Every step may be taken if nothing is asked for. -/
theorem steps_any (asm : Assembler) (inst : Instruction) : Steps asm (fun _ _ => True) inst := by
  constructor
  case lowerType =>
    intro c id s hs
    change ((lowerType asm id).run.run s).1.elim True fun _ => True
    cases ((lowerType asm id).run.run s).1 <;> trivial
  case bindId => exact fun _ _ _ _ => ⟨{}, trivial⟩
  all_goals
    intros
    first | trivial | exact fun _ _ => trivial

theorem Pair.alike_attempt (h : Pair a b P T i inst inst') (htypes : TypeTwins a.types b.types T) :
    TwinT a b P T w (attempt a i inst) (@attempt (wider w) b i inst') :=
  have L : Lane a b P T (fun _ _ => True) w i inst inst inst' := ⟨h, steps_any a inst, rfl, htypes⟩
  (L.joint_attempt (c := {}) fun _ => rfl).2

theorem Lowering.not_lost (s : Lowering) : ¬ s.Lost 0 := by simp [Lowering.Lost, Module.Lost]

theorem Pair.lowerInstruction (h : Pair a b P T i inst inst') (htypes : TypeTwins a.types b.types T)
    (hs : Twins a b P T s t) :
    Twins a b P T (lowerInstruction a i inst s) (lowerInstruction b i inst' t) :=
  (((h.alike_attempt htypes).same s t hs).resolve_left (Lowering.not_lost _)).2

/-! ## The whole stream -/

theorem trailersAfter_map {φ : Instruction → Instruction}
    (hcode : b.code.toList = a.code.toList.map φ) (hop : ∀ inst, (φ inst).opcode = inst.opcode)
    (i : Nat) (op : Opcode) (n : Nat) :
    b.trailersAfter i op n = (a.trailersAfter i op n).map φ := by
  unfold Assembler.trailersAfter
  rw [Array.toList_extract, Array.toList_extract, hcode, List.extract_eq_take_drop,
    List.extract_eq_take_drop, ← List.map_drop, ← List.map_take, List.takeWhile_map]
  refine congrArg (fun p => List.map φ (List.takeWhile p _)) (funext fun inst => ?_)
  simp only [Function.comp_apply, hop]

theorem stageInterface_map {φ : Instruction → Instruction} {f : ResultId → ResultId}
    (hcode : b.code.toList = a.code.toList.map φ) (hop : ∀ inst, (φ inst).opcode = inst.opcode)
    (hid : ∀ inst, (φ inst).id = f inst.id) (i : Nat) :
    stageInterface b i = (stageInterface a i).map f := by
  unfold stageInterface interfaceFrom
  rw [hcode, ← List.map_drop, List.takeWhile_map, List.filter_map, List.map_map, List.map_map]
  have hvar : isInterfaceVar ∘ φ = isInterfaceVar := by
    funext inst
    simp only [Function.comp_apply, isInterfaceVar, hop]
  rw [hvar]
  simp only [Function.comp_def, hop, hid]

theorem holds_of_lowerFrom {Q : Lowering → Prop} {a : Assembler}
    (hback : ∀ {k inst s}, Q (lowerInstruction a k inst s) → Q s) {i : Nat} {l : List Instruction}
    (h : Q (lowerFrom a i l s).1) : Q s := by
  induction l generalizing i s with
  | nil => exact h
  | cons inst rest ih =>
    unfold lowerFrom at h
    split at h
    · exact h
    · exact hback (ih h)

/-- **Two streams in step.**  What one step keeps holds where the lowering stops, and both lowerings
    stop at the same place. A step may use that `Q` holds after it, if `Q` holds at the end and is
    never gained. -/
theorem lockstep_lowerFrom {S : Nat → Lowering → Lowering → Prop} {Q : Lowering → Prop}
    {f : Instruction → Instruction} {code : List Instruction}
    (hback : ∀ {k inst s}, Q (lowerInstruction a k inst s) → Q s)
    (hstage : ∀ {k s t}, S k s t → t.stage = s.stage)
    (hstops : ∀ inst stage, stopsAt? stage (f inst) = stopsAt? stage inst)
    (hstep : ∀ {k inst s t}, code[k]? = some inst → S k s t → Q (lowerInstruction a k inst s) →
      S (k + 1) (lowerInstruction a k inst s) (@lowerInstruction (wider w) b k (f inst) t))
    {i : Nat} {l : List Instruction} (hl : code.drop i = l) (hs : S i s t)
    (hend : Q (lowerFrom a i l s).1) :
    (∃ k, S k (lowerFrom a i l s).1 (@lowerFrom (wider w) b i (l.map f) t).1 ∧
        ((lowerFrom a i l s).2 = none → code.length ≤ k)) ∧
      (@lowerFrom (wider w) b i (l.map f) t).2 = (lowerFrom a i l s).2 := by
  induction l generalizing i s t with
  | nil => exact ⟨⟨i, hs, fun _ => List.drop_eq_nil_iff.mp hl⟩, rfl⟩
  | cons inst rest ih =>
    have hinst : code[i]? = some inst := by
      rw [← Nat.add_zero i, ← List.getElem?_drop, hl]
      rfl
    have hrest : code.drop (i + 1) = rest := by
      rw [← List.tail_drop, hl]
      rfl
    unfold lowerFrom at hend ⊢
    rw [List.map_cons]
    dsimp only
    rw [hstops, hstage hs]
    cases hstop : stopsAt? (s.stage.map (·.stage)) inst with
    | some e => exact ⟨⟨i, hs, fun h => by cases h⟩, rfl⟩
    | none =>
      rw [hstop] at hend
      exact ih hrest (hstep hinst hs (holds_of_lowerFrom hback hend)) hend

/-! ## The end of the stream -/

theorem alike_closeAll : Twin a b P T w closeAll closeAll := by
  unfold closeAll
  extract_lets leave
  have hleave : ∀ u, Twin a b P T w (leave u) (leave u) := by
    intro u
    refine alike_get fun s t hs => ?_
    rw [hs.stage]
    cases s.stage with
    | none => exact .pure ()
    | some stage => exact alike_report _ _
  refine alike_takeFunction (hleave ()) fun f source => ?_
  exact (alike_report _ _).bind fun _ => (alike_closeFunction f source).bind hleave

/-- Lists of names that agree on paired ids.  What is not paired may have a name on one side. -/
inductive NameTwins (P : ResultId → ResultId → Prop) :
    List (ResultId × String) → List (ResultId × String) → Prop
  | nil : NameTwins P [] []
  | cons {r r' : ResultId} {name : String} {l l' : List (ResultId × String)} :
    P r r' → NameTwins P l l' → NameTwins P ((r, name) :: l) ((r', name) :: l')
  | skip {r : ResultId} {name : String} {l l' : List (ResultId × String)} :
    (∀ r', ¬ P r r') → NameTwins P l l' → NameTwins P ((r, name) :: l) l'

def writeName [WordLimit] (e : ResultId × String) : Lower Unit := do
  if let some n := (← get).ids.get? e.1 then onModule (.name n e.2)

theorem writeNames_eq [WordLimit] (asm : Assembler) :
    writeNames asm = asm.names.entries.forM writeName := rfl

theorem alike_writeName {r r' : ResultId} (hr : P r r') (name : String) :
    Twin a b P T w (writeName (r, name)) (@writeName (wider w) (r', name)) := by
  refine .get_bind (fun _ _ hs => hs.ids hr) (fun s => ?_) fun s t hs => ?_
  · obtain ⟨ids, hids⟩ := exists_table r' (s.ids.get? r)
    exact ⟨{ ids }, hids⟩
  rw [hs]
  cases s.ids.get? r with
  | none => exact .pure ()
  | some n => exact alike_build

theorem run_writeName_of_unpaired (hs : Twins a b P T s t) {r : ResultId}
    (hr : ∀ r', ¬ P r r') (name : String) : (writeName (r, name)).run s = ((), s) := by
  have hnone : s.ids.get? r = none := by
    cases hn : s.ids.get? r with
    | none => rfl
    | some n =>
      obtain ⟨r', hr'⟩ := hs.known hn
      exact absurd hr' (hr r')
  simp only [writeName, StateT.run_bind, StateT.run_get, pure_bind, hnone]
  rfl

theorem alike_writeNames (hnames : NameTwins P a.names.entries b.names.entries) :
    Twin a b P T w (writeNames a) (@writeNames (wider w) b) := by
  rw [writeNames_eq, @writeNames_eq (wider w)]
  generalize a.names.entries = l at hnames
  generalize b.names.entries = l' at hnames
  induction hnames with
  | nil => exact .pure ()
  | @cons _ _ name _ _ hr _ ih => exact (alike_writeName hr name).bind fun _ => ih
  | @skip r name l l' hr _ ih =>
    have hname : Twin a a Eq Eq w (writeName (r, name)) (@writeName (wider w) (r, name)) :=
      alike_writeName rfl name
    refine ⟨fun s hs => ih.keeps _ (hname.keeps s hs), fun s t hs => ?_⟩
    have hrun : (((r, name) :: l).forM writeName).run s = (l.forM writeName).run s := by
      show (writeName (r, name) >>= fun _ => l.forM writeName).run s = _
      rw [StateT.run_bind, run_writeName_of_unpaired hs hr name]
      rfl
    rw [AlikeAt, hrun]
    exact ih.same s t hs

theorem twins_lowerAll (hnames : NameTwins P a.names.entries b.names.entries)
    (hs : Twins a b P T (lowerFrom a 0 a.code.toList {}).1
      (@lowerFrom (wider w) b 0 b.code.toList {}).1)
    (hfatal : (@lowerFrom (wider w) b 0 b.code.toList {}).2 = (lowerFrom a 0 a.code.toList {}).2) :
    ((lowerAll a).1.Lost w ∨ Twins a b P T (lowerAll a).1 (@lowerAll (wider w) b).1) ∧
      (@lowerAll (wider w) b).2 = (lowerAll a).2 := by
  unfold lowerAll
  generalize lowerFrom a 0 a.code.toList {} = x at hs hfatal
  generalize @lowerFrom (wider w) b 0 b.code.toList {} = y at hs hfatal
  obtain ⟨s, fatal⟩ := x
  obtain ⟨t, fatal'⟩ := y
  obtain rfl : fatal' = fatal := hfatal
  cases fatal' with
  | some e => exact ⟨.inr hs, rfl⟩
  | none => exact ⟨((alike_closeAll.bind fun _ => alike_writeNames hnames).same s t hs).imp_right And.right, rfl⟩

/-- **Twins have the same words**, or fail for the same reason. -/
theorem words_emitModule_eq (hs : Twins a b P T (lowerAll a).1 (lowerAll b).1)
    (hfatal : (lowerAll b).2 = (lowerAll a).2) (major minor : UInt8) :
    (emitModule b major minor).map (·.words) = (emitModule a major minor).map (·.words) := by
  unfold emitModule
  generalize lowerAll a = x at hs hfatal
  generalize lowerAll b = y at hs hfatal
  obtain ⟨s, fatal⟩ := x
  obtain ⟨t, fatal'⟩ := y
  obtain rfl : fatal' = fatal := hfatal
  dsimp only
  rw [hs.offsetOverflow, hs.module]
  split
  · rfl
  split
  · rfl
  cases fatal' with
  | some e => rfl
  | none =>
    show Except.ok (t.module.words _) = Except.ok (s.module.words _)
    rw [hs.module]

end ShaderIR.Spirv
