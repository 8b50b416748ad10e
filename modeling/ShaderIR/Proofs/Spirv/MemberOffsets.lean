import ShaderIR.Proofs.Assembler.Runs
import ShaderIR.Proofs.Spirv.BinaryLayout
import ShaderIR.Proofs.Spirv.Interfaces.Stages
import ShaderIR.Proofs.Spirv.Literals

/-!
# Where the members of a descriptor lie

The members of a descriptor lie one behind the other, each at a multiple of its alignment.  The
width of a struct leaves out the gaps between its own members, so a member behind a struct with gaps
may lie inside of it.
-/

namespace ShaderIR.Spirv

open Discipline Spirv.Module

theorem alignUp_spec {align : Nat} (n : Nat) (h : 0 < align) :
    n ≤ alignUp n align ∧ align ∣ alignUp n align := by
  unfold alignUp
  split
  next hn => exact ⟨Nat.le_refl n, Nat.dvd_of_mod_eq_zero hn⟩
  next =>
    refine ⟨Nat.le_add_right _ _, n / align + 1, ?_⟩
    have hdiv := Nat.div_add_mod n align
    have hmod := Nat.mod_lt n h
    rw [Nat.mul_add]
    omega

theorem memberOffsets?_spec {extents : List (Nat × Nat)} {offset : Nat} {offsets : List Nat}
    (halign : ∀ e ∈ extents, 0 < e.1) (h : memberOffsets? extents offset = some offsets) :
    offsets.length = extents.length ∧ (∀ start ∈ offsets, offset ≤ start) ∧
      (∀ e ∈ extents.zip offsets, e.1.1 ∣ e.2 ∧ e.2 + e.1.2 < UInt32.size) ∧
      (extents.zip offsets).Pairwise fun a b => a.2 + a.1.2 ≤ b.2 := by
  induction extents generalizing offset offsets with
  | nil =>
    cases h
    exact ⟨rfl, List.forall_mem_nil _, List.forall_mem_nil _, .nil⟩
  | cons e rest ih =>
    obtain ⟨hle, hdvd⟩ := alignUp_spec offset (halign e List.mem_cons_self)
    obtain ⟨hfits, h⟩ := Option.ite_none_right_eq_some.mp h
    obtain ⟨later, hlater, rfl⟩ := Option.map_eq_some_iff.mp h
    obtain ⟨hlength, hfrom, hall, hapart⟩ := ih (fun e he => halign e (List.mem_cons_of_mem _ he)) hlater
    refine ⟨congrArg (· + 1) hlength, List.forall_mem_cons.mpr ⟨hle, fun start hs => ?_⟩,
      List.forall_mem_cons.mpr ⟨⟨hdvd, hfits⟩, hall⟩, .cons (fun b hb => ?_) hapart⟩
    · exact Nat.le_trans hle (Nat.le_trans (Nat.le_add_right _ _) (hfrom start hs))
    · exact hfrom b.2 (List.of_mem_zip hb).2

def offsetMark (struct : ModuleId) (member offset : Nat) : Inst :=
  { op := .memberDecorate
    operands :=
      [.id struct, .literal member.toUInt32, .literal Decoration.offset.code,
        .literal offset.toUInt32] }

def noting : Discipline Lowering where
  Inv _ := True
  Grows s s' := ∀ i ∈ s.module.annotations.toList, i ∈ s'.module.annotations.toList
  refl _ _ h := h
  trans h h' i hi := h' i (h i hi)

variable {α : Type} {asm : Assembler} {inst : Instruction} {s : Lowering} {struct : ModuleId}

theorem noting_of_aside {x : Lower α} (h : aside.Keeps x) : noting.Keeps x := fun s _ =>
  ⟨(h s trivial).1.module.annotations, trivial, trivial⟩

theorem noting_idFor (id : ResultId) : noting.Keeps (idFor id) :=
  keeps_idFor_of (noting_of_aside fun s => (aside_fresh s).weaken) fun _ _ _ => ⟨fun _ h => h, trivial, trivial⟩

theorem noting_markBlock (id : ModuleId) : noting.Keeps (Lower.ofBuild (.markBlock id)) := by
  refine keeps_ofBuild_get_bind fun m => ?_
  split
  · exact keeps_ofBuild_pure ()
  · exact keeps_ofBuild_bind (fun _ _ => ⟨fun _ h => h, trivial, trivial⟩) fun _ =>
      noting_of_aside (aside_emit _ _)

theorem noting_offsets (l : List (Nat × Nat)) (s : Lowering) :
    noting.Runs (l.forM fun e =>
        (onModule (.memberDecorate struct e.2.toUInt32 .offset [e.1.toUInt32]) : Attempt Unit)).run
          s fun a s' =>
      a = some () ∧ ∀ e ∈ l, offsetMark struct e.2 e.1 ∈ s'.module.annotations.toList := by
  induction l generalizing s with
  | nil => exact .pure ⟨rfl, List.forall_mem_nil _⟩
  | cons e rest ih =>
    have hwrite : noting.Runs (Lower.ofBuild (.emit .annotations (offsetMark struct e.2 e.1))) s fun _ s' =>
        offsetMark struct e.2 e.1 ∈ s'.module.annotations.toList := fun hs =>
      ⟨(noting_of_aside (aside_emit _ _) s hs).1, trivial, s.module.mem_contents_emit .annotations rfl⟩
    refine .lift_bind hwrite fun _ s1 _ h1 => ?_
    exact (ih s1).mono fun _ s2 h2 hrest => ⟨hrest.1, List.forall_mem_cons.mpr ⟨h2 _ h1, hrest.2⟩⟩

theorem offsetMark_mem_descriptor {layout : StructLayout} {offsets : List Nat}
    (hlayout : asm.types.layoutOf? inst.refs.fst = some layout)
    (hoffsets : memberOffsets? (layout.members.map fun m => memberExtent asm.types m.2) 0 =
      some offsets) (hstruct : ((requireType asm inst inst.refs.fst).run.run s).1 = some struct) :
    ∀ e ∈ offsets.zipIdx,
      offsetMark struct e.2 e.1 ∈
        ((descriptor asm inst).run.run s).2.module.annotations.toList := by
  have hrun : noting.Runs (descriptor asm inst).run s fun _ s' =>
      ∀ e ∈ offsets.zipIdx, offsetMark struct e.2 e.1 ∈ s'.module.annotations.toList := by
    have htype : noting.Runs (requireType asm inst inst.refs.fst).run s fun a _ => a = some struct := fun _ =>
      ⟨((typeRules_aside asm).runs_requireType aside_report inst _ s trivial).1.module.annotations,
        trivial, hstruct⟩
    unfold descriptor
    extract_lets type
    rw [OptionT.run_bind, Option.elimM]
    refine .bind htype fun a s1 _ ha => ?_
    rw [ha, Option.elim_some]
    extract_lets declare
    have hdeclare : noting.Attempts (declare ()) := by
      refine (Attempts.lift (noting_idFor _)).bind fun var => ?_
      have huniform : StorageClass.uniform ≠ .function := by decide
      have hvar : noting.Attempts (declareVariable inst var .uniform struct none) := fun s _ =>
        ⟨(aside_declareVariable huniform s trivial).1.module.annotations, trivial, fun _ _ => trivial⟩
      refine hvar.bind fun place => ?_
      iterate 2 refine (Attempts.lift (noting_of_aside (aside_emit _ _))).bind fun _ => ?_
      exact .lift (noting_of_aside (aside_setPlace _ _))
    simp only [type, hlayout, hoffsets]
    refine .lift_bind (noting_markBlock _ s1) fun _ s2 _ _ => ?_
    rw [OptionT.run_bind, Option.elimM]
    refine .bind (noting_offsets _ s2) fun b s3 _ hb => ?_
    rw [hb.1]
    exact .mono (hdeclare s3) fun _ s4 h4 _ e he => h4 _ (hb.2 e he)
  exact (hrun trivial).2.2

/-- **The members of a descriptor** are placed at multiples of their alignments, and the bytes of
    their widths come one behind the other. -/
theorem descriptor_places_members {major minor : UInt8} {e : Emission} {k : Nat}
    {layout : StructLayout} {offsets : List Nat} (h : emitModule asm major minor = .ok e)
    (hfatal : e.fatal = none) (hinst : asm.code[k]? = some inst)
    (hop : inst.opcode = .descriptorVar) (hlayout : asm.types.layoutOf? inst.refs.fst = some layout)
    (hoffsets : memberOffsets? (layout.members.map fun m => memberExtent asm.types m.2) 0 =
      some offsets)
    (hstruct : ((requireType asm inst inst.refs.fst).run.run (stateAt asm k)).1 = some struct) :
    e.words.drop 5 = (lowerAll asm).1.module.instructions.flatMap Inst.words ∧
    (∀ i start, offsets[i]? = some start →
      offsetMark struct i start ∈ (lowerAll asm).1.module.instructions) ∧
    offsets.length = layout.members.length ∧
    (∀ e ∈ layout.members.zip offsets, (memberExtent asm.types e.1.2).1 ∣ e.2 ∧
      e.2 + (memberExtent asm.types e.1.2).2 < UInt32.size) ∧
    (layout.members.zip offsets).Pairwise fun a b => a.2 + (memberExtent asm.types a.1.2).2 ≤
      b.2 := by
  have hmarks : ∀ e ∈ offsets.zipIdx,
      offsetMark struct e.2 e.1 ∈ (stateAt asm (k + 1)).module.annotations.toList := by
    have hattempt : attempt asm k inst = descriptor asm inst := by rw [attempt, hop]
    rw [stateAt_succ hinst, lowerInstruction, hattempt]
    exact offsetMark_mem_descriptor hlayout hoffsets hstruct
  have hlt : k < asm.code.size := Assembler.lt_size_code hinst
  have hkeeps := ((Rules.lowers rules_quiet).lowerAll (rules_quiet _) (fun _ => False.elim)
    (snd_lowerAll_of_fatal_none h hfatal) hlt).1.annotations
  have halign : ∀ e ∈ layout.members.map fun m => memberExtent asm.types m.2, 0 < e.1 :=
    List.forall_mem_map.mpr fun _ _ => Nat.le_max_right _ _
  obtain ⟨hlength, -, hall, hapart⟩ := memberOffsets?_spec halign hoffsets
  rw [List.zip_map_left] at hall hapart
  refine ⟨?_, fun i start hi => ?_, hlength.trans (List.length_map _), List.forall_mem_map.mp hall,
    List.pairwise_map.mp hapart⟩
  · rw [(words_of_fatal_none h hfatal).1, drop_words]
  · have hmark := hkeeps _ (hmarks (start, i) (List.mk_mem_zipIdx_iff_getElem?.mpr hi))
    exact mem_instructions_of_mem_body (mem_body.mpr (.inl ⟨.annotations, hmark⟩))

def gapRun : List Operation :=
  [.pushType { opcode := .uintType, operands := ⟨8, 0, 0⟩ },
    .pushType { opcode := .uintType, operands := ⟨32, 0, 0⟩ },
    .pushStruct "Inner" [("a", ⟨1⟩), ("b", ⟨2⟩)], .pushStruct "Outer" [("inner", ⟨3⟩), ("x", ⟨1⟩)]]

theorem descriptor_places_members_gapRun :
    let inst : Instruction := { opcode := .descriptorVar, id := ⟨5⟩, refs := ⟨⟨4⟩, .void, .void⟩ }
    let asm := Operation.runAll (gapRun ++ [.pushNew inst])
    ∃ e, emitModule asm 1 5 = .ok e ∧ e.isClean = true ∧
      offsetMark 4 1 5 ∈ (lowerAll asm).1.module.instructions := by
  intro inst asm
  have hrun : (emitModule asm 1 5).toOption.map Emission.isClean = some true := by decide +kernel
  obtain ⟨e, h, hclean⟩ := exists_emission hrun
  have hinst : asm.code[10]? = some inst := by decide +kernel
  have hmarks := (@descriptor_places_members _ _ 4 _ _ _ _ _ [0, 5] h (fatal_of_isClean hclean) hinst rfl
    (Option.some_get (by decide +kernel)).symm (by decide +kernel) (by decide +kernel)).2.1
  exact ⟨e, h, hclean, hmarks 1 5 rfl⟩

/-- The inner struct ends at byte 8 where the member behind it lies at byte 5. -/
theorem exists_overlap : let types := (Operation.runAll gapRun).types
    let offsets := fun id => (types.layoutOf? id).bind fun layout =>
      memberOffsets? (layout.members.map fun m => memberExtent types m.2) 0
    offsets ⟨3⟩ = some [0, 4] ∧ (memberExtent types ⟨2⟩).2 = 4 ∧ offsets ⟨4⟩ = some [0, 5] := by
  decide +kernel

end ShaderIR.Spirv
