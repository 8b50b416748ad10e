import ShaderIR.Proofs.Spirv.Requirements.Following
import ShaderIR.Proofs.Types.Nesting

/-!
# Types that have a form in the module

In a registry that is grounded and complete, and whose structs are not too long, **every type has a
form in the module**.  The id in the module tells whether the type has the shape of a built-in.
-/

namespace ShaderIR.Spirv

open Discipline Spirv.Module

variable {id : ResultId} {n : ModuleId}

variable {asm : Assembler} {α β γ δ : Type} {s : Lowering}

/-! ## Alternatives and lists -/

theorem FollowsT.orElse {x y : Attempt α} {c : Check β} {Q : α → β → Lowering → Prop} [Inhabited β]
    (hx : FollowsT asm x s c Q) (hy : ∀ s', ¬ s'.Clean → ¬ (y.run.run s').2.Clean) :
    FollowsT asm (x <|> y) s c Q := by
  unfold FollowsT
  rw [OptionT.run_orElse, Option.elimM]
  refine .finish hx fun o b s' _ hq => ?_
  cases o with
  | some a => exact .pure hq
  | none =>
    have hunclean : ¬ s'.Clean := fun hclean => by
      obtain ⟨a, ha, -⟩ := hq hclean
      cases ha
    exact .congr (.fails (hy s' hunclean)) fun hclean => absurd hclean hunclean

theorem FollowsT.map {x : Attempt α} {c : Check β} {f : α → γ} {Q : γ → β → Lowering → Prop}
    [Inhabited β] (hx : FollowsT asm x s c fun a b s' => Q (f a) b s') :
    FollowsT asm (f <$> x) s c Q := by
  rw [map_eq_pure_bind]
  exact hx.finish fun a b s' _ hq => .pure hq

theorem FollowsT.forM {l : List α} {f : α → Attempt Unit}
    (h : ∀ a ∈ l, ∀ s', FollowsT asm (f a) s' (Pure.pure ())) :
    FollowsT asm (l.forM f) s (Pure.pure ()) := by
  induction l generalizing s with
  | nil => exact .pure fun _ => trivial
  | cons a rest ih =>
    exact (h a List.mem_cons_self s).skip fun _ s' _ _ =>
      ih fun b hb => h b (List.mem_cons_of_mem a hb)

theorem FollowsT.mapM {l : List α} {f : α → Attempt γ}
    (h : ∀ a ∈ l, ∀ s', FollowsT asm (f a) s' (Pure.pure ())) :
    FollowsT asm (l.mapM f) s (Pure.pure ()) fun bs _ _ => bs.length = l.length := by
  induction l generalizing s with
  | nil =>
    rw [List.mapM_nil]
    exact .pure fun _ => rfl
  | cons a rest ih =>
    rw [List.mapM_cons]
    refine (h a List.mem_cons_self s).skip fun b s1 _ _ => ?_
    refine (ih fun b hb => h b (List.mem_cons_of_mem a hb)).skip fun bs s2 _ hlength => ?_
    exact .pure fun hclean => congrArg (· + 1) (hlength hclean)

/-! ## Shapes of the types of a module -/

theorem BuiltInScalar.key_ne (a : BuiltInScalar) {op : Op} {operands : List Operand}
    (h : op ≠ .typeBool ∧ op ≠ .typeInt ∧ op ≠ .typeFloat) : a.key ≠ (op, operands) := by
  intro heq
  have hop := congrArg Prod.fst heq
  cases a with
  | bool => exact h.1 hop.symm
  | int | uint => exact h.2.1 hop.symm
  | float => exact h.2.2 hop.symm

theorem BuiltInScalar.key_eq_iff (a : BuiltInScalar) (w : UInt32) :
    (a.key = (.typeFloat, [.literal w]) ↔ Check.scalarOfDesc? (.float w) = some a) ∧
      (a.key = (.typeInt, [.literal w, .literal 1]) ↔ Check.scalarOfDesc? (.sint w) = some a) ∧
      (a.key = (.typeInt, [.literal w, .literal 0]) ↔ Check.scalarOfDesc? (.uint w) = some a) := by
  by_cases hw : w = 32
  · subst hw
    cases a <;> decide
  · cases a <;> simp [BuiltInScalar.key, Check.scalarOfDesc?, hw, Ne.symm hw]

variable {m : Module}

theorem represents_plain (hm : m.Tables) {d : TypeDesc}
    (hid : asm.types.ofId? id = some d) {key : Op × List Operand}
    (hn : Build.Shared m key n) (hkey : key.1 ≠ .typeVector)
    (hplain : Check.shapeOfDesc? asm.types d = (Check.scalarOfDesc? d).map (⟨·, 1⟩))
    (hscalar : ∀ a : BuiltInScalar, a.key = key ↔ Check.scalarOfDesc? d = some a) :
    m.Represents asm id n := by
  refine ⟨by rw [hid]; rfl, hn.1, fun shape => ?_⟩
  rw [hm.shaped_plain hkey hn.2, Check.shapeOf?, hid, Option.bind_some, hplain, hscalar,
    Option.map_eq_some_iff]
  constructor
  · rintro ⟨hone, ha⟩
    exact ⟨_, ha, by rw [← hone]⟩
  · rintro ⟨a, ha, rfl⟩
    exact ⟨rfl, ha⟩

theorem represents_composite (hm : m.Tables) {d : TypeDesc} (hid : asm.types.ofId? id = some d)
    {op : Op} {operands : List Operand} (hn : Build.Shared m (op, operands) n)
    (hop : op ≠ .typeVector ∧ op ≠ .typeBool ∧ op ≠ .typeInt ∧ op ≠ .typeFloat)
    (hshape : Check.shapeOfDesc? asm.types d = none) (hscalar : Check.scalarOfDesc? d = none) :
    m.Represents asm id n := by
  refine represents_plain hm hid hn hop.1 (by rw [hshape, hscalar]; rfl) fun a => ?_
  rw [hscalar]
  exact ⟨fun h => absurd h (a.key_ne hop.2), nofun⟩

theorem represents_vector (hm : m.Tables) {id y : ResultId} {inner : TypeHandle}
    {lanes : UInt32} (hid : asm.types.ofId? id = some (.vector inner lanes))
    (hy : asm.types.ofId? y = asm.types.desc? inner) {component n : ModuleId}
    (hc : m.Represents asm y component)
    (hn : Build.Shared m (.typeVector, [.id component, .literal lanes]) n) :
    m.Represents asm id n := by
  refine ⟨by rw [hid]; rfl, hn.1, fun shape => ?_⟩
  obtain ⟨d, hd⟩ := Option.isSome_iff_exists.mp hc.isType
  have hone : Check.shapeOf? asm.types y = some ⟨shape.scalar, 1⟩ ↔
      Check.scalarOfDesc? d = some shape.scalar := by
    rw [Check.shapeOf?, hd, Option.bind_some]
    unfold Check.shapeOfDesc?
    split
    next inner' lanes' =>
      -- A vector has more lanes than one.
      refine ⟨fun h => ?_, nofun⟩
      split at h
      · cases h
      · next hne =>
        obtain ⟨a, -, ha⟩ := Option.map_eq_some_iff.mp h
        exact absurd (congrArg BuiltInShape.lanes ha) hne
    next =>
      rw [Option.map_eq_some_iff]
      constructor
      · rintro ⟨a, ha, heq⟩
        rw [ha, ← congrArg BuiltInShape.scalar heq]
      · intro ha
        exact ⟨_, ha, rfl⟩
  rw [hm.shaped_vector hn.2, hc.shaped, hone, Check.shapeOf?, hid, Option.bind_some,
    Check.shapeOfDesc?, ← hy, hd, Option.bind_some]
  split
  next hlanes =>
    exact ⟨fun h => absurd hlanes h.2.1, nofun⟩
  next hlanes =>
    rw [Option.map_eq_some_iff]
    constructor
    · rintro ⟨rfl, -, ha⟩
      exact ⟨_, ha, rfl⟩
    · rintro ⟨a, ha, rfl⟩
      exact ⟨rfl, hlanes, ha⟩

theorem represents_struct {l : LayoutHandle} (hid : asm.types.ofId? id = some (.record l))
    (hlt : n < m.nextId) (hn : ∀ key, m.typeIds.get? key ≠ some n) : m.Represents asm id n := by
  refine ⟨by rw [hid]; rfl, hlt, fun shape => ⟨fun h => absurd h (not_shaped_of_unshared hn), ?_⟩⟩
  rw [Check.shapeOf?, hid]
  exact nofun

/-! ## Lowering of types -/

def layoutFits (layout : StructLayout) : Bool :=
  1 + layout.members.length ≤ maxOperandWords && textFits 1 layout.name
    && layout.members.all fun m => textFits 2 m.1

/-- Every type has a form in the module. -/
structure HasForms (types : TypeRegistry) : Prop where
  grounded : types.Grounded
  complete : types.Complete
  fits : ∀ {id layout}, types.layoutOf? id = some layout → layoutFits layout = true

theorem fits_typeOf (op : Op) (n : ModuleId) (members : List ModuleId) :
    Inst.fits { op, result := some n, operands := members.map .id } = true ↔
      1 + members.length ≤ maxOperandWords := by
  have hlength : ([n].map (·.toUInt32) ++ (members.map Operand.id).flatMap Operand.words).length =
      1 + members.length := by
    rw [List.length_append, Build.length_flatMap_id]
    rfl
  show decide (([n].map (·.toUInt32) ++ (members.map Operand.id).flatMap Operand.words).length ≤
    maxOperandWords) = true ↔ _
  rw [hlength, decide_eq_true_iff]

theorem followsT_noteType (h : s.Clean → s.Sound asm → s.module.Represents asm id n) :
    FollowsT asm (do
      modify fun s => { s with typeIds := s.typeIds.insert id n }
      return n) s (pure ()) fun n _ s' => s'.module.Represents asm id n := by
  refine .of_sound fun hs => ?_
  have hmodify : Follows asm (modify fun s => { s with typeIds := s.typeIds.insert id n }) s
      (modify fun v => v) := by
    refine .modify rfl rfl rfl
      (fun hclean hs => ⟨hs.tables, hs.ids_lt, fun {j k} hk => ?_⟩) fun _ => rfl
    rcases Table.get?_insert_cases hk with ⟨rfl, rfl⟩ | hk
    · exact h hclean hs
    · exact hs.types hk
  have hquiet : Follows asm (modify fun s => { s with typeIds := s.typeIds.insert id n }) s (pure ()) :=
    hmodify
  refine (FollowsT.lift hquiet).skip fun _ s' hgrows _ => .pure fun hclean => ?_
  obtain ⟨hclean0, hgrows0⟩ := hgrows hclean
  exact (h hclean0 (hs hclean0)).grow hgrows0 (hs hclean0).tables

theorem followsT_declareStruct {l : LayoutHandle} {layout : StructLayout} {members : List ModuleId}
    {f : ModuleId → Attempt γ} {c : Check δ} {R : γ → δ → Lowering → Prop}
    (hid : asm.types.ofId? id = some (.record l)) (hfits : layoutFits layout = true)
    (hlength : s.Clean → members.length = layout.members.length)
    (hf : ∀ n s', s.GrowsTo s' → (s'.Clean → s'.module.Represents asm id n) →
      FollowsT asm (f n) s' c R) :
    FollowsT asm (do
      let n ← onModule (.newType .typeStruct (members.map .id))
      onModule (.name n layout.name)
      layout.members.zipIdx.forM fun e => onModule (.memberName n e.2.toUInt32 e.1.1)
      f n) s c R := by
  rw [layoutFits, Bool.and_eq_true, Bool.and_eq_true, decide_eq_true_iff, List.all_eq_true] at hfits
  obtain ⟨⟨hcount, hname⟩, hmembers⟩ := hfits
  refine .of_sound fun hs => ?_
  refine (FollowsT.lift (follows_onModule_of_clean Build.whole_before
    fun hclean => Build.sharing_newType fun n => (fits_typeOf _ n members).mpr ?_)).skip
    fun n s1 h1 hn => .of_sound fun hs1 => ?_
  · rw [hlength hclean]
    exact hcount
  refine .note (Build.sharing_emit ((fits_name _ _).trans hname)) fun _ s2 h2 => ?_
  refine .skip (Q := fun _ _ _ => True) (.forM fun e he s' => ?_) fun _ s3 h3 _ => ?_
  · have hm := hmembers e.1 (List.fst_mem_of_mem_zipIdx he)
    exact followsT_onModule (Build.sharing_emit ((fits_memberName _ _ _).trans hm) s'.module)
  refine hf n s3 (h1.trans (h2.trans h3)) fun hclean => ?_
  -- The id is new, so nothing that is shared has it.
  obtain ⟨hclean1, hgrows⟩ := h2.trans h3 hclean
  obtain ⟨hnew, htypes, -, hstands⟩ := hn hclean1
  refine (represents_struct hid (hstands hclean1.whole).1 fun key hkey => ?_).grow hgrows (hs1 hclean1).tables
  rw [htypes] at hkey
  exact absurd ((hs (h1 hclean1).1).tables.type_lt hkey) (hnew ▸ Nat.lt_irrefl _)

/-- **A type has a form.**  What is under way is a chain without repetition, so the fuel suffices.
    -/
theorem followsT_lowerTypeAt (hforms : HasForms asm.types) (fuel : Nat) (pending : List ResultId)
    (id : ResultId) (s : Lowering) (hid : (asm.types.ofId? id).isSome = true)
    (hchain : asm.types.Chain pending id) (hfuel : asm.types.size < fuel + pending.length) :
    FollowsT asm (lowerTypeAt asm fuel pending id) s (pure ())
      fun n _ s' => s'.module.Represents asm id n := by
  induction fuel generalizing pending id s with
  | zero =>
    rw [Nat.zero_add] at hfuel
    exact absurd hchain.length_le (Nat.not_le_of_lt hfuel)
  | succ fuel ih =>
    obtain ⟨desc, hdesc⟩ := Option.isSome_iff_exists.mp hid
    refine .get_bind ?_
    cases hn : s.typeIds.get? id with
    | some n =>
      exact .of_sound fun hs => .pure fun hclean => (hs hclean).types hn
    | none =>
      rw [hdesc]
      refine .read (x := orGiveUp (some desc)) rfl ?_
      have hfree : (!pending.contains id) = true := by
        rw [Bool.not_eq_true', List.contains_eq_mem, decide_eq_false_iff_not]
        exact hchain.not_mem (hforms.grounded.founded hid)
      rw [guard, if_pos hfree]
      refine .pure_bind ?_
      -- Parts are lowered with less fuel, by id or by handle; what was lowered is noted at the end.
      extract_lets lowerId lowerHandle note
      have hpart : ∀ {y} s', asm.types.IsPart y id →
          FollowsT asm (lowerId y) s' (pure ()) fun n _ s' => s'.module.Represents asm y n := by
        intro y s' hy
        refine ih (id :: pending) y s' (hforms.grounded.isSome_of_isPart hy)
          (hchain.push hforms.grounded hid hy) ?_
        rw [List.length_cons]
        omega
      have hhandle : ∀ {h} s', h ∈ desc.inner → ∃ y, asm.types.ofId? y = asm.types.desc? h ∧
          FollowsT asm (lowerHandle h) s' (pure ()) fun n _ s' => s'.module.Represents asm y n := by
        intro h s' hh
        obtain ⟨y, hy⟩ := Option.isSome_iff_exists.mp (hforms.complete id desc hdesc h hh)
        refine ⟨y, hforms.grounded.ofId?_of_idOf? hy, ?_⟩
        unfold lowerHandle
        rw [hy]
        exact .read (x := orGiveUp (some y)) rfl (hpart s' (.nested hdesc hh hy))
      have hnote : ∀ {b : Build ModuleId} {s : Lowering} {Q : ModuleId → Module → Prop},
          ((b.run s.module).2.Whole → s.module.Whole) →
          (s.Clean → sharing.Runs b s.module fun n m => m.Whole → Q n m) →
          (∀ {n s'}, s.GrowsTo s' → s'.Clean → s'.module.Tables → Q n s'.module →
            s'.module.Represents asm id n) →
          FollowsT asm (onModule b >>= note) s (pure ()) fun n _ s' => s'.module.Represents asm id n := by
        intro b s Q hwhole hb hQ
        refine (FollowsT.lift (follows_onModule_of_clean hwhole hb)).skip fun n s' hgrows hn => ?_
        exact followsT_noteType fun hclean hs =>
          hQ hgrows hclean hs.tables (hn hclean hclean.whole)
      have hshared : ∀ {b : Build ModuleId} {s : Lowering} {Q : ModuleId → Module → Prop},
          sharing.Runs b s.module (fun n m => m.Whole → Q n m) →
          (∀ {n m}, m.Tables → Q n m → m.Represents asm id n) →
          FollowsT asm (onModule b >>= note) s (pure ()) fun n _ s' => s'.module.Represents asm id n :=
        fun hb hQ => hnote (Build.whole_of_runs hb) (fun _ => hb) fun _ _ => hQ
      cases desc with
      | void =>
        exact hshared Build.sharing_voidType fun hm hn =>
          represents_composite hm hdesc hn (by decide) rfl rfl
      | bool =>
        refine hshared Build.sharing_boolType fun hm hn =>
          represents_plain hm hdesc hn nofun rfl fun a => ?_
        cases a <;> decide
      | float w =>
        exact hshared (Build.sharing_floatType w) fun hm hn =>
          represents_plain hm hdesc hn nofun rfl fun a => (a.key_eq_iff w).1
      | sint w =>
        exact hshared (Build.sharing_intType w true) fun hm hn =>
          represents_plain hm hdesc hn nofun rfl fun a => (a.key_eq_iff w).2.1
      | uint w =>
        exact hshared (Build.sharing_intType w false) fun hm hn =>
          represents_plain hm hdesc hn nofun rfl fun a => (a.key_eq_iff w).2.2
      | vector inner lanes =>
        obtain ⟨y, hy, hinner⟩ := hhandle s List.mem_cons_self
        refine hinner.skip fun component s1 _ hc => .of_sound fun hs1 => ?_
        refine hnote Build.whole_before
          (fun hclean => Build.sharing_vectorType lanes fun _ => (hc hclean).lt) fun hgrows hclean hm hn => ?_
        obtain ⟨hclean1, hgrows1⟩ := hgrows hclean
        exact represents_vector hm hdesc hy ((hc hclean1).grow hgrows1 (hs1 hclean1).tables) hn
      | matrix inner columns rows =>
        obtain ⟨y, hy, hinner⟩ := hhandle s List.mem_cons_self
        refine hinner.skip fun component s1 _ hc => ?_
        refine (FollowsT.lift (follows_onModule_of_clean Build.whole_before
          fun hclean => Build.sharing_vectorType rows fun _ => (hc hclean).lt)).skip fun column s2 _ _ => ?_
        exact hshared (Build.sharing_plainType (fun _ => rfl) nofun) fun hm hn =>
          represents_composite hm hdesc hn (by decide) rfl rfl
      | array inner length =>
        obtain ⟨y, hy, hinner⟩ := hhandle s List.mem_cons_self
        refine hinner.skip fun element s1 _ _ => ?_
        refine hshared (Build.sharing_arrayType element length) fun hm hn => ?_
        obtain ⟨count, hn⟩ := hn
        exact represents_composite hm hdesc hn (by decide) rfl rfl
      | pointer inner =>
        obtain ⟨y, hy, hinner⟩ := hhandle s List.mem_cons_self
        refine hinner.skip fun pointee s1 _ _ => ?_
        exact hshared (Build.sharing_pointerType .function pointee) fun hm hn =>
          represents_composite hm hdesc hn (by decide) rfl rfl
      | tuple a b =>
        obtain ⟨_, -, hfst⟩ := hhandle s (h := a) List.mem_cons_self
        refine hfst.skip fun a s1 _ _ => ?_
        obtain ⟨_, -, hsnd⟩ := hhandle s1 (h := b) (List.mem_cons_of_mem _ List.mem_cons_self)
        refine hsnd.skip fun b s2 _ _ => ?_
        exact hshared (Build.sharing_plainType (fun _ => rfl) nofun) fun hm hn =>
          represents_composite hm hdesc hn (by decide) rfl rfl
      | record l =>
        obtain ⟨layout, hl⟩ := Option.isSome_iff_exists.mp (hforms.grounded.layout hdesc)
        have hlayout : asm.types.layoutOf? id = some layout :=
          (TypeRegistry.layoutOf?_of_ofId? hdesc).trans hl
        rw [hlayout]
        refine .read (x := orGiveUp (some layout)) rfl ?_
        refine (FollowsT.mapM fun m hm s' => (hpart s' (.member hlayout hm)).weaken).skip
          fun members s1 _ hlength => ?_
        exact followsT_declareStruct hdesc (hforms.fits hlayout) hlength fun n s2 _ hn =>
          FollowsT.pure_bind (followsT_noteType fun hclean _ => hn hclean)

theorem followsT_lowerType (hforms : HasForms asm.types)
    (hid : (asm.types.ofId? id).isSome = true) :
    FollowsT asm (lowerType asm id) s (pure ()) fun n _ s' => s'.module.Represents asm id n :=
  followsT_lowerTypeAt hforms _ [] id s hid (.nil _ _) (Nat.lt_succ_self _)

theorem run_get_bind (f : Lowering → Attempt γ) (s : Lowering) :
    (get >>= f).run.run s = (f s).run.run s := rfl

theorem lowerType_run (hid : ¬ (asm.types.ofId? id).isSome = true) (s : Lowering) :
    (lowerType asm id).run.run s = (s.typeIds.get? id, s) := by
  rw [Option.not_isSome_iff_eq_none] at hid
  rw [lowerType, lowerTypeAt, run_get_bind, hid]
  cases s.typeIds.get? id <;> rfl

theorem Lowering.Sound.typeIds_eq_none (hs : s.Sound asm)
    (hid : ¬ (asm.types.ofId? id).isSome = true) : s.typeIds.get? id = none := by
  cases hn : s.typeIds.get? id with
  | none => rfl
  | some n => exact absurd (hs.types hn).isType hid

theorem followsT_requireType (hforms : HasForms asm.types) (source : Instruction) (id : ResultId) :
    FollowsT asm (requireType asm source id) s (Check.typed asm id)
      fun n _ s' => s'.module.Represents asm id n := by
  unfold Check.typed
  by_cases hid : (asm.types.ofId? id).isSome = true
  · rw [guard, if_pos hid]
    exact (followsT_lowerType hforms hid).orElse fun s' _ => not_clean_giveUp source _ s'
  · rw [guard, if_neg hid]
    refine .of_sound fun hs => .fails ?_
    rw [requireType, OptionT.run_orElse, Option.elimM, StateT.run_bind, lowerType_run hid]
    cases hn : s.typeIds.get? id with
    | none => exact not_clean_giveUp source _ s
    | some n =>
      intro hclean
      rw [(hs hclean).typeIds_eq_none hid] at hn
      cases hn

end ShaderIR.Spirv
