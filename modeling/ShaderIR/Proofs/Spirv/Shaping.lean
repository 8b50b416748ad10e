import ShaderIR.Proofs.Spirv.Lowering.Traversal

/-!
# The shape that emission keeps

At every moment of emission, each section holds instructions of its own roles only, the functions
written so far are whole, and **the two flags of the open function say how its last block stands**.
The lowerings call for labels and terminators in any order; each step keeps this by itself.
-/

namespace ShaderIR.Spirv

open Discipline Spirv.Module
open Lower (ofBuild)

variable {i : Inst} {f : OpenFunction} {n : ModuleId} {bound : ModuleId} {source : Instruction}
  {body : Array Inst} {b b' : ModuleId}

/-! ## The invariant -/

/-- An id that was handed out before `bound` was next. -/
def Issued (bound n : ModuleId) : Prop := 0 < n ∧ n < bound

/-- An instruction that can be written: it fits, and its result was handed out. -/
def Inst.Sound (bound : ModuleId) (i : Inst) : Prop :=
  i.fits = true ∧ ∀ n, i.result = some n → Issued bound n

theorem Issued.mono {n : ModuleId} (h : Issued b n) (hb : b ≤ b') : Issued b' n :=
  ⟨h.1, Nat.lt_of_lt_of_le h.2 hb⟩

theorem Inst.Sound.mono (h : i.Sound b) (hb : b ≤ b') : i.Sound b' :=
  ⟨h.1, fun n hn => (h.2 n hn).mono hb⟩

/-- **The shape of a module.** -/
structure Module.Framed (m : Module) : Prop where
  next : 0 < m.nextId
  shader : .shader ∈ m.capabilities
  sections : ∀ sec, sec ≠ .functions → ∀ i ∈ (m.contents sec).toList, sec.admits i.op = true ∧ i.Sound m.nextId
  functions : ∃ fs : List (List Inst), m.functions.toList = fs.flatten ∧ ∀ f ∈ fs, IsFunction f
  bodies : ∀ i ∈ m.functions.toList, i.Sound m.nextId
  constantIds : ∀ e ∈ m.constantIds.entries, Issued m.nextId e.2

/-- **The shape of the open function.**  Before its first label it has no body; behind a terminator
    its body is a row of blocks; otherwise a block is open at its end. -/
structure OpenFunction.Shaped (bound : ModuleId) (f : OpenFunction) : Prop where
  header : ∃ h params, f.header.toList = h :: params ∧ h.op = .function ∧
    ∀ p ∈ params, p.op = .functionParameter
  locals : ∀ v ∈ f.locals.toList, v.IsLocal
  unlabelled : f.labelled = false → f.body.toList = []
  left : f.labelled = true → f.terminated = true → f.body.toList ≠ [] ∧ AreBlocks f.body.toList
  inside : f.labelled = true → f.terminated = false →
    ∃ done opened, f.body.toList = done ++ opened ∧ AreBlocks done ∧ IsOpenBlock opened
  headerSound : ∀ i ∈ f.header.toList, i.Sound bound
  localsSound : ∀ i ∈ f.locals.toList, i.Sound bound
  bodySound : ∀ i ∈ f.body.toList, i.Sound bound

/-- The shape is kept, and ids are handed out in order. -/
def shaping : Discipline Lowering where
  Inv s := s.module.Framed ∧ (∀ e ∈ s.ids.entries, Issued s.module.nextId e.2) ∧
    ∀ f, s.function = some f → f.Shaped s.module.nextId
  Grows s s' := s.module.nextId ≤ s'.module.nextId
  refl _ := Nat.le_refl _
  trans := Nat.le_trans

theorem OpenFunction.Shaped.mono (h : f.Shaped b) (hb : b ≤ b') : f.Shaped b' :=
  { h with
    headerSound := fun i hi => (h.headerSound i hi).mono hb
    localsSound := fun i hi => (h.localsSound i hi).mono hb
    bodySound := fun i hi => (h.bodySound i hi).mono hb }

variable {s : Lowering}

/-! ## Steps apart from the module -/

variable {sec : Section} {α : Type} {op : Op}

theorem shaping_apart {x : Lower α} (h : ∀ s, (x.run s).2.module = s.module ∧
    (x.run s).2.ids = s.ids ∧ (x.run s).2.function = s.function) : shaping.Keeps x := by
  rintro s ⟨hmodule, hids, hfunction⟩
  obtain ⟨h1, h2, h3⟩ := h s
  refine ⟨Nat.le_of_eq (by rw [h1]), ⟨?_, ?_, ?_⟩, trivial⟩
  · rw [h1]
    exact hmodule
  · rw [h1, h2]
    exact hids
  · rw [h1, h3]
    exact hfunction

theorem shaping_note {f : Lowering → Lowering} (h : ∀ s, Lowering.Notes s (f s)) :
    shaping.Keeps (modify f : Lower Unit) := shaping_apart fun s => by
  obtain ⟨_, _, _, _, hs⟩ := h s
  change (f s).module = s.module ∧ (f s).ids = s.ids ∧ (f s).function = s.function
  rw [hs]
  exact ⟨rfl, rfl, rfl⟩

theorem shaping_bindId (id : ResultId) (hn : Issued s.module.nextId n) :
    shaping.Runs (bindId id n) s := by
  rintro ⟨hmodule, hids, hfunction⟩
  refine ⟨Nat.le_refl _, ⟨hmodule, fun e he => ?_, hfunction⟩, trivial⟩
  rcases Table.mem_insert he with rfl | he
  · exact hn
  · exact hids e he

theorem shaping_modifyFunction {g : OpenFunction → OpenFunction}
    (h : ∀ f, s.function = some f → f.Shaped s.module.nextId → (g f).Shaped s.module.nextId) :
    shaping.Runs (modifyFunction g) s := by
  rintro ⟨hmodule, hids, hfunction⟩
  refine ⟨Nat.le_refl _, ⟨hmodule, hids, fun f hf => ?_⟩, trivial⟩
  obtain ⟨f0, hf0, rfl⟩ := Option.map_eq_some_iff.mp hf
  exact h f0 hf0 (hfunction f0 hf0)

theorem shaping_modifyTwice {g1 g2 : OpenFunction → OpenFunction}
    (h : ∀ f, s.function = some f → f.Shaped s.module.nextId → (g2 (g1 f)).Shaped s.module.nextId) :
    shaping.Runs (do modifyFunction g1; modifyFunction g2) s := by
  rintro ⟨hmodule, hids, hfunction⟩
  refine ⟨Nat.le_refl _, ⟨hmodule, hids, fun f hf => ?_⟩, trivial⟩
  obtain ⟨f1, hf1, rfl⟩ := Option.map_eq_some_iff.mp hf
  obtain ⟨f0, hf0, rfl⟩ := Option.map_eq_some_iff.mp hf1
  exact h f0 hf0 (hfunction f0 hf0)

/-! ## Steps on the module -/

theorem Module.Framed.of_nextId {m : Module} (h : m.Framed) (hn : m.nextId ≤ n) :
    Module.Framed { m with nextId := n } :=
  { h with
    next := Nat.lt_of_lt_of_le h.next hn
    sections := fun sec hsec i hi => (h.sections sec hsec i hi).imp_right fun hsound => hsound.mono hn
    bodies := fun i hi => (h.bodies i hi).mono hn
    constantIds := fun e he => (h.constantIds e he).mono hn }

theorem shaping_ofBuild {b : Build α} {Q : α → Lowering → Prop}
    (h : s.module.Framed → s.module.nextId ≤ (b.run s.module).2.nextId ∧
      (b.run s.module).2.Framed ∧ Q (b.run s.module).1 { s with module := (b.run s.module).2 }) :
    shaping.Runs (ofBuild b) s Q := by
  rintro ⟨hmodule, hids, hfunction⟩
  obtain ⟨hle, hframed, hpost⟩ := h hmodule
  exact ⟨hle, ⟨hframed, fun e he => (hids e he).mono hle, fun f hf => (hfunction f hf).mono hle⟩, hpost⟩

theorem shaping_fresh : shaping.Runs (ofBuild .fresh) s fun n s' => Issued s'.module.nextId n :=
  shaping_ofBuild fun h =>
    ⟨Nat.le_succ _, h.of_nextId (Nat.le_succ _), h.next, Nat.lt_succ_self _⟩

theorem Module.Framed.emit {m : Module} (h : m.Framed)
    (hadmits : sec.admits i.op = true) (hresult : ∀ n, i.result = some n → Issued m.nextId n) :
    (m.emit sec i).nextId = m.nextId ∧ (m.emit sec i).Framed := by
  unfold Module.emit
  split
  next hfits =>
    have hsec : sec ≠ .functions := by
      rintro rfl
      cases hadmits
    have hkeep : (m.append #[i] sec).nextId = m.nextId ∧ (m.append #[i] sec).capabilities = m.capabilities ∧
        (m.append #[i] sec).functions = m.functions ∧ (m.append #[i] sec).constantIds = m.constantIds := by
      cases sec <;> first | exact ⟨rfl, rfl, rfl, rfl⟩ | exact absurd rfl hsec
    obtain ⟨hnext, hcapabilities, hfunctions, hconstants⟩ := hkeep
    refine ⟨hnext, by rw [hnext]; exact h.next, by rw [hcapabilities]; exact h.shader, ?_,
      by rw [hfunctions]; exact h.functions, by rw [hfunctions, hnext]; exact h.bodies,
      by rw [hconstants, hnext]; exact h.constantIds⟩
    intro sec' hsec' i' hi'
    rw [hnext]
    rw [contents_append] at hi'
    split at hi'
    next heq =>
      rw [Array.toList_append, List.mem_append] at hi'
      rcases hi' with hi' | hi'
      · exact h.sections sec' hsec' i' hi'
      · rw [heq, List.mem_singleton.mp hi']
        exact ⟨hadmits, hfits, hresult⟩
    next => exact h.sections sec' hsec' i' hi'
  next =>
    exact ⟨rfl, { h with }⟩

theorem shaping_emit (hadmits : sec.admits i.op = true)
    (hresult : ∀ n, i.result = some n → Issued s.module.nextId n) :
    shaping.Runs (ofBuild (.emit sec i)) s :=
  shaping_ofBuild fun h => by
    obtain ⟨hnext, hframed⟩ := h.emit hadmits hresult
    exact ⟨Nat.le_of_eq hnext.symm, hframed, trivial⟩

theorem shaping_aside {x : Build α} (h : ∀ m, ∃ extensions entryPoints typeIds extInsts blocks,
      (x.run m).2 = { m with extensions, entryPoints, typeIds, extInsts, blocks }) :
    shaping.Keeps (ofBuild x) := fun s =>
  shaping_ofBuild fun hs => by
    obtain ⟨_, _, _, _, _, hx⟩ := h s.module
    rw [hx]
    exact ⟨Nat.le_refl _, { hs with }, trivial⟩

theorem shaping_capability (c : Capability) : shaping.Keeps (ofBuild (.requireCapability c)) := fun _ =>
  shaping_ofBuild fun hs => ⟨Nat.le_refl _, { hs with shader := List.mem_insert_of_mem hs.shader }, trivial⟩

/-! ## Types and constants -/

theorem shaping_newType (operands : List Operand) (h : op.role = .type) :
    shaping.Keeps (ofBuild (.newType op operands)) := by
  intro s
  refine runs_ofBuild_bind shaping_fresh fun id s1 _ hid => ?_
  have hadmits : Section.types.admits op = true := by simp [Section.admits, h]
  refine runs_ofBuild_bind (shaping_emit hadmits fun n hn => by cases hn; exact hid) fun _ s2 _ _ => ?_
  exact keeps_ofBuild_pure id s2

theorem shaping_type (operands : List Operand) (h : op.role = .type) :
    shaping.Keeps (ofBuild (.type op operands)) :=
  keeps_ofBuild_type (shaping_newType operands h) fun _ => shaping_aside fun _ => ⟨_, _, _, _, _, rfl⟩

theorem shaping_constantIn {type : ModuleId} {operands : List Operand}
    (hadmits : sec.admits op = true) :
    shaping.Runs (ofBuild (.constantIn sec type op operands)) s
      fun n s' => Issued s'.module.nextId n := by
  refine runs_ofBuild_get_bind ?_
  split
  next id hid =>
    exact shaping_ofBuild fun hs => ⟨Nat.le_refl _, hs, hs.constantIds _ (Table.mem_of_get? hid)⟩
  next =>
    refine runs_ofBuild_bind shaping_fresh fun id s1 _ hid => ?_
    have hwrite := shaping_emit (s := s1) (i := ⟨op, some type, some id, operands⟩) hadmits
      fun n hn => by cases hn; exact hid
    refine runs_ofBuild_bind (hwrite.mono fun _ s2 hle _ => hid.mono hle) fun _ s2 _ hid => ?_
    refine runs_ofBuild_bind (Q := fun _ s' => Issued s'.module.nextId id)
      (shaping_ofBuild fun hs => ?_) fun _ s3 _ hid => .pure hid
    refine ⟨Nat.le_refl _, { hs with constantIds := fun e he => ?_ }, hid⟩
    rcases Table.mem_insert he with rfl | he
    · exact hid
    · exact hs.constantIds e he

theorem shaping_extInstSet : shaping.Keeps (ofBuild .extInstSet) := by
  refine keeps_ofBuild_get_bind fun m => ?_
  split
  · exact keeps_ofBuild_pure _
  · intro s
    refine runs_ofBuild_bind shaping_fresh fun id s1 _ hid => ?_
    refine runs_ofBuild_bind (shaping_emit rfl fun n hn => by cases hn; exact hid) fun _ s2 _ _ => ?_
    refine runs_ofBuild_bind (shaping_aside (fun m => ⟨_, _, _, _, _, rfl⟩) s2) fun _ s3 _ _ => ?_
    exact keeps_ofBuild_pure id s3

theorem shaping_idFor (id : ResultId) :
    shaping.Runs (idFor id) s fun n s' => Issued s'.module.nextId n := by
  refine .get_bind ?_
  split
  next n hn => exact fun hs => ⟨Nat.le_refl _, hs, hs.2.1 _ (Table.mem_of_get? hn)⟩
  next =>
    refine (shaping_fresh (s := s)).bind fun n s1 _ hn => ?_
    have hbind := (shaping_bindId id hn).mono (R := fun _ s' => Issued s'.module.nextId n)
      fun _ _ hle _ => hn.mono hle
    exact hbind.bind fun _ s2 _ hn => .pure hn

theorem typeRules_shaping (asm : Assembler) : TypeRules asm shaping where
  toFormRules := .of_keeps shaping_capability (fun operands h _ => shaping_type operands h)
    fun _ _ _ => (shaping_constantIn rfl).weaken
  known _ _ := trivial
  newType _ _ := shaping_newType _ rfl _
  debug hadmits hresult _ := shaping_emit hadmits fun n hn => by rw [hresult] at hn; cases hn
  note _ _ _ _ := shaping_apart (fun _ => ⟨rfl, rfl, rfl⟩) _

/-! ## Function bodies -/

theorem sound_push {insts : Array Inst} (h : ∀ j ∈ insts.toList, j.Sound bound)
    (hi : i.Sound bound) :
    ∀ j ∈ (insts.push i).toList, j.Sound bound := by
  intro j hj
  rw [Array.toList_push, List.mem_append, List.mem_singleton] at hj
  rcases hj with hj | rfl
  · exact h j hj
  · exact hi

theorem sound_of_result {bound n : ModuleId} (hfits : i.fits = true)
    (hresult : i.result = some n) (hn : Issued bound n) : i.Sound bound :=
  ⟨hfits, fun k hk => by rw [hresult] at hk; cases hk; exact hn⟩

theorem sound_of_result_none (hfits : i.fits = true) (hresult : i.result = none) : i.Sound bound :=
  ⟨hfits, fun n hn => by rw [hresult] at hn; cases hn⟩

namespace OpenFunction.Shaped

variable {bound : ModuleId} {f : OpenFunction}

theorem areBlocks (h : f.Shaped bound) (hf : f.labelled = false ∨ f.terminated = true) :
    AreBlocks f.body.toList := by
  cases hlabelled : f.labelled with
  | false =>
    rw [h.unlabelled hlabelled]
    exact areBlocks_nil
  | true =>
    have hterminated := hf.resolve_left (by rw [hlabelled]; exact Bool.noConfusion)
    exact (h.left hlabelled hterminated).2

theorem label {label : Inst} (h : f.Shaped bound) (hbody : AreBlocks body.toList)
    (hlabel : label.op = .label) (hsound : ∀ i ∈ body.toList, i.Sound bound)
    (hlabelSound : label.Sound bound) :
    Shaped bound { f with body := body.push label, labelled := true, terminated := false } :=
  { h with
    unlabelled := fun h => by cases h
    left := fun _ h => by cases h
    inside := fun _ _ => ⟨body.toList, [label], Array.toList_push, hbody, isOpenBlock_label hlabel⟩
    bodySound := sound_push hsound hlabelSound }

theorem compute (h : f.Shaped bound) (hlabelled : f.labelled = true)
    (hterminated : f.terminated = false) (hi : i.op.role = .computation) (hsound : i.Sound bound) :
    Shaped bound { f with body := f.body.push i } :=
  { h with
    unlabelled := fun hf => by rw [hlabelled] at hf; cases hf
    left := fun _ hf => by rw [hterminated] at hf; cases hf
    inside := fun _ _ => by
      obtain ⟨done, opened, hbody, hdone, hopened⟩ := h.inside hlabelled hterminated
      refine ⟨done, opened ++ [i], ?_, hdone, hopened.concat hi⟩
      rw [Array.toList_push, hbody, List.append_assoc]
    bodySound := sound_push h.bodySound hsound }

theorem areBlocks_push (h : f.Shaped bound) (hlabelled : f.labelled = true)
    (hterminated : f.terminated = false) (hi : i.op.role = .terminator) :
    AreBlocks (f.body.push i).toList := by
  obtain ⟨done, opened, hbody, hdone, hopened⟩ := h.inside hlabelled hterminated
  rw [Array.toList_push, hbody, List.append_assoc]
  exact hdone.concat (hopened.terminate hi)

theorem terminate (h : f.Shaped bound) (hlabelled : f.labelled = true)
    (hterminated : f.terminated = false) (hi : i.op.role = .terminator) (hsound : i.Sound bound) :
    Shaped bound { f with body := f.body.push i, terminated := true } :=
  { h with
    unlabelled := fun hf => by rw [hlabelled] at hf; cases hf
    left := fun _ _ => ⟨by simp, h.areBlocks_push hlabelled hterminated hi⟩
    inside := fun _ hf => by cases hf
    bodySound := sound_push h.bodySound hsound }

end OpenFunction.Shaped

theorem shaping_openBlock (hf : s.function = some f) : shaping.Runs (openBlock f) s fun _ s' =>
      ∀ f', s'.function = some f' → f'.labelled = true ∧ f'.terminated = false := by
  unfold openBlock
  split
  next hopen =>
    have hleft : f.labelled = false ∨ f.terminated = true := by
      rw [Bool.or_eq_true, Bool.not_eq_true'] at hopen
      exact hopen
    refine .bind (Q := fun n s' => Issued s'.module.nextId n ∧ s'.function = some f)
      (fun hs => ?_) fun label s1 _ ⟨hlabel, hf1⟩ => ?_
    · obtain ⟨hgrows, hinv, hpost⟩ := shaping_fresh hs
      exact ⟨hgrows, hinv, hpost, hf⟩
    · rintro ⟨hmodule, hids, hfunction⟩
      refine ⟨Nat.le_refl _, ⟨hmodule, hids, fun f' hf' => ?_⟩, fun f' hf' => ?_⟩
      all_goals
        obtain ⟨f0, hf0, rfl⟩ := Option.map_eq_some_iff.mp hf'
      · have hshaped := hfunction f0 hf0
        cases hf1.symm.trans hf0
        exact hshaped.label (hshaped.areBlocks hleft) rfl hshaped.bodySound (sound_of_result rfl rfl hlabel)
      · exact ⟨rfl, rfl⟩
  next hopen =>
    refine .pure fun f' hf' => ?_
    cases hf.symm.trans hf'
    rw [Bool.not_eq_true, Bool.or_eq_false_iff, Bool.not_eq_false'] at hopen
    exact hopen

theorem shaping_problem (source : Instruction) (message : String) :
    shaping.Keeps (problem source message) := shaping_apart fun _ => ⟨rfl, rfl, rfl⟩

theorem shaping_compute (hi : i.op.role = .computation)
    (hresult : ∀ n, i.result = some n → Issued s.module.nextId n) :
    shaping.Runs (emit source i) s := by
  refine .get_bind ?_
  split
  · exact (shaping_problem source _ s).bind fun _ s1 _ _ => .pure trivial
  next f hf =>
    refine (shaping_openBlock hf).bind fun _ s1 h1 hopen => ?_
    split
    next hfits =>
      refine (shaping_modifyFunction fun f' hf' hshaped => ?_).bind fun _ _ _ _ => .pure trivial
      obtain ⟨hlabelled, hterminated⟩ := hopen f' hf'
      exact hshaped.compute hlabelled hterminated hi ⟨hfits, fun n hn => (hresult n hn).mono h1⟩
    next => exact (shaping_problem source _ s1).bind fun _ _ _ _ => .pure trivial

theorem shaping_terminate (hi : i.op.role = .terminator)
    (hresult : i.result = none) : shaping.Keeps (terminate source i) := by
  intro s
  unfold terminate emit
  refine .assoc (.get_bind ?_)
  split
  · exact (shaping_problem source _ s).bind fun _ s1 _ _ => .pure trivial
  next f hf =>
    refine .assoc ((shaping_openBlock hf).bind fun _ s1 _ hopen => ?_)
    split
    next hfits =>
      refine shaping_modifyTwice fun f' hf' hshaped => ?_
      obtain ⟨hlabelled, hterminated⟩ := hopen f' hf'
      exact hshaped.terminate hlabelled hterminated hi (sound_of_result_none hfits hresult)
    next => exact (shaping_problem source _ s1).bind fun _ _ _ _ => .pure trivial

theorem shaping_beginBlock (hn : Issued s.module.nextId n) :
    shaping.Runs (beginBlock source n) s := by
  refine .get_bind ?_
  split
  · exact shaping_problem source _ s
  next f hf =>
    extract_lets start
    split
    next hopen =>
      -- The branch ends the open block before the label starts the next one.
      rw [Bool.and_eq_true, Bool.not_eq_true'] at hopen
      refine shaping_modifyTwice fun f' hf' hshaped => ?_
      cases hf.symm.trans hf'
      have hbranch : Inst.Sound s.module.nextId { op := .branch, operands := [.id n] } :=
        sound_of_result_none rfl rfl
      exact hshaped.label (hshaped.areBlocks_push hopen.1 hopen.2 rfl) rfl
        (sound_push hshaped.bodySound hbranch) (sound_of_result rfl rfl hn)
    next hopen =>
      refine shaping_modifyFunction fun f' hf' hshaped => ?_
      cases hf.symm.trans hf'
      have hleft : f.labelled = false ∨ f.terminated = true := by
        rw [Bool.not_eq_true, Bool.and_eq_false_iff, Bool.not_eq_false'] at hopen
        exact hopen
      exact hshaped.label (hshaped.areBlocks hleft) rfl hshaped.bodySound (sound_of_result rfl rfl hn)

theorem shaping_addLocal (hi : i.IsLocal) (hfits : i.fits = true)
    (hresult : i.result = some n) (hn : Issued s.module.nextId n) :
    shaping.Runs (modifyFunction fun f => { f with locals := f.locals.push i }) s := by
  refine shaping_modifyFunction fun f _ h =>
    { h with
      locals := fun v hv => ?_
      localsSound := sound_push h.localsSound (sound_of_result hfits hresult hn) }
  rw [Array.toList_push, List.mem_append, List.mem_singleton] at hv
  rcases hv with hv | rfl
  · exact h.locals v hv
  · exact hi

theorem shaping_addParameter (hi : i.op = .functionParameter)
    (hfits : i.fits = true) (hresult : i.result = some n) (hn : Issued s.module.nextId n) :
    shaping.Runs (modifyFunction fun f => { f with header := f.header.push i }) s := by
  refine shaping_modifyFunction fun f _ h =>
    { h with
      header := ?_
      headerSound := sound_push h.headerSound (sound_of_result hfits hresult hn) }
  obtain ⟨header, params, heq, hop, hparams⟩ := h.header
  refine ⟨header, params ++ [i], by rw [Array.toList_push, heq]; rfl, hop, fun p hp => ?_⟩
  rcases List.mem_append.mp hp with hp | hp
  · exact hparams p hp
  · rw [List.mem_singleton.mp hp]
    exact hi

/-! ## Functions -/

theorem shaping_openFunction (source : ResultId) (returnsVoid : Bool) (hi : i.op = .function)
    (hfits : i.fits = true) (hresult : i.result = some n) (hn : Issued s.module.nextId n) :
    shaping.Runs (modify fun s => { s with
      function := some { source, returnsVoid, header := #[i] } }) s := by
  rintro ⟨hmodule, hids, -⟩
  refine ⟨Nat.le_refl _, ⟨hmodule, hids, fun f hf => ?_⟩, trivial⟩
  cases hf
  have hnone : ∀ {P : Inst → Prop}, ∀ i ∈ ([] : List Inst), P i :=
    nofun
  exact
    { header := ⟨i, [], rfl, hi, hnone⟩
      locals := hnone
      unlabelled := fun _ => rfl
      left := fun h => by cases h
      inside := fun h => by cases h
      headerSound := fun j hj => by
        rw [List.mem_singleton.mp hj]
        exact sound_of_result hfits hresult hn
      localsSound := hnone
      bodySound := hnone }

theorem shaping_takeFunction : shaping.Runs takeFunction s
    fun o s' => ∀ f, o = some f → f.Shaped s'.module.nextId := by
  rintro ⟨hmodule, hids, hfunction⟩
  exact ⟨Nat.le_refl _, ⟨hmodule, hids, fun f hf => by cases hf⟩, hfunction⟩

theorem shaping_appendFunction {insts : Array Inst} (hfunction : IsFunction insts.toList)
    (hsound : ∀ i ∈ insts.toList, i.Sound s.module.nextId) :
    shaping.Runs (ofBuild (modify (·.append insts .functions))) s := by
  refine shaping_ofBuild fun hs =>
    ⟨Nat.le_refl _, ⟨hs.next, hs.shader, fun sec hsec => ?_, ?_, ?_, hs.constantIds⟩, trivial⟩
  · have hsame := contents_append s.module insts .functions sec
    rw [if_neg hsec] at hsame
    intro i hi
    exact hs.sections sec hsec i (hsame ▸ hi)
  · obtain ⟨fs, hfs, hall⟩ := hs.functions
    refine ⟨fs ++ [insts.toList], ?_, fun f hf => ?_⟩
    · change (s.module.functions ++ insts).toList = _
      simp [hfs]
    · rcases List.mem_append.mp hf with hf | hf
      · exact hall f hf
      · rw [List.mem_singleton.mp hf]
        exact hfunction
  · intro i hi
    change i ∈ (s.module.functions ++ insts).toList at hi
    rw [Array.toList_append, List.mem_append] at hi
    exact hi.elim (hs.bodies i) (hsound i)

theorem OpenFunction.toList_insts (f : OpenFunction) : f.insts.toList =
    f.header.toList ++ f.body.toList.take 1 ++ f.locals.toList ++ f.body.toList.drop 1
      ++ [{ op := .functionEnd }] := by
  have hall : (f.body.toList.drop 1).take (f.body.size - 1) = f.body.toList.drop 1 :=
    List.take_of_length_le (by simp)
  simp [OpenFunction.insts, hall]

/-- **A function whose blocks have all been left is a function of the module.** -/
theorem OpenFunction.Shaped.isFunction (h : f.Shaped bound)
    (hne : body.toList ≠ []) (hbody : AreBlocks body.toList) :
    IsFunction (OpenFunction.insts { f with body }).toList := by
  obtain ⟨header, params, heq, hheader, hparams⟩ := h.header
  obtain ⟨label, first, rest, hsplit, hfirst, hrest⟩ := hbody.uncons hne
  refine ⟨header, params, label, f.locals.toList, first, rest, { op := .functionEnd }, ?_, hheader,
    hparams, h.locals, hfirst, hrest, rfl⟩
  rw [OpenFunction.toList_insts, heq, hsplit]
  simp

theorem OpenFunction.Shaped.sound_insts (h : f.Shaped bound)
    (hbody : ∀ i ∈ body.toList, i.Sound bound) :
    ∀ i ∈ (OpenFunction.insts { f with body }).toList, i.Sound bound := by
  intro i hi
  rw [OpenFunction.toList_insts] at hi
  simp only [List.mem_append] at hi
  rcases hi with (((hi | hi) | hi) | hi) | hi
  · exact h.headerSound i hi
  · exact hbody i (List.mem_of_mem_take hi)
  · exact h.localsSound i hi
  · exact hbody i (List.mem_of_mem_drop hi)
  · rw [List.mem_singleton.mp hi]
    exact sound_of_result_none rfl rfl

theorem shaping_writeFunction (body : Array Inst)
    (h : f.Shaped s.module.nextId) (hne : body.toList ≠ []) (hblocks : AreBlocks body.toList)
    (hbody : ∀ i ∈ body.toList, i.Sound s.module.nextId) : shaping.Runs (ofBuild
      (modify (·.append (OpenFunction.insts { f with body }) .functions))) s fun _ _ => True :=
  shaping_appendFunction (h.isFunction hne hblocks) (h.sound_insts hbody)

theorem shaping_closeFunction (h : f.Shaped s.module.nextId) :
    shaping.Runs (closeFunction f) s := by
  have hlast : ∀ bound, Inst.Sound bound { op := if f.returnsVoid then .ret else .unreachable } :=
    fun _ => sound_of_result_none rfl rfl
  have hrole : (if f.returnsVoid then Op.ret else .unreachable).role = .terminator := by
    split <;> rfl
  unfold closeFunction
  extract_lets f0 write ended
  have hended : ∀ g, g.labelled = false ∨ g.terminated = false → ended () g = write ()
      { g with body := g.body.push { op := if g.returnsVoid then .ret else .unreachable } } := by
    intro g hg
    refine if_pos ?_
    rw [Bool.or_eq_true, Bool.not_eq_true', Bool.not_eq_true']
    exact hg
  cases hlabelled : f.labelled with
  | false =>
    -- Without a label the function is one block that does nothing.
    rw [if_pos (show (!false) = true from rfl)]
    refine .bind (shaping_fresh (s := s)) fun label s1 h1 hlabel => ?_
    extract_lets f1
    rw [hended f1 (.inl rfl)]
    refine shaping_writeFunction (f := f) ((f.body.push _).push _) (h.mono h1) (by simp) ?_ ?_
    · rw [Array.toList_push, Array.toList_push, h.unlabelled hlabelled]
      exact areBlocks_nil.concat ((isOpenBlock_label rfl).terminate hrole)
    · refine sound_push (sound_push (fun i hi => ?_) (sound_of_result rfl rfl hlabel)) (hlast _)
      exact (h.bodySound i hi).mono h1
  | true =>
    rw [if_neg (show ¬ (!true) = true from Bool.false_ne_true)]
    cases hterminated : f.terminated with
    | false =>
      rw [hended f (.inr hterminated)]
      exact shaping_writeFunction _ h (by simp) (h.areBlocks_push hlabelled hterminated hrole)
        (sound_push h.bodySound (hlast _))
    | true =>
      have hkeep : ended () f0 = write () f :=
        if_neg (by simp [f0, hlabelled, hterminated])
      rw [hkeep]
      obtain ⟨hne, hblocks⟩ := h.left hlabelled hterminated
      exact shaping_writeFunction _ h hne hblocks h.bodySound

/-! ## The whole emission -/

theorem rules_shaping (asm : Assembler) (inst : Instruction) :
    Rules asm shaping (fun n s => Issued s.module.nextId n) (fun f s =>
      f.Shaped s.module.nextId) inst where
  toFormRules := (typeRules_shaping asm).toFormRules
  mono h hn := hn.mono h
  fnMono h hf := hf.mono h
  report _ := shaping_apart fun _ => ⟨rfl, rfl, rfl⟩
  fresh _ := shaping_fresh
  idFor id _ := shaping_idFor id
  bindId := shaping_bindId _
  setPlace _ := shaping_apart fun _ => ⟨rfl, rfl, rfl⟩
  addParam _ := shaping_apart fun _ => ⟨rfl, rfl, rfl⟩
  note _ := shaping_note
  overflow := shaping_note fun _ => ⟨_, _, _, _, rfl⟩
  setStage _ _ := shaping_apart fun _ => ⟨rfl, rfl, rfl⟩
  lowerType id := (typeRules_shaping asm).attempts_lowerTypeAt _ [] id
  capability _ := shaping_capability _
  extension _ := shaping_aside fun _ => ⟨_, _, _, _, _, rfl⟩
  newType _ _ := shaping_newType _ rfl
  constantIn _ _ h _ _ := shaping_constantIn h
  extInstSet := shaping_extInstSet
  remark _ hadmits hresult _ s := shaping_emit hadmits fun n hn => by rw [hresult] at hn; cases hn
  global hop hresult hn := shaping_emit (by rw [hop]; rfl) fun k hk => by
    rw [hresult] at hk
    cases hk
    exact hn
  block _ := shaping_aside fun _ => ⟨_, _, _, _, _, rfl⟩
  addEntryPoint _ _ := shaping_aside fun _ => ⟨_, _, _, _, _, rfl⟩
  modifyEntryPoint _ _ _ := shaping_aside fun _ => ⟨_, _, _, _, _, rfl⟩
  compute hop := shaping_compute (Op.role_of_computes hop)
  call _ hop := shaping_compute (by rw [hop]; rfl)
  terminate := shaping_terminate
  beginBlock := shaping_beginBlock
  addLocal := shaping_addLocal
  addParameter _ := shaping_addParameter
  openFunction returnsVoid _ := shaping_openFunction _ returnsVoid
  takeFunction _ _ := shaping_takeFunction
  closeFunction _ := shaping_closeFunction
  appendFunction _ := shaping_appendFunction

theorem shaping_lowerAll (asm : Assembler) : shaping.Inv (lowerAll asm).1 := by
  have hempty : shaping.Inv {} := by
    refine ⟨⟨Nat.one_pos, List.mem_singleton.mpr rfl, fun sec hsec i hi => ?_, ⟨[], rfl, ?_⟩, ?_,
      ?_⟩, nofun, fun f hf => by cases hf⟩
    · cases sec <;> exact absurd hi List.not_mem_nil
    all_goals exact nofun
  exact (Rules.lowerAll (rules_shaping asm) hempty).2

theorem framed_lowerAll (asm : Assembler) : (lowerAll asm).1.module.Framed := (shaping_lowerAll asm).1

end ShaderIR.Spirv
