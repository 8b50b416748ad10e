import ShaderIR.Proofs.Lists
import ShaderIR.Proofs.Spirv.Lowering.Descriptions
import ShaderIR.Proofs.Spirv.Limits
import ShaderIR.Proofs.Spirv.Lowering.Rules
import ShaderIR.Proofs.Types.Nesting

/-!
# Two lowerings that write one module

`P` pairs the ids that two streams refer to, and `T` those that are used as types.  States of the
two lowerings are **twins** if they have the same module and agree on paired ids; the problems that
were recorded, which spell ids, are free.
-/

namespace ShaderIR.Spirv

variable {x x' : ResultId} {r r' : ResultId}

/-! ## Types -/

/-- Two layouts that differ in the ids of the types of their members. -/
def LayoutTwins (T : ResultId → ResultId → Prop) (x y : StructLayout) : Prop :=
  y.name = x.name ∧ List.Forall₂ (fun m m' => m'.1 = m.1 ∧ T m.2 m'.2) x.members y.members

/-- Two registries that hold the same types under paired ids. -/
structure TypeTwins (a b : TypeRegistry) (T : ResultId → ResultId → Prop) : Prop where
  handle : ∀ {x x'}, T x x' → b.handle? x' = a.handle? x
  desc : ∀ h, b.desc? h = a.desc? h
  nested : ∀ h, Option.Rel T (a.idOf? h) (b.idOf? h)
  layout : ∀ l, Option.Rel (LayoutTwins T) (a.layout? l) (b.layout? l)
  size : b.size = a.size
  /-- No type is paired with two ids, from either side. -/
  apart : ∀ {x x' y y'}, T x x' → T y y' → (a.handle? y).isSome = true → (x = y ↔ x' = y')

namespace TypeTwins

variable {a b : TypeRegistry} {T : ResultId → ResultId → Prop} (h : TypeTwins a b T) {x x' : ResultId}
include h

theorem ofId? (hx : T x x') : b.ofId? x' = a.ofId? x := by
  rw [TypeRegistry.ofId?, TypeRegistry.ofId?, h.handle hx, funext h.desc]

theorem layoutOf? (hx : T x x') : Option.Rel (LayoutTwins T) (a.layoutOf? x) (b.layoutOf? x') := by
  have hhandle : b.layoutHandle? x' = a.layoutHandle? x := by
    rw [TypeRegistry.layoutHandle?, TypeRegistry.layoutHandle?, h.ofId? hx]
  rw [TypeRegistry.layoutOf?, TypeRegistry.layoutOf?, hhandle]
  cases a.layoutHandle? x with
  | none => exact .none
  | some l => exact h.layout l

theorem memberHandles (l : LayoutHandle) : b.memberHandles l = a.memberHandles l := by
  unfold TypeRegistry.memberHandles
  have hmembers : ∀ {m m' : List (String × ResultId)},
      List.Forall₂ (fun m m' => m'.1 = m.1 ∧ T m.2 m'.2) m m' →
      (m'.filterMap fun m => b.handle? m.2) = m.filterMap fun m => a.handle? m.2 := by
    intro m m' hm
    induction hm with
    | nil => rfl
    | cons hfirst _ ih => rw [List.filterMap_cons, List.filterMap_cons, h.handle hfirst.2, ih]
  have hl := h.layout l
  generalize a.layout? l = x at hl ⊢
  generalize b.layout? l = y at hl ⊢
  cases hl with
  | none => rfl
  | some hl => exact hmembers hl.2

theorem memberExtent (hx : T x x') : memberExtent b x' = memberExtent a x := by
  unfold Spirv.memberExtent TypeRegistry.bitAlign? TypeRegistry.bitWidth?
  rw [h.handle hx, funext (TypeRegistry.widthAt_congr h.desc h.memberHandles _),
    funext (TypeRegistry.alignAt_congr h.desc h.memberHandles _)]

theorem memberExtents {layout layout' : StructLayout} (hl : LayoutTwins T layout layout') :
    (layout'.members.map fun m => Spirv.memberExtent b m.2) =
      layout.members.map fun m => Spirv.memberExtent a m.2 := by
  have hmembers : ∀ {m m' : List (String × ResultId)},
      List.Forall₂ (fun m m' => m'.1 = m.1 ∧ T m.2 m'.2) m m' →
      (m'.map fun m => Spirv.memberExtent b m.2) = m.map fun m => Spirv.memberExtent a m.2 := by
    intro m m' hm
    induction hm with
    | nil => rfl
    | cons hfirst _ ih => rw [List.map_cons, List.map_cons, h.memberExtent hfirst.2, ih]
  exact hmembers hl.2

end TypeTwins

theorem TypeTwins.refl (a : TypeRegistry) : TypeTwins a a Eq where
  handle h := by rw [h]
  desc _ := rfl
  nested h := by cases a.idOf? h <;> constructor; rfl
  layout l := by
    cases a.layout? l with
    | none => exact .none
    | some layout => exact .some ⟨rfl, List.forall₂_same.mpr fun _ _ => ⟨rfl, rfl⟩⟩
  size := rfl
  apart h h' _ := by rw [h, h']

variable {k : Nat}

/-! ## States -/

/-- What does not depend on ids is the same in two states, up to the id of the open function. -/
structure Matches (s t : Lowering) : Prop where
  module : t.module = s.module
  builtIns : t.builtIns = s.builtIns
  stage : t.stage = s.stage
  perVertex : t.perVertex = s.perVertex
  fragColor : t.fragColor = s.fragColor
  offsetOverflow : t.offsetOverflow = s.offsetOverflow
  function : ∃ source, t.function = s.function.map ({ · with source })

theorem Matches.refl (s : Lowering) : Matches s s := by
  refine ⟨rfl, rfl, rfl, rfl, rfl, rfl, ?_⟩
  cases s.function with
  | none => exact ⟨.void, rfl⟩
  | some f => exact ⟨f.source, rfl⟩

/-- States of two lowerings with one module. -/
structure Twins (a b : Assembler) (P T : ResultId → ResultId → Prop) (s t : Lowering) :
    Prop extends Matches s t where
  types : ∀ {x x'}, T x x' → t.typeIds.get? x' = s.typeIds.get? x
  ids : ∀ {r r'}, P r r' → t.ids.get? r' = s.ids.get? r
  places : ∀ {r r'}, P r r' → t.places.get? r' = s.places.get? r
  params : ∀ {r r'}, P r r' → t.params.contains r' = s.params.contains r
  /-- As long as an id stands for nothing it is paired with one id, from either side. -/
  apart : ∀ {r r'}, P r r' → s.ids.get? r = none → ∀ {q q'}, P q q' → (q = r ↔ q' = r')
  kind : ∀ {r r'}, P r r' → (b.opcodeOf r').isVar = (a.opcodeOf r).isVar ∨ s.places.get? r = none
  known : ∀ {r n}, s.ids.get? r = some n → ∃ r', P r r'

/-- The ids that two instructions define: each is paired with the other, and with nothing else. -/
structure Own (a b : Assembler) (P : ResultId → ResultId → Prop) (d d' : ResultId) : Prop where
  pair : P d d'
  apart : ∀ {q q'}, P q q' → (q = d ↔ q' = d')
  kind : (b.opcodeOf d').isVar = (a.opcodeOf d).isVar

structure Slots (a b : Assembler) (P T : ResultId → ResultId → Prop) (r r' : ResultId) : Prop where
  void : r'.isVoid = r.isVoid
  pair : P r r'
  type : T r r'
  typeOf : T (typeOf a r) (typeOf b r')

variable {a b : Assembler} {P T : ResultId → ResultId → Prop} {α : Type} (inst inst' : Instruction)

/-- Two programs turn twins into twins, the second within a limit of `k` more words. -/
abbrev Twin (a b : Assembler) (P T : ResultId → ResultId → Prop) (k : Nat) (x y : Lower α) : Prop :=
  Alike (Lowering.Lost k) (Twins a b P T) x y

abbrev TwinT (a b : Assembler) (P T : ResultId → ResultId → Prop) (k : Nat) (x y : Attempt α) :
    Prop :=
  AlikeT (Lowering.Lost k) (Twins a b P T) x y

theorem alike_get {f g : Lowering → Lower α} (h : ∀ s t, Matches s t → Twin a b P T k (f s) (g t)) :
    Twin a b P T k (get >>= f) (get >>= g) := .get_bind (fun _ _ hs => hs.toMatches) (fun s => ⟨s, .refl s⟩) h

theorem alikeT_get {f g : Lowering → Attempt α}
    (h : ∀ s t, Matches s t → TwinT a b P T k (f s) (g t)) :
    TwinT a b P T k (get >>= f) (get >>= g) := .get_bind (fun _ _ hs => hs.toMatches) (fun s => ⟨s, .refl s⟩) h

theorem twins_empty (hapart : ∀ {r r' q q'}, P r r' → P q q' → (q = r ↔ q' = r')) :
    Twins a b P T {} {} where
  module := rfl
  builtIns := rfl
  stage := rfl
  perVertex := rfl
  fragColor := rfl
  offsetOverflow := rfl
  function := ⟨.void, rfl⟩
  types _ := rfl
  ids _ := rfl
  places _ := rfl
  params _ := rfl
  apart h _ _ _ hq := hapart h hq
  kind _ := .inr rfl
  known h := by cases h

/-! ## Ids and places -/

theorem alike_report (p p' : Problem) : Twin a b P T k (report p) (report p') :=
  .modify (fun _ => Or.imp_left fun hs => ⟨hs.1, Array.push_ne_empty⟩) fun _ _ hs => { hs with }

theorem alike_problem (message message' : String) :
    Twin a b P T k (problem inst message) (problem inst' message') := alike_report _ _

theorem alikeT_problem {inst inst' : Instruction} {message message' : String} :
    TwinT a b P T k (liftM (problem inst message)) (liftM (problem inst' message')) :=
  AlikeT.lift (alike_problem inst inst' _ _)

theorem alike_giveUp (message message' : String) :
    TwinT a b P T k (giveUp inst message : Attempt α) (giveUp inst' message') :=
  alikeT_problem.bind fun _ => .failure

theorem alike_maybeProblem {c d : Prop} [Decidable c] [Decidable d]
    (message message' : String) {f g : Unit → Attempt α} (h : TwinT a b P T k (f ()) (g ())) :
    TwinT a b P T k
      (if c then do let u ← problem inst message; f u else f ())
      (if d then do let u ← problem inst' message'; g u else g ()) := by
  have hproblem : TwinT a b P T k (liftM (problem inst message)) (liftM (problem inst' message')) :=
    alikeT_problem
  have hleft : TwinT a b P T k (do let u ← problem inst message; f u) (g ()) :=
    ⟨(hproblem.bind fun _ => h).keeps, fun _ _ hs => h.same _ _ { hs with }⟩
  have hright : TwinT a b P T k (f ()) (do let u ← problem inst' message'; g u) :=
    ⟨h.keeps, fun _ _ hs => h.same _ _ { hs with }⟩
  split
  · split
    · exact hproblem.bind fun _ => h
    · exact hleft
  · split
    · exact hright
    · exact h

theorem alike_ofBuild {x y : Build α} [h : Builds k x y] :
    Twin a b P T k (Lower.ofBuild x) (Lower.ofBuild y) := by
  refine ⟨fun s => Or.imp_right (h.alike.keeps s.module), fun s t hs => ?_⟩
  exact (h.alike.same _ _ hs.module.symm).imp .inr fun hrun => ⟨hrun.1, { hs with module := hrun.2.symm }⟩

theorem alike_build {x y : Build α} [Builds k x y] :
    Twin a b P T k (onModule x : Lower α) (onModule y) := alike_ofBuild

theorem alike_onModule {x y : Build α} [Builds k x y] : TwinT a b P T k (onModule x) (onModule y) :=
  AlikeT.lift alike_ofBuild

theorem get?_insert_congr {κ ν : Type} [DecidableEq κ] {t t' : Table κ ν} {k k' j j' : κ} {v : ν}
    (hj : t'.get? j' = t.get? j) (h : j = k ↔ j' = k') :
    (t'.insert k' v).get? j' = (t.insert k v).get? j := by
  rw [Table.get?_insert, Table.get?_insert, hj]
  by_cases hjk : j = k
  · rw [if_pos (h.mp hjk).symm, if_pos hjk.symm]
  · rw [if_neg fun hjk' => hjk (h.mpr hjk'.symm), if_neg fun hkj => hjk hkj.symm]

theorem exists_table {κ ν : Type} [DecidableEq κ] (k : κ) (o : Option ν) :
    ∃ t : Table κ ν, t.get? k = o := by
  cases o with
  | none => exact ⟨{}, rfl⟩
  | some v => exact ⟨({} : Table κ ν).insert k v, Table.get?_insert_self⟩

theorem Twins.insertId {s t : Lowering} (hs : Twins a b P T s t) (hr : P r r')
    (hapart : ∀ {q q'}, P q q' → (q = r ↔ q' = r')) {n n' : ModuleId} (hn : n' = n) :
    Twins a b P T { s with ids := s.ids.insert r n } { t with ids := t.ids.insert r' n' } := by
  subst hn
  exact { hs with
    ids := fun hq => get?_insert_congr (hs.ids hq) (hapart hq)
    apart := fun {q q'} hq hnone => by
      refine hs.apart hq ?_
      rw [Table.get?_insert] at hnone
      split at hnone
      · cases hnone
      · exact hnone
    known := fun {q m} hq => by
      rcases Table.get?_insert_cases hq with ⟨rfl, -⟩ | hq
      · exact ⟨r', hr⟩
      · exact hs.known hq }

theorem alike_idFor (hr : P r r') : Twin a b P T k (idFor r) (idFor r') := by
  refine ⟨fun s hs => ?_, fun s t hs => ?_⟩
  · simp only [idFor, StateT.run_bind, StateT.run_get, pure_bind]
    cases s.ids.get? r <;> exact hs
  simp only [AlikeAt, idFor, StateT.run_bind, StateT.run_get, pure_bind, hs.ids hr]
  cases hn : s.ids.get? r with
  | some n => exact .inr ⟨rfl, hs⟩
  | none =>
    have hnext : t.module.nextId = s.module.nextId := by rw [hs.module]
    have hfresh : Twin a b P T k (Lower.ofBuild .fresh) (Lower.ofBuild .fresh) := alike_ofBuild
    exact (hfresh.same s t hs).imp id fun hrun => ⟨hrun.1, hrun.2.insertId hr (hs.apart hr hn) hnext⟩

variable {d d' : ResultId}

theorem alike_bindId (hd : Own a b P d d') (n : ModuleId) :
    Twin a b P T k (bindId d n) (bindId d' n) :=
  .modify (fun _ => id) fun _ _ hs => hs.insertId hd.pair hd.apart rfl

theorem alike_isParam (hr : P r r') : Twin a b P T k (isParam r) (isParam r') :=
  Alike.read fun _ _ hs => (hs.params hr).symm

theorem alike_placeOf? (hr : P r r') : Twin a b P T k (placeOf? r) (placeOf? r') := by
  refine (alike_isParam hr).bind fun param => ?_
  exact .ite Iff.rfl (fun _ => .pure none) fun _ => .read fun _ _ hs => (hs.places hr).symm

theorem alike_setPlace (hd : Own a b P d d') (p : Place) :
    Twin a b P T k (setPlace d p) (setPlace d' p) :=
  .modify (fun _ => id) fun s t hs =>
    { hs with
      places := fun hq => get?_insert_congr (hs.places hq) (hd.apart hq)
      kind := fun {q q'} hq => by
        by_cases hqd : q = d
        · rw [hqd, (hd.apart hq).mp hqd]
          exact .inl hd.kind
        · refine (hs.kind hq).imp_right fun hnone => ?_
          exact (Table.get?_insert_of_ne fun heq => hqd heq.symm).trans hnone }

theorem alike_addParam (hd : Own a b P d d') :
    Twin a b P T k (modify fun s => { s with params := s.params.insert d })
      (modify fun s => { s with params := s.params.insert d' }) :=
  .modify (fun _ => id) fun s t hs =>
    { hs with
      params := fun {q q'} hq => by
        have hold := hs.params hq
        rw [Bool.eq_iff_iff, List.contains_iff_mem, List.contains_iff_mem] at hold ⊢
        change q' ∈ t.params.insert d' ↔ q ∈ s.params.insert d
        rw [List.mem_insert_iff, List.mem_insert_iff, hold, hd.apart hq] }

/-! ## Lowering of types -/

theorem alike_orGiveUp {R : α → α → Prop} {o o' : Option α} {β : Type} {f g : α → Attempt β}
    (ho : Option.Rel R o o') (h : ∀ x y, R x y → TwinT a b P T k (f x) (g y)) :
    TwinT a b P T k (orGiveUp o >>= f) (orGiveUp o' >>= g) := by
  cases ho with
  | none => exact .failure
  | some hxy => exact h _ _ hxy

section

variable (htypes : TypeTwins a.types b.types T)
include htypes

theorem contains_pending {pending pending' : List ResultId} (hx : T x x')
    (h : List.Forall₂ (fun p p' => T p p' ∧ (a.types.handle? p).isSome = true) pending pending') :
    pending'.contains x' = pending.contains x := by
  induction h with
  | nil => rfl
  | cons hp _ ih =>
    rw [List.contains_cons, List.contains_cons, ih, Bool.eq_iff_iff]
    simp only [Bool.or_eq_true, beq_iff_eq, htypes.apart hx hp.1 hp.2]

theorem alike_noteType (hx : T x x') (htype : (a.types.handle? x).isSome = true) (n : ModuleId) :
    TwinT a b P T k (do modify fun s => { s with typeIds := s.typeIds.insert x n }; pure n)
      (do modify fun s => { s with typeIds := s.typeIds.insert x' n }; pure n) := by
  have hnote : Twin a b P T k (modify fun s => { s with typeIds := s.typeIds.insert x n })
      (modify fun s => { s with typeIds := s.typeIds.insert x' n }) :=
    .modify (fun _ => id) fun s t hs =>
      { hs with types := fun hy => get?_insert_congr (hs.types hy) (htypes.apart hy hx htype) }
  exact (AlikeT.lift hnote).bind fun _ => .pure n

theorem alike_lowerTypeAt (fuel : Nat) {pending pending' : List ResultId} (hx : T x x')
    (hpending : List.Forall₂ (fun p p' => T p p' ∧ (a.types.handle? p).isSome = true) pending
      pending') :
    TwinT a b P T k (lowerTypeAt a fuel pending x) (@lowerTypeAt (wider k) b fuel pending' x') := by
  induction fuel generalizing pending pending' x x' with
  | zero => exact .failure
  | succ fuel ih =>
    refine .get_bind (fun s t hs => hs.types hx) (fun s => ?_) fun s t hs => ?_
    · obtain ⟨typeIds, hids⟩ := exists_table x' (s.typeIds.get? x)
      exact ⟨{ typeIds }, hids⟩
    rw [hs]
    cases s.typeIds.get? x with
    | some n => exact .pure n
    | none =>
      rw [htypes.ofId? hx, contains_pending htypes hx hpending]
      cases hdesc : a.types.ofId? x with
      | none => exact .failure
      | some desc =>
        have htype : (a.types.handle? x).isSome = true := by
          obtain ⟨k, hk, -⟩ := Option.bind_eq_some_iff.mp hdesc
          rw [hk]
          rfl
        refine .bind (.pure desc) fun desc => ?_
        refine .bind (.guard Iff.rfl) fun _ => ?_
        extract_lets lowerId lowerHandle note lowerId' lowerHandle' note'
        have hid : ∀ {y y'}, T y y' → TwinT a b P T k (lowerId y) (lowerId' y') := fun hy =>
          ih hy (.cons ⟨hx, htype⟩ hpending)
        have hhandle : ∀ c, TwinT a b P T k (lowerHandle c) (lowerHandle' c) := fun c =>
          alike_orGiveUp (htypes.nested c) fun _ _ hy => hid hy
        have hnote : ∀ n, TwinT a b P T k (note n) (note' n) :=
          alike_noteType htypes hx htype
        have htype : ∀ {y y' : Build ModuleId} [Builds k y y'],
            TwinT a b P T k (onModule y >>= note) (onModule y' >>= note') := alike_onModule.bind hnote
        cases desc with
        | void | bool | float | sint | uint => exact htype
        | vector inner lanes | array inner length | pointer inner => exact (hhandle inner).bind fun _ => htype
        | matrix inner columns rows =>
          exact (hhandle inner).bind fun _ => (alike_onModule).bind fun _ => htype
        | tuple x y => exact (hhandle x).bind fun _ => (hhandle y).bind fun _ => htype
        | record l =>
          refine alike_orGiveUp (htypes.layoutOf? hx) fun layout layout' hl => ?_
          refine (AlikeT.mapM hl.2 fun m m' hm => hid hm.2).bind fun members => ?_
          refine (alike_onModule).bind fun n => ?_
          rw [hl.1]
          refine (alike_onModule).bind fun _ => ?_
          refine (AlikeT.forM (hl.2.zipIdx 0) fun e e' he => ?_).bind fun _ => ?_
          · obtain ⟨⟨name, y⟩, i⟩ := e
            obtain ⟨⟨name', y'⟩, i'⟩ := e'
            obtain ⟨⟨rfl, -⟩, rfl⟩ : (name' = name ∧ _) ∧ i' = i := he
            exact alike_onModule
          · exact (AlikeT.pure n).bind hnote

theorem alike_lowerType (hx : T x x') :
    TwinT a b P T k (lowerType a x) (@lowerType (wider k) b x') := by
  unfold lowerType
  rw [htypes.size]
  exact alike_lowerTypeAt htypes _ hx .nil

theorem alike_requireType (inst inst' : Instruction) (hx : T x x') :
    TwinT a b P T k (requireType a inst x) (@requireType (wider k) b inst' x') :=
  (alike_lowerType htypes hx).orElse (alike_giveUp inst inst' _ _)

theorem described (hx : T x x') : Described a b x x' :=
  ⟨htypes.ofId? hx, htypes.desc⟩

end

/-! ## Function bodies -/

theorem Matches.function_cases {s t : Lowering} (hs : Matches s t) :
    (s.function = none ∧ t.function = none) ∨
      ∃ f source, s.function = some f ∧ t.function = some { f with source } := by
  obtain ⟨source, hsource⟩ := hs.function
  cases hf : s.function with
  | none =>
    rw [hf] at hsource
    exact .inl ⟨rfl, hsource⟩
  | some f =>
    rw [hf] at hsource
    exact .inr ⟨f, source, rfl, hsource⟩

theorem alike_modifyFunction {f : OpenFunction → OpenFunction}
    (h : ∀ x source, f { x with source } = { f x with source }) :
    Twin a b P T k (modifyFunction f) (modifyFunction f) :=
  .modify (fun _ => id) fun s t hs =>
    { hs with
      function := by
        obtain ⟨source, hsource⟩ := hs.function
        refine ⟨source, ?_⟩
        rw [hsource, Option.map_map, Option.map_map]
        exact congrArg (Option.map · s.function) (funext fun x => h x source) }

theorem alike_openBlock (f : OpenFunction) (source : ResultId) :
    Twin a b P T k (openBlock f) (openBlock { f with source }) :=
  Alike.ite Iff.rfl (fun _ => (alike_build).bind fun _ => alike_modifyFunction fun _ _ => rfl)
    fun _ => .pure ()

theorem alike_emit (i : Inst) : Twin a b P T k (emit inst i) (@emit (wider k) inst' i) := by
  refine alike_get fun s t hs => ?_
  rcases hs.function_cases with ⟨hf, hg⟩ | ⟨f, source, hf, hg⟩
  · rw [hf, hg]
    exact (alike_problem inst inst' _ _).bind fun _ => .pure false
  · rw [hf, hg]
    refine (alike_openBlock f source).bind fun _ => ?_
    rcases fits_cases k i with ⟨hi, hi'⟩ | ⟨hi, hk | hi'⟩
    · rw [if_pos hi, if_pos hi']
      exact (alike_modifyFunction fun _ _ => rfl).bind fun _ => .pure true
    · -- What is too large here is noted, whatever becomes of it on the other side.
      rw [if_neg hi]
      exact ⟨fun _ _ => .inl ⟨hk, Array.push_ne_empty⟩, fun _ _ _ => .inl (.inl ⟨hk, Array.push_ne_empty⟩)⟩
    · rw [if_neg hi, if_neg hi']
      exact (alike_problem inst inst' _ _).bind fun _ => .pure false

theorem alike_emitAnd (i : Inst) :
    Twin a b P T k (emitAnd inst i) (@emitAnd (wider k) inst' i) :=
  (alike_emit inst inst' i).bind fun _ => .pure ()

theorem alike_terminate (i : Inst) :
    Twin a b P T k (terminate inst i) (@terminate (wider k) inst' i) :=
  (alike_emit inst inst' i).bind fun _ =>
    Alike.ite Iff.rfl (fun _ => alike_modifyFunction fun _ _ => rfl) fun _ => .pure ()

theorem alike_beginBlock (label : ModuleId) :
    Twin a b P T k (beginBlock inst label) (beginBlock inst' label) := by
  refine alike_get fun s t hs => ?_
  rcases hs.function_cases with ⟨hf, hg⟩ | ⟨f, source, hf, hg⟩
  · rw [hf, hg]
    exact alike_problem inst inst' _ _
  · rw [hf, hg]
    refine .ite Iff.rfl (fun _ => ?_) fun _ => ?_
    · exact (alike_modifyFunction fun _ _ => rfl).bind fun _ => alike_modifyFunction fun _ _ => rfl
    · exact alike_modifyFunction fun _ _ => rfl

theorem closeFunction_source (f : OpenFunction) (source : ResultId) :
    closeFunction { f with source } = closeFunction f := by
  obtain ⟨_, returnsVoid, _, _, _, labelled, terminated⟩ := f
  cases labelled <;> cases terminated <;> rfl

theorem alike_closeFunction (f : OpenFunction) (source : ResultId) :
    Twin a b P T k (closeFunction f) (closeFunction { f with source }) := by
  rw [closeFunction_source]
  unfold closeFunction
  extract_lets f0 write ended
  have hwrite : ∀ u f, Twin a b P T k (write u f) (write u f) := fun _ _ => alike_build
  have hended : ∀ u f, Twin a b P T k (ended u f) (ended u f) := fun _ _ =>
    Alike.ite Iff.rfl (fun _ => hwrite () _) fun _ => hwrite () _
  exact .ite Iff.rfl (fun _ => (alike_build).bind fun _ => hended () _) fun _ => hended () _

theorem alike_takeFunction {f g : Option OpenFunction → Lower α}
    (hnone : Twin a b P T k (f none) (g none))
    (hsome : ∀ x source, Twin a b P T k (f (some x)) (g (some { x with source }))) :
    Twin a b P T k (takeFunction >>= f) (takeFunction >>= g) := by
  refine ⟨fun s hs => ?_, fun s t hs => ?_⟩
  · show Lowering.Lost k ((f s.function).run { s with function := none }).2
    cases s.function with
    | none => exact hnone.keeps _ hs
    | some x => exact (hsome x x.source).keeps _ hs
  have hstate : Twins a b P T { s with function := none } { t with function := none } :=
    { hs with function := ⟨.void, rfl⟩ }
  show AlikeAt _ _ (f s.function) (g t.function) _ _
  rcases hs.function_cases with ⟨hf, hg⟩ | ⟨x, source, hf, hg⟩
  · rw [hf, hg]
    exact hnone.same _ _ hstate
  · rw [hf, hg]
    exact (hsome x source).same _ _ hstate

theorem alikeT_takeFunction {f g : Option OpenFunction → Attempt α}
    (hnone : TwinT a b P T k (f none) (g none))
    (hsome : ∀ x source, TwinT a b P T k (f (some x)) (g (some { x with source }))) :
    TwinT a b P T k (OptionT.lift takeFunction >>= f) (OptionT.lift takeFunction >>= g) :=
  alike_takeFunction hnone hsome

theorem alike_openFunction (returnsVoid : Bool) (header : Array Inst) (source source' : ResultId) :
    Twin a b P T k (modify fun s => { s with function := some { source, returnsVoid, header } })
      (modify fun s => { s with function := some { source := source', returnsVoid, header } }) :=
  .modify (fun _ => id) fun _ _ hs => { hs with function := ⟨source', rfl⟩ }

/-! ## Reading -/

theorem alike_load (place : Place) (n : ModuleId) :
    Twin a b P T k (load inst place n) (@load (wider k) inst' place n) := alike_emit inst inst' _

theorem alike_store (pointer value : ModuleId) :
    Twin a b P T k (store inst pointer value) (@store (wider k) inst' pointer value) :=
  alike_emitAnd inst inst' _

theorem run_value_of_unplaced [WordLimit] (asm : Assembler) (inst : Instruction) {r : ResultId}
    {s : Lowering} (h : s.places.get? r = none) : (value asm inst r).run s = (idFor r).run s := by
  have hplace : (placeOf? r).run s = (none, s) := by
    unfold placeOf?
    rw [StateT.run_bind]
    change (if s.params.contains r = true then pure none else _ : Lower (Option Place)).run s = _
    split
    · rfl
    · exact congrArg (·, s) h
  unfold value
  split
  · rw [StateT.run_bind, hplace]
    rfl
  · rfl

theorem alike_value_of_kind (hr : P r r') (hkind : (b.opcodeOf r').isVar = (a.opcodeOf r).isVar) :
    Twin a b P T k (value a inst r) (@value (wider k) b inst' r') := by
  refine .ite (by rw [hkind]) (fun _ => ?_) fun _ => alike_idFor hr
  refine (alike_placeOf? hr).bind fun place => ?_
  cases place with
  | none => exact alike_idFor hr
  | some place =>
    refine alike_build.bind fun loaded => ?_
    refine (alike_load inst inst' place loaded).bind fun written => ?_
    exact .ite Iff.rfl (fun _ => .pure loaded) fun _ => alike_idFor hr

theorem alike_value (hr : P r r') :
    Twin a b P T k (value a inst r) (@value (wider k) b inst' r') := by
  refine ⟨(alike_value_of_kind (b := a) (P := Eq) (T := Eq) inst inst rfl rfl).keeps, fun s t hs => ?_⟩
  rcases hs.kind hr with hkind | hnone
  · exact (alike_value_of_kind inst inst' hr hkind).same s t hs
  · have hnone' : t.places.get? r' = none := (hs.places hr).trans hnone
    rw [AlikeAt, run_value_of_unplaced a inst hnone, @run_value_of_unplaced (wider k) b inst' _ _ hnone']
    exact (alike_idFor hr).same s t hs

theorem alike_values {insts insts' : List Instruction}
    (h : List.Forall₂ (fun x y => P x.refs.fst y.refs.fst) insts insts') :
    TwinT a b P T k (insts.mapM fun arg => liftM (value a arg arg.refs.fst))
      (insts'.mapM fun arg => liftM (@value (wider k) b arg arg.refs.fst)) :=
  AlikeT.mapM h fun arg arg' harg => .lift (alike_value arg arg' harg)

/-! ## Variables and built-ins -/

theorem alike_declareVariable (id : ModuleId) (storage : StorageClass)
    (pointee : ModuleId) (init : Option ModuleId) :
    TwinT a b P T k (declareVariable inst id storage pointee init)
      (@declareVariable (wider k) inst' id storage pointee init) := by
  refine (alike_onModule).bind fun pointer => ?_
  extract_lets i place define
  have hplace : ∀ u, TwinT a b P T k (place u) (place u) := fun _ => .pure _
  refine .ite Iff.rfl (fun _ => ?_) fun _ => (alike_onModule).bind hplace
  have hdefine : ∀ u, TwinT a b P T k (define u) (define u) := fun _ =>
    (AlikeT.lift (alike_modifyFunction fun _ _ => rfl)).bind hplace
  refine alikeT_get fun s t hs => ?_
  refine .ite ?_ (fun _ => (alike_giveUp inst inst' _ _).bind hdefine) fun _ => hdefine ()
  rcases hs.function_cases with ⟨hf, hg⟩ | ⟨f, source, hf, hg⟩
  · rw [hf, hg]
  · rw [hf, hg]
    exact Iff.rfl

theorem alike_addInterface (var : ModuleId) :
    Twin a b P T k (addInterface var) (addInterface var) := by
  refine alike_get fun s t hs => ?_
  rw [hs.stage]
  cases s.stage with
  | none => exact .pure ()
  | some stage => exact alike_build

theorem alike_builtInPlace (stage : ShaderStage) (i : BuiltIn) :
    Twin a b P T k (builtInPlace stage i) (@builtInPlace (wider k) stage i) := by
  refine (alike_build).bind fun pointee => ?_
  refine alike_get fun s t hs => ?_
  rw [hs.builtIns]
  cases s.builtIns.get? (stage, i) with
  | some var => exact .pure _
  | none =>
    refine .bind (.forM_option fun c => alike_build) fun _ => ?_
    refine (alike_build).bind fun var => ?_
    refine (alike_build).bind fun pointer => ?_
    iterate 3 refine (alike_build).bind fun _ => ?_
    refine .bind (.modify (fun _ => id) fun s t hs => ?_) fun _ => ?_
    · exact { hs with builtIns := by rw [hs.builtIns] }
    · exact (alike_addInterface var).bind fun _ => .pure _

theorem alike_perVertexBlock : Twin a b P T k perVertexBlock (@perVertexBlock (wider k)) := by
  refine alike_get fun s t hs => ?_
  rw [hs.perVertex]
  cases s.perVertex with
  | some var => exact (alike_addInterface var).bind fun _ => .pure _
  | none =>
    refine (alike_build).bind fun float => ?_
    refine (alike_build).bind fun position => ?_
    refine (alike_build).bind fun distances => ?_
    refine (alike_build).bind fun block => ?_
    refine (alike_build).bind fun _ => ?_
    refine (alike_build).bind fun _ => ?_
    refine .bind (.forM fun e => (alike_build).bind fun _ => alike_build) fun _ => ?_
    refine (alike_build).bind fun pointer => ?_
    refine (alike_build).bind fun var => ?_
    refine (alike_build).bind fun _ => ?_
    refine .bind (.modify (fun _ => id) fun s t hs => { hs with perVertex := rfl }) fun _ => ?_
    exact (alike_addInterface var).bind fun _ => .pure _

theorem alike_fragColorOutput (type : ModuleId) :
    Twin a b P T k (fragColorOutput type) (@fragColorOutput (wider k) type) := by
  refine alike_get fun s t hs => ?_
  rw [hs.fragColor]
  cases s.fragColor with
  | some var => exact (alike_addInterface var).bind fun _ => .pure _
  | none =>
    refine (alike_build).bind fun pointer => ?_
    refine (alike_build).bind fun var => ?_
    iterate 3 refine (alike_build).bind fun _ => ?_
    refine .bind (.modify (fun _ => id) fun s t hs => { hs with fragColor := rfl }) fun _ => ?_
    exact (alike_addInterface var).bind fun _ => .pure _

/-! ## Paired instructions -/

/-- The type that the entry function `r` of a stage returns. -/
def entryType (asm : Assembler) (r : ResultId) : ResultId :=
  ((asm.definingInstruction? r).map (·.refs.fst)).getD .void

/-- Two instructions at position `i` of two streams that differ in ids only. -/
structure Pair (a b : Assembler) (P T : ResultId → ResultId → Prop) (i : Nat)
    (inst inst' : Instruction) : Prop where
  opcode : inst'.opcode = inst.opcode
  operands : inst'.operands = inst.operands
  own : Own a b P inst.id inst'.id
  ownType : T inst.id inst'.id
  fst : Slots a b P T inst.refs.fst inst'.refs.fst
  snd : Slots a b P T inst.refs.snd inst'.refs.snd
  thd : Slots a b P T inst.refs.thd inst'.refs.thd
  resultType : T inst.resultType inst'.resultType
  trailers : ∀ {op} (n : Nat), inst.opcode.trailer? = some op →
    List.Forall₂ (fun x y => P x.refs.fst y.refs.fst ∧ T x.refs.fst y.refs.fst)
      (a.trailersAfter i op n) (b.trailersAfter i op n)
  interface : inst.opcode = .stageBegin → List.Forall₂ P (stageInterface a i) (stageInterface b i)
  entry : inst.opcode = .stageEnd → T (entryType a inst.refs.fst) (entryType b inst'.refs.fst)

theorem Slots.refl (a : Assembler) (r : ResultId) : Slots a a Eq Eq r r := ⟨rfl, rfl, rfl, rfl⟩

theorem Pair.refl (a : Assembler) (i : Nat) (inst : Instruction) : Pair a a Eq Eq i inst inst where
  opcode := rfl
  operands := rfl
  own := ⟨rfl, fun h => by rw [h], rfl⟩
  ownType := rfl
  fst := .refl a _
  snd := .refl a _
  thd := .refl a _
  resultType := rfl
  trailers _ _ := List.forall₂_same.mpr fun _ _ => ⟨rfl, rfl⟩
  interface _ := List.forall₂_same.mpr fun _ _ => rfl
  entry _ := rfl

theorem alike_fillValue (htypes : TypeTwins a.types b.types T) (inner : TypeHandle)
    (values : List ModuleId) :
    TwinT a b P T k (fillValue a inst inner values)
      (@fillValue (wider k) b inst' inner values) := by
  have helement : TwinT a b P T k ((do lowerType a (← orGiveUp (a.types.idOf? inner)))
        <|> giveUp inst "array element type has no SPIR-V form")
      ((do @lowerType (wider k) b (← orGiveUp (b.types.idOf? inner)))
        <|> giveUp inst' "array element type has no SPIR-V form") :=
    (alike_orGiveUp (htypes.nested inner) fun _ _ hx => alike_lowerType htypes hx).orElse
      (alike_giveUp inst inst' _ _)
  unfold fillValue
  split
  · exact .pure _
  · exact helement.bind fun element => alike_onModule

theorem alike_perVertexPlace (x : BuiltIn) (index : UInt32) :
    TwinT a b P T k (perVertexPlace inst x index) (@perVertexPlace (wider k) inst' x index) := by
  refine (alike_onModule).bind fun pointee => ?_
  refine (AlikeT.lift alike_perVertexBlock).bind fun block => ?_
  refine (alike_onModule).bind fun position => (alike_onModule).bind fun pointer => ?_
  refine (alike_onModule).bind fun chain => ?_
  refine (AlikeT.lift (alike_emit inst inst' _)).bind fun written => ?_
  exact (AlikeT.guard Iff.rfl).bind fun _ => .pure _

theorem alike_storeResult (stage : ShaderStage) (type result : ModuleId) :
    Twin a b P T k (storeResult inst stage type result)
      (@storeResult (wider k) inst' stage type result) := by
  unfold storeResult
  split
  · refine alike_perVertexBlock.bind fun block => (alike_build).bind fun first => ?_
    exact (alike_build).bind fun pointer => (alike_build).bind fun position => .pure _
  · exact (alike_fragColorOutput type).bind fun color => .pure _
  · exact (alike_problem inst inst' _ _).bind fun _ => .pure _

namespace Pair

variable {i : Nat} {inst inst' : Instruction} (h : Pair a b P T i inst inst')
include h

theorem wide : inst'.wide = inst.wide := by rw [Instruction.wide, Instruction.wide, h.operands]

theorem alike_loadPlace (place : Place) (result : ModuleId) :
    Twin a b P T k (do if ← load inst place result then setPlace inst.id place)
      (do if ← @load (wider k) inst' place result then setPlace inst'.id place) :=
  (alike_load inst inst' place result).bind fun _ =>
    Alike.ite Iff.rfl (fun _ => alike_setPlace h.own place) fun _ => .pure ()

theorem alike_readThrough (place : Place) (type : ModuleId) (indices : List ModuleId)
    (result : ModuleId) :
    Twin a b P T k (readThrough inst place type indices result)
      (@readThrough (wider k) inst' place type indices result) := by
  refine (alike_build).bind fun pointer => (alike_build).bind fun chain => ?_
  refine (alike_emit inst inst' _).bind fun written => ?_
  exact .ite Iff.rfl (fun _ => h.alike_loadPlace _ result) fun _ => .pure ()

theorem alike_wrapEntry (htypes : TypeTwins a.types b.types T) (hop : inst.opcode = .stageEnd)
    (stage : ShaderStage) (target : ModuleId) :
    Twin a b P T k (wrapEntry a inst stage target) (@wrapEntry (wider k) b inst' stage target) := by
  have hentry := h.entry hop
  unfold wrapEntry
  extract_lets resultType returns resultType' returns'
  have hreturns : returns' = returns := (described htypes hentry).returnsSomething_eq
  have hvec : isVec4 b resultType' = isVec4 a resultType := (described htypes hentry).isVec4_eq
  rw [hreturns]
  refine (alike_build).bind fun void => ?_
  extract_lets wrap wrap'
  have hwrap : ∀ type, Twin a b P T k (wrap type) (wrap' type) := by
    intro type
    refine (alike_build).bind fun functionType => (alike_build).bind fun main => ?_
    refine (alike_build).bind fun label => (alike_build).bind fun result => ?_
    extract_lets write write'
    have hwrite : ∀ stores, Twin a b P T k (write stores) (write' stores) := fun _ =>
      (alike_build).bind fun _ => (alike_build).bind fun _ => .pure _
    refine .ite Iff.rfl (fun _ => (Alike.pure _).bind hwrite) fun _ => ?_
    refine .ite (by rw [hvec]) (fun _ => ?_) fun _ => ?_
    · exact (alike_storeResult inst inst' stage type result).bind hwrite
    · exact (alike_problem inst inst' _ _).bind fun _ => (Alike.pure _).bind hwrite
  refine .ite Iff.rfl (fun _ => ?_) fun _ => (Alike.pure void).bind hwrap
  exact .bind (.map (alike_lowerType htypes hentry)) hwrap

end Pair

end ShaderIR.Spirv
