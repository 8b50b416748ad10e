import ShaderIR.Proofs.Assembler.Effects
import ShaderIR.Proofs.Types.Nesting

/-!
# Declaring and renaming types

A registry stays consistent when a type is declared under a new id, and when ids are renamed without
giving two of them one name.  Renaming drops, with the id that stands for a descriptor, **the way
from the descriptor to any other id that has it**.
-/

namespace ShaderIR

variable {id : ResultId} {f : ResultId → ResultId} {y x : ResultId}

/-! ## Tables -/

theorem mem_filterMap_renamed {α β : Type} {l : List α} {f : α → ResultId} {g : α → β} {y : β} :
    y ∈ l.filterMap (fun x => if (f x).isVoid then none else some (g x)) ↔
      ∃ x ∈ l, (f x).index ≠ 0 ∧ g x = y := by
  simp [List.mem_filterMap]

namespace Table

variable {κ α : Type} [DecidableEq κ] {t : Table κ α}

theorem get?_eq_some_iff_mem (h : (t.entries.map (·.1)).Nodup) {k : κ} {v : α} :
    t.get? k = some v ↔ (k, v) ∈ t.entries := by
  refine ⟨mem_of_get?, fun hmem => ?_⟩
  obtain ⟨entries⟩ := t
  induction entries with
  | nil => cases hmem
  | cons e rest ih =>
    obtain ⟨hnot, hrest⟩ := List.nodup_cons.mp h
    rw [get?, List.find?_cons]
    rcases List.mem_cons.mp hmem with rfl | hmem
    · rw [decide_eq_true rfl]
      rfl
    · have hne : e.1 ≠ k := fun heq => hnot (List.mem_map.mpr ⟨_, hmem, heq.symm⟩)
      rw [decide_eq_false hne]
      exact ih hrest hmem

theorem nodup_insert (h : (t.entries.map (·.1)).Nodup) (k : κ) (v : α) :
    ((t.insert k v).entries.map (·.1)).Nodup := by
  refine List.nodup_cons.mpr ⟨fun hmem => ?_, ?_⟩
  · obtain ⟨e, he, hk⟩ := List.mem_map.mp hmem
    exact of_decide_eq_true (List.mem_filter.mp he).2 hk
  · exact h.sublist (List.Sublist.map _ List.filter_sublist)

theorem nodup_insertIfNew (h : (t.entries.map (·.1)).Nodup) (k : κ) (v : α) :
    ((t.insertIfNew k v).entries.map (·.1)).Nodup := by
  unfold insertIfNew
  split
  · exact h
  · exact nodup_insert h k v

theorem mem_insertIfNew {k : κ} {v : α} {e : κ × α} (h : e ∈ (t.insertIfNew k v).entries) :
    e = (k, v) ∨ e ∈ t.entries := by
  unfold insertIfNew at h
  split at h
  · exact .inr h
  · exact mem_insert h

theorem isSome_get?_insert {k j : κ} {v : α} (h : j = k ∨ (t.get? j).isSome = true) :
    ((t.insert k v).get? j).isSome = true := by
  rw [get?_insert]
  split
  · rfl
  next hne => exact h.resolve_left fun heq => hne heq.symm

theorem isSome_get?_insertIfNew {k j : κ} {v : α} (h : j = k ∨ (t.get? j).isSome = true) :
    ((t.insertIfNew k v).get? j).isSome = true := by
  unfold insertIfNew
  split
  next hk =>
    rcases h with rfl | h
    · exact hk
    · exact h
  · exact isSome_get?_insert h

end Table

namespace Interner

variable {α : Type} [DecidableEq α]

theorem get?_insert_self (t : Interner α) (v : α) :
    (t.insert v).2.get? (t.insert v).1 = some v := by
  rw [insert, insertFull]
  cases h : t.find? v with
  | some i =>
    obtain ⟨hi, hv, -⟩ := Array.findIdx?_eq_some_iff_getElem.mp h
    exact (Array.getElem?_eq_getElem hi).trans (congrArg some (of_decide_eq_true hv))
  | none => exact Array.getElem?_push_size

theorem get?_insert_of_get? {t : Interner α} {i : Nat} {w : α} (h : t.get? i = some w) (v : α) :
    (t.insert v).2.get? i = some w := by
  rw [insert, insertFull]
  cases t.find? v with
  | some i => exact h
  | none =>
    have hlt := (Array.getElem?_eq_some_iff.mp h).1
    exact (Array.getElem?_push_lt hlt).trans ((Array.getElem?_eq_getElem hlt).symm.trans h)

end Interner

/-- What a form in the module needs of a layout. -/
def StructLayout.shape (layout : StructLayout) : String × List (String × ResultId) :=
  (layout.name, layout.members)

namespace TypeRegistry

variable {types : TypeRegistry}

/-! ## Declaring -/

theorem desc?_intern_of_desc? {h : TypeHandle} {d : TypeDesc} (hd : types.desc? h = some d)
    (d' : TypeDesc) : (types.intern d').2.desc? h = some d :=
  Interner.get?_insert_of_get? hd d'

theorem desc?_intern_self (types : TypeRegistry) (d : TypeDesc) :
    (types.intern d).2.desc? (types.intern d).1 = some d :=
  Interner.get?_insert_self types.descriptors d

/-- The registry `b` is `a` with the type `id` of descriptor `d` in addition. -/
structure Declares (id : ResultId) (d : TypeDesc) (a b : TypeRegistry) : Prop where
  desc : ∀ h, b.desc? h = (a.intern d).2.desc? h
  handles : b.handles = a.handles.insert id (a.intern d).1
  declared : ∀ e ∈ b.declared.entries, e = ((a.intern d).1, id) ∨ e ∈ a.declared.entries

theorem declares_declare (types : TypeRegistry) (id : ResultId) (d : TypeDesc) :
    Declares id d types (types.declare id d) :=
  ⟨fun _ => rfl, rfl, fun _ => Table.mem_insert⟩

theorem declares_declareAlso (types : TypeRegistry) (id : ResultId) (d : TypeDesc) :
    Declares id d types (types.declareAlso id d) :=
  ⟨fun _ => rfl, rfl, fun _ => Table.mem_insertIfNew⟩

theorem declares_declareStruct (types : TypeRegistry) (id : ResultId) (layout : StructLayout) :
    Declares id (.record ⟨types.layouts.next⟩) types (types.declareStruct id layout) :=
  ⟨fun _ => rfl, rfl, fun _ => Table.mem_insert⟩

namespace Declares

variable {d : TypeDesc} {types' : TypeRegistry} {j : ResultId} {h : TypeHandle} (hd : Declares id d types types')
include hd

theorem handle (j : ResultId) :
    types'.handle? j = if id = j then some (types.intern d).1 else types.handle? j := by
  rw [handle?, hd.handles]
  exact Table.get?_insert ..

theorem handle?_cases (hj : types'.handle? j = some h) : j = id ∨ types.handle? j = some h := by
  rw [hd.handle] at hj
  split at hj
  next heq => exact .inl heq.symm
  next => exact .inr hj

theorem handle?_of_handle? (hid : types.handle? id = none) (hj : types.handle? j = some h) :
    types'.handle? j = some h := by
  have hne : id ≠ j := by
    rintro rfl
    rw [hid] at hj
    cases hj
  rw [hd.handle, if_neg hne, hj]

theorem ofId?_self : types'.ofId? id = some d := by
  rw [ofId?, hd.handle, if_pos rfl, Option.bind_some, hd.desc, desc?_intern_self]

theorem ofId?_of_ofId? {d' : TypeDesc} (hj : types.ofId? j = some d') (hne : j ≠ id) :
    types'.ofId? j = some d' := by
  obtain ⟨k, hk, hd'⟩ := Option.bind_eq_some_iff.mp hj
  rw [ofId?, hd.handle, if_neg hne.symm, hk, Option.bind_some, hd.desc, desc?_intern_of_desc? hd']

theorem ofId?_of_ne (hc : types.Consistent) (hne : j ≠ id) : types'.ofId? j = types.ofId? j := by
  rw [ofId?, ofId?, hd.handle, if_neg hne.symm]
  cases hj : types.handle? j with
  | none => rfl
  | some k =>
    obtain ⟨d', hd'⟩ := Option.isSome_iff_exists.mp (hc.described hj)
    rw [Option.bind_some, Option.bind_some, hd.desc, desc?_intern_of_desc? hd', hd']

theorem described (hdescribed : ∀ {j h}, types.handle? j = some h → (types.desc? h).isSome = true)
    (hj : types'.handle? j = some h) : (types'.desc? h).isSome = true := by
  rw [hd.handle] at hj
  rw [hd.desc]
  split at hj
  · cases hj
    rw [desc?_intern_self]
    rfl
  · obtain ⟨d', hd'⟩ := Option.isSome_iff_exists.mp (hdescribed hj)
    rw [desc?_intern_of_desc? hd']
    rfl

theorem consistent (hc : types.Consistent) (hid : types.handle? id = none)
    (hdistinct : (types'.declared.entries.map (·.1)).Nodup) : types'.Consistent where
  described := hd.described hc.described
  canonical {h j} hj := by
    rcases hd.declared _ (Table.mem_of_get? hj) with heq | hold
    · cases heq
      rw [hd.handle, if_pos rfl]
    · exact hd.handle?_of_handle? hid (hc.canonical ((Table.get?_eq_some_iff_mem hc.distinct).mpr hold))
  distinct := hdistinct

end Declares

section

variable {layout new : StructLayout} {l : LayoutHandle}

theorem layout?_declareStruct_cases (hl : (types.declareStruct id new).layout? l = some layout) :
    layout = new ∨ types.layout? l = some layout := by
  change (types.layouts.values.push new)[l.slot]? = some layout at hl
  rw [Array.getElem?_push] at hl
  split at hl
  · exact .inl (Option.some.inj hl).symm
  · exact .inr hl

theorem layout?_declareStruct_of_layout? (hl : types.layout? l = some layout) :
    (types.declareStruct id new).layout? l = some layout := by
  have hlt := (Array.getElem?_eq_some_iff.mp hl).1
  exact (Array.getElem?_push_lt hlt).trans ((Array.getElem?_eq_getElem hlt).symm.trans hl)

end

/-- Some id stands for every description of a type. -/
def Standing (types : TypeRegistry) : Prop :=
  ∀ id h, types.handle? id = some h → (types.idOf? h).isSome = true

theorem Standing.declared (hs : types.Standing) (d : TypeDesc)
    {declared : Table TypeHandle ResultId}
    (hdeclared : ∀ {h}, h = (types.intern d).1 ∨ (types.idOf? h).isSome = true →
      (declared.get? h).isSome = true) :
    Standing { (types.intern d).2 with
      declared, handles := types.handles.insert id (types.intern d).1 } := fun j h hj =>
  hdeclared ((Table.get?_insert_cases hj).imp (·.2) (hs j h))

theorem Standing.declareAlso (hs : types.Standing) (id : ResultId) (d : TypeDesc) :
    (types.declareAlso id d).Standing := hs.declared d Table.isSome_get?_insertIfNew

theorem Standing.declareStruct (hs : types.Standing) (id : ResultId) (layout : StructLayout) :
    (types.declareStruct id layout).Standing :=
  have hlayouts : Standing { types with layouts := types.layouts.append layout } := hs
  hlayouts.declared _ Table.isSome_get?_insert

/-! ## Renaming -/

/-- Two ids are given one name only if it is void. -/
def Parts (f : ResultId → ResultId) : Prop := ∀ x y, f x = f y → (f x).index ≠ 0 → x = y

theorem get?_renameKeys {α : Type} (t : Table ResultId α) (hf : Parts f)
    {k : ResultId} (hk : (f k).index ≠ 0) :
    (t.filterMap fun id v => if (f id).isVoid then none else some (f id, v)).get? (f k) =
      t.get? k := by
  obtain ⟨entries⟩ := t
  unfold Table.filterMap Table.get?
  dsimp only
  induction entries with
  | nil => rfl
  | cons e rest ih =>
    rw [List.filterMap_cons, List.find?_cons]
    by_cases hv : (f e.1).isVoid = true
    · have hne : e.1 ≠ k := fun heq => hk (heq ▸ ResultId.isVoid_iff.mp hv)
      rw [if_pos hv, decide_eq_false hne]
      exact ih
    · rw [if_neg hv, List.find?_cons]
      by_cases hek : e.1 = k
      · rw [decide_eq_true hek, decide_eq_true (congrArg f hek)]
        rfl
      · have hne : f e.1 ≠ f k := fun heq => hek (hf _ _ heq (heq ▸ hk))
        rw [decide_eq_false hek, decide_eq_false hne]
        exact ih

/-- How the registry `b` comes from `a` by renaming ids: some are dropped, and no member of a
    struct. -/
structure Renamed (f : ResultId → ResultId) (a b : TypeRegistry) : Prop where
  desc : ∀ h, b.desc? h = a.desc? h
  handle : ∀ {id}, (f id).index ≠ 0 → b.handle? (f id) = a.handle? id
  exists_handle : ∀ {y h}, b.handle? y = some h → ∃ x, f x = y ∧ y.index ≠ 0 ∧ a.handle? x = some h
  idOf : ∀ {h x}, a.idOf? h = some x → (f x).index ≠ 0 → b.idOf? h = some (f x)
  exists_idOf : ∀ {h y}, b.idOf? h = some y → ∃ x, f x = y ∧ y.index ≠ 0 ∧ a.idOf? h = some x
  layout : ∀ l, (b.layout? l).map StructLayout.shape =
    (a.layout? l).map fun layout => (layout.name, layout.members.map fun m => (m.1, f m.2))
  member : ∀ {l layout m}, a.layout? l = some layout → m ∈ layout.members → (f m.2).index ≠ 0

theorem exists_of_handle?_rename (hf : Parts f)
    {h : TypeHandle} (hy : (types.rename f).handle? y = some h) :
    ∃ x, f x = y ∧ y.index ≠ 0 ∧ types.handle? x = some h := by
  obtain ⟨e, -, hz, he⟩ := mem_filterMap_renamed.mp (Table.mem_of_get? hy)
  cases he
  exact ⟨e.1, rfl, hz, (get?_renameKeys types.handles hf hz).symm.trans hy⟩

theorem exists_of_idOf?_rename (hdistinct : (types.declared.entries.map (·.1)).Nodup)
    {h : TypeHandle} (hy : (types.rename f).idOf? h = some y) :
    ∃ x, f x = y ∧ y.index ≠ 0 ∧ types.idOf? h = some x := by
  obtain ⟨e, hmem, hz, he⟩ := mem_filterMap_renamed.mp (Table.mem_of_get? hy)
  cases he
  exact ⟨e.2, rfl, hz, (Table.get?_eq_some_iff_mem hdistinct).mpr hmem⟩

theorem layout?_rename (types : TypeRegistry) (f : ResultId → ResultId) (l : LayoutHandle) :
    (types.rename f).layout? l = (types.layout? l).map (·.rename f) := by
  show (types.layouts.values.mapIdx fun _ layout => layout.rename f)[l.slot]? = _
  rw [Array.getElem?_mapIdx]
  rfl

theorem nodup_declared_rename (hdistinct : (types.declared.entries.map (·.1)).Nodup)
    (f : ResultId → ResultId) : ((types.rename f).declared.entries.map (·.1)).Nodup := by
  refine hdistinct.sublist ?_
  show ((types.declared.entries.filterMap fun e =>
    if (f e.2).isVoid then none else some (e.1, f e.2)).map (·.1)).Sublist _
  induction types.declared.entries with
  | nil => exact .slnil
  | cons e rest ih =>
    rw [List.filterMap_cons]
    by_cases hv : (f e.2).isVoid = true
    · rw [if_pos hv]
      exact ih.cons _
    · rw [if_neg hv]
      exact ih.cons_cons _

theorem idOf?_rename (hdistinct : (types.declared.entries.map (·.1)).Nodup)
    {h : TypeHandle} (hx : types.idOf? h = some x) (hz : (f x).index ≠ 0) :
    (types.rename f).idOf? h = some (f x) := by
  refine (Table.get?_eq_some_iff_mem (nodup_declared_rename hdistinct f)).mpr ?_
  exact mem_filterMap_renamed.mpr ⟨(h, x), (Table.get?_eq_some_iff_mem hdistinct).mp hx, hz, rfl⟩

theorem renamed_rename (hf : Parts f) (hdistinct : (types.declared.entries.map (·.1)).Nodup)
    (hmember : ∀ {l layout m}, types.layout? l = some layout → m ∈ layout.members →
      (f m.2).index ≠ 0) : Renamed f types (types.rename f) where
  desc _ := rfl
  handle hid := get?_renameKeys types.handles hf hid
  exists_handle := exists_of_handle?_rename hf
  idOf := idOf?_rename hdistinct
  exists_idOf := exists_of_idOf?_rename hdistinct
  layout l := by
    rw [layout?_rename, Option.map_map]
    rfl
  member := hmember

theorem Consistent.renamed_self (hc : types.Consistent)
    (hvoid : ∀ {id h}, types.handle? id = some h → id.index ≠ 0)
    (hmember : ∀ {l layout m}, types.layout? l = some layout → m ∈ layout.members → m.2.index ≠ 0) :
    Renamed (fun id => id) types types where
  desc _ := rfl
  handle _ := rfl
  exists_handle hy := ⟨_, rfl, hvoid hy, hy⟩
  idOf hx _ := hx
  exists_idOf hy := ⟨_, rfl, hvoid (hc.canonical hy), hy⟩
  layout l := by
    cases types.layout? l with
    | none => rfl
    | some layout => exact congrArg (fun members => some (layout.name, members)) (List.map_id _).symm
  member := hmember

theorem Consistent.rename (hc : types.Consistent) (hf : Parts f) : (types.rename f).Consistent where
  described hy := by
    obtain ⟨x, -, -, hx⟩ := exists_of_handle?_rename hf hy
    exact hc.described hx
  canonical hy := by
    obtain ⟨x, rfl, hz, hx⟩ := exists_of_idOf?_rename hc.distinct hy
    exact (get?_renameKeys types.handles hf hz).trans (hc.canonical hx)
  distinct := nodup_declared_rename hc.distinct f

namespace Renamed

variable {f : ResultId → ResultId} {a b : TypeRegistry} (h : Renamed f a b)
include h

theorem ofId? (hid : (f id).index ≠ 0) : b.ofId? (f id) = a.ofId? id := by
  unfold TypeRegistry.ofId?
  rw [h.handle hid]
  cases a.handle? id with
  | none => rfl
  | some k => exact h.desc k

theorem exists_ofId? {d : TypeDesc} (hy : b.ofId? y = some d) :
    ∃ x, f x = y ∧ y.index ≠ 0 ∧ a.ofId? x = some d := by
  obtain ⟨k, hk, hd⟩ := Option.bind_eq_some_iff.mp hy
  obtain ⟨x, hx, hz, hxk⟩ := h.exists_handle hk
  exact ⟨x, hx, hz, Option.bind_eq_some_iff.mpr ⟨k, hxk, (h.desc k).symm.trans hd⟩⟩

theorem layoutOf? (hid : (f id).index ≠ 0) : (b.layoutOf? (f id)).map StructLayout.shape =
      (a.layoutOf? id).map fun layout =>
        (layout.name, layout.members.map fun m => (m.1, f m.2)) := by
  have hhandle : b.layoutHandle? (f id) = a.layoutHandle? id := by
    unfold layoutHandle?
    rw [h.ofId? hid]
  unfold TypeRegistry.layoutOf?
  rw [hhandle]
  cases a.layoutHandle? id with
  | none => rfl
  | some l => exact h.layout l

theorem exists_layoutOf? (hx : (f x).index ≠ 0) {layout : StructLayout}
    (hlayout : b.layoutOf? (f x) = some layout) :
    ∃ layout', a.layoutOf? x = some layout' ∧ layout.name = layout'.name ∧
      layout.members = layout'.members.map fun m => (m.1, f m.2) := by
  have heq := h.layoutOf? hx
  rw [hlayout] at heq
  obtain ⟨layout', hlayout', hshape⟩ := Option.map_eq_some_iff.mp heq.symm
  exact ⟨layout', hlayout', (congrArg (·.1) hshape).symm, (congrArg (·.2) hshape).symm⟩

/-! ### Parts -/

theorem exists_isPart (hx : (f x).index ≠ 0) (hy : b.IsPart y (f x)) :
    ∃ x', f x' = y ∧ y.index ≠ 0 ∧ a.IsPart x' x := by
  cases hy with
  | nested hid hk hy =>
    obtain ⟨x', hx', hz, hid'⟩ := h.exists_idOf hy
    exact ⟨x', hx', hz, .nested ((h.ofId? hx).symm.trans hid) hk hid'⟩
  | member hlayout hm =>
    obtain ⟨layout', hlayout', -, hmembers⟩ := h.exists_layoutOf? hx hlayout
    rw [hmembers] at hm
    obtain ⟨m, hm', rfl⟩ := List.mem_map.mp hm
    obtain ⟨l, -, hl⟩ := exists_of_layoutOf? hlayout'
    exact ⟨m.2, rfl, h.member hl hm', .member hlayout' hm'⟩

theorem founded (hx : (f x).index ≠ 0) (hacc : Acc a.IsPart x) : Acc b.IsPart (f x) := by
  induction hacc with
  | intro x _ ih =>
    refine .intro _ fun y hy => ?_
    obtain ⟨x', rfl, hz, hpart⟩ := h.exists_isPart hx hy
    exact ih x' hpart hz

theorem grounded (ha : a.Grounded) (hb : b.Consistent) : b.Grounded where
  toConsistent := hb
  layout {y l} hy := by
    obtain ⟨x, -, -, hx⟩ := h.exists_ofId? hy
    have hsome := congrArg Option.isSome (h.layout l)
    rw [Option.isSome_map, Option.isSome_map] at hsome
    exact hsome.trans (ha.layout hx)
  member {y layout m} hlayout hm := by
    obtain ⟨l, hy, -⟩ := exists_of_layoutOf? hlayout
    obtain ⟨x, rfl, hz, -⟩ := h.exists_ofId? hy
    obtain ⟨layout', hlayout', -, hmembers⟩ := h.exists_layoutOf? hz hlayout
    rw [hmembers] at hm
    obtain ⟨m, hm', rfl⟩ := List.mem_map.mp hm
    obtain ⟨l', -, hl'⟩ := exists_of_layoutOf? hlayout'
    show (b.ofId? (f m.2)).isSome = true
    rw [h.ofId? (h.member hl' hm')]
    exact ha.member hlayout' hm'
  founded {y} hy := by
    obtain ⟨d, hd⟩ := Option.isSome_iff_exists.mp hy
    obtain ⟨x, rfl, hz, hx⟩ := h.exists_ofId? hd
    exact h.founded hz (ha.founded (by rw [hx]; rfl))

/-! ### Sizes -/

theorem memberHandles (l : LayoutHandle) : b.memberHandles l = a.memberHandles l := by
  have heq := h.layout l
  unfold TypeRegistry.memberHandles
  cases ha : a.layout? l with
  | none =>
    rw [ha] at heq
    rw [Option.map_eq_none_iff.mp heq]
  | some layout =>
    rw [ha] at heq
    obtain ⟨layout', hlayout', hshape⟩ := Option.map_eq_some_iff.mp heq
    have hmembers : layout'.members = layout.members.map fun m => (m.1, f m.2) :=
      congrArg (·.2) hshape
    rw [hlayout']
    dsimp only
    rw [hmembers]
    have hkept : ∀ m ∈ layout.members, b.handle? (f m.2) = a.handle? m.2 := fun m hm =>
      h.handle (h.member ha hm)
    revert hkept
    generalize layout.members = members
    intro hkept
    induction members with
    | nil => rfl
    | cons m rest ih =>
      obtain ⟨hm, hrest⟩ := List.forall_mem_cons.mp hkept
      rw [List.map_cons, List.filterMap_cons, List.filterMap_cons, hm, ih hrest]

theorem bitWidth? (hid : (f id).index ≠ 0) : b.bitWidth? (f id) = a.bitWidth? id := by
  unfold TypeRegistry.bitWidth?
  rw [h.handle hid, funext (widthAt_congr h.desc h.memberHandles _)]

theorem bitAlign? (hid : (f id).index ≠ 0) : b.bitAlign? (f id) = a.bitAlign? id := by
  unfold TypeRegistry.bitAlign?
  rw [h.handle hid, funext (alignAt_congr h.desc h.memberHandles _)]

end Renamed

end TypeRegistry

end ShaderIR
