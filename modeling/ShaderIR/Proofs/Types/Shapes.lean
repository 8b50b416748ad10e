import ShaderIR.Proofs.Types.Declaring

/-!
# The shape of a type

The **shape** of a type is what is left when the positions in its descriptor are followed to the
end; structs are leaves.  A registry is **interned** if it holds every descriptor once, parts before
the whole, and if its two tables are inverse to each other.  Then no two ids have the same shape.
-/

namespace ShaderIR

variable {h : TypeHandle} {d : TypeDesc} {id : ResultId} {n : Nat}

/-! ## Shapes -/

/-- What a type is made of, all the way down to scalars and structs. -/
inductive TypeShape
  | void
  | bool
  | float (width : UInt32)
  | sint (width : UInt32)
  | uint (width : UInt32)
  | array (inner : TypeShape) (length : UInt32)
  | vector (inner : TypeShape) (lanes : UInt32)
  | matrix (inner : TypeShape) (columns rows : UInt32)
  | pointer (inner : TypeShape)
  | tuple (fst snd : TypeShape)
  | record (layout : LayoutHandle)
deriving DecidableEq, Inhabited

namespace TypeDesc

/-- The shape of a descriptor, given the shapes of what is nested in it. -/
def shapeWith (f : TypeHandle → Option TypeShape) : TypeDesc → Option TypeShape
  | .void => some .void
  | .bool => some .bool
  | .float w => some (.float w)
  | .sint w => some (.sint w)
  | .uint w => some (.uint w)
  | .array h n => (f h).map (.array · n)
  | .vector h n => (f h).map (.vector · n)
  | .matrix h columns rows => (f h).map (.matrix · columns rows)
  | .pointer h => (f h).map .pointer
  | .tuple a b => (f a).bind fun s => (f b).map (.tuple s)
  | .record l => some (.record l)

/-- Two descriptors, of no struct, that differ at most in what is nested in them, and there only as
    `R` allows. -/
inductive Related (R : TypeHandle → TypeHandle → Prop) : TypeDesc → TypeDesc → Prop
  | same {d : TypeDesc} : d.inner = [] → (∀ l, d ≠ .record l) → Related R d d
  | array {h k : TypeHandle} {n : UInt32} : R h k → Related R (.array h n) (.array k n)
  | vector {h k : TypeHandle} {n : UInt32} : R h k → Related R (.vector h n) (.vector k n)
  | matrix {h k : TypeHandle} {columns rows : UInt32} : R h k →
      Related R (.matrix h columns rows) (.matrix k columns rows)
  | pointer {h k : TypeHandle} : R h k → Related R (.pointer h) (.pointer k)
  | tuple {h k i j : TypeHandle} : R h k → R i j → Related R (.tuple h i) (.tuple k j)

variable {d d' : TypeDesc}

theorem Related.eq (h : Related Eq d d') : d' = d := by
  cases h with
  | same => rfl
  | array h | vector h | matrix h | pointer h => rw [h]
  | tuple h i => rw [h, i]

theorem Related.ne_record {R : TypeHandle → TypeHandle → Prop} (h : Related R d d')
    (l : LayoutHandle) : d ≠ .record l := by
  cases h with
  | same _ hne => exact hne l
  | _ => nofun

variable {f g : TypeHandle → Option TypeShape}

theorem Related.shapeWith_eq {R : TypeHandle → TypeHandle → Prop}
    (h : Related R d d') (hR : ∀ i j, R i j → f i = g j) : d.shapeWith f = d'.shapeWith g := by
  cases h with
  | @same d hinner => cases d <;> first | rfl | cases hinner
  | array h | vector h | matrix h | pointer h => simp only [shapeWith, hR _ _ h]
  | tuple h i => simp only [shapeWith, hR _ _ h, hR _ _ i]

theorem shapeWith_mono {s : TypeShape} (h : d.shapeWith f = some s)
    (hf : ∀ i ∈ d.inner, ∀ t, f i = some t → g i = some t) : d.shapeWith g = some s := by
  cases d with
  | void | bool | float | sint | uint | record => exact h
  | array i | vector i | matrix i | pointer i =>
    obtain ⟨t, ht, rfl⟩ := Option.map_eq_some_iff.mp h
    simp only [shapeWith, hf i List.mem_cons_self t ht, Option.map_some]
  | tuple i j =>
    obtain ⟨t, ht, h⟩ := Option.bind_eq_some_iff.mp h
    obtain ⟨u, hu, rfl⟩ := Option.map_eq_some_iff.mp h
    have hi := hf i List.mem_cons_self t ht
    have hj := hf j (List.mem_cons_of_mem _ List.mem_cons_self) u hu
    simp only [shapeWith, hi, hj, Option.bind_some, Option.map_some]

theorem isSome_shapeWith (h : ∀ i ∈ d.inner, (f i).isSome = true) :
    (d.shapeWith f).isSome = true := by
  cases d with
  | void | bool | float | sint | uint | record => rfl
  | array i | vector i | matrix i | pointer i =>
    simp only [shapeWith, Option.isSome_map, h i List.mem_cons_self]
  | tuple i j =>
    obtain ⟨t, ht⟩ := Option.isSome_iff_exists.mp (h i List.mem_cons_self)
    have hj := h j (List.mem_cons_of_mem _ List.mem_cons_self)
    simp only [shapeWith, ht, Option.bind_some, Option.isSome_map, hj]

theorem eq_of_shapeWith {s : TypeShape} (h : d.shapeWith f = some s) (h' : d'.shapeWith g = some s)
    (hparts : ∀ i ∈ d.inner, ∀ j ∈ d'.inner, ∀ t, f i = some t → g j = some t → i = j) :
    d = d' := by
  have hinner : ∀ {i j t}, i ∈ d.inner → j ∈ d'.inner → f i = some t → g j = some t → i = j :=
    fun hi hj => hparts _ hi _ hj _
  -- A shape has one form only; where there are parts, they agree.
  cases d with
  | void | bool | float | sint | uint | record =>
    cases h
    cases d' <;> simp_all [shapeWith, Option.map_eq_some_iff, Option.bind_eq_some_iff]
  | array i | vector i | matrix i | pointer i =>
    obtain ⟨t, ht, rfl⟩ := Option.map_eq_some_iff.mp h
    cases d' <;> simp only [shapeWith, Option.map_eq_some_iff, Option.bind_eq_some_iff, Option.some.injEq,
      TypeShape.array.injEq, TypeShape.vector.injEq, TypeShape.matrix.injEq, TypeShape.pointer.injEq,
      reduceCtorEq, and_false, exists_false] at h'
    obtain ⟨_, ht', h'⟩ := h'
    obtain ⟨rfl, rfl, rfl⟩ := h'
    rw [hinner List.mem_cons_self List.mem_cons_self ht ht']
  | tuple i k =>
    obtain ⟨t, ht, h⟩ := Option.bind_eq_some_iff.mp h
    obtain ⟨u, hu, rfl⟩ := Option.map_eq_some_iff.mp h
    cases d' <;> simp only [shapeWith, Option.map_eq_some_iff, Option.bind_eq_some_iff, Option.some.injEq,
      TypeShape.tuple.injEq, reduceCtorEq, and_false, exists_false] at h'
    obtain ⟨_, ht', _, hu', rfl, rfl⟩ := h'
    rw [hinner List.mem_cons_self List.mem_cons_self ht ht',
      hinner (List.mem_cons_of_mem _ List.mem_cons_self) (List.mem_cons_of_mem _ List.mem_cons_self) hu hu']

end TypeDesc

namespace TypeRegistry

variable {types : TypeRegistry}

/-- The shape of a descriptor, looking at most `depth` levels deep. -/
def shapeAt (types : TypeRegistry) : Nat → TypeHandle → Option TypeShape
  | 0, _ => none
  | depth + 1, h => (types.desc? h).bind (TypeDesc.shapeWith (types.shapeAt depth))

/-- The shape of the descriptor at a position.  Its parts come before it, so their number bounds the
    depth. -/
def shape? (types : TypeRegistry) (h : TypeHandle) : Option TypeShape := types.shapeAt (h.slot + 1) h

def shapeOf? (types : TypeRegistry) (id : ResultId) : Option TypeShape :=
  (types.handle? id).bind types.shape?

/-! ## Layered and interned registries -/

/-- Ids have descriptors, and every descriptor stands behind its parts. -/
structure Layered (types : TypeRegistry) : Prop where
  described : ∀ {id h}, types.handle? id = some h → (types.desc? h).isSome = true
  behind : ∀ {h d}, types.desc? h = some d → ∀ i ∈ d.inner, i.slot < h.slot

/-- Every descriptor is there once. -/
def Unrepeated (types : TypeRegistry) : Prop :=
  ∀ h k d, types.desc? h = some d → types.desc? k = some d → h = k

/-- Every descriptor is there once, behind its parts, and ids and descriptors are matched one to
    one. -/
structure Interned (types : TypeRegistry) : Prop extends Consistent types where
  unique : ∀ {h k d}, types.desc? h = some d → types.desc? k = some d → h = k
  behind : ∀ {h d}, types.desc? h = some d → ∀ i ∈ d.inner, i.slot < h.slot
  laid : ∀ {h l}, types.desc? h = some (.record l) → l.slot < types.layouts.next
  standing : ∀ {id h}, types.handle? id = some h → types.idOf? h = some id

theorem isSome_desc?_iff :
    (types.desc? h).isSome = true ↔ h.slot < types.descriptors.values.size := by
  simp [desc?, Interner.get?]

variable {s : TypeShape}

theorem shapeAt_mono {m : Nat} (hnm : n ≤ m)
    (hs : types.shapeAt n h = some s) : types.shapeAt m h = some s := by
  induction n generalizing m h s with
  | zero => cases hs
  | succ n ih =>
    obtain ⟨m, rfl⟩ : ∃ k, m = k + 1 := ⟨m - 1, by omega⟩
    obtain ⟨d, hd, hs⟩ := Option.bind_eq_some_iff.mp hs
    refine Option.bind_eq_some_iff.mpr ⟨d, hd, TypeDesc.shapeWith_mono hs fun i _ t ht => ?_⟩
    exact ih (by omega) ht

theorem shapeAt_of_desc? {types' : TypeRegistry}
    (hdesc : ∀ {h d}, types.desc? h = some d → types'.desc? h = some d)
    (hs : types.shapeAt n h = some s) : types'.shapeAt n h = some s := by
  induction n generalizing h s with
  | zero => cases hs
  | succ n ih =>
    obtain ⟨d, hd, hs⟩ := Option.bind_eq_some_iff.mp hs
    exact Option.bind_eq_some_iff.mpr ⟨d, hdesc hd, TypeDesc.shapeWith_mono hs fun i _ t ht => ih ht⟩

theorem Interned.layered (hi : types.Interned) : types.Layered := ⟨hi.described, hi.behind⟩

namespace Layered

variable (hi : types.Layered)
include hi

theorem isSome_shapeAt (hn : h.slot < n)
    (hd : (types.desc? h).isSome = true) : (types.shapeAt n h).isSome = true := by
  induction n generalizing h with
  | zero => omega
  | succ n ih =>
    obtain ⟨d, hd⟩ := Option.isSome_iff_exists.mp hd
    rw [shapeAt, hd, Option.bind_some]
    refine TypeDesc.isSome_shapeWith fun i hmem => ?_
    -- Parts stand in front of the whole, so they are there.
    have hlt := hi.behind hd i hmem
    have hsize := isSome_desc?_iff.mp (hd ▸ rfl : (types.desc? h).isSome = true)
    exact ih (by omega) (isSome_desc?_iff.mpr (by omega))

theorem shape?_eq (hd : types.desc? h = some d) : types.shape? h = d.shapeWith types.shape? := by
  have hsome : (types.shape? h).isSome = true := hi.isSome_shapeAt (Nat.lt_succ_self _) (hd ▸ rfl)
  obtain ⟨s, hs⟩ := Option.isSome_iff_exists.mp hsome
  rw [hs]
  obtain ⟨d', hd', hs⟩ := Option.bind_eq_some_iff.mp hs
  cases hd.symm.trans hd'
  -- Deep enough for all parts is deep enough for each.
  refine (TypeDesc.shapeWith_mono hs fun i hmem t ht => ?_).symm
  have hlt := hi.behind hd i hmem
  have hsize := isSome_desc?_iff.mp (hd ▸ rfl : (types.desc? h).isSome = true)
  have hsome := hi.isSome_shapeAt (Nat.lt_succ_self i.slot) (isSome_desc?_iff.mpr (by omega))
  obtain ⟨u, hu⟩ := Option.isSome_iff_exists.mp hsome
  rw [shape?, hu, ← ht]
  exact (shapeAt_mono (by omega) hu).symm

theorem isSome_shapeOf? (hid : types.handle? id = some h) : (types.shapeOf? id).isSome = true := by
  rw [shapeOf?, hid, Option.bind_some]
  exact hi.isSome_shapeAt (Nat.lt_succ_self _) (hi.described hid)

theorem isSome_handle?_iff :
    (types.handle? id).isSome = true ↔ (types.shapeOf? id).isSome = true := by
  constructor
  · intro h
    obtain ⟨k, hk⟩ := Option.isSome_iff_exists.mp h
    exact hi.isSome_shapeOf? hk
  · intro h
    obtain ⟨s, hs⟩ := Option.isSome_iff_exists.mp h
    obtain ⟨k, hk, -⟩ := Option.bind_eq_some_iff.mp hs
    rw [hk]
    rfl

end Layered

theorem Unrepeated.eq_of_shapeAt (hu : types.Unrepeated) {m : Nat} {h k : TypeHandle}
    (hh : types.shapeAt n h = some s) (hk : types.shapeAt m k = some s) : h = k := by
  induction n generalizing m h k s with
  | zero => cases hh
  | succ n ih =>
    cases m with
    | zero => cases hk
    | succ m =>
      obtain ⟨d, hd, hh⟩ := Option.bind_eq_some_iff.mp hh
      obtain ⟨d', hd', hk⟩ := Option.bind_eq_some_iff.mp hk
      have heq : d = d' := TypeDesc.eq_of_shapeWith hh hk fun i _ j _ t hi hj => ih hi hj
      exact hu h k d hd (heq ▸ hd')

theorem Interned.unrepeated (hi : types.Interned) : types.Unrepeated := fun _ _ _ => hi.unique

namespace Interned

variable (hi : types.Interned)
include hi

theorem eq_of_shapeOf? {x y : ResultId} {s : TypeShape} (hx : types.shapeOf? x = some s)
    (hy : types.shapeOf? y = some s) : x = y := by
  obtain ⟨h, hxh, hs⟩ := Option.bind_eq_some_iff.mp hx
  obtain ⟨k, hyk, hs'⟩ := Option.bind_eq_some_iff.mp hy
  cases hi.unrepeated.eq_of_shapeAt hs hs'
  exact Option.some.inj ((hi.standing hxh).symm.trans (hi.standing hyk))

end Interned

/-! ## What keeps a registry interned -/

theorem Interned.empty : Interned {} where
  described h := by cases h
  canonical h := by cases h
  distinct := .nil
  unique h := by cases h
  behind h := by cases h
  laid h := by cases h
  standing h := by cases h

theorem desc?_intern_cases {d d' : TypeDesc} (hd : (types.intern d).2.desc? h = some d') :
    types.desc? h = some d' ∨
      (d' = d ∧ h.slot = types.descriptors.values.size ∧ ∀ k, types.desc? k ≠ some d) := by
  change ((types.descriptors.insert d).2.values)[h.slot]? = some d' at hd
  rw [Interner.insert, Interner.insertFull] at hd
  cases hfind : types.descriptors.find? d with
  | some i =>
    rw [hfind] at hd
    exact .inl hd
  | none =>
    rw [hfind] at hd
    change (types.descriptors.values.push d)[h.slot]? = some d' at hd
    rw [Array.getElem?_push] at hd
    split at hd
    next heq =>
      cases hd
      refine .inr ⟨rfl, heq, fun k hk => ?_⟩
      have hne := Array.findIdx?_eq_none_iff.mp hfind d (Array.mem_of_getElem? hk)
      exact of_decide_eq_false hne rfl
    next => exact .inl hd

theorem Unrepeated.intern (hu : types.Unrepeated) (d : TypeDesc) :
    (types.intern d).2.Unrepeated := by
  intro h k d' hh hk
  rcases desc?_intern_cases hh with hold | ⟨hd, hslot, hno⟩
  · rcases desc?_intern_cases hk with hold' | ⟨hd, -, hno⟩
    · exact hu h k d' hold hold'
    · exact absurd (hd ▸ hold) (hno h)
  · rcases desc?_intern_cases hk with hold' | ⟨-, hslot', -⟩
    · exact absurd (hd ▸ hold') (hno k)
    · cases h
      cases k
      exact congrArg TypeHandle.mk (hslot.trans hslot'.symm)

def declared? (types : TypeRegistry) (d : TypeDesc) : Option ResultId :=
  (types.descriptors.find? d).bind fun i => types.idOf? ⟨i⟩

theorem declared?_eq_some (h : types.declared? d = some id) :
    ∃ k, types.desc? k = some d ∧ types.idOf? k = some id := by
  obtain ⟨i, hfind, hid⟩ := Option.bind_eq_some_iff.mp h
  obtain ⟨hi, hd, -⟩ := Array.findIdx?_eq_some_iff_getElem.mp hfind
  refine ⟨⟨i⟩, ?_, hid⟩
  exact (Array.getElem?_eq_getElem hi).trans (congrArg some (of_decide_eq_true hd))

theorem Interned.declared?_of_desc? (hi : types.Interned) {k : TypeHandle}
    (hk : types.desc? k = some d) : types.declared? d = types.idOf? k := by
  cases hfind : types.descriptors.find? d with
  | none =>
    have hne := Array.findIdx?_eq_none_iff.mp hfind d (Array.mem_of_getElem? hk)
    exact absurd rfl (of_decide_eq_false hne)
  | some i =>
    obtain ⟨hlt, hd, -⟩ := Array.findIdx?_eq_some_iff_getElem.mp hfind
    have hdesc : types.desc? ⟨i⟩ = some d :=
      (Array.getElem?_eq_getElem hlt).trans (congrArg some (of_decide_eq_true hd))
    rw [declared?, hfind, Option.bind_some, hi.unique hdesc hk]

theorem idOf?_intern_of_declared? (hc : types.Consistent)
    (h : types.declared? d = none) : types.idOf? (types.intern d).1 = none := by
  cases hid : types.idOf? (types.intern d).1 with
  | none => rfl
  | some id =>
    have hsize := isSome_desc?_iff.mp (hc.described (hc.canonical hid))
    change types.idOf? ⟨(types.descriptors.insert d).1⟩ = some id at hid
    change (types.descriptors.insert d).1 < _ at hsize
    rw [declared?] at h
    rw [Interner.insert, Interner.insertFull] at hid hsize
    cases hfind : types.descriptors.find? d with
    | some i =>
      rw [hfind] at h hid
      cases h.symm.trans hid
    | none =>
      rw [hfind] at hsize
      exact absurd hsize (Nat.lt_irrefl _)

namespace Interned

variable (hi : types.Interned)
include hi

theorem declare (hid : types.handle? id = none)
    (hnew : types.declared? d = none) (hinner : ∀ i ∈ d.inner, (types.desc? i).isSome = true)
    (hlaid : ∀ l, d = .record l → l.slot < types.layouts.next) : (types.declare id d).Interned where
  toConsistent :=
    (declares_declare types id d).consistent hi.toConsistent hid
      (Table.nodup_insert hi.distinct _ _)
  unique hh hk := hi.unrepeated.intern d _ _ _ hh hk
  behind {h d'} hh i hmem := by
    rcases desc?_intern_cases hh with hh | ⟨rfl, hslot, -⟩
    · exact hi.behind hh i hmem
    · rw [hslot]
      exact isSome_desc?_iff.mp (hinner i hmem)
  laid {h l} hh := by
    rcases desc?_intern_cases hh with hh | ⟨rfl, -, -⟩
    · exact hi.laid hh
    · exact hlaid l rfl
  standing {j h} hj := by
    change (types.declared.insert (types.intern d).1 id).get? h = some j
    have hcases : (j = id ∧ h = (types.intern d).1) ∨ types.handle? j = some h :=
      Table.get?_insert_cases hj
    rw [Table.get?_insert]
    rcases hcases with ⟨rfl, heq⟩ | hold
    · rw [if_pos heq.symm]
    · -- No old id has the new descriptor.
      have hne : (types.intern d).1 ≠ h := by
        intro heq
        have hno := idOf?_intern_of_declared? hi.toConsistent hnew
        rw [heq, hi.standing hold] at hno
        cases hno
      rw [if_neg hne]
      exact hi.standing hold

theorem withLayouts {layouts : Arena StructLayout}
    (hle : types.layouts.next ≤ layouts.next) : Interned { types with layouts } :=
  { hi with laid := fun hh => Nat.lt_of_lt_of_le (hi.laid hh) hle }

theorem setLayout (l : LayoutHandle) (layout : StructLayout) :
    (types.setLayout l layout).Interned :=
  hi.withLayouts (Nat.le_of_eq Array.size_setIfInBounds.symm)

theorem appendLayout (layout : StructLayout) :
    Interned { types with layouts := types.layouts.append layout } := by
  apply hi.withLayouts
  show types.layouts.values.size ≤ (types.layouts.values.push layout).size
  rw [Array.size_push]
  omega

/-- **One more struct.**  Its layout is new, so no id stands for its descriptor. -/
theorem declareStruct (layout : StructLayout)
    (hid : types.handle? id = none) : (types.declareStruct id layout).Interned := by
  refine (hi.appendLayout layout).declare hid ?_ nofun fun l hl => ?_
  · cases hknown : declared? { types with layouts := types.layouts.append layout }
        (.record ⟨types.layouts.next⟩) with
    | none => rfl
    | some j =>
      obtain ⟨k, hk, -⟩ := declared?_eq_some hknown
      exact absurd (hi.laid hk) (Nat.lt_irrefl _)
  · cases hl
    show types.layouts.values.size < (types.layouts.values.push layout).size
    rw [Array.size_push]
    omega

/-- **Ids under new numbers.**  What loses its id loses it in both tables. -/
theorem rename {f : ResultId → ResultId} (hf : Parts f) : (types.rename f).Interned where
  toConsistent := hi.toConsistent.rename hf
  unique := hi.unique
  behind := hi.behind
  laid hh := Nat.lt_of_lt_of_eq (hi.laid hh) Array.size_mapIdx.symm
  standing hy := by
    obtain ⟨x, rfl, hz, hx⟩ := exists_of_handle?_rename hf hy
    exact idOf?_rename hi.distinct (hi.standing hx) hz

end Interned

/-! ## Shapes after a change -/

namespace Declares

variable {types' : TypeRegistry} (hd : Declares id d types types')
include hd

theorem unrepeated (hu : types.Unrepeated) : types'.Unrepeated := by
  intro h k d'
  rw [hd.desc, hd.desc]
  exact hu.intern d h k d'

theorem layered (hi : types.Layered) (hinner : ∀ i ∈ d.inner, (types.desc? i).isSome = true) :
    types'.Layered where
  described := hd.described hi.described
  behind {h d'} hh i hmem := by
    rw [hd.desc] at hh
    rcases desc?_intern_cases hh with hh | ⟨rfl, hslot, -⟩
    · exact hi.behind hh i hmem
    · rw [hslot]
      exact isSome_desc?_iff.mp (hinner i hmem)

theorem shape?_of_desc? (hi : types.Layered) (hh : (types.desc? h).isSome = true) :
    types'.shape? h = types.shape? h := by
  obtain ⟨s, hs⟩ := Option.isSome_iff_exists.mp (hi.isSome_shapeAt (Nat.lt_succ_self h.slot) hh)
  rw [shape?, shape?, hs]
  refine shapeAt_of_desc? (fun {k d'} hk => ?_) hs
  rw [hd.desc]
  exact desc?_intern_of_desc? hk d

theorem shapeOf?_of_ne (hi : types.Layered) {j : ResultId} (hne : j ≠ id) :
    types'.shapeOf? j = types.shapeOf? j := by
  unfold shapeOf?
  rw [hd.handle, if_neg hne.symm]
  cases hj : types.handle? j with
  | none => rfl
  | some h => exact hd.shape?_of_desc? hi (hi.described hj)

theorem shapeOf?_self (hi : types.Layered) (hinner : ∀ i ∈ d.inner, (types.desc? i).isSome = true) :
    types'.shapeOf? id = d.shapeWith types.shape? := by
  have hself : types'.desc? (types.intern d).1 = some d := by
    rw [hd.desc]
    exact desc?_intern_self types d
  rw [shapeOf?, hd.handle, if_pos rfl, Option.bind_some, (hd.layered hi hinner).shape?_eq hself]
  obtain ⟨s, hs⟩ := Option.isSome_iff_exists.mp (TypeDesc.isSome_shapeWith fun i hmem =>
    hi.isSome_shapeAt (Nat.lt_succ_self i.slot) (hinner i hmem))
  refine (TypeDesc.shapeWith_mono hs fun i hmem t ht => ?_).trans hs.symm
  rw [hd.shape?_of_desc? hi (hinner i hmem)]
  exact ht

end Declares

theorem shapeOf?_rename (types : TypeRegistry) {f : ResultId → ResultId} (hf : Parts f)
    {x : ResultId} (hx : (f x).index ≠ 0) : (types.rename f).shapeOf? (f x) = types.shapeOf? x := by
  have hhandle : (types.rename f).handle? (f x) = types.handle? x :=
    get?_renameKeys types.handles hf hx
  unfold shapeOf?
  rw [hhandle]
  cases types.handle? x with
  | none => rfl
  | some h =>
    have hshape : ∀ n h, (types.rename f).shapeAt n h = types.shapeAt n h := by
      intro n
      induction n with
      | zero => exact fun _ => rfl
      | succ n ih =>
        intro h
        rw [shapeAt, shapeAt, funext ih]
        rfl
    exact hshape _ _

end TypeRegistry

end ShaderIR
