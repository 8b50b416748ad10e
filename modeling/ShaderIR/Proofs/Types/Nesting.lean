import ShaderIR.Types.Registry

/-!
# Types inside types

A registry is **consistent** if its two tables agree, **grounded** if moreover no type contains
itself, and **complete** if everything that is nested in a type has an id.  In a grounded registry a
chain of types, each a part of the one before, has no repetition, so it is never longer than the
number of types.
-/

namespace ShaderIR.TypeRegistry

variable {id : ResultId}

variable {types : TypeRegistry}

/-- `IsPart types y x`: the type `y` is one of those that `x` is made of directly. -/
inductive IsPart (types : TypeRegistry) : ResultId → ResultId → Prop
  | nested {x y : ResultId} {d : TypeDesc} {h : TypeHandle} :
    types.ofId? x = some d → h ∈ d.inner → types.idOf? h = some y → IsPart types y x
  | member {x : ResultId} {layout : StructLayout} {m : String × ResultId} :
    types.layoutOf? x = some layout → m ∈ layout.members → IsPart types m.2 x

/-- The tables agree. -/
structure Consistent (types : TypeRegistry) : Prop where
  described : ∀ {id h}, types.handle? id = some h → (types.desc? h).isSome = true
  canonical : ∀ {h id}, types.idOf? h = some id → types.handle? id = some h
  distinct : (types.declared.entries.map (·.1)).Nodup

/-- Types are made of types, down to those without parts. -/
structure Grounded (types : TypeRegistry) : Prop extends Consistent types where
  layout : ∀ {id l}, types.ofId? id = some (.record l) → (types.layout? l).isSome = true
  member : ∀ {id layout m}, types.layoutOf? id = some layout → m ∈ layout.members →
    (types.ofId? m.2).isSome = true
  founded : ∀ {id}, (types.ofId? id).isSome = true → Acc types.IsPart id

/-- Every type that is nested in another has an id. -/
def Complete (types : TypeRegistry) : Prop :=
  ∀ id d, types.ofId? id = some d → ∀ h ∈ d.inner, (types.idOf? h).isSome = true

theorem ofId?_of_handle? {h : TypeHandle} (hid : types.handle? id = some h) :
    types.ofId? id = types.desc? h := by
  rw [ofId?, hid]
  rfl

theorem layoutOf?_of_ofId? {l : LayoutHandle} (h : types.ofId? id = some (.record l)) :
    types.layoutOf? id = types.layout? l := by
  rw [layoutOf?, layoutHandle?, h]
  rfl

section

variable {a b : TypeRegistry} (hdesc : ∀ k, b.desc? k = a.desc? k)
  (hmembers : ∀ l, b.memberHandles l = a.memberHandles l)
include hdesc hmembers

theorem widthAt_congr (depth : Nat) (k : TypeHandle) : b.widthAt depth k = a.widthAt depth k := by
  induction depth generalizing k with
  | zero => rfl
  | succ depth ih =>
    unfold widthAt
    rw [hdesc]
    split <;> simp only [ih, hmembers]

theorem alignAt_congr (depth : Nat) (k : TypeHandle) : b.alignAt depth k = a.alignAt depth k := by
  induction depth generalizing k with
  | zero => rfl
  | succ depth ih =>
    unfold alignAt
    rw [hdesc]
    split <;> simp only [ih, hmembers, widthAt_congr hdesc hmembers]

end

theorem exists_of_layoutOf? {layout : StructLayout} (h : types.layoutOf? id = some layout) :
    ∃ l, types.ofId? id = some (.record l) ∧ types.layout? l = some layout := by
  obtain ⟨l, hl, hlayout⟩ := Option.bind_eq_some_iff.mp h
  unfold layoutHandle? at hl
  split at hl
  next l' hid =>
    cases hl
    exact ⟨l, hid, hlayout⟩
  next => cases hl

namespace Grounded

theorem ofId?_of_idOf? (hg : types.Grounded) {h : TypeHandle}
    (hid : types.idOf? h = some id) : types.ofId? id = types.desc? h :=
  ofId?_of_handle? (hg.canonical hid)

theorem isSome_of_isPart (hg : types.Grounded) {x y : ResultId} (h : types.IsPart y x) :
    (types.ofId? y).isSome = true := by
  cases h with
  | nested _ _ hid =>
    rw [hg.ofId?_of_idOf? hid]
    exact hg.described (hg.canonical hid)
  | member hlayout hm => exact hg.member hlayout hm

end Grounded

/-- What is under way when a type is reached: all of it is made of that type. -/
structure Chain (types : TypeRegistry) (pending : List ResultId) (id : ResultId) : Prop where
  nodup : pending.Nodup
  isType : ∀ p ∈ pending, (types.ofId? p).isSome = true
  reaches : ∀ p ∈ pending, Relation.TransGen types.IsPart id p

namespace Chain

variable {pending : List ResultId} {id : ResultId}

theorem nil (types : TypeRegistry) (id : ResultId) : Chain types [] id :=
  ⟨.nil, nofun, nofun⟩

theorem not_mem (h : Chain types pending id) (hid : Acc types.IsPart id) : id ∉ pending := by
  intro hmem
  have hself := h.reaches id hmem
  have hfounded := hid.transGen
  clear h hmem hid
  induction hfounded with
  | intro id _ ih => exact ih id hself hself

theorem push (h : Chain types pending id) (hg : types.Grounded)
    (hid : (types.ofId? id).isSome = true) {y : ResultId} (hy : types.IsPart y id) :
    Chain types (id :: pending) y where
  nodup := List.nodup_cons.mpr ⟨h.not_mem (hg.founded hid), h.nodup⟩
  isType := List.forall_mem_cons.mpr ⟨hid, h.isType⟩
  reaches := List.forall_mem_cons.mpr
    ⟨.single hy, fun p hp => Relation.TransGen.trans (.single hy) (h.reaches p hp)⟩

theorem length_le (h : Chain types pending id) : pending.length ≤ types.size := by
  have hsubset : pending ⊆ types.handles.entries.map (·.1) := by
    intro p hp
    obtain ⟨d, hd⟩ := Option.isSome_iff_exists.mp (h.isType p hp)
    obtain ⟨k, hk, -⟩ := Option.bind_eq_some_iff.mp hd
    exact List.mem_map_of_mem (Table.mem_of_get? hk)
  have hlength := h.nodup.length_le_of_subset hsubset
  rw [List.length_map] at hlength
  exact hlength

end Chain

end ShaderIR.TypeRegistry
