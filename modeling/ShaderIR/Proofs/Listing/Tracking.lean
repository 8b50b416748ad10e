import ShaderIR.Proofs.Assembler.SharedTypes
import ShaderIR.Proofs.Listing.Steps

/-!
# Reading a stream that was changed

When instructions are dropped, ids are renumbered and slots are redirected, reading the new stream
**tracks** reading the old one: sections stand where their markers ended up, and every type that is
left has the shape it had.
-/

namespace ShaderIR

namespace TypeRegistry

/-! ## Types under other ids -/

/-- The types of `b` are those of `a` under the ids that `f` gives them, of the same shapes, and the
    members of structs have the ids that `g` gives them. -/
structure Mirrors (f g : ResultId → ResultId) (a b : TypeRegistry) : Prop where
  layered : a.Layered
  mirrored : b.Layered
  shapes : ∀ x, (f x).index ≠ 0 → b.shapeOf? (f x) = a.shapeOf? x
  images : ∀ y, (b.handle? y).isSome = true → y.index ≠ 0 ∧ ∃ x, f x = y
  layouts : b.layouts.values.map (·.shape) = a.layouts.values.map fun layout => (layout.rename g).shape

namespace Mirrors

variable {f g : ResultId → ResultId} {a b a' b' : TypeRegistry} (h : Mirrors f g a b) {id : ResultId}
  {d d' : TypeDesc} {g' : ResultId → ResultId} {r : ResultId}
include h

theorem declares (hf : Parts f) (ha : Declares id d a a') (hb : Declares (f id) d' b b')
    (hid : (f id).index ≠ 0) (hinner : ∀ i ∈ d.inner, (a.desc? i).isSome = true)
    (hinner' : ∀ i ∈ d'.inner, (b.desc? i).isSome = true)
    (hshape : d.shapeWith a.shape? = d'.shapeWith b.shape?)
    (hlayouts : b'.layouts.values.map (·.shape) = a'.layouts.values.map fun layout =>
      (layout.rename g).shape) :
    Mirrors f g a' b' where
  layered := ha.layered h.layered hinner
  mirrored := hb.layered h.mirrored hinner'
  shapes x hx := by
    by_cases heq : x = id
    · rw [heq, ha.shapeOf?_self h.layered hinner, hb.shapeOf?_self h.mirrored hinner', hshape]
    · have hne : f x ≠ f id := fun hfx => heq (hf x id hfx hx)
      rw [ha.shapeOf?_of_ne h.layered heq, hb.shapeOf?_of_ne h.mirrored hne, h.shapes x hx]
  images y hy := by
    rw [hb.handle] at hy
    split at hy
    next heq => exact heq ▸ ⟨hid, id, rfl⟩
    next => exact h.images y hy
  layouts := hlayouts

theorem declareStruct (hf : Parts f) (hid : (f id).index ≠ 0) (layout : StructLayout) :
    Mirrors f g (a.declareStruct id layout) (b.declareStruct (f id) (layout.rename g)) := by
  have hnext : b.layouts.next = a.layouts.next := by
    show b.layouts.values.size = a.layouts.values.size
    have hsize := congrArg Array.size h.layouts
    rwa [Array.size_map, Array.size_map] at hsize
  refine h.declares hf (declares_declareStruct a id layout)
    (declares_declareStruct b (f id) (layout.rename g)) hid nofun nofun ?_ ?_
  · rw [hnext]
    rfl
  · show (b.layouts.values.push _).map _ = (a.layouts.values.push _).map _
    rw [Array.map_push, Array.map_push, h.layouts]

theorem skip (ha : Declares id d a a') (hid : (f id).index = 0)
    (hinner : ∀ i ∈ d.inner, (a.desc? i).isSome = true) (hlayouts : a'.layouts = a.layouts) :
    Mirrors f g a' b where
  layered := ha.layered h.layered hinner
  mirrored := h.mirrored
  shapes x hx := by
    have hne : x ≠ id := by
      rintro rfl
      exact hx hid
    rw [ha.shapeOf?_of_ne h.layered hne, h.shapes x hx]
  images := h.images
  layouts := by rw [hlayouts, h.layouts]

theorem exists_of_handle? {y : ResultId} (hy : (b.handle? y).isSome = true) :
    ∃ x, f x = y ∧ y.index ≠ 0 ∧ (a.handle? x).isSome = true := by
  obtain ⟨hne, x, rfl⟩ := h.images y hy
  rw [h.mirrored.isSome_handle?_iff, h.shapes x hne, ← h.layered.isSome_handle?_iff] at hy
  exact ⟨x, rfl, hne, hy⟩

theorem withMembers
    (hg : ∀ layout ∈ a.layouts.values, ∀ m ∈ layout.members, g' m.2 = g m.2) :
    Mirrors f g' a b := by
  refine { h with layouts := h.layouts.trans (Array.map_congr_left fun layout hlayout => ?_) }
  show (layout.name, layout.members.map _) = (layout.name, layout.members.map _)
  rw [List.map_congr_left fun m hm => congrArg (Prod.mk m.1) (hg layout hlayout m hm).symm]

theorem trans {f' : ResultId → ResultId} {c : TypeRegistry} (h' : Mirrors f' g' b c)
    (hvoid : f' .void = .void) : Mirrors (f' ∘ f) (g' ∘ g) a c where
  layered := h.layered
  mirrored := h'.mirrored
  shapes x hx := by
    have hfx : (f x).index ≠ 0 := by
      intro hz
      have heq : f x = .void := ResultId.ext_index hz
      apply hx
      rw [Function.comp_apply, heq, hvoid]
      rfl
    exact (h'.shapes (f x) hx).trans (h.shapes x hfx)
  images z hz := by
    obtain ⟨y, rfl, hne, hy⟩ := h'.exists_of_handle? hz
    obtain ⟨x, rfl, -⟩ := h.exists_of_handle? hy
    exact ⟨hne, x, rfl⟩
  layouts := by
    have hlayouts := congrArg (Array.map fun s => (s.1, s.2.map fun m => (m.1, g' m.2))) h.layouts
    rw [Array.map_map, Array.map_map] at hlayouts
    refine h'.layouts.trans (hlayouts.trans (Array.map_congr_left fun layout _ => ?_))
    show (layout.name, (layout.members.map _).map _) = (layout.name, layout.members.map _)
    rw [List.map_map]
    rfl

theorem exists_handle? {k : TypeHandle} (hr : (f r).index ≠ 0)
    (hk : a.handle? r = some k) : ∃ k', b.handle? (f r) = some k' ∧ a.shape? k = b.shape? k' := by
  have hshape := h.shapes r hr
  obtain ⟨s, hs⟩ := Option.isSome_iff_exists.mp (h.layered.isSome_shapeOf? hk)
  rw [hs] at hshape
  obtain ⟨k', hk', hs'⟩ := Option.bind_eq_some_iff.mp hshape
  refine ⟨k', hk', ?_⟩
  rw [hs', ← hs, shapeOf?, hk]
  rfl

end Mirrors

/-- What mirrors a registry under other ids mirrors the renamed registry as it stands. -/
theorem Mirrors.of_rename {f : ResultId → ResultId} {a b : TypeRegistry} (h : Mirrors f f a b)
    (hf : Parts f) (hrenamed : (a.rename f).Layered) : Mirrors id id (a.rename f) b where
  layered := hrenamed
  mirrored := h.mirrored
  shapes y hy := by
    by_cases himage : ∃ x, f x = y
    · obtain ⟨x, rfl⟩ := himage
      exact (h.shapes x hy).trans (shapeOf?_rename a hf hy).symm
    · -- What no id becomes is no type on either side.
      have hleft : (a.rename f).handle? y = none := by
        rw [Option.eq_none_iff_forall_ne_some]
        intro k hk
        obtain ⟨x, hx, -⟩ := exists_of_handle?_rename hf hk
        exact himage ⟨x, hx⟩
      have hright : b.handle? y = none := by
        rw [← Option.not_isSome_iff_eq_none]
        exact fun hk => himage (h.images y hk).2
      show b.shapeOf? y = (a.rename f).shapeOf? y
      rw [shapeOf?, shapeOf?, hleft, hright]
      rfl
  images y hy := ⟨(h.images y hy).1, y, rfl⟩
  layouts := by
    rw [h.layouts]
    show _ = (a.layouts.values.mapIdx fun _ layout => layout.rename f).map _
    refine Array.ext_getElem? fun i => ?_
    rw [Array.getElem?_map, Array.getElem?_map, Array.getElem?_mapIdx, Option.map_map]
    congr 1
    funext layout
    show (layout.name, layout.members.map _) = (layout.name, (layout.members.map _).map _)
    rw [List.map_map]
    rfl

end TypeRegistry

def OpenSection.move (f : ResultId → ResultId) (place : Nat → Nat) (s : OpenSection) :
    OpenSection :=
  { s with header := f s.header, start := place s.start }

def ClosedSection.move (f : ResultId → ResultId) (place : Nat → Nat) (s : ClosedSection) :
    ClosedSection :=
  { s with header := f s.header, span := ⟨place s.span.first, place s.span.stop⟩ }

theorem Assembler.isSome_desc?_of_nested {asm : Assembler} {inst : Instruction} {d : TypeDesc}
    (h : asm.types.Layered) (hd : asm.describe inst = .ok d) :
    ∀ i ∈ d.inner, (asm.types.desc? i).isSome = true := by
  intro i hi
  obtain ⟨r, -, hr⟩ := nested_of_describe hd i hi
  exact h.described hr

namespace Listing.Contents

open Assembler TypeRegistry

/-! ## The relation -/

/-- `b'` is what is read from the new stream when `b` is read from the old one. -/
structure Tracks (f g : ResultId → ResultId) (place : Nat → Nat) (b b' : Rebuilding) : Prop where
  strings : b'.asm.strings = b.asm.strings
  size : b'.asm.code.size = place b.asm.code.size
  opened : b'.asm.openSections = b.asm.openSections.map (.move f place)
  closed : b'.asm.closedSections.toList = b.asm.closedSections.toList.map (.move f place)
  struct : b'.struct? = b.struct?.map fun p => (f p.1, p.2.rename g)
  header : ∀ p ∈ b.struct?, (f p.1).index ≠ 0
  types : Mirrors f g b.asm.types b'.asm.types

variable {f g : ResultId → ResultId} {place : Nat → Nat} {b b1 b' : Rebuilding} {x : Instruction}

theorem Tracks.stringAt (h : Tracks f g place b b') : stringAt b'.asm = stringAt b.asm := by
  unfold Contents.stringAt string?
  rw [h.strings]

theorem Tracks.trans {f' : ResultId → ResultId} {place' : Nat → Nat} {b'' : Rebuilding}
    (h : Tracks f g place b b') (h' : Tracks f' g' place' b' b'') (hstruct : b.struct? = none)
    (hvoid : f' .void = .void) : Tracks (f' ∘ f) (g' ∘ g) (place' ∘ place) b b'' where
  strings := h'.strings.trans h.strings
  size := by rw [h'.size, h.size, Function.comp_apply]
  opened := by
    rw [h'.opened, h.opened, List.map_map]
    rfl
  closed := by
    rw [h'.closed, h.closed, List.map_map]
    rfl
  struct := by
    rw [h'.struct, h.struct, hstruct]
    rfl
  header := by
    rw [hstruct]
    exact nofun
  types := h.types.trans h'.types hvoid

theorem nextLayout_rename (text : UInt32 → String) (layout : StructLayout) (x : Instruction) :
    nextLayout text (layout.rename g) (x.relabel f g) = (nextLayout text layout x).rename g := by
  unfold nextLayout StructLayout.addMember?
  have hany : (layout.rename g).members.any (·.1 == text x.operands.snd) =
      layout.members.any (·.1 == text x.operands.snd) := by
    show (layout.members.map _).any _ = _
    rw [List.any_map]
    rfl
  rw [Instruction.operands_relabel, hany]
  split
  · rfl
  · simp only [Option.getD_some, StructLayout.rename, List.map_append, List.map_cons, List.map_nil]
    rfl

theorem Tracks.adds (h : Tracks f g place b b') (hf : Parts f) (hadds : Adds b x b1)
    (hplace : place (b.asm.code.size + 1) = place b.asm.code.size + 1)
    (hid : x.opcode.isType = true → (f x.id).index ≠ 0)
    (hrefs : ∀ r ∈ x.slots, (b.asm.types.handle? r).isSome = true → g r = f r ∧ (f r).index ≠ 0) :
    ∃ b1', Adds b' (x.relabel f g) b1' ∧ Tracks f g place b1 b1' := by
  have hstrings : (b'.asm.push (x.relabel f g)).strings = (b.asm.push x).strings := by
    rw [strings_push, strings_push, h.strings]
  have hsize : (b'.asm.push (x.relabel f g)).code.size = place (b.asm.push x).code.size := by
    rw [code_push, code_push, Array.size_push, Array.size_push, h.size, hplace]
  have hopened : (b'.asm.push (x.relabel f g)).openSections =
      (b.asm.push x).openSections.map (.move f place) := by
    rw [openSections_push, openSections_push, h.opened]
  have hclosed : (b'.asm.push (x.relabel f g)).closedSections.toList =
      (b.asm.push x).closedSections.toList.map (.move f place) := by
    rw [closedSections_push, closedSections_push, h.closed]
  have htypes : Mirrors f g (b.asm.push x).types (b'.asm.push (x.relabel f g)).types := by
    rw [types_push, types_push]
    exact h.types
  -- What a marker opens starts where the marker ended up.
  have hopen : ∀ kind, (b'.asm.opened (x.relabel f g) kind).openSections =
      (b.asm.opened x kind).openSections.map (.move f place) := by
    intro kind
    show _ :: b'.asm.openSections = (_ :: b.asm.openSections).map _
    rw [h.opened, h.size]
    rfl
  -- What a footer closes ends where the footer ended up.
  have hclose : ∀ (s : OpenSection) (outer : List OpenSection),
      (b'.asm.closed (x.relabel f g) (s.move f place) (outer.map (.move f place))).closedSections.toList =
        (b.asm.closed x s outer).closedSections.toList.map (.move f place) := by
    intro s outer
    rw [toList_closedSections_closed, toList_closedSections_closed, List.map_append, h.closed,
      h.size, List.map_singleton, ClosedSection.move, Span.inclusive, Span.inclusive, hplace]
    rfl
  cases hadds with
  | structType hop =>
    refine ⟨_, .structType hop, ⟨hstrings, hsize, hopen .record, hclosed, ?_, ?_, htypes⟩⟩
    · rw [h.stringAt]
      rfl
    · rintro p ⟨⟩
      exact hid (by rw [hop]; rfl)
  | structMember hop =>
    refine ⟨_, .structMember hop, ⟨hstrings, hsize, hopened, hclosed, ?_, ?_, htypes⟩⟩
    · show b'.struct?.map _ = (b.struct?.map _).map _
      rw [h.struct, Option.map_map, Option.map_map, h.stringAt]
      congr 1
      funext p
      exact congrArg (Prod.mk (f p.1)) (nextLayout_rename ..)
    · intro p hp
      obtain ⟨q, hq, rfl⟩ := Option.map_eq_some_iff.mp hp
      exact h.header q hq
  | @structEnd s outer hop hsections hkind =>
    have hsections' : b'.asm.openSections = s.move f place :: outer.map (.move f place) := by
      rw [h.opened, hsections]
      rfl
    refine ⟨_, .structEnd hop hsections' hkind, ⟨hstrings, hsize, rfl, hclose s outer, rfl, nofun, ?_⟩⟩
    show Mirrors f g b.endedTypes b'.endedTypes
    unfold Rebuilding.endedTypes
    rw [h.struct]
    cases hstruct : b.struct? with
    | none => exact h.types
    | some p => exact h.types.declareStruct hf (h.header p hstruct) p.2
  | @type d hd =>
    have hpart : ∀ r ∈ x.slots, ∀ k, b.asm.types.handle? r = some k →
        ∃ k', b'.asm.types.handle? (g r) = some k' ∧ b.asm.types.shape? k = b'.asm.types.shape? k' := by
      intro r hr k hk
      obtain ⟨hgr, hz⟩ := hrefs r hr (hk ▸ rfl)
      rw [hgr]
      exact h.types.exists_handle? hz hk
    obtain ⟨d', hd', hrelated⟩ := describe_related (a := b.asm) (b := b'.asm) (x := x) (y := x.relabel f g)
      (R := fun k k' => b.asm.types.shape? k = b'.asm.types.shape? k') rfl rfl
      (hpart _ (Instruction.mem_slots.mpr (.inl rfl))) (hpart _ (Instruction.mem_slots.mpr (.inr (.inl rfl)))) hd
    refine ⟨_, .type hd', ⟨hstrings, hsize, hopened, hclosed, h.struct, h.header, ?_⟩⟩
    exact h.types.declares hf (declares_declareAlso _ _ d) (declares_declareAlso _ _ d')
      (hid (isType_of_describe hd)) (isSome_desc?_of_nested h.types.layered hd)
      (isSome_desc?_of_nested h.types.mirrored hd') (hrelated.shapeWith_eq fun _ _ hshape => hshape)
      h.types.layouts
  | opens hkind hne =>
    exact ⟨_, .opens hkind hne, ⟨hstrings, hsize, hopen _, hclosed, h.struct, h.header, htypes⟩⟩
  | @closes s outer hkind hne hsections =>
    have hsections' : b'.asm.openSections = s.move f place :: outer.map (.move f place) := by
      rw [h.opened, hsections]
      rfl
    exact ⟨_, .closes (s := s.move f place) hkind hne hsections',
      ⟨hstrings, hsize, rfl, hclose s outer, h.struct, h.header, htypes⟩⟩
  | plain hop => exact ⟨_, .plain hop, ⟨hstrings, hsize, hopened, hclosed, h.struct, h.header, htypes⟩⟩

theorem Adds.exists_of_isType {inst : Instruction} (h : Adds b inst b')
    (htype : inst.opcode.isType = true) (hne : inst.opcode ≠ .structType) :
    ∃ d, b.asm.describe inst = .ok d ∧
      b' = ⟨{ b.asm.push inst with types := b.asm.types.declareAlso inst.id d }, b.struct?⟩ := by
  cases h with
  | type hd => exact ⟨_, hd, rfl⟩
  | structType hop => exact absurd hop hne
  | structMember hop | structEnd hop =>
    rw [hop] at htype
    cases htype
  | opens hkind hne =>
    rcases Opcode.eq_of_opens? hkind hne with hop | hop <;> rw [hop] at htype <;> cases htype
  | closes hkind hne =>
    rcases Opcode.eq_of_closes? hkind hne with hop | hop <;> rw [hop] at htype <;> cases htype
  | plain hplain =>
    rw [(Opcode.isPlain_iff.mp hplain).2.1] at htype
    cases htype

theorem Tracks.drops (h : Tracks f g place b b') (hadds : Adds b x b1)
    (hplace : place (b.asm.code.size + 1) = place b.asm.code.size)
    (hop : x.opcode.isPlain = true ∨ x.opcode.isType = true ∧ x.opcode ≠ .structType ∧
      (f x.id).index = 0) :
    Tracks f g place b1 b' := by
  have hstrings : b'.asm.strings = (b.asm.push x).strings := by rw [strings_push, h.strings]
  have hsize : b'.asm.code.size = place (b.asm.push x).code.size := by
    rw [code_push, Array.size_push, hplace, h.size]
  have hopened : b'.asm.openSections = (b.asm.push x).openSections.map (.move f place) := by
    rw [openSections_push, h.opened]
  have hclosed : b'.asm.closedSections.toList = (b.asm.push x).closedSections.toList.map (.move f place) := by
    rw [closedSections_push, h.closed]
  have htypes : Mirrors f g (b.asm.push x).types b'.asm.types := by
    rw [types_push]
    exact h.types
  rcases hop with hplain | ⟨htype, hstruct, hz⟩
  · rw [hadds.unique (.plain hplain)]
    exact ⟨hstrings, hsize, hopened, hclosed, h.struct, h.header, htypes⟩
  · obtain ⟨d, hd, rfl⟩ := hadds.exists_of_isType htype hstruct
    refine ⟨hstrings, hsize, hopened, hclosed, h.struct, h.header, ?_⟩
    exact h.types.skip (declares_declareAlso _ _ d) hz (isSome_desc?_of_nested h.types.layered hd) rfl

/-! ## Whole streams -/

theorem Adds.isSome_handle? (h : Adds b x b1)
    (hr : (b.asm.types.handle? r).isSome = true) : (b1.asm.types.handle? r).isSome = true := by
  have hdeclares : ∀ {id : ResultId} {d : TypeDesc} {types : TypeRegistry},
      Declares id d b.asm.types types → (types.handle? r).isSome = true := by
    intro id d types hd
    rw [hd.handle]
    split
    · rfl
    · exact hr
  cases h with
  | structType | structMember | opens | closes | plain => exact types_push b.asm x ▸ hr
  | type => exact hdeclares (declares_declareAlso ..)
  | structEnd =>
    show (b.endedTypes.handle? r).isSome = true
    unfold Rebuilding.endedTypes
    cases b.struct? with
    | none => exact hr
    | some p => exact hdeclares (declares_declareStruct ..)

theorem Reads.isSome_handle? {l : List Instruction} (h : Reads l b b1)
    (hr : (b.asm.types.handle? r).isSome = true) : (b1.asm.types.handle? r).isSome = true :=
  h.invariant (I := fun b => (b.asm.types.handle? r).isSome = true) (fun _ h => h.isSome_handle?) hr

/-- Instructions under other numbers, without those that are dropped.  The first one is at position
    `n`. -/
def moved (f g : ResultId → ResultId) (keep : Nat → Bool) (n : Nat) (l : List Instruction) :
    List Instruction :=
  ((l.zipIdx n).filter fun e => keep e.2).map fun e => e.1.relabel f g

theorem moved_cons (f g : ResultId → ResultId) (keep : Nat → Bool) (n : Nat) (x : Instruction)
    (l : List Instruction) : moved f g keep n (x :: l) =
      if keep n = true then x.relabel f g :: moved f g keep (n + 1) l else moved f g keep (n + 1)
        l := by
  unfold moved
  rw [List.zipIdx_cons, List.filter_cons]
  split <;> rfl

/-- **Reading what is left of a stream tracks reading all of it**, if what is left refers to types
    that are left, and what is dropped is a value or a type. -/
theorem Tracks.reads {l : List Instruction} (ht : Tracks f g place b b') (h : Reads l b b1)
    (keep : Nat → Bool) (hf : Parts f)
    (hplace : ∀ i, place (i + 1) = place i + if keep i = true then 1 else 0)
    (hkept : ∀ e ∈ l.zipIdx b.asm.code.size, keep e.2 = true →
      (e.1.opcode.isType = true → (f e.1.id).index ≠ 0) ∧ ∀ r ∈ e.1.slots,
      (b1.asm.types.handle? r).isSome = true → g r = f r ∧ (f r).index ≠ 0)
    (hdropped : ∀ e ∈ l.zipIdx b.asm.code.size, keep e.2 = false → e.1.opcode.isPlain = true ∨
      e.1.opcode.isType = true ∧ e.1.opcode ≠ .structType ∧ (f e.1.id).index = 0) :
    ∃ b1', Reads (moved f g keep b.asm.code.size l) b' b1' ∧ Tracks f g place b1 b1' := by
  induction h generalizing b' with
  | nil => exact ⟨b', .nil, ht⟩
  | @cons b b2 b1 x rest hadds hrest ih =>
    have hsize : b2.asm.code.size = b.asm.code.size + 1 := by rw [hadds.code, Array.size_push]
    rw [List.zipIdx_cons] at hkept hdropped
    have hnext : ∀ {b'}, Tracks f g place b2 b' →
        ∃ b1', Reads (moved f g keep (b.asm.code.size + 1) rest) b' b1' ∧ Tracks f g place b1 b1' := by
      intro b' ht
      rw [← hsize]
      refine ih ht (fun e he => ?_) fun e he => ?_
      · exact hkept e (List.mem_cons_of_mem _ (hsize ▸ he))
      · exact hdropped e (List.mem_cons_of_mem _ (hsize ▸ he))
    have hstep := hplace b.asm.code.size
    rw [moved_cons]
    cases hkeep : keep b.asm.code.size with
    | true =>
      rw [hkeep, if_pos rfl] at hstep
      obtain ⟨hid, hrefs⟩ := hkept _ List.mem_cons_self hkeep
      obtain ⟨b2', hadds', ht'⟩ := ht.adds hf hadds hstep hid fun r hr hhandle =>
        hrefs r hr (hrest.isSome_handle? (hadds.isSome_handle? hhandle))
      obtain ⟨b1', hrest', ht''⟩ := hnext ht'
      exact ⟨b1', .cons hadds' hrest', ht''⟩
    | false =>
      rw [hkeep, if_neg Bool.false_ne_true, Nat.add_zero] at hstep
      have ht' := ht.drops hadds hstep (hdropped _ List.mem_cons_self hkeep)
      exact hnext ht'

end Listing.Contents

end ShaderIR
