import ShaderIR.Proofs.Assembler.SharedTypes

/-!
# Sizes of types

The size of a type is the sum of its parts, and its alignment is the width of the widest scalar that
it is made of, both over unbounded numbers.  The registry cuts sizes off at the largest word after
every step; cutting off once, at the end, gives the same number.
-/

namespace ShaderIR

/-! ## The exact size -/

def TypeDesc.ownBits : TypeDesc → Nat
  | .bool => 8
  | .float w | .sint w | .uint w => w.toNat
  | .pointer _ => 64
  | _ => 0

def TypeDesc.copies : TypeDesc → Nat
  | .array _ n | .vector _ n => n.toNat
  | .matrix _ columns rows => columns.toNat * rows.toNat
  | _ => 1

namespace TypeRegistry

/-- What a type is laid out from.  A pointer holds an address and not what it points to; a struct
    has parts if all its members are types. -/
def parts? (types : TypeRegistry) : TypeDesc → Option (List TypeHandle)
  | .array h _ | .vector h _ | .matrix h _ _ => some [h]
  | .tuple a b => some [a, b]
  | .record l => (types.layout? l).bind fun layout =>
    if layout.members.all fun m => (types.handle? m.2).isSome then
      some (layout.members.filterMap fun m => types.handle? m.2)
    else none
  | _ => some []

/-- Whether a type nests at most so deep.  Types without parts are at depth zero. -/
def nestsWithin (types : TypeRegistry) : Nat → TypeHandle → Bool
  | 0, h => ((types.desc? h).bind types.parts?).all (·.isEmpty)
  | n + 1, h => ((types.desc? h).bind types.parts?).all (·.all (types.nestsWithin n))

/-- Types side by side take `bits` bits, and the widest scalar, bool or pointer in them has `align`.
    -/
inductive Measures (types : TypeRegistry) : List TypeHandle → (bits align : Nat) → Prop
  | nil : Measures types [] 0 0
  | cons {h : TypeHandle} {d : TypeDesc} {parts rest : List TypeHandle} {bits align bits' align' : Nat}
      (hd : types.desc? h = some d) (hparts : types.parts? d = some parts)
      (hinner : Measures types parts bits align) (hrest : Measures types rest bits' align') :
      Measures types (h :: rest) (d.ownBits + d.copies * bits + bits') (max (max d.ownBits align) align')

variable {types types' : TypeRegistry} {h : TypeHandle} {d : TypeDesc} {parts : List TypeHandle}

theorem Measures.unique {hs : List TypeHandle} {b a b' a' : Nat} (hm : types.Measures hs b a)
    (hm' : types.Measures hs b' a') : b' = b ∧ a' = a := by
  induction hm generalizing b' a' with
  | nil =>
    cases hm'
    exact ⟨rfl, rfl⟩
  | cons hd hparts _ _ ihinner ihrest =>
    cases hm' with
    | cons hd' hparts' hinner' hrest' =>
      cases hd.symm.trans hd'
      cases hparts.symm.trans hparts'
      obtain ⟨rfl, rfl⟩ := ihinner hinner'
      obtain ⟨rfl, rfl⟩ := ihrest hrest'
      exact ⟨rfl, rfl⟩

/-! ## Cutting off -/

theorem saturate_of_lt {n : Nat} (h : n < UInt32.size) : saturate n = n := by
  change n < 4294967296 at h
  exact Nat.min_eq_left (by rw [maxBits]; omega)

theorem saturate_add (m n : Nat) : saturate (saturate m + saturate n) = saturate (m + n) := by
  unfold saturate
  omega

theorem saturate_mul (m n : Nat) : saturate (m * saturate n) = saturate (m * n) := by
  rcases Nat.le_total n maxBits with hn | hn
  · rw [saturate, saturate, Nat.min_eq_left hn, saturate]
  · cases m with
    | zero => rw [Nat.zero_mul, Nat.zero_mul]
    | succ m =>
      -- One copy is enough to reach the largest size on both sides.
      have hone : ∀ k, k ≤ (m + 1) * k := fun k => Nat.le_mul_of_pos_left k (Nat.succ_pos m)
      have hcut : saturate n = maxBits := Nat.min_eq_right hn
      rw [hcut, saturate, saturate, Nat.min_eq_right (hone maxBits), Nat.min_eq_right (Nat.le_trans hn (hone n))]

/-- What the registry finds at a depth is the exact size, cut off, and the exact alignment. -/
structure Finds (types : TypeRegistry) (depth : Nat) (h : TypeHandle) (bits align : Nat) :
    Prop where
  exact : types.Measures [h] bits align
  width : types.widthAt depth h = saturate bits
  align : types.alignAt depth h = align

theorem Finds.foldl {depth : Nat} (hparts : ∀ p ∈ parts, ∃ b a, types.Finds depth p b a) :
    ∃ b a, types.Measures parts b a ∧
      (∀ k, parts.foldl (fun sum m => saturate (sum + types.widthAt depth m)) (saturate k) =
        saturate (k + b)) ∧
      ∀ k, parts.foldl (fun m t => max m (types.alignAt depth t)) k = max k a := by
  induction parts with
  | nil => exact ⟨0, 0, .nil, fun _ => rfl, fun k => (Nat.max_zero k).symm⟩
  | cons p rest ih =>
    obtain ⟨⟨b, a, hp⟩, hrest⟩ := List.forall_mem_cons.mp hparts
    obtain ⟨b', a', hmeasures, hwidth, halign⟩ := ih hrest
    cases hp.exact with
    | cons hd hparts hinner hnil =>
      cases hnil
      refine ⟨_, _, .cons hd hparts hinner hmeasures, fun k => ?_, fun k => ?_⟩
      · rw [List.foldl_cons, hp.width, saturate_add, hwidth, Nat.add_zero, Nat.add_assoc]
      · rw [List.foldl_cons, hp.align, halign, Nat.max_zero, Nat.max_assoc]

/-! ## One level -/

theorem parts?_record_iff {l : LayoutHandle} : types.parts? (.record l) = some parts ↔
    ∃ layout,
      types.layout? l = some layout ∧ (∀ m ∈ layout.members, (types.handle? m.2).isSome = true) ∧
      layout.members.filterMap (fun m => types.handle? m.2) = parts := by
  simp [parts?, Option.bind_eq_some_iff, List.all_eq_true]

/-- If the parts are found one level up, the type is. -/
theorem Finds.succ {depth : Nat} (hd : types.desc? h = some d) (hsome : types.parts? d = some parts)
    (hparts : ∀ p ∈ parts, ∃ b a, types.Finds depth p b a) :
    ∃ b a, types.Finds (depth + 1) h b a := by
  obtain ⟨b, a, hmeasures, hwidth, halign⟩ := Finds.foldl hparts
  replace hwidth := hwidth 0
  replace halign := halign 0
  rw [Nat.zero_add] at hwidth
  rw [Nat.zero_max] at halign
  have hone : ∀ {w}, saturate (saturate 0 + w) = saturate b → saturate w = saturate b := fun {w} hw =>
    (congrArg saturate (Nat.zero_add w).symm).trans hw
  refine ⟨_, _, .cons hd hsome hmeasures .nil, ?_, ?_⟩
  · rw [widthAt, hd, Nat.add_zero]
    cases d with
    | void | bool | pointer =>
      cases hsome
      cases hmeasures
      rfl
    | float w | sint w | uint w =>
      cases hsome
      cases hmeasures
      exact (saturate_of_lt w.toNat_lt).symm
    | array inner n | vector inner n =>
      cases hsome
      show saturate (n.toNat * types.widthAt depth inner) = saturate (0 + n.toNat * b)
      rw [Nat.zero_add, ← saturate_mul _ b, ← hone hwidth, saturate_mul]
    | matrix inner columns rows =>
      -- Columns times rows is cut off before the width comes in.
      cases hsome
      show saturate (saturate (columns.toNat * rows.toNat) * types.widthAt depth inner) =
        saturate (0 + columns.toNat * rows.toNat * b)
      rw [Nat.zero_add, ← saturate_mul _ b, ← hone hwidth, saturate_mul, Nat.mul_comm, saturate_mul, Nat.mul_comm]
    | tuple x y =>
      cases hsome
      show saturate (types.widthAt depth x + types.widthAt depth y) = saturate (0 + 1 * b)
      rw [Nat.zero_add, Nat.one_mul, ← hwidth]
      simp only [List.foldl_cons, List.foldl_nil, saturate]
      omega
    | record l =>
      obtain ⟨layout, hlayout, -, rfl⟩ := parts?_record_iff.mp hsome
      show (types.memberHandles l).foldl _ 0 = saturate (0 + 1 * b)
      rw [memberHandles, hlayout, Nat.zero_add, Nat.one_mul, ← hwidth]
      rfl
  · rw [alignAt, hd, Nat.max_zero]
    cases d with
    | void | bool | pointer =>
      cases hsome
      cases hmeasures
      rw [widthAt, hd]
      rfl
    | float w | sint w | uint w =>
      cases hsome
      cases hmeasures
      rw [widthAt, hd]
      exact (Nat.max_zero _).symm
    | array inner n | vector inner n | matrix inner columns rows =>
      cases hsome
      show types.alignAt depth inner = max 0 a
      rw [Nat.zero_max, ← halign]
      exact (Nat.zero_max _).symm
    | tuple x y =>
      cases hsome
      show max (types.alignAt depth x) (types.alignAt depth y) = max 0 a
      rw [Nat.zero_max, ← halign, List.foldl_cons, List.foldl_cons, List.foldl_nil, Nat.zero_max]
    | record l =>
      obtain ⟨layout, hlayout, -, rfl⟩ := parts?_record_iff.mp hsome
      show (types.memberHandles l).foldl _ 0 = max 0 a
      rw [memberHandles, hlayout, Nat.zero_max, ← halign]

/-! ## Registries in which every type has its parts -/

/-- Ids have descriptors, what is nested in a descriptor has one, and the members of structs are
    types. -/
structure Composed (types : TypeRegistry) : Prop extends types.Layered where
  members : ∀ {h l}, types.desc? h = some (.record l) → ∃ layout, types.layout? l = some layout ∧
    ∀ m ∈ layout.members, (types.handle? m.2).isSome = true

theorem Composed.declares {id : ResultId} (hc : types.Composed) (hdecl : Declares id d types types')
    (hinner : ∀ i ∈ d.inner, (types.desc? i).isSome = true)
    (hkeep : ∀ {l layout}, types.layout? l = some layout → types'.layout? l = some layout)
    (hrecord : ∀ {l}, d = .record l → ∃ layout, types'.layout? l = some layout ∧
      ∀ m ∈ layout.members, (types.handle? m.2).isSome = true) : types'.Composed where
  toLayered := hdecl.layered hc.toLayered hinner
  members {h l} hh := by
    have hold : ∃ layout, types'.layout? l = some layout ∧
        ∀ m ∈ layout.members, (types.handle? m.2).isSome = true := by
      rw [hdecl.desc] at hh
      rcases desc?_intern_cases hh with hh | ⟨hd, -, -⟩
      · obtain ⟨layout, hlayout, hmembers⟩ := hc.members hh
        exact ⟨layout, hkeep hlayout, hmembers⟩
      · exact hrecord hd.symm
    obtain ⟨layout, hlayout, hmembers⟩ := hold
    refine ⟨layout, hlayout, fun m hm => ?_⟩
    rw [hdecl.handle]
    split
    · rfl
    · exact hmembers m hm

namespace Composed

variable (hc : types.Composed)
include hc

theorem declareStruct (id : ResultId) {layout : StructLayout}
    (hmembers : ∀ m ∈ layout.members, (types.handle? m.2).isSome = true) :
    (types.declareStruct id layout).Composed := by
  refine hc.declares (declares_declareStruct types id layout) (List.forall_mem_nil _)
    layout?_declareStruct_of_layout? ?_
  rintro l ⟨⟩
  exact ⟨layout, Array.getElem?_push_size, hmembers⟩

theorem exists_parts (hd : types.desc? h = some d) : ∃ parts, types.parts? d = some parts ∧
    ∀ p ∈ parts, (types.desc? p).isSome = true := by
  have hnested : ∀ i ∈ d.inner, (types.desc? i).isSome = true := fun i hi =>
    isSome_desc?_iff.mpr (Nat.lt_trans (hc.behind hd i hi) (isSome_desc?_iff.mp (hd ▸ rfl)))
  cases d with
  | void | bool | float | sint | uint | pointer => exact ⟨[], rfl, List.forall_mem_nil _⟩
  | array | vector | matrix | tuple => exact ⟨_, rfl, hnested⟩
  | record l =>
    obtain ⟨layout, hlayout, hmembers⟩ := hc.members hd
    refine ⟨_, parts?_record_iff.mpr ⟨layout, hlayout, hmembers, rfl⟩, fun p hp => ?_⟩
    obtain ⟨m, -, hm⟩ := List.mem_filterMap.mp hp
    exact hc.described hm

/-- Types that nest at most `n` deep are found when looking `n + 1` levels deep. -/
theorem finds {n : Nat} (hh : (types.desc? h).isSome = true) (hn : types.nestsWithin n h = true) :
    ∃ b a, types.Finds (n + 1) h b a := by
  induction n generalizing h with
  | zero =>
    obtain ⟨d, hd⟩ := Option.isSome_iff_exists.mp hh
    obtain ⟨parts, hparts, -⟩ := hc.exists_parts hd
    rw [nestsWithin, hd, Option.bind_some, hparts, Option.all_some, List.isEmpty_iff] at hn
    subst hn
    exact Finds.succ hd hparts (List.forall_mem_nil _)
  | succ n ih =>
    obtain ⟨d, hd⟩ := Option.isSome_iff_exists.mp hh
    obtain ⟨parts, hparts, hdesc⟩ := hc.exists_parts hd
    rw [nestsWithin, hd, Option.bind_some, hparts, Option.all_some, List.all_eq_true] at hn
    exact Finds.succ hd hparts fun p hp => ih (hdesc p hp) (hn p hp)

end Composed

end TypeRegistry

/-! ## Operations -/

namespace Assembler

open TypeRegistry

variable {asm after : Assembler} {inst : Instruction}

theorem composed_pushType {id : ResultId} (hc : asm.types.Composed)
    (heq : asm.pushType inst = .ok (id, after)) :
    after.types.Composed := by
  obtain ⟨d, hd, hafter⟩ := pushType_ok heq
  have hdeclare : ∀ id, (asm.types.declare id d).Composed := by
    intro id
    refine hc.declares (declares_declare _ _ _) (fun i hi => ?_) (fun hl => hl) fun {l} hl => ?_
    · obtain ⟨r, -, hr⟩ := nested_of_describe hd i hi
      exact hc.described hr
    · obtain ⟨d', -, hrelated⟩ := describe_related (R := fun _ _ => True) (b := asm) (y := inst) rfl rfl
        (fun h hh => ⟨h, hh, trivial⟩) (fun h hh => ⟨h, hh, trivial⟩) hd
      exact absurd hl (hrelated.ne_record l)
  rcases hafter with rfl | ⟨-, rfl⟩ | ⟨-, rfl⟩
  · exact hc
  · exact hdeclare _
  · exact hdeclare _

theorem composed_pushStruct (hc : asm.types.Composed) (name : String)
    (members : List (String × ResultId)) :
    (asm.pushStruct name members).2.types.Composed := by
  obtain ⟨log, layout, heq, hmembers⟩ :=
    layoutMembers_eq name members asm { name } (List.forall_mem_nil _)
  rw [pushStruct_eq heq, setName_eq]
  exact hc.declareStruct ⟨asm.ids.size⟩ hmembers

end Assembler

/-- Operations that leave the members of structs as they were declared. -/
def Operation.keepsMembers : Operation → Bool
  | .modifyLayout .. | .flatten => false
  | _ => true

open Assembler in
theorem Operation.survives_composed {asm : Assembler} (o : Operation)
    (hkeep : o.keepsMembers = true) (hc : asm.types.Composed) :
    o.Survives asm (·.types.Composed) where
  aside _ _ _ _ ha := ha
  create _ ha := ha
  push {a inst} _ ha := types_push a inst ▸ ha
  setName id name ha := by rwa [setName_eq]
  interface heq := by
    rcases pushInterface_cases heq with rfl | rfl
    · exact hc
    · rw [registerInterface, setName_eq]
      exact types_push (asm.create _).2 _ ▸ hc
  type _ heq ha := composed_pushType ha heq
  struct := composed_pushStruct hc _ _
  layout := by
    rintro id f l layout rfl
    cases hkeep
  finish := types_finish asm ▸ hc
  replace {old new} _ := SharesTypes.types_replace asm old new ▸ hc
  flatten := by
    rintro rfl
    cases hkeep
  merge := mergeLiterals_invariant (I := (·.types.Composed))
    (fun a old new ha => SharesTypes.types_replace a old new ▸ ha) hc

theorem History.composed {asm : Assembler} (h : History (fun _ o => o.keepsMembers = true) asm) :
    asm.types.Composed := by
  induction h with
  | empty => exact ⟨⟨nofun, nofun⟩, nofun⟩
  | step o _ hkeep ih => exact (o.survives_composed hkeep ih).run ih

/-- **Sizes are exact up to the largest word.**  Whatever has been declared, a type that nests at
    most 64 deep has one exact size and one exact alignment; its width is the size, cut off, and its
    alignment is not cut off. -/
theorem TypeRegistry.bitWidth?_eq_exact_size {asm : Assembler}
    (h : History (fun _ o => o.keepsMembers = true) asm) {id : ResultId} {t : TypeHandle}
    (hid : asm.types.handle? id = some t) (hdeep : asm.types.nestsWithin 64 t = true) :
    ∃ bits align, (∀ b a, asm.types.Measures [t] b a ↔ b = bits ∧ a = align) ∧
      asm.types.bitWidth? id = some (min 0xFFFFFFFF bits) ∧ asm.types.bitAlign? id =
        some align := by
  obtain ⟨bits, align, hfinds⟩ := h.composed.finds (h.composed.described hid) hdeep
  refine ⟨bits, align, fun b a => ⟨hfinds.exact.unique, ?_⟩, ?_, ?_⟩
  · rintro ⟨rfl, rfl⟩
    exact hfinds.exact
  · rw [bitWidth?, hid, Nat.min_comm]
    exact congrArg some hfinds.width
  · rw [bitAlign?, hid]
    exact congrArg some hfinds.align

def TypeRegistry.largeStruct : List Operation :=
  [.pushType { opcode := .floatType, operands := ⟨32, 0, 0⟩ },
    .pushType { opcode := .vectorType, operands := ⟨4, 0, 0⟩, refs := ⟨⟨1⟩, .void, .void⟩ },
    .pushType { opcode := .arrayType, operands := ⟨0x10000000, 0, 0⟩, refs := ⟨⟨2⟩, .void, .void⟩ },
    .pushStruct "s" [("a", ⟨1⟩), ("b", ⟨3⟩)]]

theorem TypeRegistry.bitWidth?_largeStruct :
    ∃ types : TypeRegistry, types = (Operation.runAll largeStruct).types ∧
    types.handle? ⟨4⟩ = some ⟨3⟩ ∧ types.nestsWithin 64 ⟨3⟩ = true ∧
      ∃ bits align, (∀ b a, types.Measures [⟨3⟩] b a ↔ b = bits ∧ a = align) ∧
        types.bitWidth? ⟨4⟩ = some (min 0xFFFFFFFF bits) ∧ types.bitAlign? ⟨4⟩ = some align :=
  have hid : (Operation.runAll largeStruct).types.handle? ⟨4⟩ = some ⟨3⟩ := by decide +kernel
  have hdeep : (Operation.runAll largeStruct).types.nestsWithin 64 ⟨3⟩ = true := by decide +kernel
  ⟨_, rfl, hid, hdeep, bitWidth?_eq_exact_size (.runAll (by decide +kernel)) hid hdeep⟩

end ShaderIR
