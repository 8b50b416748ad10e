import ShaderIR.Proofs.Assembler.Registry
import ShaderIR.Proofs.Listing.Definitions

/-!
# Types of a listing

Each declaration of a type enters the registry under the id that it defines, structs at their end.
If no id is declared twice, **whatever the registry knows stands in the stream**: a declaration for
every type, and a member instruction for every member.
-/

namespace ShaderIR

namespace Assembler

variable {id : ResultId}

def HasMember (asm : Assembler) (id : ResultId) : Prop :=
  ∃ inst ∈ asm.code.toList, inst.opcode = .structMember ∧ inst.refs.fst = id

/-- The registry agrees with itself and with the stream. -/
structure TypesListed (asm : Assembler) : Prop where
  consistent : asm.types.Consistent
  declared : ∀ {id h}, asm.types.handle? id = some h → asm.DeclaresType id
  members : ∀ {l layout m}, asm.types.layout? l = some layout → m ∈ layout.members → asm.HasMember m.2
  nested : ∀ {inst d}, inst ∈ asm.code.toList → inst.opcode.isType = true →
    asm.types.ofId? inst.id = some d → ∀ h ∈ d.inner, ∃ r ∈ inst.slots, asm.types.handle? r = some h

theorem TypesListed.same {a b : Assembler} (h : a.TypesListed) (hcode : b.code = a.code)
    (htypes : b.types = a.types) : b.TypesListed := by
  obtain ⟨hconsistent, hdeclared, hmembers, hnested⟩ := h
  refine ⟨htypes ▸ hconsistent, fun hid => ?_, fun hl hm => ?_, fun hinst hop hd => ?_⟩
  · rw [DeclaresType, hcode]
    exact hdeclared (htypes ▸ hid)
  · rw [HasMember, hcode]
    exact hmembers (htypes ▸ hl) hm
  · rw [htypes] at hd ⊢
    exact hnested (hcode ▸ hinst) hop hd

theorem nested_of_describe {asm : Assembler} {inst : Instruction} {d : TypeDesc}
    (h : asm.describe inst = .ok d) :
    ∀ k ∈ d.inner, ∃ r ∈ inst.slots, asm.types.handle? r = some k := by
  have hinner : ∀ {r k}, asm.innerHandle r = .ok k → asm.types.handle? r = some k := by
    intro r k hr
    unfold innerHandle at hr
    split at hr
    next hk => cases hr; exact hk
    next => cases hr
  have hone : ∀ {k}, asm.innerHandle inst.refs.fst = .ok k →
      ∀ j ∈ [k], ∃ r ∈ inst.slots, asm.types.handle? r = some j := by
    intro k hk j hj
    rw [List.mem_singleton.mp hj]
    exact ⟨_, Instruction.mem_slots.mpr (.inl rfl), hinner hk⟩
  unfold describe at h
  dsimp only at h
  split at h
  -- Types without parts.
  iterate 2
    · cases h; exact nofun
  iterate 3
    · obtain ⟨_, -, h⟩ := exists_of_bind_eq_ok h
      cases h; exact nofun
  -- Arrays and vectors, matrices, pointers.
  iterate 2
    · split at h
      · cases h
      · obtain ⟨k, hk, h⟩ := exists_of_bind_eq_ok h
        cases h; exact hone hk
  · split at h
    · cases h
    · split at h
      · cases h
      · obtain ⟨k, hk, h⟩ := exists_of_bind_eq_ok h
        cases h; exact hone hk
  · obtain ⟨k, hk, h⟩ := exists_of_bind_eq_ok h
    cases h; exact hone hk
  · obtain ⟨k, hk, h⟩ := exists_of_bind_eq_ok h
    obtain ⟨l, hl, h⟩ := exists_of_bind_eq_ok h
    cases h
    intro j hj
    rcases List.mem_cons.mp hj with rfl | hj
    · exact ⟨_, Instruction.mem_slots.mpr (.inl rfl), hinner hk⟩
    · rw [List.mem_singleton.mp hj]
      exact ⟨_, Instruction.mem_slots.mpr (.inr (.inl rfl)), hinner hl⟩
  · cases h

section

variable {asm asm' : Assembler} {inst : Instruction} (hcode : asm'.code = asm.code.push inst)
include hcode

theorem mem_code_push {x : Instruction} (hx : x ∈ asm.code.toList) : x ∈ asm'.code.toList := by
  rw [hcode, Array.toList_push]
  exact List.mem_append_left _ hx

theorem mem_code_push_self : inst ∈ asm'.code.toList := by
  rw [hcode, Array.toList_push]
  exact List.mem_append_right _ (List.mem_singleton.mpr rfl)

theorem DeclaresType.push (h : asm.DeclaresType id) : asm'.DeclaresType id := by
  obtain ⟨x, hx, hx'⟩ := h
  exact ⟨x, mem_code_push hcode hx, hx'⟩

theorem HasMember.push (h : asm.HasMember id) : asm'.HasMember id := by
  obtain ⟨x, hx, hx'⟩ := h
  exact ⟨x, mem_code_push hcode hx, hx'⟩

theorem mem_of_code_push {x : Instruction} (hx : x ∈ asm'.code.toList) :
    x ∈ asm.code.toList ∨ x = inst := by
  rw [hcode, Array.toList_push] at hx
  exact (List.mem_append.mp hx).imp_right List.mem_singleton.mp

theorem TypesListed.push (h : asm.TypesListed) (htypes : asm'.types = asm.types)
    (hfree : inst.opcode.isType = true → asm.types.handle? inst.id = none) : asm'.TypesListed where
  consistent := htypes ▸ h.consistent
  declared hid := (h.declared (htypes ▸ hid)).push hcode
  members hl hm := (h.members (htypes ▸ hl) hm).push hcode
  nested {x d} hx hop hd := by
    rw [htypes] at hd ⊢
    rcases mem_of_code_push hcode hx with hx | rfl
    · exact h.nested hx hop hd
    · rw [TypeRegistry.ofId?, hfree hop] at hd
      cases hd

theorem TypesListed.declares (h : asm.TypesListed) {d : TypeDesc}
    (hd : TypeRegistry.Declares id d asm.types asm'.types) (hconsistent : asm'.types.Consistent)
    (hid : asm.types.handle? id = none) (hdeclared : asm'.DeclaresType id)
    (hmembers : ∀ {l layout m}, asm'.types.layout? l = some layout → m ∈ layout.members →
      asm'.HasMember m.2) (hinst : inst.opcode.isType = true → inst.id = id)
    (hself : ∀ x ∈ asm'.code.toList, x.id = id → ∀ k ∈ d.inner, ∃ r ∈ x.slots,
      asm.types.handle? r = some k) : asm'.TypesListed where
  consistent := hconsistent
  declared {j k} hj := by
    rcases hd.handle?_cases hj with rfl | hj
    · exact hdeclared
    · exact (h.declared hj).push hcode
  members := hmembers
  nested {x d'} hx hop hd' k hk := by
    have hparts : ∃ r ∈ x.slots, asm.types.handle? r = some k := by
      by_cases heq : x.id = id
      · rw [heq, hd.ofId?_self] at hd'
        cases hd'
        exact hself x hx heq k hk
      · rcases mem_of_code_push hcode hx with hx | rfl
        · exact h.nested hx hop ((hd.ofId?_of_ne h.consistent heq).symm.trans hd') k hk
        · exact absurd (hinst hop) heq
    obtain ⟨r, hr, hrk⟩ := hparts
    exact ⟨r, hr, hd.handle?_of_handle? hid hrk⟩

end

end Assembler

theorem StructLayout.mem_addMember {layout : StructLayout} {name : String} {type : ResultId}
    {m : String × ResultId} (h : m ∈ ((layout.addMember? name type).getD layout).members) :
    m ∈ layout.members ∨ m.2 = type := by
  unfold addMember? at h
  split at h
  · exact .inl h
  · exact (List.mem_append.mp h).imp_right fun hm => congrArg (·.2) (List.mem_singleton.mp hm)

namespace Listing.Contents

open Assembler

/-- What is known of the types while the instructions of a listing are put into the stream. -/
structure Rebuilding.Listed (b : Rebuilding) : Prop where
  types : b.asm.TypesListed
  standing : b.asm.types.Standing
  struct : ∀ {id layout}, b.struct? = some (id, layout) → b.asm.types.handle? id = none ∧
    b.asm.DeclaresType id ∧ ∀ m ∈ layout.members, b.asm.HasMember m.2

namespace Rebuilding.Listed

variable {b b' : Rebuilding} {inst : Instruction}

theorem push (h : b.Listed) (hcode : b'.asm.code = b.asm.code.push inst)
    (hfree : inst.opcode.isType = true → b.asm.types.handle? inst.id = none)
    (htypes : b'.asm.types = b.asm.types) (hstruct : b'.struct? = b.struct?) : b'.Listed where
  types := h.types.push hcode htypes hfree
  standing := htypes ▸ h.standing
  struct {id layout} hs := by
    obtain ⟨hid, hdeclared, hmembers⟩ := h.struct (hstruct ▸ hs)
    exact ⟨htypes ▸ hid, hdeclared.push hcode, fun m hm => (hmembers m hm).push hcode⟩

theorem add (h : b.Listed) (hadds : Adds b inst b')
    (hnew : inst.opcode.isType = true → ∀ x ∈ b.asm.code.toList, x.id ≠ inst.id) : b'.Listed := by
  have hfree : inst.opcode.isType = true → b.asm.types.handle? inst.id = none := by
    intro hop
    cases hid : b.asm.types.handle? inst.id with
    | none => rfl
    | some k =>
      obtain ⟨x, hx, -, hxid⟩ := h.types.declared hid
      exact absurd hxid (hnew hop x hx)
  obtain ⟨_, _, _, heq⟩ := hadds.asm_eq
  have hcode : b'.asm.code = b.asm.code.push inst := by rw [heq]; exact code_push _ _
  cases hadds with
  | structType hop =>
    -- Nothing is declared yet.
    have htype : inst.opcode.isType = true := by rw [hop]; rfl
    refine ⟨h.types.push hcode (types_push _ _) hfree, types_push b.asm inst ▸ h.standing,
      fun {id layout} hs => ?_⟩
    cases hs
    refine ⟨?_, ⟨inst, mem_code_push_self hcode, htype, rfl⟩, nofun⟩
    exact types_push b.asm inst ▸ hfree htype
  | structMember hop =>
    refine ⟨h.types.push hcode (types_push _ _) hfree, types_push b.asm inst ▸ h.standing,
      fun {id layout} hs => ?_⟩
    obtain ⟨⟨id0, layout0⟩, hs0, heq0⟩ := Option.map_eq_some_iff.mp hs
    cases heq0
    obtain ⟨hid, hdeclared, hmembers⟩ := h.struct hs0
    refine ⟨types_push b.asm inst ▸ hid, hdeclared.push hcode, fun m hm => ?_⟩
    rcases StructLayout.mem_addMember hm with hm | hm
    · exact (hmembers m hm).push hcode
    · exact ⟨inst, mem_code_push_self hcode, hop, hm.symm⟩
  | structEnd hop =>
    unfold Rebuilding.endedTypes
    cases hs : b.struct? with
    | none => exact h.push hcode hfree rfl hs.symm
    | some p =>
      obtain ⟨hid, hdeclared, hmembers⟩ := h.struct hs
      refine ⟨h.types.declares hcode (TypeRegistry.declares_declareStruct _ p.1 p.2) ?_ hid (hdeclared.push hcode)
        (fun hl hm => ?_) ?_ fun _ _ _ => List.forall_mem_nil _, h.standing.declareStruct p.1 p.2, nofun⟩
      · exact (TypeRegistry.declares_declareStruct _ p.1 p.2).consistent h.types.consistent hid
          (Table.nodup_insert h.types.consistent.distinct _ _)
      · rcases TypeRegistry.layout?_declareStruct_cases hl with rfl | hl
        · exact (hmembers _ hm).push hcode
        · exact (h.types.members hl hm).push hcode
      · rw [hop]
        exact nofun
  | @type desc hdesc =>
    have hop := isType_of_describe hdesc
    have hdeclares := TypeRegistry.declares_declareAlso b.asm.types inst.id desc
    have hconsistent := hdeclares.consistent h.types.consistent (hfree hop)
      (Table.nodup_insertIfNew h.types.consistent.distinct _ _)
    refine ⟨h.types.declares hcode hdeclares hconsistent (hfree hop) ⟨inst, mem_code_push_self hcode, hop, rfl⟩
      (fun hl hm => (h.types.members hl hm).push hcode) (fun _ => rfl) (fun x hx heq => ?_),
      h.standing.declareAlso inst.id desc, fun {id layout} hs => ?_⟩
    · rcases mem_of_code_push hcode hx with hx | rfl
      · exact absurd heq (hnew hop x hx)
      · exact nested_of_describe hdesc
    obtain ⟨hid, hdeclared, hmembers⟩ := h.struct hs
    refine ⟨?_, hdeclared.push hcode, fun m hm => (hmembers m hm).push hcode⟩
    cases hk : (b.asm.types.declareAlso inst.id desc).handle? id with
    | none => rfl
    | some k =>
      rcases hdeclares.handle?_cases hk with rfl | hk
      · obtain ⟨x, hx, -, hxid⟩ := hdeclared
        exact absurd hxid (hnew hop x hx)
      · rw [hid] at hk
        cases hk
  | opens | closes | plain => exact h.push hcode hfree (types_push _ _) rfl

end Rebuilding.Listed

theorem Reads.listed {l : List Instruction} {b b' : Rebuilding} (h : Reads l b b') (hb : b.Listed)
   
    (hdistinct : (b.asm.code.toList ++ l).Pairwise fun x y => y.opcode.isType = true → x.id ≠ y.id) :
    b'.Listed := by
  induction h with
  | nil => exact hb
  | cons hadds _ ih =>
    refine ih (hb.add hadds fun hop x hx => ?_) ?_
    · exact (List.pairwise_append.mp hdistinct).2.2 x hx _ List.mem_cons_self hop
    · rw [hadds.code, Array.toList_push, List.append_assoc]
      exact hdistinct

end Contents

open Assembler Contents in
theorem typesListed_of_parse {text : String} {asm : Assembler} (h : parse text = .ok asm)
    (hcoherent : asm.Coherent)
    (hids : ∀ inst ∈ asm.code.toList, inst.opcode.isType = true → inst.id.index ≠ 0) :
    asm.TypesListed ∧ asm.types.Standing := by
  obtain ⟨c, -, hc⟩ := exists_of_bind_eq_ok h
  obtain ⟨-, b, hr⟩ := exists_rebuilt hc
  -- No type is declared twice.
  have hdistinct : (c.allocate.code.toList ++ c.code.toList.map (·.2)).Pairwise fun x y =>
      y.opcode.isType = true → x.id ≠ y.id := by
    rw [code_allocate, ← hr.code]
    refine List.pairwise_iff_getElem.mpr fun i j hi hj hij hop heq => ?_
    have hz := hids _ (List.getElem_mem hj) hop
    have hat : ∀ {k : Nat} (hk : k < asm.code.toList.length), asm.code[k]? = some asm.code.toList[k] := by
      intro k hk
      rw [← Array.getElem?_toList]
      exact List.getElem?_eq_getElem hk
    have := hcoherent.single i j _ ⟨hz, _, hat hi, heq⟩ ⟨hz, _, hat hj, rfl⟩
    omega
  have hempty : Rebuilding.Listed { asm := c.allocate } := by
    have hnone : ∀ id, c.allocate.types.handle? id = none := fun id => by rw [types_allocate]; rfl
    refine ⟨⟨⟨fun {id k} hid => ?_, fun {k id} hk => ?_, ?_⟩, fun {id k} hid => ?_,
      fun {l layout m} hl => ?_, fun {inst d} _ _ hd => ?_⟩, fun id k hid => ?_, nofun⟩
    · rw [hnone] at hid; cases hid
    · rw [types_allocate] at hk; cases hk
    · rw [types_allocate]; exact .nil
    · rw [hnone] at hid; cases hid
    · rw [types_allocate] at hl; cases hl
    · rw [TypeRegistry.ofId?, hnone] at hd; cases hd
    · rw [hnone] at hid; cases hid
  obtain ⟨names, interface, hasm⟩ := hr.exists_eq_finish
  have htypes : asm.types = b.asm.types := by rw [hasm, types_finish]
  have hlisted := (rebuildCode_eq_ok_iff.mp hr.stream).listed hempty hdistinct
  exact ⟨hlisted.types.same (by rw [hasm, code_finish]) htypes, htypes ▸ hlisted.standing⟩

end Listing

end ShaderIR
