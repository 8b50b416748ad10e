import ShaderIR.Proofs.Assembler.Registry
import ShaderIR.Proofs.Spirv.Literals
import ShaderIR.Proofs.Spirv.Twins.Lowerings

/-!
# Merging literals leaves the module alone

Equal literals become one constant of the module.  So the lowerings of the stream before and after
merging are twins, where **a repeated literal is paired with an earlier one as soon as it is
lowered**.
-/

namespace ShaderIR.Spirv

open Assembler
open Operation (runAll)

variable {inst : Instruction} {r : ResultId} {lit : Instruction} {k : Nat}

/-! ## Streams in order -/

/-- References come after what they refer to, labels and functions aside. -/
def RefersBack (asm : Assembler) : Prop :=
  ∀ (k : Nat) (inst : Instruction), asm.code[k]? = some inst → ∀ r ∈ inst.slots, r.index ≠ 0 →
    ∀ (j : Nat) (x : Instruction), asm.code[j]? = some x → x.id = r → x.opcode ≠ .label →
      x.opcode ≠ .function → j < k

theorem refersBack_of_checks {asm : Assembler}
    (h : ∀ e ∈ asm.code.toList.zipIdx, ∀ r ∈ e.1.slots, r.index = 0 ∨ ∀ d ∈ asm.code.toList.zipIdx,
      d.1.id = r → d.1.opcode = .label ∨ d.1.opcode = .function ∨ d.2 < e.2) :
    RefersBack asm := by
  have hmem : ∀ {i : Nat} {x : Instruction}, asm.code[i]? = some x → (x, i) ∈ asm.code.toList.zipIdx := by
    intro i x hx
    rw [List.mem_zipIdx_iff_getElem?, Array.getElem?_toList]
    exact hx
  intro k inst hinst r hr hz j x hx hid hlabel hfunction
  have hback := (h (inst, k) (hmem hinst) r hr).resolve_left hz (x, j) (hmem hx) hid
  exact (hback.resolve_left hlabel).resolve_left hfunction

/-- If the entry function of a stage is a literal, the literals equal to it have the same first
    reference.  -/
def EntriesAgree (asm : Assembler) : Prop :=
  ∀ inst ∈ asm.code.toList, inst.opcode = .stageEnd → ∀ x ∈ asm.code.toList,
    x.opcode.isMergeable = true → x.id = inst.refs.fst → ∀ y ∈ asm.code.toList,
      y.literalKey = x.literalKey → y.refs.fst = x.refs.fst

/-- A stream in order: its ids are accounted for, references come after what they refer to, the
    table has every definition, and entry functions are not told apart by what merging ignores. -/
structure Sequenced (asm : Assembler) : Prop extends Accounted asm where
  ordered : RefersBack asm
  complete : asm.DefinitionsComplete
  entries : EntriesAgree asm

/-- An id and what may stand for it once the first `k` instructions are lowered. -/
def PairedBefore (asm : Assembler) (k : Nat) (r r' : ResultId) : Prop :=
  r' = r ∨ ∃ (i j : Nat) (x y : Instruction), i < j ∧ j < k ∧ asm.code[i]? = some x ∧
    asm.code[j]? = some y ∧ x.id = r' ∧ y.id = r ∧ x.isMergeable = true ∧ y.isMergeable = true ∧
      x.literalKey = y.literalKey

/-- Types stand for themselves, and what is no type may stand for what is none. -/
def TypePaired (asm : Assembler) (x x' : ResultId) : Prop :=
  x' = x ∨ asm.types.handle? x = none ∧ asm.types.handle? x' = none

section

variable {asm : Assembler}

theorem typeTwins_self (asm : Assembler) : TypeTwins asm.types asm.types (TypePaired asm) where
  handle {x x'} hx := by
    rcases hx with rfl | ⟨hx, hx'⟩
    · rfl
    · rw [hx, hx']
  desc _ := rfl
  nested h := by
    cases asm.types.idOf? h with
    | none => exact .none
    | some id => exact .some (.inl rfl)
  layout l := by
    cases asm.types.layout? l with
    | none => exact .none
    | some layout => exact .some ⟨rfl, List.forall₂_same.mpr fun _ _ => ⟨rfl, .inl rfl⟩⟩
  size := rfl
  apart {x x' y y'} hx hy htype := by
    obtain rfl : y' = y := by
      rcases hy with rfl | ⟨hy, -⟩
      · rfl
      · rw [hy] at htype
        cases htype
    rcases hx with rfl | ⟨hx, hx'⟩
    · rfl
    · refine ⟨?_, ?_⟩ <;> rintro rfl
      · rw [hx] at htype
        cases htype
      · rw [hx'] at htype
        cases htype

theorem exists_of_mergedId_ne (hdistinct : asm.Distinct) (hne : asm.mergedId r ≠ r) :
    ∃ (i j : Nat) (x y : Instruction), i < j ∧ asm.code[i]? = some x ∧ asm.code[j]? = some y ∧
      x.id = asm.mergedId r ∧ y.id = r ∧ x.isMergeable = true ∧ y.isMergeable = true ∧
        x.literalKey = y.literalKey := by
  obtain ⟨i, j, x, y, hij, hx, hy, hxid, hyid, hs, hr, hmerge, hkey⟩ :=
    (hdistinct.standsFor_mergedId r).resolve_left hne
  have hop : x.opcode = y.opcode := congrArg (·.1) hkey
  refine ⟨i, j, x, y, hij, hx, hy, hxid, hyid, ?_, ?_, hkey⟩
  · exact isMergeable_iff.mpr ⟨hxid ▸ hs, hop ▸ hmerge⟩
  · exact isMergeable_iff.mpr ⟨hyid ▸ hr, hmerge⟩

theorem handle?_literal (hregistered : Registered asm) (hdistinct : asm.Distinct) {i : Nat}
    (hlit : asm.code[i]? = some lit) (hmerge : lit.isMergeable = true) :
    asm.types.handle? lit.id = none := by
  cases hhandle : asm.types.handle? lit.id with
  | none => rfl
  | some h =>
    obtain ⟨hz, hop⟩ := isMergeable_iff.mp hmerge
    obtain ⟨inst, hinst, htype, hid⟩ := hregistered.types.handles _ (Table.mem_of_get? hhandle)
    obtain ⟨j, hj⟩ := Array.mem_iff_getElem?.mp (Array.mem_toList_iff.mp hinst)
    obtain rfl := hdistinct.single i j lit.id ⟨hz, lit, hlit, rfl⟩ ⟨hz, inst, hj, hid⟩
    rw [hlit, Option.some.injEq] at hj
    subst hj
    generalize lit.opcode = op at hop htype
    cases op <;> simp [Opcode.isMergeable, Opcode.isType] at hop htype

end

/-! ## Before and after merging -/

/-- What merging leaves of a stream in order. -/
structure Merges (asm after : Assembler) : Prop where
  sequenced : Sequenced asm
  distinct : asm.Distinct
  registered : Registered asm
  sound : asm.DefinitionsSound
  redirected : Redirected asm after asm.mergedId

/-- States of the two lowerings after `k` instructions. -/
structure InStep (asm after : Assembler) (k : Nat) (s t : Lowering) : Prop where
  twins : Twins asm after (PairedBefore asm k) (TypePaired asm) s t
  literals : LiteralsStand asm k s

theorem merges_mergeLiterals {asm : Assembler} (hreach : Reached (fun _ => True) asm)
    (h : Sequenced asm) : Merges asm asm.mergeLiterals.2 :=
  have hdistinct := h.toAccounted.distinct (ids_nonempty_of_reached (fun _ _ _ => trivial) hreach)
  { sequenced := h
    distinct := hdistinct
    registered := hreach.registered
    sound := definitionsSound_of_reached (fun _ _ _ => trivial) hreach
    redirected := hdistinct.redirected_mergeLiterals }

namespace Merges

variable {asm after : Assembler} (h : Merges asm after)
include h

theorem code_toList : after.code.toList = asm.code.toList.map (·.mapSlots asm.mergedId) := by
  rw [h.redirected.code, Array.toList_map]

/-! ### Slots -/

theorem typePaired (r : ResultId) : TypePaired asm r (asm.mergedId r) := by
  by_cases heq : asm.mergedId r = r
  · exact .inl heq
  · obtain ⟨i, j, x, y, -, hx, hy, hxid, hyid, hxm, hym, -⟩ := exists_of_mergedId_ne h.distinct heq
    refine .inr ⟨?_, ?_⟩
    · rw [← hyid]
      exact handle?_literal h.registered h.distinct hy hym
    · rw [← hxid]
      exact handle?_literal h.registered h.distinct hx hxm

theorem isVoid_eq (r : ResultId) : (asm.mergedId r).isVoid = r.isVoid := by
  by_cases heq : asm.mergedId r = r
  · rw [heq]
  · obtain ⟨i, j, x, y, -, -, -, hxid, hyid, hxm, hym, -⟩ := exists_of_mergedId_ne h.distinct heq
    rw [← hxid, ← hyid, ResultId.isVoid_eq_false.mpr (isMergeable_iff.mp hxm).1,
      ResultId.isVoid_eq_false.mpr (isMergeable_iff.mp hym).1]

theorem definingInstruction?_eq (r : ResultId) :
    after.definingInstruction? r = (asm.definingInstruction? r).map (·.mapSlots asm.mergedId) := by
  unfold Assembler.definingInstruction?
  rw [h.redirected.definition]
  cases asm.definition? r with
  | none => rfl
  | some i =>
    show after.code[i]? = (asm.code[i]?).map _
    rw [h.redirected.code, Array.getElem?_map]

theorem definingInstruction?_literal {i : Nat} (hlit : asm.code[i]? = some lit)
    (hmerge : lit.isMergeable = true) : asm.definingInstruction? lit.id = some lit := by
  have hz := (isMergeable_iff.mp hmerge).1
  have hdef := (definition?_eq_some_iff h.sound h.sequenced.complete h.distinct.single).mpr
    (⟨hz, lit, hlit, rfl⟩ : asm.DefinesAt i lit.id)
  unfold Assembler.definingInstruction?
  rw [hdef]
  exact hlit

theorem typeOf_paired (r : ResultId) :
    TypePaired asm (typeOf asm r) (typeOf after (asm.mergedId r)) := by
  by_cases heq : asm.mergedId r = r
  · rw [heq]
    unfold typeOf
    rw [h.definingInstruction?_eq]
    cases asm.definingInstruction? r with
    | none => exact .inl rfl
    | some inst =>
      show TypePaired asm (if inst.opcode.isVar then inst.refs.fst else inst.resultType)
        (if inst.opcode.isVar then asm.mergedId inst.refs.fst else asm.mergedId inst.resultType)
      split
      · exact h.typePaired _
      · exact h.typePaired _
  · -- Equal literals have the same type.
    obtain ⟨i, j, x, y, -, hx, hy, hxid, hyid, hxm, hym, hkey⟩ := exists_of_mergedId_ne h.distinct heq
    have hvar : ∀ {z : Instruction}, z.isMergeable = true → z.opcode.isVar = false := by
      intro z hz
      have hop := (isMergeable_iff.mp hz).2
      generalize z.opcode = op at hop
      cases op <;> first | rfl | cases hop
    have htype : x.resultType = y.resultType := congrArg (·.2.2) hkey
    unfold typeOf
    rw [h.definingInstruction?_eq, ← hxid, ← hyid, h.definingInstruction?_literal hx hxm,
      h.definingInstruction?_literal hy hym]
    show TypePaired asm (if y.opcode.isVar then y.refs.fst else y.resultType)
      (if x.opcode.isVar then asm.mergedId x.refs.fst else asm.mergedId x.resultType)
    rw [hvar hxm, hvar hym, htype]
    exact h.typePaired _

theorem entryType_paired (hinst : inst ∈ asm.code.toList) (hop : inst.opcode = .stageEnd) :
    TypePaired asm (entryType asm inst.refs.fst)
      (entryType after (asm.mergedId inst.refs.fst)) := by
  by_cases heq : asm.mergedId inst.refs.fst = inst.refs.fst
  · rw [heq]
    unfold entryType
    rw [h.definingInstruction?_eq]
    cases asm.definingInstruction? inst.refs.fst with
    | none => exact .inl rfl
    | some target => exact h.typePaired _
  · obtain ⟨i, j, x, y, -, hx, hy, hxid, hyid, hxm, hym, hkey⟩ := exists_of_mergedId_ne h.distinct heq
    have hfst : x.refs.fst = y.refs.fst :=
      h.sequenced.entries inst hinst hop y (mem_code hy)
        (isMergeable_iff.mp hym).2 hyid x (mem_code hx) hkey
    unfold entryType
    rw [h.definingInstruction?_eq, ← hxid, ← hyid, h.definingInstruction?_literal hx hxm,
      h.definingInstruction?_literal hy hym]
    show TypePaired asm y.refs.fst (asm.mergedId x.refs.fst)
    rw [hfst]
    exact h.typePaired _

theorem pairedBefore_slot {k j : Nat} (hinst : asm.code[j]? = some inst)
    (hgap : ∀ {m : Nat} {x}, k ≤ m → m < j → asm.code[m]? = some x → x.opcode.isMergeable = false)
    (hr : r ∈ inst.slots) : PairedBefore asm k r (asm.mergedId r) := by
  by_cases heq : asm.mergedId r = r
  · exact .inl heq
  · obtain ⟨i, m, x, y, him, hx, hy, hxid, hyid, hxm, hym, hkey⟩ := exists_of_mergedId_ne h.distinct heq
    obtain ⟨hz, hop⟩ := isMergeable_iff.mp hym
    have hmj : m < j := by
      refine h.sequenced.ordered j inst hinst r hr (hyid ▸ hz) m y hy hyid ?_ ?_ <;>
      · intro hlabel
        rw [hlabel] at hop
        cases hop
    have hmk : m < k := by
      rcases Nat.lt_or_ge m k with hlt | hge
      · exact hlt
      · rw [hgap hge hmj hy] at hop
        cases hop
    exact .inr ⟨i, m, x, y, him, hmk, hx, hy, hxid, hyid, hxm, hym, hkey⟩

theorem slots (hinst : asm.code[k]? = some inst) (hr : r ∈ inst.slots) :
    Slots asm after (PairedBefore asm k) (TypePaired asm) r (asm.mergedId r) where
  void := h.isVoid_eq r
  pair := h.pairedBefore_slot hinst (fun hk hlt => absurd hlt (Nat.not_lt.mpr hk)) hr
  type := h.typePaired r
  typeOf := h.typeOf_paired r

/-! ### Instructions -/

theorem own (hinst : asm.code[k]? = some inst) :
    Own asm after (PairedBefore asm k) inst.id inst.id where
  pair := .inl rfl
  apart {q q'} hq := by
    rcases hq with rfl | ⟨i, j, x, y, hij, hjk, hx, hy, hxid, hyid, hxm, hym, -⟩
    · rfl
    -- A literal before `k` is defined there, and nowhere else.
    have hbefore : ∀ {m : Nat} {z}, m < k → asm.code[m]? = some z → z.isMergeable = true → z.id ≠ inst.id := by
      intro m z hm hz hmerge heq
      have hne := (isMergeable_iff.mp hmerge).1
      have := h.distinct.single m k z.id ⟨hne, z, hz, rfl⟩ ⟨hne, inst, hinst, heq.symm⟩
      omega
    refine ⟨fun heq => absurd (hyid.trans heq) (hbefore hjk hy hym), fun heq => ?_⟩
    exact absurd (hxid.trans heq) (hbefore (by omega) hx hxm)
  kind := by rw [h.redirected.opcodeOf]

theorem pair (hinst : asm.code[k]? = some inst) :
    Pair asm after (PairedBefore asm k) (TypePaired asm) k inst (inst.mapSlots asm.mergedId) where
  opcode := rfl
  operands := rfl
  own := h.own hinst
  ownType := .inl rfl
  fst := h.slots hinst (Instruction.mem_slots.mpr (.inl rfl))
  snd := h.slots hinst (Instruction.mem_slots.mpr (.inr (.inl rfl)))
  thd := h.slots hinst (Instruction.mem_slots.mpr (.inr (.inr (.inl rfl))))
  resultType := h.typePaired _
  trailers {op} n hop := by
    rw [trailersAfter_map h.code_toList fun _ => rfl]
    refine List.forall₂_map_right_iff.mpr (List.forall₂_same.mpr fun x hx => ⟨?_, h.typePaired _⟩)
    obtain ⟨j, hj, -, -, hrun⟩ := exists_of_mem_trailersAfter hx
    -- Neither the header nor what trails after it is a literal.
    refine h.pairedBefore_slot hj (fun {m z} hkm hmj hz => ?_) (Instruction.mem_slots.mpr (.inl rfl))
    rcases Nat.eq_or_lt_of_le hkm with rfl | hlt
    · rw [hinst, Option.some.injEq] at hz
      subst hz
      generalize inst.opcode = header at hop
      cases header <;> first | rfl | cases hop
    · obtain ⟨z', hz', htrailer⟩ := hrun m hlt (Nat.le_of_lt hmj)
      rw [hz, Option.some.injEq] at hz'
      subst hz'
      rw [htrailer]
      generalize inst.opcode = header at hop
      cases header <;> cases hop <;> rfl
  interface _ := by
    rw [stageInterface_map (f := fun id => id) h.code_toList (fun _ => rfl) fun _ => rfl, List.map_id']
    exact List.forall₂_same.mpr fun _ _ => .inl rfl
  entry hop := h.entryType_paired (mem_code hinst) hop

/-! ### The simulation -/

omit h in
/-- **A literal that is lowered can be paired with an earlier one** that is equal to it. -/
theorem extend {s t : Lowering} (hs : Twins asm after (PairedBefore asm k) (TypePaired asm) s t)
    (hstand : LiteralsStand asm (k + 1) s) :
    Twins asm after (PairedBefore asm (k + 1)) (TypePaired asm) s t := by
  have hself : ∀ r, PairedBefore asm k r r := fun _ => .inl rfl
  have hpaired : ∀ {r r'}, PairedBefore asm (k + 1) r r' → r' = r ∨
      (∃ n, s.ids.get? r' = some n ∧ s.ids.get? r = some n) ∧ Unplaced r' s ∧ Unplaced r s := by
    rintro r r' (rfl | ⟨i, j, x, y, hij, hjk, hx, hy, rfl, rfl, hxm, hym, hkey⟩)
    · exact .inl rfl
    · have hxs := hstand.stand (by omega) hx hxm
      have hys := hstand.stand hjk hy hym
      exact .inr ⟨hxs.ids_eq hys hkey, hstand.unplaced hx hxm, hstand.unplaced hy hym⟩
  refine { hs with ids := ?_, places := ?_, params := ?_, apart := ?_, kind := ?_, known := ?_ }
  · intro r r' hr
    rcases hpaired hr with rfl | ⟨⟨n, hn', hn⟩, -, -⟩
    · exact hs.ids (hself _)
    · rw [hs.ids (hself r'), hn', hn]
  · intro r r' hr
    rcases hpaired hr with rfl | ⟨-, hr', hr⟩
    · exact hs.places (hself _)
    · rw [hs.places (hself r'), hr'.1, hr.1]
  · intro r r' hr
    rcases hpaired hr with rfl | ⟨-, hr', hr⟩
    · exact hs.params (hself _)
    · rw [hs.params (hself r'), Bool.eq_iff_iff, List.contains_iff_mem, List.contains_iff_mem]
      exact iff_of_false hr'.2 hr.2
  · intro r r' hr hnone q q' hq
    -- What stands for nothing yet is no literal that was lowered.
    obtain rfl : r' = r := by
      rcases hpaired hr with rfl | ⟨⟨n, -, hn⟩, -, -⟩
      · rfl
      · rw [hnone] at hn
        cases hn
    rcases hpaired hq with rfl | ⟨⟨n, hn', hn⟩, -, -⟩
    · rfl
    · refine iff_of_false ?_ ?_ <;> rintro rfl
      · rw [hnone] at hn
        cases hn
      · rw [hnone] at hn'
        cases hn'
  · intro r r' hr
    rcases hpaired hr with rfl | ⟨-, -, hr⟩
    · exact hs.kind (hself _)
    · exact .inr hr.1
  · exact fun {r n} _ => ⟨r, .inl rfl⟩

theorem lowerInstruction {s t : Lowering} (hinst : asm.code[k]? = some inst)
    (hs : InStep asm after k s t) (hclean : (Spirv.lowerInstruction asm k inst s).problems = #[]) :
    InStep asm after (k + 1) (Spirv.lowerInstruction asm k inst s)
      (Spirv.lowerInstruction after k (inst.mapSlots asm.mergedId) t) := by
  have htypes : TypeTwins asm.types after.types (TypePaired asm) :=
    h.redirected.types ▸ typeTwins_self asm
  have hstand := hs.literals.lowerInstruction h.distinct.single hinst hclean
  exact ⟨extend ((h.pair hinst).lowerInstruction htypes hs.twins) hstand, hstand⟩

theorem lowerFrom (hclean : (Spirv.lowerFrom asm 0 asm.code.toList {}).1.problems = #[]) :
    (∃ k, InStep asm after k (Spirv.lowerFrom asm 0 asm.code.toList {}).1
          (Spirv.lowerFrom after 0 after.code.toList {}).1 ∧
        ((Spirv.lowerFrom asm 0 asm.code.toList {}).2 = none → asm.code.toList.length ≤ k)) ∧
      (Spirv.lowerFrom after 0 after.code.toList {}).2 =
        (Spirv.lowerFrom asm 0 asm.code.toList {}).2 := by
  have hempty : Twins asm after (PairedBefore asm 0) (TypePaired asm) {} {} := by
    have heq : ∀ {r r'}, PairedBefore asm 0 r r' → r' = r := by
      rintro r r' (rfl | ⟨_, _, _, _, _, hj, _⟩)
      · rfl
      · cases hj
    refine twins_empty fun hr hq => ?_
    rw [heq hr, heq hq]
  rw [h.code_toList]
  refine lockstep_lowerFrom (w := 0) (S := InStep asm after) (Q := fun s => s.problems = #[])
    (f := fun inst => inst.mapSlots asm.mergedId) problems_of_lowerInstruction (fun hs => hs.twins.stage)
    (fun _ _ => rfl) (fun {k inst s t} hinst hs hclean => ?_) List.drop_zero
    ⟨hempty, literalsStand_empty⟩ hclean
  rw [Array.getElem?_toList] at hinst
  exact h.lowerInstruction hinst hs hclean

theorem words_emitModule (hclean : (lowerAll asm).1.problems = #[]) (major minor : UInt8) :
    (emitModule after major minor).map (·.words) = (emitModule asm major minor).map (·.words) := by
  obtain ⟨⟨k, hstep, -⟩, hfatal⟩ := h.lowerFrom (problems_of_lowerAll hclean)
  have hnames : NameTwins (PairedBefore asm k) asm.names.entries after.names.entries := by
    rw [h.redirected.names]
    generalize asm.names.entries = entries
    induction entries with
    | nil => exact .nil
    | cons e rest ih => exact .cons (.inl rfl) ih
  obtain ⟨hall, hfatal⟩ := twins_lowerAll (w := 0) hnames hstep.twins hfatal
  exact words_emitModule_eq (hall.resolve_left (Lowering.not_lost _)) hfatal major minor

theorem mergedId_resultType (hclean : (lowerAll asm).1.problems = #[])
    (hfatal : (lowerAll asm).2 = none) {i : Nat} (hlit : asm.code[i]? = some lit)
    (hmerge : lit.isMergeable = true) :
    asm.mergedId lit.resultType = lit.resultType := by
  obtain ⟨⟨k, ⟨-, hstand⟩, hlength⟩, -⟩ := h.lowerFrom (problems_of_lowerAll hclean)
  have hik : i < k := by
    have hlt := lt_size_code hlit
    have := hlength (congrArg Prod.snd (lowerFrom_of_snd_eq_none hfatal).2)
    rw [Array.length_toList] at this
    omega
  obtain ⟨type, -, -, -, htype, -⟩ := hstand.stand hik hlit hmerge
  have hknown := hstand.types htype
  rcases h.typePaired lit.resultType with heq | ⟨hnone, -⟩
  · exact heq
  · rw [TypeRegistry.ofId?, hnone] at hknown
    cases hknown

theorem not_repeatsLiteral (hclean : (lowerAll asm).1.problems = #[])
    (hfatal : (lowerAll asm).2 = none) (hinst : inst ∈ after.code.toList)
    (hr : r ∈ inst.slots) : ¬ after.RepeatsLiteral r := by
  rw [h.code_toList] at hinst
  obtain ⟨inst, -, rfl⟩ := List.mem_map.mp hinst
  obtain ⟨q, rfl⟩ : ∃ q, asm.mergedId q = r := by
    rcases Instruction.mem_slots.mp hr with rfl | rfl | rfl | rfl <;> exact ⟨_, rfl⟩
  rintro ⟨i, j, x', y', hij, hx', hy', hxz, hyid, hyz, hmerge, hkey⟩
  rw [h.redirected.code, Array.getElem?_map] at hx' hy'
  obtain ⟨x, hx, rfl⟩ := Option.map_eq_some_iff.mp hx'
  obtain ⟨y, hy, rfl⟩ := Option.map_eq_some_iff.mp hy'
  have hop : x.opcode = y.opcode := congrArg (·.1) hkey
  have htype : asm.mergedId x.resultType = asm.mergedId y.resultType := congrArg (·.2.2) hkey
  have hxm : x.isMergeable = true := isMergeable_iff.mpr ⟨hxz, hop ▸ hmerge⟩
  have hym : y.isMergeable = true := isMergeable_iff.mpr ⟨hyid ▸ hyz, hmerge⟩
  rw [h.mergedId_resultType hclean hfatal hx hxm, h.mergedId_resultType hclean hfatal hy hym] at htype
  have hoperands : x.operands = y.operands := congrArg (·.2.1) hkey
  exact h.distinct.not_repeatsLiteral_mergedId q ⟨i, j, x, y, hij, hx, hy, hxz, hyid, hyz, hmerge,
    Prod.ext hop (Prod.ext hoperands htype)⟩

end Merges

/-! ## The emitted module -/

/-- **Merging literals leaves the words of a clean module alone**, and afterwards no slot of the
    stream refers to a literal that repeats an earlier one, if the stream is in order. -/
theorem words_emitModule_mergeLiterals {asm : Assembler} {major minor : UInt8} {e : Emission}
    (hreach : Reached (fun _ => True) asm) (hseq : Sequenced asm)
    (h : emitModule asm major minor = .ok e) (hclean : e.isClean = true) :
    (emitModule asm.mergeLiterals.2 major minor).map (·.words) = .ok e.words ∧
      ∀ inst ∈ asm.mergeLiterals.2.code.toList, ∀ r ∈ inst.slots,
        ¬ asm.mergeLiterals.2.RepeatsLiteral r := by
  have hmerges := merges_mergeLiterals hreach hseq
  obtain ⟨hfatal, hproblems, -, -⟩ := (isClean_iff h).mp hclean
  refine ⟨?_, fun inst hinst r hr => hmerges.not_repeatsLiteral hproblems hfatal hinst hr⟩
  rw [hmerges.words_emitModule hproblems, h]
  rfl

def repeatedNullRun : List Operation :=
  [.pushType { opcode := .floatType, operands := ⟨32, 0, 0⟩ },
    .pushType { opcode := .vectorType, operands := ⟨2, 0, 0⟩, refs := ⟨⟨1⟩, .void, .void⟩ },
    .pushNew { opcode := .null, resultType := ⟨1⟩ },
    .pushNew { opcode := .function, refs := ⟨⟨2⟩, .void, .void⟩ },
    .pushNew { opcode := .null, resultType := ⟨1⟩ }, .pushNew
      { opcode := .binary, operands := ⟨1, 0, 0⟩, refs := ⟨⟨3⟩, ⟨5⟩, .void⟩, resultType := ⟨1⟩ },
    .pushNew { opcode := .construct, operands := ⟨2, 0, 0⟩, resultType := ⟨2⟩ },
    .push { opcode := .constructArg, refs := ⟨⟨5⟩, .void, .void⟩ },
    .push { opcode := .constructArg, refs := ⟨⟨6⟩, .void, .void⟩ },
    .push { opcode := .retValue, refs := ⟨⟨7⟩, .void, .void⟩ },
    .push { opcode := .functionEnd, refs := ⟨⟨4⟩, .void, .void⟩ }]

theorem sequenced_repeatedNullRun : Sequenced (runAll repeatedNullRun) where
  toAccounted := .of_checks (by decide +kernel) (by decide +kernel) (by decide +kernel)
  ordered := refersBack_of_checks (by decide +kernel)
  complete := definitionsComplete_of_reached (.runAll (by decide +kernel))
  entries := by unfold EntriesAgree; decide +kernel

theorem words_emitModule_mergeLiterals_repeatedNullRun :
    Reached (fun _ => True) (runAll repeatedNullRun) ∧ Sequenced (runAll repeatedNullRun) ∧
      (runAll repeatedNullRun).mergeLiterals.1 = 2 ∧
      ∃ e, emitModule (runAll repeatedNullRun) 1 5 = .ok e ∧ e.isClean = true ∧
        (emitModule (runAll repeatedNullRun).mergeLiterals.2 1 5).map (·.words) = .ok e.words ∧
        ∀ inst ∈ (runAll repeatedNullRun).mergeLiterals.2.code.toList, ∀ r ∈ inst.slots,
          ¬ (runAll repeatedNullRun).mergeLiterals.2.RepeatsLiteral r := by
  have hreach : Reached (fun _ => True) (runAll repeatedNullRun) := .runAll (by decide +kernel)
  have hrun : (emitModule (runAll repeatedNullRun) 1 5).toOption.map (·.isClean) = some true := by
    decide +kernel
  refine ⟨hreach, sequenced_repeatedNullRun, by decide +kernel, ?_⟩
  obtain ⟨e, h, hclean⟩ := exists_emission hrun
  obtain ⟨hwords, hslots⟩ :=
    words_emitModule_mergeLiterals hreach sequenced_repeatedNullRun h hclean
  exact ⟨e, h, hclean, hwords, hslots⟩

theorem exists_clean_words_ne {asm after : Assembler} {n m : Nat} (hne : n ≠ m)
    (hrun : (emitModule asm 1 5).toOption.map (fun e => (e.isClean, e.words.length)) =
      some (true, n))
    (hafter : (emitModule after 1 5).toOption.map (fun e => e.words.length) = some m) :
    ∃ e, emitModule asm 1 5 = .ok e ∧ e.isClean = true ∧
      (emitModule after 1 5).map (·.words) ≠ .ok e.words := by
  obtain ⟨e, h, hrun⟩ := exists_emission hrun
  obtain ⟨hclean, hlength⟩ := Prod.mk.inj hrun
  refine ⟨e, h, hclean, fun heq => hne ?_⟩
  cases h' : emitModule after 1 5 with
  | error e' => rw [h'] at hafter; cases hafter
  | ok e' =>
    rw [h'] at hafter heq
    have hwords : e'.words = e.words := Except.ok.inj heq
    have hlength' : e'.words.length = m := Option.some.inj hafter
    rw [← hlength, ← hlength', hwords]

/-- A stage whose entry function is a literal, the second of two that differ in a reference. -/
def entryLiteralRun : List Operation :=
  [.pushType { opcode := .floatType, operands := ⟨32, 0, 0⟩ },
    .pushType { opcode := .vectorType, operands := ⟨4, 0, 0⟩, refs := ⟨⟨1⟩, .void, .void⟩ },
    .pushNew { opcode := .null, resultType := ⟨1⟩ },
    .pushNew { opcode := .null, refs := ⟨⟨2⟩, .void, .void⟩, resultType := ⟨1⟩ },
    .pushNew { opcode := .stageBegin, operands := ⟨1, 0, 0⟩ },
    .push { opcode := .stageEnd, refs := ⟨⟨4⟩, .void, .void⟩ }]

/-- A truth value that is pushed before its id is allocated, another one, and a cast of the latter.
    -/
def earlyNullRun : List Operation :=
  [.pushType { opcode := .boolType }, .push { opcode := .null, id := ⟨2⟩, resultType := ⟨1⟩ },
    .create .null, .pushNew { opcode := .null, resultType := ⟨1⟩ },
    .pushType { opcode := .uintType, operands := ⟨32, 0, 0⟩ },
    .pushNew { opcode := .function, refs := ⟨⟨1⟩, .void, .void⟩ },
    .pushNew { opcode := .cast, refs := ⟨⟨3⟩, .void, .void⟩, resultType := ⟨4⟩ },
    .push { opcode := .functionEnd, refs := ⟨⟨5⟩, .void, .void⟩ }]

/-- The entry function of a stage returns the type that its first reference names, which the first
    of two equal literals need not have; and the first one may have no definition in the table. -/
theorem words_emitModule_mergeLiterals_ne : (Reached (fun _ => True) (runAll entryLiteralRun) ∧
      (runAll entryLiteralRun).Accounted ∧ RefersBack (runAll entryLiteralRun) ∧
      (runAll entryLiteralRun).DefinitionsComplete ∧
      ∃ e, emitModule (runAll entryLiteralRun) 1 5 = .ok e ∧ e.isClean = true ∧
        (emitModule (runAll entryLiteralRun).mergeLiterals.2 1 5).map (·.words) ≠ .ok e.words) ∧
    (Reached (fun _ => True) (runAll earlyNullRun) ∧
      (runAll earlyNullRun).Accounted ∧ RefersBack (runAll earlyNullRun) ∧
      EntriesAgree (runAll earlyNullRun) ∧
      ∃ e, emitModule (runAll earlyNullRun) 1 5 = .ok e ∧ e.isClean = true ∧
        (emitModule (runAll earlyNullRun).mergeLiterals.2 1 5).map (·.words) ≠ .ok e.words) := by
  refine ⟨⟨.runAll (by decide +kernel), ?_, ?_, ?_, ?_⟩, .runAll (by decide +kernel), ?_, ?_, ?_, ?_⟩
  · exact .of_checks (by decide +kernel) (by decide +kernel) (by decide +kernel)
  · exact refersBack_of_checks (by decide +kernel)
  · exact definitionsComplete_of_reached (.runAll (by decide +kernel))
  · exact exists_clean_words_ne (n := 150) (m := 47) (by decide) (by decide +kernel) (by decide +kernel)
  · exact .of_checks (by decide +kernel) (by decide +kernel) (by decide +kernel)
  · exact refersBack_of_checks (by decide +kernel)
  · unfold EntriesAgree
    decide +kernel
  · exact exists_clean_words_ne (n := 47) (m := 33) (by decide) (by decide +kernel) (by decide +kernel)

end ShaderIR.Spirv
