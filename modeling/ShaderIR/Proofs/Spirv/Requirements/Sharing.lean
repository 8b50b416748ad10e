import ShaderIR.Proofs.Spirv.Discipline
import ShaderIR.Proofs.Spirv.Limits

/-!
# Ids of a module and what they stand for

An id keeps its meaning while the module grows: it stays a constant or stays none, and a shared type
keeps its id.  So **each shape of a built-in has one type**.
-/

namespace ShaderIR.Spirv

open Discipline

variable {operands : List Operand} {sec : Section} {op : Op}

/-! ## Sizes -/

def textFits (count : Nat) (s : String) : Bool := count + (packText s).length ≤ maxOperandWords

theorem fits_import (n : ModuleId) (s : String) :
    Inst.fits { op := .extInstImport, result := some n, operands := [.text s] } = textFits 1 s := by
  simp [Inst.fits, WordLimit.words, Inst.operandWords, textFits, Operand.words, Nat.add_comm]

theorem fits_name (n : ModuleId) (s : String) :
    Inst.fits { op := .name, operands := [.id n, .text s] } = textFits 1 s := by
  simp [Inst.fits, WordLimit.words, Inst.operandWords, textFits, Operand.words, Nat.add_comm]

theorem fits_memberName (n : ModuleId) (i : UInt32) (s : String) :
    Inst.fits { op := .memberName, operands := [.id n, .literal i, .text s] } = textFits 2 s := by
  simp only [Inst.fits, Inst.operandWords, textFits, Operand.words, List.flatMap_cons,
    List.flatMap_nil, List.length_append, List.length_cons, List.length_nil, Option.toList_none,
    List.append_nil, List.map_nil]
  congr 2
  omega

namespace Module

/-! ## The invariant -/

def Whole (m : Module) : Prop := m.oversized = #[]

/-- What the tables of a module say of its ids. -/
structure Tables (m : Module) : Prop where
  type_lt : ∀ {key n}, m.typeIds.get? key = some n → n < m.nextId
  type_inj : ∀ {key key' n}, m.typeIds.get? key = some n → m.typeIds.get? key' = some n → key = key'
  component_lt : ∀ {c lanes n}, m.typeIds.get? (.typeVector, [.id c, .literal lanes]) = some n → c < n
  constant_lt : ∀ {n}, m.isConstant n = true → n < m.nextId
  fits : ∀ {op operands n}, m.typeIds.get? (op, operands) = some n →
    Inst.fits { op, result := some n, operands } = true

theorem tables_empty : Tables {} where
  type_lt h := by cases h
  type_inj h := by cases h
  component_lt h := by cases h
  constant_lt h := by cases h
  fits h := by cases h

/-- Growth that changes the meaning of no id. -/
structure GrowsTo (m m' : Module) : Prop where
  nextId : m.nextId ≤ m'.nextId
  constant : ∀ n, n < m.nextId → m'.isConstant n = m.isConstant n
  type : ∀ {key n}, m.typeIds.get? key = some n → m'.typeIds.get? key = some n
  type_old : ∀ {key n}, m'.typeIds.get? key = some n → n < m.nextId → m.typeIds.get? key = some n

theorem GrowsTo.refl (m : Module) : m.GrowsTo m :=
  ⟨Nat.le_refl _, fun _ _ => rfl, id, fun h _ => h⟩

theorem GrowsTo.trans {m1 m2 m3 : Module} (h1 : m1.GrowsTo m2) (h2 : m2.GrowsTo m3) :
    m1.GrowsTo m3 where
  nextId := Nat.le_trans h1.nextId h2.nextId
  constant n hn := (h2.constant n (Nat.lt_of_lt_of_le hn h1.nextId)).trans (h1.constant n hn)
  type h := h2.type (h1.type h)
  type_old h hn := h1.type_old (h2.type_old h (Nat.lt_of_lt_of_le hn h1.nextId)) hn

/-- The id `n` is in use, and `constant` says whether it is that of a constant. -/
def Stands (m : Module) (n : ModuleId) (constant : Bool) : Prop :=
  n < m.nextId ∧ m.isConstant n = constant

theorem Stands.grow {m m' : Module} {n : ModuleId} {constant : Bool} (h : m.Stands n constant)
    (hgrows : m.GrowsTo m') : m'.Stands n constant :=
  ⟨Nat.lt_of_lt_of_le h.1 hgrows.nextId, (hgrows.constant n h.1).trans h.2⟩

end Module

/-- Ids keep their meaning while a module is built and everything is written. -/
def sharing : Discipline Module where
  Inv m := m.Whole → m.Tables
  Grows m m' := m'.oversized = m.oversized ∧ (m.Whole → m.GrowsTo m')
  refl m := ⟨rfl, fun _ => .refl m⟩
  trans h1 h2 := ⟨h2.1.trans h1.1, fun h => (h1.2 h).trans (h2.2 (h1.1.trans h))⟩

/-! ## Steps of building -/

namespace Build

open Spirv.Module

variable {α : Type} {m : Module}

theorem sharing_of {x : Build α} {Q : α → Module → Prop}
    (hover : (x.run m).2.oversized = m.oversized)
    (h : m.Whole → m.Tables → m.GrowsTo (x.run m).2 ∧ (x.run m).2.Tables ∧
      Q (x.run m).1 (x.run m).2) :
    sharing.Runs x m fun a m' => m'.Whole → Q a m' := by
  intro hm
  have hall : m.Whole → _ := fun hwhole => h hwhole (hm hwhole)
  exact ⟨⟨hover, fun hwhole => (hall hwhole).1⟩, fun hwhole => (hall (hover.symm.trans hwhole)).2.1,
    fun hwhole => (hall (hover.symm.trans hwhole)).2.2⟩

theorem sharing_aside {x : Build α} (h : ∀ m : Module,
    (x.run m).2.nextId = m.nextId ∧ (x.run m).2.typeIds = m.typeIds ∧
      (x.run m).2.constantIds = m.constantIds ∧ (x.run m).2.oversized = m.oversized) :
    sharing.Keeps x := by
  intro m
  obtain ⟨hnext, htypes, hconstants, hover⟩ := h m
  have hconstant : ∀ n, (x.run m).2.isConstant n = m.isConstant n := by
    intro n
    rw [isConstant, hconstants, isConstant]
  refine (sharing_of (Q := fun _ _ => True) hover fun _ hm => ⟨⟨Nat.le_of_eq hnext.symm,
    fun n _ => hconstant n, fun h => ?_, fun h _ => ?_⟩,
    ⟨fun h => ?_, fun h h' => ?_, fun h => ?_, fun h => ?_, fun h => ?_⟩, trivial⟩).weaken
  · rw [htypes]; exact h
  · rw [htypes] at h; exact h
  · rw [htypes] at h; rw [hnext]; exact hm.type_lt h
  · rw [htypes] at h h'; exact hm.type_inj h h'
  · rw [htypes] at h; exact hm.component_lt h
  · rw [hconstant] at h; rw [hnext]; exact hm.constant_lt h
  · rw [htypes] at h; exact hm.fits h

theorem sharing_emit {inst : Inst} (h : inst.fits = true) : sharing.Keeps (emit sec inst) := by
  refine sharing_aside fun m => ?_
  have hemit : ((emit sec inst).run m).2 = m.append #[inst] sec := if_pos h
  rw [hemit]
  cases sec <;> exact ⟨rfl, rfl, rfl, rfl⟩

theorem sharing_fresh : sharing.Runs fresh m fun n m' => m'.Whole → m'.Stands n false := by
  refine sharing_of (Q := fun n m' => m'.Stands n false) rfl fun _ hm => ?_
  have hnew : m.isConstant m.nextId = false := by
    rw [Bool.eq_false_iff]
    exact fun h => Nat.lt_irrefl _ (hm.constant_lt h)
  exact ⟨⟨Nat.le_succ _, fun _ _ => rfl, fun h => h, fun h _ => h⟩,
    ⟨fun h => Nat.lt_succ_of_lt (hm.type_lt h), hm.type_inj, hm.component_lt,
      fun h => Nat.lt_succ_of_lt (hm.constant_lt h), hm.fits⟩, Nat.lt_succ_self _, hnew⟩

/-- What a step that only hands out an id and writes leaves. -/
def Declared (m : Module) (n : ModuleId) (m' : Module) : Prop :=
  n = m.nextId ∧ m'.typeIds = m.typeIds ∧ m'.constantIds = m.constantIds ∧ (m'.Whole → m'.Stands n false)

/-- A new id and the instruction that defines it; what is shared stays as it is. -/
theorem sharing_declare {inst : ModuleId → Inst} (hfits : ∀ n, (inst n).fits = true) :
    sharing.Runs (do
      let id ← fresh
      emit sec (inst id)
      pure id) m (Declared m) := by
  have hsame : ∀ m1 : Module, ((emit sec (inst m.nextId)).run m1).2.typeIds = m1.typeIds ∧
      ((emit sec (inst m.nextId)).run m1).2.constantIds = m1.constantIds := by
    intro m1
    have hemit : ((emit sec (inst m.nextId)).run m1).2 = m1.append #[inst m.nextId] sec :=
      if_pos (hfits _)
    rw [hemit]
    cases sec <;> exact ⟨rfl, rfl⟩
  have hfresh : sharing.Runs fresh m (Declared m) := by
    intro hm
    obtain ⟨hgrows, htables, hn⟩ := sharing_fresh hm
    exact ⟨hgrows, htables, rfl, rfl, rfl, hn⟩
  refine hfresh.bind fun n m1 _ hn => ?_
  obtain ⟨rfl, htypes, hconstants, hstands⟩ := hn
  refine .bind (Q := fun _ m2 => Declared m m.nextId m2) ?_ fun _ m2 _ h => .pure h
  intro hm1
  obtain ⟨hgrows, htables, -⟩ := sharing_emit (hfits m.nextId) m1 hm1
  refine ⟨hgrows, htables, rfl, (hsame m1).1.trans htypes, (hsame m1).2.trans hconstants, fun hwhole => ?_⟩
  have hwhole1 := hgrows.1.symm.trans hwhole
  exact (hstands hwhole1).grow (hgrows.2 hwhole1)

theorem sharing_newType (hfits : ∀ n, Inst.fits { op, result := some n, operands } = true) :
    sharing.Runs (newType op operands) m (Declared m) := sharing_declare hfits

/-- What is noted of a new id leaves everything else as it is, and `Q` is known afterwards. -/
def NotedAs (m : Module) (note : ModuleId → Module → Module) (Q : ModuleId → Module → Prop) :
    Prop :=
  ∀ m1, m.Whole → m.Tables → m.GrowsTo m1 → m1.Tables → m1.Stands m.nextId false →
    m1.typeIds = m.typeIds → m1.constantIds = m.constantIds →
      m.GrowsTo (note m.nextId m1) ∧ (note m.nextId m1).Tables ∧ Q m.nextId (note m.nextId m1)

theorem sharing_noted {x : Build ModuleId} {note : ModuleId → Module → Module}
    (hx : sharing.Runs x m (Declared m)) {Q : ModuleId → Module → Prop}
    (hover : ∀ n m1, (note n m1).oversized = m1.oversized) (hnote : NotedAs m note Q) :
    sharing.Runs (do
      let id ← x
      modify (note id)
      pure id) m fun n m' => m'.Whole → Q n m' := by
  intro hm
  obtain ⟨hgrows, htables, hn, htypes, hconstants, hstands⟩ := hx hm
  refine sharing_of (Q := Q) ((hover _ _).trans hgrows.1) (fun hwhole hm => ?_) hm
  have hwhole1 := hgrows.1.trans hwhole
  have hall := hnote _ hwhole hm (hgrows.2 hwhole) (htables hwhole1) (hn ▸ hstands hwhole1) htypes hconstants
  rw [← hn] at hall
  exact hall

theorem sharing_declareNoted {inst : ModuleId → Inst} {note : ModuleId → Module → Module}
    (hfits : ∀ n, (inst n).fits = true) {Q : ModuleId → Module → Prop}
    (hover : ∀ n m1, (note n m1).oversized = m1.oversized) (hnote : NotedAs m note Q) :
    sharing.Runs (do
      let id ← fresh
      emit sec (inst id)
      modify (note id)
      pure id) m fun n m' => m'.Whole → Q n m' := sharing_noted (sharing_declare hfits) hover hnote

theorem whole_of_runs {x : Build α} {Q : α → Module → Prop} (h : sharing.Runs x m Q)
    (hwhole : (x.run m).2.Whole) : m.Whole :=
  Classical.byContradiction fun hnot =>
    hnot ((h fun hm => absurd hm hnot).1.1.symm.trans hwhole)

theorem whole_before {x y : Build α} [h : Builds 1 x y] (hwhole : (x.run m).2.Whole) : m.Whole :=
  Classical.byContradiction fun hm => (h.alike.keeps m ⟨Nat.one_pos, hm⟩).2 hwhole

theorem not_whole_emit {i : Inst} (h : ¬ i.fits = true) : ¬ ((emit sec i).run m).2.Whole := by
  have hemit : ((emit sec i).run m).2 = { m with oversized := m.oversized.push i.oversized } :=
    if_neg h
  rw [hemit]
  exact Array.push_ne_empty

theorem not_whole_type (hm : m.Tables)
    (hfits : ∀ n, ¬ Inst.fits { op, result := some n, operands } = true) :
    ¬ ((type op operands).run m).2.Whole := by
  rw [type, StateT.run_bind, StateT.run_get]
  show ¬ (StateT.run (m := Id) _ m).2.Whole
  cases hknown : m.typeIds.get? (op, operands) with
  | some n => exact absurd (hm.fits hknown) (hfits n)
  | none =>
    have hnew : ((newType op operands).run m).2 = Module.emit { m with nextId := m.nextId + 1 } .types
        { op, result := some m.nextId, operands } := rfl
    show ¬ ((newType op operands).run m).2.oversized = #[]
    rw [hnew, Module.emit, if_neg (hfits _)]
    exact Array.push_ne_empty

def Shared (m : Module) (key : Op × List Operand) (n : ModuleId) : Prop :=
  n < m.nextId ∧ m.typeIds.get? key = some n

/-- **A shared type has one id.**  Of a vector the component has to be in use already. -/
theorem sharing_type (hfits : ∀ n, Inst.fits { op, result := some n, operands } = true)
    (hvector : ∀ c lanes, (op, operands) = (.typeVector, [.id c, .literal lanes]) → m.Whole →
      c < m.nextId) :
    sharing.Runs (type op operands) m fun n m' => m'.Whole → Shared m' (op, operands) n := by
  refine .get_bind ?_
  cases hknown : m.typeIds.get? (op, operands) with
  | some n =>
    exact .of_inv fun hm => .pure fun hwhole => ⟨(hm hwhole).type_lt hknown, hknown⟩
  | none =>
    refine sharing_noted (Q := fun n m' => Shared m' (op, operands) n) (sharing_newType hfits)
      (fun _ _ => rfl) fun m1 hwhole hm h1 hm1 hn htypes _ => ?_
    -- After the note a key has the id it had before, or it is the new one.
    have hget : ∀ {key k}, (m1.typeIds.insert (op, operands) m.nextId).get? key = some k →
        key = (op, operands) ∧ k = m.nextId ∨ m.typeIds.get? key = some k := by
      intro key k h
      rw [htypes] at h
      exact Table.get?_insert_cases h
    refine ⟨⟨h1.nextId, h1.constant, fun {key k} h => ?_, fun {key k} h hk => ?_⟩,
      ⟨fun h => ?_, fun h h' => ?_, fun h => ?_, hm1.constant_lt, fun h => ?_⟩, hn.1, ?_⟩
    · rw [← htypes] at hknown h
      exact Table.get?_insert_of_none hknown h
    · rcases hget h with ⟨-, rfl⟩ | hold
      · exact absurd hk (Nat.lt_irrefl _)
      · exact hold
    · rcases hget h with ⟨-, rfl⟩ | hold
      · exact hn.1
      · exact Nat.lt_of_lt_of_le (hm.type_lt hold) h1.nextId
    · rcases hget h with ⟨rfl, rfl⟩ | hold
      · rcases hget h' with ⟨rfl, -⟩ | hold'
        · rfl
        · exact absurd (hm.type_lt hold') (Nat.lt_irrefl _)
      · rcases hget h' with ⟨rfl, rfl⟩ | hold'
        · exact absurd (hm.type_lt hold) (Nat.lt_irrefl _)
        · exact hm.type_inj hold hold'
    · rcases hget h with ⟨hkey, rfl⟩ | hold
      · exact hvector _ _ hkey.symm hwhole
      · exact hm.component_lt hold
    · rcases hget h with ⟨hkey, rfl⟩ | hold
      · cases hkey
        exact hfits _
      · exact hm.fits hold
    · exact Table.get?_insert_self

theorem isConstant_of_get? {key : Op × ModuleId × List Operand} {n : ModuleId}
    (h : m.constantIds.get? key = some n) : m.isConstant n = true :=
  List.any_eq_true.mpr ⟨_, Table.mem_of_get? h, beq_self_eq_true n⟩

theorem isConstant_insert {key : Op × ModuleId × List Operand} {n : ModuleId}
    (h : m.constantIds.get? key = none) (k : ModuleId) :
    isConstant { m with constantIds := m.constantIds.insert key n } k =
      (n == k || m.isConstant k) := by
  have hfilter : m.constantIds.entries.filter (fun e => e.1 ≠ key) = m.constantIds.entries := by
    refine List.filter_eq_self.mpr fun e he => decide_eq_true fun hkey => ?_
    rw [Table.get?, Option.map_eq_none_iff, List.find?_eq_none] at h
    exact h e he (decide_eq_true hkey)
  show ((key, n) :: m.constantIds.entries.filter fun e => e.1 ≠ key).any _ = _
  rw [hfilter, List.any_cons]
  rfl

theorem sharing_constantIn {type : ModuleId}
    (hfits : ∀ n, Inst.fits { op, resultType := some type, result := some n, operands } = true) :
    sharing.Runs (constantIn sec type op operands) m fun n m' => m'.Whole → m'.Stands n true := by
  refine .get_bind ?_
  cases hknown : m.constantIds.get? (op, type, operands) with
  | some n =>
    have hconstant := isConstant_of_get? hknown
    exact .of_inv fun hm => .pure fun hwhole => ⟨(hm hwhole).constant_lt hconstant, hconstant⟩
  | none =>
    refine sharing_declareNoted (Q := fun n m' => m'.Stands n true) hfits (fun _ _ => rfl)
      fun m1 _ hm h1 hm1 hn _ hconstants => ?_
    have hinsert := isConstant_insert (m := m1) (n := m.nextId) (hconstants ▸ hknown)
    refine ⟨{ h1 with constant := fun k hk => ?_ },
      { hm1 with constant_lt := fun {k} h => ?_ }, hn.1, ?_⟩
    · have hne : (m.nextId == k) = false := beq_false_of_ne (Nat.ne_of_gt hk)
      rw [hinsert, hne, Bool.false_or]
      exact h1.constant k hk
    · rw [hinsert] at h
      rcases Bool.or_eq_true_iff.mp h with h | h
      · rw [← eq_of_beq h]
        exact hn.1
      · exact hm1.constant_lt h
    · rw [hinsert, beq_self_eq_true, Bool.true_or]

/-! ### Types and constants of fixed size -/

theorem sharing_plainType
    (hfits : ∀ n, Inst.fits { op, result := some n, operands } = true) (hop : op ≠ .typeVector) :
    sharing.Runs (type op operands) m fun n m' => m'.Whole → Shared m' (op, operands) n :=
  sharing_type hfits fun _ _ h => absurd (congrArg Prod.fst h) hop

theorem sharing_voidType :
    sharing.Runs voidType m fun n m' => m'.Whole → Shared m' (.typeVoid, []) n :=
  sharing_plainType (fun _ => rfl) nofun

theorem sharing_boolType :
    sharing.Runs boolType m fun n m' => m'.Whole → Shared m' (.typeBool, []) n :=
  sharing_plainType (fun _ => rfl) nofun

theorem sharing_requireCapability (c : Capability) : sharing.Keeps (requireCapability c) :=
  sharing_aside fun _ => ⟨rfl, rfl, rfl, rfl⟩

theorem sharing_intType (width : UInt32) (signed : Bool) :
    sharing.Runs (intType width signed) m fun n m' => m'.Whole →
      Shared m' (.typeInt, [.literal width, .literal (if signed then 1 else 0)]) n :=
  (Keeps.forM_option sharing_requireCapability m).bind fun _ _ _ _ =>
    sharing_plainType (fun _ => rfl) nofun

theorem sharing_floatType (width : UInt32) : sharing.Runs (floatType width) m fun n m' => m'.Whole →
      Shared m' (.typeFloat, [.literal width]) n :=
  (Keeps.forM_option sharing_requireCapability m).bind fun _ _ _ _ =>
    sharing_plainType (fun _ => rfl) nofun

theorem sharing_vectorType {component : ModuleId} (lanes : UInt32)
    (h : m.Whole → component < m.nextId) :
    sharing.Runs (vectorType component lanes) m fun n m' => m'.Whole →
      Shared m' (.typeVector, [.id component, .literal lanes]) n :=
  sharing_type (fun _ => rfl) fun _ _ heq => by cases heq; exact h

theorem sharing_pointerType (storage : StorageClass) (pointee : ModuleId) :
    sharing.Runs (pointerType storage pointee) m fun n m' => m'.Whole →
      Shared m' (.typePointer, [.literal storage.code, .id pointee]) n :=
  sharing_plainType (fun _ => rfl) nofun

theorem length_flatMap_literal (words : List UInt32) :
    ((words.map Operand.literal).flatMap Operand.words).length = words.length := by
  induction words with
  | nil => rfl
  | cons w rest ih => exact congrArg (· + 1) ih

theorem length_flatMap_id (ids : List ModuleId) :
    ((ids.map Operand.id).flatMap Operand.words).length = ids.length := by
  induction ids with
  | nil => rfl
  | cons n rest ih => exact congrArg (· + 1) ih

theorem sharing_number {type : ModuleId} {words : List UInt32} (h : words.length ≤ 2) :
    sharing.Runs (number type words) m fun n m' => m'.Whole → m'.Stands n true := by
  refine sharing_constantIn fun n => decide_eq_true ?_
  show ([type, n].map (·.toUInt32) ++ (words.map Operand.literal).flatMap Operand.words).length ≤ _
  rw [List.length_append, length_flatMap_literal]
  show 2 + words.length ≤ maxOperandWords
  unfold maxOperandWords
  omega

theorem sharing_word (signed : Bool) (w : UInt32) :
    sharing.Runs (word signed w) m fun n m' => m'.Whole → m'.Stands n true :=
  (sharing_intType 32 signed).bind fun _ _ _ _ => sharing_number (Nat.le_succ 1)

theorem sharing_null (type : ModuleId) :
    sharing.Runs (null type) m fun n m' => m'.Whole → m'.Stands n true :=
  sharing_constantIn fun _ => rfl

theorem sharing_arrayType (element : ModuleId) (length : UInt32) :
    sharing.Runs (arrayType element length) m fun n m' => m'.Whole →
      ∃ count, Shared m' (.typeArray, [.id element, .id count]) n := by
  refine (sharing_intType 32 false).bind fun type m1 _ _ => ?_
  refine (sharing_constantIn fun _ => rfl).bind fun count m2 _ _ => ?_
  have htype : sharing.Runs (Build.type .typeArray [.id element, .id count]) m2 _ :=
    sharing_plainType (fun _ => rfl) nofun
  exact htype.mono fun n m' _ hn hwhole => ⟨count, hn hwhole⟩

theorem sharing_extInstSet : sharing.Keeps extInstSet := by
  refine .get_bind fun m => ?_
  split
  · exact .pure _
  · refine .bind (fun m => sharing_fresh.weaken) fun n => ?_
    refine .bind (sharing_emit ?_) fun _ => ?_
    · rw [fits_import]
      decide +kernel
    exact .bind (sharing_aside fun _ => ⟨rfl, rfl, rfl, rfl⟩) fun _ => .pure _

theorem sharing_markBlock (id : ModuleId) : sharing.Keeps (markBlock id) := by
  refine .get_bind fun m => ?_
  split
  · exact .pure ()
  · exact .bind (sharing_aside fun _ => ⟨rfl, rfl, rfl, rfl⟩) fun _ => sharing_emit rfl

end Build

/-! ## Shapes of built-ins -/

/-- How a module declares the scalars of built-ins. -/
def BuiltInScalar.key : BuiltInScalar → Op × List Operand
  | .bool => (.typeBool, [])
  | .int => (.typeInt, [.literal 32, .literal 1])
  | .uint => (.typeInt, [.literal 32, .literal 0])
  | .float => (.typeFloat, [.literal 32])

theorem BuiltInScalar.key_ne_vector (a : BuiltInScalar) : a.key.1 ≠ .typeVector := by
  cases a <;> decide

namespace Module

def Shaped (m : Module) (shape : BuiltInShape) (n : ModuleId) : Prop :=
  if shape.lanes = 1 then m.typeIds.get? shape.scalar.key = some n
  else ∃ c, m.typeIds.get? shape.scalar.key = some c ∧
    m.typeIds.get? (.typeVector, [.id c, .literal shape.lanes]) = some n

variable {m m' : Module} {shape : BuiltInShape} {n n' : ModuleId}

theorem Shaped.unique (h : m.Shaped shape n) (h' : m.Shaped shape n') : n = n' := by
  unfold Shaped at h h'
  split at h
  next hone =>
    rw [if_pos hone] at h'
    exact Option.some.inj (h.symm.trans h')
  next hmany =>
    rw [if_neg hmany] at h'
    obtain ⟨c, hc, hn⟩ := h
    obtain ⟨c', hc', hn'⟩ := h'
    cases Option.some.inj (hc.symm.trans hc')
    exact Option.some.inj (hn.symm.trans hn')

theorem Shaped.grow (h : m.Shaped shape n) (hgrows : m.GrowsTo m') : m'.Shaped shape n := by
  unfold Shaped at h ⊢
  split
  next hone =>
    rw [if_pos hone] at h
    exact hgrows.type h
  next hmany =>
    rw [if_neg hmany] at h
    obtain ⟨c, hc, hn⟩ := h
    exact ⟨c, hgrows.type hc, hgrows.type hn⟩

theorem GrowsTo.shaped_iff (h : m.GrowsTo m') (hm : m.Tables) (hn : n < m.nextId) :
    m'.Shaped shape n ↔ m.Shaped shape n := by
  refine ⟨fun hshaped => ?_, fun hshaped => hshaped.grow h⟩
  unfold Shaped at hshaped ⊢
  split
  next hone =>
    rw [if_pos hone] at hshaped
    exact h.type_old hshaped hn
  next hmany =>
    rw [if_neg hmany] at hshaped
    obtain ⟨c, hc, hv⟩ := hshaped
    have hv := h.type_old hv hn
    exact ⟨c, h.type_old hc (Nat.lt_trans (hm.component_lt hv) hn), hv⟩

theorem Tables.shaped_plain (hm : m.Tables) {key : Op × List Operand} (hkey : key.1 ≠ .typeVector)
    (hn : m.typeIds.get? key = some n) :
    m.Shaped shape n ↔ shape.lanes = 1 ∧ shape.scalar.key = key := by
  unfold Shaped
  split
  next hone =>
    exact ⟨fun h => ⟨hone, hm.type_inj h hn⟩, fun h => by rw [h.2]; exact hn⟩
  next hmany =>
    refine ⟨?_, fun h => absurd h.1 hmany⟩
    rintro ⟨c, -, hv⟩
    exact absurd (congrArg Prod.fst (hm.type_inj hn hv)) hkey

theorem Tables.shaped_vector (hm : m.Tables) {c : ModuleId} {lanes : UInt32}
    (hn : m.typeIds.get? (.typeVector, [.id c, .literal lanes]) = some n) : m.Shaped shape n ↔
      shape.lanes = lanes ∧ lanes ≠ 1 ∧ m.Shaped ⟨shape.scalar, 1⟩ c := by
  have hone : m.Shaped ⟨shape.scalar, 1⟩ c ↔ m.typeIds.get? shape.scalar.key = some c := Iff.rfl
  rw [hone]
  unfold Shaped
  split
  next hlanes =>
    constructor
    · intro h
      exact absurd (congrArg Prod.fst (hm.type_inj h hn)) (BuiltInScalar.key_ne_vector _)
    · rintro ⟨rfl, hne, -⟩
      exact absurd hlanes hne
  next hlanes =>
    constructor
    · rintro ⟨c', hc', hv⟩
      cases hm.type_inj hv hn
      exact ⟨rfl, hlanes, hc'⟩
    · rintro ⟨rfl, -, hc⟩
      exact ⟨c, hc, hn⟩

theorem not_shaped_of_unshared (h : ∀ key, m.typeIds.get? key ≠ some n) : ¬ m.Shaped shape n := by
  unfold Shaped
  split
  · exact h _
  · rintro ⟨c, -, hv⟩
    exact h _ hv

end Module

theorem sharing_builtInType {m : Module} (shape : BuiltInShape) :
    sharing.Runs (builtInType shape) m fun n m' => m'.Whole → m'.Shaped shape n := by
  have hscalar : sharing.Runs (builtInScalarType shape.scalar) m fun n m' => m'.Whole →
      Build.Shared m' shape.scalar.key n := by
    cases shape.scalar with
    | bool => exact Build.sharing_boolType
    | int => exact Build.sharing_intType 32 true
    | uint => exact Build.sharing_intType 32 false
    | float => exact Build.sharing_floatType 32
  refine hscalar.bind fun c m1 _ hc => ?_
  split
  next hone =>
    refine .pure fun hwhole => ?_
    rw [Module.Shaped, if_pos hone]
    exact (hc hwhole).2
  next hmany =>
    refine (Build.sharing_vectorType _ fun hwhole => (hc hwhole).1).mono fun n m2 h2 hn hwhole => ?_
    have hwhole1 := h2.1.symm.trans hwhole
    rw [Module.Shaped, if_neg hmany]
    exact ⟨c, (h2.2 hwhole1).type (hc hwhole1).2, (hn hwhole).2⟩

end ShaderIR.Spirv
