import ShaderIR.Proofs.Assembler.Registry
import ShaderIR.Proofs.Spirv.DeclarationOrder
import ShaderIR.Proofs.Spirv.Literals

/-!
# Types and constants are declared once

A module looks up a type or a constant by its operation and its operands before it declares it,
structs of the stream apart.  The lowering of a type follows its descriptor, and a descriptor names
its parts by position; so **types of one shape, other than structs, come out as one type of the
module**.
-/

namespace ShaderIR.Spirv

open Discipline
open Lower (ofBuild)

variable {operands : List Operand} {sec : Section} {d : TypeDesc} {id : ResultId}

/-! ## Declarations and the tables that share them -/

namespace Module

def declarations (m : Module) : List Inst := m.types.toList ++ m.constants.toList

/-- The id under which the tables know what `inst` declares. -/
def sharedId? (m : Module) (inst : Inst) : Option ModuleId :=
  match inst.resultType with
  | none => m.typeIds.get? (inst.op, inst.operands)
  | some type => m.constantIds.get? (inst.op, type, inst.operands)

/-- A struct that was declared for itself: whoever asks for a type with its members gets another
    one. -/
def IsNominal (m : Module) (inst : Inst) : Prop := inst.op = .typeStruct ∧ m.sharedId? inst ≠ inst.result

/-- What holds of the declarations of a module; an instruction that does not fit declares nothing.
    -/
structure Shares (m : Module) : Prop where
  shared : ∀ inst ∈ m.declarations, inst.op = .typeStruct ∨ m.sharedId? inst = inst.result
  numbered : ∀ inst ∈ m.declarations, ∃ n < m.nextId, inst.result = some n
  nodup : (results m.declarations).Nodup
  takes : ∀ inst ∈ m.declarations, inst.op.takes inst.operands = true
  typed : ∀ inst ∈ m.declarations, inst.resultType.isSome = decide (inst.op.role = .constant)
  found : ∀ inst n, m.sharedId? inst = some n → Inst.fits { inst with result := some n } = true →
    { inst with result := some n } ∈ m.declarations

theorem shares_empty : Shares {} where
  shared _ h := absurd h List.not_mem_nil
  numbered _ h := absurd h List.not_mem_nil
  nodup := .nil
  takes _ h := absurd h List.not_mem_nil
  typed _ h := absurd h List.not_mem_nil
  found inst n h := by
    unfold sharedId? at h
    split at h <;> cases h

/-- What the tables know is not forgotten. -/
def Remembers (m m' : Module) : Prop := ∀ inst n, m.sharedId? inst = some n → m'.sharedId? inst = some n

variable {m m' : Module} {inst : Inst} {sec : Section}

theorem Remembers.types (h : m.Remembers m') {key : Op × List Operand} {n : ModuleId}
    (hn : m.typeIds.get? key = some n) : m'.typeIds.get? key = some n := h { op := key.1, operands := key.2 } n hn

theorem Remembers.constants (h : m.Remembers m') {key : Op × ModuleId × List Operand} {n : ModuleId}
    (hn : m.constantIds.get? key = some n) : m'.constantIds.get? key = some n :=
  h { op := key.1, resultType := some key.2.1, operands := key.2.2 } n hn

theorem sharedId?_congr (htypes : m'.typeIds = m.typeIds)
    (hconstants : m'.constantIds = m.constantIds) (i : Inst) :
    m'.sharedId? i = m.sharedId? i := by simp only [sharedId?, htypes, hconstants]

theorem Shares.same (h : m.Shares) (hdeclarations : m'.declarations = m.declarations)
    (hshared : ∀ i, m'.sharedId? i = m.sharedId? i) (hnext : m.nextId ≤ m'.nextId) : m'.Shares := by
  constructor <;> rw [hdeclarations]
  · intro i hi
    rw [hshared]
    exact h.shared i hi
  · intro i hi
    obtain ⟨n, hlt, hn⟩ := h.numbered i hi
    exact ⟨n, Nat.lt_of_lt_of_le hlt hnext, hn⟩
  · exact h.nodup
  · exact h.takes
  · exact h.typed
  · intro i n hn
    rw [hshared] at hn
    exact h.found i n hn

theorem tables_emit (m : Module) (sec : Section) (inst : Inst) :
    (m.emit sec inst).nextId = m.nextId ∧ (m.emit sec inst).typeIds = m.typeIds ∧
      (m.emit sec inst).constantIds = m.constantIds := by
  unfold emit
  split
  · cases sec <;> exact ⟨rfl, rfl, rfl⟩
  · exact ⟨rfl, rfl, rfl⟩

theorem perm_declarations_emit (hsec : sec = .types ∨ sec = .constants) :
    (m.emit sec inst).declarations.Perm ((if inst.fits then [inst] else []) ++ m.declarations) := by
  unfold emit
  by_cases hfits : inst.fits = true
  · rw [if_pos hfits, if_pos hfits]
    rcases hsec with rfl | rfl
    · show ((m.types ++ #[inst]).toList ++ m.constants.toList).Perm _
      rw [Array.toList_append, List.append_assoc]
      exact List.perm_middle
    · show (m.types.toList ++ (m.constants ++ #[inst]).toList).Perm _
      rw [Array.toList_append, ← List.append_assoc]
      exact List.perm_append_singleton inst _
  · rw [if_neg hfits, if_neg hfits]
    exact .refl _

/-- **Handing out an id, declaring it and noting it** in one of the tables or in none. -/
theorem Shares.declare (inst : Inst) (h : m.Shares) (hsec : sec = .types ∨ sec = .constants)
    (hdeclarations : m'.declarations = (m.afterFresh.emit sec inst).declarations)
    (hnext : m'.nextId = (m.afterFresh.emit sec inst).nextId) (hremembers : m.Remembers m')
    (hresult : inst.result = some m.nextId) (htakes : inst.op.takes inst.operands = true)
    (htyped : inst.resultType.isSome = decide (inst.op.role = .constant))
    (hshared : inst.op = .typeStruct ∨ m'.sharedId? inst = inst.result)
    (hfound : ∀ i n, m'.sharedId? i = some n → m.sharedId? i = some n ∨
      { i with result := some n } = inst) :
    m'.Shares := by
  have hsucc : m'.nextId = m.nextId + 1 := hnext.trans (tables_emit m.afterFresh sec inst).1
  have hperm : m'.declarations.Perm ((if inst.fits then [inst] else []) ++ m.declarations) := by
    rw [hdeclarations]
    exact perm_declarations_emit (m := m.afterFresh) hsec
  have hmem : ∀ {i}, i ∈ m'.declarations ↔ inst.fits = true ∧ i = inst ∨ i ∈ m.declarations := by
    intro i
    rw [hperm.mem_iff, List.mem_append]
    split <;> simp [*]
  constructor
  · intro i hi
    rcases hmem.mp hi with ⟨-, rfl⟩ | hold
    · exact hshared
    · obtain ⟨n, -, hn⟩ := h.numbered i hold
      apply (h.shared i hold).imp_right
      intro hid
      rw [hn] at hid ⊢
      exact hremembers i n hid
  · intro i hi
    rcases hmem.mp hi with ⟨-, rfl⟩ | hold
    · exact ⟨m.nextId, hsucc ▸ Nat.lt_succ_self _, hresult⟩
    · obtain ⟨n, hlt, hn⟩ := h.numbered i hold
      exact ⟨n, hsucc ▸ Nat.lt_succ_of_lt hlt, hn⟩
  · -- The id is above all those that were handed out before.
    have hnew : m.nextId ∉ results m.declarations := by
      intro hid
      obtain ⟨i, hi, hn⟩ := List.mem_filterMap.mp hid
      obtain ⟨n, hlt, hn'⟩ := h.numbered i hi
      rw [hn', Option.some.injEq] at hn
      exact absurd hn (Nat.ne_of_lt hlt)
    apply (hperm.filterMap (·.result)).nodup_iff.mpr
    split
    · rw [List.singleton_append, List.filterMap_cons_some hresult]
      exact List.nodup_cons.mpr ⟨hnew, h.nodup⟩
    · exact h.nodup
  · intro i hi
    rcases hmem.mp hi with ⟨-, rfl⟩ | hold
    · exact htakes
    · exact h.takes i hold
  · intro i hi
    rcases hmem.mp hi with ⟨-, rfl⟩ | hold
    · exact htyped
    · exact h.typed i hold
  · intro i n hn hfits
    rcases hfound i n hn with hold | rfl
    · exact hmem.mpr (.inr (h.found i n hold hfits))
    · exact hmem.mpr (.inl ⟨hfits, rfl⟩)

/-- `m` knows what `inst` declares under the id `n`. -/
def note (m : Module) (inst : Inst) (n : ModuleId) : Module :=
  match inst.resultType with
  | none => { m with typeIds := m.typeIds.insert (inst.op, inst.operands) n }
  | some type => { m with constantIds := m.constantIds.insert (inst.op, type, inst.operands) n }

theorem sharedId?_note (m : Module) (inst i : Inst) (n : ModuleId) :
    (m.note inst n).sharedId? i = if { i with result := inst.result } =
      inst then some n else m.sharedId? i := by
  rcases inst with ⟨op, _ | type, result, operands⟩ <;> rcases i with ⟨op', _ | type', result', operands'⟩ <;>
    simp [note, sharedId?, Table.get?_insert, eq_comm]

/-- A declaration that was not known, noted under its key. -/
theorem Shares.note (inst : Inst) (h : m.Shares) (hsec : sec = .types ∨ sec = .constants)
    (hnew : m.sharedId? inst = none) (hresult : inst.result = some m.nextId)
    (htakes : inst.op.takes inst.operands = true)
    (htyped : inst.resultType.isSome = decide (inst.op.role = .constant)) :
    m.Remembers ((m.afterFresh.emit sec inst).note inst m.nextId) ∧
      ((m.afterFresh.emit sec inst).note inst m.nextId).Shares := by
  have hkeeps : ∀ (m : Module) n, (m.note inst n).declarations = m.declarations ∧
      (m.note inst n).nextId = m.nextId := by
    intro m n
    unfold Module.note
    split <;> exact ⟨rfl, rfl⟩
  obtain ⟨-, htypes, hconstants⟩ := m.afterFresh.tables_emit sec inst
  have hnoted := fun i => (sharedId?_note (m.afterFresh.emit sec inst) inst i m.nextId).trans
    (congrArg (ite _ _) (sharedId?_congr (m := m) htypes hconstants i))
  have hremembers : m.Remembers ((m.afterFresh.emit sec inst).note inst m.nextId) := by
    intro i n hn
    rw [hnoted, if_neg, hn]
    intro heq
    cases hn.symm.trans ((congrArg m.sharedId? heq).trans hnew)
  refine ⟨hremembers, h.declare inst hsec (hkeeps _ _).1 (hkeeps _ _).2 hremembers hresult htakes htyped (.inr ?_)
    fun i n hn => ?_⟩
  · rw [hnoted, if_pos rfl, hresult]
  · rw [hnoted, ← hresult] at hn
    split at hn
    next heq => exact .inr (hn ▸ heq)
    next => exact .inl hn

end Module

/-! ## Words -/

def Inst.wordsApart (inst : Inst) : List UInt32 := Inst.operandWords { inst with result := none }

theorem toUInt32_inj {n n' : ModuleId} (hn : n < 0x100000000) (hn' : n' < 0x100000000)
    (h : n.toUInt32 = n'.toUInt32) : n = n' := by
  have hmod : n % 0x100000000 = n' % 0x100000000 := congrArg UInt32.toNat h
  rwa [Nat.mod_eq_of_lt hn, Nat.mod_eq_of_lt hn'] at hmod

theorem Operand.eq_of_words {o o' : Operand} {isId : Bool} (h : o.isKind isId = true)
    (h' : o'.isKind isId = true) (hid : ∀ n, o.id? = some n → n < 0x100000000)
    (hid' : ∀ n, o'.id? = some n → n < 0x100000000) (hwords : o.words = o'.words) : o = o' := by
  cases o with
  | text s => cases h
  | id n =>
    cases o' with
    | text s => cases h'
    | literal w =>
      rw [show isId = true from h] at h'
      cases h'
    | id n' =>
      have hword : n.toUInt32 = n'.toUInt32 := (List.cons.inj hwords).1
      rw [toUInt32_inj (hid n rfl) (hid' n' rfl) hword]
  | literal w =>
    cases o' with
    | text s => cases h'
    | id n =>
      rw [show isId = true from h'] at h
      cases h
    | literal w' => rw [(List.cons.inj hwords).1]

theorem Operand.length_words {o : Operand} {isId : Bool} (h : o.isKind isId = true) :
    o.words.length = 1 := by
  cases o with
  | id | literal => rfl
  | text => cases h

theorem Op.operands_eq_of_words {op : Op} {l l' : List Operand} (k : Nat)
    (h : (l.zipIdx k).all (fun (o, i) => o.isKind (op.takesId i)) = true)
    (h' : (l'.zipIdx k).all (fun (o, i) => o.isKind (op.takesId i)) = true)
    (hids : ∀ n ∈ operandIds l, n < 0x100000000) (hids' : ∀ n ∈ operandIds l', n < 0x100000000)
    (hwords : l.flatMap Operand.words = l'.flatMap Operand.words) : l = l' := by
  -- Position by position: each operand has one word, and the operation says how to read it.
  have hnonempty : ∀ {o : Operand} {rest : List Operand} {i : Bool}, o.isKind i = true →
      (o :: rest).flatMap Operand.words ≠ [] := fun ho hnil => by
    have hlength := congrArg List.length hnil
    rw [List.flatMap_cons, List.length_append, Operand.length_words ho, List.length_nil] at hlength
    omega
  induction l generalizing k l' with
  | nil =>
    cases l' with
    | nil => rfl
    | cons o' rest' =>
      rw [List.zipIdx_cons, List.all_cons, Bool.and_eq_true] at h'
      exact absurd hwords.symm (hnonempty h'.1)
  | cons o rest ih =>
    rw [List.zipIdx_cons, List.all_cons, Bool.and_eq_true] at h
    cases l' with
    | nil => exact absurd hwords (hnonempty h.1)
    | cons o' rest' =>
      rw [List.zipIdx_cons, List.all_cons, Bool.and_eq_true] at h'
      rw [List.flatMap_cons, List.flatMap_cons] at hwords
      have hlength : o.words.length = o'.words.length := by
        rw [Operand.length_words h.1, Operand.length_words h'.1]
      obtain ⟨hfirst, hrest⟩ := List.append_inj hwords hlength
      have hmem : ∀ {o : Operand} {l : List Operand} {n : ModuleId}, o ∈ l → o.id? = some n → n ∈ operandIds l :=
        fun ho hn => List.mem_filterMap.mpr ⟨_, ho, hn⟩
      have hhead : o = o' := Operand.eq_of_words h.1 h'.1 (fun n hn => hids n (hmem List.mem_cons_self hn))
        (fun n hn => hids' n (hmem List.mem_cons_self hn)) hfirst
      have htail : ∀ {o : Operand} {l : List Operand} {n : ModuleId},
          n ∈ operandIds l → n ∈ operandIds (o :: l) := by
        intro o l n hn
        obtain ⟨a, ha, hna⟩ := List.mem_filterMap.mp hn
        exact hmem (List.mem_cons_of_mem o ha) hna
      rw [hhead, ih (k + 1) h.2 h'.2 (fun n hn => hids n (htail hn)) (fun n hn => hids' n (htail hn)) hrest]

namespace Module

variable {m : Module}

theorem Settled.uses_lt (h : m.Settled) {inst : Inst} (hinst : inst ∈ m.declarations) {n : ModuleId}
    (hn : n ∈ inst.uses) : n < m.nextId := by
  apply h.below
  rw [mem_results_definitions]
  rcases List.mem_append.mp hinst with hinst | hinst
  · obtain ⟨before, after, hsplit⟩ := List.append_of_mem hinst
    rcases h.types before inst after hsplit n hn with hbefore | hlate
    · rw [hsplit, results_append, List.mem_append]
      exact .inr (.inl (.inl hbefore))
    · exact .inr (.inr hlate.2.2)
  · obtain ⟨before, after, hsplit⟩ := List.append_of_mem hinst
    have hbefore : n ∈ results (m.types.toList ++ before) := h.constants before inst after hsplit n hn
    rw [results_append, List.mem_append] at hbefore
    rw [hsplit, results_append, List.mem_append]
    exact .inr (hbefore.imp_right .inl)

/-- Two declarations of the same words are asked for by the same key. -/
theorem Shares.sharedId?_eq (h : m.Shares)
    (huses : ∀ inst ∈ m.declarations, ∀ n ∈ inst.uses, n < 0x100000000) {a b : Inst}
    (ha : a ∈ m.declarations) (hb : b ∈ m.declarations) (hop : a.op = b.op)
    (hwords : a.wordsApart = b.wordsApart) : m.sharedId? a = m.sharedId? b := by
  have htyped : a.resultType.isSome = b.resultType.isSome := by rw [h.typed a ha, h.typed b hb, hop]
  have hsplit : ∀ i : Inst,
      i.wordsApart = i.resultType.toList.map (·.toUInt32) ++ i.operands.flatMap Operand.words := by
    intro i
    rw [Inst.wordsApart, Inst.operandWords, Option.toList_none, List.append_nil]
  have hlength :
      (a.resultType.toList.map (·.toUInt32)).length =
        (b.resultType.toList.map (·.toUInt32)).length := by
    cases hta : a.resultType <;> cases htb : b.resultType <;> rw [hta, htb] at htyped <;> first | rfl | cases htyped
  rw [hsplit a, hsplit b] at hwords
  obtain ⟨htype, hoperands⟩ := List.append_inj hwords hlength
  have hoperands : a.operands = b.operands := by
    apply Op.operands_eq_of_words 0 (h.takes a ha)
    · rw [hop]
      exact h.takes b hb
    · exact fun n hn => huses a ha n (List.mem_append_right _ hn)
    · exact fun n hn => huses b hb n (List.mem_append_right _ hn)
    · exact hoperands
  have htype : a.resultType = b.resultType := by
    cases hta : a.resultType with
    | none =>
      rw [hta] at htyped
      exact (Option.isSome_eq_false_iff.mp htyped.symm |> Option.isNone_iff_eq_none.mp).symm
    | some t =>
      cases htb : b.resultType with
      | none =>
        rw [hta, htb] at htyped
        cases htyped
      | some t' =>
        rw [hta, htb] at htype
        have hword : t.toUInt32 = t'.toUInt32 := (List.cons.inj htype).1
        have ht := huses a ha t (List.mem_append_left _ (by rw [hta]; exact List.mem_singleton.mpr rfl))
        have ht' := huses b hb t' (List.mem_append_left _ (by rw [htb]; exact List.mem_singleton.mpr rfl))
        rw [toUInt32_inj ht ht' hword]
  rw [sharedId?, sharedId?, hop, hoperands, htype]

/-- **No two declarations are the same but for their ids**, structs of the stream apart. -/
theorem Shares.pairwise (h : m.Shares)
    (huses : ∀ inst ∈ m.declarations, ∀ n ∈ inst.uses, n < 0x100000000) :
    m.declarations.Pairwise fun a b => a.op = b.op → a.wordsApart = b.wordsApart →
      m.IsNominal a ∨ m.IsNominal b := by
  apply (List.pairwise_filterMap.mp h.nodup).imp_of_mem
  intro a b ha hb hne hop hwords
  obtain ⟨n, -, hn⟩ := h.numbered a ha
  have hkey := h.sharedId?_eq huses ha hb hop hwords
  by_cases hshared : m.sharedId? a = a.result
  · -- Then the id that both are known by is that of the first.
    right
    have hdiffers : m.sharedId? b ≠ b.result := by
      intro hb'
      have hbn : b.result = some n := by rw [← hb', ← hkey, hshared, hn]
      exact hne n hn n hbn rfl
    exact ⟨(h.shared b hb).resolve_right hdiffers, hdiffers⟩
  · left
    exact ⟨(h.shared a ha).resolve_right hshared, hshared⟩

end Module

/-! ## Descriptors and the types they become -/

namespace Lowering

/-- `n` is what the descriptor at a position becomes where it is nested in others. -/
def Names (s : Lowering) (asm : Assembler) (h : TypeHandle) (n : ModuleId) : Prop :=
  ∃ id, asm.types.idOf? h = some id ∧ s.typeIds.get? id = some n

/-- `n` is the shared type that a descriptor stands for; of structs nothing is said. -/
def Renders (s : Lowering) (asm : Assembler) (n : ModuleId) : TypeDesc → Prop
  | .void => s.module.typeIds.get? (.typeVoid, []) = some n
  | .bool => s.module.typeIds.get? (.typeBool, []) = some n
  | .float w => s.module.typeIds.get? (.typeFloat, [.literal w]) = some n
  | .sint w => s.module.typeIds.get? (.typeInt, [.literal w, .literal 1]) = some n
  | .uint w => s.module.typeIds.get? (.typeInt, [.literal w, .literal 0]) = some n
  | .vector inner lanes => ∃ c, s.Names asm inner c ∧
      s.module.typeIds.get? (.typeVector, [.id c, .literal lanes]) = some n
  | .matrix inner columns rows => ∃ c column, s.Names asm inner c ∧
      s.module.typeIds.get? (.typeVector, [.id c, .literal rows]) = some column ∧
      s.module.typeIds.get? (.typeMatrix, [.id column, .literal columns]) = some n
  | .array inner length => ∃ c word count, s.Names asm inner c ∧
      s.module.typeIds.get? (.typeInt, [.literal 32, .literal 0]) = some word ∧
      s.module.constantIds.get? (.constant, word, [.literal length]) = some count ∧
      s.module.typeIds.get? (.typeArray, [.id c, .id count]) = some n
  | .pointer inner => ∃ c, s.Names asm inner c ∧
      s.module.typeIds.get? (.typePointer, [.literal StorageClass.function.code, .id c]) = some n
  | .tuple fst snd => ∃ a b, s.Names asm fst a ∧ s.Names asm snd b ∧
      s.module.typeIds.get? (.typeStruct, [.id a, .id b]) = some n
  | .record _ => True

/-- Types stay what they are, and those that are under way stay so. -/
structure Recalls (pending : List ResultId) (s s' : Lowering) : Prop where
  module : s.module.Remembers s'.module
  noted : ∀ {x n}, s.typeIds.get? x = some n → s'.typeIds.get? x = some n
  pending : ∀ x ∈ pending, s.typeIds.get? x = none → s'.typeIds.get? x = none

/-- The declarations are shared, and every type that was lowered is what its descriptor stands for.
    -/
structure Renderings (asm : Assembler) (s : Lowering) : Prop where
  shares : s.module.Shares
  rendered : ∀ {x n d}, s.typeIds.get? x = some n → asm.types.ofId? x = some d → s.Renders asm n d

variable {asm : Assembler} {s s' : Lowering} {n n' : ModuleId} {pending : List ResultId} {x : ResultId}

theorem Names.unique {h : TypeHandle} (hn : s.Names asm h n) (hn' : s.Names asm h n') : n = n' := by
  obtain ⟨id, hid, hn⟩ := hn
  obtain ⟨id', hid', hn'⟩ := hn'
  rw [hid, Option.some.injEq] at hid'
  rw [← hid', hn, Option.some.injEq] at hn'
  exact hn'

theorem Renders.unique (hd : ∀ l, d ≠ .record l) (h : s.Renders asm n d)
    (h' : s.Renders asm n' d) : n = n' := by
  apply Option.some.inj
  cases d with
  | void | bool | float | sint | uint => exact h.symm.trans h'
  | vector | pointer =>
    obtain ⟨c, hc, h⟩ := h
    obtain ⟨c', hc', h'⟩ := h'
    rw [hc.unique hc'] at h
    exact h.symm.trans h'
  | matrix =>
    obtain ⟨c, column, hc, hcolumn, h⟩ := h
    obtain ⟨c', column', hc', hcolumn', h'⟩ := h'
    rw [hc.unique hc', hcolumn', Option.some.injEq] at hcolumn
    rw [← hcolumn] at h
    exact h.symm.trans h'
  | array =>
    obtain ⟨c, word, count, hc, hword, hcount, h⟩ := h
    obtain ⟨c', word', count', hc', hword', hcount', h'⟩ := h'
    rw [hword', Option.some.injEq] at hword
    rw [← hword, hcount', Option.some.injEq] at hcount
    rw [hc.unique hc', ← hcount] at h
    exact h.symm.trans h'
  | tuple =>
    obtain ⟨a, b, ha, hb, h⟩ := h
    obtain ⟨a', b', ha', hb', h'⟩ := h'
    rw [ha.unique ha', hb.unique hb'] at h
    exact h.symm.trans h'
  | record l => exact absurd rfl (hd l)

theorem Recalls.refl (s : Lowering) : s.Recalls pending s := ⟨fun _ _ => id, id, fun _ _ => id⟩

theorem Recalls.trans {s1 s2 s3 : Lowering} (h : s1.Recalls pending s2)
    (h' : s2.Recalls pending s3) :
    s1.Recalls pending s3 :=
  ⟨fun i n hn => h'.module i n (h.module i n hn), fun hn => h'.noted (h.noted hn),
    fun x hx hnone => h'.pending x hx (h.pending x hx hnone)⟩

theorem Names.recall (h : s.Recalls pending s') {k : TypeHandle} (hn : s.Names asm k n) :
    s'.Names asm k n := by
  obtain ⟨id, hid, hn⟩ := hn
  exact ⟨id, hid, h.noted hn⟩

theorem Renders.recall (h : s.Recalls pending s') (hd : s.Renders asm n d) :
    s'.Renders asm n d := by
  cases d with
  | void | bool | float | sint | uint => exact h.module.types hd
  | vector | pointer =>
    obtain ⟨c, hc, hd⟩ := hd
    exact ⟨c, hc.recall h, h.module.types hd⟩
  | matrix =>
    obtain ⟨c, column, hc, hcolumn, hd⟩ := hd
    exact ⟨c, column, hc.recall h, h.module.types hcolumn, h.module.types hd⟩
  | array =>
    obtain ⟨c, word, count, hc, hword, hcount, hd⟩ := hd
    exact ⟨c, word, count, hc.recall h, h.module.types hword, h.module.constants hcount, h.module.types hd⟩
  | tuple =>
    obtain ⟨a, b, ha, hb, hd⟩ := hd
    exact ⟨a, b, ha.recall h, hb.recall h, h.module.types hd⟩
  | record => trivial

theorem Renderings.recall (hs : s.Renderings asm) (h : s.Recalls pending s')
    (hnoted : s'.typeIds = s.typeIds) (hshares : s'.module.Shares) : s'.Renderings asm where
  shares := hshares
  rendered hx hd := (hs.rendered (hnoted ▸ hx) hd).recall h

end Lowering

/-- Types are shared, and those in `pending` are not noted yet. -/
def rendering (asm : Assembler) (pending : List ResultId) : Discipline Lowering where
  Inv s := s.Renderings asm
  Grows := Lowering.Recalls pending
  refl := .refl
  trans := .trans

/-! ## Steps -/

structure Module.Spares (m m' : Module) : Prop where
  nextId : m.nextId ≤ m'.nextId
  declarations : m'.declarations = m.declarations
  sharedId? : ∀ i, m'.sharedId? i = m.sharedId? i

theorem Module.Spares.refl (m : Module) : m.Spares m := ⟨Nat.le_refl _, rfl, fun _ => rfl⟩

theorem Module.spares_emit (hsec : sec ≠ .types ∧ sec ≠ .constants) (m : Module) (inst : Inst) :
    m.Spares (m.emit sec inst) := by
  obtain ⟨hnext, htypes, hconstants⟩ := m.tables_emit sec inst
  refine ⟨Nat.le_of_eq hnext.symm, ?_, sharedId?_congr htypes hconstants⟩
  unfold emit
  split
  · cases sec <;> first | rfl | exact absurd rfl hsec.1 | exact absurd rfl hsec.2
  · rfl

section

variable {α : Type} {asm : Assembler} {pending : List ResultId} {s : Lowering}

theorem rendering_apart {x : Lower α}
    (h : ∀ s, s.module.Spares (x.run s).2.module ∧ (x.run s).2.typeIds = s.typeIds) :
    (rendering asm pending).Keeps x := by
  intro s hs
  obtain ⟨hmodule, hnoted⟩ := h s
  have hrecalls : s.Recalls pending (x.run s).2 := by
    refine ⟨fun i n hn => ?_, fun hn => ?_, fun x _ hx => ?_⟩
    · rw [hmodule.sharedId?]
      exact hn
    · rw [hnoted]
      exact hn
    · rw [hnoted]
      exact hx
  exact ⟨hrecalls,
    hs.recall hrecalls hnoted
      (hs.shares.same hmodule.declarations hmodule.sharedId? hmodule.nextId),
    trivial⟩

theorem rendering_build {b : Build α} (h : ∀ m : Module, m.Spares (b.run m).2) :
    (rendering asm pending).Keeps (ofBuild b) := rendering_apart fun s => ⟨h s.module, rfl⟩

theorem rendering_modify {f : Lowering → Lowering}
    (h : ∀ s, (f s).module = s.module ∧ (f s).typeIds = s.typeIds) :
    (rendering asm pending).Keeps (modify f) := rendering_apart fun s => ⟨(h s).1 ▸ .refl _, (h s).2⟩

theorem rendering_emit (hsec : sec ≠ .types ∧ sec ≠ .constants) (i : Inst) :
    (rendering asm pending).Keeps (ofBuild (.emit sec i)) := rendering_build fun m => m.spares_emit hsec i

theorem rendering_fresh : (rendering asm pending).Keeps (ofBuild .fresh) :=
  rendering_build fun _ => ⟨Nat.le_succ _, rfl, fun _ => rfl⟩

theorem rendering_declare {b : Build α} {Q : α → Lowering → Prop}
    (h : s.module.Shares → s.module.Remembers (b.run s.module).2 ∧ (b.run s.module).2.Shares)
    (hpost : Q (b.run s.module).1 { s with module := (b.run s.module).2 }) :
    (rendering asm pending).Runs (ofBuild b) s Q := by
  intro hs
  obtain ⟨hremembers, hshares⟩ := h hs.shares
  have hrecalls : s.Recalls pending { s with module := (b.run s.module).2 } := ⟨hremembers, id, fun _ _ => id⟩
  exact ⟨hrecalls, hs.recall hrecalls rfl hshares, hpost⟩

theorem rendering_newType (htakes : Op.typeStruct.takes operands = true) :
    (rendering asm pending).Keeps (ofBuild (.newType .typeStruct operands)) := by
  intro s
  apply rendering_declare
  · intro h
    obtain ⟨-, htypes, hconstants⟩ := s.module.afterFresh.tables_emit .types
      { op := .typeStruct, result := some s.module.nextId, operands }
    have hshared := Module.sharedId?_congr (m := s.module) htypes hconstants
    have hremembers : s.module.Remembers _ := fun i n hn => (hshared i).trans hn
    exact ⟨hremembers, h.declare _ (.inl rfl) rfl rfl hremembers rfl htakes rfl (.inl rfl)
      fun i n hn => .inl ((hshared i).symm.trans hn)⟩
  · trivial

theorem rendering_type {op : Op} (hrole : op.role = .type) (htakes : op.takes operands = true)
    (s : Lowering) :
    (rendering asm pending).Runs (ofBuild (.type op operands)) s
      fun n s' => s'.module.typeIds.get? (op, operands) = some n := by
  refine runs_ofBuild_get_bind ?_
  cases hkey : s.module.typeIds.get? (op, operands) with
  | some n => exact .pure hkey
  | none =>
    let inst : Inst := { op, result := some s.module.nextId, operands }
    exact rendering_declare (fun h => h.note inst (.inl rfl) hkey rfl htakes (by simp [inst, hrole]))
      Table.get?_insert_self

theorem rendering_constantIn {type : ModuleId} {op : Op} (hsec : sec = .types ∨ sec = .constants)
    (hrole : op.role = .constant) (htakes : op.takes operands = true) (s : Lowering) :
    (rendering asm pending).Runs (ofBuild (.constantIn sec type op operands)) s
      fun n s' => s'.module.constantIds.get? (op, type, operands) = some n := by
  refine runs_ofBuild_get_bind ?_
  cases hkey : s.module.constantIds.get? (op, type, operands) with
  | some n => exact .pure hkey
  | none =>
    let inst : Inst := { op, resultType := some type, result := some s.module.nextId, operands }
    exact rendering_declare (fun h => h.note inst hsec hkey rfl htakes (by simp [inst, hrole]))
      Table.get?_insert_self

/-! ## Types -/

theorem rendering_capability (c : Capability) :
    (rendering asm pending).Keeps (ofBuild (.requireCapability c)) :=
  rendering_build fun _ => ⟨Nat.le_refl _, rfl, fun _ => rfl⟩

theorem rendering_intType (width : UInt32) (signed : Bool) (s : Lowering) :
    (rendering asm pending).Runs (ofBuild (.intType width signed)) s fun n s' =>
      s'.module.typeIds.get? (.typeInt, [.literal width, .literal (if signed then 1 else 0)]) =
        some n :=
  runs_ofBuild_bind (keeps_ofBuild_forM rendering_capability s) fun _ s1 _ _ => rendering_type rfl rfl s1

theorem rendering_floatType (width : UInt32) (s : Lowering) :
    (rendering asm pending).Runs (ofBuild (.floatType width)) s fun n s' =>
      s'.module.typeIds.get? (.typeFloat, [.literal width]) = some n :=
  runs_ofBuild_bind (keeps_ofBuild_forM rendering_capability s) fun _ s1 _ _ => rendering_type rfl rfl s1

theorem rendering_arrayType (element : ModuleId) (length : UInt32) (s : Lowering) :
    (rendering asm pending).Runs (ofBuild (.arrayType element length)) s fun n s' => ∃ word count,
      s'.module.typeIds.get? (.typeInt, [.literal 32, .literal 0]) = some word ∧
      s'.module.constantIds.get? (.constant, word, [.literal length]) = some count ∧
      s'.module.typeIds.get? (.typeArray, [.id element, .id count]) = some n := by
  apply runs_ofBuild_bind (rendering_intType 32 false s)
  intro word s1 _ hword
  apply runs_ofBuild_bind (rendering_constantIn (.inl rfl) rfl rfl s1)
  intro count s2 h2 hcount
  apply (rendering_type rfl rfl s2).mono
  intro n s3 h3 hn
  exact ⟨word, count, h3.module.types (h2.module.types hword), h3.module.constants hcount, hn⟩

theorem rendering_note {n : ModuleId} (hid : s.typeIds.get? id = none)
    (hpending : id ∉ pending) (hd : asm.types.ofId? id = some d) (hn : s.Renders asm n d) :
    (rendering asm pending).Runs (modify fun s => { s with typeIds := s.typeIds.insert id n }) s
      fun _ s' => s'.typeIds.get? id = some n := by
  intro hs
  let s' : Lowering := { s with typeIds := s.typeIds.insert id n }
  have hself : s'.typeIds.get? id = some n := Table.get?_insert_self
  have hother : ∀ {x}, id ≠ x → s'.typeIds.get? x = s.typeIds.get? x := Table.get?_insert_of_ne
  have hrecalls : s.Recalls pending s' := by
    refine ⟨fun _ _ hn => hn, Table.get?_insert_of_none hid, fun x hx hnone => ?_⟩
    rw [hother (by rintro rfl; exact hpending hx)]
    exact hnone
  refine ⟨hrecalls, ⟨hs.shares, fun {x k d'} hx hd' => ?_⟩, hself⟩
  by_cases heq : id = x
  · subst heq
    cases hself.symm.trans hx
    cases hd.symm.trans hd'
    exact hn.recall hrecalls
  · exact (hs.rendered ((hother heq).symm.trans hx) hd').recall hrecalls

theorem rendering_underWay {x : Attempt α} {Q : α → Lowering → Prop}
    (hid : s.typeIds.get? id = none) (h : (rendering asm (id :: pending)).Tries x s Q) :
    (rendering asm pending).Tries x s fun a s' => Q a s' ∧ s'.typeIds.get? id = none := by
  intro hs
  obtain ⟨hrecalls, hinv, hpost⟩ := h hs
  have hleft : (x.run.run s).2.typeIds.get? id = none := hrecalls.pending id List.mem_cons_self hid
  exact ⟨⟨hrecalls.module, hrecalls.noted, fun y hy => hrecalls.pending y (List.mem_cons_of_mem _ hy)⟩, hinv,
    fun a ha => ⟨hpost a ha, hleft⟩⟩

theorem rendering_lowerTypeAt (fuel : Nat) (pending : List ResultId) (id : ResultId)
    (s : Lowering) :
    (rendering asm pending).Tries (lowerTypeAt asm fuel pending id) s
      fun n s' => s'.typeIds.get? id = some n := by
  induction fuel generalizing pending id s with
  | zero => exact .failure
  | succ fuel ih =>
    apply Tries.get_bind
    cases hid : s.typeIds.get? id with
    | some n => exact .pure hid
    | none =>
    cases hdesc : asm.types.ofId? id with
    | none => exact .failure
    | some desc =>
      apply Tries.pure_bind
      apply Tries.guard_bind
      intro hnew
      have hpending : id ∉ pending := by simpa using hnew
      extract_lets lowerId lowerHandle note
      -- Parts are lowered while `id` is under way.
      have hhandle : ∀ h s, (rendering asm (id :: pending)).Tries (lowerHandle h) s
          fun n s' => s'.Names asm h n := by
        intro h s
        unfold lowerHandle
        cases hinner : asm.types.idOf? h with
        | none => exact .failure
        | some x =>
          apply Tries.pure_bind
          apply (ih (id :: pending) x s).mono
          exact fun n s' _ hn => ⟨x, hinner, hn⟩
      have hbuild : ∀ {b : Build ModuleId} {Q : ModuleId → Lowering → Prop} {s : Lowering},
          (rendering asm (id :: pending)).Runs (ofBuild b) s Q →
          (rendering asm (id :: pending)).Tries (onModule b) s Q := fun h => tries_onModule_of h
      have hnote : ∀ {x : Attempt ModuleId},
          (rendering asm (id :: pending)).Tries x s (fun n s' => s'.Renders asm n desc) →
          (rendering asm pending).Tries (x >>= note) s fun n s' => s'.typeIds.get? id = some n := by
        intro x hx
        apply (rendering_underWay hid hx).bind
        intro n s1 _ hn
        apply (Tries.lift (rendering_note hn.2 hpending hdesc hn.1)).bind
        exact fun _ s2 _ hnoted => .pure hnoted
      cases desc with
      | void | bool => exact hnote (hbuild (rendering_type rfl rfl s))
      | float w => exact hnote (hbuild (rendering_floatType w s))
      | sint w => exact hnote (hbuild (rendering_intType w true s))
      | uint w => exact hnote (hbuild (rendering_intType w false s))
      | vector inner | pointer inner =>
        simp only [← bind_assoc]
        apply hnote
        apply (hhandle inner s).bind
        intro c s1 _ hc
        apply (hbuild (rendering_type rfl rfl s1)).mono
        exact fun n s2 h2 hn => ⟨c, hc.recall h2, hn⟩
      | matrix inner columns rows =>
        simp only [← bind_assoc]
        apply hnote
        simp only [bind_assoc]
        apply (hhandle inner s).bind
        intro c s1 _ hc
        apply (hbuild (rendering_type rfl rfl s1)).bind
        intro column s2 h2 hcolumn
        apply (hbuild (rendering_type rfl rfl s2)).mono
        exact fun n s3 h3 hn => ⟨c, column, (hc.recall h2).recall h3, h3.module.types hcolumn, hn⟩
      | array inner length =>
        simp only [← bind_assoc]
        apply hnote
        apply (hhandle inner s).bind
        intro c s1 _ hc
        apply (hbuild (rendering_arrayType c length s1)).mono
        rintro n s2 h2 ⟨word, count, hword, hcount, hn⟩
        exact ⟨c, word, count, hc.recall h2, hword, hcount, hn⟩
      | tuple fst snd =>
        simp only [← bind_assoc]
        apply hnote
        apply (hhandle fst s).bind
        intro a s1 _ ha
        apply (hhandle snd s1).bind
        intro b s2 h2 hb
        apply (hbuild (rendering_type rfl rfl s2)).mono
        exact fun n s3 h3 hn => ⟨a, b, (ha.recall h2).recall h3, hb.recall h3, hn⟩
      | record l =>
        simp only [← bind_assoc]
        apply hnote
        simp only [bind_assoc]
        have hremark : ∀ i, (rendering asm (id :: pending)).Attempts (onModule (.emit .debug i)) := fun i =>
          attempts_onModule_of (rendering_emit (by decide) i)
        apply (Rules.attempts_orGiveUp _).tries_bind
        intro layout s1
        apply (Attempts.mapM fun m s => (ih (id :: pending) m.2 s).weaken).tries_bind
        intro members s2
        apply (attempts_onModule_of (rendering_newType (Op.takes_map_id (fun _ => rfl) members))).tries_bind
        intro n s3
        apply (hremark _).tries_bind
        intro _ s4
        apply (Attempts.forM fun e => hremark _).tries_bind
        exact fun _ s5 => .pure trivial

/-! ## Streams -/

theorem rendering_report (p : Problem) : (rendering asm pending).Keeps (report p) :=
  rendering_modify fun _ => ⟨rfl, rfl⟩

theorem bodyRules_rendering : BodyRules (rendering asm pending) where
  report := rendering_report
  fresh := rendering_fresh
  function _ := rendering_apart fun _ => ⟨.refl _, rfl⟩
  append _ := rendering_apart fun _ => ⟨⟨Nat.le_refl _, rfl, fun _ => rfl⟩, rfl⟩

theorem rules_sharing (asm : Assembler) (inst : Instruction) :
    Rules asm (rendering asm []) (fun _ _ => True) (fun _ _ => True) inst where
  toFlowRules := bodyRules_rendering.flowRules inst
  toFormRules := .of_keeps rendering_capability (fun _ hrole htakes s => (rendering_type hrole htakes s).weaken)
    fun _ _ s => (rendering_constantIn (.inl rfl) rfl rfl s).weaken
  mono _ _ := trivial
  fnMono _ _ := trivial
  report := rendering_report
  fresh := rendering_fresh
  idFor id s := keeps_idFor_of rendering_fresh (fun _ => rendering_modify fun _ => ⟨rfl, rfl⟩) s
  bindId _ := rendering_apart (x := bindId _ _) (fun _ => ⟨.refl _, rfl⟩) _
  setPlace _ := rendering_modify fun _ => ⟨rfl, rfl⟩
  addParam _ := rendering_modify fun _ => ⟨rfl, rfl⟩
  note _ _ h := rendering_modify fun s => by
    obtain ⟨_, _, _, _, hs⟩ := h s
    rw [hs]
    exact ⟨rfl, rfl⟩
  overflow := rendering_modify fun _ => ⟨rfl, rfl⟩
  setStage _ _ := rendering_modify fun _ => ⟨rfl, rfl⟩
  lowerType id s := (rendering_lowerTypeAt _ [] id s).weaken
  capability _ := rendering_capability _
  extension _ := rendering_build fun _ => ⟨Nat.le_refl _, rfl, fun _ => rfl⟩
  newType _ htakes := rendering_newType htakes
  constantIn s hsec _ hrole htakes := (rendering_constantIn hsec hrole htakes s).weaken
  extInstSet := keeps_ofBuild_extInstSet rendering_fresh (fun _ _ => rendering_emit (by decide) _) fun _ =>
    rendering_build fun _ => ⟨Nat.le_refl _, rfl, fun _ => rfl⟩
  remark {sec _} hsec _ _ _ := rendering_emit (by cases sec <;> first | decide | cases hsec) _
  global _ _ _ := rendering_emit (by decide) _ _
  block _ := rendering_build fun _ => ⟨Nat.le_refl _, rfl, fun _ => rfl⟩
  addEntryPoint _ _ := rendering_build fun _ => ⟨Nat.le_refl _, rfl, fun _ => rfl⟩
  modifyEntryPoint _ _ _ := rendering_build fun _ => ⟨Nat.le_refl _, rfl, fun _ => rfl⟩

theorem rendering_requireType (source : Instruction) (id : ResultId) (s : Lowering) :
    (rendering asm []).Runs (requireType asm source id).run s fun a s' =>
      (s'.problems = #[] → a.isSome = true) ∧ ∀ n, a = some n → s'.typeIds.get? id = some n := by
  rw [requireType, OptionT.run_orElse, Option.elimM]
  apply Runs.bind (rendering_lowerTypeAt _ [] id s)
  intro a s1 _ hnoted
  cases a with
  | some n => exact .pure ⟨fun _ => rfl, hnoted⟩
  | none =>
    intro hs
    obtain ⟨hrecalls, hinv, -⟩ := rendering_report _ s1 hs
    exact ⟨hrecalls, hinv, fun hp => absurd hp Array.push_ne_empty, fun n hn => by cases hn⟩

theorem rendering_attempt {inst : Instruction} (hop : inst.opcode.isType = true) (i : Nat)
    (s : Lowering) :
    (rendering asm []).Runs (attempt asm i inst).run s
      fun _ s' => s'.problems = #[] → (s'.typeIds.get? inst.id).isSome = true := by
  rw [attempt_of_isType asm i hop]
  refine .run_bind (rendering_requireType inst inst.id s) (fun _ h hp => ?_) fun n _ _ h => .pure fun _ => ?_
  · cases h.1 hp
  · rw [h.2 n rfl]
    rfl

end

theorem renderings_empty (asm : Assembler) : Lowering.Renderings asm {} :=
  ⟨Module.shares_empty, fun h => by cases h⟩

/-- **Every type of a stream without problems is noted.** -/
theorem isSome_typeIds_of_declaresType {asm : Assembler} (hfatal : (lowerAll asm).2 = none)
    (hproblems : (lowerAll asm).1.problems = #[]) (h : asm.DeclaresType id) :
    ((lowerAll asm).1.typeIds.get? id).isSome = true := by
  obtain ⟨inst, hinst, hop, rfl⟩ := h
  obtain ⟨j, hj⟩ := List.getElem?_of_mem hinst
  rw [Array.getElem?_toList] at hj
  have hlt : j < asm.code.size := Assembler.lt_size_code hj
  have hs := (Rules.lowers (rules_sharing asm)).inv_stateAt (renderings_empty asm) j
  have hnoted := (rendering_attempt hop j (stateAt asm j) hs).2.2
  have hnext : stateAt asm (j + 1) = lowerInstruction asm j inst (stateAt asm j) := stateAt_succ hj
  change (lowerInstruction asm j inst (stateAt asm j)).problems = #[] →
    ((lowerInstruction asm j inst (stateAt asm j)).typeIds.get? inst.id).isSome = true at hnoted
  rw [← hnext] at hnoted
  obtain ⟨n, hn⟩ := Option.isSome_iff_exists.mp (hnoted (problems_stateAt_of_lowerAll hlt hfatal hproblems))
  have hrecalls := (Rules.lowers (rules_sharing asm)).lowerAll (rules_sharing asm _)
    (renderings_empty asm) hfatal hlt
  rw [hrecalls.1.noted hn]
  rfl

/-- Types of one shape stand for one descriptor, and that is no struct if the shape is none. -/
theorem exists_desc_of_shapeAt {types : TypeRegistry} (hu : types.Unrepeated) {x y : ResultId}
    {h k : TypeHandle} {i j : Nat} {shape : TypeShape} (hx : types.handle? x = some h)
    (hy : types.handle? y = some k) (hi : types.shapeAt i h = some shape)
    (hj : types.shapeAt j k = some shape) (hshape : ∀ l, shape ≠ .record l) :
    ∃ d, (∀ l, d ≠ .record l) ∧ types.ofId? x = some d ∧ types.ofId? y = some d := by
  cases hu.eq_of_shapeAt hi hj
  cases i with
  | zero => cases hi
  | succ i =>
    obtain ⟨d, hd, hi⟩ := Option.bind_eq_some_iff.mp hi
    refine ⟨d, fun l hl => ?_, ?_, ?_⟩
    · rw [hl] at hi
      exact hshape l (Option.some.inj hi).symm
    · rw [TypeRegistry.ofId?, hx, Option.bind_some, hd]
    · rw [TypeRegistry.ofId?, hy, Option.bind_some, hd]

/-! ## Emission -/

/-- **Every type and constant is declared once.**  In a clean emission no two instructions that
    declare a type or a constant differ only in their own id, structs of the stream apart, and two
    types of one shape that is no struct's become one type of the module. -/
theorem declared_once {asm : Assembler} {major minor : UInt8} {e : Emission}
    (hreached : Reached (fun _ => True) asm) (h : emitModule asm major minor = .ok e)
    (hclean : e.isClean = true) :
    let s := (lowerAll asm).1
    e.words = s.module.words (versionWord major minor) ∧ (s.module.declarations.Pairwise fun a b =>
        a.op = b.op → a.wordsApart = b.wordsApart → s.module.IsNominal a ∨ s.module.IsNominal b) ∧
      (∀ x k, asm.types.handle? x = some k → ∃ n ∈ results s.module.types.toList, s.typeIds.get? x = some n) ∧
      ∀ x y k k' i j shape, asm.types.handle? x = some k → asm.types.handle? y = some k' →
        asm.types.shapeAt i k = some shape → asm.types.shapeAt j k' = some shape → (∀ l, shape ≠ .record l) →
        s.typeIds.get? x = s.typeIds.get? y := by
  intro s
  obtain ⟨hfatal, hproblems, hover, -⟩ := (isClean_iff h).mp hclean
  obtain ⟨hwords, hbound⟩ := words_of_fatal_none h (fatal_of_isClean hclean)
  have hrenderings : s.Renderings asm := (Rules.lowerAll (rules_sharing asm) (renderings_empty asm)).2
  have hordered := inv_lowerAll asm
  have hregistered := hreached.registered
  have hnoted : ∀ x k, asm.types.handle? x = some k →
      ∃ n ∈ results s.module.types.toList, s.typeIds.get? x = some n := by
    intro x k hx
    have hdeclares := hregistered.types.handles _ (Table.mem_of_get? hx)
    obtain ⟨n, hn⟩ := Option.isSome_iff_exists.mp (isSome_typeIds_of_declaresType hfatal hproblems hdeclares)
    exact ⟨n, hordered.2 _ (Table.mem_of_get? hn) hover, hn⟩
  refine ⟨hwords, ?_, hnoted, ?_⟩
  · -- Ids are below the bound, and the bound is a word.
    apply hrenderings.shares.pairwise
    intro inst hinst n hn
    exact Nat.lt_of_lt_of_le ((hordered.1 hover).uses_lt hinst hn) (Nat.le_of_lt hbound)
  · intro x y k k' i j shape hx hy hi hj hshape
    obtain ⟨d, hd, hxd, hyd⟩ := exists_desc_of_shapeAt hregistered.unrepeated hx hy hi hj hshape
    obtain ⟨n, -, hn⟩ := hnoted x k hx
    obtain ⟨n', -, hn'⟩ := hnoted y k' hy
    rw [hn, hn', (hrenderings.rendered hn hxd).unique hd (hrenderings.rendered hn' hyd)]

def twiceDeclaredText : String :=
  "%1 = TYPE_FLOAT [32, 0, 0] (%0, %0, %0) : %0\n" ++
  "%2 = TYPE_VECTOR [4, 0, 0] (%1, %0, %0) : %0\n" ++
  "%3 = TYPE_FLOAT [32, 0, 0] (%0, %0, %0) : %0\n" ++
  "%4 = TYPE_VECTOR [4, 0, 0] (%3, %0, %0) : %0\n"

/-- The module has two types, and the vectors 2 and 4 are the same one. -/
theorem declared_once_twiceDeclaredText : ∃ asm e, Listing.parse twiceDeclaredText = .ok asm ∧
    emitModule asm 1 5 = .ok e ∧ e.isClean = true ∧
    e.words = [magic, 0x10500, generator, 3, 0, 131089, 1, 196622, 0, 1, 196630, 1, 32, 262167, 2,
      1, 4] ∧
    (lowerAll asm).1.typeIds.get? ⟨2⟩ = (lowerAll asm).1.typeIds.get? ⟨4⟩ := by
  obtain ⟨asm, hparse, hrun, hshape⟩ : ∃ asm, Listing.parse twiceDeclaredText = .ok asm ∧
      (emitModule asm 1 5).toOption = some
        { words := [magic, 0x10500, generator, 3, 0, 131089, 1, 196622, 0, 1, 196630, 1, 32, 262167, 2, 1, 4] } ∧
      ∀ x ∈ [(⟨2⟩ : ResultId), ⟨4⟩],
        (asm.types.handle? x).bind (asm.types.shapeAt 2) = some (.vector (.float 32) 4) :=
    Listing.exists_of_any_ok (by decide +kernel)
  obtain ⟨k, hk, hshapek⟩ := Option.bind_eq_some_iff.mp (hshape ⟨2⟩ (by decide))
  obtain ⟨k', hk', hshapek'⟩ := Option.bind_eq_some_iff.mp (hshape ⟨4⟩ (by decide))
  cases h : emitModule asm 1 5 with
  | error e => rw [h] at hrun; cases hrun
  | ok e =>
    rw [h] at hrun
    cases hrun
    obtain ⟨-, -, -, hsame⟩ := declared_once (.parsed hparse) h rfl
    exact ⟨asm, _, hparse, h, rfl, rfl, hsame _ _ k k' 2 2 _ hk hk' hshapek hshapek' nofun⟩

end ShaderIR.Spirv
