import ShaderIR.Proofs.Assembler.Names
import ShaderIR.Proofs.Listing.Contents
import ShaderIR.Proofs.Listing.Rebuilding

/-!
# Printing and reading again

The text of a listing may be sloppy: strings given twice, names for ids past the next one, interface
variables without a name.  The first reading settles all of that, and what is printed asks for
exactly the ids, strings and names that are there.
-/

namespace ShaderIR

variable {asm : Assembler} {l : List Instruction} {id : ResultId}

/-! ## Strings -/

namespace Interner

variable {α : Type} [DecidableEq α]

def insertAll (t : Interner α) (l : List α) : Interner α := l.foldl (fun t v => (t.insert v).2) t

variable {t : Interner α}

theorem insert_of_mem {v : α} (h : v ∈ t.values.toList) : (t.insert v).2 = t := by
  rw [insert, insertFull]
  cases hfind : t.find? v with
  | some i => rfl
  | none =>
    rw [find?, Array.findIdx?_eq_none_iff] at hfind
    have hne := hfind v (Array.mem_toList_iff.mp h)
    exact absurd rfl (of_decide_eq_false hne)

theorem insert_of_not_mem {v : α} (h : v ∉ t.values.toList) :
    (t.insert v).2 = ⟨t.values.push v⟩ := by
  have hnone : t.find? v = none := by
    rw [find?, Array.findIdx?_eq_none_iff]
    intro w hw
    exact decide_eq_false fun heq => h (heq ▸ Array.mem_toList_iff.mpr hw)
  rw [insert, insertFull, hnone]

theorem nodup_insertAll (h : t.values.toList.Nodup) (l : List α) :
    (t.insertAll l).values.toList.Nodup := by
  induction l generalizing t with
  | nil => exact h
  | cons v rest ih =>
    refine ih (t := (t.insert v).2) ?_
    by_cases hv : v ∈ t.values.toList
    · rw [insert_of_mem hv]
      exact h
    · rw [insert_of_not_mem hv, Array.toList_push, List.nodup_append]
      refine ⟨h, List.pairwise_singleton _ v, fun a ha b hb heq => hv ?_⟩
      rw [← List.mem_singleton.mp hb, ← heq]
      exact ha

theorem insertAll_of_nodup {l : List α} (h : (t.values.toList ++ l).Nodup) :
    t.insertAll l = ⟨(t.values.toList ++ l).toArray⟩ := by
  induction l generalizing t with
  | nil => rw [List.append_nil]; rfl
  | cons v rest ih =>
    have hv : v ∉ t.values.toList := fun hmem =>
      (List.nodup_append.mp h).2.2 v hmem v List.mem_cons_self rfl
    have hsplit : (t.insert v).2.values.toList ++ rest = t.values.toList ++ v :: rest := by
      rw [insert_of_not_mem hv, Array.toList_push, List.append_assoc, List.singleton_append]
    have hrest := ih (t := (t.insert v).2) (by rw [hsplit]; exact h)
    rw [hsplit] at hrest
    exact hrest

end Interner

namespace Listing.Contents

open Assembler

/-! ## What pushing leaves alone -/

/-- What a listing states beside its instructions, and the interface that follows from both. -/
def labels (asm : Assembler) : Interner String × NameTable × Array InterfaceVar :=
  (asm.strings, asm.names, asm.interface)

theorem labels_push (asm : Assembler) (inst : Instruction) :
    labels (asm.push inst) = labels asm := by
  rw [push_eq]
  rfl

variable {b b' : Rebuilding}

theorem labels_rebuildCode {l : List (Nat × Instruction)}
    (h : rebuildCode l b = .ok b') : labels b'.asm = labels b.asm := by
  refine (rebuildCode_eq_ok_iff.mp h).invariant (I := fun b' => labels b'.asm = labels b.asm)
    (fun {b1 inst b2} _ hadds hb => ?_) rfl
  obtain ⟨_, _, _, heq⟩ := hadds.asm_eq
  have hadded : labels b2.asm = labels (b1.asm.push inst) := by rw [heq]; rfl
  rw [hadded, labels_push, hb]

theorem labels_finish (asm : Assembler) : labels asm.finish = labels asm := by
  rw [finish_eq]
  rfl

/-! ## Names and the interface -/

theorem foldl_setName_eq (l : List (ResultId × String)) (asm : Assembler) :
    l.foldl (fun asm e => asm.setName e.1 e.2) asm = { asm with names := asm.names.nameAll l } := by
  induction l generalizing asm with
  | nil => rfl
  | cons e rest ih =>
    rw [List.foldl_cons, ih, NameTable.nameAll, NameTable.nameAll, List.foldl_cons, setName]
    by_cases hv : e.1.isVoid = true
    · rw [if_pos hv, if_pos hv]
    · rw [if_neg hv, if_neg hv]

def interfaceVar (names : NameTable) (inst : Instruction) (direction : Direction) : InterfaceVar :=
  { name := (names.get? inst.id).getD ("io" ++ toString inst.id.index)
    direction, var := inst.id, type := inst.refs.fst, location := inst.operands.fst }

theorem addInterface_cases (inst : Instruction) : (∃ direction, ∀ asm, addInterface asm inst =
      asm.registerInterface (interfaceVar asm.names inst direction)) ∨ ∀ asm,
        addInterface asm inst = asm := by
  by_cases hin : inst.opcode = .inputVar
  · exact .inl ⟨.input, fun asm => by rw [addInterface, hin]; rfl⟩
  by_cases hout : inst.opcode = .outputVar
  · exact .inl ⟨.output, fun asm => by rw [addInterface, hout]; rfl⟩
  refine .inr fun asm => ?_
  unfold addInterface
  split
  · contradiction
  · contradiction
  · rfl

variable {c : Contents}

/-- What holds of the stream of a listing, and of what is named, declared or finished after it,
    holds of what the listing is read as. -/
theorem rebuild_invariant {I : Assembler → Prop} (h : c.rebuild = .ok asm)
    (hstream : ∀ b, rebuildCode c.code.toList { asm := c.allocate } = .ok b → I b.asm)
    (hname : ∀ asm id name, I asm → I (asm.setName id name))
    (hregister : ∀ asm v, I asm → I (asm.registerInterface v))
    (hfinish : ∀ asm, I asm → I asm.finish) :
    I asm := by
  obtain ⟨-, b, hb, rfl⟩ := rebuild_ok h
  apply hfinish
  have hnamed : ∀ (l : List (ResultId × String)) (asm : Assembler), I asm →
      I (l.foldl (fun asm e => asm.setName e.1 e.2) asm) := by
    intro l
    induction l with
    | nil => exact fun _ hasm => hasm
    | cons e rest ih => exact fun asm hasm => ih _ (hname asm e.1 e.2 hasm)
  have hadded : ∀ (l : List (Nat × Instruction)) (asm : Assembler), I asm →
      I (l.foldl (fun asm e => addInterface asm e.2) asm) := by
    intro l
    induction l with
    | nil => exact fun _ hasm => hasm
    | cons e rest ih =>
      intro asm hasm
      apply ih
      show I (addInterface asm e.2)
      rcases addInterface_cases e.2 with ⟨d, hadd⟩ | hadd
      · rw [hadd]
        exact hregister asm _ hasm
      · rw [hadd]
        exact hasm
  have hall := hadded c.code.toList _ (hnamed c.names.toList _ (hstream b hb))
  rw [Array.foldl_toList, Array.foldl_toList] at hall
  exact hall

theorem get?_setName (asm : Assembler) (hid : id.index ≠ 0) (name : String) (j : ResultId) :
    (asm.setName id name).names.get? j = if id = j then some name else asm.names.get? j := by
  have hv : ¬ id.isVoid = true := fun hv => hid (ResultId.isVoid_iff.mp hv)
  rw [setName, if_neg hv]
  exact NameTable.get?_insert _ _ _ _

theorem setName_of_void (asm : Assembler) (hid : id.index = 0) (name : String) :
    asm.setName id name = asm := by
  rw [setName, if_pos (ResultId.isVoid_iff.mpr hid)]

theorem proper_setName (h : asm.names.Proper) (id : ResultId) (name : String) :
    (asm.setName id name).names.Proper := by
  unfold setName
  split
  · exact h
  next hv => exact h.insert (fun hid => hv (ResultId.isVoid_iff.mpr hid)) name

theorem proper_addInterface (h : asm.names.Proper) (inst : Instruction) :
    (addInterface asm inst).names.Proper := by
  rcases addInterface_cases inst with ⟨d, hadd⟩ | hadd
  · rw [hadd]
    exact proper_setName h _ _
  · rw [hadd]
    exact h

theorem get?_addInterface {name : String} (h : asm.names.get? id = some name) (inst : Instruction) :
    (addInterface asm inst).names.get? id = some name := by
  rcases addInterface_cases inst with ⟨d, hadd⟩ | hadd
  · rw [hadd]
    change (asm.setName inst.id (interfaceVar asm.names inst d).name).names.get? id = some name
    by_cases hid : inst.id.index = 0
    · rw [setName_of_void asm hid]
      exact h
    · rw [get?_setName asm hid]
      split
      next heq => rw [interfaceVar, heq, h, Option.getD_some]
      next => exact h
  · rw [hadd]
    exact h

theorem get?_foldl_addInterface {name : String} (h : asm.names.get? id = some name) :
    (l.foldl addInterface asm).names.get? id = some name := by
  induction l generalizing asm with
  | nil => exact h
  | cons inst rest ih => exact ih (get?_addInterface h inst)

theorem proper_foldl_addInterface (h : asm.names.Proper) :
    (l.foldl addInterface asm).names.Proper := by
  induction l generalizing asm with
  | nil => exact h
  | cons inst rest ih => exact ih (proper_addInterface h inst)

theorem foldl_addInterface_eq (l : List Instruction) (asm : Assembler) :
    ∃ names interface, l.foldl addInterface asm = { asm with names, interface } := by
  induction l generalizing asm with
  | nil => exact ⟨asm.names, asm.interface, rfl⟩
  | cons inst rest ih =>
    obtain ⟨names, interface, hrest⟩ := ih (addInterface asm inst)
    refine ⟨names, interface, ?_⟩
    rw [List.foldl_cons, hrest]
    rcases addInterface_cases inst with ⟨d, hadd⟩ | hadd
    · rw [hadd, registerInterface, setName]
      split <;> rfl
    · rw [hadd]

theorem mem_foldl_addInterface {e : ResultId × String}
    (h : e ∈ (l.foldl addInterface asm).names.entries) :
    e ∈ asm.names.entries ∨ ∃ inst ∈ l, inst.id = e.1 := by
  induction l generalizing asm with
  | nil => exact .inl h
  | cons inst rest ih =>
    rcases ih h with h | ⟨i, hi, heq⟩
    · rcases addInterface_cases inst with ⟨d, hadd⟩ | hadd
      · rw [hadd] at h
        change e ∈ (asm.setName inst.id _).names.entries at h
        unfold setName at h
        split at h
        · exact .inl h
        · rcases NameTable.mem_insert h with rfl | h
          · exact .inr ⟨inst, List.mem_cons_self, rfl⟩
          · exact .inl h
      · rw [hadd] at h
        exact .inl h
    · exact .inr ⟨i, List.mem_cons_of_mem _ hi, heq⟩

theorem addInterface_again {inst : Instruction} {first again : Assembler}
    (hfirst : first.names.Proper) (hagain : again.names.Proper)
    (hinterface : again.interface = first.interface)
    (hnames : ∀ name, (addInterface first inst).names.get? inst.id = some name →
      again.names.get? inst.id = some name) : addInterface again inst
      = { again with interface := (addInterface first inst).interface } := by
  rcases addInterface_cases inst with ⟨d, hadd⟩ | hadd
  · have hpush : (addInterface first inst).interface
        = first.interface.push (interfaceVar first.names inst d) := by
      rw [hadd, registerInterface, setName]
      split <;> rfl
    -- Both times the variable has the same name, and setting it again changes nothing.
    have hsame : interfaceVar again.names inst d = interfaceVar first.names inst d ∧
        again.setName inst.id (interfaceVar first.names inst d).name = again := by
      by_cases hid : inst.id.index = 0
      · have hvoid : inst.id = .void := ResultId.ext_index hid
        refine ⟨?_, setName_of_void again hid _⟩
        rw [interfaceVar, interfaceVar, hvoid, hfirst.get?_void, hagain.get?_void]
      · have hlate : (addInterface first inst).names.get? inst.id
            = some (interfaceVar first.names inst d).name := by
          rw [hadd]
          change (first.setName inst.id _).names.get? inst.id = _
          rw [get?_setName first hid, if_pos rfl]
        have hget := hnames _ hlate
        have hv : ¬ inst.id.isVoid = true := fun hv => hid (ResultId.isVoid_iff.mp hv)
        constructor
        · rw [interfaceVar, hget, Option.getD_some]
          rfl
        · rw [setName, if_neg hv, hagain.insert_of_get? hget]
    have hset : again.setName (interfaceVar first.names inst d).var
        (interfaceVar first.names inst d).name = again := hsame.2
    rw [hpush, hadd, registerInterface, hsame.1, hset, hinterface]
  · rw [hadd, hadd, ← hinterface]

/-- **With all the names there from the start, the same interface comes out**, and no name is
    added. -/
theorem foldl_addInterface_again {first again : Assembler} (hfirst : first.names.Proper)
    (hagain : again.names.Proper) (hinterface : again.interface = first.interface)
    (hnames : ∀ id name, (l.foldl addInterface first).names.get? id = some name →
      again.names.get? id = some name) : l.foldl addInterface again
      = { again with interface := (l.foldl addInterface first).interface } := by
  induction l generalizing first again with
  | nil => rw [List.foldl_nil, List.foldl_nil, ← hinterface]
  | cons inst rest ih =>
    -- Names are never taken back, so the names at the end include those after the first step.
    have hkept : ∀ name, (addInterface first inst).names.get? inst.id = some name →
        again.names.get? inst.id = some name :=
      fun name hname => hnames _ name (get?_foldl_addInterface (l := rest) hname)
    rw [List.foldl_cons, List.foldl_cons, addInterface_again hfirst hagain hinterface hkept]
    exact ih (proper_addInterface hfirst inst) hagain rfl hnames

/-! ## The ids and strings asked for -/

theorem maxIndex_le_iff {n : Nat} :
    c.maxIndex ≤ n ↔ (∀ inst ∈ c.code.toList.map (·.2), instIndex inst ≤ n) ∧
      ∀ e ∈ c.names.toList, e.1.index ≤ n := by
  rw [maxIndex_eq, foldl_max_le_iff (f := fun e : ResultId × String => e.1.index),
    foldl_max_le_iff (f := fun e : Nat × Instruction => instIndex e.2)]
  simp only [Nat.zero_le, true_and, List.forall_mem_map]

theorem maxIndex_lt_of_allInWords (h : c.AllInWords) : c.maxIndex < UInt32.size := by
  have hsize : UInt32.size = 4294967296 := rfl
  have hle : c.maxIndex ≤ 4294967295 := by
    rw [maxIndex_le_iff]
    constructor
    · intro inst hinst
      obtain ⟨e, he, rfl⟩ := List.mem_map.mp hinst
      obtain ⟨hid, hslots⟩ := h.code e he
      refine foldl_max_le_iff.mpr ⟨by omega, fun r hr => ?_⟩
      have hr := hslots r hr
      omega
    · intro e he
      have hname := h.names e he
      omega
  omega

variable {c c' : Contents}

/-- The next id, cut to a word, still asks for as many ids as there are. -/
theorem bound_again (h : c.AllInWords) (hmax : c'.maxIndex = c.maxIndex)
    (hnext : c'.next = c.bound % UInt32.size) : c'.bound = c.bound := by
  have hsize : UInt32.size = 4294967296 := rfl
  have hlt := maxIndex_lt_of_allInWords h
  have hword := h.next
  have hbound : c.bound = max c.next (c.maxIndex + 1) := rfl
  rw [bound, hmax, hnext, hsize]
  omega

theorem opcodes_congr (hbound : c'.bound = c.bound)
    (hcode : c'.code.toList.map (·.2) = c.code.toList.map (·.2)) : c'.opcodes = c.opcodes := by
  have hfold : ∀ c : Contents, c.opcodes = (c.code.toList.map (·.2)).foldl
      (fun table inst => if inst.id.isVoid then table
        else table.modify inst.id.index fun op => if op = .unknown then inst.opcode else op)
      (.replicate c.bound .unknown) := by
    intro c
    rw [List.foldl_map, opcodes, Array.foldl_toList]
  rw [hfold, hfold, hbound, hcode]

def allocated (ops : List Opcode) : Assembler :=
  ops.foldl (fun asm op => (asm.create op).2) .empty

theorem labels_allocated (ops : List Opcode) : labels (allocated ops) = ({}, {}, #[]) := by
  have hfold : ∀ (ops : List Opcode) (asm : Assembler),
      labels (ops.foldl (fun asm op => (asm.create op).2) asm) = labels asm := by
    intro ops
    induction ops with
    | nil => intro asm; rfl
    | cons op rest ih => intro asm; exact ih _
  exact hfold ops .empty

theorem foldl_addString_eq (l : List String) (asm : Assembler) :
    l.foldl (fun asm s => (asm.addString s).2) asm =
      { asm with strings := asm.strings.insertAll l } := by
  induction l generalizing asm with
  | nil => rfl
  | cons s rest ih => exact ih _

theorem allocate_eq (c : Contents) :
    c.allocate = { allocated (c.opcodes.toList.drop 1) with
      strings := Interner.insertAll {} c.strings.toList } := by
  have hstrings : (allocated (c.opcodes.toList.drop 1)).strings = {} :=
    congrArg (·.1) (labels_allocated _)
  rw [allocate, ← Array.foldl_toList, foldl_addString_eq, ← hstrings]
  rfl

theorem labels_allocate (c : Contents) :
    labels c.allocate = (Interner.insertAll {} c.strings.toList, {}, #[]) := by
  rw [allocate_eq]
  have hrest := congrArg (·.2) (labels_allocated (c.opcodes.toList.drop 1))
  exact congrArg (fun r => (Interner.insertAll {} c.strings.toList, r)) hrest

theorem code_allocate (c : Contents) : c.allocate.code = #[] := by
  have hfold : ∀ (ops : List Opcode) (asm : Assembler),
      (ops.foldl (fun asm op => (asm.create op).2) asm).code = asm.code := by
    intro ops
    induction ops with
    | nil => intro asm; rfl
    | cons op rest ih => intro asm; exact ih _
  rw [allocate_eq]
  exact hfold _ .empty

theorem allocate_again (hbound : c'.bound = c.bound)
    (hcode : c'.code.toList.map (·.2) = c.code.toList.map (·.2))
    (hstrings : c'.strings = (Interner.insertAll {} c.strings.toList).values) :
    c'.allocate = c.allocate := by
  have hnodup := Interner.nodup_insertAll (t := ({} : Interner String)) .nil c.strings.toList
  have hagain := Interner.insertAll_of_nodup (t := ({} : Interner String)) hnodup
  rw [allocate_eq, allocate_eq, opcodes_congr hbound hcode, hstrings, hagain]
  rfl

/-! ## The listing -/

theorem rebuild_eq_ok_iff : c.rebuild = .ok asm ↔ c.bound ≤ c.limit ∧ ∃ b,
      rebuildCode c.code.toList { asm := c.allocate } = .ok b ∧
      asm = ((c.code.toList.map (·.2)).foldl addInterface
        { b.asm with names := b.asm.names.nameAll c.names.toList }).finish := by
  have hnames : ∀ asm : Assembler, c.names.foldl (fun asm e => asm.setName e.1 e.2) asm
      = { asm with names := asm.names.nameAll c.names.toList } := by
    intro asm
    rw [← foldl_setName_eq, Array.foldl_toList]
  have hinterface : ∀ asm : Assembler, c.code.foldl (fun asm e => addInterface asm e.2) asm
      = (c.code.toList.map (·.2)).foldl addInterface asm := by
    intro asm
    rw [List.foldl_map, Array.foldl_toList]
  constructor
  · intro h
    obtain ⟨hlimit, b, hb, rfl⟩ := rebuild_ok h
    refine ⟨hlimit, b, hb, ?_⟩
    rw [← hnames, ← hinterface]
  · rintro ⟨hlimit, b, hb, rfl⟩
    rw [rebuild, if_neg (Nat.not_lt.mpr hlimit), hb, ← hnames, ← hinterface]
    rfl

def withInterface (c : Contents) (asm : Assembler) : Assembler :=
  (c.code.toList.map (·.2)).foldl addInterface { asm with names := NameTable.nameAll {} c.names.toList }

theorem proper_withInterface (c : Contents) (asm : Assembler) :
    (c.withInterface asm).names.Proper :=
  proper_foldl_addInterface (NameTable.proper_empty.nameAll c.names.toList)

theorem index_le_of_mem_withInterface {e : ResultId × String}
    (he : e ∈ (c.withInterface asm).names.entries) : e.1.index ≤ c.maxIndex := by
  obtain ⟨hcode, hnames⟩ := maxIndex_le_iff.mp (Nat.le_refl c.maxIndex)
  rcases mem_foldl_addInterface he with he | ⟨inst, hinst, heq⟩
  · rcases NameTable.mem_nameAll he with he | he
    · cases he
    · exact hnames e he
  · rw [← heq]
    exact Nat.le_trans (id_le_instIndex inst) (hcode inst hinst)

/-- An assembler that was read, part by part: what its instructions gave and where the rest comes
    from. -/
structure Rebuilt (c : Contents) (b : Rebuilding) (asm : Assembler) : Prop where
  stream : rebuildCode c.code.toList { asm := c.allocate } = .ok b
  namesBefore : b.asm.names = {}
  eq_finish : asm = (c.withInterface b.asm).finish
  strings : asm.strings = Interner.insertAll {} c.strings.toList
  names : asm.names = (c.withInterface b.asm).names
  code : asm.code.toList = c.code.toList.map (·.2)
  size_ids : asm.ids.size = c.bound

theorem exists_withInterface (c : Contents) (b : Assembler) :
    ∃ names interface, c.withInterface b = { b with names, interface } :=
  foldl_addInterface_eq ..

theorem Rebuilt.exists_eq_finish (h : Rebuilt c b asm) :
    ∃ names interface, asm = ({ b.asm with names, interface } : Assembler).finish := by
  obtain ⟨names, interface, hparts⟩ := c.exists_withInterface b.asm
  exact ⟨names, interface, hparts ▸ h.eq_finish⟩

theorem exists_rebuilt (h : c.rebuild = .ok asm) : c.bound ≤ c.limit ∧ ∃ b, Rebuilt c b asm := by
  obtain ⟨hlimit, b, hb, hasm⟩ := rebuild_eq_ok_iff.mp h
  have hlabels := (labels_rebuildCode hb).trans c.labels_allocate
  have hstrings : b.asm.strings = Interner.insertAll {} c.strings.toList := congrArg (·.1) hlabels
  have hnames : b.asm.names = {} := congrArg (·.2.1) hlabels
  rw [hnames] at hasm
  change asm = (c.withInterface b.asm).finish at hasm
  obtain ⟨names, interface, hparts⟩ := c.exists_withInterface b.asm
  have hreads := rebuildCode_eq_ok_iff.mp hb
  have hcode := hreads.code
  have hsize := hreads.size_ids
  have hlabels' := (congrArg labels hasm).trans (labels_finish (c.withInterface b.asm))
  refine ⟨hlimit, b, hb, hnames, hasm, ?_, congrArg (·.2.1) hlabels', ?_, ?_⟩
  · have hkept : asm.strings = (c.withInterface b.asm).strings := congrArg (·.1) hlabels'
    rw [hkept, hparts]
    exact hstrings
  · rw [hasm, code_finish, hparts, ← List.nil_append (c.code.toList.map _)]
    rw [code_allocate] at hcode
    exact hcode
  · rw [hasm, ids_finish, hparts]
    exact hsize.trans c.size_ids_allocate

/-- No id but void loses its name, and no other gets one. -/
theorem maxIndex_again (hnames : c'.names.toList = (c.withInterface asm).names.entries)
    (hcode : c'.code.toList.map (·.2) = c.code.toList.map (·.2)) : c'.maxIndex = c.maxIndex := by
  have hcodeLe := (maxIndex_le_iff.mp (Nat.le_refl c.maxIndex)).1
  obtain ⟨hcodeLe', hnamesLe'⟩ := maxIndex_le_iff.mp (Nat.le_refl c'.maxIndex)
  rw [hcode] at hcodeLe'
  apply Nat.le_antisymm
  · -- A name that comes out was given, or belongs to a variable of the stream.
    refine maxIndex_le_iff.mpr ⟨by rw [hcode]; exact hcodeLe, fun e he => ?_⟩
    rw [hnames] at he
    exact index_le_of_mem_withInterface he
  · -- A name that went in comes out, unless it was given to void.
    refine maxIndex_le_iff.mpr ⟨hcodeLe', fun e he => ?_⟩
    by_cases hid : e.1.index = 0
    · omega
    · obtain ⟨name, hname⟩ := NameTable.exists_get?_nameAll (t := {}) hid (.inr ⟨e, he, rfl⟩)
      have hlate : (c.withInterface asm).names.get? e.1 = some name :=
        get?_foldl_addInterface hname
      have hmem := NameTable.mem_of_get? hlate
      rw [← hnames] at hmem
      exact hnamesLe' (e.1, name) hmem

/-- **Contents that state what an assembler holds give that assembler**, if it came from contents
    itself. -/
theorem rebuild_again (h : c.rebuild = .ok asm) (hwords : c.AllInWords)
    (hnext : c'.next = asm.next.index) (hstrings : c'.strings = asm.strings.values)
    (hnames : c'.names.toList = asm.names.entries)
    (hcode : c'.code.toList.map (·.2) = asm.code.toList) : c'.rebuild = .ok asm := by
  obtain ⟨hlimit, b, hr⟩ := exists_rebuilt h
  -- The same ids are asked for, under the same limit.
  have hcode' : c'.code.toList.map (·.2) = c.code.toList.map (·.2) := hcode.trans hr.code
  have hmax : c'.maxIndex = c.maxIndex := maxIndex_again (hr.names ▸ hnames) hcode'
  have hbound : c'.bound = c.bound := by
    refine bound_again hwords hmax ?_
    rw [hnext, Assembler.next, hr.size_ids]
  have hsize : c'.code.size = c.code.size := by
    have hlength := congrArg List.length hcode'
    rwa [List.length_map, List.length_map] at hlength
  have halloc : c'.allocate = c.allocate :=
    allocate_again hbound hcode' (by rw [hstrings, hr.strings])
  refine rebuild_eq_ok_iff.mpr ⟨?_, b, ?_, ?_⟩
  · rw [hbound, limit, hsize]
    exact hlimit
  · rw [halloc]
    exact rebuildCode_eq_ok_iff.mpr (hcode' ▸ rebuildCode_eq_ok_iff.mp hr.stream)
  · -- The names are all there before the interface is gone through once more.
    have hproper := c.proper_withInterface b.asm
    have hgiven : NameTable.nameAll {} c'.names.toList = (c.withInterface b.asm).names := by
      rw [hnames, hr.names, hproper.nameAll_entries]
    have hagain : (c.code.toList.map (·.2)).foldl addInterface
          { b.asm with names := (c.withInterface b.asm).names }
        = { b.asm with
            names := (c.withInterface b.asm).names
            interface := (c.withInterface b.asm).interface } :=
      foldl_addInterface_again (NameTable.proper_empty.nameAll c.names.toList) hproper rfl fun _ _ h => h
    obtain ⟨names, interface, hparts⟩ := c.exists_withInterface b.asm
    rw [hr.eq_finish, hcode', hr.namesBefore, hgiven, hagain, hparts]

end Listing.Contents

namespace Listing

/-- **What was read from a listing is read again from its own listing**, with all its tables and the
    recorded problems. -/
theorem parse_print_of_parse {text : String} {asm : Assembler} (h : parse text = .ok asm) :
    parse (print asm) = .ok asm := by
  obtain ⟨c, hc, hasm⟩ := exists_of_bind_eq_ok h
  have hwords := allInWords_of_ofText hc
  obtain ⟨-, b, hr⟩ := Contents.exists_rebuilt hasm
  -- What was read fits into words, so it can be printed and read once more.
  have hnames : ∀ e ∈ asm.names.entries, e.1.index < UInt32.size := by
    intro e he
    rw [hr.names] at he
    exact Nat.lt_of_le_of_lt (Contents.index_le_of_mem_withInterface he)
      (Contents.maxIndex_lt_of_allInWords hwords)
  have hcode : ∀ inst ∈ asm.code.toList, InWords inst := by
    intro inst hinst
    rw [hr.code] at hinst
    obtain ⟨e, he, rfl⟩ := List.mem_map.mp hinst
    exact hwords.code e he
  obtain ⟨c', hc', hnext, hstrings, hnames', hcode'⟩ := ofText_print hnames hcode
  have hagain := Contents.rebuild_again hasm hwords hnext hstrings hnames' hcode'
  rw [parse, hc']
  exact hagain

def sloppyText : String :=
  "@next %2\n@string \"a;b\"\n@string \"a;b\"\n@name %3 \"later\"\n" ++
  "%1 = VAR_SHADER_IN [0, 0, 0] (%0, %0, %0) : %0 ; unnamed\n"

theorem parse_print_sloppyText : ∃ asm, parse sloppyText = .ok asm ∧
    asm.names.entries = [(⟨1⟩, "io1"), (⟨3⟩, "later")] ∧ parse (print asm) = .ok asm := by
  have hnames : (parse sloppyText).toOption.map (·.names.entries)
      = some [(⟨1⟩, "io1"), (⟨3⟩, "later")] := by decide +kernel
  cases h : parse sloppyText with
  | error e => rw [h] at hnames; cases hnames
  | ok asm =>
    rw [h] at hnames
    exact ⟨asm, rfl, Option.some.inj hnames, parse_print_of_parse h⟩

end Listing

end ShaderIR
