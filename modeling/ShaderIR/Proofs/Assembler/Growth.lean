import ShaderIR.Proofs.Assembler.SharedTypes
import ShaderIR.Proofs.Listing.Steps

/-!
# How an assembler grows

`Grows` lists the steps by which a stream is built by hand, and what is known when they are taken
without problems, so that an invariant is checked once for each of them.  The three invariants below
say that types are shared, that members of structs are types, and that strings differ and names
belong to ids.
-/

namespace ShaderIR

variable {members : List (String × ResultId)} {asm : Assembler} {name : String} {inst : Instruction}

/-- Opcodes that may be pushed by hand: they declare no type and no interface variable and are no
    markers of sections. -/
def Opcode.isBody (op : Opcode) : Bool :=
  !op.isType && op.opens?.isNone && op.closes?.isNone && op != .inputVar && op != .outputVar

def Opcode.isInterface (op : Opcode) : Bool := op == .inputVar || op == .outputVar

theorem Opcode.isBody_iff {op : Opcode} : op.isBody = true ↔
    op.isType = false ∧ op.opens? = none ∧ op.closes? = none ∧ op.isInterface = false := by
  simp [isBody, isInterface, and_assoc]

theorem NameTable.Proper.get?_of_mem {t : NameTable} (h : t.Proper) {id : ResultId}
    (hmem : (id, name) ∈ t.entries) : t.get? id = some name := by
  have hdistinct : (t.entries.map (·.1)).Nodup := by
    refine List.pairwise_map.mpr (h.sorted.imp fun hlt heq => ?_)
    exact absurd (congrArg ResultId.index heq) (Nat.ne_of_lt hlt)
  exact (Table.get?_eq_some_iff_mem (t := ⟨t.entries⟩) hdistinct).mpr hmem

namespace Assembler

/-! ## Steps -/

/-- What may be done to an assembler whose listing is to say all of it. -/
def PermitsListing (asm : Assembler) : Operation → Prop
  | .create _ | .pushStruct _ _ | .pushInterface _ _ _ | .addString _ | .flatten => True
  | .push inst | .pushNew inst | .pushValue inst _ => inst.opcode.isBody = true
  | .beginSection header => header.opcode = .function ∨ header.opcode = .stageBegin
  | .endSection footer => footer.opcode = .functionEnd ∨ footer.opcode = .stageEnd
  | .pushType inst => inst.id.isVoid = true
  | .setName id _ => asm.isAllocated id = true
  | .replace old new => asm.types.handle? old = none ∧ asm.types.handle? new = none
  | _ => False

instance (asm : Assembler) : DecidablePred asm.PermitsListing
  | .create _ | .pushStruct _ _ | .pushInterface _ _ _ | .addString _ | .flatten => .isTrue trivial
  | .push _ | .pushNew _ | .pushValue _ _ | .pushType _ | .setName _ _ => inferInstanceAs (Decidable (_ = _))
  | .beginSection _ | .endSection _ => inferInstanceAs (Decidable (_ ∨ _))
  | .replace _ _ => inferInstanceAs (Decidable (_ ∧ _))
  | .pushMany _ | .pushLoop _ | .popLoop | .pushLoopExit _ | .finish | .modifyLayout _ _ | .convert _ _ _
  | .unifyOperands _ _ _ | .mergeLiterals => .isFalse id

inductive Grows (asm : Assembler) : Assembler → Prop
  | create (op : Opcode) : Grows asm (asm.create op).2
  | push {inst : Instruction} : asm.Accepts inst → inst.opcode.isBody = true → Grows asm (asm.push inst)
  | opens {header : Instruction} {kind : SectionKind} : asm.Accepts header →
      header.opcode.opens? = some kind → kind ≠ .record → Grows asm (asm.opened header kind)
  | closes {footer : Instruction} {s : OpenSection} {outer : List OpenSection} : asm.Accepts footer →
      footer.opcode.closes? = some s.kind → s.kind ≠ .record → asm.openSections = s :: outer →
      Grows asm (asm.closed footer s outer)
  | type {inst : Instruction} {d : TypeDesc} : asm.Accepts inst → inst.id.index ≠ 0 →
      asm.describe inst = .ok d → asm.types.declared? d = none →
      Grows asm { asm.push inst with types := asm.types.declare inst.id d }
  | struct {name : String} {members : List (String × ResultId)} :
      (asm.pushStruct name members).2.Clean → Grows asm (asm.pushStruct name members).2
  | interface {inst : Instruction} {v : InterfaceVar} : asm.Accepts inst → inst.id.index ≠ 0 →
      inst.opcode.isInterface = true → v.var = inst.id → Grows asm ((asm.push inst).registerInterface v)
  | addString (s : String) : Grows asm (asm.addString s).2
  | setName {id : ResultId} (name : String) : asm.isAllocated id = true → Grows asm (asm.setName id name)
  | replace {old new : ResultId} : asm.types.handle? old = none → (asm.replace old new).2.Clean →
      Grows asm (asm.replace old new).2
  | flatten : Grows asm asm.flatten.2

inductive Grown : Assembler → Prop
  | empty : Grown .empty
  | step {a b : Assembler} : Grown a → Grows a b → Grown b

theorem isType_of_isInterface {op : Opcode} (h : op.isInterface = true) : op.isType = false := by
  cases op <;> first | rfl | cases h

theorem Grown.sharesTypes (h : Grown asm) : asm.SharesTypes := by
  induction h with
  | empty => exact sharesTypes_empty
  | step _ hstep ih =>
    cases hstep with
    | create op => exact ih.create op
    | push haccepts hop => exact ih.push haccepts (Opcode.isBody_iff.mp hop).1
    | opens haccepts hkind hne =>
      refine (ih.push haccepts ?_).same rfl rfl rfl
      rcases Opcode.eq_of_opens? hkind hne with hop | hop <;> rw [hop] <;> rfl
    | closes haccepts hkind hne =>
      refine (ih.push haccepts ?_).same rfl rfl rfl
      rcases Opcode.eq_of_closes? hkind hne with hop | hop <;> rw [hop] <;> rfl
    | type haccepts hz hd hnone => exact ih.declare haccepts hz hd hnone
    | struct hclean => exact ih.pushStruct hclean
    | interface haccepts hz hop hvar =>
      have hpushed := ih.push haccepts (isType_of_isInterface hop)
      exact (hpushed.setName _ _).same rfl rfl rfl
    | addString s => exact ih.same rfl rfl rfl
    | setName name => exact ih.setName _ name
    | replace hold => exact ih.replace hold _
    | flatten => exact ih.flatten

theorem Grown.run {o : Operation} (h : Grown asm) (hpermits : asm.PermitsListing o)
    (hclean : (o.run asm).Clean) : Grown (o.run asm) := by
  have hnew : ∀ inst : Instruction, inst.opcode.isBody = true → (asm.pushNew inst).2.Clean →
      Grown (asm.pushNew inst).2 := by
    intro inst hop hclean
    exact (h.step (.create inst.opcode)).step (.push (clean_push.mp hclean).2 hop)
  have hpos := h.sharesTypes.coherent.exact.nonempty
  generalize hafter : o.run asm = after at hclean ⊢
  cases hafter ▸ o.does asm with
  | refused => exact h
  | opened hkind =>
    refine h.step (.opens (clean_push.mp hclean).2 hkind ?_)
    rcases hpermits with hop | hop <;> rw [hop] at hkind <;> cases hkind <;> nofun
  | closed hkind hopen =>
    refine h.step (.closes (clean_push.mp hclean).2 hkind ?_ hopen)
    intro hrecord
    rw [hrecord] at hkind
    rcases hpermits with hop | hop <;> rw [hop] at hkind <;> cases hkind
  | exited | layout => exact hpermits.elim
  | @interface direction name type id after heq =>
    rcases pushInterface_cases heq with rfl | rfl
    · exact h
    · have hpushed : (asm.pushNew (asm.interfaceDecl direction type)).2.Clean := clean_setName.mp hclean
      refine (h.step (.create direction.opcode)).step (.interface (clean_push.mp hpushed).2 ?_ ?_ rfl)
      · exact Nat.ne_of_gt hpos
      · cases direction <;> rfl
  | @type inst id after heq =>
    obtain ⟨d, hd, ⟨-, rfl⟩ | ⟨hnone, -, rfl⟩⟩ := pushType_cases hpermits heq
    · exact h
    · refine (h.step (.create inst.opcode)).step
        (@Grows.type _ { inst with id := ⟨asm.ids.size⟩ } d (clean_push.mp hclean).2 ?_ hd hnone)
      exact Nat.ne_of_gt hpos
  | always hop =>
    cases o with
    | create opcode => exact h.step (.create opcode)
    | push inst => exact h.step (.push (clean_push.mp hclean).2 hpermits)
    | pushNew inst => exact hnew inst hpermits hclean
    | pushValue inst type => exact hnew { inst with resultType := type } hpermits hclean
    | replace old new => exact h.step (.replace hpermits.1 hclean)
    | addString s => exact h.step (.addString s)
    | setName id name => exact h.step (.setName name hpermits)
    | pushStruct name members => exact h.step (.struct hclean)
    | flatten => exact h.step .flatten
    | _ => first | exact hpermits.elim | cases hop

theorem grown_of_history (h : History PermitsListing asm) (hclean : asm.Clean) : Grown asm :=
  h.invariant hclean .empty fun _ _ _ hpermits hclean hasm => hasm.run hpermits hclean

section

variable {asm : Assembler} (h : asm.Coherent) {i : Nat} {x : Instruction} (hx : asm.code[i]? = some x)
include h hx

theorem Coherent.newId_of_removed (hi : flagged asm.sweep.removed i = true)
    (htype : x.opcode.isType = true) : (asm.newId x.id).index = 0 := by
  obtain ⟨d, hmarked, hdoomed⟩ := (flagged_removed_sweep h.exact i).mp hi
  rw [← eq_of_mem_doomed h.sound hdoomed hx htype] at hmarked
  by_cases hz : (asm.newId x.id).index = 0
  · exact hz
  · have hkept := (kept_of_newId hz).2
    rw [hmarked] at hkept
    cases hkept

end

/-! ## The instructions of a struct -/

def memberTrailer (i : Nat) (m : String × ResultId) (strings : Interner String) : Instruction :=
  { opcode := .structMember, operands := ⟨i.toUInt32, (strings.insert m.1).1.toUInt32, 0⟩,
    refs := ⟨m.2, .void, .void⟩ }

def memberTrailers : Nat → List (String × ResultId) → Interner String → List Instruction
  | _, [], _ => []
  | i, m :: rest, strings =>
    memberTrailer i m strings :: memberTrailers (i + 1) rest (strings.insert m.1).2

def structCode (asm : Assembler) (name : String) (members : List (String × ResultId)) :
    List Instruction :=
  asm.structHeader name members.length ::
    (memberTrailers 0 members (asm.strings.insert name).2 ++ [structFooter ⟨asm.ids.size⟩])

theorem parts_pushMembers (i : Nat) (members : List (String × ResultId)) (asm : Assembler) :
    (pushMembers i members asm).code.toList = asm.code.toList ++
      memberTrailers i members asm.strings ∧
      (pushMembers i members asm).strings = asm.strings.insertAll (members.map (·.1)) ∧
      (pushMembers i members asm).ids.size = asm.ids.size := by
  induction members generalizing i asm with
  | nil => exact ⟨(List.append_nil _).symm, rfl, rfl⟩
  | cons m rest ih =>
    obtain ⟨hcode, hstrings, hsize⟩ := ih (i + 1) ((asm.addString m.1).2.push (asm.structTrailer i m))
    rw [pushMembers_cons, hcode, hstrings, hsize, code_push, strings_push, size_ids_push]
    refine ⟨?_, rfl, rfl⟩
    rw [Array.toList_push, List.append_assoc]
    rfl

theorem mem_memberTrailers {m : String × ResultId} (hm : m ∈ members) (i : Nat)
    (strings : Interner String) :
    ∃ x ∈ memberTrailers i members strings, x.opcode = .structMember ∧ x.refs.fst = m.2 := by
  induction members generalizing i strings with
  | nil => cases hm
  | cons first rest ih =>
    rcases List.mem_cons.mp hm with rfl | hm
    · exact ⟨_, List.mem_cons_self, rfl, rfl⟩
    · obtain ⟨x, hx, hmember⟩ := ih hm (i + 1) (strings.insert first.1).2
      exact ⟨x, List.mem_cons_of_mem _ hx, hmember⟩

theorem opcode_of_mem_memberTrailers {x : Instruction} {i : Nat}
    {strings : Interner String} (hx : x ∈ memberTrailers i members strings) :
    x.opcode = .structMember := by
  induction members generalizing i strings with
  | nil => cases hx
  | cons m rest ih =>
    rcases List.mem_cons.mp hx with rfl | hx
    · rfl
    · exact ih hx

structure DeclaresStruct (asm after : Assembler) (name : String)
    (members : List (String × ResultId)) : Prop where
  code : after.code.toList = asm.code.toList ++ asm.structCode name members
  ids : after.ids.size = asm.ids.size + 1
  opened : after.openSections = asm.openSections
  closed : after.closedSections = asm.closedSections.push (asm.structSection members.length)
  strings : after.strings = asm.strings.insertAll (name :: members.map (·.1))
  names : after.names = (asm.setName ⟨asm.ids.size⟩ name).names
  types : after.types = asm.types.declareStruct ⟨asm.ids.size⟩ { name, members }

theorem declaresStruct_of_clean (hclean : (asm.pushStruct name members).2.Clean) :
    DeclaresStruct asm (asm.pushStruct name members).2 name members := by
  obtain ⟨-, -, -, -, heq⟩ := pushStruct_of_clean hclean
  obtain ⟨hcode, hstrings, hsize⟩ := parts_pushMembers 0 members (asm.structOpened name members.length)
  have hended := asm.structEnded_eq name members
  have hopened : (asm.structOpened name members.length).strings = (asm.strings.insert name).2 :=
    strings_push ..
  rw [heq, setName_eq]
  refine ⟨?_, ?_, ?_, rfl, ?_, ?_, rfl⟩
  · show (asm.structEnded name members).code.toList = _
    rw [structEnded, code_push, Array.toList_push, hcode, hopened, structOpened, code_push, Array.toList_push]
    simp [structCode]
  · show (asm.structEnded name members).ids.size = _
    rw [structEnded, size_ids_push, hsize, structOpened, size_ids_push]
    exact Array.size_push _
  · show (asm.structEnded name members).openSections = _
    rw [hended]
  · show (asm.structEnded name members).strings = _
    rw [structEnded, strings_push, hstrings, hopened]
    rfl
  · show NameTable.nameAll (asm.structEnded name members).names _ = _
    rw [hended, setName_eq]

/-! ## Members are types -/

/-- Members of structs are types, and the stream lists them. -/
def MembersStand (asm : Assembler) : Prop :=
  ∀ l layout m, asm.types.layout? l = some layout → m ∈ layout.members →
    (asm.types.handle? m.2).isSome = true ∧ asm.HasMember m.2

namespace MembersStand

variable {a b : Assembler} (h : a.MembersStand)
include h

theorem grows (hcode : ∀ x ∈ a.code.toList, x ∈ b.code.toList)
    (hhandle : ∀ {r}, (a.types.handle? r).isSome = true → (b.types.handle? r).isSome = true)
    (hlayout : ∀ l, b.types.layout? l = a.types.layout? l) : b.MembersStand := by
  intro l layout m hl hm
  rw [hlayout] at hl
  obtain ⟨htype, x, hx, hmember⟩ := h _ _ _ hl hm
  exact ⟨hhandle htype, x, hcode x hx, hmember⟩

theorem push (hcode : b.code = a.code.push inst) (htypes : b.types = a.types) : b.MembersStand := by
  refine h.grows (fun x hx => mem_code_push hcode hx) ?_ ?_ <;> rw [htypes]
  · exact id
  · exact fun _ => rfl

theorem same (hcode : b.code = a.code) (htypes : b.types = a.types) : b.MembersStand := by
  refine h.grows (fun x hx => hcode ▸ hx) ?_ ?_ <;> rw [htypes]
  · exact id
  · exact fun _ => rfl

theorem declaresStruct (hparts : DeclaresStruct a b name members)
    (hmembers : ∀ m ∈ members, (a.types.handle? m.2).isSome = true) :
    b.MembersStand := by
  have hhandle : ∀ {r}, (a.types.handle? r).isSome = true → (b.types.handle? r).isSome = true := by
    intro r hr
    rw [hparts.types, (TypeRegistry.declares_declareStruct ..).handle]
    split
    · rfl
    · exact hr
  intro l layout m hl hm
  rw [hparts.types] at hl
  rcases TypeRegistry.layout?_declareStruct_cases hl with rfl | hl
  · obtain ⟨x, hx, hmember⟩ := mem_memberTrailers hm 0 (a.strings.insert name).2
    refine ⟨hhandle (hmembers m hm), x, ?_, hmember⟩
    rw [hparts.code, structCode]
    simp [hx]
  · obtain ⟨htype, x, hx, hmember⟩ := h _ _ _ hl hm
    refine ⟨hhandle htype, x, ?_, hmember⟩
    rw [hparts.code]
    exact List.mem_append_left _ hx

theorem replace {old : ResultId} (hold : a.types.handle? old = none) (new : ResultId) :
    (a.replace old new).2.MembersStand := by
  have htypes := SharesTypes.types_replace a old new
  rcases replace_cases a old new with ⟨hcode, -⟩ | ⟨-, -, -, heq⟩
  · exact h.same hcode htypes
  · intro l layout m hl hm
    rw [htypes] at hl ⊢
    obtain ⟨htype, x, hx, hop, hfst⟩ := h _ _ _ hl hm
    refine ⟨htype, x.mapSlots fun id => if id = old then new else id, ?_, hop, ?_⟩
    · rw [heq]
      show _ ∈ (a.code.map _).toList
      rw [Array.toList_map]
      exact List.mem_map_of_mem hx
    · have hne : m.2 ≠ old := by
        intro heq
        rw [heq, hold] at htype
        cases htype
      show (if x.refs.fst = old then new else x.refs.fst) = m.2
      rw [hfst, if_neg hne]

/-- Members are listed, so they are referred to, so they are kept. -/
theorem flatten (hshares : a.SharesTypes) : a.flatten.2.MembersStand := by
  have hexact := hshares.coherent.exact
  intro l after n hl hn
  rw [types_flatten, TypeRegistry.layout?_rename] at hl
  obtain ⟨layout, hlayout, rfl⟩ := Option.map_eq_some_iff.mp hl
  obtain ⟨m, hm, rfl⟩ := List.mem_map.mp hn
  obtain ⟨htype, x, hx, hop, hfst⟩ := h _ _ _ hlayout hm
  obtain ⟨i, hi⟩ := List.getElem?_of_mem hx
  rw [Array.getElem?_toList] at hi
  have hleft : flagged a.sweep.removed i = false :=
    not_removed_of_opcode hi (by rw [hop]; rfl) (by rw [hop]; nofun) (by rw [hop]; nofun)
  have hsurvives := mem_survivors.mpr ⟨i, hi, hleft⟩
  have hkept := kept_of_mem_slots hexact hsurvives (hfst ▸ Instruction.mem_slots.mpr (.inl rfl) : m.2 ∈ x.slots)
  obtain ⟨k, hk⟩ := Option.isSome_iff_exists.mp htype
  obtain ⟨decl, hdecl, hdeclType, hid⟩ := hshares.declares hk
  have hz := newId_ne_zero hkept (hid ▸ (hshares.stands decl hdecl hdeclType).id)
  constructor
  · rw [types_flatten]
    have hhandle := TypeRegistry.get?_renameKeys a.types.handles (parts_newId a) hz
    exact (congrArg Option.isSome hhandle).trans htype
  · refine ⟨x.rename a.newId, ?_, hop, congrArg a.newId hfst⟩
    rw [code_flatten]
    exact List.mem_map_of_mem hsurvives

end MembersStand

theorem Grown.membersStand (h : Grown asm) : asm.MembersStand := by
  induction h with
  | empty =>
    intro l layout m hl
    cases hl
  | @step a b hgrown hstep ih =>
    cases hstep with
    | create op | addString s => exact ih.same rfl rfl
    | push | opens | closes => exact ih.push (code_push ..) (types_push ..)
    | @type inst d =>
      refine ih.grows (fun x hx => ?_) (fun hr => ?_) fun _ => rfl
      · exact mem_code_push (code_push a inst) hx
      · rw [(TypeRegistry.declares_declare ..).handle]
        split
        · rfl
        · exact hr
    | struct hclean =>
      exact ih.declaresStruct (declaresStruct_of_clean hclean) (pushStruct_of_clean hclean).2.1
    | interface =>
      rw [registerInterface, setName_eq]
      exact ih.push (code_push ..) (types_push ..)
    | setName name =>
      rw [setName_eq]
      exact ih.same rfl rfl
    | replace hold => exact ih.replace hold _
    | flatten => exact ih.flatten hgrown.sharesTypes

/-! ## Strings and names -/

/-- What a listing states beside its instructions can be stated. -/
structure Labelled (asm : Assembler) : Prop where
  strings : asm.strings.values.toList.Nodup
  names : asm.names.Proper
  allocated : ∀ e ∈ asm.names.entries, e.1.index < asm.ids.size
  interface : ∀ inst ∈ asm.code.toList, inst.opcode.isInterface = true →
    ∃ name, asm.names.get? inst.id = some name

namespace Labelled

variable {a b : Assembler} (h : a.Labelled)
include h

theorem grows (hstrings : b.strings = a.strings) (hnames : b.names = a.names)
    (hids : a.ids.size ≤ b.ids.size)
    (hcode : ∀ y ∈ b.code.toList, y.opcode.isInterface = true → ∃ x ∈ a.code.toList,
      x.opcode.isInterface = true ∧ x.id = y.id) : b.Labelled where
  strings := hstrings ▸ h.strings
  names := hnames ▸ h.names
  allocated e he := Nat.lt_of_lt_of_le (h.allocated e (hnames ▸ he)) hids
  interface y hy hop := by
    obtain ⟨x, hx, hxop, hid⟩ := hcode y hy hop
    rw [hnames, ← hid]
    exact h.interface x hx hxop

theorem push (hop : inst.opcode.isInterface = false) : (a.push inst).Labelled := by
  have hlabels := Listing.Contents.labels_push a inst
  refine h.grows (strings_push a inst) (congrArg (·.2.1) hlabels) (Nat.le_of_eq (size_ids_push a inst).symm)
    fun y hy hyop => ?_
  rcases mem_of_code_push (code_push a inst) hy with hy | rfl
  · exact ⟨y, hy, hyop, rfl⟩
  · rw [hop] at hyop
    cases hyop

theorem same (hcode : b.code = a.code) (hids : b.ids = a.ids) (hstrings : b.strings = a.strings)
    (hnames : b.names = a.names) : b.Labelled :=
  h.grows hstrings hnames (Nat.le_of_eq (congrArg Array.size hids.symm)) fun y hy hop => ⟨y, hcode ▸ hy, hop, rfl⟩

theorem addStrings (l : List String) : Labelled { a with strings := a.strings.insertAll l } :=
  ⟨Interner.nodup_insertAll h.strings l, h.names, h.allocated, h.interface⟩

theorem names_insert {id : ResultId} (hz : id.index ≠ 0) (hid : id.index < b.ids.size)
    (hstrings : b.strings = a.strings) (hnames : b.names = a.names.insert id name)
    (hids : a.ids.size ≤ b.ids.size) (hcode : ∀ y ∈ b.code.toList, y.opcode.isInterface = true →
      y.id = id ∨ ∃ x ∈ a.code.toList, x.opcode.isInterface = true ∧ x.id = y.id) : b.Labelled where
  strings := hstrings ▸ h.strings
  names := hnames ▸ h.names.insert hz name
  allocated e he := by
    rw [hnames] at he
    rcases NameTable.mem_insert he with rfl | he
    · exact hid
    · exact Nat.lt_of_lt_of_le (h.allocated e he) hids
  interface y hy hop := by
    rw [hnames, NameTable.get?_insert]
    split
    next => exact ⟨name, rfl⟩
    next hne =>
      rcases hcode y hy hop with heq | ⟨x, hx, hxop, heq⟩
      · exact absurd heq.symm hne
      · rw [← heq]
        exact h.interface x hx hxop

theorem setName {id : ResultId} (hid : a.isAllocated id = true) (name : String) :
    (a.setName id name).Labelled := by
  obtain ⟨hz, hlt⟩ := isAllocated_iff.mp hid
  have heq : a.setName id name = { a with names := a.names.insert id name } := if_neg (by simpa using hz)
  rw [heq]
  exact h.names_insert hz hlt rfl rfl (Nat.le_refl _) fun y hy hop => .inr ⟨y, hy, hop, rfl⟩

theorem interfaceVar (ha : a.Accepts inst) (hz : inst.id.index ≠ 0) {v : InterfaceVar}
    (hvar : v.var = inst.id) : ((a.push inst).registerInterface v).Labelled := by
  have hlabels := Listing.Contents.labels_push a inst
  have hnames : ((a.push inst).registerInterface v).names = a.names.insert inst.id v.name := by
    have hnonvoid : ¬ v.var.isVoid = true := by
      rw [hvar]
      simpa using hz
    rw [registerInterface, Assembler.setName, if_neg hnonvoid, hvar]
    exact congrArg (NameTable.insert · inst.id v.name) (congrArg (·.2.1) hlabels)
  refine h.names_insert hz ?_ ?_ hnames ?_ fun y hy hop => ?_
  · rw [ids_registerInterface, size_ids_push]
    exact (isAllocated_iff.mp (ha.own hz).1).2
  · rw [registerInterface, setName_eq]
    exact strings_push a inst
  · exact Nat.le_of_eq (by rw [ids_registerInterface, size_ids_push])
  · rw [code_registerInterface] at hy
    rcases mem_of_code_push (code_push a inst) hy with hy | rfl
    · exact .inr ⟨y, hy, hop, rfl⟩
    · exact .inl rfl

theorem declaresStruct (hpos : 0 < a.ids.size) (hparts : DeclaresStruct a b name members) :
    b.Labelled := by
  have hz : (ResultId.mk a.ids.size).index ≠ 0 := Nat.ne_of_gt hpos
  have hnames : b.names = a.names.insert ⟨a.ids.size⟩ name := by
    rw [hparts.names, Assembler.setName, if_neg (by simpa using hz)]
  have hids : a.ids.size < b.ids.size := by
    rw [hparts.ids]
    exact Nat.lt_succ_self _
  refine (h.addStrings (name :: members.map (·.1))).names_insert hz hids hparts.strings hnames
    (Nat.le_of_lt hids) fun y hy hop => ?_
  rw [hparts.code, List.mem_append] at hy
  refine .inr ⟨y, hy.resolve_right fun hy => ?_, hop, rfl⟩
  -- A struct is made of its header, its members and its end.
  have hkinds : y.opcode = .structType ∨ y.opcode = .structMember ∨ y.opcode = .structEnd := by
    rcases List.mem_cons.mp hy with rfl | hy
    · exact .inl rfl
    rcases List.mem_append.mp hy with hy | hy
    · exact .inr (.inl (opcode_of_mem_memberTrailers hy))
    · rw [List.mem_singleton.mp hy]
      exact .inr (.inr rfl)
  rcases hkinds with heq | heq | heq <;> rw [heq] at hop <;> cases hop

theorem replace (old new : ResultId) : (a.replace old new).2.Labelled := by
  rcases replace_cases a old new with ⟨hcode, hids⟩ | ⟨-, -, -, heq⟩
  · exact h.same hcode hids (by rw [replace_touches]) (by rw [replace_touches])
  · rw [heq]
    refine h.grows rfl rfl (Nat.le_of_eq (size_movedCounts a old new).symm) fun y hy hop => ?_
    change y ∈ (a.code.map _).toList at hy
    rw [Array.toList_map] at hy
    obtain ⟨x, hx, rfl⟩ := List.mem_map.mp hy
    exact ⟨x, hx, hop, rfl⟩

theorem flatten (hshares : a.SharesTypes) : a.flatten.2.Labelled := by
  have hexact := hshares.coherent.exact
  have hstrings : a.flatten.2.strings = a.strings := by
    show a.sweep.asm.strings = _
    rw [(traced_sweep a).frame]
  have hentries : a.flatten.2.names.entries = a.names.entries.filterMap fun e =>
      if (a.newId e.1).isVoid then none else some (a.newId e.1, e.2) := by
    show a.sweep.asm.names.entries.filterMap _ = _
    rw [(traced_sweep a).frame]
    rfl
  have hmem : ∀ {e}, e ∈ a.flatten.2.names.entries ↔
      ∃ d ∈ a.names.entries, (a.newId d.1).index ≠ 0 ∧ (a.newId d.1, d.2) = e := by
    intro e
    rw [hentries]
    exact mem_filterMap_renamed
  have hnames : a.flatten.2.names.Proper := by
    refine ⟨?_, fun e he => ?_⟩
    · rw [hentries]
      refine h.names.sorted.filterMap _ fun d e hlt x hx y hy => ?_
      split at hx
      next => cases hx
      next hd =>
        split at hy
        next => cases hy
        next he =>
          cases hx
          cases hy
          exact newId_lt_newId (kept_of_newId (by simpa using hd)) (kept_of_newId (by simpa using he)) hlt
    · obtain ⟨d, -, hz, rfl⟩ := hmem.mp he
      exact hz
  refine ⟨hstrings ▸ h.strings, hnames, fun e he => ?_, fun y hy hop => ?_⟩
  · obtain ⟨d, -, hz, rfl⟩ := hmem.mp he
    exact newId_lt_size (kept_of_newId hz)
  · rw [code_flatten] at hy
    obtain ⟨x, hx, rfl⟩ := List.mem_map.mp hy
    obtain ⟨i, hi, -⟩ := mem_survivors.mp hx
    obtain ⟨name, hname⟩ := h.interface x (mem_code hi) hop
    have hentry := NameTable.mem_of_get? hname
    have hkept := kept_of_mem_survivors hexact hshares.coherent.definition?_iff hshares.coherent.allocated hx
      (.inl rfl)
    have hz := newId_ne_zero hkept (h.names.void _ hentry)
    exact ⟨name, hnames.get?_of_mem (hmem.mpr ⟨_, hentry, hz, rfl⟩)⟩

end Labelled

theorem Grown.labelled (h : Grown asm) : asm.Labelled := by
  induction h with
  | empty => exact ⟨.nil, NameTable.proper_empty, nofun, nofun⟩
  | @step a b hgrown hstep ih =>
    cases hstep with
    | create op =>
      refine ih.grows rfl rfl ?_ fun y hy hop => ⟨y, hy, hop, rfl⟩
      rw [ids_create, Array.size_push]
      exact Nat.le_succ _
    | push _ hop => exact ih.push (Opcode.isBody_iff.mp hop).2.2.2
    | opens _ hkind hne =>
      refine (ih.push ?_).same rfl rfl rfl rfl
      rcases Opcode.eq_of_opens? hkind hne with hop | hop <;> rw [hop] <;> rfl
    | closes _ hkind hne =>
      refine (ih.push ?_).same rfl rfl rfl rfl
      rcases Opcode.eq_of_closes? hkind hne with hop | hop <;> rw [hop] <;> rfl
    | type _ _ hd =>
      refine (ih.push (Bool.eq_false_iff.mpr fun hop => ?_)).same rfl rfl rfl rfl
      have htype := isType_of_isInterface hop
      rw [isType_of_describe hd] at htype
      cases htype
    | struct hclean =>
      exact ih.declaresStruct hgrown.sharesTypes.coherent.exact.nonempty (declaresStruct_of_clean hclean)
    | interface haccepts hz _ hvar => exact ih.interfaceVar haccepts hz hvar
    | addString s => exact ih.addStrings [s]
    | setName name hid => exact ih.setName hid name
    | replace => exact ih.replace _ _
    | flatten => exact ih.flatten hgrown.sharesTypes

end Assembler

end ShaderIR
