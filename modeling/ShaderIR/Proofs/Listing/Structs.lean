import ShaderIR.Proofs.Listing.Steps

/-!
# Structs of a listing

A second member of one name is left out of the layout although it stays in the stream.  So a struct
with no other struct inside has **the first member of each name, in the order of the stream**.
-/

namespace ShaderIR

variable {l : List (String × ResultId)} {layout : StructLayout} {id : ResultId} {s : OpenSection}

/-! ## The first of each name -/

/-- Members without those whose name occurs before. -/
def firstNamed : List (String × ResultId) → List (String × ResultId)
  | [] => []
  | m :: rest => m :: (firstNamed rest).filter (·.1 != m.1)

theorem mem_names_firstNamed {name : String} :
    name ∈ (firstNamed l).map (·.1) ↔ name ∈ l.map (·.1) := by
  induction l with
  | nil => rfl
  | cons m rest ih =>
    rw [firstNamed, List.map_cons, List.map_cons, List.mem_cons, List.mem_cons]
    by_cases hname : name = m.1
    · simp only [hname, true_or]
    · rw [← ih]
      simp only [hname, false_or, List.mem_map, List.mem_filter, bne_iff_ne, ne_eq]
      constructor
      · rintro ⟨x, ⟨hx, -⟩, rfl⟩
        exact ⟨x, hx, rfl⟩
      · rintro ⟨x, hx, rfl⟩
        exact ⟨x, ⟨hx, hname⟩, rfl⟩

theorem firstNamed_concat (l : List (String × ResultId)) (m : String × ResultId) :
    firstNamed (l ++ [m]) =
      if m.1 ∈ (firstNamed l).map (·.1) then firstNamed l else firstNamed l ++ [m] := by
  induction l with
  | nil => rfl
  | cons x rest ih =>
    rw [List.cons_append, firstNamed, ih, firstNamed]
    by_cases hx : m.1 = x.1
    · have htaken : m.1 ∈ (x :: (firstNamed rest).filter (·.1 != x.1)).map (·.1) := by simp [hx]
      rw [if_pos htaken]
      split
      · rfl
      · simp [List.filter_append, hx]
    · have hiff : m.1 ∈ (x :: (firstNamed rest).filter (·.1 != x.1)).map (·.1) ↔
          m.1 ∈ (firstNamed rest).map (·.1) := by
        rw [← firstNamed, mem_names_firstNamed, List.map_cons, List.mem_cons, mem_names_firstNamed]
        simp only [hx, false_or]
      simp only [hiff]
      split
      · rfl
      · simp [List.filter_append, hx]

theorem length_firstNamed_le (l : List (String × ResultId)) : (firstNamed l).length ≤ l.length := by
  induction l with
  | nil => exact Nat.le_refl _
  | cons m rest ih =>
    have hfilter := List.length_filter_le (·.1 != m.1) (firstNamed rest)
    simp only [firstNamed, List.length_cons]
    omega

theorem length_firstNamed_eq_iff : (firstNamed l).length = l.length ↔ (l.map (·.1)).Nodup := by
  induction l with
  | nil => simp [firstNamed]
  | cons m rest ih =>
    have hle := length_firstNamed_le rest
    have hfilter := List.length_filter_le (·.1 != m.1) (firstNamed rest)
    rw [List.map_cons, List.nodup_cons, ← ih, firstNamed, List.length_cons, List.length_cons]
    have hall : ((firstNamed rest).filter (·.1 != m.1)).length = (firstNamed rest).length ↔
        m.1 ∉ rest.map (·.1) := by
      rw [List.length_filter_eq_length_iff, ← mem_names_firstNamed]
      simp only [bne_iff_ne, ne_eq, List.mem_map, not_exists, not_and]
    rw [← hall]
    omega

theorem firstNamed_eq_self (h : (l.map (·.1)).Nodup) : firstNamed l = l := by
  induction l with
  | nil => rfl
  | cons m rest ih =>
    rw [List.map_cons, List.nodup_cons] at h
    rw [firstNamed, ih h.2, List.filter_eq_self.mpr]
    intro x hx
    rw [bne_iff_ne]
    intro heq
    exact h.1 (heq ▸ List.mem_map_of_mem hx)

/-! ## The layout that a stretch of instructions gives -/

def memberEntries (text : UInt32 → String) (l : List Instruction) : List (String × ResultId) :=
  (l.filter (·.opcode = .structMember)).map fun inst => (text inst.operands.snd, inst.refs.fst)

/-- The layout of a struct with the given header and the given instructions behind it. -/
def StructLayout.read (text : UInt32 → String) (header : Instruction) (body : List Instruction) :
    StructLayout :=
  { name := text header.operands.snd, members := firstNamed (memberEntries text body) }

theorem memberEntries_concat (text : UInt32 → String) (l : List Instruction) (inst : Instruction) :
    memberEntries text (l ++ [inst]) =
      if inst.opcode = .structMember then memberEntries text l ++
        [(text inst.operands.snd, inst.refs.fst)]
      else memberEntries text l := by
  unfold memberEntries
  rw [List.filter_append, List.map_append]
  split
  next hop => simp [hop]
  next hop => simp [hop]

namespace Listing.Contents

open Assembler

theorem nextLayout_read {text : UInt32 → String} {header inst : Instruction}
    {body : List Instruction} (hop : inst.opcode = .structMember) :
    nextLayout text (.read text header body) inst = .read text header (body ++ [inst]) := by
  have hany : (firstNamed (memberEntries text body)).any (·.1 == text inst.operands.snd) = true ↔
      text inst.operands.snd ∈ (firstNamed (memberEntries text body)).map (·.1) := by
    simp only [List.any_eq_true, beq_iff_eq, List.mem_map]
  unfold nextLayout StructLayout.addMember? StructLayout.read
  rw [memberEntries_concat, if_pos hop, firstNamed_concat]
  simp only [hany]
  split <;> rfl

theorem read_concat {text : UInt32 → String} {header inst : Instruction} {body : List Instruction}
    (hop : inst.opcode ≠ .structMember) :
    StructLayout.read text header (body ++ [inst]) = .read text header body := by
  rw [StructLayout.read, memberEntries_concat, if_neg hop, StructLayout.read]

/-! ## The struct that is being read -/

def bodyOf (b : Rebuilding) (s : OpenSection) : List Instruction := b.asm.code.toList.drop (s.start + 1)

/-- An open struct, which is the one being read unless another one was begun after it. -/
def ReadsStruct (b : Rebuilding) (s : OpenSection) : Prop :=
  ∃ header, b.asm.code[s.start]? = some header ∧ header.opcode = .structType ∧ header.id = s.header ∧
    ((∀ x ∈ bodyOf b s, x.opcode ≠ .structType) →
      b.struct? = some (s.header, .read (stringAt b.asm) header (bodyOf b s)))

section

variable {b b' : Rebuilding} {inst : Instruction} (h : Adds b inst b')
include h

theorem bodyOf_adds (hs : s.start < b.asm.code.size) : bodyOf b' s = bodyOf b s ++ [inst] := by
  rw [bodyOf, bodyOf, h.code, Array.toList_push, List.drop_append_of_le_length]
  rw [Array.length_toList]
  omega

theorem ReadsStruct.adds (hs : ReadsStruct b s) (hend : inst.opcode ≠ .structEnd) :
    ReadsStruct b' s := by
  obtain ⟨header, hheader, hop, hid, hpending⟩ := hs
  have hlt := lt_size_code hheader
  refine ⟨header, ?_, hop, hid, fun hflat => ?_⟩
  · rw [h.code, Array.getElem?_push, if_neg (Nat.ne_of_lt hlt), hheader]
  · rw [bodyOf_adds h hlt] at hflat ⊢
    have hbefore := hpending fun x hx => hflat x (List.mem_append_left _ hx)
    have hinst := hflat inst (List.mem_append_right _ List.mem_cons_self)
    rw [h.stringAt]
    cases h with
    | structType hop => exact absurd hop hinst
    | structMember hop =>
      dsimp only
      rw [hbefore, Option.map_some, nextLayout_read hop]
    | structEnd hop => exact absurd hop hend
    | type hd =>
      have hne : inst.opcode ≠ .structMember := by
        intro hop
        rw [describe, hop] at hd
        cases hd
      rw [read_concat hne, ← hbefore]
    | opens hkind hne | closes hkind =>
      have hne : inst.opcode ≠ .structMember := by
        intro hop
        rw [hop] at hkind
        cases hkind
      rw [read_concat hne, ← hbefore]
    | plain hop => rw [read_concat (Opcode.isPlain_iff.mp hop).1, ← hbefore]

end

end Listing.Contents

/-! ## Layouts stay where they are -/

namespace TypeRegistry

variable {types : TypeRegistry} {id j : ResultId}

theorem Declares.layoutOf? {d : TypeDesc} {types' : TypeRegistry} (hd : Declares id d types types')
    (hlayout : ∀ {l}, types.layout? l = some layout → types'.layout? l = some layout)
    (hj : types.layoutOf? j = some layout) (hne : j ≠ id) : types'.layoutOf? j = some layout := by
  obtain ⟨l, hofId, hl⟩ := exists_of_layoutOf? hj
  rw [layoutOf?_of_ofId? (hd.ofId?_of_ofId? hofId hne)]
  exact hlayout hl

theorem layoutOf?_declareStruct_self (types : TypeRegistry) (id : ResultId)
    (layout : StructLayout) :
    (types.declareStruct id layout).layoutOf? id = some layout := by
  have hofId : (types.declareStruct id layout).ofId? id = some (.record ⟨types.layouts.next⟩) :=
    (declares_declareStruct types id layout).ofId?_self
  rw [layoutOf?_of_ofId? hofId]
  show (types.layouts.values.push layout)[types.layouts.values.size]? = some layout
  rw [Array.getElem?_push, if_pos rfl]

end TypeRegistry

namespace Listing.Contents

open Assembler

/-! ## What one instruction keeps -/

/-- A struct that was read, with no other struct inside, has the layout that its section lists. -/
def HasReadLayout (asm : Assembler) (s : ClosedSection) : Prop :=
  s.span.stop ≤ asm.code.size ∧ ∃ header body footer,
    (asm.sectionBody s).toList = header :: body ++ [footer] ∧ header.opcode = .structType ∧
      header.id = s.header ∧ footer.opcode = .structEnd ∧ ((∀ x ∈ body, x.opcode ≠ .structType) →
        asm.types.layoutOf? s.header = some (.read (stringAt asm) header body))

/-- What is known of structs while a listing is read without problems. -/
structure StructsRead (b : Rebuilding) : Prop where
  coherent : b.asm.Coherent
  registered : b.Registered
  nested : b.asm.openSections.Pairwise fun s t => t.start < s.start
  begun : ∀ s ∈ b.asm.openSections, s.start < b.asm.code.size
  reading : ∀ s ∈ b.asm.openSections, s.kind = .record → ReadsStruct b s
  pending : ∀ {id layout}, b.struct? = some (id, layout) → id.index ≠ 0 → b.asm.types.handle? id = none
  read : ∀ s ∈ b.asm.closedSections.toList, s.kind = .record → s.header.index ≠ 0 → HasReadLayout b.asm s

theorem toList_sectionBody (asm : Assembler) (s : ClosedSection) : (asm.sectionBody s).toList =
      (asm.code.toList.drop s.span.first).take (s.span.stop - s.span.first) := by
  rw [sectionBody, Arena.slice, Array.toList_extract, List.extract_eq_take_drop]

namespace StructsRead

variable {b b' : Rebuilding} {inst : Instruction} (hb : StructsRead b)
include hb

theorem exists_of_handle? {k : TypeHandle} (hk : b.asm.types.handle? id = some k) :
    ∃ x ∈ b.asm.code.toList, x.id = id := by
  obtain ⟨x, hx, -, hid⟩ := hb.registered.asm.types.handles _ (Table.mem_of_get? hk)
  exact ⟨x, hx, hid⟩

theorem ne_of_handle? (ha : b.asm.Accepts inst) (hz : id.index ≠ 0) {k : TypeHandle}
    (hk : b.asm.types.handle? id = some k) : id ≠ inst.id := by
  rintro rfl
  obtain ⟨x, hx, hid⟩ := hb.exists_of_handle? hk
  exact hb.coherent.id_ne_of_accepts ha hz hx hid

theorem layoutOf?_adds (h : Adds b inst b') (ha : b.asm.Accepts inst)
    (hz : id.index ≠ 0) (hlayout : b.asm.types.layoutOf? id = some layout) :
    b'.asm.types.layoutOf? id = some layout := by
  obtain ⟨l, hofId, -⟩ := TypeRegistry.exists_of_layoutOf? hlayout
  obtain ⟨k, hk, -⟩ := Option.bind_eq_some_iff.mp hofId
  cases h with
  | structType | structMember | opens | closes | plain => exact (types_push b.asm inst).symm ▸ hlayout
  | structEnd =>
    show b.endedTypes.layoutOf? id = some layout
    unfold Rebuilding.endedTypes
    split
    next j new hstruct =>
      refine (TypeRegistry.declares_declareStruct ..).layoutOf?
        TypeRegistry.layout?_declareStruct_of_layout? hlayout ?_
      -- The struct that ends here is no type yet.
      rintro rfl
      rw [hb.pending hstruct hz] at hk
      cases hk
    next => exact hlayout
  | type =>
    exact (TypeRegistry.declares_declareAlso ..).layoutOf? (fun hl => hl) hlayout (hb.ne_of_handle? ha hz hk)

theorem hasReadLayout_adds (h : Adds b inst b') (ha : b.asm.Accepts inst) {s : ClosedSection}
    (hz : s.header.index ≠ 0) (hs : HasReadLayout b.asm s) : HasReadLayout b'.asm s := by
  obtain ⟨hstop, header, body, footer, hbody, hop, hid, hfooter, hlayout⟩ := hs
  have hsize : b'.asm.code.size = b.asm.code.size + 1 := by rw [h.code, Array.size_push]
  refine ⟨by omega, header, body, footer, ?_, hop, hid, hfooter, fun hflat => ?_⟩
  · have hlength := congrArg List.length hbody
    rw [toList_sectionBody] at hbody hlength ⊢
    rw [List.length_append, List.length_cons, List.length_take, List.length_drop] at hlength
    have hcode : b.asm.code.toList.length = b.asm.code.size := Array.length_toList
    rw [h.code, Array.toList_push, List.drop_append_of_le_length (by omega),
      List.take_append_of_le_length (by rw [List.length_drop]; omega), hbody]
  · rw [h.stringAt]
    exact hb.layoutOf?_adds h ha hz (hlayout hflat)

theorem hasReadLayout_structEnd {outer : List OpenSection} (hop : inst.opcode = .structEnd)
    (hopen : b.asm.openSections = s :: outer) (hkind : s.kind = .record) :
    HasReadLayout { b.asm.closed inst s outer with types := b.endedTypes }
      { kind := s.kind, header := s.header, span := .inclusive s.start b.asm.code.size } := by
  obtain ⟨header, hheader, hstruct, hid, hpending⟩ := hb.reading s (hopen ▸ List.mem_cons_self) hkind
  have hlt := lt_size_code hheader
  have hcode : (b.asm.closed inst s outer).code = b.asm.code.push inst := code_push b.asm inst
  have hstring : stringAt { b.asm.closed inst s outer with types := b.endedTypes } = stringAt b.asm :=
    (Adds.structEnd hop hopen hkind).stringAt
  refine ⟨?_, header, bodyOf b s, inst, ?_, hstruct, hid, hop, fun hflat => ?_⟩
  · show b.asm.code.size + 1 ≤ (b.asm.closed inst s outer).code.size
    exact Nat.le_of_eq (by rw [hcode, Array.size_push])
  · rw [toList_sectionBody]
    show ((b.asm.closed inst s outer).code.toList.drop s.start).take (b.asm.code.size + 1 - s.start) = _
    have hlength : b.asm.code.toList.length = b.asm.code.size := Array.length_toList
    rw [hcode, Array.toList_push, List.drop_append_of_le_length (by omega), List.take_of_length_le]
    · rw [List.drop_eq_getElem?_toList_append, Array.getElem?_toList, hheader]
      rfl
    · rw [List.length_append, List.length_drop, List.length_singleton]
      omega
  · rw [hstring]
    show b.endedTypes.layoutOf? s.header = _
    rw [Rebuilding.endedTypes, hpending hflat]
    exact TypeRegistry.layoutOf?_declareStruct_self _ _ _

theorem nested_adds (h : Adds b inst b') :
    b'.asm.openSections.Pairwise fun s t => t.start < s.start := by
  cases h with
  | structType | opens => exact List.pairwise_cons.mpr ⟨hb.begun, hb.nested⟩
  | structEnd _ houter | closes _ _ houter => exact (List.pairwise_cons.mp (houter ▸ hb.nested)).2
  | structMember | type | plain => exact (openSections_push b.asm inst).symm ▸ hb.nested

theorem begun_adds (h : Adds b inst b') :
    ∀ s ∈ b'.asm.openSections, s.start < b'.asm.code.size := by
  intro s hs
  rw [h.code, Array.size_push]
  rcases h.mem_openSections hs with hold | ⟨heq, -⟩
  · exact Nat.lt_succ_of_lt (hb.begun s hold)
  · rw [heq]
    exact Nat.lt_succ_self _

theorem reading_adds (h : Adds b inst b') :
    ∀ s ∈ b'.asm.openSections, s.kind = .record → ReadsStruct b' s := by
  intro s hs hkind
  rcases h.mem_openSections hs with hold | ⟨heq, hopens⟩
  · by_cases hend : inst.opcode = .structEnd
    · -- A struct around the one that ends has the header of that one inside.
      obtain ⟨inner, outer, hopen, hinner⟩ := h.exists_of_structEnd hend
      cases h.unique (.structEnd hend hopen hinner)
      obtain ⟨header, hheader, hop, hid, -⟩ := hb.reading s hold hkind
      have hlt := lt_size_code hheader
      refine ⟨header, ?_, hop, hid, fun hflat => ?_⟩
      · rw [h.code, Array.getElem?_push, if_neg (Nat.ne_of_lt hlt), hheader]
      · obtain ⟨x, hx, hxop, -⟩ := hb.reading inner (hopen ▸ List.mem_cons_self) hinner
        have hstart : s.start < inner.start := (List.pairwise_cons.mp (hopen ▸ hb.nested)).1 s hs
        refine absurd hxop (hflat x ?_)
        rw [bodyOf_adds h hlt]
        apply List.mem_append_left
        apply List.mem_of_getElem? (i := inner.start - (s.start + 1))
        rw [bodyOf, List.getElem?_drop, Array.getElem?_toList, ← hx]
        congr 1
        omega
    · exact (hb.reading s hold hkind).adds h hend
  · -- Nothing but the header of this struct has been read.
    have hop := Opcode.eq_structType_of_opens? (hkind ▸ hopens)
    cases h.unique (.structType hop)
    have hcode := h.code
    have hstring := h.stringAt
    have hbody : bodyOf ⟨b.asm.opened inst .record, some (inst.id, { name := stringAt b.asm inst.operands.snd })⟩ s
        = [] := by
      rw [bodyOf, hcode, heq, List.drop_eq_nil_iff, Array.length_toList]
      exact Nat.le_of_eq (by rw [Array.size_push])
    refine ⟨inst, ?_, hop, by rw [heq], fun _ => ?_⟩
    · rw [hcode, heq, Array.getElem?_push, if_pos rfl]
    · rw [hbody, hstring, heq]
      rfl

theorem pending_adds (h : Adds b inst b') (ha : b.asm.Accepts inst)
    (hstruct : b'.struct? = some (id, layout)) (hz : id.index ≠ 0) :
    b'.asm.types.handle? id = none := by
  have htypes := types_push b.asm inst
  cases h with
  | structType =>
    cases hstruct
    show (b.asm.push inst).types.handle? inst.id = none
    rw [htypes, Option.eq_none_iff_forall_ne_some]
    exact fun k hk => hb.ne_of_handle? ha hz hk rfl
  | structMember =>
    obtain ⟨p, hp, heq⟩ := Option.map_eq_some_iff.mp hstruct
    cases heq
    show (b.asm.push inst).types.handle? p.1 = none
    rw [htypes]
    exact hb.pending hp hz
  | structEnd => cases hstruct
  | type =>
    -- The id of the struct is taken by its header.
    have hne : inst.id ≠ id := by
      rintro rfl
      obtain ⟨x, hx, -, hid⟩ := (hb.registered.struct hstruct).1
      exact hb.coherent.id_ne_of_accepts ha hz hx hid
    exact (Table.get?_insert_of_ne hne).trans (hb.pending hstruct hz)
  | opens | closes | plain =>
    show (b.asm.push inst).types.handle? id = none
    rw [htypes]
    exact hb.pending hstruct hz

theorem read_adds (h : Adds b inst b') (ha : b.asm.Accepts inst) :
    ∀ s ∈ b'.asm.closedSections.toList, s.kind = .record → s.header.index ≠ 0 →
      HasReadLayout b'.asm s := by
  intro s hs hkind hz
  rcases h.mem_closedSections hs with hold | ⟨o, outer, hopen, hcloses, rfl⟩
  · exact hb.hasReadLayout_adds h ha hz (hb.read s hold hkind hz)
  · have hrecord : o.kind = .record := hkind
    have hop := Opcode.eq_structEnd_of_closes? (hrecord ▸ hcloses)
    cases h.unique (.structEnd hop hopen hrecord)
    exact hb.hasReadLayout_structEnd hop hopen hrecord

theorem adds (h : Adds b inst b') (ha : b.asm.Accepts inst) : StructsRead b' where
  coherent := h.coherent hb.coherent ha
  registered := hb.registered.add h
  nested := hb.nested_adds h
  begun := hb.begun_adds h
  reading := hb.reading_adds h
  pending := hb.pending_adds h ha
  read := hb.read_adds h ha

end StructsRead

theorem structsRead_allocate (c : Contents) : StructsRead { asm := c.allocate } := by
  obtain ⟨ids, hids⟩ := exists_allocate_eq c
  have hopen : c.allocate.openSections = [] := by rw [hids]; rfl
  have hclosed : c.allocate.closedSections = #[] := by rw [hids]; rfl
  refine ⟨coherent_allocate c, registered_allocate c, ?_, ?_, ?_, nofun, ?_⟩
  · rw [hopen]
    exact .nil
  · rw [hopen]
    exact nofun
  · rw [hopen]
    exact nofun
  · rw [hclosed]
    exact nofun

end Listing.Contents

/-! ## Listings -/

namespace Listing

open Contents Assembler

theorem hasReadLayout_of_parse {text : String} {asm : Assembler} (h : parse text = .ok asm)
    (hclean : asm.Clean) {s : ClosedSection} (hs : s ∈ asm.closedSections.toList)
    (hkind : s.kind = .record) (hz : s.header.index ≠ 0) : HasReadLayout asm s := by
  obtain ⟨c, b, hreads, hbefore, -, names, interface, rfl⟩ := reads_of_parse h hclean
  have hread := hreads.cleanInvariant hbefore (fun _ _ _ hadds ha hb => StructsRead.adds hb hadds ha)
    (structsRead_allocate c)
  exact hread.read s hs hkind hz

/-- **The layout of a struct that was read.**  If a listing is read without problems, a struct with
    no other struct inside has the first member of each name; these are the members of the stream
    exactly if their names differ. -/
theorem layoutOf?_of_parse {text : String} {asm : Assembler} (h : parse text = .ok asm)
    (hclean : asm.Clean) {s : ClosedSection} (hs : s ∈ asm.closedSections.toList)
    (hkind : s.kind = .record) (hz : s.header.index ≠ 0)
    (hflat : ∀ x ∈ (asm.sectionBody s).toList.tail, x.opcode ≠ .structType) :
    ∃ layout, asm.types.layoutOf? s.header = some layout ∧
      layout.members = firstNamed (memberEntries (stringAt asm) (asm.sectionBody s).toList) ∧
      (layout.members.map (·.2) =
        (memberEntries (stringAt asm) (asm.sectionBody s).toList).map (·.2) ↔
        ((memberEntries (stringAt asm) (asm.sectionBody s).toList).map (·.1)).Nodup) := by
  obtain ⟨-, header, body, footer, hbody, hheader, -, hfooter, hlayout⟩ :=
    hasReadLayout_of_parse h hclean hs hkind hz
  -- Header and footer are no members.
  have hentries : memberEntries (stringAt asm) (asm.sectionBody s).toList =
      memberEntries (stringAt asm) body := by
    rw [hbody, memberEntries_concat, if_neg (by rw [hfooter]; nofun), memberEntries,
      List.filter_cons_of_neg, memberEntries]
    simp [hheader]
  rw [hbody] at hflat
  refine ⟨_, hlayout fun x hx => hflat x (List.mem_append_left _ hx), ?_, ?_⟩
  · rw [hentries]
    rfl
  · rw [hentries]
    show (firstNamed (memberEntries (stringAt asm) body)).map (·.2) = _ ↔ _
    constructor
    · intro heq
      have hlength := congrArg List.length heq
      rw [List.length_map, List.length_map] at hlength
      exact length_firstNamed_eq_iff.mp hlength
    · intro hnodup
      rw [firstNamed_eq_self hnodup]

def pairText (second : String) : String :=
  "@string \"a\"\n@string \"b\"\n" ++
  "%1 = TYPE_BOOL [0, 0, 0] (%0, %0, %0) : %0\n" ++
  "%2 = TYPE_STRUCT [2, 0, 0] (%0, %0, %0) : %0\n" ++
  "%0 = STRUCT_MEMBER [0, 0, 0] (%1, %0, %0) : %0\n" ++
  "%0 = STRUCT_MEMBER [1, " ++ second ++ ", 0] (%1, %0, %0) : %0\n" ++
  "%0 = STRUCT_END [0, 0, 0] (%2, %0, %0) : %0\n"

def pairSection : ClosedSection := { kind := .record, header := ⟨2⟩, span := ⟨1, 5⟩ }

/-- A text that is read without problems, with a pair whose instructions list the given members. -/
def ListsPair (asm : Assembler) (members : List (String × ResultId)) : Prop :=
  asm.Clean ∧ pairSection ∈ asm.closedSections.toList ∧
    (∀ x ∈ (asm.sectionBody pairSection).toList.tail, x.opcode ≠ .structType) ∧
    memberEntries (stringAt asm) (asm.sectionBody pairSection).toList = members

instance (asm : Assembler) (members : List (String × ResultId)) :
    Decidable (ListsPair asm members) :=
  inferInstanceAs (Decidable (_ ∧ _))

theorem layoutOf?_of_parse_pairText : ∃ asm, parse (pairText "1") = .ok asm ∧
    ListsPair asm [("a", ⟨1⟩), ("b", ⟨1⟩)] ∧
    ∃ layout, asm.types.layoutOf? ⟨2⟩ = some layout ∧ layout.members.map (·.2) = [⟨1⟩, ⟨1⟩] := by
  obtain ⟨asm, hparse, hlists⟩ : ∃ asm, parse (pairText "1") = .ok asm ∧
      ListsPair asm [("a", ⟨1⟩), ("b", ⟨1⟩)] := exists_of_any_ok (by decide +kernel)
  obtain ⟨hclean, hsection, hflat, hentries⟩ := hlists
  obtain ⟨layout, hlayout, -, hiff⟩ := layoutOf?_of_parse hparse hclean hsection rfl (by decide) hflat
  rw [hentries] at hiff
  exact ⟨asm, hparse, ⟨hclean, hsection, hflat, hentries⟩, layout, hlayout, hiff.mpr (by decide +kernel)⟩

/-- **A member is lost without a problem being recorded.**  Both members are called `a`; the stream
    has two, the layout has one. -/
theorem layoutOf?_pairText_loses_member : ∃ asm, parse (pairText "0") = .ok asm ∧
    ListsPair asm [("a", ⟨1⟩), ("a", ⟨1⟩)] ∧
    (asm.types.layoutOf? ⟨2⟩).map (·.members) = some [("a", ⟨1⟩)] :=
  exists_of_any_ok (p := fun asm => ListsPair asm [("a", ⟨1⟩), ("a", ⟨1⟩)] ∧
    (asm.types.layoutOf? ⟨2⟩).map (·.members) = some [("a", ⟨1⟩)]) (by decide +kernel)

end Listing

end ShaderIR
