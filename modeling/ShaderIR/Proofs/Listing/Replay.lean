import Mathlib.Data.List.Basic
import ShaderIR.Proofs.Assembler.Growth
import ShaderIR.Proofs.Listing.Tracking

/-!
# An assembler is what reading its stream gives

Types are looked up before they are declared, structs are declared in one go, dead code removal
moves everything at once.  Still, after every step, **reading the stream gives the sections and the
types that are there**.
-/

namespace ShaderIR

variable {strings : Interner String} {inst : Instruction} {l : List Instruction}

/-! ## String tables that grow -/

namespace Interner

variable {α : Type} {s t u : Interner α}

def Extends (t s : Interner α) : Prop := s.values.toList <+: t.values.toList

theorem Extends.refl (t : Interner α) : t.Extends t := List.prefix_rfl

theorem Extends.trans (h : u.Extends t) (h' : t.Extends s) : u.Extends s := List.IsPrefix.trans h' h

theorem Extends.get? (h : t.Extends s) {i : Nat} {v : α} (hv : s.get? i = some v) :
    t.get? i = some v := by
  rw [Interner.get?, ← Array.getElem?_toList] at hv ⊢
  obtain ⟨rest, hrest⟩ := h
  rw [← hrest, List.getElem?_append_left (List.getElem?_eq_some_iff.mp hv).1]
  exact hv

variable [DecidableEq α]

theorem extends_insert (t : Interner α) (v : α) : (t.insert v).2.Extends t := by
  by_cases hv : v ∈ t.values.toList
  · rw [insert_of_mem hv]
    exact .refl t
  · rw [insert_of_not_mem hv]
    exact ⟨[v], Array.toList_push.symm⟩

theorem extends_insertAll (t : Interner α) (l : List α) : (t.insertAll l).Extends t := by
  induction l generalizing t with
  | nil => exact .refl t
  | cons v rest ih => exact (ih (t.insert v).2).trans (extends_insert t v)

theorem get?_of_extends_insert {v : α} (h : t.Extends (s.insert v).2) :
    t.get? (s.insert v).1 = some v :=
  h.get? (get?_insert_self s v)

end Interner

namespace Listing.Contents

open Assembler TypeRegistry

/-! ## The invariant -/

def blank (strings : Interner String) : Rebuilding := { asm := { Assembler.empty with strings } }

def atRest (asm : Assembler) (strings : Interner String) : Rebuilding := { asm := { asm with strings } }

/-- **Reading the stream gives the sections and the types that are there.**  It does so with all
    strings that may come later. -/
def Replays (asm : Assembler) : Prop :=
  ∀ strings : Interner String, strings.Extends asm.strings → strings.values.size ≤ UInt32.size →
    ∃ b, Reads asm.code.toList (blank strings) b ∧ Tracks id id id (atRest asm strings) b

theorem Tracks.of_parts {f g : ResultId → ResultId} {place : Nat → Nat} {b c r : Rebuilding}
    (h : Tracks f g place b r) (hstrings : c.asm.strings = b.asm.strings)
    (hsize : c.asm.code.size = b.asm.code.size) (hopened : c.asm.openSections = b.asm.openSections)
    (hclosed : c.asm.closedSections = b.asm.closedSections) (hstruct : c.struct? = b.struct?)
    (htypes : c.asm.types = b.asm.types) : Tracks f g place c r where
  strings := h.strings.trans hstrings.symm
  size := by rw [h.size, hsize]
  opened := by rw [h.opened, hopened]
  closed := by rw [h.closed, hclosed]
  struct := by rw [h.struct, hstruct]
  header := by
    rw [hstruct]
    exact h.header
  types := by
    rw [htypes]
    exact h.types

theorem moved_all (f g : ResultId → ResultId) (n : Nat) (l : List Instruction) :
    moved f g (fun _ => true) n l = l.map (·.relabel f g) := by
  induction l generalizing n with
  | nil => rfl
  | cons x rest ih => rw [moved_cons, if_pos rfl, ih, List.map_cons]

theorem Tracks.readsAgain {b b' b1 : Rebuilding} (ht : Tracks id id id b b')
    (h : Reads l b b1) (hids : ∀ x ∈ l, x.opcode.isType = true → x.id.index ≠ 0)
    (htypes : ∀ r, (b1.asm.types.handle? r).isSome = true → r.index ≠ 0) :
    ∃ b1', Reads l b' b1' ∧ Tracks id id id b1 b1' := by
  obtain ⟨b1', hr, ht'⟩ := ht.reads h (fun _ => true) (fun _ _ heq _ => heq) (fun _ => rfl)
    (fun e he _ => ⟨hids e.1 (List.fst_mem_of_mem_zipIdx he), fun r _ hr => ⟨rfl, htypes r hr⟩⟩) nofun
  have hsame : l.map (·.relabel id id) = l := List.map_id l
  rw [moved_all, hsame] at hr
  exact ⟨b1', hr, ht'⟩

theorem Replays.reads {a b : Assembler} (h : Replays a) (hb : b.SharesTypes)
    (hcode : b.code.toList = a.code.toList ++ l) (hstrings : b.strings.Extends a.strings)
    (hreads : ∀ strings : Interner String, strings.Extends b.strings →
      strings.values.size ≤ UInt32.size → ∃ c, Reads l (atRest a strings) c ∧ c.struct? = none ∧
      c.asm.openSections = b.openSections ∧ c.asm.closedSections = b.closedSections ∧
      c.asm.types = b.types) : Replays b := by
  intro strings hextends hsize
  obtain ⟨r, hr, ht⟩ := h strings (hextends.trans hstrings) hsize
  obtain ⟨c, hc, hstruct, hopened, hclosed, htypes⟩ := hreads strings hextends hsize
  have htype : ∀ r, (c.asm.types.handle? r).isSome = true → r.index ≠ 0 := by
    intro r hr
    obtain ⟨k, hk⟩ := Option.isSome_iff_exists.mp hr
    obtain ⟨decl, hdecl, hdeclType, rfl⟩ := hb.declares (htypes ▸ hk)
    exact (hb.stands decl hdecl hdeclType).id
  have hdeclared : ∀ x ∈ l, x.opcode.isType = true → x.id.index ≠ 0 := by
    intro x hx hop
    have hmem : x ∈ b.code.toList := by
      rw [hcode]
      exact List.mem_append_right _ hx
    exact (hb.stands x hmem hop).id
  obtain ⟨r', hr', ht'⟩ := ht.readsAgain hc hdeclared htype
  refine ⟨r', hcode ▸ hr.append hr', ht'.of_parts ?_ ?_ hopened.symm hclosed.symm hstruct.symm htypes.symm⟩
  · exact hc.strings.symm
  · rw [← Array.length_toList, ← Array.length_toList, hc.code]
    exact congrArg List.length hcode

/-! ## Steps that add to the stream -/

namespace Replays

variable {a b : Assembler} (h : Replays a) (hb : b.SharesTypes)
include h hb

theorem same (hcode : b.code = a.code) (hopened : b.openSections = a.openSections)
    (hclosed : b.closedSections = a.closedSections) (htypes : b.types = a.types)
    (hstrings : b.strings.Extends a.strings) : Replays b := by
  refine h.reads hb (l := []) ?_ hstrings fun strings _ _ =>
    ⟨_, .nil, rfl, hopened.symm, hclosed.symm, htypes.symm⟩
  rw [hcode, List.append_nil]

theorem adds (hcode : b.code = a.code.push inst) (hstrings : b.strings = a.strings)
    (hadds : ∀ strings : Interner String, ∃ c, Adds (atRest a strings) inst c ∧ c.struct? = none ∧
      c.asm.openSections = b.openSections ∧ c.asm.closedSections = b.closedSections ∧
      c.asm.types = b.types) :
    Replays b := by
  refine h.reads hb (l := [inst]) ?_ ?_ fun strings _ _ => ?_
  · rw [hcode, Array.toList_push]
  · rw [hstrings]
    exact .refl _
  · obtain ⟨c, hc, hparts⟩ := hadds strings
    exact ⟨c, .cons hc .nil, hparts⟩

theorem push (htype : inst.opcode.isType = false) (hopens : inst.opcode.opens? = none)
    (hcloses : inst.opcode.closes? = none) (hcode : b.code = a.code.push inst)
    (hstrings : b.strings = a.strings) (hopened : b.openSections = a.openSections)
    (hclosed : b.closedSections = a.closedSections) (htypes : b.types = a.types) : Replays b := by
  refine h.adds hb hcode hstrings fun strings => ?_
  have hparts : ((atRest a strings).asm.push inst).openSections = b.openSections ∧
      ((atRest a strings).asm.push inst).closedSections = b.closedSections ∧
      ((atRest a strings).asm.push inst).types = b.types := by
    rw [openSections_push, closedSections_push, types_push]
    exact ⟨hopened.symm, hclosed.symm, htypes.symm⟩
  by_cases hmember : inst.opcode = .structMember
  · exact ⟨_, .structMember hmember, rfl, hparts⟩
  · exact ⟨_, .plain (Opcode.isPlain_iff.mpr ⟨hmember, htype, hopens, hcloses⟩), rfl, hparts⟩

omit hb in
theorem opens {header : Instruction} {kind : SectionKind} (hkind : header.opcode.opens? = some kind)
    (hne : kind ≠ .record) (hb : (a.opened header kind).SharesTypes) :
    Replays (a.opened header kind) := by
  refine h.adds hb (code_push a header) (strings_push a header) fun strings =>
    ⟨_, .opens hkind hne, rfl, rfl, ?_, ?_⟩
  · show ((atRest a strings).asm.push header).closedSections = (a.push header).closedSections
    rw [closedSections_push, closedSections_push]
    rfl
  · show ((atRest a strings).asm.push header).types = (a.push header).types
    rw [types_push, types_push]
    rfl

omit hb in
theorem closes {footer : Instruction} {s : OpenSection} {outer : List OpenSection}
    (hkind : footer.opcode.closes? = some s.kind) (hne : s.kind ≠ .record)
    (hopen : a.openSections = s :: outer) (hb : (a.closed footer s outer).SharesTypes) :
    Replays (a.closed footer s outer) := by
  refine h.adds hb (code_push a footer) (strings_push a footer) fun strings =>
    ⟨_, .closes hkind hne hopen, rfl, rfl, rfl, ?_⟩
  rw [types_closed, types_closed]
  rfl

omit hb in
theorem declares {d : TypeDesc} (ha : a.types.Consistent) (hd : a.describe inst = .ok d)
    (hnone : a.types.declared? d = none)
    (hb : SharesTypes { a.push inst with types := a.types.declare inst.id d }) :
    Replays { a.push inst with types := a.types.declare inst.id d } := by
  refine h.adds hb (code_push a inst) (strings_push a inst) fun strings => ⟨_, .type hd, rfl, ?_, ?_, ?_⟩
  · show ((atRest a strings).asm.push inst).openSections = (a.push inst).openSections
    rw [openSections_push, openSections_push]
    rfl
  · show ((atRest a strings).asm.push inst).closedSections = (a.push inst).closedSections
    rw [closedSections_push, closedSections_push]
    rfl
  · have hfree := idOf?_intern_of_declared? ha hnone
    have hinsert : a.types.declared.insertIfNew (a.types.intern d).1 inst.id =
        a.types.declared.insert (a.types.intern d).1 inst.id := by
      apply if_neg
      rw [Table.contains, show a.types.declared.get? (a.types.intern d).1 = none from hfree]
      exact Bool.false_ne_true
    exact congrArg (fun declared => { (a.types.intern d).2 with
      declared, handles := a.types.handles.insert inst.id (a.types.intern d).1 }) hinsert

end Replays

theorem length_memberTrailers (i : Nat) (members : List (String × ResultId))
    (strings : Interner String) :
    (memberTrailers i members strings).length = members.length := by
  induction members generalizing i strings with
  | nil => rfl
  | cons m rest ih => exact congrArg (· + 1) (ih (i + 1) (strings.insert m.1).2)

theorem stringAt_of_extends {asm : Assembler} {v : String}
    (h : asm.strings.Extends (strings.insert v).2) (hsize : asm.strings.values.size ≤ UInt32.size) :
    stringAt asm (strings.insert v).1.toUInt32 = v := by
  have hget := Interner.get?_of_extends_insert h
  have hlt : (strings.insert v).1 < asm.strings.values.size := (Array.getElem?_eq_some_iff.mp hget).1
  have hword : (strings.insert v).1.toUInt32.toNat = (strings.insert v).1 :=
    UInt32.toNat_ofNat_of_lt' (Nat.lt_of_lt_of_le hlt hsize)
  rw [stringAt, string?, hword, hget]
  rfl

variable {b : Rebuilding}

theorem adds_memberTrailer {id : ResultId} {layout : StructLayout} (i : Nat) {m : String × ResultId}
    (hstruct : b.struct? = some (id, layout))
    (hextends : b.asm.strings.Extends (strings.insert m.1).2)
    (hsize : b.asm.strings.values.size ≤ UInt32.size) (hnew : m.1 ∉ layout.members.map (·.1)) :
    Adds b (memberTrailer i m strings)
      ⟨b.asm.push (memberTrailer i m strings),
        some (id, { layout with members := layout.members ++ [m] })⟩ := by
  have hname : stringAt b.asm (strings.insert m.1).1.toUInt32 = m.1 := stringAt_of_extends hextends hsize
  have hany : (layout.members.any fun n => n.1 == m.1) = false := by
    rw [Bool.eq_false_iff]
    intro hany
    obtain ⟨n, hn, heq⟩ := List.any_eq_true.mp hany
    exact hnew (List.mem_map.mpr ⟨n, hn, beq_iff_eq.mp heq⟩)
  have hlayout : nextLayout (stringAt b.asm) layout (memberTrailer i m strings) =
      { layout with members := layout.members ++ [m] } := by
    rw [nextLayout, show (memberTrailer i m strings).operands.snd =
      (strings.insert m.1).1.toUInt32 from rfl, hname, StructLayout.addMember?, hany]
    rfl
  have hadds : Adds b (memberTrailer i m strings) ⟨_, b.struct?.map _⟩ := .structMember rfl
  rw [hstruct, Option.map_some, hlayout] at hadds
  exact hadds

/-- **Members of a struct that is being read.**  Their names differ, so the layout gets all of them.
    -/
theorem reads_memberTrailers {members : List (String × ResultId)} (i : Nat)
    {id : ResultId} {layout : StructLayout} (hstruct : b.struct? = some (id, layout))
    (hextends : b.asm.strings.Extends (strings.insertAll (members.map (·.1))))
    (hsize : b.asm.strings.values.size ≤ UInt32.size) (hnodup : (members.map (·.1)).Nodup)
    (hnew : ∀ m ∈ members, m.1 ∉ layout.members.map (·.1)) :
    ∃ b', Reads (memberTrailers i members strings) b b' ∧
      b'.struct? = some (id, { layout with members := layout.members ++ members }) ∧
      b'.asm.openSections = b.asm.openSections ∧ b'.asm.closedSections = b.asm.closedSections ∧
      b'.asm.types = b.asm.types := by
  induction members generalizing i strings b layout with
  | nil =>
    refine ⟨b, .nil, ?_, rfl, rfl, rfl⟩
    rw [hstruct, List.append_nil]
  | cons m rest ih =>
    obtain ⟨hfirst, hrest⟩ := List.nodup_cons.mp hnodup
    obtain ⟨hm, hnewRest⟩ := List.forall_mem_cons.mp hnew
    have hadds := adds_memberTrailer i hstruct (hextends.trans (Interner.extends_insertAll _ _)) hsize hm
    have hstrings := hadds.strings
    obtain ⟨b', hreads, hstruct', hopened, hclosed, htypes⟩ := ih (i + 1) rfl (hstrings ▸ hextends)
      (hstrings ▸ hsize) hrest fun n hn hmem => by
        rw [List.map_append, List.mem_append] at hmem
        rcases hmem with hmem | hmem
        · exact hnewRest n hn hmem
        · exact hfirst (List.mem_map.mpr ⟨n, hn, List.mem_singleton.mp hmem⟩)
    refine ⟨b', .cons hadds hreads, ?_, hopened.trans (openSections_push ..),
      hclosed.trans (closedSections_push ..), htypes.trans (types_push ..)⟩
    rw [hstruct', List.append_assoc]
    rfl

/-- **A struct that is declared in one go is read from its instructions.** -/
theorem Replays.declaresStruct {a b : Assembler} (h : Replays a) (hb : b.SharesTypes)
    {name : String} {members : List (String × ResultId)} (hparts : DeclaresStruct a b name members)
    (hnodup : (members.map (·.1)).Nodup) : Replays b := by
  refine h.reads hb hparts.code ?_ fun strings hextends hsize => ?_
  · rw [hparts.strings]
    exact Interner.extends_insertAll _ _
  rw [hparts.strings] at hextends
  have hname : stringAt (atRest a strings).asm (a.strings.insert name).1.toUInt32 = name :=
    stringAt_of_extends (hextends.trans (Interner.extends_insertAll _ _)) hsize
  have hheader : Adds (atRest a strings) (a.structHeader name members.length)
      ⟨(atRest a strings).asm.opened (a.structHeader name members.length) .record,
        some (⟨a.ids.size⟩, { name })⟩ := by
    have hadds : Adds (atRest a strings) (a.structHeader name members.length) _ := .structType rfl
    rw [show (a.structHeader name members.length).operands.snd =
      (a.strings.insert name).1.toUInt32 from rfl, hname] at hadds
    exact hadds
  have hstrings : ((atRest a strings).asm.opened (a.structHeader name members.length) .record).strings = strings :=
    hheader.strings
  obtain ⟨c, hmembers, hstruct, hopened, hclosed, htypes⟩ := reads_memberTrailers 0
    (b := ⟨(atRest a strings).asm.opened (a.structHeader name members.length) .record,
      some (⟨a.ids.size⟩, { name })⟩)
    rfl (hstrings.symm ▸ hextends) (hstrings.symm ▸ hsize) hnodup fun _ _ => List.not_mem_nil
  have hplace : c.asm.code.size = a.code.size + 1 + members.length := by
    rw [← Array.length_toList, hmembers.code, List.length_append, length_memberTrailers, hheader.code]
    simp [atRest]
  have hfooter : Adds c (structFooter ⟨a.ids.size⟩) _ := .structEnd rfl hopened rfl
  refine ⟨_, .cons hheader (hmembers.concat hfooter), rfl, hparts.opened.symm, ?_, ?_⟩
  · show c.asm.closedSections.push _ = _
    rw [hclosed, hparts.closed, structSection, hplace]
    show ((atRest a strings).asm.push _).closedSections.push _ = _
    rw [closedSections_push]
    rfl
  · show c.endedTypes = _
    rw [Rebuilding.endedTypes, hstruct, hparts.types]
    show c.asm.types.declareStruct _ _ = _
    rw [htypes]
    show ((atRest a strings).asm.push _).types.declareStruct _ _ = _
    rw [types_push]
    rfl

/-! ## Steps that change the stream -/

theorem tracks_blank (f g : ResultId → ResultId) {place : Nat → Nat} (hplace : place 0 = 0)
    (strings : Interner String) : Tracks f g place (blank strings) (blank strings) where
  strings := rfl
  size := hplace.symm
  opened := rfl
  closed := rfl
  struct := rfl
  header := nofun
  types := by
    refine ⟨Interned.empty.layered, Interned.empty.layered, fun _ _ => rfl, nofun, ?_⟩
    show Array.map _ #[] = Array.map _ #[]
    rw [Array.map_empty, Array.map_empty]

theorem Replays.replace {a : Assembler} (h : Replays a) (ha : a.SharesTypes)
    (hmembers : a.MembersStand) {old : ResultId} (hold : a.types.handle? old = none)
    (new : ResultId) : Replays (a.replace old new).2 := by
  have hframe := replace_touches a old new
  rcases replace_cases a old new with ⟨hcode, -⟩ | ⟨-, -, -, heq⟩
  · refine h.same (ha.replace hold new) hcode ?_ ?_ ?_ ?_ <;> rw [hframe]
    exact .refl _
  rw [heq]
  intro strings hextends hsize
  obtain ⟨b, hb, ht⟩ := h strings hextends hsize
  -- What is read as a type is one, so it is not what is replaced.
  have hother : ∀ {r}, (a.types.handle? r).isSome = true → (if r = old then new else r) = r := by
    intro r hr
    apply if_neg
    rintro rfl
    rw [hold] at hr
    cases hr
  have hkept : ∀ e ∈ a.code.toList.zipIdx 0, (e.1.opcode.isType = true → e.1.id.index ≠ 0) ∧
      ∀ r ∈ e.1.slots, (b.asm.types.handle? r).isSome = true →
        (if r = old then new else r) = r ∧ r.index ≠ 0 := by
    intro e he
    refine ⟨fun hop => (ha.stands e.1 (List.fst_mem_of_mem_zipIdx he) hop).id, fun r _ hr => ?_⟩
    obtain ⟨x, rfl, hne, hx⟩ := ht.types.exists_of_handle? hr
    exact ⟨hother hx, hne⟩
  have hstart : Tracks id (fun r => if r = old then new else r) id (blank strings) (blank strings) :=
    tracks_blank _ _ rfl strings
  obtain ⟨b', hb', ht'⟩ := hstart.reads hb (fun _ => true) (fun _ _ heq _ => heq) (fun _ => rfl)
    (fun e he _ => hkept e he) nofun
  refine ⟨b', ?_, ?_⟩
  · rw [moved_all] at hb'
    show Reads (a.code.map _).toList (blank strings) b'
    rw [Array.toList_map]
    exact hb'
  · have hboth := ht.trans ht' rfl rfl
    refine ⟨hboth.strings, ?_, hboth.opened, hboth.closed, hboth.struct, nofun, ?_⟩
    · rw [hboth.size]
      exact (Array.size_map ..).symm
    · refine hboth.types.withMembers fun layout hlayout m hm => ?_
      obtain ⟨l, hl⟩ := Array.getElem?_of_mem hlayout
      exact (hother (hmembers ⟨l⟩ layout m hl hm).1).symm

/-- Sections start and end at their markers. -/
structure Marked (b : Rebuilding) : Prop where
  opened : ∀ s ∈ b.asm.openSections, s.loops = [] ∧
    ∃ x, b.asm.code[s.start]? = some x ∧ x.opcode.opens?.isSome = true
  closed : ∀ s ∈ b.asm.closedSections.toList, ∃ first last, s.span = .inclusive first last ∧
    (∃ x, b.asm.code[first]? = some x ∧ x.opcode.opens?.isSome = true) ∧
      ∃ y, b.asm.code[last]? = some y ∧ y.opcode.closes?.isSome = true

theorem Adds.marked {b b' : Rebuilding} (h : Adds b inst b') (hb : Marked b) : Marked b' := by
  have hold : ∀ {i : Nat} {x}, b.asm.code[i]? = some x → b'.asm.code[i]? = some x := by
    intro i x hx
    rw [h.code, Array.getElem?_push, if_neg (Nat.ne_of_lt (lt_size_code hx))]
    exact hx
  have hnew : b'.asm.code[b.asm.code.size]? = some inst := by rw [h.code, Array.getElem?_push_size]
  refine ⟨fun s hs => ?_, fun s hs => ?_⟩
  · rcases h.mem_openSections hs with hs | ⟨heq, hop⟩
    · obtain ⟨hloops, x, hx, hopens⟩ := hb.opened s hs
      exact ⟨hloops, x, hold hx, hopens⟩
    · rw [heq]
      exact ⟨rfl, inst, hnew, by rw [hop]; rfl⟩
  · rcases h.mem_closedSections hs with hs | ⟨o, outer, hopen, hop, rfl⟩
    · obtain ⟨first, last, hspan, ⟨x, hx, hopens⟩, y, hy, hcloses⟩ := hb.closed s hs
      exact ⟨first, last, hspan, ⟨x, hold hx, hopens⟩, y, hold hy, hcloses⟩
    · obtain ⟨-, x, hx, hopens⟩ := hb.opened o (hopen ▸ List.mem_cons_self)
      exact ⟨_, _, rfl, ⟨x, hold hx, hopens⟩, inst, hnew, by rw [hop]; rfl⟩

theorem marked_of_reads (h : Reads l (blank strings) b) : Marked b :=
  h.invariant (fun _ => Adds.marked) ⟨nofun, nofun⟩

theorem Opcode.isPlain_of_isPure {op : Opcode} (h : op.isPure = true) (htype : op.isType = false) :
    op.isPlain = true := by
  revert h htype
  cases op <;> decide

section Flatten

variable {asm : Assembler}

theorem movedTo_of_marker {i : Nat} {x : Instruction} (hx : asm.code[i]? = some x)
    (hmarker : x.opcode.opens?.isSome = true ∨ x.opcode.closes?.isSome = true) :
    asm.movedTo i = some (rank asm.sweep.removed i) :=
  movedTo_eq (lt_size_code hx) (not_removed_of_isMarker hx hmarker)

variable {b : Rebuilding} (hb : Marked b) (hcode : b.asm.code = asm.code)
include hb hcode

theorem openSections_flatten_of_marked (hopened : b.asm.openSections = asm.openSections) :
    asm.flatten.2.openSections =
      asm.openSections.map (.move asm.newId (rank asm.sweep.removed)) := by
  rw [openSections_flatten]
  refine List.map_congr_left fun s hs => ?_
  obtain ⟨hloops, x, hx, hopens⟩ := hb.opened s (hopened ▸ hs)
  rw [movedTo_of_marker (hcode ▸ hx) (.inl hopens), hloops]
  show OpenSection.mk _ _ _ [] = OpenSection.mk _ _ _ s.loops
  rw [hloops]
  rfl

theorem closedSections_flatten_of_marked
    (hclosed : b.asm.closedSections.toList = asm.closedSections.toList) :
    asm.flatten.2.closedSections.toList =
      asm.closedSections.toList.map (.move asm.newId (rank asm.sweep.removed)) := by
  rw [closedSections_flatten, Array.toList_filterMap, List.filterMap_eq_map_iff_forall_eq_some]
  intro s hs
  obtain ⟨first, last, hspan, ⟨x, hx, hopens⟩, y, hy, hcloses⟩ := hb.closed s (hclosed ▸ hs)
  have hfirst : asm.movedTo s.span.first = some (rank asm.sweep.removed first) := by
    rw [hspan]
    exact movedTo_of_marker (hcode ▸ hx) (.inl hopens)
  have hlast : asm.movedTo (s.span.stop - 1) = some (rank asm.sweep.removed last) := by
    rw [hspan]
    exact movedTo_of_marker (hcode ▸ hy) (.inr hcloses)
  have hstop : s.span.stop ≠ 0 := by
    rw [hspan]
    exact Nat.succ_ne_zero last
  have hbehind : rank asm.sweep.removed s.span.stop = rank asm.sweep.removed last + 1 := by
    rw [hspan]
    show rank _ (last + 1) = _
    rw [rank_succ, not_removed_of_isMarker (hcode ▸ hy) (.inr hcloses), if_neg Bool.false_ne_true]
  rw [if_neg hstop, hfirst, hlast, ClosedSection.move, hbehind, hspan]
  rfl

end Flatten

/-- **Dead code removal.**  What is left refers to what is left, and markers of sections are. -/
theorem Replays.flatten {a : Assembler} (h : Replays a) (ha : a.SharesTypes) :
    Replays a.flatten.2 := by
  have hexact := ha.coherent.exact
  have hstrings : a.flatten.2.strings = a.strings := by
    show a.sweep.asm.strings = _
    rw [(traced_sweep a).frame]
  intro strings hextends hsize
  obtain ⟨b, hb, ht⟩ := h strings (hstrings ▸ hextends) hsize
  have hplace : ∀ i, rank a.sweep.removed (i + 1) =
      rank a.sweep.removed i + if (!flagged a.sweep.removed i) = true then 1 else 0 := by
    intro i
    rw [rank_succ]
    cases flagged a.sweep.removed i <;> rfl
  have hstart : Tracks a.newId a.newId (rank a.sweep.removed) (blank strings) (blank strings) :=
    tracks_blank _ _ (rank_zero _) strings
  have hkept : ∀ e ∈ a.code.toList.zipIdx 0, (!flagged a.sweep.removed e.2) = true →
      (e.1.opcode.isType = true → (a.newId e.1.id).index ≠ 0) ∧
        ∀ r ∈ e.1.slots, (b.asm.types.handle? r).isSome = true → a.newId r = a.newId r ∧
          (a.newId r).index ≠ 0 := by
    intro e he hkeep
    have hat : a.code[e.2]? = some e.1 := by
      rw [← Array.getElem?_toList]
      exact List.mem_zipIdx_iff_getElem?.mp he
    have hsurvives : e.1 ∈ survivors a.sweep.removed a.code := mem_survivors.mpr ⟨e.2, hat, by simpa using hkeep⟩
    refine ⟨fun hop => ?_, fun r hr hhandle => ⟨rfl, ?_⟩⟩
    · have hkept := kept_of_mem_survivors hexact ha.coherent.definition?_iff ha.coherent.allocated hsurvives
        (.inl rfl)
      exact newId_ne_zero hkept (ha.stands e.1 (List.fst_mem_of_mem_zipIdx he) hop).id
    · obtain ⟨x, rfl, hne, -⟩ := ht.types.exists_of_handle? hhandle
      exact newId_ne_zero (kept_of_mem_slots hexact hsurvives hr) hne
  have hdropped : ∀ e ∈ a.code.toList.zipIdx 0, (!flagged a.sweep.removed e.2) = false →
      e.1.opcode.isPlain = true ∨
        e.1.opcode.isType = true ∧ e.1.opcode ≠ .structType ∧ (a.newId e.1.id).index = 0 := by
    intro e he hgone
    have hat : a.code[e.2]? = some e.1 := by
      rw [← Array.getElem?_toList]
      exact List.mem_zipIdx_iff_getElem?.mp he
    have hgone : flagged a.sweep.removed e.2 = true := by simpa using hgone
    rcases opcode_of_removed hgone hat with hpure | hop | hop
    · by_cases htype : e.1.opcode.isType = true
      · refine .inr ⟨htype, fun hop => ?_, ha.coherent.newId_of_removed hat hgone htype⟩
        rw [hop] at hpure
        cases hpure
      · exact .inl (Opcode.isPlain_of_isPure hpure (by simpa using htype))
    · exact .inl (by rw [hop]; rfl)
    · exact .inl (by rw [hop]; rfl)
  obtain ⟨b', hb', ht'⟩ := hstart.reads hb (fun i => !flagged a.sweep.removed i) (parts_newId a)
    hplace hkept hdropped
  refine ⟨b', ?_, ?_⟩
  · rw [code_flatten, survivors, List.map_map]
    exact hb'
  · have hboth := ht.trans ht' rfl (newId_void a)
    have hmarked := marked_of_reads hb
    have hcode : b.asm.code = a.code := Array.toList_inj.mp hb.code
    have hopened : b.asm.openSections = a.openSections := ht.opened.trans (List.map_id _)
    have hclosed : b.asm.closedSections.toList = a.closedSections.toList := ht.closed.trans (List.map_id _)
    refine ⟨hboth.strings.trans ?_, ?_, ?_, ?_, hboth.struct, by simp [atRest], ?_⟩
    · rfl
    · rw [hboth.size]
      exact (size_code_flatten a).symm
    · rw [hboth.opened]
      show a.openSections.map _ = a.flatten.2.openSections.map _
      rw [openSections_flatten_of_marked hmarked hcode hopened, List.map_map]
      rfl
    · rw [hboth.closed]
      show a.closedSections.toList.map _ = a.flatten.2.closedSections.toList.map _
      rw [closedSections_flatten_of_marked hmarked hcode hclosed, List.map_map]
      rfl
    · show Mirrors id id a.flatten.2.types b'.asm.types
      rw [types_flatten]
      have hparts := parts_newId a
      exact hboth.types.of_rename hparts (ha.interned.rename hparts).layered

/-- **Every assembler that was built by hand is what reading its stream gives.** -/
theorem replays_of_grown {asm : Assembler} (h : Grown asm) : Replays asm := by
  induction h with
  | empty => exact fun strings _ _ => ⟨blank strings, .nil, tracks_blank id id rfl strings⟩
  | @step a b hgrown hstep ih =>
    have hb : b.SharesTypes := (hgrown.step hstep).sharesTypes
    have ha := hgrown.sharesTypes
    cases hstep with
    | create op => exact ih.same hb rfl rfl rfl rfl (.refl _)
    | push _ hop =>
      obtain ⟨htype, hopens, hcloses, -⟩ := Opcode.isBody_iff.mp hop
      exact ih.push hb htype hopens hcloses (code_push ..) (strings_push ..) (openSections_push ..)
        (closedSections_push ..) (types_push ..)
    | opens _ hkind hne => exact ih.opens hkind hne hb
    | closes _ hkind hne hopen => exact ih.closes hkind hne hopen hb
    | type _ _ hd hnone => exact ih.declares ha.interned.toConsistent hd hnone hb
    | struct hclean =>
      exact ih.declaresStruct hb (declaresStruct_of_clean hclean) (pushStruct_of_clean hclean).2.2.1
    | @interface inst v _ _ hop =>
      have hframe : (a.push inst).registerInterface v = { a.push inst with
          names := (a.push inst).names.nameAll [(v.var, v.name)], interface := (a.push inst).interface.push v } := by
        rw [registerInterface, setName_eq]
      rw [hframe] at hb ⊢
      have hplain : inst.opcode.isType = false ∧ inst.opcode.opens? = none ∧ inst.opcode.closes? = none := by
        generalize inst.opcode = op at hop
        cases op <;> first | exact ⟨rfl, rfl, rfl⟩ | cases hop
      exact ih.push hb hplain.1 hplain.2.1 hplain.2.2 (code_push ..) (strings_push ..) (openSections_push ..)
        (closedSections_push ..) (types_push ..)
    | addString s => exact ih.same hb rfl rfl rfl rfl (Interner.extends_insert _ _)
    | setName name =>
      rw [setName_eq] at hb ⊢
      exact ih.same hb rfl rfl rfl rfl (.refl _)
    | replace hold => exact ih.replace ha hgrown.membersStand hold _
    | flatten => exact ih.flatten ha

end Listing.Contents

end ShaderIR
