import Mathlib.Data.List.Basic
import ShaderIR.Proofs.Assembler.Histories

/-!
# Sections bracket

All that operations do to sections is said once, by `Nests`: the stream grows, a section is opened
at its end, the innermost section is closed there, or the open sections are forgotten.  Dead code
removal takes no header and no footer, so it keeps the order of both ends of every section.
-/

namespace ShaderIR

open Operation (runAll)

variable {kind : SectionKind} {i : Nat} {header : ResultId}

/-! ## Brackets -/

def Span.Precedes (a b : Span) : Prop := a.stop ≤ b.first

/-- `a` lies inside `b`, which has both ends to itself. -/
def Span.Inside (a b : Span) : Prop := b.first < a.first ∧ a.stop < b.stop

theorem Span.contains_eq_false {s : Span} : s.contains i = false ↔ i < s.first ∨ s.stop ≤ i := by
  rw [Bool.eq_false_iff, contains, ne_eq, Bool.and_eq_true, decide_eq_true_eq, decide_eq_true_eq]
  omega

def OpenSection.place (s : OpenSection) : SectionKind × ResultId × Nat := (s.kind, s.header, s.start)

namespace Assembler

/-- The instruction at position `i` opens a section of the given kind and has the given id. -/
def OpensAt (asm : Assembler) (i : Nat) (kind : SectionKind) (header : ResultId) : Prop :=
  ∃ inst, asm.code[i]? = some inst ∧ inst.opcode.opens? = some kind ∧ inst.id = header

def ClosesAt (asm : Assembler) (i : Nat) (kind : SectionKind) : Prop :=
  ∃ inst, asm.code[i]? = some inst ∧ inst.opcode.closes? = some kind

theorem OpensAt.lt_size {asm : Assembler} (h : asm.OpensAt i kind header) : i < asm.code.size := by
  obtain ⟨inst, hinst, -⟩ := h
  exact lt_size_code hinst

/-- Sections run from header to footer and nest like brackets.  Open sections are listed innermost
    first, closed ones in the order in which they were closed. -/
structure Bracketed (asm : Assembler) : Prop where
  within : ∀ c ∈ asm.closedSections.toList, c.span.first < c.span.stop ∧ c.span.stop ≤ asm.code.size
  header : ∀ c ∈ asm.closedSections.toList, asm.OpensAt c.span.first c.kind c.header
  footer : ∀ c ∈ asm.closedSections.toList, asm.ClosesAt (c.span.stop - 1) c.kind
  start : ∀ s ∈ asm.openSections, asm.OpensAt s.start s.kind s.header
  rising : asm.openSections.Pairwise fun inner outer => outer.start < inner.start
  nested : asm.closedSections.toList.Pairwise fun earlier later =>
    earlier.span.Precedes later.span ∨ earlier.span.Inside later.span
  apart : ∀ c ∈ asm.closedSections.toList, ∀ s ∈ asm.openSections, c.span.contains s.start = false

theorem bracketed_empty : Bracketed .empty where
  within := nofun
  header := nofun
  footer := nofun
  start := nofun
  rising := .nil
  nested := .nil
  apart := nofun

/-! ## One step -/

structure Prolongs (a b : Assembler) : Prop where
  code : ∃ l, b.code.toList = a.code.toList ++ l
  opened : b.openSections.map (·.place) = a.openSections.map (·.place)
  closed : b.closedSections = a.closedSections

/-- What operations do to sections, other than those that rewrite the stream. -/
inductive Nests : Assembler → Assembler → Prop
  | prolongs {a b : Assembler} (h : Prolongs a b) : Nests a b
  | opened {a : Assembler} {header : Instruction} {kind : SectionKind}
      (h : header.opcode.opens? = some kind) : Nests a (a.opened header kind)
  | closed {a : Assembler} {footer : Instruction} {s : OpenSection} {outer : List OpenSection}
      (hopen : a.openSections = s :: outer) (h : footer.opcode.closes? = some s.kind) :
      Nests a (a.closed footer s outer)
  | finished (a : Assembler) : Nests a a.finish
  | trans {a b c : Assembler} : Nests a b → Nests b c → Nests a c

section

variable {a b : Assembler} {l : List Instruction}

theorem getElem?_of_append (h : b.code.toList = a.code.toList ++ l) {x : Instruction}
    (hx : a.code[i]? = some x) : b.code[i]? = some x := by
  rw [← Array.getElem?_toList] at hx ⊢
  rw [h, List.getElem?_append_left (List.getElem?_eq_some_iff.mp hx).1, hx]

theorem OpensAt.append (hcode : b.code.toList = a.code.toList ++ l)
    (h : a.OpensAt i kind header) : b.OpensAt i kind header := by
  obtain ⟨inst, hinst, hrest⟩ := h
  exact ⟨inst, getElem?_of_append hcode hinst, hrest⟩

theorem ClosesAt.append (hcode : b.code.toList = a.code.toList ++ l) (h : a.ClosesAt i kind) :
    b.ClosesAt i kind := by
  obtain ⟨inst, hinst, hrest⟩ := h
  exact ⟨inst, getElem?_of_append hcode hinst, hrest⟩

theorem size_le_of_append (h : b.code.toList = a.code.toList ++ l) : a.code.size ≤ b.code.size := by
  rw [← Array.length_toList, ← Array.length_toList, h, List.length_append]
  exact Nat.le_add_right _ _

theorem toList_code_push (asm : Assembler) (inst : Instruction) :
    (asm.push inst).code.toList = asm.code.toList ++ [inst] := by
  rw [code_push, Array.toList_push]

end

namespace Bracketed

variable {a : Assembler} (h : a.Bracketed)
include h

theorem prolongs {b : Assembler} (hb : Prolongs a b) : b.Bracketed := by
  obtain ⟨⟨l, hcode⟩, hopened, hclosed⟩ := hb
  have hsize := size_le_of_append hcode
  have hstarts : b.openSections.map (·.start) = a.openSections.map (·.start) := by
    have hmap := congrArg (List.map fun p : SectionKind × ResultId × Nat => p.2.2) hopened
    rwa [List.map_map, List.map_map] at hmap
  -- Every open section has one in front of it that stands at the same place.
  have hplace : ∀ s ∈ b.openSections, ∃ s' ∈ a.openSections, s'.place = s.place := by
    intro s hs
    have hmem : s.place ∈ a.openSections.map (·.place) := hopened ▸ List.mem_map_of_mem hs
    exact List.mem_map.mp hmem
  constructor
  · intro c hc
    have hin := h.within c (hclosed ▸ hc)
    omega
  · exact fun c hc => (h.header c (hclosed ▸ hc)).append hcode
  · exact fun c hc => (h.footer c (hclosed ▸ hc)).append hcode
  · intro s hs
    obtain ⟨s', hs', hsame⟩ := hplace s hs
    cases s
    cases s'
    cases hsame
    exact (h.start _ hs').append hcode
  · have hrising := h.rising
    rw [← List.pairwise_map (f := OpenSection.start) (R := fun inner outer => outer < inner)] at hrising ⊢
    rwa [hstarts]
  · rw [hclosed]
    exact h.nested
  · intro c hc s hs
    obtain ⟨s', hs', hsame⟩ := hplace s hs
    have hstart : s'.start = s.start := congrArg (·.2.2) hsame
    rw [← hstart]
    exact h.apart c (hclosed ▸ hc) s' hs'

theorem opened {header : Instruction} (hkind : header.opcode.opens? = some kind) :
    (a.opened header kind).Bracketed := by
  have hcode : (a.opened header kind).code.toList = a.code.toList ++ [header] := toList_code_push a header
  have hsize := size_le_of_append hcode
  have hclosed : (a.opened header kind).closedSections = a.closedSections := closedSections_push a header
  have hopen : (a.opened header kind).openSections =
      { kind, header := header.id, start := a.code.size } :: a.openSections := rfl
  constructor
  · intro c hc
    have hin := h.within c (hclosed ▸ hc)
    omega
  · exact fun c hc => (h.header c (hclosed ▸ hc)).append hcode
  · exact fun c hc => (h.footer c (hclosed ▸ hc)).append hcode
  · rw [hopen]
    refine List.forall_mem_cons.mpr ⟨⟨header, ?_, hkind, rfl⟩, fun s hs => (h.start s hs).append hcode⟩
    show (a.push header).code[a.code.size]? = some header
    rw [code_push, Array.getElem?_push_size]
  · rw [hopen]
    exact List.pairwise_cons.mpr ⟨fun s hs => (h.start s hs).lt_size, h.rising⟩
  · rw [hclosed]
    exact h.nested
  · rw [hclosed, hopen]
    intro c hc
    refine List.forall_mem_cons.mpr ⟨Span.contains_eq_false.mpr (.inr ?_), h.apart c hc⟩
    exact (h.within c hc).2

/-- **The innermost section is closed.**  What was closed while it was open lies inside of it, and
    what was closed before is over. -/
theorem closed {footer : Instruction} {s : OpenSection} {outer : List OpenSection}
    (hopen : a.openSections = s :: outer) (hkind : footer.opcode.closes? = some s.kind) :
    (a.closed footer s outer).Bracketed := by
  have hcode : (a.closed footer s outer).code.toList = a.code.toList ++ [footer] := toList_code_push a footer
  have hsize : (a.closed footer s outer).code.size = a.code.size + 1 := by
    rw [← Array.length_toList, hcode, List.length_append, Array.length_toList, List.length_singleton]
  have hclosed : (a.closed footer s outer).closedSections.toList = a.closedSections.toList ++
      [{ kind := s.kind, header := s.header, span := .inclusive s.start a.code.size }] := Array.toList_push
  have hs : s ∈ a.openSections := hopen ▸ List.mem_cons_self
  have houter : ∀ o ∈ outer, o ∈ a.openSections := fun o ho => hopen ▸ List.mem_cons_of_mem _ ho
  have hrising := h.rising
  rw [hopen, List.pairwise_cons] at hrising
  have hstart := (h.start s hs).lt_size
  refine { within := ?_, header := ?_, footer := ?_, start := ?_, rising := hrising.2, nested := ?_, apart := ?_ }
  · rw [hclosed, List.forall_mem_append, List.forall_mem_singleton, hsize]
    refine ⟨fun c hc => ?_, ?_⟩
    · have hin := h.within c hc
      omega
    · show s.start < a.code.size + 1 ∧ a.code.size + 1 ≤ a.code.size + 1
      omega
  · rw [hclosed, List.forall_mem_append, List.forall_mem_singleton]
    exact ⟨fun c hc => (h.header c hc).append hcode, (h.start s hs).append hcode⟩
  · rw [hclosed, List.forall_mem_append, List.forall_mem_singleton]
    refine ⟨fun c hc => (h.footer c hc).append hcode, footer, ?_, hkind⟩
    show (a.push footer).code[a.code.size]? = some footer
    rw [code_push, Array.getElem?_push_size]
  · exact fun o ho => (h.start o (houter o ho)).append hcode
  · rw [hclosed, List.pairwise_append]
    refine ⟨h.nested, List.pairwise_singleton _ _, fun c hc => List.forall_mem_singleton.mpr ?_⟩
    have hin := h.within c hc
    rcases Span.contains_eq_false.mp (h.apart c hc s hs) with hlt | hle
    · refine .inr ⟨hlt, ?_⟩
      show c.span.stop < a.code.size + 1
      omega
    · exact .inl hle
  · rw [hclosed, List.forall_mem_append, List.forall_mem_singleton]
    refine ⟨fun c hc o ho => h.apart c hc o (houter o ho), fun o ho => ?_⟩
    exact Span.contains_eq_false.mpr (.inl (hrising.1 o ho))

end Bracketed

theorem sections_finish (asm : Assembler) :
    asm.finish.openSections = [] ∧ asm.finish.closedSections = asm.closedSections := by
  rw [finish_eq]
  exact ⟨rfl, rfl⟩

theorem Bracketed.finish {a : Assembler} (h : a.Bracketed) : a.finish.Bracketed := by
  obtain ⟨hopened, hclosed⟩ := a.sections_finish
  have hcode : a.finish.code = a.code := a.code_finish
  constructor
  · rw [hclosed, hcode]
    exact h.within
  · rw [hclosed]
    exact fun c hc => (h.header c hc).append (l := []) (by rw [hcode, List.append_nil])
  · rw [hclosed]
    exact fun c hc => (h.footer c hc).append (l := []) (by rw [hcode, List.append_nil])
  · rw [hopened]
    exact nofun
  · rw [hopened]
    exact .nil
  · rw [hclosed]
    exact h.nested
  · rw [hopened]
    exact fun c _ => nofun

theorem Bracketed.nests {a b : Assembler} (h : a.Bracketed) (hb : Nests a b) : b.Bracketed := by
  induction hb with
  | prolongs hb => exact h.prolongs hb
  | opened hkind => exact h.opened hkind
  | closed hopen hkind => exact h.closed hopen hkind
  | finished a => exact h.finish
  | trans _ _ ih1 ih2 => exact ih2 (ih1 h)

/-! ## Operations that build -/

namespace Prolongs

variable {a b c : Assembler}

theorem same (hcode : b.code = a.code) (hopened : b.openSections = a.openSections)
    (hclosed : b.closedSections = a.closedSections) : Prolongs a b :=
  ⟨⟨[], by rw [hcode, List.append_nil]⟩, by rw [hopened], hclosed⟩

theorem refl (a : Assembler) : Prolongs a a := .same rfl rfl rfl

theorem trans (h : Prolongs a b) (h' : Prolongs b c) : Prolongs a c := by
  obtain ⟨l, hl⟩ := h.code
  obtain ⟨l', hl'⟩ := h'.code
  exact ⟨⟨l ++ l', by rw [hl', hl, List.append_assoc]⟩, h'.opened.trans h.opened, h'.closed.trans h.closed⟩

theorem push (a : Assembler) (inst : Instruction) : Prolongs a (a.push inst) :=
  ⟨⟨[inst], toList_code_push a inst⟩, by rw [openSections_push], closedSections_push a inst⟩

theorem pushNew (a : Assembler) (inst : Instruction) : Prolongs a (a.pushNew inst).2 :=
  have hcreate : Prolongs a (a.create inst.opcode).2 := .same rfl rfl rfl
  hcreate.trans (.push _ _)

theorem pushMany (a : Assembler) (insts : List Instruction) : Prolongs a (a.pushMany insts) := by
  induction insts generalizing a with
  | nil => exact .refl a
  | cons inst rest ih => exact (Prolongs.push a inst).trans (ih _)

theorem setName (a : Assembler) (id : ResultId) (name : String) :
    Prolongs a (a.setName id name) := by
  rw [setName_eq]
  exact .same rfl rfl rfl

theorem setLoops (a : Assembler) (loops : List LoopTargets) : Prolongs a (a.setLoops loops) := by
  unfold Assembler.setLoops
  split
  next s outer hopen => exact ⟨⟨[], (List.append_nil _).symm⟩, by rw [hopen]; rfl, rfl⟩
  next => exact .same rfl rfl rfl

theorem registerInterface (a : Assembler) (v : InterfaceVar) : Prolongs a (a.registerInterface v) :=
  (Prolongs.setName a v.var v.name).trans (.same rfl rfl rfl)

theorem pushInterface {direction : Direction} {name : String} {type id : ResultId}
    (heq : a.pushInterface direction name type = .ok (id, b)) : Prolongs a b := by
  rcases pushInterface_cases heq with rfl | rfl
  · exact .refl b
  · exact (Prolongs.pushNew a _).trans (.registerInterface _ _)

theorem pushType {inst : Instruction} {id : ResultId} (heq : a.pushType inst = .ok (id, b)) :
    Prolongs a b := by
  obtain ⟨d, -, rfl | ⟨-, rfl⟩ | ⟨-, rfl⟩⟩ := pushType_ok heq
  · exact .refl b
  · exact (Prolongs.pushNew a inst).trans (.same rfl rfl rfl)
  · exact (Prolongs.push a inst).trans (.same rfl rfl rfl)

theorem pushMembers (i : Nat) (members : List (String × ResultId)) (a : Assembler) :
    Prolongs a (pushMembers i members a) := by
  induction members generalizing i a with
  | nil => exact .refl a
  | cons m rest ih =>
    have hstring : Prolongs a (a.addString m.1).2 := .same rfl rfl rfl
    exact (hstring.trans (.push _ _)).trans (ih (i + 1) _)

theorem converts (h : Converts a b) : Prolongs a b := by
  induction h with
  | refl => exact .refl _
  | type _ heq => exact pushType heq
  | value => exact .pushNew _ _
  | argument => exact .push _ _
  | trans _ _ ih1 ih2 => exact ih1.trans ih2

end Prolongs

theorem Nests.refl (a : Assembler) : Nests a a := .prolongs (.refl a)

theorem Nests.pushStruct (a : Assembler) (name : String) (members : List (String × ResultId)) :
    Nests a (a.pushStruct name members).2 := by
  obtain ⟨log, layout, heq, -⟩ := layoutMembers_eq name members a { name } (List.forall_mem_nil _)
  let laid : Assembler := { a with log }
  let before := ((laid.addString name).2.create .structType).2
  let header := laid.structHeader name layout.members.length
  let listed := pushMembers 0 layout.members (before.push header)
  let footer := structFooter ⟨a.ids.size⟩
  have hbefore : Prolongs a before := .same rfl rfl rfl
  have hmembers : Prolongs (before.push header) listed := .pushMembers 0 _ _
  -- In between, the section counts as open.
  let inside : Assembler := { listed with openSections := (before.opened header .record).openSections }
  have hinside : Prolongs (before.opened header .record) inside := ⟨hmembers.code, rfl, hmembers.closed⟩
  have hclosed : Nests inside
      (inside.closed footer { kind := .record, header := header.id, start := before.code.size } before.openSections) :=
    .closed rfl rfl
  have hopened : (listed.push footer).openSections.map (·.place) = before.openSections.map (·.place) := by
    rw [openSections_push, hmembers.opened, openSections_push]
  have hcode : (inside.push footer).code = (listed.push footer).code := by
    rw [code_push, code_push]
  have hsize : listed.code.size = a.code.size + 1 + layout.members.length := by
    rw [size_code_pushMembers, code_push, Array.size_push]
    rfl
  have hlast : Prolongs (inside.closed footer { kind := .record, header := header.id, start := before.code.size }
      before.openSections) (a.pushStruct name members).2 := by
    rw [pushStruct_eq heq]
    refine Prolongs.trans ?_ (.setName _ _ _)
    refine ⟨⟨[], ?_⟩, hopened, ?_⟩
    · show (listed.push footer).code.toList = (inside.push footer).code.toList ++ []
      rw [hcode, List.append_nil]
    · show a.closedSections.push (a.structSection layout.members.length) = listed.closedSections.push
        { kind := .record, header := header.id, span := .inclusive a.code.size listed.code.size }
      rw [structSection, hsize, hmembers.closed, closedSections_push]
      rfl
  exact (((Nests.prolongs hbefore).trans (.opened rfl)).trans (.prolongs hinside)).trans
    (hclosed.trans (.prolongs hlast))

/-! ## Operations that rewrite the stream -/

theorem Bracketed.replace {a : Assembler} (h : a.Bracketed) (old new : ResultId) :
    (a.replace old new).2.Bracketed := by
  have htouched := a.replace_touches old new
  have hopened : (a.replace old new).2.openSections = a.openSections := by rw [htouched]
  have hclosed : (a.replace old new).2.closedSections = a.closedSections := by rw [htouched]
  rcases replace_cases a old new with ⟨hcode, -⟩ | ⟨-, -, -, heq⟩
  · exact h.prolongs (.same hcode hopened hclosed)
  · have hcode : (a.replace old new).2.code = a.code.map (·.mapSlots fun id => if id = old then new else id) := by
      rw [heq]
    have hopens : ∀ {i kind header}, a.OpensAt i kind header → (a.replace old new).2.OpensAt i kind header := by
      rintro i kind header ⟨inst, hinst, hrest⟩
      refine ⟨inst.mapSlots fun id => if id = old then new else id, ?_, hrest⟩
      rw [hcode, Array.getElem?_map, hinst]
      rfl
    have hcloses : ∀ {i kind}, a.ClosesAt i kind → (a.replace old new).2.ClosesAt i kind := by
      rintro i kind ⟨inst, hinst, hrest⟩
      refine ⟨inst.mapSlots fun id => if id = old then new else id, ?_, hrest⟩
      rw [hcode, Array.getElem?_map, hinst]
      rfl
    constructor
    · rw [hclosed, hcode, Array.size_map]
      exact h.within
    · rw [hclosed]
      exact fun c hc => hopens (h.header c hc)
    · rw [hclosed]
      exact fun c hc => hcloses (h.footer c hc)
    · rw [hopened]
      exact fun s hs => hopens (h.start s hs)
    · rw [hopened]
      exact h.rising
    · rw [hclosed]
      exact h.nested
    · rw [hclosed, hopened]
      exact h.apart

section Flatten

variable {asm : Assembler}

def movedSection (asm : Assembler) (c : ClosedSection) : ClosedSection :=
  { c with
    header := asm.newId c.header
    span := .inclusive (rank asm.sweep.removed c.span.first) (rank asm.sweep.removed (c.span.stop - 1)) }

def movedOpenSection (asm : Assembler) (s : OpenSection) : OpenSection :=
  { s with
    header := asm.newId s.header
    start := rank asm.sweep.removed s.start
    loops := s.loops.map (·.rename asm.newId) }

theorem OpensAt.not_removed (h : asm.OpensAt i kind header) :
    flagged asm.sweep.removed i = false := by
  obtain ⟨inst, hinst, hkind, -⟩ := h
  exact not_removed_of_isMarker hinst (.inl (by rw [hkind]; rfl))

theorem ClosesAt.not_removed (h : asm.ClosesAt i kind) : flagged asm.sweep.removed i = false := by
  obtain ⟨inst, hinst, hkind⟩ := h
  exact not_removed_of_isMarker hinst (.inr (by rw [hkind]; rfl))

theorem OpensAt.flatten (h : asm.OpensAt i kind header) :
    asm.flatten.2.OpensAt (rank asm.sweep.removed i) kind (asm.newId header) := by
  have hleft := h.not_removed
  obtain ⟨inst, hinst, hkind, rfl⟩ := h
  exact ⟨_, getElem?_code_flatten hinst hleft, hkind, rfl⟩

theorem ClosesAt.flatten (h : asm.ClosesAt i kind) :
    asm.flatten.2.ClosesAt (rank asm.sweep.removed i) kind := by
  have hleft := h.not_removed
  obtain ⟨inst, hinst, hkind⟩ := h
  exact ⟨_, getElem?_code_flatten hinst hleft, hkind⟩

variable (h : asm.Bracketed)
include h

theorem Bracketed.closedSections_flatten :
    asm.flatten.2.closedSections.toList = asm.closedSections.toList.map asm.movedSection := by
  rw [Assembler.closedSections_flatten, Array.toList_filterMap, List.filterMap_eq_map_iff_forall_eq_some]
  intro c hc
  have hin := h.within c hc
  rw [if_neg (by omega : ¬ c.span.stop = 0), movedTo_eq (by omega) (h.header c hc).not_removed,
    movedTo_eq (by omega) (h.footer c hc).not_removed]
  rfl

theorem Bracketed.openSections_flatten :
    asm.flatten.2.openSections = asm.openSections.map asm.movedOpenSection := by
  rw [Assembler.openSections_flatten]
  refine List.map_congr_left fun s hs => ?_
  have hstart := h.start s hs
  rw [movedTo_eq hstart.lt_size hstart.not_removed]
  rfl

theorem Bracketed.flatten : asm.flatten.2.Bracketed := by
  have hends : ∀ c ∈ asm.closedSections.toList, flagged asm.sweep.removed c.span.first = false ∧
      flagged asm.sweep.removed (c.span.stop - 1) = false :=
    fun c hc => ⟨(h.header c hc).not_removed, (h.footer c hc).not_removed⟩
  -- Positions that are left keep their order.
  have hlt : ∀ {i j}, flagged asm.sweep.removed i = false → i < j →
      rank asm.sweep.removed i < rank asm.sweep.removed j := fun hi hij => rank_lt_rank hi hij
  constructor
  · rw [h.closedSections_flatten, List.forall_mem_map]
    intro c hc
    have hin := h.within c hc
    have hle := rank_mono asm.sweep.removed (show c.span.first ≤ c.span.stop - 1 by omega)
    have hsize := hlt (hends c hc).2 (show c.span.stop - 1 < asm.code.size by omega)
    rw [size_code_flatten]
    show rank asm.sweep.removed c.span.first < rank asm.sweep.removed (c.span.stop - 1) + 1 ∧
      rank asm.sweep.removed (c.span.stop - 1) + 1 ≤ _
    omega
  · rw [h.closedSections_flatten, List.forall_mem_map]
    exact fun c hc => (h.header c hc).flatten
  · rw [h.closedSections_flatten, List.forall_mem_map]
    exact fun c hc => (h.footer c hc).flatten
  · rw [h.openSections_flatten, List.forall_mem_map]
    exact fun s hs => (h.start s hs).flatten
  · rw [h.openSections_flatten, List.pairwise_map]
    refine h.rising.imp_of_mem fun {inner outer} _ houter hrising => ?_
    exact hlt (h.start outer houter).not_removed hrising
  · rw [h.closedSections_flatten, List.pairwise_map]
    refine h.nested.imp_of_mem fun {c d} hc hd hnested => ?_
    have hinc := h.within c hc
    have hind := h.within d hd
    rcases hnested with hprecedes | ⟨hfirst, hstop⟩
    · exact .inl (hlt (hends c hc).2 (show c.span.stop - 1 < d.span.first by
        change c.span.stop ≤ d.span.first at hprecedes
        omega))
    · refine .inr ⟨hlt (hends d hd).1 hfirst, ?_⟩
      exact Nat.succ_lt_succ (hlt (hends c hc).2 (by omega))
  · rw [h.closedSections_flatten, h.openSections_flatten, List.forall_mem_map]
    intro c hc
    rw [List.forall_mem_map]
    intro s hs
    have hin := h.within c hc
    apply Span.contains_eq_false.mpr
    rcases Span.contains_eq_false.mp (h.apart c hc s hs) with hbefore | hafter
    · exact .inl (hlt (h.start s hs).not_removed hbefore)
    · exact .inr (hlt (hends c hc).2 (show c.span.stop - 1 < s.start by omega))

end Flatten

end Assembler

/-! ## Listings and whole runs -/

namespace Listing

open Assembler Contents

theorem nests_add {b b' : Rebuilding} {inst : Instruction} (h : Adds b inst b') :
    Nests b.asm b'.asm := by
  cases h with
  | structType hop =>
    have hkind : inst.opcode.opens? = some .record := by rw [hop]; rfl
    exact .opened hkind
  | structMember | plain => exact .prolongs (.push b.asm inst)
  | structEnd hop hopen hkind =>
    exact (Nests.closed hopen (by rw [hop, hkind]; rfl)).trans (.prolongs (.same rfl rfl rfl))
  | type => exact .prolongs ((Prolongs.push b.asm inst).trans (.same rfl rfl rfl))
  | opens hkind => exact .opened hkind
  | closes hkind _ hopen => exact .closed hopen hkind

theorem prolongs_allocate (c : Contents) : Prolongs .empty c.allocate := by
  have hcreate : ∀ (ops : List Opcode) (asm : Assembler),
      Prolongs asm (ops.foldl (fun asm op => (asm.create op).2) asm) := by
    intro ops
    induction ops with
    | nil => exact fun asm => .refl asm
    | cons op rest ih =>
      intro asm
      have hfirst : Prolongs asm (asm.create op).2 := .same rfl rfl rfl
      exact hfirst.trans (ih _)
  have hstrings : ∀ (l : List String) (asm : Assembler),
      Prolongs asm (l.foldl (fun asm s => (asm.addString s).2) asm) := by
    intro l
    induction l with
    | nil => exact fun asm => .refl asm
    | cons s rest ih =>
      intro asm
      have hfirst : Prolongs asm (asm.addString s).2 := .same rfl rfl rfl
      exact hfirst.trans (ih _)
  have hall := (hcreate (c.opcodes.toList.drop 1) .empty).trans (hstrings c.strings.toList _)
  rwa [Array.foldl_toList] at hall

/-- **Reading a listing** opens and closes sections as it goes, and forgets those that are left
    open. -/
theorem nests_parse {text : String} {asm : Assembler} (h : parse text = .ok asm) :
    Nests .empty asm := by
  obtain ⟨c, -, hc⟩ := exists_of_bind_eq_ok h
  exact rebuild_invariant hc (fun b hb =>
    (Nests.prolongs (prolongs_allocate c)).trans ((rebuildCode_eq_ok_iff.mp hb).invariant
      (I := fun b => Nests c.allocate b.asm) (fun _ hadds h => h.trans (nests_add hadds)) (.refl _)))
    (fun asm id name hasm => hasm.trans (.prolongs (.setName asm id name)))
    (fun asm v hasm => hasm.trans (.prolongs (.registerInterface asm v))) fun asm hasm =>
      hasm.trans (.finished asm)

end Listing

open Assembler in
theorem Operation.nests (o : Operation) (asm : Assembler) :
    Nests asm (o.run asm) ∨ (∃ old new, o = .replace old new) ∨ o = .flatten ∨
      o = .mergeLiterals := by
  generalize hafter : o.run asm = after
  cases hafter ▸ o.does asm with
  | refused => exact .inl (.refl asm)
  | opened hkind => exact .inl (.opened hkind)
  | closed hkind hopen => exact .inl (.closed hopen hkind)
  | exited label => exact .inl (.prolongs (.push asm _))
  | interface heq => exact .inl (.prolongs (.pushInterface heq))
  | type heq => exact .inl (.prolongs (.pushType heq))
  | layout l layout => exact .inl (.prolongs (.same rfl rfl rfl))
  | always hop =>
    cases o with
    | create opcode | addString s => exact .inl (.prolongs (.same rfl rfl rfl))
    | push inst => exact .inl (.prolongs (.push asm inst))
    | pushNew inst => exact .inl (.prolongs (.pushNew asm inst))
    | pushValue inst type => exact .inl (.prolongs (.pushNew asm _))
    | pushMany insts => exact .inl (.prolongs (.pushMany asm insts))
    | replace old new => exact .inr (.inl ⟨old, new, rfl⟩)
    | pushLoop targets | popLoop => exact .inl (.prolongs (.setLoops asm _))
    | finish => exact .inl (.finished asm)
    | setName id name => exact .inl (.prolongs (.setName asm id name))
    | pushStruct name members => exact .inl (.pushStruct asm name members)
    | convert target value op => exact .inl (.prolongs (.converts (converts_convertSteps _ _ _ _ _ _)))
    | unifyOperands lhs rhs op => exact .inl (.prolongs (.converts (converts_unifyOperands asm lhs rhs op)))
    | flatten => exact .inr (.inr (.inl rfl))
    | mergeLiterals => exact .inr (.inr (.inr rfl))
    | _ => cases hop

theorem Reached.bracketed {asm : Assembler} (h : Reached (fun _ => True) asm) : asm.Bracketed := by
  induction h with
  | empty => exact Assembler.bracketed_empty
  | parsed hparse => exact Assembler.bracketed_empty.nests (Listing.nests_parse hparse)
  | @step asm o _ _ ih =>
    rcases o.nests asm with hnests | ⟨old, new, rfl⟩ | rfl | rfl
    · exact ih.nests hnests
    · exact ih.replace old new
    · exact ih.flatten
    · exact Assembler.mergeLiterals_invariant (fun _ old new hasm => hasm.replace old new) ih

/-- **Sections always bracket.**  In every state that a run reaches, closed sections run from header
    to footer, open ones start at their headers, and sections nest. Only what opens no section, or
    does not close the innermost one, is refused, and it leaves everything as it is. -/
theorem Reached.bracketed_and_refused {asm : Assembler} (h : Reached (fun _ => True) asm) :
    asm.Bracketed ∧
      (∀ header e, asm.beginSection header = .error e →
        header.opcode.opens? = none ∧ (Operation.beginSection header).run asm = asm) ∧
      ∀ footer e, asm.endSection footer = .error e →
        (∀ s ∈ asm.currentSection?, footer.opcode.closes? ≠ some s.kind) ∧
          (Operation.endSection footer).run asm = asm := by
  refine ⟨h.bracketed, fun header e he => ⟨?_, ?_⟩, fun footer e he => ⟨fun s hs hkind => ?_, ?_⟩⟩
  · unfold Assembler.beginSection at he
    split at he
    next hopens => exact hopens
    next => cases he
  · rw [Operation.run, he]
    rfl
  · obtain ⟨outer, hopen⟩ := List.head?_eq_some_iff.mp hs
    rw [Assembler.endSection, hkind, hopen] at he
    dsimp only at he
    rw [if_pos rfl] at he
    cases he
  · rw [Operation.run, he]
    rfl

def openStageRun : List Operation :=
  [.pushNew { opcode := .voidType }, .pushNew { opcode := .null },
    .create .stageBegin, .beginSection { opcode := .stageBegin, id := ⟨3⟩ },
    .create .function, .beginSection { opcode := .function, id := ⟨4⟩, refs := ⟨⟨1⟩, .void, .void⟩ },
    .endSection { opcode := .functionEnd, refs := ⟨⟨4⟩, .void, .void⟩ }, .flatten]

/-- The stage is open, so the end of a function is refused. -/
theorem bracketed_openStageRun :
    (runAll openStageRun).closedSections = #[⟨.function, ⟨3⟩, ⟨2, 4⟩⟩] ∧
      (runAll openStageRun).openSections = [⟨.stage, ⟨2⟩, 1, []⟩] ∧
      (runAll openStageRun).Bracketed ∧ ∃ e,
        (runAll openStageRun).endSection { opcode := .functionEnd } = .error e ∧
        (Operation.endSection { opcode := .functionEnd }).run (runAll openStageRun) =
          runAll openStageRun := by
  have hreached : Reached (fun _ => True) (runAll openStageRun) := .runAll (by decide +kernel)
  obtain ⟨hbracketed, -, hrefused⟩ := hreached.bracketed_and_refused
  have he : (runAll openStageRun).endSection { opcode := .functionEnd } =
      .error (.sectionMismatch (some .stage) .function) := by decide +kernel
  exact ⟨by decide +kernel, by decide +kernel, hbracketed, _, he, (hrefused _ _ he).2⟩

end ShaderIR
