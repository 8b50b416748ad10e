import ShaderIR.Proofs.Listing.Replay

/-!
# Listings of what was built by hand

An assembler that was built without problems is read back from its listing without problems: ids,
counts and definitions follow from the stream, and sections and types are what reading it gives.
-/

namespace ShaderIR

open StructLayout (shape)

variable {asm : Assembler} {a b : TypeRegistry}

namespace Assembler

theorem Coherent.inWords (h : asm.Coherent) (hids : asm.ids.size < UInt32.size)
    {inst : Instruction} (hinst : inst ∈ asm.code.toList) : Listing.InWords inst := by
  refine ⟨?_, fun r hr => Nat.lt_trans (h.exact.known inst hinst r hr) hids⟩
  by_cases hz : inst.id.index = 0
  · omega
  · exact Nat.lt_trans (isAllocated_iff.mp (h.isAllocated_of_mem hinst hz)).2 hids

theorem SharesTypes.handle?_void (h : asm.SharesTypes) : asm.types.handle? .void = none := by
  refine Option.eq_none_iff_forall_ne_some.mpr fun k hk => ?_
  obtain ⟨inst, hinst, hop, hid⟩ := h.declares hk
  have hz := (h.stands inst hinst hop).id
  rw [hid] at hz
  exact hz rfl

end Assembler

/-! ## Layouts and shapes -/

namespace TypeRegistry

theorem Layered.layoutHandle?_eq_some_iff {types : TypeRegistry} (h : types.Layered) {id : ResultId}
    {l : LayoutHandle} :
    types.layoutHandle? id = some l ↔ types.shapeOf? id = some (.record l) := by
  have hlayout : types.layoutHandle? id = some l ↔ types.ofId? id = some (.record l) := by
    unfold layoutHandle?
    constructor
    · intro hl
      split at hl
      next hd => rw [hd, Option.some.inj hl]
      next => cases hl
    · intro hd
      rw [hd]
  rw [hlayout, ofId?, shapeOf?]
  cases hk : types.handle? id with
  | none => simp
  | some k =>
    obtain ⟨d, hd⟩ := Option.isSome_iff_exists.mp (h.described hk)
    rw [Option.bind_some, Option.bind_some, hd, h.shape?_eq hd]
    constructor
    · intro heq
      cases heq
      rfl
    · intro hshape
      -- Only structs have such a shape.
      cases d <;> simp [TypeDesc.shapeWith, Option.map_eq_some_iff, Option.bind_eq_some_iff] at hshape
      rw [hshape]

theorem Mirrors.shape_layout? (h : Mirrors id id a b) (l : LayoutHandle) :
    (b.layout? l).map shape = (a.layout? l).map shape := by
  have hlayout := congrArg (·[l.slot]?) h.layouts
  rw [Array.getElem?_map, Array.getElem?_map] at hlayout
  refine hlayout.trans (congrArg (Option.map · _) (funext fun layout => ?_))
  exact congrArg (Prod.mk layout.name) (List.map_id _)

theorem Mirrors.shapeOf?_eq (h : Mirrors id id a b) (hvoid : a.handle? .void = none)
    (x : ResultId) : b.shapeOf? x = a.shapeOf? x := by
  by_cases hx : x.index = 0
  · have hzero : x = .void := ResultId.ext_index hx
    have hnone : b.handle? .void = none :=
      Option.not_isSome_iff_eq_none.mp fun hy => (h.images _ hy).1 rfl
    rw [hzero, shapeOf?, shapeOf?, hnone, hvoid, Option.bind_none, Option.bind_none]
  · exact h.shapes x hx

theorem Mirrors.shape_layoutOf? (h : Mirrors id id a b) (hvoid : a.handle? .void = none)
    (x : ResultId) :
    (b.layoutOf? x).map shape = (a.layoutOf? x).map shape := by
  have hhandle : b.layoutHandle? x = a.layoutHandle? x := by
    refine Option.ext fun l => ?_
    rw [h.mirrored.layoutHandle?_eq_some_iff, h.layered.layoutHandle?_eq_some_iff, h.shapeOf?_eq hvoid]
  rw [layoutOf?, layoutOf?, hhandle]
  cases a.layoutHandle? x with
  | none => rfl
  | some l => exact h.shape_layout? l

end TypeRegistry

namespace Listing.Contents

open Assembler TypeRegistry

/-! ## Reading without problems -/

/-- **Instructions that define each id once, with the opcode that it was allocated for, and refer to
    allocated ids are read without problems.** -/
theorem Reads.clean {l : List Instruction} {b b' : Rebuilding} (h : Reads l b b')
    (hclean : b.asm.Clean)
    (hown : ∀ x ∈ l, x.id.index ≠ 0 → b.asm.isAllocated x.id = true ∧ b.asm.opcodeOf x.id =
      x.opcode ∧ b.asm.definition? x.id = none)
    (hslots : ∀ x ∈ l, ∀ r ∈ x.slots, r.index ≠ 0 → b.asm.isAllocated r = true)
    (hdistinct : l.Pairwise fun x y => x.id = y.id → x.id.index = 0) : b'.asm.Clean := by
  induction h with
  | nil => exact hclean
  | @cons b b1 b' x rest hadds _ ih =>
    obtain ⟨hfirst, hrest⟩ := List.pairwise_cons.mp hdistinct
    obtain ⟨_, _, _, heq⟩ := hadds.asm_eq
    have hids : b1.asm.ids = (b.asm.push x).ids := by rw [heq]
    have hallocated : ∀ r, b1.asm.isAllocated r = b.asm.isAllocated r := by
      intro r
      rw [isAllocated, hids, size_ids_push, isAllocated]
    refine ih (hadds.clean_iff.mpr ⟨hclean, hown x List.mem_cons_self, hslots x List.mem_cons_self⟩)
      (fun y hy hz => ?_) (fun y hy r hr hz => ?_) hrest
    · obtain ⟨halloc, hop, hdef⟩ := hown y (List.mem_cons_of_mem _ hy) hz
      refine ⟨(hallocated _).trans halloc, ?_, ?_⟩
      · rw [opcodeOf_congr hids, opcodeOf_push, hop]
      · -- What was just pushed defines another id.
        have hne : x.id ≠ y.id := fun heq => hz (heq ▸ hfirst y hy heq)
        rw [definition?_congr hids, definition?_push, if_neg (fun hand => hne hand.1), hdef]
    · rw [hallocated]
      exact hslots y (List.mem_cons_of_mem _ hy) r hr hz

theorem names_addInterface {inst : Instruction} (h : asm.names.Proper)
    (hname : inst.opcode.isInterface = true → ∃ name, asm.names.get? inst.id = some name) :
    (addInterface asm inst).names = asm.names := by
  have hset : inst.opcode.isInterface = true →
      (asm.setName inst.id ((asm.name? inst.id).getD ("io" ++ toString inst.id.index))).names = asm.names := by
    intro hop
    obtain ⟨name, hget⟩ := hname hop
    have hvoid : ¬ inst.id.isVoid = true := by
      intro hv
      have hzero : inst.id = .void := ResultId.ext_index (ResultId.isVoid_iff.mp hv)
      rw [hzero, h.get?_void] at hget
      cases hget
    rw [name?, hget, Option.getD_some, setName, if_neg hvoid]
    exact h.insert_of_get? hget
  unfold addInterface
  split
  next hop => exact hset (by rw [hop]; rfl)
  next hop => exact hset (by rw [hop]; rfl)
  next => rfl

theorem names_foldl_addInterface {l : List Instruction} (h : asm.names.Proper)
    (hnames : ∀ inst ∈ l, inst.opcode.isInterface = true → ∃ name,
      asm.names.get? inst.id = some name) :
    (l.foldl addInterface asm).names = asm.names := by
  induction l generalizing asm with
  | nil => rfl
  | cons inst rest ih =>
    obtain ⟨hinst, hrest⟩ := List.forall_mem_cons.mp hnames
    have hsame := names_addInterface h hinst
    rw [List.foldl_cons, ih (hsame ▸ h) (hsame ▸ hrest), hsame]

/-! ## The start -/

section

variable {asm : Assembler} {c : Contents} (hids : c.next = asm.ids.size)
  (hstrings : c.strings = asm.strings.values) (hnames : c.names.toList = asm.names.entries)
  (hcode : c.code.toList.map (·.2) = asm.code.toList) (h : asm.Coherent) (hlabelled : asm.Labelled)

include hids hnames hcode h hlabelled in
theorem bound_eq : c.bound = asm.ids.size := by
  have hpos := h.exact.nonempty
  have hmax : c.maxIndex ≤ asm.ids.size - 1 := by
    refine maxIndex_le_iff.mpr ⟨fun inst hinst => ?_, fun e he => ?_⟩
    · rw [hcode] at hinst
      refine foldl_max_le_iff.mpr ⟨?_, fun r hr => ?_⟩
      · by_cases hz : inst.id.index = 0
        · omega
        · have hlt := (isAllocated_iff.mp (h.isAllocated_of_mem hinst hz)).2
          omega
      · have hlt := h.exact.known inst hinst r hr
        omega
    · have hlt := hlabelled.allocated e (hnames ▸ he)
      omega
  rw [bound, hids]
  omega

include hstrings hlabelled in
theorem strings_allocate_eq : c.allocate.strings = asm.strings := by
  have hlabels := congrArg Prod.fst (labels_allocate c)
  change c.allocate.strings = _ at hlabels
  rw [hlabels, hstrings, Interner.insertAll_of_nodup (by exact hlabelled.strings)]
  rfl

include hstrings hlabelled in
theorem tracks_allocate : Tracks id id id (blank asm.strings) { asm := c.allocate } := by
  obtain ⟨ids, heq⟩ := exists_allocate_eq c
  rw [strings_allocate_eq hstrings hlabelled] at heq
  rw [heq]
  exact { tracks_blank id id rfl asm.strings with }

include hstrings hlabelled in
/-- **With the ids allocated, the stream is read as it was without them.** -/
theorem exists_reads (hreplays : Replays asm) (hshares : asm.SharesTypes)
    (hsize : asm.strings.values.size ≤ UInt32.size) :
    ∃ b, Reads asm.code.toList { asm := c.allocate } b ∧
      Tracks id id id (atRest asm asm.strings) b := by
  obtain ⟨r, hr, ht⟩ := hreplays asm.strings (.refl _) hsize
  obtain ⟨b, hb, ht'⟩ := (tracks_allocate hstrings hlabelled).readsAgain hr
    (fun x hx hop => (hshares.stands x hx hop).id) (fun y hy => (ht.types.images y hy).1)
  exact ⟨b, hb, ht.trans ht' rfl rfl⟩

include hids hnames hcode h hlabelled in
/-- **No problem is met**: the stream refers to ids that there are and defines each of them once. -/
theorem clean_of_reads {b : Rebuilding} (hr : Reads asm.code.toList { asm := c.allocate } b) :
    b.asm.Clean := by
  have hallocated : ∀ r, c.allocate.isAllocated r = asm.isAllocated r := by
    intro r
    rw [isAllocated, size_ids_allocate, bound_eq hids hnames hcode h hlabelled, isAllocated]
  refine hr.clean ?_ (fun x hx hz => ⟨?_, ?_, ?_⟩) (fun x hx r hr hz => ?_) ?_
  · obtain ⟨ids, heq⟩ := exists_allocate_eq c
    show c.allocate.Clean
    rw [heq]
    rfl
  · exact (hallocated _).trans (h.isAllocated_of_mem hx hz)
  · rw [← hcode] at hx
    obtain ⟨e, he, rfl⟩ := List.mem_map.mp hx
    refine opcodeOf_allocate_of_mem he hz fun d hd hsame => ?_
    have hop : ∀ d ∈ c.code.toList, d.2.id.index ≠ 0 → asm.opcodeOf d.2.id = d.2.opcode := by
      intro d hd hz
      have hmem : d.2 ∈ asm.code.toList := hcode ▸ List.mem_map_of_mem hd
      obtain ⟨i, hi⟩ := List.getElem?_of_mem hmem
      exact h.opcode i d.2 (Array.getElem?_toList ▸ hi) hz
    rw [← hop d hd (hsame ▸ hz), ← hop e he hz, ResultId.ext_index hsame]
  · -- Nothing has been pushed yet.
    apply Option.eq_none_iff_forall_ne_some.mpr
    intro i hi
    obtain ⟨-, inst, hinst, -⟩ := ((coherent_allocate c).definition?_iff x.id i).mp hi
    rw [code_allocate] at hinst
    cases hinst
  · exact (hallocated r).trans (isAllocated_iff.mpr ⟨hz, h.exact.known x hx r hr⟩)
  · refine List.pairwise_iff_getElem.mpr fun i j hi hj hlt hsame => ?_
    by_contra hz
    have hdefines : ∀ k (hk : k < asm.code.toList.length), asm.code.toList[k].id = asm.code.toList[i].id →
        asm.DefinesAt k asm.code.toList[i].id := by
      intro k hk hid
      exact ⟨hz, asm.code.toList[k], by rw [← Array.getElem?_toList, List.getElem?_eq_getElem hk], hid⟩
    have heq := h.single i j _ (hdefines i hi rfl) (hdefines j hj hsame.symm)
    omega

include hnames hcode hlabelled in
theorem exists_withInterface_eq (b : Assembler) :
    ∃ interface, c.withInterface b = { b with names := asm.names, interface } := by
  have hgiven : NameTable.nameAll {} c.names.toList = asm.names := by
    rw [hnames, hlabelled.names.nameAll_entries]
  obtain ⟨names, interface, heq⟩ := foldl_addInterface_eq (c.code.toList.map (·.2)) { b with names := asm.names }
  have hsame : ((c.code.toList.map (·.2)).foldl addInterface { b with names := asm.names }).names = asm.names :=
    names_foldl_addInterface hlabelled.names (hcode ▸ hlabelled.interface)
  rw [heq] at hsame
  refine ⟨interface, ?_⟩
  rw [withInterface, hgiven, heq]
  exact congrArg (fun names => { b with names, interface }) hsame

include hids hstrings hnames hcode hlabelled in
/-- **Contents that state what was built give the stream, the ids and the labels again**, with what
    reading the stream gives. -/
theorem exists_rebuild_eq (hreplays : Replays asm) (hshares : asm.SharesTypes)
    (hsize : asm.strings.values.size ≤ UInt32.size) (hopen : asm.openSections = [])
    (hlimit : asm.ids.size ≤ c.limit) :
    ∃ b interface, c.rebuild = .ok { b.asm with names := asm.names, interface } ∧ b.asm.Clean ∧
      b.asm.code = asm.code ∧ b.asm.ids.size = asm.ids.size ∧
      Tracks id id id (atRest asm asm.strings) b := by
  have hbound := bound_eq hids hnames hcode hshares.coherent hlabelled
  obtain ⟨b, hb, ht⟩ := exists_reads hstrings hlabelled hreplays hshares hsize
  have hread : rebuildCode c.code.toList { asm := c.allocate } = .ok b := rebuildCode_eq_ok_iff.mpr (hcode ▸ hb)
  have hbcode : b.asm.code = asm.code := by
    apply Array.toList_inj.mp
    rw [hb.code, code_allocate, List.nil_append]
  have hbopen : b.asm.openSections = [] := by
    rw [ht.opened]
    exact congrArg (List.map _) hopen
  have hbnames : b.asm.names = {} := by
    have hlabels := labels_rebuildCode hread
    rw [labels_allocate] at hlabels
    exact congrArg (·.2.1) hlabels
  obtain ⟨interface, hwith⟩ := exists_withInterface_eq hnames hcode hlabelled b.asm
  have hclean := clean_of_reads hids hnames hcode hshares.coherent hlabelled hb
  refine ⟨b, interface, rebuild_eq_ok_iff.mpr ⟨hbound ▸ hlimit, b, hread, ?_⟩, hclean, hbcode, ?_, ht⟩
  · -- Every section is closed, so there is nothing to finish.
    rw [hbnames]
    show _ = (c.withInterface b.asm).finish
    have hlast : (c.withInterface b.asm).finish.Clean := by
      rw [clean_finish, hwith]
      exact ⟨hclean, hbopen⟩
    rw [(finish_eq_of_clean hlast).2.2, hwith]
  · rw [(rebuildCode_eq_ok_iff.mp hread).size_ids, size_ids_allocate, hbound]

end

end Listing.Contents

/-! ## The listing -/

namespace Listing

open Contents Assembler TypeRegistry

/-- Two assemblers with one stream that agree on what there is to know about it: ids and their uses,
    sections, strings, names and the shapes of types. -/
structure Agrees (a b : Assembler) : Prop where
  code : b.code = a.code
  next : b.next = a.next
  useCount : ∀ id, a.isAllocated id = true → b.useCount id = a.useCount id
  closedSections : b.closedSections = a.closedSections
  strings : b.strings = a.strings
  names : b.names = a.names
  shapeOf? : ∀ id, b.types.shapeOf? id = a.types.shapeOf? id
  layout? : ∀ l, (b.types.layout? l).map shape = (a.types.layout? l).map shape
  layoutOf? : ∀ id, (b.types.layoutOf? id).map shape = (a.types.layoutOf? id).map shape

/-- **Whatever was built by hand without problems survives its listing**, if every section is closed
    and the ids are not too many for it. -/
theorem parse_print_of_history {asm : Assembler} (h : History PermitsListing asm)
    (hclean : asm.Clean) (hopen : asm.openSections = [])
    (hnext : asm.next.index ≤ 4 * asm.code.size + 1024) (hids : asm.ids.size < UInt32.size)
    (hstrings : asm.strings.values.size ≤ UInt32.size) :
    ∃ asm', parse (print asm) = .ok asm' ∧ asm'.Clean ∧ Agrees asm asm' := by
  have hgrown := grown_of_history h hclean
  have hshares := hgrown.sharesTypes
  have hlabelled := hgrown.labelled
  -- The text states what is there.
  obtain ⟨c, hc, hcnext, hcstrings, hcnames, hccode⟩ := ofText_print
    (fun e he => Nat.lt_trans (hlabelled.allocated e he) hids)
    (fun inst hinst => hshares.coherent.inWords hids hinst)
  have hnextEq : asm.next.index = asm.ids.size := Nat.mod_eq_of_lt hids
  have hlimit : asm.ids.size ≤ c.limit := by
    have hlength := congrArg List.length hccode
    rw [List.length_map, Array.length_toList, Array.length_toList] at hlength
    rw [limit, hlength]
    omega
  obtain ⟨b, interface, hrebuild, hbclean, hcode, hsize, ht⟩ := exists_rebuild_eq (hcnext.trans hnextEq) hcstrings
    hcnames hccode hlabelled (replays_of_grown hgrown) hshares hstrings hopen hlimit
  have hparse : parse (print asm) = .ok { b.asm with names := asm.names, interface } := by
    rw [parse, hc]
    exact hrebuild
  -- Counts follow from the stream, on both sides.
  have hcoherent := coherent_of_parse hparse (noRedefinition_of_problems hbclean)
  have hvoid := hshares.handle?_void
  exact ⟨_, hparse, hbclean, {
    code := hcode
    next := congrArg (fun n => ResultId.mk (n % UInt32.size)) hsize
    useCount id hid := by
      have hid' : Assembler.isAllocated { b.asm with names := asm.names, interface } id = true := by
        rwa [isAllocated, hsize]
      rw [hcoherent.exact.useCount_eq id hid', hshares.coherent.exact.useCount_eq id hid, slotCount,
        slotCount, hcode]
    closedSections := by
      apply Array.toList_inj.mp
      exact ht.closed.trans (List.map_id _)
    strings := ht.strings
    names := rfl
    shapeOf? := ht.types.shapeOf?_eq hvoid
    layout? := ht.types.shape_layout?
    layoutOf? := ht.types.shape_layoutOf? hvoid }⟩

def nestedStructRun : List Operation :=
  [.pushType { opcode := .floatType, operands := ⟨32, 0, 0⟩ },
    .pushType { opcode := .sintType, operands := ⟨32, 0, 0⟩ },
    .pushType { opcode := .vectorType, operands := ⟨4, 0, 0⟩, refs := ⟨⟨1⟩, .void, .void⟩ },
    .pushInterface .input "position" ⟨3⟩,
    .create .function,
    .beginSection { opcode := .function, id := ⟨5⟩, refs := ⟨⟨1⟩, .void, .void⟩ },
    .pushStruct "pair" [("first", ⟨1⟩), ("second", ⟨3⟩)],
    .pushValue { opcode := .floatLit, operands := ⟨0, 0, 0⟩ } ⟨1⟩,
    .pushValue { opcode := .floatLit, operands := ⟨1, 0, 0⟩ } ⟨1⟩,
    .push { opcode := .retValue, refs := ⟨⟨7⟩, .void, .void⟩ },
    .endSection { opcode := .functionEnd, refs := ⟨⟨5⟩, .void, .void⟩ },
    .setName ⟨8⟩ "result",
    .replace ⟨7⟩ ⟨8⟩,
    .flatten]

theorem parse_print_nestedStructRun : (Operation.runAll nestedStructRun).code.size = 11 ∧
      (Operation.runAll nestedStructRun).names.entries = [(⟨3⟩, "position"), (⟨5⟩, "pair"),
        (⟨6⟩, "result")] ∧
      (Operation.runAll nestedStructRun).types.shapeOf? ⟨5⟩ = some (.record ⟨0⟩) ∧
      ∃ asm', parse (print (Operation.runAll nestedStructRun)) = .ok asm' ∧ asm'.Clean ∧
        Agrees (Operation.runAll nestedStructRun) asm' := by
  have hpermitted : Operation.permitted PermitsListing .empty nestedStructRun = true := by decide +kernel
  exact ⟨by decide +kernel, by decide +kernel, by decide +kernel,
    parse_print_of_history (.runAll hpermitted) (by decide +kernel) (by decide +kernel) (by decide +kernel)
      (by decide +kernel) (by decide +kernel)⟩

end Listing

end ShaderIR
