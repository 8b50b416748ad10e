import ShaderIR.Proofs.Assembler.Building
import ShaderIR.Proofs.Listing.Lines

/-!
# From the text of a listing to its contents

The text that is printed for an assembler is cut into the lines it was put together from, so that
reading it gives the next id, the strings, the names and the instructions of the assembler.
-/

namespace ShaderIR.Listing

open Text

/-! ## Cutting into lines -/

theorem splitLines_append {l : List Char} (h : '\n' ∉ l) (done : List (List Char))
    (current rest : List Char) : splitLines done current (l ++ '\n' :: rest)
      = splitLines ((current.reverse ++ l) :: done) [] rest := by
  induction l generalizing current with
  | nil => rw [List.nil_append, splitLines, if_pos rfl, List.append_nil]
  | cons c l ih =>
    rw [List.mem_cons, not_or] at h
    rw [List.cons_append, splitLines, if_neg (Ne.symm h.1), ih h.2, List.reverse_cons,
      List.append_assoc, List.singleton_append]

theorem splitLines_joined {ls : List String} (h : ∀ l ∈ ls, '\n' ∉ l.toList)
    (done : List (List Char)) :
    splitLines done [] (String.join (ls.map (· ++ "\n"))).toList
      = done.reverse ++ ls.map String.toList ++ [[]] := by
  rw [String.toList_join]
  induction ls generalizing done with
  | nil => simp [splitLines]
  | cons l ls ih =>
    have hl : '\n' ∉ l.toList := h l List.mem_cons_self
    have hshape : ((l :: ls).map (· ++ "\n")).flatMap String.toList
        = l.toList ++ '\n' :: (ls.map (· ++ "\n")).flatMap String.toList := by
      rw [List.map_cons, List.flatMap_cons, String.toList_append, List.append_assoc]
      rfl
    rw [hshape, splitLines_append hl, ih (fun x hx => h x (List.mem_cons_of_mem _ hx))]
    simp

/-! ## What the printer writes -/

def items (asm : Assembler) : List Line :=
  .next asm.next :: asm.strings.values.toList.map .string
    ++ asm.names.entries.map (fun e => .name e.1 e.2) ++ asm.code.toList.map .code

def itemText (asm : Assembler) : Line → String
  | .blank => ""
  | .next id => "@next " ++ id.text
  | .string s => "@string " ++ Quoted.write s
  | .name id s => "@name " ++ id.text ++ " " ++ Quoted.write s
  | .code inst => instructionLine asm inst

theorem lines_eq (asm : Assembler) : lines asm = (items asm).map (itemText asm) := by
  simp only [lines, items, List.map_append, List.map_cons, List.map_map]
  rfl

def LineInWords : Line → Prop
  | .blank | .string _ => True
  | .next id | .name id _ => id.index < UInt32.size
  | .code inst => InWords inst

theorem line_itemText (asm : Assembler) {item : Line} (h : LineInWords item) :
    line (itemText asm item).toList = .ok item := by
  cases item with
  | blank => rfl
  | next id => exact line_next h
  | string s => exact line_string s
  | name id s => exact line_name h s
  | code inst => exact line_instructionLine asm h

theorem not_mem_of_plain {l : List Char} (h : Plain l) : '\n' ∉ l := fun hmem => (h _ hmem).2 rfl

theorem not_mem_itemText (asm : Assembler) (item : Line) : '\n' ∉ (itemText asm item).toList := by
  cases item with
  | blank => exact List.not_mem_nil
  | next id =>
    rw [itemText, String.toList_append]
    exact not_mem_of_plain (plain_append (by decide) (plain_text id))
  | string s =>
    rw [itemText, String.toList_append, List.mem_append, not_or]
    exact ⟨by decide, Quoted.not_mem_write s⟩
  | name id s =>
    have hhead : Plain ("@name ".toList ++ id.text.toList ++ " ".toList) :=
      plain_append (plain_append (by decide) (plain_text id)) (by decide)
    rw [itemText, String.toList_append, String.toList_append, String.toList_append, List.mem_append, not_or]
    exact ⟨not_mem_of_plain hhead, Quoted.not_mem_write s⟩
  | code inst =>
    have htext := plain_instructionText inst
    rw [itemText, instructionLine]
    split
    · rw [String.toList_append, String.toList_append]
      intro hmem
      rw [List.mem_append, List.mem_append] at hmem
      rcases hmem with (hmem | hmem) | hmem
      · exact not_mem_of_plain htext hmem
      · exact absurd hmem (by decide)
      · exact not_mem_of_plain (plain_spell _ _) hmem
    · exact not_mem_of_plain htext

/-! ## Reading it back -/

/-- The contents after some lines, the first of which has the given number. -/
def addAll : Nat → List Line → Contents → Contents
  | _, [], c => c
  | number, l :: rest, c => addAll (number + 1) rest (c.add number l)

theorem addAll_append (number : Nat) (l1 l2 : List Line) (c : Contents) :
    addAll number (l1 ++ l2) c = addAll (number + l1.length) l2 (addAll number l1 c) := by
  induction l1 generalizing number c with
  | nil => rfl
  | cons l l1 ih =>
    rw [List.cons_append, addAll, ih, addAll, List.length_cons, Nat.add_assoc, Nat.add_comm 1]

theorem readLines_items {asm : Assembler} {items : List Line} (h : ∀ l ∈ items, LineInWords l)
    (number : Nat) (c : Contents) :
    readLines number (items.map (fun l => (itemText asm l).toList) ++ [[]]) c
      = .ok (addAll number items c) := by
  induction items generalizing number c with
  | nil => rfl
  | cons l items ih =>
    rw [List.map_cons, List.cons_append, readLines, line_itemText asm (h l List.mem_cons_self)]
    exact ih (fun x hx => h x (List.mem_cons_of_mem _ hx)) _ _

theorem addAll_strings (number : Nat) (ss : List String) (c : Contents) :
    addAll number (ss.map .string) c = { c with strings := c.strings ++ ss.toArray } := by
  induction ss generalizing number c with
  | nil => simp [addAll]
  | cons s ss ih => rw [List.map_cons, addAll, ih]; simp [Contents.add]

theorem addAll_names (number : Nat) (names : List (ResultId × String)) (c : Contents) :
    addAll number (names.map fun e => .name e.1 e.2) c =
      { c with names := c.names ++ names.toArray } := by
  induction names generalizing number c with
  | nil => simp [addAll]
  | cons e names ih => rw [List.map_cons, addAll, ih]; simp [Contents.add]

theorem addAll_code (number : Nat) (insts : List Instruction) (c : Contents) :
    ∃ code, addAll number (insts.map .code) c = { c with code } ∧
      code.toList.map (·.2) = c.code.toList.map (·.2) ++ insts := by
  induction insts generalizing number c with
  | nil => exact ⟨c.code, rfl, (List.append_nil _).symm⟩
  | cons inst insts ih =>
    obtain ⟨code, heq, hcode⟩ := ih (number + 1) (c.add number (.code inst))
    refine ⟨code, ?_, ?_⟩
    · rw [List.map_cons, addAll, heq]
      rfl
    · rw [hcode]
      simp [Contents.add]

theorem ofText_print {asm : Assembler} (hnames : ∀ e ∈ asm.names.entries, e.1.index < UInt32.size)
    (hcode : ∀ inst ∈ asm.code.toList, InWords inst) :
    ∃ c, Contents.ofText (print asm) = .ok c ∧ c.next = asm.next.index ∧
      c.strings = asm.strings.values ∧ c.names.toList = asm.names.entries ∧
      c.code.toList.map (·.2) = asm.code.toList := by
  have hitems : ∀ l ∈ items asm, LineInWords l := by
    intro l hl
    simp only [items, List.mem_append, List.mem_cons, List.mem_map] at hl
    rcases hl with ((rfl | ⟨s, -, rfl⟩) | ⟨e, he, rfl⟩) | ⟨inst, hi, rfl⟩
    · exact Nat.mod_lt _ (by decide)
    · exact trivial
    · exact hnames e he
    · exact hcode inst hi
  -- The text is cut into the lines of the items, and an empty one behind the last newline.
  have hsplit : splitLines [] [] (print asm).toList
      = (items asm).map (fun l => (itemText asm l).toList) ++ [[]] := by
    rw [print, splitLines_joined, lines_eq, List.map_map]
    · rfl
    · rw [lines_eq]
      intro l hl
      obtain ⟨item, -, rfl⟩ := List.mem_map.mp hl
      exact not_mem_itemText asm item
  obtain ⟨code, hadd, hmap⟩ := addAll_code
    (1 + (Line.next asm.next :: asm.strings.values.toList.map Line.string
      ++ asm.names.entries.map fun e => Line.name e.1 e.2).length) asm.code.toList
    { next := asm.next.index, strings := asm.strings.values, names := asm.names.entries.toArray }
  refine ⟨{ next := asm.next.index, strings := asm.strings.values,
            names := asm.names.entries.toArray, code }, ?_, rfl, rfl, List.toList_toArray, hmap⟩
  -- Strings, names and instructions come in this order, so each group adds to its own list.
  rw [Contents.ofText, hsplit, readLines_items hitems, items, addAll_append, ← hadd]
  congr 2
  rw [addAll_append, addAll, addAll_strings, addAll_names]
  simp [Contents.add]

/-! ## Ids that were read -/

theorem index_lt_of_resultId {cs rest : List Char} {id : ResultId}
    (h : resultId cs = .ok (id, rest)) : id.index < UInt32.size := by
  rw [resultId] at h
  obtain ⟨_, _, h⟩ := exists_of_bind_eq_ok h
  obtain ⟨n, _, h⟩ := exists_of_bind_eq_ok h
  cases h
  exact n.1.toNat_lt_size

theorem exists_of_triple {α : Type} {opening closing : Char} {item : LineReader α}
    {cs rest : List Char} {t : Triple α} (h : triple opening closing item cs = .ok (t, rest)) :
    ∀ a ∈ t.toList, ∃ before behind, item before = .ok (a, behind) := by
  rw [triple] at h
  obtain ⟨_, _, h⟩ := exists_of_bind_eq_ok h
  obtain ⟨fst, hfst, h⟩ := exists_of_bind_eq_ok h
  obtain ⟨_, _, h⟩ := exists_of_bind_eq_ok h
  obtain ⟨snd, hsnd, h⟩ := exists_of_bind_eq_ok h
  obtain ⟨_, _, h⟩ := exists_of_bind_eq_ok h
  obtain ⟨thd, hthd, h⟩ := exists_of_bind_eq_ok h
  obtain ⟨_, _, h⟩ := exists_of_bind_eq_ok h
  cases h
  simp only [Triple.toList, List.forall_mem_cons]
  exact ⟨⟨_, _, hfst⟩, ⟨_, _, hsnd⟩, ⟨_, _, hthd⟩, List.forall_mem_nil _⟩

variable {cs : List Char} {l : Line}

theorem inWords_of_instruction {inst : Instruction} (h : instruction cs = .ok inst) :
    InWords inst := by
  rw [instruction] at h
  obtain ⟨id, hid, h⟩ := exists_of_bind_eq_ok h
  obtain ⟨_, _, h⟩ := exists_of_bind_eq_ok h
  dsimp only at h
  split at h
  · cases h
  · obtain ⟨operands, _, h⟩ := exists_of_bind_eq_ok h
    obtain ⟨refs, hrefs, h⟩ := exists_of_bind_eq_ok h
    obtain ⟨_, _, h⟩ := exists_of_bind_eq_ok h
    obtain ⟨type, htype, h⟩ := exists_of_bind_eq_ok h
    obtain ⟨loc, _, h⟩ := exists_of_bind_eq_ok h
    obtain ⟨_, _, h⟩ := exists_of_bind_eq_ok h
    cases h
    refine ⟨index_lt_of_resultId hid, fun r hr => ?_⟩
    rcases List.mem_append.mp hr with hr | hr
    · obtain ⟨_, _, hitem⟩ := exists_of_triple hrefs r hr
      exact index_lt_of_resultId hitem
    · rw [List.mem_singleton.mp hr]
      exact index_lt_of_resultId htype

theorem lineInWords_of_directive (h : directive cs = .ok l) : LineInWords l := by
  unfold directive at h
  dsimp only at h
  split at h
  next =>
    obtain ⟨id, hid, h⟩ := exists_of_bind_eq_ok h
    obtain ⟨_, _, h⟩ := exists_of_bind_eq_ok h
    cases h
    exact index_lt_of_resultId hid
  next =>
  split at h
  next =>
    obtain ⟨s, _, h⟩ := exists_of_bind_eq_ok h
    obtain ⟨_, _, h⟩ := exists_of_bind_eq_ok h
    cases h
    exact trivial
  next =>
  split at h
  next =>
    obtain ⟨id, hid, h⟩ := exists_of_bind_eq_ok h
    obtain ⟨s, _, h⟩ := exists_of_bind_eq_ok h
    obtain ⟨_, _, h⟩ := exists_of_bind_eq_ok h
    cases h
    exact index_lt_of_resultId hid
  next => cases h

theorem lineInWords_of_line (h : line cs = .ok l) : LineInWords l := by
  unfold line at h
  split at h
  · cases h
    exact trivial
  next c rest _ =>
    split at h
    next =>
      cases h
      exact trivial
    next =>
    split at h
    next => exact lineInWords_of_directive h
    next =>
      cases hinst : instruction ((c :: rest).takeWhile (· ≠ ';')) with
      | error e => rw [hinst] at h; cases h
      | ok inst =>
        rw [hinst] at h
        cases h
        exact inWords_of_instruction hinst

structure Contents.AllInWords (c : Contents) : Prop where
  next : c.next < UInt32.size
  names : ∀ e ∈ c.names.toList, e.1.index < UInt32.size
  code : ∀ e ∈ c.code.toList, InWords e.2

theorem Contents.AllInWords.add {c : Contents} (h : c.AllInWords) (number : Nat)
    (hl : LineInWords l) : (c.add number l).AllInWords := by
  cases l with
  | blank => exact h
  | next id => exact ⟨hl, h.names, h.code⟩
  | string s => exact ⟨h.next, h.names, h.code⟩
  | name id s =>
    refine ⟨h.next, fun e he => ?_, h.code⟩
    simp only [Contents.add, Array.toList_push, List.mem_append, List.mem_singleton] at he
    rcases he with he | rfl
    · exact h.names e he
    · exact hl
  | code inst =>
    refine ⟨h.next, h.names, fun e he => ?_⟩
    simp only [Contents.add, Array.toList_push, List.mem_append, List.mem_singleton] at he
    rcases he with he | rfl
    · exact h.code e he
    · exact hl

theorem allInWords_of_ofText {text : String} {c : Contents} (h : Contents.ofText text = .ok c) :
    c.AllInWords := by
  have hread : ∀ (ls : List (List Char)) (number : Nat) (c c' : Contents), c.AllInWords →
      readLines number ls c = .ok c' → c'.AllInWords := by
    intro ls
    induction ls with
    | nil =>
      intro number c c' hc h
      cases h
      exact hc
    | cons cs ls ih =>
      intro number c c' hc h
      rw [readLines] at h
      cases hline : line cs with
      | error e => rw [hline] at h; cases h
      | ok l =>
        rw [hline] at h
        exact ih _ _ _ (hc.add number (lineInWords_of_line hline)) h
  refine hread _ _ _ _ ⟨by decide, ?_, ?_⟩ h
  · intro e he
    cases he
  · intro e he
    cases he

end ShaderIR.Listing
