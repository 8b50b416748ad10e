import ShaderIR.Listing.Printer
import ShaderIR.Listing.Reader
import ShaderIR.Proofs.Text.RoundTrip

/-!
# Reading back the lines of a listing

Every line that the printer writes is read back as what it was written for: the next id, a string, a
name or an instruction.  The spelling of a type stands behind a semicolon and is not read.
-/

namespace ShaderIR

variable {l : List Char} {c : Char} {id : ResultId}

theorem Opcode.mem_all (op : Opcode) : op ∈ all := by cases op <;> decide

theorem Opcode.ofName?_name (op : Opcode) : ofName? op.name = some op := by
  have hall : ∀ op ∈ all, ofName? op.name = some op := by decide +kernel
  exact hall op op.mem_all

theorem Opcode.isWord_name (op : Opcode) :
    op.name.toList ≠ [] ∧ ∀ c ∈ op.name.toList, Listing.isWordChar c = true := by
  have hall : ∀ op ∈ all,
      op.name.toList ≠ [] ∧ op.name.toList.all Listing.isWordChar = true := by decide +kernel
  obtain ⟨hne, hword⟩ := hall op op.mem_all
  exact ⟨hne, List.all_eq_true.mp hword⟩

namespace Listing

open Text

theorem ok_bind {ε α β : Type} (a : α) (f : α → Except ε β) : (Except.ok a >>= f) = f a := rfl

/-! ## Words and numbers -/

theorem isBlank_of_isWordChar (h : isWordChar c = true) : isBlank c = false := by
  -- Word characters lie in four ranges of code points, and no blank does.
  have hrange : (65 ≤ c.toNat ∧ c.toNat ≤ 90) ∨ (97 ≤ c.toNat ∧ c.toNat ≤ 122)
      ∨ (48 ≤ c.toNat ∧ c.toNat ≤ 57) ∨ c.toNat = 95 := by
    change (((decide (65 ≤ c.toNat ∧ c.toNat ≤ 90)
      || decide (97 ≤ c.toNat) && decide (c.toNat ≤ 122))
      || decide (48 ≤ c.toNat) && decide (c.toNat ≤ 57)) || c == '_') = true at h
    simp only [Bool.or_eq_true, Bool.and_eq_true, decide_eq_true_eq, beq_iff_eq] at h
    rcases h with ((h | h) | h) | h
    · exact .inl h
    · exact .inr (.inl h)
    · exact .inr (.inr (.inl h))
    · exact .inr (.inr (.inr (by rw [h]; rfl)))
  simp only [isBlank, Bool.or_eq_false_iff, Bool.and_eq_false_iff, decide_eq_false_iff_not,
    beq_eq_false_iff_ne]
  omega

/-- What follows does not go on with a word. -/
def Stops (rest : List Char) : Prop := ∀ c ∈ rest.head?, isWordChar c = false

theorem stops_nil : Stops [] := by
  intro c h
  cases h

theorem stops_cons (h : isWordChar c = false) (rest : List Char) : Stops (c :: rest) := by
  intro d hd
  cases hd
  exact h

theorem stops_of_all_isBlank (h : ∀ c ∈ l, isBlank c = true) : Stops l := by
  intro c hc
  cases hw : isWordChar c with
  | false => rfl
  | true =>
    have hblank := h c (List.mem_of_mem_head? hc)
    rw [isBlank_of_isWordChar hw] at hblank
    cases hblank

theorem word_append {w rest : List Char} (hne : w ≠ []) (hw : ∀ c ∈ w, isWordChar c = true)
    (hrest : Stops rest) : word (w ++ rest) = (String.ofList w, rest) := by
  have htrim : trimStart (w ++ rest) = w ++ rest := by
    cases w with
    | nil => exact absurd rfl hne
    | cons c w => exact trimStart_of_not_isBlank (isBlank_of_isWordChar (hw c List.mem_cons_self)) _
  have hstop : rest.takeWhile isWordChar = [] ∧ rest.dropWhile isWordChar = rest := by
    cases rest with
    | nil => exact ⟨rfl, rfl⟩
    | cons d rest =>
      have hd : ¬ isWordChar d = true := by rw [hrest d rfl]; exact Bool.false_ne_true
      exact ⟨List.takeWhile_cons_of_neg hd, List.dropWhile_cons_of_neg hd⟩
  rw [word, htrim, List.takeWhile_append_of_pos hw, List.dropWhile_append_of_pos hw, hstop.1,
    hstop.2, List.append_nil]

theorem word_space (rest : List Char) : word (' ' :: rest) = word rest := by
  rw [word, trimStart_space, word]

def digits (n : Nat) : List Char := Nat.toDigits 10 n

theorem toList_toString (n : Nat) : (toString n).toList = digits n := Nat.toList_repr

theorem digits_ne_nil (n : Nat) : digits n ≠ [] := Nat.toDigits_ne_nil

theorem isWordChar_of_mem_digits {n : Nat} (h : c ∈ digits n) : isWordChar c = true := by
  obtain ⟨d, hd, rfl⟩ := exists_digitChar_of_mem_toDigits (by decide) h
  have hall : ∀ d, d < 10 → isWordChar (Nat.digitChar d) = true := by decide
  exact hall d hd

variable {rest : List Char}

theorem number_digits {n : Nat} (hn : n < UInt32.size) (hrest : Stops rest) :
    number (digits n ++ rest) = .ok (n.toUInt32, rest) := by
  have hread : readWord? 10 (digits n) = some n.toUInt32 :=
    readWord?_toDigits (by decide) (by decide) hn
  simp only [number, word_append (digits_ne_nil n) (fun c hc => isWordChar_of_mem_digits hc) hrest,
    String.toList_ofList, hread]

theorem number_space (rest : List Char) : number (' ' :: rest) = number rest := by
  rw [number, word_space, number]

theorem number_word (w : UInt32) (hrest : Stops rest) :
    number (digits w.toNat ++ rest) = .ok (w, rest) := by
  have hw : w.toNat.toUInt32 = w := UInt32.ofNat_toNat
  rw [number_digits w.toNat_lt_size hrest, hw]

/-! ## Ids and triples -/

theorem expect_self (hc : isBlank c = false) (rest : List Char) :
    expect c (c :: rest) = .ok ((), rest) := by
  rw [expect, eat, trimStart_of_not_isBlank hc]
  simp

theorem expect_space (c : Char) (rest : List Char) : expect c (' ' :: rest) = expect c rest := by
  rw [expect, eat, trimStart_space, expect, eat]

theorem toList_text (id : ResultId) : id.text.toList = '%' :: digits id.index := by
  rw [ResultId.text, String.toList_append, toList_toString]
  rfl

theorem resultId_text (hid : id.index < UInt32.size)
    (hrest : Stops rest) : resultId (id.text.toList ++ rest) = .ok (id, rest) := by
  have hword : id.index.toUInt32.toNat = id.index := Nat.mod_eq_of_lt hid
  rw [toList_text, List.cons_append, resultId, expect_self (by decide)]
  simp only [ok_bind, number_digits hid hrest, hword]
  rfl

theorem resultId_space (rest : List Char) : resultId (' ' :: rest) = resultId rest := by
  rw [resultId, expect_space, resultId]

def bracketed {α : Type} (opening closing : Char) (write : α → List Char) (t : Triple α) :
    List Char :=
  opening :: write t.fst ++ [',', ' '] ++ write t.snd ++ [',', ' '] ++ write t.thd ++ [closing]

theorem triple_bracketed {α : Type} {opening closing : Char} {item : LineReader α}
    {write : α → List Char} {t : Triple α} (hopening : isBlank opening = false)
    (hclosing : isBlank closing = false) (hword : isWordChar closing = false)
    (hspace : ∀ rest, item (' ' :: rest) = item rest)
    (hitem : ∀ a ∈ t.toList, ∀ rest, Stops rest → item (write a ++ rest) = .ok (a, rest))
    (rest : List Char) :
    triple opening closing item (bracketed opening closing write t ++ rest) = .ok (t, rest) := by
  have hcomma : ∀ rest, Stops (',' :: rest) := stops_cons (by decide)
  have hshape : bracketed opening closing write t ++ rest = opening :: (write t.fst ++ ',' :: ' ' ::
          (write t.snd ++ ',' :: ' ' :: (write t.thd ++ closing :: rest))) := by
    simp [bracketed]
  rw [hshape, triple, expect_self hopening]
  simp only [ok_bind, hitem t.fst (by simp [Triple.toList]) _ (hcomma _),
    expect_self (show isBlank ',' = false by decide), hspace,
    hitem t.snd (by simp [Triple.toList]) _ (hcomma _),
    hitem t.thd (by simp [Triple.toList]) _ (stops_cons hword _), expect_self hclosing]
  rfl

theorem atEnd_of_all_isBlank (h : ∀ c ∈ l, isBlank c = true) : atEnd l = .ok () := by
  rw [atEnd, trimStart_of_all_isBlank h]

/-! ## Instructions -/

def InWords (inst : Instruction) : Prop :=
  inst.id.index < UInt32.size ∧ ∀ r ∈ inst.slots, r.index < UInt32.size

def locationText : Option Location → List Char
  | none => []
  | some l => ' ' :: '!' :: (digits l.line.toNat ++ ':' :: digits l.column.toNat)

theorem toList_instructionText (inst : Instruction) :
    inst.text.toList = inst.id.text.toList ++
      ' ' :: '=' :: ' ' :: (inst.opcode.name.toList ++ ' ' ::
      (bracketed '[' ']' (fun w : UInt32 => digits w.toNat) inst.operands ++ ' ' ::
        (bracketed '(' ')' (fun id : ResultId => id.text.toList) inst.refs ++ ' ' :: ':' :: ' ' ::
          (inst.resultType.text.toList ++ locationText inst.location)))) := by
  simp only [Instruction.text, String.toList_append, String.toList_intercalate,
    Triple.toList, List.map_cons, List.map_nil, toList_toString, bracketed]
  cases inst.location with
  | none => simp [locationText]
  | some l => simp [locationText, Location.text, digits]

theorem location_locationText (l : Option Location) {tail : List Char}
    (htail : ∀ c ∈ tail, isBlank c = true) :
    ∃ rest, location (locationText l ++ tail) = .ok (l, rest) ∧ ∀ c ∈ rest, isBlank c = true := by
  cases l with
  | none =>
    refine ⟨[], ?_, nofun⟩
    rw [locationText, List.nil_append, location, eat, trimStart_of_all_isBlank htail]
  | some l =>
    refine ⟨tail, ?_, htail⟩
    have hline : number (digits l.line.toNat ++ ':' :: (digits l.column.toNat ++ tail))
        = .ok (l.line, ':' :: (digits l.column.toNat ++ tail)) :=
      number_word _ (stops_cons (by decide) _)
    have hcolumn : number (digits l.column.toNat ++ tail) = .ok (l.column, tail) :=
      number_word _ (stops_of_all_isBlank htail)
    have heat : eat '!' (locationText (some l) ++ tail)
        = (true, digits l.line.toNat ++ ':' :: (digits l.column.toNat ++ tail)) := by
      rw [locationText, List.cons_append, List.cons_append, eat, trimStart_space,
        trimStart_of_not_isBlank (by decide), List.append_assoc, List.cons_append]
      rfl
    rw [location, heat]
    simp only [hline, ok_bind, expect_self (show isBlank ':' = false by decide), hcolumn]
    rfl

/-- **An instruction is read back from its line**, whatever blanks follow. -/
theorem instruction_text {inst : Instruction} (hinst : InWords inst) {tail : List Char}
    (htail : ∀ c ∈ tail, isBlank c = true) : instruction (inst.text.toList ++ tail) = .ok inst := by
  have hslots : ∀ r ∈ inst.slots, r.index < UInt32.size := hinst.2
  have hspace : ∀ rest, Stops (' ' :: rest) := stops_cons (by decide)
  have hname : ∀ rest, word (inst.opcode.name.toList ++ ' ' :: rest) = (inst.opcode.name, ' ' :: rest) := by
    intro rest
    rw [word_append inst.opcode.isWord_name.1 inst.opcode.isWord_name.2 (hspace rest), String.ofList_toList]
  have hoperands : ∀ rest, triple '[' ']' number
      (bracketed '[' ']' (fun w : UInt32 => digits w.toNat) inst.operands ++ rest)
      = .ok (inst.operands, rest) :=
    triple_bracketed (by decide) (by decide) (by decide) number_space fun w _ rest hrest => number_word w hrest
  have hrefs : ∀ rest, triple '(' ')' resultId
      (bracketed '(' ')' (fun id : ResultId => id.text.toList) inst.refs ++ rest) = .ok (inst.refs, rest) :=
    triple_bracketed (by decide) (by decide) (by decide) resultId_space
      fun r hr rest hrest => resultId_text (hslots r (List.mem_append_left _ hr)) hrest
  have htriple : ∀ {α : Type} (opening closing : Char) (item : LineReader α) (rest : List Char),
      triple opening closing item (' ' :: rest) = triple opening closing item rest := by
    intro α opening closing item rest
    rw [triple, expect_space, triple]
  have hstops : Stops (locationText inst.location ++ tail) := by
    cases inst.location with
    | none => exact stops_of_all_isBlank htail
    | some l => exact hspace _
  obtain ⟨rest, hlocation, hblank⟩ := location_locationText inst.location htail
  -- From here on the readers are run one after the other, each on what the last one left.
  rw [toList_instructionText, instruction]
  simp only [List.append_assoc, List.cons_append, resultId_text hinst.1 (hspace _), ok_bind,
    expect_space, expect_self (show isBlank '=' = false by decide), word_space, hname,
    Opcode.ofName?_name, htriple, hoperands, hrefs,
    expect_self (show isBlank ':' = false by decide), resultId_space,
    resultId_text (hslots inst.resultType (List.mem_append_right _ List.mem_cons_self)) hstops,
    hlocation, atEnd_of_all_isBlank hblank]
  rfl

/-! ## Plain text -/

/-- A text in which neither a comment nor another line starts. -/
def Plain (cs : List Char) : Prop := ∀ c ∈ cs, c ≠ ';' ∧ c ≠ '\n'

instance : DecidablePred Plain := List.decidableBAll fun c => c ≠ ';' ∧ c ≠ '\n'

theorem plain_append {l1 l2 : List Char} (h1 : Plain l1) (h2 : Plain l2) : Plain (l1 ++ l2) := by
  intro c hc
  rcases List.mem_append.mp hc with hc | hc
  · exact h1 c hc
  · exact h2 c hc

theorem plain_cons (hc : c ≠ ';' ∧ c ≠ '\n') (h : Plain l) : Plain (c :: l) := List.forall_mem_cons.mpr ⟨hc, h⟩

theorem plain_of_isWordChar (h : ∀ c ∈ l, isWordChar c = true) : Plain l := by
  intro c hc
  have hw := h c hc
  constructor
  · rintro rfl
    cases hw
  · rintro rfl
    cases hw

theorem plain_digits (n : Nat) : Plain (digits n) :=
  plain_of_isWordChar fun _ hc => isWordChar_of_mem_digits hc

theorem plain_text (id : ResultId) : Plain id.text.toList := by
  rw [toList_text]
  exact plain_cons (by decide) (plain_digits _)

theorem plain_bracketed {α : Type} {opening closing : Char} {write : α → List Char} {t : Triple α}
    (hopening : opening ≠ ';' ∧ opening ≠ '\n') (hclosing : closing ≠ ';' ∧ closing ≠ '\n')
    (hwrite : ∀ a, Plain (write a)) : Plain (bracketed opening closing write t) := by
  have hcomma : Plain [',', ' '] := by decide
  exact plain_append (plain_append (plain_append (plain_append (plain_append
    (plain_cons hopening (hwrite _)) hcomma) (hwrite _)) hcomma) (hwrite _)) (plain_cons hclosing (by decide))

theorem plain_locationText (l : Option Location) : Plain (locationText l) := by
  cases l with
  | none => decide
  | some l =>
    exact plain_cons (by decide) (plain_cons (by decide)
      (plain_append (plain_digits _) (plain_cons (by decide) (plain_digits _))))

theorem plain_instructionText (inst : Instruction) : Plain inst.text.toList := by
  have hname : Plain inst.opcode.name.toList :=
    plain_of_isWordChar inst.opcode.isWord_name.2
  have hoperands : Plain (bracketed '[' ']' (fun w : UInt32 => digits w.toNat) inst.operands) :=
    plain_bracketed (by decide) (by decide) fun w => plain_digits w.toNat
  have hrefs : Plain (bracketed '(' ')' (fun id : ResultId => id.text.toList) inst.refs) :=
    plain_bracketed (by decide) (by decide) plain_text
  have hbehind : Plain (inst.resultType.text.toList ++ locationText inst.location) :=
    plain_append (plain_text _) (plain_locationText _)
  rw [toList_instructionText]
  refine plain_append (plain_text _) ?_
  refine plain_cons (by decide) (plain_cons (by decide) (plain_cons (by decide) ?_))
  refine plain_append hname (plain_cons (by decide) ?_)
  refine plain_append hoperands (plain_cons (by decide) ?_)
  refine plain_append hrefs ?_
  exact plain_cons (by decide) (plain_cons (by decide) (plain_cons (by decide) hbehind))

theorem plain_spellAt (reg : TypeRegistry) (depth : Nat) (h : TypeHandle) :
    Plain (reg.spellAt depth h).toList := by
  induction depth generalizing h with
  | zero => exact (by decide : Plain "...".toList)
  | succ depth ih =>
    have hnumber : ∀ w : UInt32, Plain (toString w.toNat).toList := by
      intro w
      rw [toList_toString]
      exact plain_digits _
    rw [TypeRegistry.spellAt]
    split
    iterate 3
      · decide
    iterate 3
      · rw [String.toList_append]
        exact plain_append (by decide) (hnumber _)
    · simp only [String.toList_append]
      exact plain_append (plain_append (plain_append (plain_append (by decide) (ih _)) (by decide))
        (hnumber _)) (by decide)
    · simp only [String.toList_append]
      exact plain_append (plain_append (plain_append (plain_append (by decide) (hnumber _))
        (by decide)) (ih _)) (by decide)
    · simp only [String.toList_append]
      exact plain_append (plain_append (plain_append (plain_append (plain_append (plain_append
        (by decide) (hnumber _)) (by decide)) (hnumber _)) (by decide)) (ih _)) (by decide)
    · simp only [String.toList_append]
      exact plain_append (plain_append (by decide) (ih _)) (by decide)
    · simp only [String.toList_append]
      exact plain_append (plain_append (plain_append (plain_append (by decide) (ih _)) (by decide))
        (ih _)) (by decide)
    · decide

theorem plain_spell (reg : TypeRegistry) (id : ResultId) : Plain (reg.spell id).toList := by
  rw [TypeRegistry.spell]
  split
  · exact plain_spellAt _ _ _
  · rw [String.toList_append]
    exact plain_append (by decide) (plain_text id)

/-! ## Lines -/

theorem trim_append_digits (first : Char) (hfirst : isBlank first = false) (mid : List Char)
    (n : Nat) : trim (first :: mid ++ digits n) = first :: mid ++ digits n := by
  have hlast := List.dropLast_concat_getLast (digits_ne_nil n)
  have hmem : (digits n).getLast (digits_ne_nil n) ∈ digits n := List.getLast_mem _
  rw [← hlast, ← List.append_assoc, List.cons_append]
  exact trim_of_not_isBlank hfirst (isBlank_of_isWordChar (isWordChar_of_mem_digits hmem)) _

theorem takeWhile_of_plain {l rest : List Char} (h : Plain l) :
    (l ++ rest).takeWhile (fun c => decide (c ≠ ';')) = l ++ rest.takeWhile fun c =>
      decide (c ≠ ';') :=
  List.takeWhile_append_of_pos fun c hc => decide_eq_true (h c hc).1

theorem line_directive {cs : List Char} (h : trim ('@' :: cs) = '@' :: cs) :
    line ('@' :: cs) = directive cs := by
  rw [line, h]
  rfl

theorem directive_word {w rest : List Char} (hne : w ≠ []) (hw : w.all isWordChar = true) :
    word (w ++ ' ' :: rest) = (String.ofList w, ' ' :: rest) :=
  word_append hne (List.all_eq_true.mp hw) (stops_cons (by decide) rest)

theorem line_next (hid : id.index < UInt32.size) :
    line ("@next " ++ id.text).toList = .ok (.next id) := by
  have hshape : ("@next " ++ id.text).toList
      = '@' :: ('n' :: 'e' :: 'x' :: 't' :: ' ' :: id.text.toList) := by
    rw [String.toList_append]
    rfl
  have htrim : trim ('@' :: ('n' :: 'e' :: 'x' :: 't' :: ' ' :: id.text.toList))
      = '@' :: ('n' :: 'e' :: 'x' :: 't' :: ' ' :: id.text.toList) := by
    rw [toList_text]
    exact trim_append_digits '@' (by decide) ['n', 'e', 'x', 't', ' ', '%'] id.index
  have hid' : resultId id.text.toList = .ok (id, []) := by
    have := resultId_text hid stops_nil
    rwa [List.append_nil] at this
  have hword : word ('n' :: 'e' :: 'x' :: 't' :: ' ' :: id.text.toList)
      = ("next", ' ' :: id.text.toList) :=
    directive_word (w := ['n', 'e', 'x', 't']) (by decide) (by decide)
  rw [hshape, line_directive htrim, directive, hword]
  simp only [beq_self_eq_true, if_true, resultId_space, hid', ok_bind]
  rfl

theorem quoted_write (s : String) : quoted (' ' :: (Quoted.write s).toList) = .ok (s, []) := by
  have hwrite : (Quoted.write s).toList = '\x22' :: (s.toList.flatMap Quoted.escape ++ ['\x22']) := by
    rw [Quoted.write, String.toList_ofList, List.append_assoc]
    rfl
  rw [hwrite, quoted, expect_space, expect_self (by decide)]
  simp only [ok_bind, Quoted.read_escaped s []]
  rfl

theorem trim_append_write (first : Char) (hfirst : isBlank first = false) (mid : List Char)
    (s : String) :
    trim (first :: mid ++ (Quoted.write s).toList) = first :: mid ++ (Quoted.write s).toList := by
  have hwrite : (Quoted.write s).toList = '\x22' :: s.toList.flatMap Quoted.escape ++ ['\x22'] := by
    rw [Quoted.write, String.toList_ofList]
    rfl
  rw [hwrite, ← List.append_assoc, List.cons_append]
  exact trim_of_not_isBlank hfirst (by decide) _

theorem line_string (s : String) :
    line ("@string " ++ Quoted.write s).toList = .ok (.string s) := by
  have hshape : ("@string " ++ Quoted.write s).toList = '@' ::
      ('s' :: 't' :: 'r' :: 'i' :: 'n' :: 'g' :: ' ' :: (Quoted.write s).toList) := by
    rw [String.toList_append]
    rfl
  have htrim : trim ('@' :: ('s' :: 't' :: 'r' :: 'i' :: 'n' :: 'g' :: ' ' :: (Quoted.write s).toList))
      = '@' :: ('s' :: 't' :: 'r' :: 'i' :: 'n' :: 'g' :: ' ' :: (Quoted.write s).toList) :=
    trim_append_write '@' (by decide) ['s', 't', 'r', 'i', 'n', 'g', ' '] s
  have hword : word ('s' :: 't' :: 'r' :: 'i' :: 'n' :: 'g' :: ' ' :: (Quoted.write s).toList)
      = ("string", ' ' :: (Quoted.write s).toList) :=
    directive_word (w := ['s', 't', 'r', 'i', 'n', 'g']) (by decide) (by decide)
  have hne : ("string" == "next") = false := by decide
  rw [hshape, line_directive htrim, directive, hword]
  simp only [hne, Bool.false_eq_true, if_false, beq_self_eq_true, if_true, quoted_write, ok_bind]
  rfl

theorem line_name (hid : id.index < UInt32.size) (s : String) :
    line ("@name " ++ id.text ++ " " ++ Quoted.write s).toList = .ok (.name id s) := by
  have hshape : ("@name " ++ id.text ++ " " ++ Quoted.write s).toList = '@' ::
      ('n' :: 'a' :: 'm' :: 'e' :: ' ' :: (id.text.toList ++ ' ' :: (Quoted.write s).toList)) := by
    simp only [String.toList_append, List.append_assoc]
    rfl
  have htrim : trim ('@' ::
        ('n' :: 'a' :: 'm' :: 'e' :: ' ' :: (id.text.toList ++ ' ' :: (Quoted.write s).toList))) = '@' ::
        ('n' :: 'a' :: 'm' :: 'e' :: ' ' :: (id.text.toList ++ ' ' :: (Quoted.write s).toList)) := by
    have := trim_append_write '@' (by decide) ('n' :: 'a' :: 'm' :: 'e' :: ' ' :: (id.text.toList ++ [' '])) s
    simpa using this
  have hword : word ('n' :: 'a' :: 'm' :: 'e' :: ' ' :: (id.text.toList ++ ' ' :: (Quoted.write s).toList))
      = ("name", ' ' :: (id.text.toList ++ ' ' :: (Quoted.write s).toList)) :=
    directive_word (w := ['n', 'a', 'm', 'e']) (by decide) (by decide)
  have hnext : ("name" == "next") = false := by decide
  have hstring : ("name" == "string") = false := by decide
  rw [hshape, line_directive htrim, directive, hword]
  simp only [hnext, hstring, Bool.false_eq_true, if_false, beq_self_eq_true, if_true,
    resultId_space, resultId_text hid (stops_cons (show isWordChar ' ' = false by decide) _),
    quoted_write, ok_bind]
  rfl

theorem exists_toList_instructionText (inst : Instruction) :
    ∃ mid n, inst.text.toList = '%' :: mid ++ digits n := by
  have hlast : ∃ mid n, inst.resultType.text.toList ++ locationText inst.location = mid ++ digits n := by
    cases inst.location with
    | none => exact ⟨['%'], inst.resultType.index, by simp [locationText, toList_text]⟩
    | some l =>
      exact ⟨inst.resultType.text.toList ++ ' ' :: '!' :: (digits l.line.toNat ++ [':']),
        l.column.toNat, by simp [locationText]⟩
  obtain ⟨mid, n, hlast⟩ := hlast
  rw [toList_instructionText, hlast, toList_text]
  simp only [← List.append_assoc, ← List.cons_append]
  exact ⟨_, n, rfl⟩

theorem line_code {cs rest : List Char} (htrim : trim cs = '%' :: rest) :
    line cs = (instruction (('%' :: rest).takeWhile (· ≠ ';'))).map .code := by
  rw [line, htrim]
  dsimp only
  rw [if_neg (by decide), if_neg (by decide)]

/-- **Every instruction is read back from its line**, with or without a spelled type. -/
theorem line_instructionLine (asm : Assembler) {inst : Instruction} (hinst : InWords inst) :
    line (instructionLine asm inst).toList = .ok (.code inst) := by
  have hplain := plain_instructionText inst
  obtain ⟨mid, n, htext⟩ := exists_toList_instructionText inst
  unfold instructionLine
  split
  next =>
    -- With a spelled type: the text ends at the semicolon, and a blank is left in front of it.
    have hshape : (inst.text ++ " ; " ++ asm.types.spell inst.id).toList
        = '%' :: (mid ++ digits n ++ [' ']) ++ ';' :: ' ' :: (asm.types.spell inst.id).toList := by
      simp only [String.toList_append, htext]
      simp
    obtain ⟨rest', htrim⟩ := trim_append_cons (c := ';') (show isBlank '%' = false by decide)
      (by decide) (mid ++ digits n ++ [' ']) (' ' :: (asm.types.spell inst.id).toList)
    have htake : ('%' :: (mid ++ digits n ++ [' ']) ++ ';' :: rest').takeWhile
        (fun c => decide (c ≠ ';')) = inst.text.toList ++ [' '] := by
      have hhead : '%' :: (mid ++ digits n ++ [' ']) = inst.text.toList ++ [' '] := by
        rw [htext]; simp
      rw [hhead, takeWhile_of_plain (plain_append hplain (by decide)),
        List.takeWhile_cons_of_neg (by decide), List.append_nil]
    have hread : instruction (inst.text.toList ++ [' ']) = .ok inst :=
      instruction_text hinst (List.all_eq_true.mp (by decide))
    rw [← hshape, List.cons_append] at htrim
    rw [List.cons_append] at htake
    rw [line_code htrim, htake, hread]
    rfl
  next =>
    have htrim : trim inst.text.toList = inst.text.toList := by
      rw [htext]
      exact trim_append_digits '%' (by decide) mid n
    have htake : inst.text.toList.takeWhile (fun c => decide (c ≠ ';')) = inst.text.toList := by
      have hwhole : (inst.text.toList ++ []).takeWhile (fun c => decide (c ≠ ';'))
          = inst.text.toList ++ [].takeWhile fun c => decide (c ≠ ';') := takeWhile_of_plain hplain
      rwa [List.takeWhile_nil, List.append_nil] at hwhole
    have hread : instruction (inst.text.toList ++ []) = .ok inst :=
      instruction_text hinst nofun
    rw [List.append_nil] at hread
    rw [htext, List.cons_append] at htrim htake hread ⊢
    rw [line_code htrim, htake, hread]
    rfl

end Listing

end ShaderIR
