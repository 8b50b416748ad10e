import ShaderIR.Proofs.Spirv.BinaryLayout

/-!
# Texts among the words

A text takes four bytes to a word and ends with a zero byte, so **a reader finds its end without
being told its length**, and leaves alone what follows it.
-/

namespace ShaderIR.Spirv

/-! ## Reading bytes -/

/-- Reads bytes, lowest first, up to the first zero byte.  The word with that byte is the last one.
    -/
def readBytes : List UInt32 → Option (List UInt8 × List UInt32)
  | [] => none
  | w :: rest =>
    if 0 ∈ bytesOfWords [w] then some ((bytesOfWords [w]).takeWhile (· ≠ 0), rest)
    else (readBytes rest).map fun (bytes, rest) => (bytesOfWords [w] ++ bytes, rest)

theorem bytesOfWords_packWord (a b c d : UInt8) :
    bytesOfWords [packWord a b c d] = [a, b, c, d] := by
  simp only [bytesOfWords, packWord, List.flatMap_singleton, List.cons.injEq, ← UInt8.toBitVec_inj]
  -- Each bit of the word comes from one of the bytes.
  refine ⟨?_, ?_, ?_, ?_, trivial⟩ <;> ext i hi <;> simp <;> grind

/-- The words `ws` hold `bytes` and a closing zero byte. -/
structure Packs (bytes : List UInt8) (ws : List UInt32) : Prop where
  length : ws.length = bytes.length / 4 + 1
  last : ∃ w, ws.getLast? = some w ∧ 0 ∈ bytesOfWords [w]
  read : 0 ∉ bytes → ∀ rest, readBytes (ws ++ rest) = some (bytes, rest)

theorem packs_last {w : UInt32} {bytes z : List UInt8} (hlength : bytes.length < 4)
    (hw : bytesOfWords [w] = bytes ++ 0 :: z) : Packs bytes [w] := by
  have hzero : 0 ∈ bytesOfWords [w] := by simp [hw]
  refine ⟨by rw [Nat.div_eq_of_lt hlength]; rfl, ⟨w, rfl, hzero⟩, fun hbytes rest => ?_⟩
  have hne : ∀ b ∈ bytes, decide (b ≠ 0) = true := fun b hb => decide_eq_true fun h => hbytes (h ▸ hb)
  rw [List.singleton_append, readBytes, if_pos hzero, hw, List.takeWhile_append_of_pos hne,
    List.takeWhile_cons_of_neg (by decide), List.append_nil]

theorem Packs.cons {bytes : List UInt8} {ws : List UInt32} (h : Packs bytes ws) (a b c d : UInt8) :
    Packs (a :: b :: c :: d :: bytes) (packWord a b c d :: ws) := by
  refine ⟨?_, ?_, fun hbytes rest => ?_⟩
  · rw [List.length_cons, h.length]
    simp only [List.length_cons]
    omega
  · obtain ⟨w, hw, hzero⟩ := h.last
    exact ⟨w, by rw [List.getLast?_cons, hw]; rfl, hzero⟩
  · -- A word without a zero byte is not the last one.
    have hfull : 0 ∉ [a, b, c, d] := fun hmem => hbytes (List.mem_append_left bytes hmem)
    have hrest : 0 ∉ bytes := fun hmem => hbytes (List.mem_append_right [a, b, c, d] hmem)
    rw [List.cons_append, readBytes, bytesOfWords_packWord, if_neg hfull, h.read hrest]
    rfl

theorem packs_packBytes (words : Array UInt32) (bytes : List UInt8) :
    ∃ ws, (packBytes words bytes).toList = words.toList ++ ws ∧ Packs bytes ws := by
  fun_induction packBytes words bytes with
  | case1 words a b c d rest ih =>
    obtain ⟨ws, hws, hpacks⟩ := ih
    exact ⟨_, by rw [hws, Array.toList_push, List.append_assoc]; rfl, hpacks.cons a b c d⟩
  | case2 | case3 | case4 => exact ⟨_, Array.toList_push, packs_last (by simp) (bytesOfWords_packWord ..)⟩
  | case5 => exact ⟨[0], Array.toList_push, packs_last (z := [0, 0, 0]) (by decide) rfl⟩

/-! ## Reading a text -/

def readText (words : List UInt32) : Option (String × List UInt32) :=
  (readBytes words).bind fun (bytes, rest) => (String.fromUTF8? ⟨bytes.toArray⟩).map (·, rest)

theorem zero_not_mem_utf8EncodeChar {c : Char} (h : c ≠ '\x00') : 0 ∉ String.utf8EncodeChar c := by
  have hc : c.val.toNat ≠ 0 := fun h0 => h (Char.ext (UInt32.toNat_inj.mp h0))
  fun_cases String.utf8EncodeChar c <;>
    simp only [List.mem_cons, List.not_mem_nil, or_false, ← UInt8.toNat_inj, UInt8.toNat_ofNat',
      UInt8.toNat_zero] <;>
    omega

theorem toList_toUTF8 (s : String) :
    s.toUTF8.data.toList = s.toList.flatMap String.utf8EncodeChar := by
  rw [String.toUTF8, ← String.utf8Encode_toList, List.utf8Encode, List.data_toByteArray]

theorem zero_not_mem_toUTF8 {s : String} (h : '\x00' ∉ s.toList) : 0 ∉ s.toUTF8.data.toList := by
  rw [toList_toUTF8, List.mem_flatMap]
  rintro ⟨c, hc, hzero⟩
  exact zero_not_mem_utf8EncodeChar (fun hnul => h (hnul ▸ hc)) hzero

theorem packs_packText (s : String) : Packs s.toUTF8.data.toList (packText s) := by
  obtain ⟨ws, hws, hpacks⟩ := packs_packBytes #[] s.toUTF8.data.toList
  rw [packText, hws]
  exact hpacks

theorem readText_packText {s : String} (h : '\x00' ∉ s.toList) (rest : List UInt32) :
    readText (packText s ++ rest) = some (s, rest) := by
  have hvalid : String.fromUTF8? s.toUTF8 = some s := dif_pos s.isValidUTF8
  rw [readText, (packs_packText s).read (zero_not_mem_toUTF8 h), Option.bind_some]
  exact congrArg (Option.map (·, rest)) hvalid

/-! ## Names -/

/-- Asked for a name of `count` operand words, a module writes it with that length or reports that
    length. -/
structure Module.Names (inst : Inst) (count : Nat) (m m' : Module) : Prop where
  counted : inst.operandWords.length = count
  written : count ≤ maxOperandWords → m' = m.append #[inst] .debug ∧
    ∃ w, inst.words = w :: inst.operandWords ∧ wordCount w = count + 1
  reported : maxOperandWords < count → m' = { m with oversized := m.oversized.push ⟨inst.op, count⟩ }

theorem Module.names_emit {inst : Inst} {count : Nat} (h : inst.operandWords.length = count)
    (m : Module) :
    Names inst count m (m.emit .debug inst) := by
  refine ⟨h, fun hle => ?_, fun hlt => ?_⟩
  · have hfits : inst.fits = true := decide_eq_true (h ▸ hle)
    obtain ⟨w, hw, hcount, -⟩ := inst.header_words hfits
    exact ⟨if_pos hfits, w, hw, by rw [hcount, inst.length_words, h]⟩
  · have hfits : ¬ inst.fits = true := fun hfits => Nat.not_le.mpr hlt (h ▸ of_decide_eq_true hfits)
    rw [emit, if_neg hfits, Inst.oversized, h]

/-- **Packed texts end where they say.**  A text has a word for each four bytes and one more, the
    last of which holds a zero byte; without a zero of its own it is read back whatever follows it.
    So the count of operand words that is reported for a name is the one that would have been
    written. -/
theorem packText_ends (s : String) :
    (packText s).length = s.utf8ByteSize / 4 + 1 ∧
      (∃ w, (packText s).getLast? = some w ∧ 0 ∈ bytesOfWords [w]) ∧
      ('\x00' ∉ s.toList → ∀ rest, readText (packText s ++ rest) = some (s, rest)) ∧
      (∀ id m, Module.Names { op := .name, operands := [.id id, .text s] } (s.utf8ByteSize / 4 + 2)
        m ((Build.name id s).run m).2) ∧
      ∀ id member m,
        Module.Names { op := .memberName, operands := [.id id, .literal member, .text s] }
        (s.utf8ByteSize / 4 + 3) m ((Build.memberName id member s).run m).2 := by
  have hpacks := packs_packText s
  have hlength : (packText s).length = s.utf8ByteSize / 4 + 1 := hpacks.length
  refine ⟨hlength, hpacks.last, readText_packText, fun id m => Module.names_emit ?_ m,
    fun id member m => Module.names_emit ?_ m⟩
  · simp [Inst.operandWords, Operand.words, hlength]
  · simp [Inst.operandWords, Operand.words, hlength]

/-- A text of four bytes takes a second word for its end. -/
theorem packText_ends_accented :
    (packText "öß").length = 2 ∧ readText (packText "öß" ++ [7]) = some ("öß", [7]) :=
  ⟨(packText_ends "öß").1, (packText_ends "öß").2.2.1 (by decide) [7]⟩

end ShaderIR.Spirv
