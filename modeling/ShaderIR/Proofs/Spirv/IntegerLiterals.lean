import Mathlib.Tactic.Ring
import ShaderIR.Proofs.Spirv.BinaryLayout
import ShaderIR.Proofs.Spirv.SharedDeclarations

/-!
# Integer literals

A literal gives 64 bits, of which its type keeps the lowest.  **The words of the constant hold these
bits**, and those above them in a narrow constant are copies of the sign, or zero.
-/

namespace ShaderIR.Spirv

open Discipline

variable {asm : Assembler} {width : UInt32} {signed : Bool}

/-! ## Values of words -/

/-- The number that words spell, low word first. -/
def wordsValue : List UInt32 → Nat
  | [] => 0
  | w :: rest => w.toNat + 2 ^ 32 * wordsValue rest

/-- The words of a constant of `width` bits with the value `v`, as far as it fits. -/
structure Represents (width : Nat) (signed : Bool) (v : Nat) (ws : List UInt32) : Prop where
  length : ws.length = if width ≤ 32 then 1 else 2
  value : wordsValue ws % 2 ^ width = v % 2 ^ width
  extended : width < 32 → ∀ i, width ≤ i → i < 32 →
    (wordsValue ws).testBit i = (signed && (wordsValue ws).testBit (width - 1))

theorem toNat_wide (inst : Instruction) :
    inst.wide.toNat = inst.operands.fst.toNat + 2 ^ 32 * inst.operands.snd.toNat := by
  have hfst := inst.operands.fst.toNat_lt
  have hsnd := inst.operands.snd.toNat_lt
  have hhigh : (inst.operands.snd.toUInt64 <<< 32).toNat = inst.operands.snd.toNat <<< 32 := by
    simp [Nat.shiftLeft_eq]
    omega
  rw [Instruction.wide, UInt64.toNat_or, hhigh, UInt32.toNat_toUInt64, Nat.or_comm,
    ← Nat.shiftLeft_add_eq_or_of_lt hfst, Nat.shiftLeft_eq]
  omega

theorem wordsValue_splitWide (n : UInt64) :
    wordsValue [(splitWide n).1, (splitWide n).2] = n.toNat := by
  have hn := n.toNat_lt
  simp [wordsValue, splitWide, Nat.shiftRight_eq_div_pow]
  omega

/-- Shifting to the top and back takes the places of a wider word. -/
theorem toBitVec_signExtend (n shift : UInt64) (h : shift.toNat < 64) :
    ((n <<< shift).toInt64 >>> shift.toInt64).toUInt64.toUInt32.toBitVec =
      ((n.toBitVec <<< shift.toNat).sshiftRight shift.toNat).setWidth 32 := by
  have hlow : (shift.toBitVec % 64).toNat = shift.toNat := by
    rw [BitVec.toNat_umod]
    exact Nat.mod_eq_of_lt h
  have hmsb : shift.toBitVec.msb = false := by
    rw [BitVec.msb_eq_false_iff_two_mul_lt, UInt64.toNat_toBitVec]
    omega
  have hmod : shift.toBitVec.smod 64 = shift.toBitVec % 64 := by
    rw [BitVec.smod_eq, hmsb]
    rfl
  rw [UInt64.toBitVec_toUInt32, Int64.toBitVec_toUInt64, Int64.toBitVec_shiftRight,
    UInt64.toBitVec_toInt64, UInt64.toBitVec_toInt64, UInt64.toBitVec_shiftLeft, hmod,
    BitVec.sshiftRight_eq', BitVec.shiftLeft_eq', hlow]

/-- Every bit from the sign on is the sign. -/
theorem testBit_signExtend {k : Nat} (hpos : 0 < k) (hk : k < 32) (n : UInt64) {shift : UInt64}
    (hshift : shift.toNat = 64 - k) {i : Nat} (hi : i < 32) :
    ((n <<< shift).toInt64 >>> shift.toInt64).toUInt64.toUInt32.toNat.testBit i =
      n.toNat.testBit (min i (k - 1)) := by
  rw [← UInt32.toNat_toBitVec, BitVec.testBit_toNat, toBitVec_signExtend n shift (by omega),
    BitVec.getLsbD_setWidth, BitVec.getLsbD_sshiftRight, BitVec.msb_eq_getLsbD_last,
    BitVec.getLsbD_shiftLeft, BitVec.getLsbD_shiftLeft, hshift, ← UInt64.toNat_toBitVec,
    BitVec.testBit_toNat]
  by_cases hlow : i < k
  · rw [min_eq_left (by omega), if_pos (by omega), Nat.add_sub_cancel_left]
    simp [hi, show ¬ 64 ≤ i by omega, show 64 - k + i < 64 by omega]
  · rw [min_eq_right (by omega), if_neg (by omega), show 64 - 1 - (64 - k) = k - 1 by omega]
    simp [hi, show ¬ 64 ≤ i by omega, show 64 - k ≤ 63 by omega]

theorem testBit_mask (h : width.toNat < 32) (n : UInt64) (i : Nat) :
    (n &&& ((1 <<< width.toUInt64) - 1)).toUInt32.toNat.testBit i =
      (decide (i < width.toNat) && n.toNat.testBit i) := by
  have hlt : 2 ^ width.toNat < 2 ^ 32 := Nat.pow_lt_pow_right (by decide) h
  have hpow : ((1 : UInt64) <<< width.toUInt64).toNat = 2 ^ width.toNat := by
    rw [UInt64.toNat_shiftLeft, UInt32.toNat_toUInt64, Nat.mod_eq_of_lt (by omega : width.toNat < 64),
      Nat.shiftLeft_eq, show (1 : UInt64).toNat = 1 from rfl, Nat.one_mul]
    exact Nat.mod_eq_of_lt (by omega)
  have hmask : ((1 : UInt64) <<< width.toUInt64 - 1).toNat = 2 ^ width.toNat - 1 := by
    rw [UInt64.toNat_sub_of_le _ _ (by rw [UInt64.le_iff_toNat_le, hpow]; exact Nat.one_le_two_pow),
      hpow]
    rfl
  rw [UInt64.toNat_toUInt32, UInt64.toNat_and, hmask, Nat.and_two_pow_sub_one_eq_mod,
    Nat.testBit_mod_two_pow, Nat.testBit_mod_two_pow]
  by_cases hi : i < width.toNat
  · simp [hi, show i < 32 by omega]
  · simp [hi]

/-- One word represents a literal if its low bits are those of the literal, and the others the sign.
    -/
theorem represents_word {k v : Nat} (hpos : 0 < k) (hk : k ≤ 32) {w : UInt32}
    (hbit : ∀ i, i < 32 →
      w.toNat.testBit i = if i < k then v.testBit i else signed && v.testBit (k - 1)) :
    Represents k signed v [w] := by
  have hvalue : wordsValue [w] = w.toNat := Nat.add_zero _
  refine ⟨(if_pos hk).symm, ?_, fun hlt i hi hi32 => ?_⟩
  · refine Nat.eq_of_testBit_eq fun i => ?_
    rw [hvalue, Nat.testBit_mod_two_pow, Nat.testBit_mod_two_pow]
    by_cases hi : i < k
    · rw [hbit i (by omega), if_pos hi]
    · rw [decide_eq_false hi, Bool.false_and, Bool.false_and]
  · rw [hvalue, hbit i hi32, hbit (k - 1) (by omega), if_neg (by omega), if_pos (by omega)]

theorem represents_intWords (hpos : 0 < width.toNat) (hle : width.toNat ≤ 64) (signed : Bool)
    (n : UInt64) :
    Represents width.toNat signed n.toNat (intWords width signed n) := by
  have hnonzero : width ≠ 0 := fun h => by rw [h] at hpos; cases hpos
  unfold intWords
  split_ifs with hwide hword hsigned
  · have hlt : 32 < width.toNat := hwide
    refine ⟨(if_neg (Nat.not_le.mpr hlt)).symm, ?_, fun h => absurd h (Nat.lt_asymm hlt)⟩
    show wordsValue [(splitWide n).1, (splitWide n).2] % _ = _
    rw [wordsValue_splitWide]
  · rw [hword]
    refine represents_word (by decide) (Nat.le_refl 32) fun i hi => ?_
    rw [UInt64.toNat_toUInt32, Nat.testBit_mod_two_pow, decide_eq_true hi, Bool.true_and]
    exact (if_pos hi).symm
  all_goals
    have hnarrow : width.toNat < 32 :=
      Nat.lt_of_le_of_ne (Nat.not_lt.mp hwide) fun h => hword (UInt32.toNat_inj.mp h)
  · rw [hsigned]
    have hshift : (64 - width.toUInt64).toNat = 64 - width.toNat :=
      UInt64.toNat_sub_of_le _ _ (UInt64.le_iff_toNat_le.mpr hle)
    refine represents_word hpos hnarrow.le fun i hi => ?_
    rw [testBit_signExtend hpos hnarrow n hshift hi, Bool.true_and]
    split
    · rw [min_eq_left (by omega)]
    · rw [min_eq_right (by omega)]
  · refine represents_word hpos hnarrow.le fun i hi => ?_
    rw [testBit_mask hnarrow, Bool.eq_false_iff.mpr hsigned, Bool.false_and]
    by_cases hlow : i < width.toNat <;> simp [hlow]

/-! ## Literals of a stream -/

/-- The widths that the registry admits. -/
theorem mem_of_isWidth (h : isWidth minIntBits maxIntBits width = true) :
    width ∈ [8, 16, 32, 64] := by
  have hsmall : ∀ k : Fin 65, isWidth minIntBits maxIntBits (.ofNat k) = true →
      UInt32.ofNat k ∈ [8, 16, 32, 64] := by
    decide +kernel
  have hle : width ≤ 64 := of_decide_eq_true (Bool.and_eq_true_iff.mp h).2
  have hmem := hsmall ⟨width.toNat, Nat.lt_succ_of_le (UInt32.le_iff_toNat_le.mp hle)⟩
  rw [UInt32.ofNat_toNat] at hmem
  exact hmem h

def intDesc (signed : Bool) (width : UInt32) : TypeDesc := if signed then .sint width else .uint width

/-- An integer type always has a form. -/
theorem isSome_requireType_int {id : ResultId}
    (h : asm.types.ofId? id = some (intDesc signed width)) (inst : Instruction) (s : Lowering) :
    ((requireType asm inst id).run.run s).1.isSome = true := by
  have hlower : ((lowerType asm id).run.run s).1.isSome = true := by
    have hget : ∀ f : Lowering → Attempt ModuleId, (get >>= f).run.run s = (f s).run.run s := fun _ => rfl
    rw [lowerType, lowerTypeAt, hget, h]
    cases s.typeIds.get? id <;> cases signed <;> rfl
  rw [requireType, OptionT.run_orElse, Option.elimM, StateT.run_bind]
  revert hlower
  rcases (lowerType asm id).run.run s with ⟨_ | n, s'⟩
  · exact fun h => by cases h
  · exact fun _ => rfl

variable {lit : Instruction}

theorem constantOf?_int (hop : lit.opcode = .intLit)
    (h : asm.types.ofId? lit.resultType = some (intDesc signed width)) :
    constantOf? asm lit = some (.constant, (intWords width signed lit.wide).map .literal) := by
  unfold constantOf? scalarOf?
  rw [hop, h]
  cases signed <;> rfl

theorem Module.mem_instructions {m : Module} {inst : Inst} (h : inst ∈ m.declarations) :
    inst ∈ m.instructions := by
  refine mem_instructions_of_mem_body (mem_body.mpr (.inl ?_))
  rcases List.mem_append.mp h with h | h
  · exact ⟨.types, h⟩
  · exact ⟨.constants, h⟩

/-- **Integer literals keep their value modulo the width of their type.**  The type has one of four
    widths and its constant one word or two; the lowest bits are those of the literal, and a narrow
    constant is extended by its sign or by zeros. -/
theorem intLiteral_keeps_bits {major minor : UInt8} {e : Emission}
    (hreached : Reached (fun _ => True) asm) (h : emitModule asm major minor = .ok e)
    (hfatal : e.fatal = none) {j : Nat} (hj : asm.code[j]? = some lit) (hop : lit.opcode = .intLit)
    (hdesc : asm.types.ofId? lit.resultType = some (intDesc signed width)) :
    width ∈ [8, 16, 32, 64] ∧ ∃ ws type n,
      Represents width.toNat signed (lit.operands.fst.toNat + 2 ^ 32 * lit.operands.snd.toNat) ws ∧
      (stateAt asm (j + 1)).ids.get? lit.id = some n ∧
      { op := .typeInt, result := some type,
        operands := [.literal width, .literal (if signed then 1 else 0)] } ∈
        (lowerAll asm).1.module.instructions ∧
      { op := .constant, resultType := some type, result := some n, operands := ws.map .literal } ∈
        (lowerAll asm).1.module.instructions ∧
      e.words.drop 5 = (lowerAll asm).1.module.instructions.flatMap Inst.words := by
  have hwidth : width ∈ [8, 16, 32, 64] := by
    obtain ⟨k, -, hk⟩ := Option.bind_eq_some_iff.mp hdesc
    have hvalid := hreached.registered.sized k _ hk
    cases signed <;> exact mem_of_isWidth hvalid
  obtain ⟨hpos, hle⟩ : 0 < width.toNat ∧ width.toNat ≤ 64 := by
    revert hwidth
    simp only [List.mem_cons, List.not_mem_nil, or_false]
    rintro (rfl | rfl | rfl | rfl) <;> decide
  -- The literal stands for its constant when it is lowered, and the tables do not forget it.
  have hsteps : Lowers asm (rendering asm []) := Rules.lowers (rules_sharing asm)
  have hstands : StandsForConstant asm lit (stateAt asm (j + 1)) := by
    rw [stateAt_succ hj]
    have hruns := runs_literal asm (by rw [hop]; rfl) j (stateAt asm j) fun _ => False.elim
    refine hruns.2.2 (.inr ⟨isSome_requireType_int hdesc lit _, ?_⟩)
    rw [constantOf?_int hop hdesc]
    rfl
  obtain ⟨type, op, operands, n, htype, hconstant, hn, hid⟩ := hstands
  cases (constantOf?_int hop hdesc).symm.trans hconstant
  have hlt : j < asm.code.size := Assembler.lt_size_code hj
  obtain ⟨hrecalls, hinv⟩ := hsteps.lowerAll (rules_sharing asm _) (renderings_empty asm)
    (snd_lowerAll_of_fatal_none h hfatal) hlt
  have hrepresents := represents_intWords hpos hle signed lit.wide
  rw [toNat_wide] at hrepresents
  refine ⟨hwidth, _, type, n, hrepresents, hid, ?_, ?_, ?_⟩
  · apply Module.mem_instructions
    have hrendered := hinv.rendered (hrecalls.noted htype) hdesc
    refine hinv.shares.found
      { op := .typeInt, operands := [.literal width, .literal (if signed then 1 else 0)] } type ?_ rfl
    cases signed <;> exact hrendered
  · apply Module.mem_instructions
    refine hinv.shares.found { op := .constant, resultType := some type, operands := _ } n
      (hrecalls.module.constants hn) ?_
    unfold intWords
    split_ifs <;> rfl
  · rw [(words_of_fatal_none h hfatal).1, Module.drop_words]

def narrowLiteralText : String :=
  "%1 = TYPE_INT_SIGN [8, 0, 0] (%0, %0, %0) : %0\n" ++
  "%2 = VALUE_LIT_INT [456, 0, 0] (%0, %0, %0) : %1\n"

/-- The low eight bits of 456 are those of -56. -/
theorem intLiteral_keeps_bits_narrowLiteralText :
    ∃ asm e, Listing.parse narrowLiteralText = .ok asm ∧
    emitModule asm 1 5 = .ok e ∧ e.isClean = true ∧ e.words.drop 12 = [262165, 1, 8, 1, 262187, 1,
      2, 4294967240] ∧
    ∃ ws type n, Represents 8 true 456 ws ∧
      { op := .constant, resultType := some type, result := some n, operands := ws.map .literal } ∈
        (lowerAll asm).1.module.instructions := by
  obtain ⟨asm, hparse, hrun, hlit, htype⟩ : ∃ asm, Listing.parse narrowLiteralText = .ok asm ∧
      ((emitModule asm 1 5).toOption.map fun e => (e.isClean, e.words.drop 12)) =
        some (true, [262165, 1, 8, 1, 262187, 1, 2, 4294967240]) ∧
      asm.code[1]? = some { opcode := .intLit, id := ⟨2⟩, operands := ⟨456, 0, 0⟩, resultType := ⟨1⟩ } ∧
      asm.types.ofId? ⟨1⟩ = some (intDesc true 8) :=
    Listing.exists_of_any_ok (by decide +kernel)
  obtain ⟨e, h, hrun⟩ := exists_emission hrun
  obtain ⟨hclean, hwords⟩ := Prod.mk.inj hrun
  obtain ⟨-, ws, type, n, hrep, -, -, hn, -⟩ :=
    intLiteral_keeps_bits (.parsed hparse) h (fatal_of_isClean hclean) hlit rfl htype
  exact ⟨asm, e, hparse, h, hclean, hwords, ws, type, n, hrep, hn⟩

end ShaderIR.Spirv
