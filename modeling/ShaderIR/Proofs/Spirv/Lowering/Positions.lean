import ShaderIR.Proofs.Spirv.Lowering.Traversal

/-!
# The states along a stream

The state in front of a position depends on the instructions before it alone, and **emission ends at
the first position that stops it**, or behind the last one.  What one position leaves grows up to
every later one.  The outcome is clean if and only if nothing was left out.
-/

namespace ShaderIR.Spirv

variable {asm : Assembler} {inst : Instruction} {k : Nat}

/-- The state in front of position `k`, if nothing before it stops the emission. -/
def stateAt (asm : Assembler) : Nat → Lowering
  | 0 => {}
  | k + 1 => asm.code[k]?.elim (stateAt asm k) (lowerInstruction asm k · (stateAt asm k))

theorem stateAt_succ (h : asm.code[k]? = some inst) :
    stateAt asm (k + 1) = lowerInstruction asm k inst (stateAt asm k) := by
  rw [stateAt, h, Option.elim_some]

/-- Why emission stops at position `k`, if it gets there and stops. -/
def stopAt? (asm : Assembler) (k : Nat) : Option EmissionError :=
  asm.code[k]?.bind (stopsAt? ((stateAt asm k).stage.map (·.stage)))

theorem stopAt?_of_size_le (h : asm.code.size ≤ k) : stopAt? asm k = none := by
  rw [stopAt?, Array.getElem?_eq_none h, Option.bind_none]

theorem lowerFrom_stateAt (asm : Assembler) (k : Nat) (hk : k ≤ asm.code.size) :
    (∃ j e, k ≤ j ∧ stopAt? asm j = some e ∧ (∀ i, k ≤ i → i < j → stopAt? asm i = none) ∧
        lowerFrom asm k (asm.code.toList.drop k) (stateAt asm k) = (stateAt asm j, some e)) ∨
      (∀ i, k ≤ i → stopAt? asm i = none) ∧
        lowerFrom asm k (asm.code.toList.drop k) (stateAt asm k) = (stateAt asm asm.code.size,
          none) := by
  -- The induction is on how many instructions are left.
  induction hn : asm.code.size - k generalizing k with
  | zero =>
    obtain rfl : k = asm.code.size := by omega
    refine .inr ⟨fun i hi => stopAt?_of_size_le hi, ?_⟩
    rw [← Array.length_toList, List.drop_length]
    rfl
  | succ n ih =>
    have hlt : k < asm.code.toList.length := by
      rw [Array.length_toList]
      omega
    have hinst : asm.code[k]? = some asm.code.toList[k] := by
      rw [← Array.getElem?_toList, List.getElem?_eq_getElem hlt]
    rw [List.drop_eq_getElem_cons hlt, lowerFrom]
    have hstop : stopAt? asm k = stopsAt? ((stateAt asm k).stage.map (·.stage)) asm.code.toList[k] := by
      rw [stopAt?, hinst, Option.bind_some]
    rw [← hstop]
    cases he : stopAt? asm k with
    | some e => exact .inl ⟨k, e, Nat.le_refl k, he, fun i hi hik => by omega, rfl⟩
    | none =>
      rw [← stateAt_succ hinst]
      have hfirst : ∀ i, k ≤ i → (k + 1 ≤ i → stopAt? asm i = none) → stopAt? asm i = none := by
        intro i hi hlater
        rcases Nat.eq_or_lt_of_le hi with rfl | hlt
        · exact he
        · exact hlater hlt
      rcases ih (k + 1) (by omega) (by omega) with ⟨j, e, hj, hje, hbefore, hrun⟩ | ⟨hnone, hrun⟩
      · exact .inl ⟨j, e, by omega, hje, fun i hi hij => hfirst i hi fun h => hbefore i h hij, hrun⟩
      · exact .inr ⟨fun i hi => hfirst i hi (hnone i), hrun⟩

/-- **Emission stops at the first position that stops it.** -/
theorem lowerAll_snd_eq_some_iff {e : EmissionError} :
    (lowerAll asm).2 = some e ↔ ∃ j, stopAt? asm j = some e ∧ ∀ i < j, stopAt? asm i = none := by
  rcases lowerFrom_stateAt asm 0 (Nat.zero_le _) with ⟨j, e', -, hj, hbefore, hrun⟩ | ⟨hnone, hrun⟩
  · change lowerFrom asm 0 asm.code.toList {} = _ at hrun
    have hall : (lowerAll asm).2 = some e' := by rw [lowerAll, hrun]
    rw [hall]
    constructor
    · rintro ⟨⟩
      exact ⟨j, hj, fun i => hbefore i (Nat.zero_le i)⟩
    · rintro ⟨k, hk, hfirst⟩
      -- There is one first position.
      rcases Nat.lt_trichotomy j k with hlt | rfl | hlt
      · rw [hfirst j hlt] at hj
        cases hj
      · rw [← hj, hk]
      · rw [hbefore k (Nat.zero_le k) hlt] at hk
        cases hk
  · change lowerFrom asm 0 asm.code.toList {} = _ at hrun
    have hall : (lowerAll asm).2 = none := by rw [lowerAll, hrun]
    rw [hall]
    refine ⟨nofun, ?_⟩
    rintro ⟨k, hk, -⟩
    rw [hnone k (Nat.zero_le k)] at hk
    cases hk

theorem lowerFrom_of_snd_eq_none (h : (lowerAll asm).2 = none) :
    (∀ i, stopAt? asm i = none) ∧ lowerFrom asm 0 asm.code.toList {} = (stateAt asm asm.code.size,
      none) := by
  rcases lowerFrom_stateAt asm 0 (Nat.zero_le _) with ⟨j, e, -, hj, hbefore, -⟩ | ⟨hnone, hrun⟩
  · have hstop := lowerAll_snd_eq_some_iff.mpr ⟨j, hj, fun i => hbefore i (Nat.zero_le i)⟩
    rw [h] at hstop
    cases hstop
  · exact ⟨fun i => hnone i (Nat.zero_le i), hrun⟩

theorem lowerAll_of_snd_eq_none (h : (lowerAll asm).2 = none) :
    (lowerAll asm).1 =
      ((do closeAll; writeNames asm : Lower Unit).run (stateAt asm asm.code.size)).2 := by
  rw [lowerAll, (lowerFrom_of_snd_eq_none h).2]

def Lowers (asm : Assembler) (D : Discipline Lowering) : Prop :=
  ∀ k inst s, asm.code[k]? = some inst → D.Inv s →
    D.Grows s (lowerInstruction asm k inst s) ∧ D.Inv (lowerInstruction asm k inst s)

variable {D : Discipline Lowering} {Ok : ModuleId → Lowering → Prop} {Fn : OpenFunction → Lowering →
  Prop} {j : Nat}

theorem Rules.lowers (hrules : ∀ inst, Rules asm D Ok Fn inst) : Lowers asm D := fun k inst _ _ h =>
  (hrules inst).lowerInstruction h k

namespace Lowers

theorem step_stateAt (hsteps : Lowers asm D) (h : D.Inv (stateAt asm k)) :
    D.Grows (stateAt asm k) (stateAt asm (k + 1)) ∧ D.Inv (stateAt asm (k + 1)) := by
  cases hinst : asm.code[k]? with
  | none =>
    rw [stateAt, hinst]
    exact ⟨D.refl _, h⟩
  | some inst =>
    rw [stateAt_succ hinst]
    exact hsteps k inst _ hinst h

theorem inv_stateAt (hsteps : Lowers asm D) (h : D.Inv {}) (k : Nat) : D.Inv (stateAt asm k) := by
  induction k with
  | zero => exact h
  | succ k ih => exact (hsteps.step_stateAt ih).2

theorem grows_stateAt (hsteps : Lowers asm D) (h : D.Inv {}) (hjk : j ≤ k) :
    D.Grows (stateAt asm j) (stateAt asm k) := by
  induction hjk with
  | refl => exact D.refl _
  | step _ ih => exact D.trans ih (hsteps.step_stateAt (hsteps.inv_stateAt h _)).1

theorem lowerAll (hsteps : Lowers asm D) (R : Rules asm D Ok Fn { opcode := .functionEnd })
    (h : D.Inv {}) (hfatal : (Spirv.lowerAll asm).2 = none) (hj : j ≤ asm.code.size) :
    D.Grows (stateAt asm j) (Spirv.lowerAll asm).1 ∧ D.Inv (Spirv.lowerAll asm).1 := by
  have hclosed := (R.keeps_closeAll rfl).bind (fun _ => R.keeps_writeNames) _ (hsteps.inv_stateAt h asm.code.size)
  rw [lowerAll_of_snd_eq_none hfatal]
  exact ⟨D.trans (hsteps.grows_stateAt h hj) hclosed.1, hclosed.2.1⟩

end Lowers

/-! ## What the outcome says -/

variable {major minor : UInt8} {e : Emission}

theorem emitModule_eq_ok_iff [WordLimit] :
    emitModule asm major minor = .ok e ↔ (lowerAll asm).1.offsetOverflow = false ∧
      (lowerAll asm).1.module.bound < 0x100000000 ∧
        e = (lowerAll asm).1.result (versionWord major minor) (lowerAll asm).2 := by
  unfold emitModule
  cases hend : lowerAll asm with | mk s fatal =>
  dsimp only
  cases s.offsetOverflow with
  | true => exact ⟨fun h => (nomatch h), fun h => (nomatch h.1)⟩
  | false =>
    rw [if_neg Bool.false_ne_true]
    by_cases hbound : 0x100000000 ≤ s.module.bound
    · rw [if_pos hbound]
      exact ⟨fun h => (nomatch h), fun h => absurd h.2.1 (Nat.not_lt.mpr hbound)⟩
    · rw [if_neg hbound, Except.ok.injEq]
      exact ⟨fun h => ⟨rfl, Nat.lt_of_not_le hbound, h.symm⟩, fun h => h.2.2.symm⟩

theorem exists_emission {β : Type} {f : Emission → β} {v : β}
    (h : (emitModule asm major minor).toOption.map f = some v) :
    ∃ e, emitModule asm major minor = .ok e ∧ f e = v := by
  cases he : emitModule asm major minor with
  | error e => rw [he] at h; cases h
  | ok e => rw [he] at h; exact ⟨e, rfl, Option.some.inj h⟩

theorem snd_lowerAll_of_fatal_none (h : emitModule asm major minor = .ok e)
    (hfatal : e.fatal = none) :
    (lowerAll asm).2 = none := by
  obtain ⟨-, -, rfl⟩ := emitModule_eq_ok_iff.mp h
  cases hstop : (lowerAll asm).2 with
  | some e =>
    rw [hstop] at hfatal
    cases hfatal
  | none => rfl

theorem words_of_fatal_none (h : emitModule asm major minor = .ok e) (hfatal : e.fatal = none) :
    e.words = (lowerAll asm).1.module.words (versionWord major minor) ∧
      (lowerAll asm).1.module.bound < 0x100000000 := by
  have hstop := snd_lowerAll_of_fatal_none h hfatal
  obtain ⟨-, hbound, rfl⟩ := emitModule_eq_ok_iff.mp h
  rw [hstop]
  exact ⟨rfl, hbound⟩

/-- **A clean emission**: nothing stops it, no problem is recorded, and every instruction and every
    entry point can be written. -/
theorem isClean_iff (h : emitModule asm major minor = .ok e) :
    e.isClean = true ↔ (lowerAll asm).2 = none ∧ (lowerAll asm).1.problems = #[] ∧
      (lowerAll asm).1.module.oversized = #[] ∧ (lowerAll asm).1.module.oversizedEntryPoints =
        [] := by
  obtain ⟨-, -, rfl⟩ := emitModule_eq_ok_iff.mp h
  rw [Emission.isClean, Bool.and_eq_true, List.isEmpty_iff, Option.isNone_iff_eq_none]
  cases (lowerAll asm).2 with
  | some e => exact ⟨fun h => (nomatch h.2), fun h => (nomatch h.1)⟩
  | none =>
    simp only [Lowering.result, List.append_eq_nil_iff, List.map_eq_nil_iff,
      Array.toList_eq_nil_iff, and_true, true_and]

theorem fatal_of_isClean (hclean : e.isClean = true) : e.fatal = none := by
  rw [Emission.isClean, Bool.and_eq_true] at hclean
  exact Option.isNone_iff_eq_none.mp hclean.2

end ShaderIR.Spirv
