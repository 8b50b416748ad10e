import ShaderIR.Pipeline
import ShaderIR.Proofs.Assembler.Idempotence

/-!
# Pipelines settle

A round of merging and dead code removal leaves no two equal literals, unless a literal is typed by
a repeated one: merging then makes two literals equal that it has looked at already, and needs
another round for them.
-/

namespace ShaderIR

variable {asm : Assembler}

namespace Pipeline

/-! ## Rounds -/

/-- `passes` settle in `n` rounds: the last one reports no change, and all rounds in front of it do.
    -/
inductive Settles (passes : List Pass) : Nat → Assembler → Assembler → Prop
  | last {asm after : Assembler} : runAll passes asm = (after, false) → Settles passes 1 asm after
  | again {n : Nat} {asm mid after : Assembler} : runAll passes asm = (mid, true) →
      Settles passes n mid after → Settles passes (n + 1) asm after

variable {passes : List Pass} {asm after : Assembler}

theorem Settles.settle_eq {n rounds : Nat} (h : Settles passes n asm after) (hn : n ≤ rounds) :
    settle passes rounds asm = after := by
  induction h generalizing rounds with
  | last hrun =>
    obtain ⟨rest, rfl⟩ : ∃ rest, rounds = rest + 1 := ⟨rounds - 1, by omega⟩
    rw [settle, hrun]
    rfl
  | again hrun _ ih =>
    obtain ⟨rest, rfl⟩ : ∃ rest, rounds = rest + 1 := ⟨rounds - 1, by omega⟩
    rw [settle, hrun]
    exact ih (by omega)

theorem runAll_of_fixed (h : ∀ pass ∈ passes, pass.run asm = (asm, false)) :
    runAll passes asm = (asm, false) := by
  unfold runAll
  induction passes with
  | nil => rfl
  | cons pass rest ih =>
    rw [List.foldl_cons]
    dsimp only
    rw [h pass List.mem_cons_self]
    exact ih fun p hp => h p (List.mem_cons_of_mem _ hp)

theorem settles_of_fixed (hafter : (runAll passes asm).1 = after)
    (hfixed : ∀ pass ∈ passes, pass.run after = (after, false)) :
    ∃ n, n ≤ 2 ∧ Settles passes n asm after := by
  cases hrun : runAll passes asm with | mk mid changed =>
  obtain rfl : mid = after := by rw [← hafter, hrun]
  cases changed with
  | false => exact ⟨1, by decide, .last hrun⟩
  | true => exact ⟨2, Nat.le_refl 2, .again hrun (.last (runAll_of_fixed hfixed))⟩

end Pipeline

theorem Opcode.isPure_of_isMergeable {op : Opcode} (h : op.isMergeable = true) :
    op.isPure = true := by
  revert h
  cases op <;> decide

namespace Assembler

/-! ## No literal is repeated after a round -/

def LiteralsDiffer (asm : Assembler) : Prop :=
  ∀ (i j : Nat) (x y : Instruction), i < j → asm.code[i]? = some x → asm.code[j]? = some y →
    x.isMergeable = true → y.isMergeable = true → x.literalKey ≠ y.literalKey

theorem LiteralsDiffer.mergeLiterals_eq (h : asm.LiteralsDiffer) :
    asm.mergeLiterals = (0, asm) := by
  have hnone : repeatedLiterals {} asm.code.toList = [] := by
    rw [List.eq_nil_iff_forall_not_mem]
    intro e he
    obtain ⟨i, j, x, y, hij, hx, hy, hxe, hye, hxz, hyz, hmerge, hkey⟩ := standsFor_of_mem_repeatedLiterals he
    have hop : x.opcode = y.opcode := congrArg (·.1) hkey
    exact h i j x y hij hx hy (isMergeable_iff.mpr ⟨hxe ▸ hxz, hop ▸ hmerge⟩)
      (isMergeable_iff.mpr ⟨hye ▸ hyz, hmerge⟩) hkey
  rw [mergeLiterals, hnone]
  rfl

section

variable {asm : Assembler} (h : asm.Distinct)
include h

theorem Distinct.mergedId_eq {r : ResultId} (hr : ¬ asm.RepeatsLiteral r) : asm.mergedId r = r := by
  rcases h.standsFor_mergedId r with heq | ⟨i, j, x, y, hij, hx, hy, hxs, hyr, hs, hz, hmerge, hkey⟩
  · exact heq
  · exact absurd ⟨i, j, x, y, hij, hx, hy, hxs ▸ hs, hyr, hz, hmerge, hkey⟩ hr

theorem Distinct.exists_of_code_merged {i : Nat} {y : Instruction}
    (hy : asm.mergeLiterals.2.code[i]? = some y) :
    ∃ x, asm.code[i]? = some x ∧ y = x.mapSlots asm.mergedId := by
  rw [h.redirected_mergeLiterals.code, Array.getElem?_map, Option.map_eq_some_iff] at hy
  obtain ⟨x, hx, rfl⟩ := hy
  exact ⟨x, hx, rfl⟩

theorem Distinct.single_merged : asm.mergeLiterals.2.SinglyDefined := by
  rintro i j _ ⟨hz, y, hy, rfl⟩ ⟨-, y', hy', hid⟩
  obtain ⟨x, hx, rfl⟩ := h.exists_of_code_merged hy
  obtain ⟨x', hx', rfl⟩ := h.exists_of_code_merged hy'
  exact h.single i j x.id ⟨hz, x, hx, rfl⟩ ⟨hz, x', hx', hid⟩

theorem Distinct.trailers_merged (htrailers : asm.VoidTrailers) :
    asm.mergeLiterals.2.VoidTrailers := by
  intro inst hinst hop
  rw [h.redirected_mergeLiterals.code, Array.toList_map] at hinst
  obtain ⟨x, hx, rfl⟩ := List.mem_map.mp hinst
  exact htrailers x hx hop

theorem Distinct.newId_of_repeatsLiteral (hsound : asm.mergeLiterals.2.DefinitionsSound)
    {r : ResultId} (hr : asm.RepeatsLiteral r) : asm.mergeLiterals.2.newId r = .void := by
  have hmerged := h.redirected_mergeLiterals
  obtain ⟨i, j, x, y, hij, hx, hy, hxz, rfl, hyz, hmerge, hkey⟩ := id hr
  have hthere : asm.mergeLiterals.2.code[j]? = some (y.mapSlots asm.mergedId) := by
    rw [hmerged.code, Array.getElem?_map, hy]
    rfl
  have halloc : asm.mergeLiterals.2.isAllocated y.id = true := by
    rw [isAllocated, hmerged.size_ids]
    refine (h.allocated y (mem_code hy)).resolve_left ?_
    exact fun hv => hyz (ResultId.isVoid_iff.mp hv)
  have hdrop : asm.mergeLiterals.2.mayDrop y.id = true := by
    rw [mayDrop, definingInstruction?]
    cases hdef : asm.mergeLiterals.2.definition? y.id with
    | none => rfl
    | some k =>
      obtain rfl : k = j := h.single_merged k j y.id (hsound y.id k hdef) ⟨hyz, _, hthere, rfl⟩
      rw [Option.bind_some, hthere]
      exact Opcode.isPure_of_isMergeable hmerge
  have hdead : asm.mergeLiterals.2.sweep.marked y.id = true := by
    refine (marked_sweep_iff hmerged.exact halloc).mpr ⟨hdrop, fun inst hinst hslot => ?_⟩
    obtain ⟨k, hk, -⟩ := mem_survivors.mp hinst
    obtain ⟨z, -, rfl⟩ := h.exists_of_code_merged hk
    rw [Instruction.slots_mapSlots] at hslot
    obtain ⟨s, -, hs⟩ := List.mem_map.mp hslot
    exact h.not_repeatsLiteral_mergedId s (hs ▸ hr)
  refine Decidable.byContradiction fun hne => ?_
  have hkept := kept_of_newId fun h0 => hne (ResultId.ext_index h0)
  exact absurd (hdead.symm.trans hkept.2) (by decide)

/-- **A round leaves no repeated literal**, where no literal is typed by a repeated one. -/
theorem Distinct.literalsDiffer_flatten (hsound : asm.mergeLiterals.2.DefinitionsSound)
    (htyped : ∀ inst ∈ asm.code.toList, inst.isMergeable = true →
      ¬ asm.RepeatsLiteral inst.resultType) :
    asm.mergeLiterals.2.flatten.2.LiteralsDiffer := by
  intro i j x y hij hx hy hxgood hygood hkey
  obtain ⟨i', x', hx', hxleft, rfl, rfl⟩ := exists_of_code_flatten hx
  obtain ⟨j', y', hy', hyleft, rfl, rfl⟩ := exists_of_code_flatten hy
  rw [isMergeable_iff] at hxgood hygood
  have hexact := h.redirected_mergeLiterals.exact
  have hkept : ∀ {k : Nat} {z : Instruction}, asm.mergeLiterals.2.code[k]? = some z →
      flagged asm.mergeLiterals.2.sweep.removed k = false → asm.mergeLiterals.2.Kept z.resultType :=
    fun hz hleft => kept_of_mem_slots hexact (mem_survivors.mpr ⟨_, hz, hleft⟩)
      (Instruction.mem_slots.mpr (.inr (.inr (.inr rfl))))
  -- The types that are left have different new ids, and merging left them as they were.
  have htype : x'.resultType = y'.resultType :=
    newId_inj (hkept hx' hxleft) (hkept hy' hyleft) (congrArg (·.2.2) hkey)
  obtain ⟨a, ha, rfl⟩ := h.exists_of_code_merged hx'
  obtain ⟨b, hb, rfl⟩ := h.exists_of_code_merged hy'
  have hold : ∀ {k : Nat} {z : Instruction}, asm.code[k]? = some z → z.opcode.isMergeable = true →
      (asm.mergeLiterals.2.newId z.id).index ≠ 0 → z.id.index ≠ 0 ∧ asm.mergedId z.resultType = z.resultType := by
    intro k z hz hmerge hne
    have hid : z.id.index ≠ 0 := fun h0 => by
      rw [ResultId.eq_void h0, newId_void] at hne
      exact hne rfl
    exact ⟨hid, h.mergedId_eq (htyped z (mem_code hz)
      (isMergeable_iff.mpr ⟨hid, hmerge⟩))⟩
  obtain ⟨haz, hatype⟩ := hold ha hxgood.2 hxgood.1
  obtain ⟨hbz, hbtype⟩ := hold hb hygood.2 hygood.1
  have hsame : a.literalKey = b.literalKey :=
    Prod.ext (congrArg (·.1) hkey) (Prod.ext (congrArg (·.2.1) hkey) (hatype.symm.trans (htype.trans hbtype)))
  -- So the later one repeats the earlier one, and has lost its id.
  have hlt : i' < j' := by
    refine Nat.lt_of_not_le fun hle => ?_
    have := rank_mono asm.mergeLiterals.2.sweep.removed hle
    omega
  have hvoid := h.newId_of_repeatsLiteral hsound ⟨i', j', a, b, hlt, ha, hb, haz, rfl, hbz, hygood.2, hsame⟩
  exact hygood.1 (congrArg ResultId.index hvoid)

end

end Assembler

/-! ## Levels -/

namespace Pipeline

open Assembler

theorem run_flatten_of_eq (h : asm.flatten = (0, asm)) : Pass.flatten.run asm = (asm, false) := by
  rw [Pass.run, h]
  simp

theorem run_mergeLiterals_of_eq (h : asm.mergeLiterals = (0, asm)) :
    Pass.mergeLiterals.run asm = (asm, false) := by
  rw [Pass.run, h]
  rfl

theorem exists_fixed_ofLevel (hreach : Reached (fun _ => True) asm) (hconsistent : asm.Consistent)
    (level : OptimizeLevel)
    (htyped : level = .balanced ∨ level = .performance → ∀ inst ∈ asm.code.toList,
      inst.isMergeable = true → ¬ asm.RepeatsLiteral inst.resultType) :
    ∃ after, (runAll (ofLevel level).passes asm).1 = after ∧
      (∀ pass ∈ (ofLevel level).passes, pass.run after = (after, false)) ∧
      (level = .balanced ∨ level = .performance → after.LiteralsDiffer) := by
  have hpos := ids_nonempty_of_reached (fun _ _ _ => trivial) hreach
  have hmerging : (∀ inst ∈ asm.code.toList, inst.isMergeable = true → ¬ asm.RepeatsLiteral inst.resultType) →
      ∃ after, (runAll [.mergeLiterals, .flatten] asm).1 = after ∧
        (∀ pass ∈ [Pass.mergeLiterals, .flatten], pass.run after = (after, false)) ∧ after.LiteralsDiffer := by
    intro htyped
    have hdistinct : asm.Distinct := ⟨hconsistent.exact hpos, hconsistent.single,
      fun inst hinst => hconsistent.allocated inst hinst _ (.inl rfl)⟩
    have hmerged : Reached (fun _ => True) asm.mergeLiterals.2 := hreach.step .mergeLiterals fun _ _ => trivial
    have hsound := definitionsSound_of_reached (fun _ _ _ => trivial) hmerged
    have hdiffer := hdistinct.literalsDiffer_flatten hsound htyped
    have hflat := flatten_flatten hsound hdistinct.single_merged
      (hdistinct.trailers_merged hconsistent.trailers) hmerged.bracketed
    refine ⟨_, rfl, fun pass hpass => ?_, hdiffer⟩
    rcases List.mem_pair.mp hpass with rfl | rfl
    · exact run_mergeLiterals_of_eq hdiffer.mergeLiterals_eq
    · exact run_flatten_of_eq hflat
  cases level with
  | debug => exact ⟨asm, rfl, fun pass hpass => (nomatch hpass), fun h => (nomatch h)⟩
  | basic =>
    have hsound := definitionsSound_of_reached (fun _ _ _ => trivial) hreach
    have hflat := flatten_flatten hsound hconsistent.single hconsistent.trailers hreach.bracketed
    refine ⟨_, rfl, fun pass hpass => ?_, fun h => (nomatch h)⟩
    rw [List.mem_singleton.mp hpass]
    exact run_flatten_of_eq hflat
  | balanced =>
    obtain ⟨after, hafter, hfixed, hdiffer⟩ := hmerging (htyped (.inl rfl))
    exact ⟨after, hafter, hfixed, fun _ => hdiffer⟩
  | performance =>
    obtain ⟨after, hafter, hfixed, hdiffer⟩ := hmerging (htyped (.inr rfl))
    exact ⟨after, hafter, hfixed, fun _ => hdiffer⟩

end Pipeline

open Pipeline in
/-- **Pipelines settle.**  In every consistent state that a run reaches, in which no literal is
    typed by a repeated one where literals are merged, the passes of a level stop after at most two
    rounds, each pass leaves the outcome alone, and no two merged literals are equal. -/
theorem Reached.ofLevel_settles {asm : Assembler} (hreach : Reached (fun _ => True) asm)
    (hconsistent : asm.Consistent) (level : OptimizeLevel)
    (htyped : level = .balanced ∨ level = .performance → ∀ inst ∈ asm.code.toList,
      inst.isMergeable = true → ¬ asm.RepeatsLiteral inst.resultType) :
    (∃ n, n ≤ 2 ∧ Settles (ofLevel level).passes n asm ((ofLevel level).run asm)) ∧
      (∀ pass ∈ (ofLevel level).passes,
        pass.run ((ofLevel level).run asm) = ((ofLevel level).run asm, false)) ∧
      (level = .balanced ∨ level = .performance → ((ofLevel level).run asm).LiteralsDiffer) := by
  obtain ⟨after, hafter, hfixed, hdiffer⟩ := exists_fixed_ofLevel hreach hconsistent level htyped
  obtain ⟨n, hn, hsettles⟩ := settles_of_fixed hafter hfixed
  have hrun : (ofLevel level).run asm = after := by
    have hchecks : (ofLevel level).checks = [] := by cases level <;> rfl
    rw [Pipeline.run, hchecks]
    exact hsettles.settle_eq (Nat.le_trans hn (by decide))
  rw [hrun]
  exact ⟨⟨n, hn, hsettles⟩, hfixed, hdiffer⟩

/-- Pairs of equal literals, each typed by the pair in front of it, and a use of the last pair. -/
def literalChain (n : Nat) : Assembler :=
  Operation.runAll ((List.range (2 * n + 2)).map (fun k => .pushValue { opcode := .null } ⟨k - 1⟩) ++
    [.push { opcode := .retValue, refs := ⟨⟨2 * n + 1⟩, ⟨2 * n + 2⟩, .void⟩ }])

theorem ofLevel_settles_literalChain :
    ((Pipeline.ofLevel .balanced).run (literalChain 0)).code.size = 2 ∧
      ∃ n, n ≤ 2 ∧ Pipeline.Settles (Pipeline.ofLevel .balanced).passes n (literalChain 0)
        ((Pipeline.ofLevel .balanced).run (literalChain 0)) := by
  have haccounted : (literalChain 0).Accounted :=
    .of_checks (by decide +kernel) (by decide +kernel) (by decide +kernel)
  refine ⟨by decide +kernel, (Reached.ofLevel_settles (.runAll (by decide +kernel))
    ⟨haccounted, by decide +kernel⟩ .balanced ?_).1⟩
  intro _ inst hinst _ hrepeats
  have hnone : ∀ inst ∈ (literalChain 0).code.toList,
      inst.resultType ∉ (Assembler.repeatedLiterals {} (literalChain 0).code.toList).map (·.1) := by decide +kernel
  exact hnone inst hinst (Assembler.mem_repeatedLiterals_of_repeatsLiteral hrepeats)

/-- A long chain is not merged to its end in ten rounds. -/
theorem mergeLiterals_after_literalChain :
    Reached (fun _ => True) (literalChain 10) ∧ (literalChain 10).Consistent ∧
      (Pass.mergeLiterals.run ((Pipeline.ofLevel .balanced).run (literalChain 10))).2 = true := by
  have haccounted : (literalChain 10).Accounted :=
    .of_checks (by decide +kernel) (by decide +kernel) (by decide +kernel)
  exact ⟨.runAll (by decide +kernel),
    ⟨haccounted, by decide +kernel⟩, by decide +kernel⟩

end ShaderIR
