import ShaderIR.Proofs.Assembler.UseCounts

/-!
# Dead code removal drops exactly the dead code

What is dead is said on the stream, without counts and tables: the least set of ids whose
definitions may be dropped and whose slots all lie in instructions removed with ids of the set.
`flatten` drops just these instructions, and renames the rest in the only way that keeps their order
and leaves no gap.
-/

namespace ShaderIR

variable {asm : Assembler} {id : ResultId} {a : ResultId} {i : Nat}

theorem Opcode.trailer_of_isPure {op t : Opcode} (hpure : op.isPure = true)
    (ht : op.trailer? = some t) : t = .constructArg ∨ t = .arrayElem := by
  cases op <;> simp_all [Opcode.trailer?] <;> cases hpure

namespace Assembler

/-! ## What is dead -/

/-- Position `j` belongs to the run of trailers directly after position `i`, which is at most as
long as the first operand there says. -/
def TrailsAfter (asm : Assembler) (i j : Nat) : Prop :=
  ∃ header trailer, asm.code[i]? = some header ∧ header.opcode.trailer? = some trailer ∧
    i < j ∧ j ≤ i + header.operands.fst.toNat ∧
    ∀ k, i < k → k ≤ j → ∃ inst, asm.code[k]? = some inst ∧ inst.opcode = trailer

def RemovedWith (asm : Assembler) (id : ResultId) (j : Nat) : Prop :=
  ∃ i, asm.DefinesAt i id ∧ (j = i ∨ asm.TrailsAfter i j)

/-- A set of ids that contains every allocated id that is defined by pure instructions only, if at
    all, and held only by slots of instructions removed with ids of the set. -/
def DeathClosed (asm : Assembler) (D : ResultId → Prop) : Prop :=
  ∀ id, asm.isAllocated id = true →
    (∀ i inst, asm.DefinesAt i id → asm.code[i]? = some inst → inst.opcode.isPure = true) →
    (∀ j inst, asm.code[j]? = some inst → id ∈ inst.slots → ∃ d, D d ∧ asm.RemovedWith d j) → D id

/-- The least set of ids closed under dying. -/
def IsDead (asm : Assembler) (id : ResultId) : Prop := ∀ D, asm.DeathClosed D → D id

def IsRemoved (asm : Assembler) (j : Nat) : Prop := ∃ id, asm.IsDead id ∧ asm.RemovedWith id j

open Classical in
noncomputable def survivingCode (asm : Assembler) : List Instruction :=
  (asm.code.toList.zipIdx.filter fun e => ¬ asm.IsRemoved e.2).map (·.1)

def IsLive (asm : Assembler) (id : ResultId) : Prop := asm.isAllocated id = true ∧ ¬ asm.IsDead id

/-- A strictly increasing bijection from the live ids onto `1..n` that leaves void alone. -/
structure IsDenseRenaming (asm : Assembler) (n : Nat) (f : ResultId → ResultId) : Prop where
  void : f .void = .void
  increasing : ∀ a b, asm.IsLive a → asm.IsLive b → a.index < b.index → (f a).index < (f b).index
  range : ∀ a, asm.IsLive a → 1 ≤ (f a).index ∧ (f a).index ≤ n
  onto : ∀ k, 1 ≤ k → k ≤ n → ∃ a, asm.IsLive a ∧ f a = ⟨k⟩

theorem IsDenseRenaming.unique {n : Nat} {f g : ResultId → ResultId}
    (hf : asm.IsDenseRenaming n f) (hg : asm.IsDenseRenaming n g) (ha : asm.IsLive a) :
    f a = g a := by
  -- At the first id where two of them differ, the smaller image is taken by an earlier id already.
  have hstep : ∀ {f g : ResultId → ResultId}, asm.IsDenseRenaming n f → asm.IsDenseRenaming n g →
      ∀ a, asm.IsLive a → (∀ b, asm.IsLive b → b.index < a.index → f b = g b) →
      ¬ (f a).index < (g a).index := by
    intro f g hf hg a ha hbelow hlt
    obtain ⟨hge, hle⟩ := hf.range a ha
    obtain ⟨b, hb, hgb⟩ := hg.onto (f a).index hge hle
    have hba : b.index < a.index := by
      rcases Nat.lt_trichotomy b.index a.index with h | h | h
      · exact h
      · rw [ResultId.ext_index h] at hgb
        rw [hgb] at hlt
        exact absurd hlt (Nat.lt_irrefl _)
      · have := hg.increasing a b ha hb h
        rw [hgb] at this
        exact absurd hlt (Nat.not_lt_of_gt this)
    have hfb := hf.increasing b a hb ha hba
    rw [hbelow b hb hba, hgb] at hfb
    exact Nat.lt_irrefl _ hfb
  induction hn : a.index using Nat.strongRecOn generalizing a with
  | ind k ih =>
    -- Below `a` the two agree, so neither image of `a` can be the smaller one.
    have hbelow : ∀ b, asm.IsLive b → b.index < a.index → f b = g b :=
      fun b hb hlt => ih b.index (hn ▸ hlt) hb rfl
    refine ResultId.ext_index (Nat.le_antisymm ?_ ?_)
    · exact Nat.le_of_not_lt (hstep hg hf a ha fun b hb hlt => (hbelow b hb hlt).symm)
    · exact Nat.le_of_not_lt (hstep hf hg a ha hbelow)

/-! ## The search finds what is dead -/

theorem le_length_takeWhile_iff {α : Type} {p : α → Bool} {l : List α} {n : Nat} :
    n ≤ (l.takeWhile p).length ↔ ∀ m, m < n → ∃ v, l[m]? = some v ∧ p v = true := by
  cases n with
  | zero => exact ⟨fun _ m hm => (by cases hm), fun _ => Nat.zero_le _⟩
  | succ n =>
    rw [List.takeWhile_eq_take_findIdx_not, List.length_take,
      Nat.min_eq_left List.findIdx_le_length, Nat.succ_le_iff, List.lt_findIdx_iff]
    simp only [List.getElem?_eq_some_iff, Bool.not_eq_false']
    constructor
    · rintro ⟨hn, hp⟩ m hm
      exact ⟨_, ⟨by omega, rfl⟩, hp m (by omega)⟩
    · intro h
      obtain ⟨_, ⟨hn, -⟩, -⟩ := h n (by omega)
      refine ⟨hn, fun m hm => ?_⟩
      obtain ⟨_, ⟨_, rfl⟩, hp⟩ := h m (by omega)
      exact hp

theorem getElem?_window (asm : Assembler) (i c m : Nat) :
    (asm.code.extract (i + 1) (i + 1 + c)).toList[m]? =
      if m < c then asm.code[i + 1 + m]? else none := by
  rw [Array.getElem?_toList, Array.getElem?_extract]
  by_cases hlt : m < c
  · rw [if_pos hlt]
    split
    · rfl
    · exact (Array.getElem?_eq_none_iff.mpr (by omega)).symm
  · rw [if_neg hlt, if_neg (by omega)]

variable {t : Opcode}

theorem le_length_trailersAfter_iff {n c : Nat} : n ≤ (asm.trailersAfter i t c).length ↔
      n ≤ c ∧ ∀ k, i < k → k ≤ i + n → ∃ inst, asm.code[k]? = some inst ∧ inst.opcode = t := by
  rw [trailersAfter, le_length_takeWhile_iff]
  simp only [getElem?_window, decide_eq_true_eq]
  constructor
  · intro h
    have hle : n ≤ c := by
      rcases Nat.lt_or_ge c n with hlt | hge
      · obtain ⟨v, hv, -⟩ := h c hlt
        rw [if_neg (Nat.lt_irrefl c)] at hv
        cases hv
      · exact hge
    refine ⟨hle, fun k hik hkn => ?_⟩
    obtain ⟨v, hv, hop⟩ := h (k - (i + 1)) (by omega)
    rw [if_pos (by omega), show i + 1 + (k - (i + 1)) = k from by omega] at hv
    exact ⟨v, hv, hop⟩
  · rintro ⟨hle, h⟩ m hm
    rw [if_pos (by omega)]
    exact h (i + 1 + m) (by omega) (by omega)

theorem getElem?_trailersAfter {c m : Nat} (h : m < (asm.trailersAfter i t c).length) :
    (asm.trailersAfter i t c)[m]? = asm.code[i + 1 + m]? := by
  have hlt : m < c := (le_length_trailersAfter_iff.mp h).1
  have hwindow := List.prefix_iff_getElem?.mp (List.takeWhile_prefix _) m h
  rw [getElem?_window, if_pos hlt] at hwindow
  rw [hwindow]
  exact List.getElem?_eq_getElem h

theorem exists_of_mem_trailersAfter {c : Nat} {x : Instruction} (hx : x ∈ asm.trailersAfter i t c) :
    ∃ j, asm.code[j]? = some x ∧ i < j ∧ j ≤ i + c ∧
      ∀ k, i < k → k ≤ j → ∃ inst, asm.code[k]? = some inst ∧ inst.opcode = t := by
  obtain ⟨m, hm⟩ := List.mem_iff_getElem?.mp hx
  have hlt := (List.getElem?_eq_some_iff.mp hm).1
  obtain ⟨hle, hrun⟩ := le_length_trailersAfter_iff.mp hlt
  rw [getElem?_trailersAfter hlt] at hm
  exact ⟨i + 1 + m, hm, by omega, by omega, fun k hik hkm => hrun k hik (by omega)⟩

section

variable {asm : Assembler}

theorem definition?_eq_some_iff (hsound : asm.DefinitionsSound)
    (hcomplete : asm.DefinitionsComplete) (hsingle : asm.SinglyDefined) :
    asm.definition? id = some i ↔ asm.DefinesAt i id := by
  refine ⟨hsound id i, fun hat => ?_⟩
  obtain ⟨j, hj⟩ := hcomplete i id hat
  rw [hj, hsingle j i id (hsound id j hj) hat]

variable (hdef : ∀ id i, asm.definition? id = some i ↔ asm.DefinesAt i id)
include hdef

theorem mayDrop_iff : asm.mayDrop id = true ↔
      ∀ i inst, asm.DefinesAt i id → asm.code[i]? = some inst → inst.opcode.isPure = true := by
  rw [mayDrop, definingInstruction?]
  cases hd : asm.definition? id with
  | none =>
    refine ⟨fun _ i inst hat => ?_, fun _ => rfl⟩
    rw [← hdef, hd] at hat
    cases hat
  | some i =>
    obtain ⟨-, inst, hinst, -⟩ := (hdef id i).mp hd
    rw [Option.bind_some, hinst, Option.all_some]
    constructor
    · intro hpure j x hat hx
      rw [← hdef, hd, Option.some.injEq] at hat
      rw [← hat, hinst, Option.some.injEq] at hx
      rw [← hx]
      exact hpure
    · exact fun h => h i inst ((hdef id i).mp hd) hinst

theorem mem_doomed_iff {j : Nat} : j ∈ Sweep.doomed asm id ↔ asm.RemovedWith id j := by
  rw [Sweep.doomed]
  cases hd : asm.definition? id with
  | none =>
    refine ⟨fun h => absurd h List.not_mem_nil, ?_⟩
    rintro ⟨i, hat, -⟩
    rw [← hdef, hd] at hat
    cases hat
  | some i =>
    have hat := (hdef id i).mp hd
    have honly : ∀ k, asm.DefinesAt k id → k = i := by
      intro k hk
      rw [← hdef, hd, Option.some.injEq] at hk
      exact hk.symm
    obtain ⟨-, header, hheader, -⟩ := hat
    simp only [hheader, List.mem_map, List.mem_range]
    cases htrailer : header.opcode.trailer? with
    | none =>
      -- Without trailers only the definition itself goes.
      constructor
      · rintro ⟨k, hk, rfl⟩
        have hzero : k < 0 + 1 := hk
        exact ⟨i, (hdef id i).mp hd, .inl (by omega)⟩
      · rintro ⟨k, hk, hj⟩
        rw [honly k hk] at hj
        rcases hj with rfl | ⟨x, t, hx, ht, -⟩
        · exact ⟨0, by omega, rfl⟩
        · rw [hheader, Option.some.injEq] at hx
          rw [← hx, htrailer] at ht
          cases ht
    | some t =>
      -- Position `i + k` goes if `k` is at most the length of the run of trailers.
      constructor
      · rintro ⟨k, hk, rfl⟩
        refine ⟨i, (hdef id i).mp hd, ?_⟩
        rcases Nat.eq_zero_or_pos k with rfl | hpos
        · exact .inl rfl
        · obtain ⟨hle, hrun⟩ := le_length_trailersAfter_iff.mp (Nat.le_of_lt_succ hk)
          exact .inr ⟨header, t, hheader, htrailer, by omega, by omega, hrun⟩
      · rintro ⟨k, hk, hj⟩
        rw [honly k hk] at hj
        rcases hj with rfl | ⟨x, t', hx, ht, hlt, hle, hrun⟩
        · exact ⟨0, by omega, rfl⟩
        · rw [hheader, Option.some.injEq] at hx
          subst hx
          rw [htrailer, Option.some.injEq] at ht
          subst ht
          refine ⟨j - i, Nat.lt_succ_of_le (le_length_trailersAfter_iff.mpr ⟨by omega, ?_⟩), by omega⟩
          intro k hk hkj
          exact hrun k hk (by omega)

theorem dyingClosed_iff {D : ResultId → Prop} : asm.DyingClosed D ↔ asm.DeathClosed D := by
  simp only [DyingClosed, DeathClosed, mayDrop_iff hdef, mem_doomed_iff hdef]

omit hdef in
theorem marked_sweep_iff_isDead (h : Exact asm)
    (hdef : ∀ id i, asm.definition? id = some i ↔ asm.DefinesAt i id) :
    asm.sweep.marked id = true ↔ asm.IsDead id := by
  constructor
  · exact fun hm D hD => marked_sweep_least h ((dyingClosed_iff hdef).mpr hD) hm
  · exact fun hdead => hdead _ ((dyingClosed_iff hdef).mp (dyingClosed_sweep h))

end

/-! ## What is left -/

/-- Counts are right, every id in the stream is void or allocated, and none is defined twice. -/
structure Accounted (asm : Assembler) : Prop where
  counts : ∀ id, asm.isAllocated id = true → asm.useCount id = asm.slotCount id
  allocated : ∀ inst ∈ asm.code.toList, ∀ r, r = inst.id ∨ r ∈ inst.slots →
    r.isVoid = true ∨ asm.isAllocated r = true
  single : asm.SinglyDefined

theorem Accounted.of_checks
    (hcounts : ∀ k, k < asm.ids.size → asm.useCount ⟨k⟩ = asm.slotCount ⟨k⟩ ∨ k = 0)
    (hallocated : ∀ inst ∈ asm.code.toList, ∀ r ∈ inst.id :: inst.slots,
      r.isVoid = true ∨ asm.isAllocated r = true)
    (hsingle : asm.code.toList.Pairwise fun a b => a.id = b.id → a.id.index = 0) :
    asm.Accounted where
  counts id hid := by
    obtain ⟨hz, hlt⟩ := isAllocated_iff.mp hid
    exact (hcounts id.index hlt).resolve_right hz
  allocated inst hinst r hr := hallocated inst hinst r (List.mem_cons.mpr hr)
  single := single_of_pairwise hsingle

theorem Accounted.exact (h : asm.Accounted) (hpos : 0 < asm.ids.size) : Exact asm where
  nonempty := hpos
  known := by
    intro inst hinst r hr
    rcases h.allocated inst hinst r (.inr hr) with hv | ha
    · rw [ResultId.isVoid_iff.mp hv]
      exact hpos
    · exact (isAllocated_iff.mp ha).2
  useCount_eq := h.counts

/-- What `flatten` asks of a stream: counts are right, every id in it is void or allocated, no id is
defined twice, and what trails after a pure header defines nothing. -/
structure Consistent (asm : Assembler) : Prop extends Accounted asm where
  trailers : asm.VoidTrailers

/-- `after` is `asm` without its dead code, renamed by `f`, which numbers the live ids `1..n`. -/
structure FlattensTo (asm after : Assembler) (n : Nat) (f : ResultId → ResultId) : Prop where
  dense : asm.IsDenseRenaming n f
  allocated : ∀ id, after.isAllocated id = true ↔ 1 ≤ id.index ∧ id.index ≤ n
  code : after.code.toList = asm.survivingCode.map (Instruction.rename f)
  live : ∀ inst ∈ asm.survivingCode, ∀ r, r = inst.id ∨ r ∈ inst.slots → r.isVoid = false →
    asm.IsLive r ∧ (f r).isVoid = false
  resolved : ∀ inst ∈ asm.survivingCode, ∀ r ∈ inst.slots, r.isVoid = false →
    after.opcodeOf (f r) = asm.opcodeOf r ∧
      after.definingInstruction? (f r) = (asm.definingInstruction? r).map (Instruction.rename f)

section

variable {asm : Assembler}

theorem Consistent.exact (h : asm.Consistent) (hpos : 0 < asm.ids.size) : Exact asm :=
  h.toAccounted.exact hpos

variable (hexact : Exact asm) (hdef : ∀ id i, asm.definition? id = some i ↔ asm.DefinesAt i id)

include hexact hdef

theorem isLive_iff_kept : asm.IsLive id ↔ id.index ≠ 0 ∧ asm.Kept id := by
  rw [IsLive, Kept, isAllocated_iff, ← marked_sweep_iff_isDead hexact hdef, Bool.not_eq_true, and_assoc]

theorem flagged_removed_iff_isRemoved {j : Nat} :
    flagged asm.sweep.removed j = true ↔ asm.IsRemoved j := by
  simp only [flagged_removed_sweep hexact, IsRemoved, marked_sweep_iff_isDead hexact hdef, mem_doomed_iff hdef]

theorem survivingCode_eq : asm.survivingCode = survivors asm.sweep.removed asm.code := by
  rw [survivingCode, survivors]
  refine congrArg _ (List.filter_congr fun e _ => ?_)
  rw [← flagged_removed_iff_isRemoved hexact hdef]
  cases flagged asm.sweep.removed e.2 <;> simp

theorem isDenseRenaming_newId : asm.IsDenseRenaming (asm.flatten.2.ids.size - 1) asm.newId where
  void := newId_void asm
  increasing := by
    intro a b ha hb hlt
    rw [isLive_iff_kept hexact hdef] at ha hb
    exact newId_lt_newId ha.2 hb.2 hlt
  range := by
    intro a ha
    rw [isLive_iff_kept hexact hdef] at ha
    have hne := newId_ne_zero ha.2 ha.1
    have hlt := newId_lt_size ha.2
    omega
  onto := by
    intro k hge hle
    have hlt : (ResultId.mk k).index < asm.flatten.2.ids.size := by change k < _; omega
    obtain ⟨a, ha, hk⟩ := exists_newId_eq hlt
    refine ⟨a, (isLive_iff_kept hexact hdef).mpr ⟨fun hz => ?_, ha⟩, hk⟩
    rw [ResultId.eq_void hz, newId_void asm] at hk
    cases hk
    omega

theorem kept_of_mem_survivors (hids : ∀ inst ∈ asm.code.toList, inst.id.isVoid = true ∨
    asm.isAllocated inst.id = true) {inst : Instruction}
    (hinst : inst ∈ survivors asm.sweep.removed asm.code) {r : ResultId}
    (hr : r = inst.id ∨ r ∈ inst.slots) : asm.Kept r := by
  rcases hr with rfl | hr
  · -- If the id of an instruction were marked, the instruction would have gone with it.
    obtain ⟨i, hi, hleft⟩ := mem_survivors.mp hinst
    rcases hids inst (mem_code hi) with hv | ha
    · rw [ResultId.eq_void (ResultId.isVoid_iff.mp hv)]
      exact kept_void hexact.nonempty
    · obtain ⟨hz, hlt⟩ := isAllocated_iff.mp ha
      refine ⟨hlt, Bool.eq_false_iff.mpr fun hm => ?_⟩
      have hgone : flagged asm.sweep.removed i = true :=
        (flagged_removed_sweep hexact i).mpr
          ⟨inst.id, hm, (mem_doomed_iff hdef).mpr ⟨i, ⟨hz, inst, hi, rfl⟩, .inl rfl⟩⟩
      rw [hleft] at hgone
      cases hgone
  · exact kept_of_mem_slots hexact hinst hr

theorem mem_survivors_of_definesAt (htrailers : asm.VoidTrailers)
    (ha : asm.Kept a) (hat : asm.DefinesAt i a) {inst : Instruction}
    (hinst : asm.code[i]? = some inst) : inst ∈ survivors asm.sweep.removed asm.code := by
  refine mem_survivors.mpr ⟨i, hinst, Bool.eq_false_iff.mpr fun hgone => ?_⟩
  obtain ⟨d, hmarked, hdoomed⟩ := (flagged_removed_sweep hexact i).mp hgone
  obtain ⟨hz, x, hx, hid⟩ := hat
  rw [hinst, Option.some.injEq] at hx
  subst hx
  obtain ⟨k, hdk, hki⟩ := (mem_doomed_iff hdef).mp hdoomed
  rcases hki with rfl | ⟨header, t, hheader, ht, hlt, -, hrun⟩
  · -- Removed as the definition of a dead id: but its id is kept.
    obtain ⟨-, x, hx, rfl⟩ := hdk
    rw [hinst, Option.some.injEq] at hx
    rw [← hx, hid, ha.2] at hmarked
    cases hmarked
  · -- Removed as a trailer of a pure header: but such a trailer defines nothing.
    obtain ⟨total, hsound⟩ := sound_sweep hexact
    have halloc := hsound.isAllocated_of_marked hmarked
    have hpure := (mayDrop_iff hdef).mp ((marked_sweep_iff hexact halloc).mp hmarked).1 k header hdk hheader
    obtain ⟨x, hx, hop⟩ := hrun i hlt (Nat.le_refl i)
    rw [hinst, Option.some.injEq] at hx
    subst hx
    have hvoid := htrailers inst (mem_code hinst)
      (hop ▸ Opcode.trailer_of_isPure hpure ht)
    rw [hid, ResultId.isVoid_iff] at hvoid
    exact hz hvoid

omit hdef in
theorem opcodeOf_flatten (ha : asm.Kept a) (hz : a.index ≠ 0) :
    asm.flatten.2.opcodeOf (asm.newId a) = asm.opcodeOf a := by
  obtain ⟨total, hsound⟩ := sound_sweep hexact
  obtain ⟨e, d, he, hd, -⟩ := getElem?_ids_flatten ha hz
  have hentries := congrArg (Option.map Prod.fst) (hsound.entries a.index)
  rw [he, Option.map_map, Option.map_map] at hentries
  have hne := newId_ne_zero ha hz
  simp only [opcodeOf, ResultId.isVoid_eq_false.mpr hne, ResultId.isVoid_eq_false.mpr hz,
    Bool.false_eq_true, if_false, hd]
  rw [show asm.ids[a.index]?.map (·.opcode) = some e.opcode from hentries.symm]
  rfl

theorem definingInstruction?_flatten (hids : ∀ inst ∈ asm.code.toList, inst.id.isVoid = true ∨
      asm.isAllocated inst.id = true) (htrailers : asm.VoidTrailers)
    (ha : asm.Kept a) (hz : a.index ≠ 0) : asm.flatten.2.definingInstruction? (asm.newId a)
      = (asm.definingInstruction? a).map (Instruction.rename asm.newId) := by
  obtain ⟨e, d, -, hd, hin⟩ := getElem?_ids_flatten ha hz
  have hdefinition : asm.flatten.2.definition? (asm.newId a) = d := by
    rw [definition?, hd]
    rfl
  rw [definingInstruction?, hdefinition, definingInstruction?]
  cases d with
  | some j =>
    -- What the new table points to is the image of one instruction, and that one defined the id.
    obtain ⟨inst', hinst', hid⟩ := hin
    have hmem := List.mem_of_getElem? hinst'
    rw [code_flatten asm, List.mem_map] at hmem
    obtain ⟨inst, hinst, rfl⟩ := hmem
    have hkept := kept_of_mem_survivors hexact hdef hids hinst (.inl rfl)
    have hsame : inst.id = a := newId_inj hkept ha (ResultId.ext_index hid)
    obtain ⟨i, hi, -⟩ := mem_survivors.mp hinst
    rw [(hdef a i).mpr ⟨hz, inst, hi, hsame⟩, Option.bind_some, Option.bind_some, hi,
      ← Array.getElem?_toList, hinst']
    rfl
  | none =>
    cases hold : asm.definition? a with
    | none => rfl
    | some i =>
      -- A definition from before would be left, and the new table would have found it.
      obtain ⟨-, inst, hinst, hid⟩ := (hdef a i).mp hold
      have hat : asm.DefinesAt i a := ⟨hz, inst, hinst, hid⟩
      have hleft := mem_survivors_of_definesAt hexact hdef htrailers ha hat hinst
      have hmem : inst.rename asm.newId ∈ asm.flatten.2.code.toList := by
        rw [code_flatten asm]
        exact List.mem_map_of_mem hleft
      exact absurd (by rw [Instruction.id_rename, hid]) (hin _ hmem)

end

/-! ## Whole runs -/

theorem ids_nonempty_of_reached {ok : Appended → Prop}
    (hok : ∀ x : Appended, x.RefsKnown → x.IdKnown → ok x) (h : Reached ok asm) :
    0 < asm.ids.size := by
  refine h.invariant (I := fun a => 0 < a.ids.size) hok (by decide) ?_ ?_ ?_
  · intro a b hb ha
    refine hb.preserves (I := fun a => 0 < a.ids.size) (fun a b _ hids h => ?_)
      (fun a op _ => ?_) (fun a inst _ h => ?_) ha
    · rw [hids]
      exact h
    · rw [ids_create, Array.size_push]
      exact Nat.succ_pos _
    · rw [size_ids_push]
      exact h
  · intro a old new ha
    rw [size_ids_replace]
    exact ha
  · intro a ha
    have hshape := traced_sweep a
    have hsize : a.flatten.2.ids.size = rank a.sweep.dead a.sweep.asm.ids.size :=
      size_ids_applyRenumbering hshape.void_alive (hshape.size_dead.trans hshape.size_ids.symm)
    have hlt := rank_lt_rank hshape.void_alive (show 0 < a.sweep.asm.ids.size by
      rw [hshape.size_ids]; exact ha)
    omega

/-- In every reached state that is consistent and whose table has every definition, the dead ids are
    the least set closed under dying, and `flatten` leaves the stream without them, renamed by the
    only increasing bijection from the live ids onto `1..n`. -/
theorem flatten_removes_exactly_dead_code {asm : Assembler} (hreach : Reached (fun _ => True) asm)
    (hconsistent : asm.Consistent) (hcomplete : asm.DefinitionsComplete) :
    asm.DeathClosed asm.IsDead ∧
      ∃ n f, asm.FlattensTo asm.flatten.2 n f ∧
        ∀ g, asm.IsDenseRenaming n g → ∀ a, asm.IsLive a → g a = f a := by
  have hexact := hconsistent.exact (ids_nonempty_of_reached (fun _ _ _ => trivial) hreach)
  have hdef : ∀ id i, asm.definition? id = some i ↔ asm.DefinesAt i id := fun id i =>
    definition?_eq_some_iff (definitionsSound_of_reached (fun _ _ _ => trivial) hreach) hcomplete
      hconsistent.single
  have hids : ∀ inst ∈ asm.code.toList, inst.id.isVoid = true ∨ asm.isAllocated inst.id = true :=
    fun inst hinst => hconsistent.allocated inst hinst inst.id (.inl rfl)
  have hdense := isDenseRenaming_newId hexact hdef
  refine ⟨?_, asm.flatten.2.ids.size - 1, asm.newId, ?_, fun g hg a ha => hg.unique hdense ha⟩
  · intro id hid hpure hslots D hD
    refine hD id hid hpure fun j inst hj hr => ?_
    obtain ⟨d, hdead, hremoved⟩ := hslots j inst hj hr
    exact ⟨d, hdead D hD, hremoved⟩
  · refine { dense := hdense, allocated := ?_, code := ?_, live := ?_, resolved := ?_ }
    · intro id
      rw [isAllocated_iff]
      omega
    · rw [code_flatten asm, survivingCode_eq hexact hdef]
    · intro inst hinst r hr hv
      rw [survivingCode_eq hexact hdef] at hinst
      rw [ResultId.isVoid_eq_false] at hv
      have hkept := kept_of_mem_survivors hexact hdef hids hinst hr
      exact ⟨(isLive_iff_kept hexact hdef).mpr ⟨hv, hkept⟩,
        ResultId.isVoid_eq_false.mpr (newId_ne_zero hkept hv)⟩
    · intro inst hinst r hr hv
      rw [survivingCode_eq hexact hdef] at hinst
      rw [ResultId.isVoid_eq_false] at hv
      have hkept := kept_of_mem_slots hexact hinst hr
      exact ⟨opcodeOf_flatten hexact hkept hv,
        definingInstruction?_flatten hexact hdef hids hconsistent.trailers hkept hv⟩

def unusedLiteral : Assembler :=
  Operation.runAll [.pushNew { opcode := .sintType, operands := ⟨32, 0, 0⟩ },
      .pushValue { opcode := .intLit, operands := ⟨7, 0, 0⟩ } ⟨1⟩,
      .pushValue { opcode := .intLit, operands := ⟨8, 0, 0⟩ } ⟨1⟩,
      .push { opcode := .retValue, refs := ⟨⟨3⟩, .void, .void⟩ }]

theorem consistent_unusedLiteral : unusedLiteral.Consistent := by
  have h : unusedLiteral.Accounted := .of_checks (by decide +kernel) (by decide +kernel) (by decide +kernel)
  exact ⟨h, by decide +kernel⟩

theorem flatten_removes_unused_literal :
    Reached (fun _ => True) unusedLiteral ∧ unusedLiteral.Consistent ∧
      unusedLiteral.DefinitionsComplete ∧ unusedLiteral.DeathClosed unusedLiteral.IsDead ∧
        ∃ n f, unusedLiteral.FlattensTo unusedLiteral.flatten.2 n f ∧
          ∀ g, unusedLiteral.IsDenseRenaming n g → ∀ a, unusedLiteral.IsLive a → g a = f a := by
  have hreach : Reached (fun _ => True) unusedLiteral := .runAll (by decide +kernel)
  have hcomplete : unusedLiteral.DefinitionsComplete :=
    definitionsComplete_of_reached (.runAll (by decide +kernel))
  exact ⟨hreach, consistent_unusedLiteral, hcomplete,
    flatten_removes_exactly_dead_code hreach consistent_unusedLiteral hcomplete⟩

/-- A label is defined before its id is allocated; the table forgets it. -/
def earlyLabel : Assembler :=
  Operation.runAll [.push { opcode := .label, id := ⟨1⟩ }, .create .label]

theorem code_earlyLabel : earlyLabel.code.toList = [{ opcode := .label, id := ⟨1⟩ }] := by
  decide +kernel

theorem isAllocated_earlyLabel : earlyLabel.isAllocated id = true ↔ id = ⟨1⟩ := by
  have hsize : earlyLabel.ids.size = 2 := by decide +kernel
  rw [isAllocated_iff, hsize]
  constructor
  · intro h
    exact ResultId.ext_index (show id.index = 1 by omega)
  · rintro rfl
    decide

theorem definesAt_earlyLabel : earlyLabel.DefinesAt i id ↔ i = 0 ∧ id = ⟨1⟩ := by
  rw [DefinesAt, ← Array.getElem?_toList, code_earlyLabel]
  constructor
  · rintro ⟨-, inst, hinst, rfl⟩
    cases i with
    | zero => cases hinst; exact ⟨rfl, rfl⟩
    | succ i => cases hinst
  · rintro ⟨rfl, rfl⟩
    exact ⟨by decide, _, rfl, rfl⟩

theorem consistent_earlyLabel : earlyLabel.Consistent where
  counts := by
    intro id hid
    rw [isAllocated_earlyLabel.mp hid]
    decide +kernel
  allocated := by
    intro inst hinst r hr
    rw [code_earlyLabel, List.mem_singleton] at hinst
    subst hinst
    rw [isAllocated_earlyLabel, Instruction.mem_slots] at *
    rcases hr with rfl | rfl | rfl | rfl | rfl
    · exact .inr rfl
    all_goals exact .inl rfl
  single := by
    intro i j id hi hj
    rw [(definesAt_earlyLabel.mp hi).1, (definesAt_earlyLabel.mp hj).1]
  trailers := by
    intro inst hinst hop
    rw [code_earlyLabel, List.mem_singleton] at hinst
    subst hinst
    rcases hop with hop | hop <;> cases hop

/-- Without a definition in the table a label counts as dead, and its instruction loses its id. -/
theorem flatten_misses_early_label : Reached (fun _ => True) earlyLabel ∧ earlyLabel.Consistent ∧
      ¬ ∃ n f, earlyLabel.FlattensTo earlyLabel.flatten.2 n f := by
  refine ⟨.runAll (by decide +kernel), consistent_earlyLabel, ?_⟩
  rintro ⟨n, f, h⟩
  -- A label is not pure, so the empty set is closed under dying and the id is live.
  have hclosed : earlyLabel.DeathClosed fun _ => False := by
    intro id hid hpure _
    rw [isAllocated_earlyLabel] at hid
    have hcode : earlyLabel.code[0]? = some { opcode := .label, id := ⟨1⟩ } := by
      rw [← Array.getElem?_toList, code_earlyLabel]
      rfl
    cases hpure 0 _ (definesAt_earlyLabel.mpr ⟨rfl, hid⟩) hcode
  have hlive : earlyLabel.IsLive ⟨1⟩ :=
    ⟨isAllocated_earlyLabel.mpr rfl, fun hdead => hdead _ hclosed⟩
  have hle : 1 ≤ n := Nat.le_trans (h.dense.range _ hlive).1 (h.dense.range _ hlive).2
  have hgone : earlyLabel.flatten.2.isAllocated ⟨1⟩ = false := by decide +kernel
  rw [(h.allocated ⟨1⟩).mpr ⟨Nat.le_refl 1, hle⟩] at hgone
  cases hgone

end Assembler

end ShaderIR
