import ShaderIR.Proofs.Pipeline.Carrying
import ShaderIR.Proofs.Spirv.Requirements.View

/-!
# Views of what is left of a stream

Instructions that are dropped leave traces in a view.  `Seen` says what the views before an
instruction have in common all the same: it speaks of the ids that stand in slots which are left,
and lets the new stream know more constants than the old one.
-/

namespace ShaderIR

open Assembler Spirv

namespace Spirv.View

variable {r : ResultId}

def isConstant (v : View) (id : ResultId) : Bool := (v.known id).getD false

theorem isConstant_setKnown (v : View) (id : ResultId) (c : Bool) (j : ResultId) :
    (v.setKnown id c).isConstant j = if j = id then c else v.isConstant j := by
  unfold isConstant setKnown
  dsimp only
  split <;> rfl

theorem isConstant_meet (v : View) (id j : ResultId) :
    (v.setKnown id (v.isConstant id)).isConstant j = v.isConstant j := by
  rw [isConstant_setKnown]
  split
  next heq => rw [heq]
  next => rfl

theorem known_setKnown (v : View) (id : ResultId) (c : Bool) (j : ResultId) :
    (v.setKnown id c).known j = if j = id then some c else v.known j := rfl

theorem known_setKnown_ne_none {v : View} {j : ResultId} (h : v.known j ≠ none) (id : ResultId)
    (c : Bool) : (v.setKnown id c).known j ≠ none := by
  rw [known_setKnown]
  split
  · exact Option.some_ne_none c
  · exact h

end Spirv.View

def Assembler.IsLiteral (asm : Assembler) (id : ResultId) : Prop :=
  ∃ (j : Nat) (x : Instruction), asm.code[j]? = some x ∧ x.opcode.isMergeable = true ∧ x.id = id

namespace Reduction

variable {a b : Assembler} (R : Reduction a b)

/-! ## What views have in common -/

/-- The views of the old and of the new stream before position `k` of the old one. -/
structure Seen (k : Nat) (v v' : View) : Prop where
  stage : v'.stage = v.stage
  /-- One function is open in both, and its body has not begun earlier than before. -/
  function : Option.Rel (fun f f' => (R.Holds f.1 → f'.1 = R.redirect f.1) ∧
    (f'.2 = true → f.2 = true)) v.function v'.function
  params : ∀ {r}, R.Holds r → v'.params.contains (R.redirect r) = v.params.contains r
  places : ∀ {r}, R.Holds r → v'.places (R.redirect r) = v.places r
  constant : ∀ {r}, R.Holds r → v.isConstant r = true → v'.isConstant (R.redirect r) = true
  /-- Literals that were passed are constants. -/
  literal : ∀ {j x}, j < k → a.code[j]? = some x → R.keep j = true → x.opcode.isMergeable = true →
    v'.isConstant (R.rename x.id) = true
  /-- Nothing but literals is met earlier than before. -/
  met : ∀ {s}, R.Lives s → v'.known (R.rename s) ≠ none → v.known s ≠ none ∨ a.IsLiteral s
  reached : ∀ {j x}, j < k → a.code[j]? = some x → x.opcode.isMergeable = true → v.known x.id ≠ none

theorem seen_empty : R.Seen 0 {} {} where
  stage := rfl
  function := .none
  params _ := rfl
  places _ := rfl
  constant _ h := by cases h
  literal h := absurd h (Nat.not_lt_zero _)
  met _ h := absurd rfl h
  reached h := absurd h (Nat.not_lt_zero _)

namespace Seen

variable {R} {k : Nat} {v v' : View} (h : R.Seen k v v')
include h

theorem isSome_function : v'.function.isSome = v.function.isSome := by
  have hrel := h.function
  generalize v.function = f at hrel
  generalize v'.function = f' at hrel
  cases hrel <;> rfl

theorem any_function (hany : v.function.any (fun f => !f.2) = true) :
    v'.function.any (fun f => !f.2) = true := by
  have hrel := h.function
  generalize v.function = f at hany hrel
  generalize v'.function = f' at hrel
  cases hrel with
  | none => cases hany
  | @some f f' hf =>
    rw [Option.any_some, Bool.not_eq_true'] at hany ⊢
    exact Bool.eq_false_iff.mpr fun htrue => Bool.eq_false_iff.mp hany (hf.2 htrue)

theorem isPlaced (hr : R.Holds r) : v'.isPlaced (R.redirect r) = v.isPlaced r := by
  unfold View.isPlaced
  rw [h.params hr, h.places hr]

theorem setKnown {id id' : ResultId} {c c' : Bool}
    (hconstant : ∀ {r}, R.Holds r → (v.setKnown id c).isConstant r = true →
      (v'.setKnown id' c').isConstant (R.redirect r) = true)
    (hliteral : ∀ {j x}, j < k → a.code[j]? = some x → R.keep j = true →
      x.opcode.isMergeable = true → (v'.setKnown id' c').isConstant (R.rename x.id) = true)
    (hmet : ∀ {s}, R.Lives s → R.rename s = id' → s = id ∨ a.IsLiteral s) :
    R.Seen k (v.setKnown id c) (v'.setKnown id' c') :=
  { h with
    constant := hconstant
    literal := hliteral
    met {s} hs hknown := by
      by_cases heq : R.rename s = id'
      · refine (hmet hs heq).imp_left fun hid => ?_
        rw [hid, View.known_setKnown, if_pos rfl]
        exact Option.some_ne_none c
      · rw [View.known_setKnown, if_neg heq] at hknown
        exact (h.met hs hknown).imp_left fun hknown => View.known_setKnown_ne_none hknown id c
    reached hj hx hmerge := View.known_setKnown_ne_none (h.reached hj hx hmerge) id c }

theorem meet {id id' : ResultId}
    (hmet : ∀ {s}, R.Lives s → R.rename s = id' → s = id ∨ a.IsLiteral s) :
    R.Seen k (v.setKnown id (v.isConstant id)) (v'.setKnown id' (v'.isConstant id')) := by
  refine h.setKnown (fun {r} hr hc => ?_) (fun hj hx hkeep hmerge => ?_) hmet
  · rw [View.isConstant_meet] at hc ⊢
    exact h.constant hr hc
  · rw [View.isConstant_meet]
    exact h.literal hj hx hkeep hmerge

theorem setKnown_left {id : ResultId} {c : Bool}
    (hconstant : R.Holds id → c = true → v'.isConstant (R.redirect id) = true) :
    R.Seen k (v.setKnown id c) v' :=
  { h with
    constant {r} hr hc := by
      rw [View.isConstant_setKnown] at hc
      split at hc
      next heq => exact heq ▸ hconstant (heq ▸ hr) hc
      next => exact h.constant hr hc
    met hs hknown := (h.met hs hknown).imp_left fun hknown => View.known_setKnown_ne_none hknown id c
    reached hj hx hmerge := View.known_setKnown_ne_none (h.reached hj hx hmerge) id c }

theorem begin : R.Seen k v.begin v' ∧ R.Seen k v.begin v'.begin := by
  have hrel := h.function
  suffices hfunction : Option.Rel _ v.begin.function v'.function ∧
      Option.Rel _ v.begin.function v'.begin.function from
    ⟨{ h with function := hfunction.1 }, { h with function := hfunction.2 }⟩
  unfold View.begin
  generalize v.function = f at hrel
  generalize v'.function = f' at hrel
  cases hrel with
  | none => exact ⟨.none, .none⟩
  | some hf => exact ⟨.some ⟨hf.1, fun _ => rfl⟩, .some ⟨hf.1, fun _ => rfl⟩⟩

theorem succ {x : Instruction} (hx : a.code[k]? = some x) (hliteral : x.opcode.isMergeable = true →
      v.known x.id ≠ none ∧ (R.keep k = true → v'.isConstant (R.rename x.id) = true)) :
    R.Seen (k + 1) v v' :=
  { h with
    literal {j y} hj hy hkeep hmerge := by
      rcases Nat.lt_succ_iff_lt_or_eq.mp hj with hj | rfl
      · exact h.literal hj hy hkeep hmerge
      · cases hx.symm.trans hy
        exact (hliteral hmerge).2 hkeep
    reached {j y} hj hy hmerge := by
      rcases Nat.lt_succ_iff_lt_or_eq.mp hj with hj | rfl
      · exact h.reached hj hy hmerge
      · cases hx.symm.trans hy
        exact (hliteral hmerge).1 }

end Seen

/-! ## Checks side by side -/

variable {α β γ δ : Type}

/-- If a check of the old stream has an outcome, so has one of the new stream. -/
def Entails (k : Nat) (v v' : View) (c : Check α) (c' : Check β)
    (Q : α → β → Prop := fun _ _ => True) : Prop :=
  R.Seen k v v' → ∀ x w, c.run v = some (x, w) → ∃ y w', c'.run v' = some (y, w') ∧ Q x y ∧ R.Seen k w w'

/-- The new stream does not need to do anything for a check of the old one. -/
class Leaves (k : Nat) (c : Check α) : Prop where
  leaves : ∀ v v' x w, R.Seen k v v' → c.run v = some (x, w) → R.Seen k w v'

variable {R} {k : Nat} {v v' : View} {c : Check α} {c' : Check β} {Q : α → β → Prop}

namespace Entails

theorem pure {x : α} {y : β} (h : Q x y) : R.Entails k v v' (Pure.pure x) (Pure.pure y) Q := by
  intro hv _ _ hc
  cases hc
  exact ⟨y, v', rfl, h, hv⟩

theorem bind {f : α → Check γ} {g : β → Check δ} {P : γ → δ → Prop} (h : R.Entails k v v' c c' Q)
    (hfg : ∀ x y w w', Q x y → R.Entails k w w' (f x) (g y) P) :
    R.Entails k v v' (c >>= f) (c' >>= g) P := by
  intro hv z u hz
  rw [StateT.run_bind] at hz
  obtain ⟨⟨x, w⟩, hc, hf⟩ := Option.bind_eq_some_iff.mp hz
  obtain ⟨y, w', hc', hq, hw⟩ := h hv x w hc
  obtain ⟨z', u', hg, hp, hu⟩ := hfg x y w w' hq hw z u hf
  refine ⟨z', u', ?_, hp, hu⟩
  rw [StateT.run_bind, hc']
  exact hg

theorem seq {f : α → Check γ} {g : β → Check δ} {P : γ → δ → Prop} (h : R.Entails k v v' c c' Q)
    (hfg : ∀ {x y w w'}, R.Entails k w w' (f x) (g y) P) :
    R.Entails k v v' (c >>= f) (c' >>= g) P :=
  h.bind fun _ _ _ _ _ => hfg

theorem get_bind {f g : View → Check γ} {P : γ → γ → Prop}
    (h : R.Seen k v v' → R.Entails k v v' (f v) (g v') P) :
    R.Entails k v v' (get >>= f) (get >>= g) P := fun hv => h hv hv

theorem guarded {p p' : Prop} [Decidable p] [Decidable p'] (h : p → p') :
    R.Entails k v v' (guard p : Check Unit) (guard p' : Check Unit) := by
  intro hv x w hc
  by_cases hp : p
  · rw [guard, if_pos hp] at hc
    cases hc
    refine ⟨(), v', ?_, trivial, hv⟩
    rw [guard, if_pos (h hp)]
    rfl
  · rw [guard, if_neg hp] at hc
    cases hc

theorem found {o : Option α} {o' : Option β} (h : ∀ x, o = some x → ∃ y, o' = some y ∧ Q x y) :
    R.Entails k v v' (Check.found o) (Check.found o') Q := by
  intro hv x w hc
  cases ho : o with
  | none => rw [ho] at hc; cases hc
  | some z =>
    rw [ho] at hc
    cases hc
    obtain ⟨y, hy, hq⟩ := h x ho
    exact ⟨y, v', by rw [hy]; rfl, hq, hv⟩

theorem found_self (o : Option α) :
    R.Entails k v v' (Check.found o) (Check.found o) fun x y => y = x :=
  found fun x hx => ⟨x, hx, rfl⟩

end Entails

namespace Leaves

theorem of_state (h : ∀ v x w, c.run v = some (x, w) → w = v) : R.Leaves k c where
  leaves v v' x w hv hc := by
    rw [h v x w hc]
    exact hv

instance pure (x : α) : R.Leaves k (Pure.pure x) := of_state fun _ _ _ hc => by cases hc; rfl

instance get : R.Leaves k (MonadState.get : Check View) := of_state fun _ _ _ hc => by cases hc; rfl

instance failure : R.Leaves k (failure : Check α) := of_state fun _ _ _ hc => by cases hc

instance found (o : Option α) : R.Leaves k (Check.found o) := by
  refine of_state fun v x w hc => ?_
  cases o with
  | none => cases hc
  | some z => cases hc; rfl

instance ite {p : Prop} [Decidable p] {d : Check α} [R.Leaves k c] [R.Leaves k d] :
    R.Leaves k (if p then c else d) := by
  split <;> infer_instance

instance guarded (p : Prop) [Decidable p] : R.Leaves k (guard p : Check Unit) := by
  unfold guard
  infer_instance

instance bind {f : α → Check γ} [h : R.Leaves k c] [g : ∀ x, R.Leaves k (f x)] :
    R.Leaves k (c >>= f) where
  leaves v v' z u hv hz := by
    rw [StateT.run_bind] at hz
    obtain ⟨⟨x, w⟩, hc, hz⟩ := Option.bind_eq_some_iff.mp hz
    exact (g x).leaves w v' z u (h.leaves v v' x w hv hc) hz

instance map {f : α → γ} [R.Leaves k c] : R.Leaves k (f <$> c) := by
  rw [map_eq_pure_bind]
  infer_instance

instance mapM {f : γ → Check α} {l : List γ} [∀ y, R.Leaves k (f y)] : R.Leaves k (l.mapM f) := by
  induction l with
  | nil => exact pure []
  | cons y rest ih =>
    rw [List.mapM_cons]
    infer_instance

theorem behind {f : α → Check γ} [hf : ∀ x, R.Leaves k (f x)] (h : R.Entails k v v' c c' Q) :
    R.Entails k v v' (c >>= f) c' := by
  intro hv z u hz
  rw [StateT.run_bind] at hz
  obtain ⟨⟨x, w⟩, hc, hz⟩ := Option.bind_eq_some_iff.mp hz
  obtain ⟨y, w', hc', -, hw⟩ := h hv x w hc
  exact ⟨y, w', hc', trivial, (hf x).leaves w w' z u hw hz⟩

end Leaves

theorem isNone_of_rel {Q : α → β → Prop} {o : Option α} {o' : Option β} (h : Option.Rel Q o o')
    (hnone : o.isNone = true) : o'.isNone = true := by
  cases h with
  | none => rfl
  | some _ => cases hnone

/-! ## Steps -/

theorem run_guard_bind {p : Prop} [Decidable p] {f : Unit → Check α} {o : α × View} :
    (guard p >>= f).run v = some o ↔ p ∧ (f ()).run v = some o := by
  by_cases hp : p
  · rw [guard, if_pos hp]
    exact (and_iff_right hp).symm
  · rw [guard, if_neg hp]
    constructor
    · intro h
      cases h
    · intro h
      exact absurd h.1 hp

theorem run_literal_eq_some {asm : Assembler} {inst : Instruction} {ok : Option Scalar → Bool}
    {w : View} {u : Unit} : (Check.literal asm inst ok).run v = some (u, w) ↔
      (asm.types.ofId? inst.resultType).isSome = true ∧
        ok (scalarOf? asm inst.resultType) = true ∧ w = v.setKnown inst.id true := by
  have hbind : (Check.bindId inst.id true).run v = some (u, w) ↔ w = v.setKnown inst.id true :=
    ⟨fun h => by cases h; rfl, fun h => by rw [h]; rfl⟩
  unfold Check.literal Check.typed
  rw [run_guard_bind, run_guard_bind, hbind]

theorem run_write_eq_some {w : View} {u : Unit} :
    Check.write.run v = some (u, w) ↔ v.function.isSome = true ∧ w = v.begin := by
  have hbegin : (modify (·.begin) : Check Unit).run v = some (u, w) ↔ w = v.begin :=
    ⟨fun h => by cases h; rfl, fun h => by rw [h]; rfl⟩
  rw [← hbegin]
  exact run_guard_bind (p := v.function.isSome = true) (f := fun _ => modify (·.begin))

theorem entails_write : R.Entails k v v' Check.write Check.write := by
  intro hv x w hc
  obtain ⟨hf, rfl⟩ := run_write_eq_some.mp hc
  exact ⟨(), v'.begin, run_write_eq_some.mpr ⟨hv.isSome_function.trans hf, rfl⟩, trivial, hv.begin.2⟩

instance leaves_write : R.Leaves k Check.write where
  leaves v v' x w hv hc := by
    obtain ⟨-, rfl⟩ := run_write_eq_some.mp hc
    exact hv.begin.1

theorem entails_writeIf {needed needed' : Bool} (h : needed' = true → needed = true) :
    R.Entails k v v' (Check.writeIf needed) (Check.writeIf needed') := by
  cases needed' with
  | true =>
    rw [h rfl]
    exact entails_write
  | false =>
    cases needed with
    | true =>
      intro hv x w hc
      exact ⟨(), v', rfl, trivial, leaves_write.leaves v v' x w hv hc⟩
    | false => exact Entails.pure trivial

theorem entails_meet (hr : R.Holds r) :
    R.Entails k v v' (Check.meet r) (Check.meet (R.redirect r)) fun c c' => c = true →
      c' = true := by
  intro hv x w hc
  cases hc
  refine ⟨_, _, rfl, hv.constant hr, hv.meet fun {s} hs heq => ?_⟩
  obtain ⟨t, ht, hlives, hstands⟩ := R.exists_standsFor hr
  have hst : s = t := (hs.rename_eq_iff hlives).mp (heq.trans ht)
  rcases hstands with rfl | ⟨i, j, y, z, -, hy, -, hyt, -, -, -, hmerge, hkey⟩
  · exact .inl hst
  · have hop : y.opcode = z.opcode := congrArg (·.1) hkey
    exact .inr ⟨i, y, hy, hop ▸ hmerge, hyt.trans hst.symm⟩

theorem entails_meetId {s : ResultId} (hs : R.Lives s) :
    R.Entails k v v' (Check.meet s) (Check.meet (R.rename s)) := by
  intro hv x w hc
  cases hc
  exact ⟨_, _, rfl, trivial, hv.meet fun ht heq => .inl ((ht.rename_eq_iff hs).mp heq)⟩

instance leaves_meet (r : ResultId) : R.Leaves k (Check.meet r) where
  leaves v v' x w hv hc := by
    cases hc
    exact hv.setKnown_left fun hr => hv.constant hr

theorem entails_isPlaced (hr : R.Holds r) :
    R.Entails k v v' (Check.isPlaced r) (Check.isPlaced (R.redirect r)) fun p p' => p' = p := by
  intro hv x w hc
  cases hc
  exact ⟨_, v', rfl, hv.isPlaced hr, hv⟩

theorem entails_takeFunction : R.Entails k v v' Check.takeFunction Check.takeFunction
    (Option.Rel fun f f' => R.Holds f → f' = R.redirect f) := by
  intro hv _ w hrun
  cases hrun
  refine ⟨_, _, rfl, ?_, { hv with function := .none }⟩
  have hrel := hv.function
  generalize v.function = f at hrel
  generalize v'.function = f' at hrel
  cases hrel with
  | none => exact .none
  | some hf => exact .some hf.1

theorem entails_setStage (stage : Option ShaderStage) :
    R.Entails k v v' (modify fun v => { v with stage }) (modify fun v => { v with stage }) := by
  intro hv _ w hrun
  cases hrun
  exact ⟨(), _, rfl, trivial, { hv with stage := rfl }⟩

/-! ### What an instruction defines -/

section

variable {x : Instruction} (ha : a.Sound) (hx : a.code[k]? = some x)
include ha hx

theorem rename_literal_ne (hi : R.keep k = true) {j : Nat} {y : Instruction} (hj : j < k)
    (hy : a.code[j]? = some y) (hkeep : R.keep j = true) (hmerge : y.opcode.isMergeable = true) :
    R.rename y.id ≠ R.rename x.id := by
  intro heq
  have hid := ((R.lives_id hy hkeep).rename_eq_iff (R.lives_id hx hi)).mp heq
  have hz := ha.index_ne_zero hy (Opcode.needsId_of_isMergeable hmerge)
  have := ha.coherent.single j k y.id ⟨hz, y, hy, rfl⟩ ⟨hz, x, hx, hid.symm⟩
  omega

section

variable (hi : R.keep k = true) (hplain : x.opcode.isMergeable = false)
include hi hplain

theorem Seen.bindId (hv : R.Seen k v v') {c c' : Bool} (hc : c = true → c' = true) :
    R.Seen k (v.setKnown x.id c) (v'.setKnown (R.rename x.id) c') := by
  refine hv.setKnown (fun {r} hr hconst => ?_) (fun {j y} hj hy hkeep hmerge => ?_)
    fun {t} ht heq => .inl ((ht.rename_eq_iff (R.lives_id hx hi)).mp heq)
  · have hiff := R.redirect_eq_rename_iff ha.coherent hx hi hplain hr
    rw [View.isConstant_setKnown] at hconst ⊢
    by_cases heq : r = x.id
    · rw [if_pos heq] at hconst
      rw [if_pos (hiff.mpr heq)]
      exact hc hconst
    · rw [if_neg heq] at hconst
      rw [if_neg (mt hiff.mp heq)]
      exact hv.constant hr hconst
  · rw [View.isConstant_setKnown, if_neg (rename_literal_ne ha hx hi hj hy hkeep hmerge)]
    exact hv.literal hj hy hkeep hmerge

theorem entails_bindId {c c' : Bool} (hc : c = true → c' = true) :
    R.Entails k v v' (Check.bindId x.id c) (Check.bindId (R.rename x.id) c') := by
  intro hv _ w hrun
  cases hrun
  exact ⟨(), _, rfl, trivial, hv.bindId ha hx hi hplain hc⟩

theorem entails_meet_bindId :
    R.Entails k v v' (Check.meet x.id) (Check.bindId (R.rename x.id) true) := by
  intro hv _ w hrun
  cases hrun
  exact ⟨(), _, rfl, trivial, hv.bindId ha hx hi hplain fun _ => rfl⟩

theorem entails_addParam :
    R.Entails k v v' (modify fun v => { v with params := v.params.insert x.id })
      (modify fun v => { v with params := v.params.insert (R.rename x.id) }) := by
  intro hv _ w hrun
  cases hrun
  refine ⟨(), _, rfl, trivial, { hv with params := fun {r} hr => ?_ }⟩
  have hiff := R.redirect_eq_rename_iff ha.coherent hx hi hplain hr
  rw [Bool.eq_iff_iff, List.contains_iff_mem, List.contains_iff_mem, List.mem_insert_iff,
    List.mem_insert_iff, hiff, ← List.contains_iff_mem, ← List.contains_iff_mem, hv.params hr]

theorem entails_setFunction :
    R.Entails k v v' (modify fun v => { v with function := some (x.id, false) })
      (modify fun v => { v with function := some (R.rename x.id, false) }) := by
  intro hv _ w hrun
  cases hrun
  refine ⟨(), _, rfl, trivial, { hv with function := .some ⟨fun hr => ?_, id⟩ }⟩
  exact ((R.redirect_eq_rename_iff ha.coherent hx hi hplain hr).mpr rfl).symm

theorem entails_setPlace :
    R.Entails k v v' (Check.setPlace x.id) (Check.setPlace (R.rename x.id)) := by
  intro hv _ w hrun
  cases hrun
  refine ⟨(), _, rfl, trivial, { hv with places := fun {r} hr => ?_ }⟩
  show (decide (R.redirect r = R.rename x.id) || v'.places (R.redirect r)) = (decide (r = x.id) || v.places r)
  rw [hv.places hr, decide_eq_decide.mpr (R.redirect_eq_rename_iff ha.coherent hx hi hplain hr)]

end

section

variable (hi : R.keep k = false) (hz : x.id.index ≠ 0) (hplain : x.opcode.isMergeable = false)
include hi hz hplain

theorem leaves_bindId (c : Bool) : R.Leaves k (Check.bindId x.id c) where
  leaves v v' _ w hv hrun := by
    cases hrun
    exact hv.setKnown_left fun hr => absurd hr (R.not_holds_of_dropped ha.coherent hx hi hplain hz)

theorem leaves_setPlace : R.Leaves k (Check.setPlace x.id) where
  leaves v v' _ w hv hrun := by
    cases hrun
    refine { hv with places := fun {r} hr => ?_ }
    have hne : r ≠ x.id := fun heq =>
      R.not_holds_of_dropped ha.coherent hx hi hplain hz (heq ▸ hr)
    show v'.places (R.redirect r) = (decide (r = x.id) || v.places r)
    rw [hv.places hr, decide_eq_false hne, Bool.false_or]

end

theorem Seen.constant_of_standsFor (hv : R.Seen k v v') (hr : R.Holds x.id) :
    R.redirect x.id = R.rename x.id ∧ R.Lives x.id ∨ v'.isConstant (R.redirect x.id) = true := by
  obtain ⟨s, hs, hlives, hstands⟩ := R.exists_standsFor hr
  rcases hstands with rfl | ⟨i, j, y, z, hij, hy, hz, hys, hzx, hsz, hxz, hmerge, hkey⟩
  · exact .inl ⟨hs, hlives⟩
  · have hjk : j = k := ha.coherent.single j k x.id ⟨hxz, z, hz, hzx⟩ ⟨hxz, x, hx, rfl⟩
    have hop : y.opcode = z.opcode := congrArg (·.1) hkey
    have hkeep : R.keep i = true := R.keep_definition hy fun h0 => hsz (hlives (hys ▸ h0))
    rw [hs, ← hys]
    exact .inr (hv.literal (hjk ▸ hij) hy hkeep (hop ▸ hmerge))

theorem Seen.bindLiteral (hv : R.Seen k v v') (hi : R.keep k = true) :
    R.Seen (k + 1) (v.setKnown x.id true) (v'.setKnown (R.rename x.id) true) := by
  have hseen : R.Seen k (v.setKnown x.id true) (v'.setKnown (R.rename x.id) true) := by
    refine hv.setKnown (fun {r} hr hconst => ?_) (fun {j y} hj hy hkeep hmerge => ?_)
      fun {t} ht heq => .inl ((ht.rename_eq_iff (R.lives_id hx hi)).mp heq)
    · rw [View.isConstant_setKnown] at hconst ⊢
      split
      · rfl
      next hne =>
        by_cases heq : r = x.id
        · subst heq
          exact (hv.constant_of_standsFor ha hx hr).resolve_left fun h => hne h.1
        · rw [if_neg heq] at hconst
          exact hv.constant hr hconst
    · rw [View.isConstant_setKnown, if_neg (rename_literal_ne ha hx hi hj hy hkeep hmerge)]
      exact hv.literal hj hy hkeep hmerge
  refine hseen.succ hx fun _ => ⟨?_, fun _ => ?_⟩
  · rw [View.known_setKnown, if_pos rfl]
    exact Option.some_ne_none true
  · rw [View.isConstant_setKnown, if_pos rfl]

theorem Seen.dropLiteral (hv : R.Seen k v v') (hi : R.keep k = false) (hz : x.id.index ≠ 0) :
    R.Seen (k + 1) (v.setKnown x.id true) v' := by
  have hseen : R.Seen k (v.setKnown x.id true) v' := hv.setKnown_left fun hr _ =>
    (hv.constant_of_standsFor ha hx hr).resolve_left fun h => R.not_lives_of_dropped hx hi hz h.2
  refine hseen.succ hx fun _ => ⟨?_, fun hkeep => ?_⟩
  · rw [View.known_setKnown, if_pos rfl]
    exact Option.some_ne_none true
  · rw [hi] at hkeep
    cases hkeep

end

end Reduction

end ShaderIR
