import ShaderIR.Proofs.Spirv.Requirements.View

/-!
# Lowerings that follow a check

A lowering **follows** a check if it ends without a problem exactly when it started without one and
the check has an outcome, and then the view of the state is the one that the check leaves.  In a
state with problems a lowering only has to keep them.
-/

namespace ShaderIR.Spirv

open Discipline Spirv.Module

variable {p : Prop} {source : Instruction} {s : Lowering} {inst : Inst} {m : Module}

/-! ## States -/

structure Lowering.Clean (s : Lowering) : Prop where
  problems : s.problems = #[]
  whole : s.module.Whole
  offsets : s.offsetOverflow = false

/-- What is known of the id that a type has in the module. -/
structure Module.Represents (m : Module) (asm : Assembler) (id : ResultId) (n : ModuleId) :
    Prop where
  isType : (asm.types.ofId? id).isSome = true
  lt : n < m.nextId
  shaped : ∀ shape, m.Shaped shape n ↔ Check.shapeOf? asm.types id = some shape

variable {constant : Bool} {v : View} {n : ModuleId}

theorem Module.Represents.grow {m' : Module} {asm : Assembler} {id : ResultId}
    (h : m.Represents asm id n) (hgrows : m.GrowsTo m') (hm : m.Tables) : m'.Represents asm id n :=
  ⟨h.isType, Nat.lt_of_lt_of_le h.lt hgrows.nextId,
    fun shape => (hgrows.shaped_iff hm h.lt).trans (h.shaped shape)⟩

/-- What the tables of a state say is so. -/
structure Lowering.Sound (asm : Assembler) (s : Lowering) : Prop where
  tables : s.module.Tables
  ids_lt : ∀ {id n}, s.ids.get? id = some n → n < s.module.nextId
  types : ∀ {id n}, s.typeIds.get? id = some n → s.module.Represents asm id n

/-- Growth without new problems. -/
def Lowering.GrowsTo (s s' : Lowering) : Prop :=
  s'.Clean → s.Clean ∧ s.module.GrowsTo s'.module

theorem Lowering.GrowsTo.refl (s : Lowering) : s.GrowsTo s := fun h => ⟨h, .refl _⟩

theorem Lowering.GrowsTo.trans {s1 s2 s3 : Lowering} (h1 : s1.GrowsTo s2) (h2 : s2.GrowsTo s3) :
    s1.GrowsTo s3 := by
  intro h
  obtain ⟨hclean2, hgrows2⟩ := h2 h
  obtain ⟨hclean1, hgrows1⟩ := h1 hclean2
  exact ⟨hclean1, hgrows1.trans hgrows2⟩

def Lowering.Stands (s : Lowering) (n : ModuleId) (constant : Bool) : Prop :=
  s.Clean → s.module.Stands n constant

theorem Lowering.Stands.grow {s s' : Lowering}
    (h : s.Stands n constant) (hgrows : s.GrowsTo s') : s'.Stands n constant := by
  intro hclean
  obtain ⟨hclean0, hgrows0⟩ := hgrows hclean
  exact (h hclean0).grow hgrows0

/-! ## Following -/

variable {asm : Assembler} {α β γ δ : Type}

/-- Run from `s`, a lowering meets no problem if and only if there was none and the check has an
    outcome; then the views agree, and `Q` holds. -/
def Follows (asm : Assembler) (x : Lower α) (s : Lowering) (c : Check β)
    (Q : α → β → Lowering → Prop := fun _ _ _ => True) : Prop :=
  (s.Clean → s.Sound asm) →
    ((x.run s).2.Clean → s.Clean ∧ (x.run s).2.Sound asm ∧ s.module.GrowsTo (x.run s).2.module ∧
      ∃ b, c.run s.view = some (b, (x.run s).2.view) ∧ Q (x.run s).1 b (x.run s).2) ∧
    (s.Clean → (c.run s.view).isSome = true → (x.run s).2.Clean)

variable {s : Lowering} {x : Lower α} {a : α} {c : Check β} {d : Check δ} {e : Unit → Check β}
  {Q : α → β → Lowering → Prop} {R : γ → δ → Lowering → Prop}

namespace Follows

variable {f : α → Lower γ}

theorem mono {R : α → β → Lowering → Prop} (h : Follows asm x s c Q)
    (hQR : ∀ a b s', s.GrowsTo s' → s'.Clean → Q a b s' → R a b s') : Follows asm x s c R := by
  intro hs
  obtain ⟨hsound, hcomplete⟩ := h hs
  refine ⟨fun hclean => ?_, hcomplete⟩
  obtain ⟨hclean0, hsound', hgrows, b, hb, hq⟩ := hsound hclean
  exact ⟨hclean0, hsound', hgrows, b, hb, hQR _ _ _ (fun _ => ⟨hclean0, hgrows⟩) hclean hq⟩

theorem congr {d : Check β} (h : Follows asm x s d Q)
    (hc : s.Clean → c.run s.view = d.run s.view) : Follows asm x s c Q := by
  intro hs
  obtain ⟨hsound, hcomplete⟩ := h hs
  refine ⟨fun hclean => ?_, fun hclean hsome => ?_⟩
  · have hcc := hc (hsound hclean).1
    rw [hcc]
    exact hsound hclean
  · rw [hc hclean] at hsome
    exact hcomplete hclean hsome

theorem pure {b : β} (h : s.Clean → Q a b s) : Follows asm (Pure.pure a) s (Pure.pure b) Q :=
  fun hs => ⟨fun hclean => ⟨hclean, hs hclean, .refl _, b, rfl, h hclean⟩, fun hclean _ => hclean⟩

theorem fails (h : ¬ (x.run s).2.Clean) : Follows asm x s (failure : Check β) Q :=
  fun _ => ⟨fun hclean => absurd hclean h, fun _ hsome => by cases hsome⟩

/-- What is known of the first answer is known in states without problems only; in the others it
    does not matter what the check goes on with. -/
theorem bind [Inhabited β] {g : β → Check δ} (hx : Follows asm x s c Q)
    (hf : ∀ a b s', s.GrowsTo s' → (s'.Clean → Q a b s') → Follows asm (f a) s' (g b) R) :
    Follows asm (x >>= f) s (c >>= g) R := by
  intro hs
  obtain ⟨hsound, hcomplete⟩ := hx hs
  show (((f (x.run s).1).run (x.run s).2).2.Clean → _ ∧ ((f (x.run s).1).run (x.run s).2).2.Sound asm ∧
      s.module.GrowsTo ((f (x.run s).1).run (x.run s).2).2.module ∧ ∃ b, _ ∧
        R ((f (x.run s).1).run (x.run s).2).1 b ((f (x.run s).1).run (x.run s).2).2) ∧
    (_ → _ → ((f (x.run s).1).run (x.run s).2).2.Clean)
  by_cases hclean' : (x.run s).2.Clean
  · obtain ⟨hclean, hsound', hgrows, b, hb, hq⟩ := hsound hclean'
    have hrun : (c >>= g).run s.view = (g b).run (x.run s).2.view := by
      rw [StateT.run_bind, hb]
      rfl
    obtain ⟨hsound2, hcomplete2⟩ :=
      hf _ b _ (fun _ => ⟨hclean, hgrows⟩) (fun _ => hq) fun _ => hsound'
    rw [hrun]
    refine ⟨fun hclean2 => ?_, fun _ hsome => hcomplete2 hclean' hsome⟩
    obtain ⟨-, hsound3, hgrows2, d, hd, hr⟩ := hsound2 hclean2
    exact ⟨hclean, hsound3, hgrows.trans hgrows2, d, hd, hr⟩
  · -- The problem is kept, and the check has no outcome.
    obtain ⟨hsound2, -⟩ := hf (x.run s).1 default (x.run s).2 (fun h => absurd h hclean')
      (fun h => absurd h hclean') fun h => absurd h hclean'
    refine ⟨fun hclean2 => absurd (hsound2 hclean2).1 hclean', fun hclean hsome => ?_⟩
    refine absurd (hcomplete hclean ?_) hclean'
    rw [StateT.run_bind] at hsome
    cases hc : c.run s.view with
    | none => rw [hc] at hsome; cases hsome
    | some r => rfl

theorem finish [Inhabited β] {R : γ → β → Lowering → Prop} (hx : Follows asm x s c Q)
    (hf : ∀ a b s', s.GrowsTo s' → (s'.Clean → Q a b s') → Follows asm (f a) s' (Pure.pure b) R) :
    Follows asm (x >>= f) s c R := by
  have hbind := hx.bind hf
  rw [bind_pure] at hbind
  exact hbind

theorem skip {Q : α → Unit → Lowering → Prop} (hx : Follows asm x s (Pure.pure ()) Q)
    (hf : ∀ a s', s.GrowsTo s' → (s'.Clean → Q a () s') → Follows asm (f a) s' d R) :
    Follows asm (x >>= f) s d R :=
  hx.bind (g := fun _ => d) fun a _ s' hgrows hq => hf a s' hgrows hq

theorem of_sound (h : (s.Clean → s.Sound asm) → Follows asm x s c Q) : Follows asm x s c Q :=
  fun hs => h hs hs

theorem get_bind {f : Lowering → Lower γ} (h : Follows asm (f s) s d R) :
    Follows asm (get >>= f) s d R := h

theorem of_run_eq {y : Lower α} (hrun : x.run s = y.run s) (h : Follows asm y s c Q) :
    Follows asm x s c Q := by
  unfold Follows at h ⊢
  rw [hrun]
  exact h

theorem read (hx : x.run s = (a, s)) (h : Follows asm (f a) s d R) :
    Follows asm (x >>= f) s d R := by
  refine of_run_eq ?_ h
  rw [StateT.run_bind, hx]
  rfl

theorem pure_bind (h : Follows asm (f a) s d R) : Follows asm (Pure.pure a >>= f) s d R := h

theorem given [Decidable p] (hp : p) (h : Follows asm x s (e ()) Q) :
    Follows asm x s (guard p >>= e) Q :=
  h.congr fun _ => by rw [guard, if_pos hp]; rfl

theorem missing [Decidable p] (hp : ¬ p) (h : ¬ (x.run s).2.Clean) :
    Follows asm x s (guard p >>= e) Q :=
  congr (fails h) fun _ => by rw [guard, if_neg hp]; rfl

theorem modify {f : Lowering → Lowering} {g : View → View} (hproblems : (f s).problems = s.problems)
    (hmodule : (f s).module = s.module) (hoffsets : (f s).offsetOverflow = s.offsetOverflow)
    (hsound : s.Clean → s.Sound asm → (f s).Sound asm) (hview : s.Clean → (f s).view = g s.view) :
    Follows asm (modify f) s (modify g) := by
  have hclean : (f s).Clean ↔ s.Clean :=
    ⟨fun h => ⟨hproblems ▸ h.1, hmodule ▸ h.2, hoffsets ▸ h.3⟩,
      fun h => ⟨hproblems ▸ h.1, hmodule ▸ h.2, hoffsets ▸ h.3⟩⟩
  refine fun hs => ⟨fun h => ?_, fun h _ => hclean.mpr h⟩
  have h0 := hclean.mp h
  refine ⟨h0, hsound h0 (hs h0), ?_, (), ?_, trivial⟩
  · show s.module.GrowsTo (f s).module
    rw [hmodule]
    exact .refl _
  · exact congrArg (fun v => some ((), v)) (hview h0).symm

end Follows

/-! ## Following where a lowering may give up -/

/-- A lowering that gives up has met a problem. -/
def FollowsT (asm : Assembler) (x : Attempt α) (s : Lowering) (c : Check β)
    (Q : α → β → Lowering → Prop := fun _ _ _ => True) : Prop :=
  Follows asm x.run s c fun o b s' => ∃ a, o = some a ∧ Q a b s'

namespace FollowsT

variable {x : Attempt α} {f : α → Attempt γ}

theorem mono {R : α → β → Lowering → Prop} (h : FollowsT asm x s c Q)
    (hQR : ∀ a b s', s.GrowsTo s' → s'.Clean → Q a b s' → R a b s') : FollowsT asm x s c R := by
  refine Follows.mono h fun o b s' hgrows hclean hq => ?_
  obtain ⟨a, ha, hq⟩ := hq
  exact ⟨a, ha, hQR a b s' hgrows hclean hq⟩

theorem weaken (h : FollowsT asm x s c Q) : FollowsT asm x s c :=
  h.mono fun _ _ _ _ _ _ => trivial

theorem forget (h : FollowsT asm x s c Q) : Follows asm x.run s c :=
  Follows.mono h fun _ _ _ _ _ _ => trivial

theorem congr {d : Check β} (h : FollowsT asm x s d Q)
    (hc : s.Clean → c.run s.view = d.run s.view) : FollowsT asm x s c Q := Follows.congr h hc

theorem pure {b : β} (h : s.Clean → Q a b s) : FollowsT asm (Pure.pure a) s (Pure.pure b) Q :=
  Follows.pure fun hclean => ⟨a, rfl, h hclean⟩

theorem fails (h : ¬ (x.run.run s).2.Clean) : FollowsT asm x s (failure : Check β) Q :=
  Follows.fails h

theorem lift {x : Lower α} (h : Follows asm x s c Q) : FollowsT asm (liftM x) s c Q := by
  refine fun hs => ⟨fun hclean => ?_, (h hs).2⟩
  obtain ⟨hclean0, hsound, hgrows, b, hb, hq⟩ := (h hs).1 hclean
  exact ⟨hclean0, hsound, hgrows, b, hb, _, rfl, hq⟩

theorem bind [Inhabited β] {g : β → Check δ} (hx : FollowsT asm x s c Q)
    (hf : ∀ a b s', s.GrowsTo s' → (s'.Clean → Q a b s') → FollowsT asm (f a) s' (g b) R) :
    FollowsT asm (x >>= f) s (c >>= g) R := by
  unfold FollowsT
  rw [OptionT.run_bind, Option.elimM]
  refine .bind hx fun o b s' hgrows hq => ?_
  cases o with
  | none =>
    -- Giving up means that there is a problem.
    have hunclean : ¬ s'.Clean := fun hclean => by
      obtain ⟨a, ha, -⟩ := hq hclean
      cases ha
    exact .congr (.fails hunclean) fun hclean => absurd hclean hunclean
  | some a =>
    refine hf a b s' hgrows fun hclean => ?_
    obtain ⟨a', ha, hq'⟩ := hq hclean
    cases ha
    exact hq'

theorem bindSame [Inhabited α] {c : Check α} {g : α → Check δ}
    (hx : FollowsT asm x s c fun a b _ => b = a)
    (hf : ∀ a s', s.GrowsTo s' → FollowsT asm (f a) s' (g a) R) :
    FollowsT asm (x >>= f) s (c >>= g) R :=
  hx.bind fun a b s' hgrows hq => (hf a s' hgrows).congr fun hclean => by rw [hq hclean]

theorem finish [Inhabited β] {R : γ → β → Lowering → Prop} (hx : FollowsT asm x s c Q)
    (hf : ∀ a b s', s.GrowsTo s' → (s'.Clean → Q a b s') → FollowsT asm (f a) s' (Pure.pure b) R) :
    FollowsT asm (x >>= f) s c R := by
  have hbind := hx.bind hf
  rw [bind_pure] at hbind
  exact hbind

theorem skip {Q : α → Unit → Lowering → Prop} (hx : FollowsT asm x s (Pure.pure ()) Q)
    (hf : ∀ a s', s.GrowsTo s' → (s'.Clean → Q a () s') → FollowsT asm (f a) s' d R) :
    FollowsT asm (x >>= f) s d R :=
  hx.bind (g := fun _ => d) fun a _ s' hgrows hq => hf a s' hgrows hq

theorem of_sound (h : (s.Clean → s.Sound asm) → FollowsT asm x s c Q) : FollowsT asm x s c Q :=
  fun hs => h hs hs

theorem get_bind {f : Lowering → Attempt γ}
    (h : FollowsT asm (f s) s d R) : FollowsT asm (get >>= f) s d R := h

theorem read (hx : x.run.run s = (some a, s)) (h : FollowsT asm (f a) s d R) :
    FollowsT asm (x >>= f) s d R := by
  unfold FollowsT
  rw [OptionT.run_bind, Option.elimM]
  exact .read hx h

theorem pure_bind (h : FollowsT asm (f a) s d R) : FollowsT asm (Pure.pure a >>= f) s d R := h

theorem given [Decidable p] (hp : p)
    (h : FollowsT asm x s (e ()) Q) : FollowsT asm x s (guard p >>= e) Q := Follows.given hp h

theorem missing [Decidable p] (hp : ¬ p)
    (h : ¬ (x.run.run s).2.Clean) : FollowsT asm x s (guard p >>= e) Q := Follows.missing hp h

theorem refused [Decidable p] (hp : ¬ p)
    (h : FollowsT asm x s failure Q) : FollowsT asm x s (guard p >>= e) Q :=
  h.congr fun _ => by rw [guard, if_neg hp]; rfl

theorem guard_congr {p q : Prop} [Decidable p] [Decidable q]
    (hpq : s.Clean → (p ↔ q)) (h : FollowsT asm x s (guard q >>= e) Q) :
    FollowsT asm x s (guard p >>= e) Q :=
  h.congr fun hclean => congrArg (fun g : Check Unit => (g >>= e).run s.view)
    (ite_congr (propext (hpq hclean)) (fun _ => rfl) fun _ => rfl)

theorem view_bind {c : View → Check β} (h : FollowsT asm x s (c s.view) Q) :
    FollowsT asm x s (get >>= c) Q := h.congr fun _ => rfl

end FollowsT

/-! ## Problems -/

variable {message : String} {k : Unit → Attempt γ}

theorem not_clean_problem (inst : Instruction) (message : String) (s : Lowering) :
    ¬ ((problem inst message).run s).2.Clean := fun h => Array.push_ne_empty h.problems

theorem not_clean_giveUp (inst : Instruction) (message : String) (s : Lowering) :
    ¬ ((giveUp inst message : Attempt α).run.run s).2.Clean := fun h => Array.push_ne_empty h.problems

theorem follows_problem (inst : Instruction) (message : String) {Q : Unit → β → Lowering → Prop} :
    Follows asm (problem inst message) s failure Q :=
  Follows.fails (not_clean_problem inst message s)

theorem followsT_problem (inst : Instruction) (message : String) {Q : Unit → β → Lowering → Prop} :
    FollowsT asm (liftM (problem inst message)) s failure Q :=
  FollowsT.lift (follows_problem inst message)

theorem followsT_giveUp (inst : Instruction) (message : String) :
    FollowsT asm (giveUp inst message) s failure Q :=
  FollowsT.fails (not_clean_giveUp inst message s)

theorem FollowsT.unless {p q : Prop} [Decidable p] [Decidable q] (hq : q ↔ ¬ p)
    (hk : ∀ s', s.GrowsTo s' → (s'.Clean → p) → FollowsT asm (k ()) s' d R) :
    FollowsT asm (if q then (do problem source message; k ()) else k ()) s (do guard p; d) R := by
  by_cases hp : p
  · rw [if_neg fun h => hq.mp h hp]
    exact .given hp (hk s (.refl s) fun _ => hp)
  · rw [if_pos (hq.mpr hp)]
    refine .congr ((followsT_problem (β := Unit) (Q := fun _ _ _ => p) source message).bind
      fun _ _ s' hgrows hp => hk s' hgrows hp) fun _ => ?_
    rw [guard, if_neg hp]

theorem FollowsT.fails_bind {x : Attempt Unit}
    (hx : ¬ (x.run.run s).2.Clean) (hk : ∀ u s', FollowsT asm (k u) s' d) :
    FollowsT asm (x >>= k) s (failure : Check δ) := by
  have hfails : FollowsT asm x s (failure : Check Unit) := .fails hx
  exact (hfails.bind fun u _ s' _ _ => hk u s').congr fun _ => rfl

theorem FollowsT.problem_bind (hk : ∀ u s', FollowsT asm (k u) s' d) :
    FollowsT asm (liftM (problem source message) >>= k) s (failure : Check δ) :=
  FollowsT.fails_bind (not_clean_problem source message s) hk

theorem FollowsT.unlessGiveUp {p q : Prop} [Decidable p] [Decidable q] (hq : q ↔ ¬ p)
    (hk : p → FollowsT asm (k ()) s d R) :
    FollowsT asm (if q then (giveUp source message >>= k) else k ()) s (do guard p; d) R := by
  by_cases hp : p
  · rw [if_neg fun h => hq.mp h hp]
    exact .given hp (hk hp)
  · rw [if_pos (hq.mpr hp)]
    exact .missing hp (not_clean_giveUp source message s)

/-! ## Steps on the module -/

section

variable {b : Build α} {Q : α → Module → Prop}

theorem Lowering.view_withModule (hs : s.Sound asm)
    (hgrows : s.module.GrowsTo m) : ({ s with module := m } : Lowering).view = s.view := by
  have hknown : ∀ id, (s.ids.get? id).map m.isConstant = (s.ids.get? id).map s.module.isConstant := by
    intro id
    cases hn : s.ids.get? id with
    | none => rfl
    | some n => exact congrArg some (hgrows.constant n (hs.ids_lt hn))
  show ({ s.view with known := fun id => (s.ids.get? id).map m.isConstant } : View) = s.view
  rw [funext hknown]
  rfl

theorem Lowering.Sound.withModule (hs : s.Sound asm)
    (hgrows : s.module.GrowsTo m) (hm : m.Tables) :
    ({ s with module := m } : Lowering).Sound asm where
  tables := hm
  ids_lt h := Nat.lt_of_lt_of_le (hs.ids_lt h) hgrows.nextId
  types h := (hs.types h).grow hgrows hs.tables

theorem follows_onModule_of_clean
    (hwhole : (b.run s.module).2.Whole → s.module.Whole) (h : s.Clean → sharing.Runs b s.module Q) :
    Follows asm (onModule b) s (pure ()) fun a _ s' => Q a s'.module := by
  intro hs
  -- A run of `b` is a run on the module and nothing else.
  have hrun : (onModule b : Lower α).run s =
      ((b.run s.module).1, { s with module := (b.run s.module).2 }) := rfl
  have hkept : s.Clean → ({ s with module := (b.run s.module).2 } : Lowering).Clean ∧
      ({ s with module := (b.run s.module).2 } : Lowering).Sound asm ∧
      s.module.GrowsTo (b.run s.module).2 ∧ Q (b.run s.module).1 (b.run s.module).2 := by
    intro hclean
    obtain ⟨hgrows, htables, hq⟩ := h hclean fun _ => (hs hclean).tables
    have hwhole := hgrows.1.trans hclean.whole
    exact ⟨⟨hclean.problems, hwhole, hclean.offsets⟩,
      (hs hclean).withModule (hgrows.2 hclean.whole) (htables hwhole), hgrows.2 hclean.whole, hq⟩
  rw [hrun]
  refine ⟨fun hclean' => ?_, fun hclean _ => (hkept hclean).1⟩
  have hclean : s.Clean := ⟨hclean'.problems, hwhole hclean'.whole, hclean'.offsets⟩
  obtain ⟨-, hsound, hgrows, hq⟩ := hkept hclean
  exact ⟨hclean, hsound, hgrows, (), congrArg (fun v => some ((), v))
    (Lowering.view_withModule (hs hclean) hgrows).symm, hq⟩

theorem follows_onModule (h : sharing.Runs b s.module Q) :
    Follows asm (onModule b) s (pure ()) fun a _ s' => Q a s'.module :=
  follows_onModule_of_clean (Build.whole_of_runs h) fun _ => h

theorem followsT_onModule (h : sharing.Runs b s.module Q) :
    FollowsT asm (onModule b) s (pure ()) fun a _ s' => Q a s'.module :=
  FollowsT.lift (follows_onModule h)

theorem Follows.share {f : α → Lower γ} (h : sharing.Runs b s.module fun a m => m.Whole → Q a m)
    (hf : ∀ a s', s.GrowsTo s' → (s'.Clean → Q a s'.module) → Follows asm (f a) s' d R) :
    Follows asm (onModule b >>= f) s d R :=
  (follows_onModule h).skip fun a s' hgrows hq => hf a s' hgrows fun hclean =>
    hq hclean hclean.whole

theorem FollowsT.share {f : α → Attempt γ} (h : sharing.Runs b s.module fun a m => m.Whole → Q a m)
    (hf : ∀ a s', s.GrowsTo s' → (s'.Clean → Q a s'.module) → FollowsT asm (f a) s' d R) :
    FollowsT asm (onModule b >>= f) s d R :=
  (followsT_onModule h).skip fun a s' hgrows hq => hf a s' hgrows fun hclean =>
    hq hclean hclean.whole

theorem Follows.note {f : α → Lower γ}
    (h : sharing.Keeps b) (hf : ∀ a s', s.GrowsTo s' → Follows asm (f a) s' d R) :
    Follows asm (onModule b >>= f) s d R :=
  (follows_onModule (h s.module)).skip fun a s' hgrows _ => hf a s' hgrows

theorem FollowsT.note {f : α → Attempt γ} (h : sharing.Keeps b)
    (hf : ∀ a s', s.GrowsTo s' → FollowsT asm (f a) s' d R) :
    FollowsT asm (onModule b >>= f) s d R :=
  (followsT_onModule (h s.module)).skip fun a s' hgrows _ => hf a s' hgrows

end

/-! ## Ids and places -/

theorem View.setKnown_self {id : ResultId} (h : v.known id = some constant) :
    v.setKnown id constant = v := by
  have hknown : (fun j => if j = id then some constant else v.known j) = v.known := by
    funext j
    split
    next hj => rw [hj, h]
    next => rfl
  rw [View.setKnown, hknown]

theorem follows_bindId (id : ResultId) (h : s.Stands n constant) :
    Follows asm (bindId id n) s (Check.bindId id constant) := by
  refine .modify rfl rfl rfl
    (fun hclean hs => ⟨hs.tables, fun {j k} hk => ?_, hs.types⟩) fun hclean => ?_
  · rcases Table.get?_insert_cases hk with ⟨-, rfl⟩ | hk
    · exact (h hclean).1
    · exact hs.ids_lt hk
  · have hknown : ∀ j, ((s.ids.insert id n).get? j).map s.module.isConstant =
        if j = id then some constant else s.view.known j := by
      intro j
      rw [Table.get?_insert]
      by_cases hj : id = j
      · rw [if_pos hj, if_pos hj.symm, Option.map_some, (h hclean).2]
      · rw [if_neg hj, if_neg (Ne.symm hj)]
        rfl
    show ({ s.view with
      known := fun j => ((s.ids.insert id n).get? j).map s.module.isConstant } : View) = _
    rw [funext hknown]
    rfl

theorem follows_idFor (id : ResultId) :
    Follows asm (idFor id) s (Check.meet id) fun n constant s' => s'.module.Stands n constant := by
  have hknown : s.view.known id = (s.ids.get? id).map s.module.isConstant := rfl
  have hmeet : (Check.meet id).run s.view = some ((s.view.known id).getD false,
      s.view.setKnown id ((s.view.known id).getD false)) := rfl
  refine .get_bind ?_
  cases hn : s.ids.get? id with
  | some n =>
    rw [hn, Option.map_some] at hknown
    rw [hknown, Option.getD_some, View.setKnown_self hknown] at hmeet
    refine .of_sound fun hs => ?_
    exact .congr (.pure fun hclean => ⟨(hs hclean).ids_lt hn, rfl⟩) fun _ => hmeet
  | none =>
    rw [hn, Option.map_none] at hknown
    rw [hknown, Option.getD_none] at hmeet
    have hbind : (do Check.bindId id false; pure false : Check Bool).run s.view =
        some (false, s.view.setKnown id false) := rfl
    refine .congr ?_ fun _ => hmeet.trans hbind.symm
    refine .share Build.sharing_fresh fun n s' _ hn => ?_
    exact (follows_bindId id hn).bind fun _ _ s2 h2 _ => .pure fun hclean =>
      (Lowering.Stands.grow hn h2) hclean

theorem follows_setPlace (id : ResultId) (p : Place) :
    Follows asm (setPlace id p) s (Check.setPlace id) := by
  refine .modify rfl rfl rfl (fun _ hs => { hs with }) fun _ => ?_
  have hplaces : ∀ j, ((s.places.insert id p).get? j).isSome = (decide (j = id) || s.view.places j) := by
    intro j
    rw [Table.get?_insert]
    by_cases hj : id = j
    · rw [if_pos hj, decide_eq_true hj.symm]
      rfl
    · rw [if_neg hj, decide_eq_false (Ne.symm hj)]
      rfl
  show ({ s.view with places := fun j => ((s.places.insert id p).get? j).isSome } : View) = _
  rw [funext hplaces]
  rfl

def Lowering.place? (s : Lowering) (id : ResultId) : Option Place :=
  if s.params.contains id then none else s.places.get? id

theorem Lowering.isPlaced_view (s : Lowering) (id : ResultId) :
    s.view.isPlaced id = (s.place? id).isSome := by
  unfold View.isPlaced place?
  split
  next h =>
    rw [show s.view.params = s.params from rfl, h]
    rfl
  next h =>
    rw [show s.view.params = s.params from rfl, Bool.eq_false_iff.mpr h]
    rfl

theorem placeOf?_run (id : ResultId) (s : Lowering) : (placeOf? id).run s = (s.place? id, s) := by
  unfold placeOf? Lowering.place?
  show (if s.params.contains id then _ else _ : Lower _).run s = _
  split <;> rfl

/-! ## Function bodies -/

@[simp] theorem View.begin_begin (v : View) : v.begin.begin = v.begin := by
  unfold View.begin
  cases v.function <;> rfl

theorem Check.run_write (h : v.function.isSome = true) :
    Check.write.run v = some ((), v.begin) := by
  show (do guard (v.function.isSome = true); modify View.begin : Check Unit).run v = _
  rw [guard, if_pos h]
  rfl

theorem Check.run_write_none (h : v.function = none) : Check.write.run v = none := by
  show (do guard (v.function.isSome = true); modify View.begin : Check Unit).run v = _
  rw [guard, if_neg (by rw [h]; decide)]
  rfl

theorem Check.write_write : (do Check.write; Check.write) = Check.write := by
  refine StateT.ext fun v => ?_
  rw [StateT.run_bind]
  cases hf : v.function with
  | none =>
    rw [Check.run_write_none hf]
    rfl
  | some f =>
    have hsome : v.begin.function.isSome = true := by
      rw [View.begin, hf]
      rfl
    rw [Check.run_write (by rw [hf]; rfl)]
    show Check.write.run v.begin = _
    rw [Check.run_write hsome, View.begin_begin]

variable {f : OpenFunction → OpenFunction}

theorem follows_function {g : ResultId × Bool → ResultId × Bool}
    (hf : ∀ h, ((f h).source, !(f h).body.isEmpty) = g (h.source, !h.body.isEmpty)) :
    Follows asm (modifyFunction f) s (modify fun v => { v with function := v.function.map g }) := by
  refine .modify rfl rfl rfl (fun _ hs => { hs with }) fun _ => ?_
  have hfunction : (s.function.map f).map (fun h => (h.source, !h.body.isEmpty)) =
      (s.function.map fun h => (h.source, !h.body.isEmpty)).map g := by
    rw [Option.map_map, Option.map_map]
    exact congrArg (s.function.map ·) (funext hf)
  exact congrArg (fun function => ({ s.view with function } : View)) hfunction

theorem follows_modifyFunction (hf : ∀ g, (f g).source = g.source ∧ (f g).body = g.body) :
    Follows asm (modifyFunction f) s (pure ()) := by
  refine (follows_function (g := id) fun h => by rw [(hf h).1, (hf h).2]; rfl).congr fun _ => ?_
  exact congrArg (fun function => some ((), { s.view with function })) (Option.map_id_apply ..).symm

theorem follows_beginBody (hf : ∀ g, (f g).source = g.source ∧ (f g).body.isEmpty = false) :
    Follows asm (modifyFunction f) s (modify View.begin) :=
  follows_function (g := fun g => (g.1, true)) fun h => by rw [(hf h).1, (hf h).2]; rfl

theorem isEmpty_push (body : Array Inst) (inst : Inst) : (body.push inst).isEmpty = false := by
  simp

theorem Lowering.function_view_none (h : s.function = none) : s.view.function = none := by
  show s.function.map _ = none
  rw [h]
  rfl

theorem Lowering.isSome_function_view {f : OpenFunction} (h : s.function = some f) :
    s.view.function.isSome = true := by
  show (s.function.map _).isSome = true
  rw [h]
  rfl

theorem Check.run_write_begin (h : v.function.isSome = true) :
    Check.write.run v = (do modify View.begin; modify View.begin : Check Unit).run v := by
  rw [Check.run_write h]
  exact congrArg (fun v => some ((), v)) (View.begin_begin v).symm

variable (source)

/-- **Writing an instruction that fits asks for an open function.** -/
theorem follows_emit (hfits : inst.fits = true) :
    Follows asm (emit source inst) s Check.write fun written _ _ => written = true := by
  refine .get_bind ?_
  split
  next hf =>
    refine .congr (.fails ?_) fun _ =>
      Check.run_write_none (Lowering.function_view_none hf)
    exact not_clean_problem source _ s
  next f hf =>
    have hview := Lowering.isSome_function_view hf
    have hpush : ∀ s', Follows asm (do
        modifyFunction fun f => { f with body := f.body.push inst }
        pure true) s' (modify View.begin) fun written _ _ => written = true := by
      intro s'
      refine .finish (follows_beginBody fun g => ?_) fun _ _ _ _ _ => .pure fun _ => rfl
      exact ⟨rfl, isEmpty_push _ _⟩
    simp only [if_pos hfits]
    unfold openBlock
    split
    · -- The label begins the body already.
      refine .congr ?_ fun _ => Check.run_write_begin hview
      refine .bind (Q := fun _ _ _ => True) ?_ fun _ _ s' _ _ => hpush s'
      refine .share Build.sharing_fresh fun label s' _ _ => follows_beginBody fun g => ?_
      exact ⟨rfl, isEmpty_push _ _⟩
    · exact .pure_bind (.congr (hpush s) fun _ => Check.run_write hview)

theorem follows_emit_oversized (h : ¬ inst.fits = true)
    {Q : Bool → β → Lowering → Prop} : Follows asm (emit source inst) s failure Q := by
  refine .get_bind ?_
  split
  · exact .fails (not_clean_problem source _ s)
  · simp only [if_neg h]
    exact .fails (not_clean_problem source _ _)

theorem follows_emitIfFits (inst : Inst) [Decidable p] (hp : inst.fits = true ↔ p) :
    Follows asm (emit source inst) s (do guard p; Check.write) fun written _ _ =>
      written = true := by
  by_cases h : p
  · exact .given h (follows_emit source (hp.mpr h))
  · refine .congr (follows_emit_oversized source fun hfits => h (hp.mp hfits)) fun _ => ?_
    rw [guard, if_neg h]
    rfl

theorem follows_emitAnd (hfits : inst.fits = true) :
    Follows asm (emitAnd source inst) s Check.write :=
  (follows_emit source hfits).finish fun _ _ _ _ _ => .pure fun _ => trivial

theorem follows_terminate (hfits : inst.fits = true) :
    Follows asm (terminate source inst) s Check.write := by
  refine (follows_emit source hfits).finish fun written _ s' _ _ => ?_
  cases written with
  | true => exact follows_modifyFunction fun g => ⟨rfl, rfl⟩
  | false => exact .pure fun _ => trivial

theorem follows_load (place : Place) (result : ModuleId) :
    Follows asm (load source place result) s Check.write fun written _ _ => written = true :=
  follows_emit source rfl

theorem follows_store (pointer value : ModuleId) :
    Follows asm (store source pointer value) s Check.write :=
  follows_emitAnd source rfl

theorem follows_beginBlock (label : ModuleId) :
    Follows asm (beginBlock source label) s Check.write := by
  refine .get_bind ?_
  split
  next hf =>
    exact .congr (follows_problem source _) fun _ =>
      Check.run_write_none (Lowering.function_view_none hf)
  next f hf =>
    have hview := Lowering.isSome_function_view hf
    extract_lets start
    have hstart : ∀ u s', Follows asm (start u) s' (modify View.begin) :=
      fun _ _ => follows_beginBody fun g => ⟨rfl, isEmpty_push _ _⟩
    split
    · refine .congr ?_ fun _ => Check.run_write_begin hview
      refine .bind (follows_beginBody fun g => ?_) fun _ _ s' _ _ => hstart () s'
      exact ⟨rfl, isEmpty_push _ _⟩
    · exact .congr (hstart () s) fun _ => Check.run_write hview

theorem follows_closeFunction (f : OpenFunction) : Follows asm (closeFunction f) s (pure ()) := by
  unfold closeFunction
  extract_lets f0 write ended
  have hwrite : ∀ u f s', Follows asm (write u f) s' (pure ()) := fun _ _ s' =>
    follows_onModule (Build.sharing_aside (fun _ => ⟨rfl, rfl, rfl, rfl⟩) s'.module)
  have hended : ∀ u f s', Follows asm (ended u f) s' (pure ()) := by
    intro u f s'
    unfold ended
    split
    · exact hwrite () _ s'
    · exact hwrite () _ s'
  split
  · exact .share Build.sharing_fresh fun _ s' _ _ => hended () _ s'
  · exact hended () _ s

/-- **The value of `id`**: what is read from a place is no constant. -/
theorem follows_value (id : ResultId) :
    Follows asm (value asm source id) s (Check.value asm id)
      fun n constant s' => s'.module.Stands n constant := by
  have hcheck : (Check.value asm id).run s.view =
      (if ((asm.opcodeOf id).isVar && (s.place? id).isSome) = true then do
        Check.write
        pure false
      else Check.meet id : Check Bool).run s.view := by
    rw [← Lowering.isPlaced_view]
    rfl
  refine .congr ?_ fun _ => hcheck
  unfold value
  extract_lets fallback
  split
  next hvar =>
    refine .read (placeOf?_run id s) ?_
    rw [hvar]
    cases s.place? id with
    | some place =>
      refine .share Build.sharing_fresh fun loaded s1 _ hloaded => ?_
      refine (follows_load source place loaded).bind fun written _ s2 h2 hwritten => ?_
      cases written with
      | true => exact .pure fun hclean => Lowering.Stands.grow hloaded h2 hclean
      | false =>
        have hunclean : ¬ s2.Clean := fun hclean => by cases hwritten hclean
        exact .congr (follows_idFor id) fun hclean => absurd hclean hunclean
    | none => exact follows_idFor id
  next hvar =>
    rw [Bool.eq_false_iff.mpr hvar]
    exact follows_idFor id

theorem followsT_value (id : ResultId) :
    FollowsT asm (liftM (value asm source id)) s (Check.value asm id)
      fun n constant s' => s'.module.Stands n constant := .lift (follows_value source id)

end ShaderIR.Spirv
