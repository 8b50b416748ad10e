import Mathlib.Data.List.Forall2
import ShaderIR.Spirv.Lowering.Arithmetic

/-!
# Programs that run alike

Two programs **run alike** if from related states they give the same answer and lead to related
states again, as long as the first stays out of a set of states that it never leaves.  Within two
limits on the size of instructions, the steps that build a module run alike until something is too
large.
-/

namespace ShaderIR

variable {σ α β γ : Type} {N : σ → Prop} {S : σ → σ → Prop}

/-! ## Steps that answer -/

/-- Run from `s` and from `t`, two programs give one answer and lead to related states, or the first
    ends in `N`. -/
def AlikeAt (N : σ → Prop) (S : σ → σ → Prop) (x y : StateM σ α) (s t : σ) : Prop :=
  N (x.run s).2 ∨ (x.run s).1 = (y.run t).1 ∧ S (x.run s).2 (y.run t).2

structure Alike (N : σ → Prop) (S : σ → σ → Prop) (x y : StateM σ α) : Prop where
  keeps : ∀ s, N s → N (x.run s).2
  same : ∀ s t, S s t → AlikeAt N S x y s t

namespace Alike

variable {x y x' y' : StateM σ α}

theorem pure (a : α) : Alike N S (pure a : StateM σ α) (pure a) := ⟨fun _ h => h, fun _ _ h => .inr ⟨rfl, h⟩⟩

theorem bind {f g : α → StateM σ β} (hx : Alike N S x y) (hf : ∀ a, Alike N S (f a) (g a)) :
    Alike N S (x >>= f) (y >>= g) where
  keeps s hs := (hf (x.run s).1).keeps _ (hx.keeps s hs)
  same s t hs := by
    rcases hx.same s t hs with hlost | ⟨hanswer, hstate⟩
    · exact .inl ((hf (x.run s).1).keeps _ hlost)
    · have hnext := (hf (x.run s).1).same _ _ hstate
      have hsame : g (y.run t).1 = g (x.run s).1 := by rw [hanswer]
      show AlikeAt N S (f (x.run s).1) (g (y.run t).1) (x.run s).2 (y.run t).2
      rw [hsame]
      exact hnext

theorem map {f : α → β} (hx : Alike N S x y) : Alike N S (f <$> x) (f <$> y) :=
  ⟨hx.keeps, fun s t hs => (hx.same s t hs).imp_right fun h => ⟨congrArg f h.1, h.2⟩⟩

/-- Programs may look at what `V` tells of related states, if every state is in `V` with another. -/
theorem get_bind {V : σ → σ → Prop} {f g : σ → StateM σ β} (hV : ∀ s t, S s t → V s t)
    (htotal : ∀ s, ∃ t, V s t) (h : ∀ s t, V s t → Alike N S (f s) (g t)) :
    Alike N S (get >>= f) (get >>= g) where
  keeps s hs := (htotal s).elim fun t ht => (h s t ht).keeps s hs
  same s t hs := (h s t (hV s t hs)).same s t hs

theorem read {f g : σ → α} (h : ∀ s t, S s t → f s = g t) :
    Alike N S (do return f (← get)) (do return g (← get)) :=
  ⟨fun _ hs => hs, fun s t hs => .inr ⟨h s t hs, hs⟩⟩

theorem modify {f g : σ → σ} (hN : ∀ s, N s → N (f s)) (h : ∀ s t, S s t → S (f s) (g t)) :
    Alike N S (modify f : StateM σ Unit) (modify g) := ⟨hN, fun s t hs => .inr ⟨rfl, h s t hs⟩⟩

theorem ite {c d : Prop} [Decidable c] [Decidable d] (h : c ↔ d) (hx : c → Alike N S x y)
    (hx' : ¬ c → Alike N S x' y') : Alike N S (if c then x else x') (if d then y else y') := by
  by_cases hc : c
  · rw [if_pos hc, if_pos (h.mp hc)]
    exact hx hc
  · rw [if_neg hc, if_neg fun hd => hc (h.mpr hd)]
    exact hx' hc

theorem forM {l : List β} {f g : β → StateM σ Unit} (h : ∀ b, Alike N S (f b) (g b)) :
    Alike N S (l.forM f) (l.forM g) := by
  induction l with
  | nil => exact .pure ()
  | cons b rest ih => exact (h b).bind fun _ => ih

theorem forM_option {o : Option β} {f g : β → StateM σ Unit} (h : ∀ b, Alike N S (f b) (g b)) :
    Alike N S (o.forM f) (o.forM g) := by
  cases o with
  | none => exact .pure ()
  | some b => exact h b

end Alike

/-! ## Steps that may give up -/

/-- Two programs that may give up run alike: both answer the same, or both give up. -/
def AlikeT (N : σ → Prop) (S : σ → σ → Prop) (x y : OptionT (StateM σ) α) : Prop := Alike N S x.run y.run

namespace AlikeT

variable {x y x' y' : OptionT (StateM σ) α}

theorem pure (a : α) : AlikeT N S (pure a : OptionT (StateM σ) α) (pure a) := Alike.pure (some a)

theorem failure : AlikeT N S (failure : OptionT (StateM σ) α) failure := Alike.pure none

theorem lift {x y : StateM σ α} (h : Alike N S x y) :
    AlikeT N S (liftM x : OptionT (StateM σ) α) (liftM y) :=
  Alike.bind h fun a => .pure (some a)

theorem bind {f g : α → OptionT (StateM σ) β} (hx : AlikeT N S x y)
    (hf : ∀ a, AlikeT N S (f a) (g a)) : AlikeT N S (x >>= f) (y >>= g) := by
  unfold AlikeT
  rw [OptionT.run_bind, OptionT.run_bind, Option.elimM, Option.elimM]
  refine .bind hx fun a => ?_
  cases a with
  | none => exact .pure none
  | some a => exact hf a

theorem map {f : α → β} (hx : AlikeT N S x y) : AlikeT N S (f <$> x) (f <$> y) :=
  hx.bind fun _ => .pure _

theorem get_bind {V : σ → σ → Prop} {f g : σ → OptionT (StateM σ) β} (hV : ∀ s t, S s t → V s t)
    (htotal : ∀ s, ∃ t, V s t) (h : ∀ s t, V s t → AlikeT N S (f s) (g t)) :
    AlikeT N S (get >>= f) (get >>= g) :=
  Alike.get_bind (f := fun s => (f s).run) (g := fun t => (g t).run) hV htotal h

theorem orElse (hx : AlikeT N S x y) (hx' : AlikeT N S x' y') :
    AlikeT N S (x <|> x') (y <|> y') := by
  unfold AlikeT
  rw [OptionT.run_orElse, OptionT.run_orElse, Option.elimM, Option.elimM]
  refine .bind hx fun a => ?_
  cases a with
  | none => exact hx'
  | some a => exact .pure (some a)

theorem ite {c d : Prop} [Decidable c] [Decidable d] (h : c ↔ d) (hx : c → AlikeT N S x y)
    (hx' : ¬ c → AlikeT N S x' y') : AlikeT N S (if c then x else x') (if d then y else y') := by
  unfold AlikeT
  rw [apply_ite OptionT.run, apply_ite OptionT.run]
  exact .ite h hx hx'

theorem guard {c d : Prop} [Decidable c] [Decidable d] (h : c ↔ d) :
    AlikeT N S (guard c : OptionT (StateM σ) Unit) (guard d) :=
  AlikeT.ite h (fun _ => .pure ()) fun _ => .failure

theorem mapM {R : β → γ → Prop} {l : List β} {l' : List γ} {f : β → OptionT (StateM σ) α}
    {g : γ → OptionT (StateM σ) α} (hl : List.Forall₂ R l l')
    (h : ∀ b c, R b c → AlikeT N S (f b) (g c)) : AlikeT N S (l.mapM f) (l'.mapM g) := by
  induction hl with
  | nil =>
    rw [List.mapM_nil, List.mapM_nil]
    exact .pure []
  | cons hb _ ih =>
    rw [List.mapM_cons, List.mapM_cons]
    exact (h _ _ hb).bind fun _ => ih.bind fun _ => .pure _

theorem forM {R : β → γ → Prop} {l : List β} {l' : List γ} {f : β → OptionT (StateM σ) Unit}
    {g : γ → OptionT (StateM σ) Unit} (hl : List.Forall₂ R l l')
    (h : ∀ b c, R b c → AlikeT N S (f b) (g c)) : AlikeT N S (l.forM f) (l'.forM g) := by
  induction hl with
  | nil => exact .pure ()
  | cons hb _ ih => exact (h _ _ hb).bind fun _ => ih

theorem forM_option {o : Option β} {f g : β → OptionT (StateM σ) Unit}
    (h : ∀ b, AlikeT N S (f b) (g b)) : AlikeT N S (o.forM f) (o.forM g) := by
  cases o with
  | none => exact .pure ()
  | some b => exact h b

end AlikeT

end ShaderIR

namespace ShaderIR.Spirv

/-! ## Limits -/

/-- The limit of `k` more words. -/
@[reducible] def wider (k : Nat) : WordLimit := ⟨maxOperandWords + k⟩

variable {k : Nat}

theorem fits_cases (k : Nat) (i : Inst) : (i.fits = true ∧ @Inst.fits (wider k) i = true) ∨
    (¬ i.fits = true ∧ (0 < k ∨ ¬ @Inst.fits (wider k) i = true)) := by
  by_cases hi : i.fits = true
  · exact .inl ⟨hi, decide_eq_true (Nat.le_add_right_of_le (of_decide_eq_true hi))⟩
  · refine .inr ⟨hi, ?_⟩
    cases k with
    | zero => exact .inr hi
    | succ k => exact .inl k.succ_pos

/-- Within a wider limit, something may be written that was left out here. -/
def Module.Lost (k : Nat) (m : Module) : Prop := 0 < k ∧ m.oversized ≠ #[]

def Lowering.Lost (k : Nat) (s : Lowering) : Prop := (0 < k ∧ s.problems ≠ #[]) ∨ s.module.Lost k

theorem Module.oversized_append (m : Module) (insts : Array Inst) (s : Section) :
    (m.append insts s).oversized = m.oversized := by
  cases s <;> rfl

/-- Steps on the module that do the same within two limits, unless something is left out. -/
class Builds {α : Type} (k : Nat) (x : Build α) (y : outParam (Build α)) : Prop where
  alike : Alike (Module.Lost k) Eq x y

abbrev Limited {α : Type} (x : [WordLimit] → Build α) : Prop := ∀ {k}, Builds k x (@x (wider k))

namespace Builds

variable {α β : Type} {x y : Build α}

theorem pure (a : α) : Builds k (pure a) (pure a) := ⟨Alike.pure a⟩

theorem bind {f g : α → Build β} (hx : Builds k x y) (hf : ∀ a, Builds k (f a) (g a)) :
    Builds k (x >>= f) (y >>= g) := ⟨hx.alike.bind fun a => (hf a).alike⟩

theorem get_bind {f g : Module → Build β} (h : ∀ m, Builds k (f m) (g m)) :
    Builds k (get >>= f) (get >>= g) :=
  ⟨Alike.get_bind (fun _ _ hm => hm) (fun m => ⟨m, rfl⟩) fun m _ hm => hm ▸ (h m).alike⟩

theorem forM {o : Option β} {f g : β → Build Unit} (h : ∀ b, Builds k (f b) (g b)) :
    Builds k (o.forM f) (o.forM g) :=
  ⟨Alike.forM_option fun b => (h b).alike⟩

theorem modifyGet {f : Module → α × Module} (h : ∀ m, (f m).2.oversized = m.oversized) :
    Builds k (modifyGet f) (modifyGet f) where
  alike := ⟨fun m hm => ⟨hm.1, (h m).symm ▸ hm.2⟩, fun _ _ hm => .inr (hm ▸ ⟨rfl, rfl⟩)⟩

variable (n : ModuleId) (w : UInt32) (op : Op) (os : List Operand) (sec : Section)

open Build

instance write (insts : Array Inst) : Limited (modify (·.append insts sec)) :=
  modifyGet fun m => m.oversized_append insts sec

instance emit (i : Inst) : Builds k (Build.emit sec i) (@Build.emit (wider k) sec i) where
  alike := by
    have hlost : ∀ m : Module, ¬ i.fits = true → 0 < k → (m.emit sec i).Lost k := fun m hi hk => by
      rw [Module.emit, if_neg hi]
      exact ⟨hk, Array.push_ne_empty⟩
    refine ⟨fun m hm => ?_, fun m _ hm => ?_⟩
    · by_cases hi : i.fits = true
      · refine ⟨hm.1, ?_⟩
        change (m.emit sec i).oversized ≠ #[]
        rw [Module.emit, if_pos hi, Module.oversized_append]
        exact hm.2
      · exact hlost m hi hm.1
    · subst hm
      rcases fits_cases k i with ⟨hi, hi'⟩ | ⟨hi, hk | hi'⟩
      · refine .inr ⟨rfl, ?_⟩
        change m.emit sec i = @Module.emit (wider k) m sec i
        unfold Module.emit
        rw [if_pos hi, if_pos hi']
      · exact .inl (hlost m hi hk)
      · refine .inr ⟨rfl, ?_⟩
        change m.emit sec i = @Module.emit (wider k) m sec i
        unfold Module.emit
        rw [if_neg hi, if_neg hi']

instance fresh : Limited fresh := modifyGet fun _ => rfl

instance capability (c : Capability) : Limited (requireCapability c) := modifyGet fun _ => rfl

instance extension (e : Extension) : Limited (requireExtension e) := modifyGet fun _ => rfl

instance entryPoint (e : EntryPoint) : Limited (addEntryPoint e) := modifyGet fun _ => rfl

instance entryPoints (i : Nat) (f : EntryPoint → EntryPoint) : Limited (modifyEntryPoint i f) :=
  modifyGet fun _ => rfl

instance name (s : String) : Limited (Build.name n s) := emit _ _

instance memberName (s : String) : Limited (Build.memberName n w s) := emit _ _

instance decorate (d : Decoration) (ws : List UInt32) : Limited (Build.decorate n d ws) := emit _ _

instance memberDecorate (d : Decoration) (ws : List UInt32) :
    Limited (Build.memberDecorate n w d ws) := emit _ _

instance executionMode (mode : ExecutionMode) (ws : List UInt32) :
    Limited (Build.executionMode n mode ws) := emit _ _

instance block : Limited (modify fun m => { m with blocks := n :: m.blocks }) := modifyGet fun _ => rfl

instance markBlock : Limited (Build.markBlock n) :=
  get_bind fun _ => by
    split
    · exact .pure _
    · exact (block n).bind fun _ => decorate n _ _

instance newType : Limited (Build.newType op os) := fresh.bind fun _ => (emit _ _).bind fun _ => .pure _

instance type : Limited (Build.type op os) :=
  get_bind fun _ => by
    split
    · exact .pure _
    · exact (newType op os).bind fun _ => (modifyGet fun _ => rfl).bind fun _ => .pure _

instance voidType : Limited Build.voidType := type _ _

instance boolType : Limited Build.boolType := type _ _

instance intType (signed : Bool) : Limited (Build.intType w signed) :=
  (forM fun c => capability c).bind fun _ => type _ _

instance floatType : Limited (Build.floatType w) := (forM fun c => capability c).bind fun _ => type _ _

instance vectorType : Limited (Build.vectorType n w) := type _ _

instance matrixType : Limited (Build.matrixType n w) := type _ _

instance pointerType (c : StorageClass) : Limited (Build.pointerType c n) := type _ _

instance functionType (ns : List ModuleId) : Limited (Build.functionType n ns) := type _ _

instance constantIn : Limited (Build.constantIn sec n op os) :=
  get_bind fun _ => by
    split
    · exact .pure _
    · exact fresh.bind fun _ => (emit _ _).bind fun _ => (modifyGet fun _ => rfl).bind fun _ => .pure _

instance constant : Limited (Build.constant n op os) := constantIn _ _ _ _

instance number (ws : List UInt32) : Limited (Build.number n ws) := constantIn _ _ _ _

instance word (signed : Bool) : Limited (Build.word signed w) := (intType _ _).bind fun _ => number _ _

instance null : Limited (Build.null n) := constantIn _ _ _ _

instance arrayType : Limited (Build.arrayType n w) :=
  (intType _ _).bind fun _ => (constantIn _ _ _ _).bind fun _ => type _ _

instance extInstSet : Limited Build.extInstSet :=
  get_bind fun _ => by
    split
    · exact .pure _
    · exact fresh.bind fun _ => (emit _ _).bind fun _ => (modifyGet fun _ => rfl).bind fun _ => .pure _

instance builtInScalarType (x : BuiltInScalar) : Limited (Spirv.builtInScalarType x) := by
  cases x with
  | bool => exact boolType
  | int | uint => exact intType _ _
  | float => exact floatType _

instance builtInType (shape : BuiltInShape) : Limited (Spirv.builtInType shape) :=
  (builtInScalarType _).bind fun _ => by
    split
    · exact .pure _
    · exact vectorType _ _

instance comparisonType (asm : Assembler) (r : ResultId) : Limited (Spirv.comparisonType asm r) :=
  boolType.bind fun _ => by
    split
    · exact vectorType _ _
    · exact .pure _

end Builds

end ShaderIR.Spirv
