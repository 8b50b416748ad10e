/-!
# Programs that keep a discipline

Emission is a program over a state that only ever grows.  A **discipline** is an invariant of the
state together with an order of growth; the rules below put programs together that keep it, and
carry what is known of the answers.
-/

namespace ShaderIR

/-- An invariant of a state and the ways in which it may grow. -/
structure Discipline (σ : Type) where
  Inv : σ → Prop
  Grows : σ → σ → Prop
  refl : ∀ s, Grows s s
  trans : ∀ {s1 s2 s3}, Grows s1 s2 → Grows s2 s3 → Grows s1 s3

namespace Discipline

variable {σ α β : Type} {D : Discipline σ} {s : σ}
  {x : StateM σ α} {f : α → StateM σ β} {Q : α → σ → Prop} {R : β → σ → Prop}

/-! ## Steps that answer -/

/-- Run from `s`, a program keeps the discipline, and `Q` holds of its answer and the state. -/
def Runs (D : Discipline σ) (x : StateM σ α) (s : σ) (Q : α → σ → Prop := fun _ _ => True) : Prop :=
  D.Inv s → D.Grows s (x.run s).2 ∧ D.Inv (x.run s).2 ∧ Q (x.run s).1 (x.run s).2

def Keeps (D : Discipline σ) (x : StateM σ α) : Prop := ∀ s, D.Runs x s

theorem Runs.mono {Q R : α → σ → Prop} (h : D.Runs x s Q)
    (hQR : ∀ a s', D.Grows s s' → Q a s' → R a s') : D.Runs x s R := by
  intro hs
  obtain ⟨hgrows, hinv, hpost⟩ := h hs
  exact ⟨hgrows, hinv, hQR _ _ hgrows hpost⟩

theorem Runs.of_inv (h : D.Inv s → D.Runs x s Q) : D.Runs x s Q := fun hs => h hs hs

theorem Runs.weaken (h : D.Runs x s Q) : D.Runs x s := h.mono fun _ _ _ _ => trivial

theorem Runs.answer (h : D.Runs x s Q) : D.Runs x s fun a s' => a = (x.run s).1 ∧ Q a s' :=
  fun hs => (h hs).imp_right fun h => ⟨h.1, rfl, h.2⟩

theorem Runs.pure {a : α} (h : Q a s) : D.Runs (pure a : StateM σ α) s Q := fun hs => ⟨D.refl s, hs, h⟩

theorem Runs.bind (hx : D.Runs x s Q) (hf : ∀ a s', D.Grows s s' → Q a s' → D.Runs (f a) s' R) :
    D.Runs (x >>= f) s R := by
  intro hs
  obtain ⟨hgrows, hinv, hpost⟩ := hx hs
  obtain ⟨hgrows', hinv', hpost'⟩ := hf _ _ hgrows hpost hinv
  exact ⟨D.trans hgrows hgrows', hinv', hpost'⟩

theorem Runs.assoc {γ : Type} {g : β → StateM σ γ}
    {R : γ → σ → Prop} (h : D.Runs (x >>= fun a => f a >>= g) s R) : D.Runs ((x >>= f) >>= g) s R := h

theorem Runs.pure_bind {a : α} (h : D.Runs (f a) s R) : D.Runs (Pure.pure a >>= f) s R := h

theorem Runs.map {f : α → β} {Q : β → σ → Prop}
    (hx : D.Runs x s fun a s' => Q (f a) s') : D.Runs (f <$> x) s Q := hx

theorem Runs.get_bind {f : σ → StateM σ β} (h : D.Runs (f s) s R) : D.Runs (get >>= f) s R := h

theorem Runs.modify {f : σ → σ} {Q : Unit → σ → Prop}
    (h : D.Inv s → D.Grows s (f s) ∧ D.Inv (f s) ∧ Q () (f s)) :
    D.Runs (modify f : StateM σ Unit) s Q := h

theorem Keeps.pure (a : α) : D.Keeps (pure a : StateM σ α) := fun _ => .pure trivial

theorem Keeps.bind (hx : D.Keeps x) (hf : ∀ a, D.Keeps (f a)) : D.Keeps (x >>= f) :=
  fun s => (hx s).bind fun a s' _ _ => hf a s'

theorem Keeps.get_bind {f : σ → StateM σ β} (hf : ∀ s, D.Keeps (f s)) : D.Keeps (get >>= f) := fun s => hf s s

variable {l : List α}

theorem Keeps.forM {f : α → StateM σ Unit} (h : ∀ a, D.Keeps (f a)) : D.Keeps (l.forM f) := by
  induction l with
  | nil => exact .pure ()
  | cons a rest ih => exact (h a).bind fun _ => ih

theorem Keeps.forM_option {o : Option α} {f : α → StateM σ Unit} (h : ∀ a, D.Keeps (f a)) :
    D.Keeps (o.forM f) := by
  cases o with
  | none => exact .pure ()
  | some a => exact h a

/-! ## Steps that may give up -/

variable {x : OptionT (StateM σ) α} {f : α → OptionT (StateM σ) β}

/-- Run from `s`, a program keeps the discipline whether or not it gives up, and `Q` holds if it
    answers. -/
def Tries (D : Discipline σ) (x : OptionT (StateM σ) α) (s : σ)
    (Q : α → σ → Prop := fun _ _ => True) : Prop :=
  D.Runs x.run s fun a s' => ∀ v, a = some v → Q v s'

def Attempts (D : Discipline σ) (x : OptionT (StateM σ) α) : Prop :=
  ∀ s, D.Tries x s

theorem Tries.mono {Q R : α → σ → Prop} (h : D.Tries x s Q)
    (hQR : ∀ a s', D.Grows s s' → Q a s' → R a s') : D.Tries x s R :=
  Runs.mono h fun _ s' hgrows hpost v hv => hQR v s' hgrows (hpost v hv)

theorem Tries.of_inv (h : D.Inv s → D.Tries x s Q) : D.Tries x s Q := Runs.of_inv h

theorem Tries.weaken (h : D.Tries x s Q) : D.Tries x s := h.mono fun _ _ _ _ => trivial

theorem Tries.pure {a : α} (h : Q a s) : D.Tries (pure a : OptionT (StateM σ) α) s Q :=
  Runs.pure fun v hv => by cases hv; exact h

theorem Tries.failure : D.Tries (failure : OptionT (StateM σ) α) s Q :=
  Runs.pure fun v hv => by cases hv

theorem Tries.lift {x : StateM σ α} (h : D.Runs x s Q) : D.Tries (liftM x) s Q :=
  Runs.bind h fun a _ _ hpost => .pure fun v hv => by cases hv; exact hpost

theorem Runs.lift_bind {x : StateM σ α} {R : Option β → σ → Prop} (hx : D.Runs x s Q)
    (hf : ∀ a s', D.Grows s s' → Q a s' → D.Runs (f a).run s' R) :
    D.Runs (liftM x >>= f : OptionT (StateM σ) β).run s R := .bind hx hf

theorem Runs.read_bind {f : σ → OptionT (StateM σ) β} {R : Option β → σ → Prop}
    (h : D.Runs (f s).run s R) : D.Runs (get >>= f : OptionT (StateM σ) β).run s R := h

theorem Runs.run_bind {Q : Option α → σ → Prop} {R : Option β → σ → Prop} (hx : D.Runs x.run s Q)
    (hnone : ∀ s', Q none s' → R none s')
    (hf : ∀ a s', D.Grows s s' → Q (some a) s' → D.Runs (f a).run s' R) :
    D.Runs (x >>= f).run s R := by
  rw [OptionT.run_bind, Option.elimM]
  refine .bind hx fun a s' hgrows hpost => ?_
  cases a with
  | none => exact .pure (hnone s' hpost)
  | some a => exact hf a s' hgrows hpost

theorem Tries.bind (hx : D.Tries x s Q)
    (hf : ∀ a s', D.Grows s s' → Q a s' → D.Tries (f a) s' R) : D.Tries (x >>= f) s R :=
  Runs.run_bind hx (fun _ _ v hv => by cases hv) fun a s' hgrows hpost => hf a s' hgrows (hpost a rfl)

theorem Tries.pure_bind {a : α} (h : D.Tries (f a) s R) : D.Tries (Pure.pure a >>= f) s R := h

theorem Tries.get_bind {f : σ → OptionT (StateM σ) β} (h : D.Tries (f s) s R) :
    D.Tries (get >>= f) s R := h

theorem Tries.of_guard {c : Prop} [Decidable c] : D.Tries (guard c) s fun _ _ => c := by
  change D.Tries (if c then Pure.pure () else Alternative.failure) s fun _ _ => c
  split
  next h => exact .pure h
  next => exact .failure

theorem Tries.guard_bind {c : Prop} [Decidable c] {f : Unit → OptionT (StateM σ) β}
    (h : c → D.Tries (f ()) s R) : D.Tries (guard c >>= f) s R := by
  change D.Tries ((if c then Pure.pure () else Alternative.failure) >>= f) s R
  split
  next hc => exact .pure_bind (h hc)
  next => exact .failure

theorem Tries.mapM {Q : β → σ → Prop} (hf : ∀ a s', D.Grows s s' → D.Tries (f a) s' Q)
    (hgrows : ∀ b s1 s2, D.Grows s1 s2 → Q b s1 → Q b s2) :
    D.Tries (l.mapM f) s fun bs s' => ∀ b ∈ bs, Q b s' := by
  induction l generalizing s with
  | nil =>
    rw [List.mapM_nil]
    exact .pure fun b hb => absurd hb List.not_mem_nil
  | cons a rest ih =>
    rw [List.mapM_cons]
    refine (hf a s (D.refl s)).bind fun b s1 h1 hb => ?_
    refine (ih fun a s' h => hf a s' (D.trans h1 h)).bind fun bs s2 h2 hbs => ?_
    refine .pure fun c hc => ?_
    rcases List.mem_cons.mp hc with rfl | hc
    · exact hgrows _ _ _ h2 hb
    · exact hbs c hc

theorem Tries.mapM_all {P : α → σ → Prop} (hf : ∀ a s, D.Tries (f a) s fun _ s' => P a s')
    (hgrows : ∀ a s1 s2, D.Grows s1 s2 → P a s1 → P a s2) :
    D.Tries (l.mapM f) s fun bs s' => bs.length = l.length ∧ ∀ a ∈ l, P a s' := by
  induction l generalizing s with
  | nil =>
    rw [List.mapM_nil]
    exact .pure ⟨rfl, fun a ha => absurd ha List.not_mem_nil⟩
  | cons a rest ih =>
    rw [List.mapM_cons]
    refine (hf a s).bind fun b s1 _ ha => ih.bind fun bs s2 h2 hbs => .pure ?_
    exact ⟨congrArg (· + 1) hbs.1, List.forall_mem_cons.mpr ⟨hgrows _ _ _ h2 ha, hbs.2⟩⟩

theorem Tries.forM_all {f : α → OptionT (StateM σ) Unit} {P : α → σ → Prop}
    (hf : ∀ a s, D.Tries (f a) s fun _ s' => P a s')
    (hgrows : ∀ a s1 s2, D.Grows s1 s2 → P a s1 → P a s2) :
    D.Tries (l.forM f) s fun _ s' => ∀ a ∈ l, P a s' := by
  induction l generalizing s with
  | nil => exact .pure fun a ha => absurd ha List.not_mem_nil
  | cons a rest ih =>
    refine (hf a s).bind fun _ s1 _ ha => ih.mono fun _ s2 h2 hrest => ?_
    exact List.forall_mem_cons.mpr ⟨hgrows _ _ _ h2 ha, hrest⟩

theorem Attempts.pure (a : α) : D.Attempts (pure a : OptionT (StateM σ) α) :=
  fun _ => .pure trivial

theorem Attempts.lift {x : StateM σ α} (h : D.Keeps x) : D.Attempts (liftM x) :=
  fun s => .lift (h s)

theorem Attempts.bind (hx : D.Attempts x) (hf : ∀ a, D.Attempts (f a)) : D.Attempts (x >>= f) :=
  fun s => (hx s).bind fun a s' _ _ => hf a s'

theorem Attempts.tries_bind (hx : D.Attempts x) (hf : ∀ a s', D.Tries (f a) s' R) :
    D.Tries (x >>= f) s R := (hx s).bind fun a s' _ _ => hf a s'

theorem Attempts.mapM (hf : ∀ a, D.Attempts (f a)) : D.Attempts (l.mapM f) := fun _ =>
  (Tries.mapM (fun a s' _ => hf a s') fun _ _ _ _ _ => trivial).weaken

theorem Attempts.forM {f : α → OptionT (StateM σ) Unit} (h : ∀ a, D.Attempts (f a)) :
    D.Attempts (l.forM f) := by
  induction l with
  | nil => exact .pure ()
  | cons a rest ih => exact (h a).bind fun _ => ih

end Discipline

end ShaderIR
