import ShaderIR.Generics

/-!
# Instantiations are built once

The calls of `build` are recorded along a sequence of requests to one cache, and **the cache holds
exactly what was built with success**: so each declaration and completed list of arguments is built
until that succeeds, and answered from the cache from then on.
-/

namespace ShaderIR

/-! ## Completing arguments -/

namespace GenericSignature

variable {sig : GenericSignature} {params : List GenericParam} {args full rest : List GenericArg}

/-- `full` is `args` with the defaults of the parameters that are left out, and its kinds are those
    of the parameters. -/
structure Completes (sig : GenericSignature) (args full : List GenericArg) : Prop where
  short : args.length ≤ sig.params.length
  filled : ∃ rest, full = args ++ rest ∧ (sig.params.drop args.length).map (·.default) = rest.map some
  kinds : full.map (·.kind) = sig.params.map (·.kind)

theorem defaults?_eq_some_iff :
    defaults? params = some rest ↔ params.map (·.default) = rest.map some := by
  induction params generalizing rest with
  | nil => cases rest <;> simp [defaults?]
  | cons p params ih =>
    cases rest with
    | nil => cases hp : p.default <;> simp [defaults?, hp, Option.bind_eq_some_iff]
    | cons arg rest =>
      cases hp : p.default <;> simp [defaults?, hp, Option.bind_eq_some_iff, ih]
      exact and_comm

theorem mismatch?_eq_none_iff (h : full.length = params.length) :
    mismatch? params full = none ↔ full.map (·.kind) = params.map (·.kind) := by
  induction params generalizing full with
  | nil => simp [List.length_eq_zero_iff.mp h, mismatch?]
  | cons p params ih =>
    obtain ⟨arg, full, rfl⟩ := List.exists_cons_of_length_eq_add_one h
    have hrest := ih (Nat.succ.inj h)
    by_cases hk : arg.kind = p.kind <;> simp_all [mismatch?]

theorem minArgs_le {n : Nat} (h : ∀ p ∈ sig.params.drop n, p.default.isSome = true) :
    sig.minArgs ≤ n := by
  have hlength : ∀ (params : List GenericParam) (n : Nat), (∀ p ∈ params.drop n, p.default.isSome = true) →
      (params.takeWhile (·.default.isNone)).length ≤ n := by
    intro params
    induction params with
    | nil => exact fun n _ => Nat.zero_le n
    | cons p params ih =>
      intro n hn
      cases n with
      | zero => simp [Option.isSome_iff_ne_none.mp (hn p List.mem_cons_self)]
      | succ n =>
        rw [List.takeWhile_cons]
        split
        · exact Nat.succ_le_succ (ih n hn)
        · exact Nat.zero_le _
  exact hlength sig.params n h

theorem complete_eq_ok_iff : sig.complete args = .ok full ↔ sig.Completes args full := by
  have hlength : ∀ {rest}, args.length ≤ sig.params.length →
      (sig.params.drop args.length).map (·.default) = rest.map some →
      (args ++ rest).length = sig.params.length := by
    intro rest hshort hrest
    have heq := congrArg List.length hrest
    simp only [List.length_map, List.length_drop] at heq
    rw [List.length_append, ← heq]
    omega
  constructor
  · intro h
    unfold complete at h
    extract_lets arity at h
    split at h
    next => cases h
    next hcount =>
      simp only [Bool.or_eq_true, decide_eq_true_eq, not_or, Nat.not_lt] at hcount
      have hshort : args.length ≤ sig.params.length := hcount.2
      split at h
      next => cases h
      next rest hrest =>
        rw [defaults?_eq_some_iff] at hrest
        extract_lets at h
        split at h
        next => cases h
        next hkinds =>
          have hfull : args ++ rest = full := Except.ok.inj h
          subst hfull
          exact ⟨hshort, ⟨rest, rfl, hrest⟩, (mismatch?_eq_none_iff (hlength hshort hrest)).mp hkinds⟩
  · rintro ⟨hshort, ⟨rest, rfl, hrest⟩, hkinds⟩
    have hmin : sig.minArgs ≤ args.length := by
      refine minArgs_le fun p hp => ?_
      have hmem : p.default ∈ rest.map some := hrest ▸ List.mem_map_of_mem hp
      obtain ⟨arg, -, harg⟩ := List.mem_map.mp hmem
      rw [← harg]
      rfl
    have hcount : ¬ (args.length < sig.minArgs || sig.maxArgs < args.length) = true := by
      simp only [Bool.or_eq_true, decide_eq_true_eq, not_or, Nat.not_lt]
      exact ⟨hmin, hshort⟩
    simp only [complete, if_neg hcount, defaults?_eq_some_iff.mpr hrest,
      (mismatch?_eq_none_iff (hlength hshort hrest)).mpr hkinds]

end GenericSignature

/-! ## Requests to one cache -/

namespace InstantiationCache

variable {δ α σ : Type}

structure Request (δ α σ : Type) where
  decl : δ
  sig : GenericSignature
  args : List GenericArg
  build : List GenericArg → σ → Except AssemblyError α × σ

/-- One call of `build`: what it was called for, and what it answered. -/
structure Call (δ α : Type) where
  key : δ × List GenericArg
  answer : Except AssemblyError α

/-- A cache in use, the state that building may change, and the calls of `build` so far. -/
structure Session (δ α σ : Type) where
  cache : InstantiationCache δ α := {}
  state : σ
  calls : List (Call δ α) := []

def Request.recorded (r : Request δ α σ) (full : List GenericArg) (s : σ × List (Call δ α)) :
    Except AssemblyError α × σ × List (Call δ α) :=
  ((r.build full s.1).1, (r.build full s.1).2, s.2 ++ [⟨(r.decl, full), (r.build full s.1).1⟩])

variable [DecidableEq δ]

def Session.perform (s : Session δ α σ) (r : Request δ α σ) :
    Except AssemblyError α × Session δ α σ :=
  let (answer, cache, state, calls) :=
    s.cache.instantiate r.decl r.sig r.args r.recorded (s.state, s.calls)
  (answer, { cache, state, calls })

/-- The session after some requests, starting from an empty cache. -/
def Session.after (state : σ) (requests : List (Request δ α σ)) : Session δ α σ :=
  requests.foldl (fun s r => (s.perform r).2) { state }

/-! ## What a request does -/

section

variable {s : Session δ α σ} {r : Request δ α σ} {full : List GenericArg}

theorem perform_of_not_completes (h : ¬ ∃ full, r.sig.Completes r.args full) :
    (∃ e, (s.perform r).1 = .error e) ∧ (s.perform r).2 = s := by
  unfold Session.perform instantiate
  cases hfull : r.sig.complete r.args with
  | error e => exact ⟨⟨e, rfl⟩, rfl⟩
  | ok full => exact absurd ⟨full, GenericSignature.complete_eq_ok_iff.mp hfull⟩ h

variable (h : r.sig.Completes r.args full)
include h

theorem perform_of_hit {v : α} (hv : s.cache.entries.get? (r.decl, full) = some v) :
    s.perform r = (.ok v, s) := by
  simp only [Session.perform, instantiate, GenericSignature.complete_eq_ok_iff.mpr h, hv]

theorem perform_of_miss (hv : s.cache.entries.get? (r.decl, full) = none) :
    s.perform r = ((r.build full s.state).1,
      { cache := match (r.build full s.state).1 with
          | .ok v => ⟨s.cache.entries.insert (r.decl, full) v⟩
          | .error _ => s.cache
        state := (r.build full s.state).2
        calls := s.calls ++ [⟨(r.decl, full), (r.build full s.state).1⟩] }) := by
  simp only [Session.perform, instantiate, GenericSignature.complete_eq_ok_iff.mpr h, hv, Request.recorded]
  cases (r.build full s.state).1 <;> rfl

end

/-- What holds along every sequence of requests. -/
structure Session.Settled (s : Session δ α σ) : Prop where
  cached : ∀ key v, s.cache.entries.get? key = some v ↔ ⟨key, .ok v⟩ ∈ s.calls
  once : s.calls.Pairwise fun a b => a.key = b.key → ∃ e, a.answer = .error e

theorem Session.Settled.perform {s : Session δ α σ} (hs : s.Settled) (r : Request δ α σ) :
    (s.perform r).2.Settled := by
  by_cases h : ∃ full, r.sig.Completes r.args full
  · obtain ⟨full, h⟩ := h
    cases hv : s.cache.entries.get? (r.decl, full) with
    | some v =>
      rw [perform_of_hit h hv]
      exact hs
    | none =>
      have hfailed : ∀ v, ⟨(r.decl, full), .ok v⟩ ∉ s.calls := by
        intro v hmem
        rw [(hs.cached _ v).mpr hmem] at hv
        cases hv
      rw [perform_of_miss h hv]
      refine ⟨fun key v => ?_, List.pairwise_append.mpr ⟨hs.once, List.pairwise_singleton .., ?_⟩⟩
      · rw [List.mem_append, List.mem_singleton, ← hs.cached]
        cases (r.build full s.state).1 with
        | error e => simp
        | ok w =>
          by_cases hkey : (r.decl, full) = key
          · cases hkey
            simp [Table.get?_insert_self, hv, eq_comm]
          · simp [Table.get?_insert_of_ne hkey, Ne.symm hkey]
      · intro a ha b hb hkey
        rw [List.mem_singleton.mp hb] at hkey
        cases hanswer : a.answer with
        | error e => exact ⟨e, rfl⟩
        | ok v =>
          refine absurd ?_ (hfailed v)
          rw [← hanswer, ← show a.key = (r.decl, full) from hkey]
          exact ha
  · rw [(perform_of_not_completes h).2]
    exact hs

theorem Session.settled_after (state : σ) (requests : List (Request δ α σ)) :
    (Session.after state requests).Settled := by
  have hfold : ∀ (requests : List (Request δ α σ)) (s : Session δ α σ), s.Settled →
      (requests.foldl (fun s r => (s.perform r).2) s).Settled := by
    intro requests
    induction requests with
    | nil => exact fun _ hs => hs
    | cons r rest ih => exact fun s hs => ih _ (hs.perform r)
  exact hfold requests _ ⟨fun key v => by simp [Table.get?], .nil⟩

/-- **Every key is built until that succeeds, and never after.**  A request without a completion
    fails and changes nothing; any other answers with what was built for its key before, or it
    builds, and a failure to build leaves the cache as it was. -/
theorem instantiate_builds_until_success (state : σ) (before : List (Request δ α σ))
    (r : Request δ α σ) :
    let s := Session.after state before
    let answer := (s.perform r).1
    let after := (s.perform r).2
    s.cache.instantiate r.decl r.sig r.args r.build s.state = (answer, after.cache, after.state) ∧
    s.Settled ∧
    ((¬ ∃ full, r.sig.Completes r.args full) → (∃ e, answer = .error e) ∧ after = s) ∧
    ∀ full, r.sig.Completes r.args full →
      (∀ v, ⟨(r.decl, full), .ok v⟩ ∈ s.calls → answer = .ok v ∧ after = s) ∧
      ((∀ v, ⟨(r.decl, full), .ok v⟩ ∉ s.calls) →
        answer = (r.build full s.state).1 ∧ after.state = (r.build full s.state).2 ∧
        after.calls = s.calls ++ [⟨(r.decl, full), answer⟩] ∧
        (∀ e, answer = .error e → after.cache = s.cache) ∧
        ∀ v, answer = .ok v → after.cache.entries.get? (r.decl, full) = some v) := by
  intro s answer after
  have hs : s.Settled := Session.settled_after state before
  refine ⟨?_, hs, perform_of_not_completes, fun full h => ⟨fun v hv => ?_, fun hfailed => ?_⟩⟩
  · -- The record is only looked at from outside.
    simp only [answer, after, Session.perform, instantiate]
    cases r.sig.complete r.args with
    | error e => rfl
    | ok full =>
      simp only [Request.recorded]
      cases s.cache.entries.get? (r.decl, full) with
      | some hit => rfl
      | none => rcases r.build full s.state with ⟨_ | v, t⟩ <;> rfl
  · have hperform : s.perform r = (.ok v, s) := perform_of_hit h ((hs.cached _ v).mpr hv)
    exact ⟨congrArg Prod.fst hperform, congrArg Prod.snd hperform⟩
  · have hmiss : s.cache.entries.get? (r.decl, full) = none := by
      cases hv : s.cache.entries.get? (r.decl, full) with
      | none => rfl
      | some v => exact absurd ((hs.cached _ v).mp hv) (hfailed v)
    have hafter := hs.perform r
    have hperform := perform_of_miss h hmiss
    have hanswer : answer = (r.build full s.state).1 := congrArg Prod.fst hperform
    have hcalls : after.calls = s.calls ++ [⟨(r.decl, full), answer⟩] := by
      rw [hanswer]
      exact congrArg (·.2.calls) hperform
    refine ⟨hanswer, congrArg (·.2.state) hperform, hcalls, fun e he => ?_, fun v hv => ?_⟩
    · rw [hanswer] at he
      rw [he] at hperform
      exact congrArg (·.2.cache) hperform
    · refine (hafter.cached _ v).mpr ?_
      rw [show (s.perform r).2.calls = _ from hcalls, hv]
      exact List.mem_append_right _ (List.mem_singleton.mpr rfl)

end InstantiationCache

end ShaderIR
