import ShaderIR.Assembler.Compaction
import ShaderIR.Assembler.LiteralMerge
import ShaderIR.Proofs.Listing.Rebuilding

/-!
# Runs of the assembler

A run starts from the empty assembler or from a listing and applies operations in any order.
`Operation.appended` lists what an operation pushes, so that a run can be asked to push only
instructions of a certain kind.  `Reached.invariant` is the one induction over runs.
-/

namespace ShaderIR

variable {asm : Assembler} {after : Assembler} {I : Assembler → Prop}

/-! ## Operations -/

/-- One call of the assembler. -/
inductive Operation
  | create (opcode : Opcode)
  | push (inst : Instruction)
  | pushNew (inst : Instruction)
  | pushValue (inst : Instruction) (type : ResultId)
  | pushMany (insts : List Instruction)
  | replace (old new : ResultId)
  | beginSection (header : Instruction)
  | endSection (footer : Instruction)
  | pushLoop (targets : LoopTargets)
  | popLoop
  | pushLoopExit (exit : LoopExit)
  | finish
  | addString (s : String)
  | setName (id : ResultId) (name : String)
  | pushInterface (direction : Direction) (name : String) (type : ResultId)
  | pushType (inst : Instruction)
  | pushStruct (name : String) (members : List (String × ResultId))
  | modifyLayout (id : ResultId) (f : StructLayout → StructLayout)
  | convert (target : ResultId) (value : TypedValue) (op : Operator)
  | unifyOperands (lhs rhs : TypedValue) (op : Operator)
  | flatten
  | mergeLiterals

namespace Operation

open Assembler

def settle (asm : Assembler) (result : Except AssemblyError Assembler) : Assembler :=
  match result with
  | .ok after => after
  | .error _ => asm

def run : Operation → Assembler → Assembler
  | .create opcode, asm => (asm.create opcode).2
  | .push inst, asm => asm.push inst
  | .pushNew inst, asm => (asm.pushNew inst).2
  | .pushValue inst type, asm => (asm.pushValue inst type).2
  | .pushMany insts, asm => asm.pushMany insts
  | .replace old new, asm => (asm.replace old new).2
  | .beginSection header, asm => settle asm ((asm.beginSection header).map (·.2))
  | .endSection footer, asm => settle asm (asm.endSection footer)
  | .pushLoop targets, asm => asm.pushLoop targets
  | .popLoop, asm => asm.popLoop.2
  | .pushLoopExit exit, asm => settle asm (asm.pushLoopExit exit)
  | .finish, asm => asm.finish
  | .addString s, asm => (asm.addString s).2
  | .setName id name, asm => asm.setName id name
  | .pushInterface direction name type, asm =>
    settle asm ((asm.pushInterface direction name type).map (·.2))
  | .pushType inst, asm => settle asm ((asm.pushType inst).map (·.2))
  | .pushStruct name members, asm => (asm.pushStruct name members).2
  | .modifyLayout id f, asm => settle asm (asm.modifyLayout id f)
  | .convert target value op, asm => (asm.convert target value op).2
  | .unifyOperands lhs rhs op, asm => (asm.unifyOperands lhs rhs op).2
  | .flatten, asm => asm.flatten.2
  | .mergeLiterals, asm => asm.mergeLiterals.2

def runAll (ops : List Operation) : Assembler :=
  ops.foldl (fun asm o => o.run asm) Assembler.empty

/-- What the steps of a conversion append. Every step allocates anew, so the steps are looked at one
by one. -/
def appendedBySteps (target : ResultId) (op : Operator) :
    Nat → Assembler → TypedValue → List Appended
  | 0, _, _ => []
  | fuel + 1, asm, value =>
    match asm.takeStep target value op (asm.conversionStep target value op) with
    | .ok (some (next, after)) =>
      appendedBetween asm after ++ appendedBySteps target op fuel after next
    | _ => []

/-- What an operation appends. Apart from conversions, whatever allocates does so before it pushes.
    -/
def appended : Operation → Assembler → List Appended
  | .convert target value op, asm => appendedBySteps target op maxConversionSteps asm value
  | .unifyOperands lhs rhs op, asm =>
    if lhs.type = rhs.type then []
    else if asm.conversionStep lhs.type rhs op ≠ .incompatible then
      appendedBySteps lhs.type op maxConversionSteps asm rhs
    else appendedBySteps rhs.type op maxConversionSteps asm lhs
  | o, asm => appendedBetween asm (o.run asm)

/-- Whether everything that some operations append satisfies `ok`. -/
def appendOnly (ok : Appended → Prop) [DecidablePred ok] : Assembler → List Operation → Bool
  | _, [] => true
  | asm, o :: rest => (o.appended asm).all (decide <| ok ·) && appendOnly ok (o.run asm) rest

end Operation

/-- The assemblers that some run reaches in which everything appended satisfies `ok`. -/
inductive Reached (ok : Appended → Prop) : Assembler → Prop
  | empty : Reached ok .empty
  | parsed {text : String} {asm : Assembler} : Listing.parse text = .ok asm → Reached ok asm
  | step {asm : Assembler} (o : Operation) : Reached ok asm → (∀ x ∈ o.appended asm, ok x) →
      Reached ok (o.run asm)

theorem Reached.runAll {ok : Appended → Prop} [DecidablePred ok] {ops : List Operation}
    (h : Operation.appendOnly ok .empty ops = true) : Reached ok (Operation.runAll ops) := by
  have hfrom : ∀ (ops : List Operation) (asm : Assembler), Reached ok asm →
      Operation.appendOnly ok asm ops = true → Reached ok (ops.foldl (fun asm o => o.run asm) asm) := by
    intro ops
    induction ops with
    | nil => exact fun _ hasm _ => hasm
    | cons o rest ih =>
      intro asm hasm hops
      rw [Operation.appendOnly, Bool.and_eq_true, List.all_eq_true] at hops
      exact ih _ (hasm.step o fun x hx => of_decide_eq_true (hops.1 x hx)) hops.2
  exact hfrom ops _ .empty h

theorem Listing.exists_of_any_ok {p : Assembler → Prop} [DecidablePred p] {text : String}
    (h : (Listing.parse text).toOption.any (fun asm => decide (p asm)) = true) :
    ∃ asm, Listing.parse text = .ok asm ∧ p asm := by
  cases hparse : Listing.parse text with
  | error e =>
    rw [hparse] at h
    cases h
  | ok asm =>
    rw [hparse] at h
    exact ⟨asm, rfl, of_decide_eq_true h⟩

/-! ## Operations build, replace or flatten -/

namespace Operation

open Assembler

variable {ok : Appended → Prop}

theorem builds_of_push {asm : Assembler} {inst : Instruction}
    (hcode : after.code = (asm.push inst).code) (hids : after.ids = (asm.push inst).ids)
    (h : ∀ x ∈ appendedBetween asm after, ok x) : Builds ok asm after := by
  have hlist : after.code.toList = asm.code.toList ++ [inst] := by
    rw [hcode, code_push, Array.toList_push]
  have hmem := h _ (mem_appendedBetween hlist List.mem_cons_self)
  rw [hids, size_ids_push] at hmem
  exact (Builds.push hmem).andSame hcode hids

theorem builds_of_pushNew {asm : Assembler} (inst : Instruction)
    (hcode : after.code = (asm.pushNew inst).2.code) (hids : after.ids = (asm.pushNew inst).2.ids)
    (h : ∀ x ∈ appendedBetween asm after, ok x) : Builds ok asm after := by
  have hlist : after.code.toList = asm.code.toList ++ [{ inst with id := (asm.create inst.opcode).1 }] := by
    rw [hcode, code_pushNew, Array.toList_push]
  have hmem := h _ (mem_appendedBetween hlist List.mem_cons_self)
  rw [hids, size_ids_pushNew] at hmem
  exact (builds_pushNew hmem).andSame hcode hids

theorem exists_of_map_snd_eq_ok {α : Type} {r : Except AssemblyError (α × Assembler)}
    (h : r.map (·.2) = .ok after) : ∃ a, r = .ok (a, after) := by
  cases r with
  | error e => cases h
  | ok p => cases h; exact ⟨p.1, rfl⟩

def refusable : Operation → Bool
  | .beginSection _ | .endSection _ | .pushLoopExit _ | .pushInterface .. | .pushType _ | .modifyLayout .. => true
  | _ => false

/-- What a call does.  One that is refused changes nothing. -/
inductive Does (asm : Assembler) : Operation → Assembler → Prop
  | refused {o : Operation} : Does asm o asm
  | opened {header : Instruction} {kind : SectionKind} (hkind : header.opcode.opens? = some kind) :
      Does asm (.beginSection header) (asm.opened header kind)
  | closed {footer : Instruction} {s : OpenSection} {outer : List OpenSection}
      (hkind : footer.opcode.closes? = some s.kind) (hopen : asm.openSections = s :: outer) :
      Does asm (.endSection footer) (asm.closed footer s outer)
  | exited {exit : LoopExit} (label : ResultId) :
      Does asm (.pushLoopExit exit) (asm.push { opcode := .jump, refs := ⟨label, .void, .void⟩ })
  | interface {direction : Direction} {name : String} {type id : ResultId} {after : Assembler}
      (heq : asm.pushInterface direction name type = .ok (id, after)) :
      Does asm (.pushInterface direction name type) after
  | type {inst : Instruction} {id : ResultId} {after : Assembler} (heq : asm.pushType inst = .ok (id, after)) :
      Does asm (.pushType inst) after
  | layout {id : ResultId} {f : StructLayout → StructLayout} (l : LayoutHandle) (layout : StructLayout) :
      Does asm (.modifyLayout id f) { asm with types := asm.types.setLayout l layout }
  | always {o : Operation} (h : o.refusable = false) : Does asm o (o.run asm)

theorem does (o : Operation) (asm : Assembler) : Does asm o (o.run asm) := by
  have hsettle : ∀ r : Except AssemblyError Assembler, (∀ after, r = .ok after → Does asm o after) →
      Does asm o (settle asm r) := by
    intro r hr
    cases r with
    | error e => exact .refused
    | ok after => exact hr after rfl
  cases o with
  | beginSection header =>
    refine hsettle _ fun after hafter => ?_
    obtain ⟨id, hs⟩ := exists_of_map_snd_eq_ok hafter
    obtain ⟨kind, hkind, rfl⟩ := beginSection_cases hs
    exact .opened hkind
  | endSection footer =>
    refine hsettle _ fun after hafter => ?_
    obtain ⟨s, outer, hkind, hopen, rfl⟩ := endSection_cases hafter
    exact .closed hkind hopen
  | pushLoopExit exit =>
    refine hsettle _ fun after hafter => ?_
    obtain ⟨label, rfl⟩ := pushLoopExit_cases hafter
    exact .exited label
  | pushInterface direction name type =>
    refine hsettle _ fun after hafter => ?_
    obtain ⟨id, hs⟩ := exists_of_map_snd_eq_ok hafter
    exact .interface hs
  | pushType inst =>
    refine hsettle _ fun after hafter => ?_
    obtain ⟨id, hs⟩ := exists_of_map_snd_eq_ok hafter
    exact .type hs
  | modifyLayout id f =>
    refine hsettle _ fun after hafter => ?_
    obtain ⟨l, layout, rfl⟩ := modifyLayout_ok hafter
    exact .layout l layout
  | _ => exact .always rfl

/-- The opcodes of the instructions that a call is given to push. -/
def pushed : Operation → List Opcode
  | .push inst | .pushNew inst | .pushValue inst _ | .beginSection inst => [inst.opcode]
  | .pushMany insts => insts.map (·.opcode)
  | _ => []

/-- What an invariant has to survive so that the call of `o` in the state `asm` keeps it. -/
structure Survives (asm : Assembler) (o : Operation) (I : Assembler → Prop) : Prop where
  aside : ∀ {a : Assembler} strings openSections closedSections rootLoops, I a →
    I { a with strings, openSections, closedSections, rootLoops }
  create : ∀ {a : Assembler} opcode, I a → I (a.create opcode).2
  /-- Declarations of types are pushed by hand only. -/
  push : ∀ {a : Assembler} {inst}, (inst.opcode.isType = true → inst.opcode ∈ o.pushed) → I a → I (a.push inst)
  setName : ∀ {a : Assembler} id name, I a → I (a.setName id name)
  interface : ∀ {direction name type id after}, asm.pushInterface direction name type = .ok (id, after) → I after
  type : ∀ {a : Assembler} {inst id after}, inst.id.isVoid = true ∨ o = .pushType inst →
    a.pushType inst = .ok (id, after) → I a → I after
  struct : ∀ {name members}, I (asm.pushStruct name members).2
  layout : ∀ {id f} l layout, o = .modifyLayout id f → I { asm with types := asm.types.setLayout l layout }
  finish : I asm.finish
  replace : ∀ {old new}, o = .replace old new → I (asm.replace old new).2
  flatten : o = .flatten → I asm.flatten.2
  merge : I asm.mergeLiterals.2

/-- **What survives the steps survives the call.** -/
theorem Survives.run {o : Operation} (h : Survives asm o I) (hasm : I asm) : I (o.run asm) := by
  have hbody : ∀ {a inst}, inst.opcode.isType = false → I a → I (a.push inst) := fun hop =>
    h.push fun htype => Bool.noConfusion (hop.symm.trans htype)
  have hconverts : ∀ {a b}, Converts a b → I a → I b := by
    intro a b hb
    induction hb with
    | refl => exact id
    | type hid heq => exact h.type (.inl hid) heq
    | @value a inst hop =>
      exact fun ha => @hbody _ { inst with id := (a.create inst.opcode).1 } hop (h.create _ ha)
    | argument hop => exact hbody hop
    | trans _ _ ih1 ih2 => exact ih2 ∘ ih1
  have hloops : ∀ loops, I (asm.setLoops loops) := by
    intro loops
    unfold setLoops
    split <;> exact h.aside _ _ _ _ hasm
  have hnew : ∀ inst, inst.opcode ∈ o.pushed → I (asm.pushNew inst).2 := fun inst hop =>
    @h.push _ { inst with id := (asm.create inst.opcode).1 } (fun _ => hop) (h.create inst.opcode hasm)
  generalize hafter : o.run asm = after
  cases hafter ▸ o.does asm with
  | refused => exact hasm
  | @opened header => exact h.aside _ _ _ _ (@h.push _ header (fun _ => List.mem_cons_self) hasm)
  | @closed footer _ _ hkind =>
    refine h.aside _ _ _ _ (@hbody _ footer ?_ hasm)
    generalize footer.opcode = op at hkind
    cases op <;> first | rfl | cases hkind
  | exited => exact hbody rfl hasm
  | interface heq => exact h.interface heq
  | type heq => exact h.type (.inr rfl) heq hasm
  | layout l layout => exact h.layout l layout rfl
  | always hop =>
    cases o with
    | create opcode => exact h.create opcode hasm
    | push inst => exact h.push (fun _ => List.mem_cons_self) hasm
    | pushNew inst => exact hnew inst List.mem_cons_self
    | pushValue inst type => exact hnew { inst with resultType := type } List.mem_cons_self
    | pushMany insts =>
      have hall : ∀ l a, (∀ inst ∈ l, inst ∈ insts) → I a → I (a.pushMany l) := by
        intro l
        induction l with
        | nil => exact fun _ _ ha => ha
        | cons inst rest ih =>
          intro a hl ha
          obtain ⟨hinst, hrest⟩ := List.forall_mem_cons.mp hl
          exact ih _ hrest (h.push (fun _ => List.mem_map_of_mem hinst) ha)
      exact hall insts asm (fun _ hi => hi) hasm
    | replace old new => exact h.replace rfl
    | pushLoop | popLoop => exact hloops _
    | finish => exact h.finish
    | addString => exact h.aside _ _ _ _ hasm
    | setName id name => exact h.setName id name hasm
    | pushStruct => exact h.struct
    | convert => exact hconverts (converts_convertSteps _ _ _ _ _ _) hasm
    | unifyOperands lhs rhs op => exact hconverts (converts_unifyOperands asm lhs rhs op) hasm
    | flatten => exact h.flatten rfl
    | mergeLiterals => exact h.merge
    | _ => cases hop

theorem builds_convertSteps (hok : ∀ x : Appended, x.RefsKnown → x.IdKnown → ok x)
    (source target : ResultId) (op : Operator) (fuel : Nat) (asm : Assembler) (value : TypedValue)
    (h : ∀ x ∈ appendedBySteps target op fuel asm value, ok x) :
    Builds ok asm (convertSteps source target op fuel asm value).2 := by
  induction fuel generalizing asm value with
  | zero => exact .refl
  | succ fuel ih =>
    unfold convertSteps
    unfold appendedBySteps at h
    split
    next => exact .refl
    next => exact .refl
    next next after heq =>
      rw [heq] at h
      -- The ids of this step are allocated before the next one pushes.
      simp only [List.mem_append] at h
      exact (builds_takeStep hok heq fun x hx => h x (.inl hx)).trans (ih after next fun x hx => h x (.inr hx))

/-- **What an operation is made of.**  It builds, or it is one of the three that change the stream
    in place. -/
theorem builds (hok : ∀ x : Appended, x.RefsKnown → x.IdKnown → ok x) (o : Operation)
    (h : ∀ x ∈ o.appended asm, ok x) :
    Builds ok asm (o.run asm) ∨ (∃ old new, o = .replace old new) ∨ o = .flatten ∨
      o = .mergeLiterals := by
  have happended : o.refusable = true → o.appended asm = appendedBetween asm (o.run asm) := by
    cases o <;> first | exact fun _ => rfl | exact nofun
  generalize hafter : o.run asm = after at happended
  cases hafter ▸ o.does asm with
  | refused => exact .inl .refl
  | opened | closed | exited label => exact .inl (builds_of_push rfl rfl (happended rfl ▸ h))
  | interface heq =>
    rw [happended rfl] at h
    rcases pushInterface_cases heq with rfl | rfl
    · exact .inl .refl
    · exact .inl (builds_of_pushNew _ (code_registerInterface _ _) (ids_registerInterface _ _) h)
  | type heq =>
    rw [happended rfl] at h
    obtain ⟨d, -, rfl | ⟨-, rfl⟩ | ⟨-, rfl⟩⟩ := pushType_ok heq
    · exact .inl .refl
    · exact .inl (builds_of_pushNew _ rfl rfl h)
    · exact .inl (builds_of_push rfl rfl h)
  | layout l layout => exact .inl (.same rfl rfl)
  | always hop =>
    clear happended
    cases o with
    | create opcode => exact .inl (.create opcode)
    | push inst => exact .inl (builds_of_push rfl rfl h)
    | pushNew inst => exact .inl (builds_of_pushNew inst rfl rfl h)
    | pushValue inst type => exact .inl (builds_of_pushNew { inst with resultType := type } rfl rfl h)
    | pushMany insts =>
      refine .inl (builds_pushMany fun inst hi => ?_)
      have hmem := h _ (mem_appendedBetween (toList_code_pushMany asm insts) hi)
      rwa [size_ids_pushMany] at hmem
    | replace old new => exact .inr (.inl ⟨old, new, rfl⟩)
    | pushLoop targets | popLoop => exact .inl (.same (code_setLoops _ _) (ids_setLoops _ _))
    | finish => exact .inl (.same asm.code_finish asm.ids_finish)
    | addString s => exact .inl (.same rfl rfl)
    | setName id name => exact .inl (.same (code_setName _ _ _) (ids_setName _ _ _))
    | pushStruct name members =>
      obtain ⟨insts, hcode, hsize, hbuilds⟩ := pushStruct_steps ok asm name members
      refine .inl (hbuilds fun inst hi => ?_)
      have hmem := h _ (mem_appendedBetween hcode hi)
      rwa [hsize] at hmem
    | convert target value op => exact .inl (builds_convertSteps hok _ _ _ _ _ _ h)
    | unifyOperands lhs rhs op =>
      refine .inl ?_
      -- The two sides that may be converted are tried in the order in which `appended` lists them.
      simp only [appended] at h
      simp only [run, Assembler.unifyOperands]
      split at h
      next heq => rw [if_pos heq]; exact .refl
      next heq =>
        rw [if_neg heq]
        split at h
        next hstep =>
          rw [if_pos hstep]
          exact builds_convertSteps hok _ _ _ _ _ _ h
        next hstep =>
          rw [if_neg hstep]
          exact builds_convertSteps hok _ _ _ _ _ _ h
    | flatten => exact .inr (.inr (.inl rfl))
    | mergeLiterals => exact .inr (.inr (.inr rfl))
    | _ => cases hop

end Operation

theorem Assembler.mergeLiterals_invariant
    (hreplace : ∀ (asm : Assembler) (old new : ResultId), I asm → I (asm.replace old new).2)
    (h : I asm) : I asm.mergeLiterals.2 := by
  have hfold : ∀ (l : List (ResultId × ResultId)) (n : Nat) (asm : Assembler), I asm →
      I (redirectLiterals l (n, asm)).2 := by
    intro l
    induction l with
    | nil => intro n asm h; exact h
    | cons e rest ih =>
      obtain ⟨id, first⟩ := e
      intro n asm h
      unfold redirectLiterals
      split
      · exact ih n asm h
      · exact ih _ _ (hreplace asm id first h)
  exact hfold _ 0 asm h

/-- **Induction over runs.**  What holds of the empty assembler and survives building, `replace` and
    `flatten` holds of every assembler that a run reaches. -/
theorem Reached.invariant {ok : Appended → Prop}
    (hok : ∀ x : Appended, x.RefsKnown → x.IdKnown → ok x) (h : Reached ok asm) (hempty : I .empty)
    (hbuilds : ∀ a b : Assembler, Builds ok a b → I a → I b)
    (hreplace : ∀ (asm : Assembler) (old new : ResultId), I asm → I (asm.replace old new).2)
    (hflatten : ∀ asm : Assembler, I asm → I asm.flatten.2) : I asm := by
  induction h with
  | empty => exact hempty
  | parsed hparse =>
    exact hbuilds _ _ ((Listing.builds_parse hparse).mono fun x hx => hok x hx.1 hx.2) hempty
  | @step asm o _ happended ih =>
    rcases o.builds hok happended with hb | ⟨old, new, rfl⟩ | rfl | rfl
    · exact hbuilds _ _ hb ih
    · exact hreplace asm old new ih
    · exact hflatten asm ih
    · exact Assembler.mergeLiterals_invariant hreplace ih

end ShaderIR
