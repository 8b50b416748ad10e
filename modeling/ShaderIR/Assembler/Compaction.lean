import ShaderIR.Assembler.Basic

/-!
Dead code removal with dense renumbering. Removing the definition of a dead id releases what it
refers to, which may die in turn.
-/

namespace ShaderIR

/-! ## Renumberings -/

/-- New ids by old index; void where the id is gone. -/
structure Renumbering where
  images : Array ResultId
deriving DecidableEq, Inhabited

namespace Renumbering

def apply (m : Renumbering) (id : ResultId) : ResultId := m.images.getD id.index .void

def assign : Nat → List Bool → List ResultId
  | _, [] => []
  | next, true :: rest => .void :: assign next rest
  | next, false :: rest => ⟨next⟩ :: assign (next + 1) rest

def ofDead (dead : Array Bool) : Renumbering :=
  ⟨(ResultId.void :: assign 1 dead.toList.tail).toArray⟩

def changed (m : Renumbering) : Nat :=
  (m.images.mapIdx fun i id => !id.isVoid && id.index != i).count true

end Renumbering

def LoopTargets.rename (f : ResultId → ResultId) (t : LoopTargets) : LoopTargets :=
  ⟨f t.continueLabel, f t.breakLabel⟩

namespace Assembler

/-! ## Finding dead code -/

def isDead (asm : Assembler) (id : ResultId) : Bool :=
  id.index < asm.ids.size && asm.useCount id == 0
    && (asm.definingInstruction? id).all (·.opcode.isPure)

structure Sweep where
  /-- The assembler, with the counts of what is released already lowered. -/
  asm : Assembler
  dead : Array Bool
  /-- By position, whether the instruction is removed. -/
  removed : Array Bool
  pending : List ResultId
deriving Inhabited

namespace Sweep

def start (asm : Assembler) : Sweep :=
  let dead := (List.range asm.ids.size).map fun i => i != 0 && asm.isDead ⟨i⟩
  { asm
    dead := dead.toArray
    removed := .replicate asm.code.size false
    pending := ((dead.zipIdx.filter (·.1)).map fun e => ResultId.mk e.2).reverse }

def release (s : Sweep) (id : ResultId) : Sweep :=
  if id.index < s.asm.ids.size then
    let asm :=
      { s.asm with ids := s.asm.ids.modify id.index fun e => { e with uses := e.uses - 1 } }
    if !s.dead.getD id.index false && asm.isDead id then
      { s with asm, dead := s.dead.setIfInBounds id.index true, pending := id :: s.pending }
    else { s with asm }
  else s

def drop (s : Sweep) (i : Nat) : Sweep :=
  if s.removed.getD i true then s
  else match s.asm.code[i]? with
    | none => s
    | some inst =>
      inst.referenced.foldl release { s with removed := s.removed.setIfInBounds i true }

/-- The positions to remove with the definition of `id`: its own and those of its trailers. -/
def doomed (asm : Assembler) (id : ResultId) : List Nat :=
  match asm.definition? id with
  | none => []
  | some i =>
    match asm.code[i]? with
    | none => []
    | some header =>
      let trailers := match header.opcode.trailer? with
        | some t => (asm.trailersAfter i t header.operands.fst.toNat).length
        | none => 0
      (List.range (trailers + 1)).map (i + ·)

/-- Removes the definitions of pending ids. An id becomes pending at most once, so as much fuel as
there are ids is enough. -/
def run : Nat → Sweep → Sweep
  | 0, s => s
  | fuel + 1, s =>
    match s.pending with
    | [] => s
    | id :: pending => run fuel ((doomed s.asm id).foldl drop { s with pending })

end Sweep

def sweep (asm : Assembler) : Sweep := Sweep.run asm.ids.size (.start asm)

/-! ## Renumbering -/

/-- Notes that the instructions of `code` define their ids. The last definition counts. -/
def recordDefinitions : Nat → List Instruction → Array IdEntry → Array IdEntry
  | _, [], ids => ids
  | i, inst :: rest, ids =>
    if inst.id.isVoid then recordDefinitions (i + 1) rest ids
    else recordDefinitions (i + 1) rest
      (ids.modify inst.id.index fun e => { e with definition := some i })

def applyRenumbering (asm : Assembler) (m : Renumbering) (removed : Array Bool) : Assembler :=
  let (kept, moved) := (Arena.mk asm.code).compact fun i _ => !removed.getD i false
  let movedTo := fun i => (moved[i]?).join
  let code := kept.values.map fun inst => { inst.mapSlots m.apply with id := m.apply inst.id }
  let (alive, _) := (Arena.mk asm.ids).compact fun i _ => i == 0 || !(m.apply ⟨i⟩).isVoid
  let ids := alive.values.map fun e => { e with definition := none }
  { asm with
    code
    ids := recordDefinitions 0 code.toList ids
    closedSections := asm.closedSections.filterMap fun s => do
      if s.span.stop = 0 then none
      let first ← movedTo s.span.first
      let last ← movedTo (s.span.stop - 1)
      return { s with header := m.apply s.header, span := .inclusive first last }
    openSections := asm.openSections.map fun s =>
      { s with
        header := m.apply s.header
        start := (movedTo s.start).getD s.start
        loops := s.loops.map (·.rename m.apply) }
    rootLoops := asm.rootLoops.map (·.rename m.apply)
    names := ⟨asm.names.entries.filterMap fun (id, name) =>
      if (m.apply id).isVoid then none else some (m.apply id, name)⟩
    interface :=
      (asm.interface.map fun v => { v with var := m.apply v.var, type := m.apply v.type }).filter
        (!·.var.isVoid)
    types := asm.types.rename m.apply }

/-- Removes dead code and renumbers the ids that are left. Returns the number of ids that
changed. -/
def flatten (asm : Assembler) : Nat × Assembler :=
  let s := asm.sweep
  let m := Renumbering.ofDead s.dead
  (m.changed, s.asm.applyRenumbering m s.removed)

end Assembler

end ShaderIR
