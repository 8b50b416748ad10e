import ShaderIR.Arena
import ShaderIR.Types.Descriptor

/-!
The type registry: distinct descriptors, and the ids they were declared under.
-/

namespace ShaderIR

structure TypeRegistry where
  descriptors : Interner TypeDesc := {}
  layouts : Arena StructLayout := {}
  /-- The id that stands for a descriptor when it is nested in another. -/
  declared : Table TypeHandle ResultId := {}
  handles : Table ResultId TypeHandle := {}
deriving DecidableEq, Inhabited

namespace TypeRegistry

variable (reg : TypeRegistry)

/-! ## Look-up -/

def size : Nat := reg.handles.size

def handle? (id : ResultId) : Option TypeHandle := reg.handles.get? id

def desc? (h : TypeHandle) : Option TypeDesc := reg.descriptors.get? h.slot

def ofId? (id : ResultId) : Option TypeDesc :=
  (reg.handle? id).bind reg.desc?

def idOf? (h : TypeHandle) : Option ResultId := reg.declared.get? h

def layout? (l : LayoutHandle) : Option StructLayout := reg.layouts.get? l.slot

def layoutHandle? (id : ResultId) : Option LayoutHandle :=
  match reg.ofId? id with
  | some (.record l) => some l
  | _ => none

def layoutOf? (id : ResultId) : Option StructLayout :=
  (reg.layoutHandle? id).bind reg.layout?

/-- Descriptors of the members of a layout, those that are no types left out. -/
def memberHandles (l : LayoutHandle) : List TypeHandle :=
  match reg.layout? l with
  | some layout => layout.members.filterMap fun m => reg.handle? m.2
  | none => []

/-! ## Declaring -/

def intern (d : TypeDesc) : TypeHandle × TypeRegistry :=
  let (i, descriptors) := reg.descriptors.insert d
  (⟨i⟩, { reg with descriptors })

/-- Declares `d` under `id`, which now stands for `d` wherever it is nested. -/
def declare (id : ResultId) (d : TypeDesc) : TypeRegistry :=
  let (h, reg) := reg.intern d
  { reg with declared := reg.declared.insert h id, handles := reg.handles.insert id h }

def declareAlso (id : ResultId) (d : TypeDesc) : TypeRegistry :=
  let (h, reg) := reg.intern d
  { reg with declared := reg.declared.insertIfNew h id, handles := reg.handles.insert id h }

def declareStruct (id : ResultId) (layout : StructLayout) : TypeRegistry :=
  let l : LayoutHandle := ⟨reg.layouts.next⟩
  { reg with layouts := reg.layouts.append layout }.declare id (.record l)

def setLayout (l : LayoutHandle) (layout : StructLayout) : TypeRegistry :=
  { reg with layouts := reg.layouts.set l.slot layout }

/-- Renames every id. What loses its id is no type any more; descriptors stay where they are. -/
def rename (f : ResultId → ResultId) : TypeRegistry :=
  { reg with
    handles := reg.handles.filterMap fun id h =>
      if (f id).isVoid then none else some (f id, h)
    declared := reg.declared.filterMap fun h id =>
      if (f id).isVoid then none else some (h, f id)
    layouts := reg.layouts.mapIdx fun _ layout => layout.rename f }

/-! ## Sizes -/

def maxBits : Nat := 0xFFFFFFFF

def saturate (n : Nat) : Nat := min n maxBits

/-- Types nested deeper than this count nothing. -/
def maxDepth : Nat := 65

def boolBits : Nat := 8

def pointerBits : Nat := 64

/-- Width in bits of a descriptor, looking at most `depth` levels deep. -/
def widthAt (reg : TypeRegistry) : Nat → TypeHandle → Nat
  | 0, _ => 0
  | depth + 1, h =>
    match reg.desc? h with
    | none | some .void => 0
    | some .bool => boolBits
    | some (.float w) | some (.sint w) | some (.uint w) => w.toNat
    | some (.pointer _) => pointerBits
    | some (.array inner n) | some (.vector inner n) =>
      saturate (n.toNat * reg.widthAt depth inner)
    | some (.matrix inner columns rows) =>
      saturate (saturate (columns.toNat * rows.toNat) * reg.widthAt depth inner)
    | some (.tuple a b) => saturate (reg.widthAt depth a + reg.widthAt depth b)
    | some (.record l) =>
      (reg.memberHandles l).foldl (fun sum m => saturate (sum + reg.widthAt depth m)) 0

/-- Alignment in bits of a descriptor: the widest scalar in it, looking at most `depth` levels
deep. -/
def alignAt (reg : TypeRegistry) : Nat → TypeHandle → Nat
  | 0, _ => 0
  | depth + 1, h =>
    match reg.desc? h with
    | some (.array inner _) | some (.vector inner _) | some (.matrix inner _ _) =>
      reg.alignAt depth inner
    | some (.tuple a b) => max (reg.alignAt depth a) (reg.alignAt depth b)
    | some (.record l) => (reg.memberHandles l).foldl (fun m t => max m (reg.alignAt depth t)) 0
    | _ => reg.widthAt (depth + 1) h

def bitWidth? (id : ResultId) : Option Nat :=
  (reg.handle? id).map (reg.widthAt maxDepth)

def bitAlign? (id : ResultId) : Option Nat :=
  (reg.handle? id).map (reg.alignAt maxDepth)

/-! ## Spelling -/

def maxSpelledDepth : Nat := 17

def spellAt (reg : TypeRegistry) : Nat → TypeHandle → String
  | 0, _ => "..."
  | depth + 1, h =>
    match reg.desc? h with
    | none => "..."
    | some .void => "void"
    | some .bool => "bool"
    | some (.float w) => "f" ++ toString w.toNat
    | some (.sint w) => "i" ++ toString w.toNat
    | some (.uint w) => "u" ++ toString w.toNat
    | some (.array inner n) => "array<" ++ reg.spellAt depth inner ++ ", " ++ toString n.toNat ++ ">"
    | some (.vector inner n) => "vec" ++ toString n.toNat ++ "<" ++ reg.spellAt depth inner ++ ">"
    | some (.matrix inner columns rows) =>
      "mat" ++ toString columns.toNat ++ "x" ++ toString rows.toNat
        ++ "<" ++ reg.spellAt depth inner ++ ">"
    | some (.pointer inner) => "ptr<" ++ reg.spellAt depth inner ++ ">"
    | some (.tuple a b) => "(" ++ reg.spellAt depth a ++ ", " ++ reg.spellAt depth b ++ ")"
    | some (.record _) => "struct"

def spell (id : ResultId) : String :=
  match reg.handle? id with
  | some h => reg.spellAt maxSpelledDepth h
  | none => "?" ++ id.text

end TypeRegistry

end ShaderIR
