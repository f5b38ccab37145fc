import SymbolicDex.Analysis.Transfer
import SymbolicDex.Opcode.FieldAccess

/- Restoring the symbolic form of the optimizer's instructions. -/
namespace SymbolicDex

namespace Site

/-- The class an object register holds. A register that is always null, or
    holds no reference of a known class, is not usable. -/
def objectClass (s : Site) (opcode : Opcode) (register : Nat) : Rule Descriptor := do
  let object ← s.objectType register
  match object.category, object.cls with
  | .null, _ => Rule.park register none
  | .reference, some d | .uninitRef, some d | .uninitThis, some d =>
    if d = Descriptor.unknown then Rule.park register (some (.nonReference opcode object))
    else return d
  | _, _ => Rule.park register (some (.nonReference opcode object))

/-- The answer of a lookup on an object register; a failed one waits for
    another type. -/
def lookup {α : Type} (register : Nat) (l : Lookup α) : Rule α := do
  match ← (l.run : ExceptT Halt Query _) with
  | .ok a => return a
  | .error (.failed f) => throw (.parked register (some f))
  | .error .endless => throw .endless

def restoreQuickField (s : Site) (i : Instruction) : Rule Instruction := do
  let offset ← match i.reference with
    | some (.fieldOffset offset) => pure offset
    | _ => Rule.fail (.noOffset i.opcode)
  let register ← operand i 1
  let object ← s.objectClass i.opcode register
  let field ← lookup register (s.path.resolveField s.cls.descriptor object offset)
  match i.opcode.plainAccess? field.type with
  | some opcode => return (i.withOpcode opcode).withReference (.field field)
  | none => Rule.park register (some (.fieldType field.type i.opcode))

def vtableIndex (i : Instruction) : Rule Nat :=
  match i.reference with
  | some (.vtableIndex index) => return index
  | _ => Rule.fail (.noVtableIndex i.opcode)

def restoreQuickCall (s : Site) (i : Instruction) : Rule Instruction := do
  let index ← vtableIndex i
  let register ← operand i 0
  let object ← s.objectClass i.opcode register
  let method ← lookup register (s.path.resolveMethod s.cls.descriptor object index false)
  let opcode := if i.opcode.format.isRange then Opcode.invokeVirtualRange else .invokeVirtual
  return (i.withOpcode opcode).withReference (.method method)

/-- The target is found in the superclass of the class of the method, so no
    register is involved and nothing can be waited for. -/
def restoreSuperCall (s : Site) (i : Instruction) : Rule Instruction := do
  let index ← vtableIndex i
  let superclass ← Rule.need s.cls.superclass (.noSuperclass i.opcode s.cls.descriptor)
  match ← ((s.path.resolveMethod s.cls.descriptor superclass index true).run :
      ExceptT Halt Query _) with
  | .error (.failed f) => throw (.failed f)
  | .error .endless => throw .endless
  | .ok method =>
    let opcode := if i.opcode.format.isRange then Opcode.invokeSuperRange else .invokeSuper
    return (i.withOpcode opcode).withReference (.method method)

def restoreInline (s : Site) (i : Instruction) : Rule Instruction := do
  let index ← match i.reference with
    | some (.inlineIndex index) => pure index
    | _ => Rule.fail (.noInlineIndex i.opcode)
  let target ← Rule.need (s.path.inlineTable.method? index) (.inlineIndex index)
  return (i.withOpcode (target.invokeOpcode i.opcode.format.isRange)).withReference
    (.method target.method)

def restoreVolatile (i : Instruction) : Rule Instruction := do
  let field ← Rule.need i.fieldRef? (.noField i.opcode)
  let opcode ← Rule.need (i.opcode.plainAccess? field.type) (.fieldType field.type i.opcode)
  return i.withOpcode opcode

/-- The constructor that invoke-object-init stands for. -/
def objectConstructor : MethodRef := ⟨Descriptor.object, "<init>", ⟨[], "V"⟩⟩

/-- The symbolic form, and whether its own effect on the registers follows in
    the same step. -/
def restore (s : Site) (i : Instruction) : Rule (Instruction × Bool) :=
  match i.opcode with
  | .returnVoidBarrier | .returnVoidNoBarrier => return (i.withOpcode .returnVoid, true)
  | .igetQuick | .igetWideQuick | .igetObjectQuick | .igetBooleanQuick | .igetByteQuick
  | .igetCharQuick | .igetShortQuick
  | .iputQuick | .iputWideQuick | .iputObjectQuick | .iputBooleanQuick | .iputByteQuick
  | .iputCharQuick | .iputShortQuick => do return (← s.restoreQuickField i, true)
  | .invokeVirtualQuick | .invokeVirtualQuickRange => do return (← s.restoreQuickCall i, true)
  | .invokeSuperQuick | .invokeSuperQuickRange => do return (← s.restoreSuperCall i, true)
  | .executeInline | .executeInlineRange => do return (← s.restoreInline i, false)
  | .invokeDirectEmpty => return (i.withOpcode .invokeDirect, true)
  | .invokeObjectInitRange =>
    return ((i.withOpcode .invokeDirectRange).withReference (.method objectConstructor), true)
  | .igetVolatile | .igetWideVolatile | .igetObjectVolatile
  | .iputVolatile | .iputWideVolatile | .iputObjectVolatile
  | .sgetVolatile | .sgetWideVolatile | .sgetObjectVolatile
  | .sputVolatile | .sputWideVolatile | .sputObjectVolatile => do
    return (← restoreVolatile i, true)
  | _ => return (i, true)

/-- Outcome of analysing one instruction: its form afterwards, which stays
    whatever follows, and the state after it or why there is none. -/
structure Effect where
  current : Instruction
  post : Except Halt (List RegisterType)

/-- Restores the instruction of the site and applies it. -/
def transfer (s : Site) : Query Effect := do
  match ← (s.restore s.current).run with
  | .error h => return ⟨s.current, .error h⟩
  | .ok (i, false) => return ⟨i, .ok s.pre⟩
  | .ok (i, true) => return ⟨i, ← (s.apply i).run⟩

end Site

end SymbolicDex
