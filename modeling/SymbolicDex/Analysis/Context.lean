import SymbolicDex.Analysis.FlowGraph

/- The method under analysis. -/
namespace SymbolicDex

/-- What stays the same during the analysis of a method. -/
structure MethodContext where
  path : ClassPath
  cls : ClassDef
  method : MethodDef
  code : Code
  graph : FlowGraph
  /-- Registers on entry. -/
  start : List RegisterType

namespace MethodContext

def methodRef (c : MethodContext) : MethodRef := c.method.ref c.cls.descriptor

/-- Register types of a value of a descriptor, both halves of a wide one. -/
def valueTypes (d : Descriptor) : List RegisterType :=
  let t := RegisterType.ofDescriptor d
  t :: t.wideHigh?.toList

/-- `this` on entry; a constructor gets it uninitialized. -/
def thisType (cls : ClassDef) (m : MethodDef) : RegisterType :=
  if m.name = "<init>" ∧ cls.descriptor ≠ Descriptor.object then
    ⟨.uninitThis, some cls.descriptor⟩
  else RegisterType.reference cls.descriptor

/-- Registers on entry: the parameters in the last registers of the frame,
    `this` in front of them, everything before never written. -/
def startTypes (cls : ClassDef) (m : MethodDef) (registers : Nat) :
    Except AnalysisFailure (List RegisterType) :=
  if registers < m.registerCount then
    .error (AnalysisFailure.of (.parametersTooWide m.registerCount registers))
  else
    .ok (List.replicate (registers - m.registerCount) RegisterType.uninit ++
      (if m.isStatic then [] else [thisType cls m]) ++ m.prototype.params.flatMap valueTypes)

/-- A method without code cannot be analysed. -/
def of (path : ClassPath) (cls : ClassDef) (m : MethodDef) :
    Except AnalysisFailure MethodContext :=
  let ref := m.ref cls.descriptor
  match m.code with
  | none => .error (AnalysisFailure.of (.noCode ref))
  | some code => do
    let located {α : Type} (x : Except AnalysisFailure α) :=
      x.mapError (·.within ("method: " ++ ref.text))
    let start ← located (startTypes cls m code.registers)
    let graph ← located (FlowGraph.build code)
    return ⟨path, cls, m, code, graph, start⟩

end MethodContext

end SymbolicDex
