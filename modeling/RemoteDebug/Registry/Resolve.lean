import RemoteDebug.Location
import RemoteDebug.Registry.Basic

/-!
# Lines and instructions

`locate` finds the instruction at which a breakpoint on a source line goes, `lineAt` the source
line of an instruction. A line may have code in several methods of several classes. `locate` takes
the smallest instruction, and of equally small ones the first in the order of the registry.
-/

namespace RemoteDebug

/-- What cannot be resolved. -/
inductive Unresolved where
  | line (line : UInt32) (source : String)
  | pc (pc : UInt32) (className methodName descriptor : String)
  deriving DecidableEq, Repr

/-- The wording of what cannot be resolved. -/
def Unresolved.message : Unresolved → String
  | .line n source => s!"No bytecode for line {n.toNat} in {source}"
  | .pc n className methodName descriptor =>
    s!"No line for pc {n.toNat} in {className}.{methodName}{descriptor}"

namespace Registry

/-- The methods with code for a source line, each with the first instruction of the line. -/
def candidates (r : Registry) (line : UInt16) (source : String) : List Location :=
  (r.classes.filter (·.source == source)).flatMap fun c =>
    c.file.methods.filterMap fun m => do
      let pc ← m.firstPc line
      return ⟨c.source, line.toUInt32, pc.toUInt32, c.name, m.name, m.descriptor⟩

/-- The instruction that carries a source line. -/
def locate (r : Registry) (line : UInt32) (source : String) : Except Unresolved Location :=
  if line.toNat < 65536 then
    match firstBest (fun later earlier => later.pc < earlier.pc)
        (r.candidates line.toUInt16 source) with
    | some l => .ok l
    | none => .error (.line line source)
  else .error (.line line source)

/-- The source line that an instruction belongs to. -/
def lineAt (r : Registry) (pc : UInt32) (className methodName descriptor : String) :
    Except Unresolved Location :=
  let name := normalize className
  let found := do
    let c ← r.classes.find? (·.name == name)
    let m ← c.file.method? methodName descriptor
    let line ← m.lineAt pc
    return ⟨c.source, line.toUInt32, pc, c.name, methodName, descriptor⟩
  match found with
  | some l => .ok l
  | none => .error (.pc pc name methodName descriptor)

end Registry

end RemoteDebug
