import Offload.Kernel.Stock

/-!
The ready-made kernels by name.
-/

namespace Offload.Kernel

def ofName? : String → Option Kernel
  | "panic" => some crashing
  | "nop" => some idle
  | "debug" => some describing
  | "inc" => some increment
  | "copy" => some copy
  | "geometry" => some shape
  | "sizes" => some sizes
  | "scale" => some scale
  | "sum_plus_one" => some sumPlusOne
  | _ => none

/-- A kernel by its name, or by its name with a parameter. -/
def ofJson? : Json → Option Kernel
  | .object [(some "vector_add", type)] => do
    let name ← type.text?
    (Numeric.all.find? (·.name == name)).map vectorAdd
  | .object [(some "fail", text)] => text.text?.map failing
  | .object [(some "probe", argument)] => (argument.natural? wordLimit).map probing
  | j => j.text?.bind ofName?

end Offload.Kernel
