import Offload.Error
import Offload.Json.Reader

/-!
The settings of a platform: the bytecode budget, the numbers that shape launches, and how scalars are
transferred.
-/

namespace Offload

structure Config where
  maxBytecodeSize : Nat := 4096
  gpuBlockX : Nat := 256
  gpuBlock2dX : Nat := 4
  gpuBlock2dY : Nat := 4
  gpuWarp : Nat := 32
  adjustIrregular : Bool := false
  cpuBlock : Nat := 128
  fpgaWarp : Nat := 32
  fpgaLocalWork : Nat := 64
  /-- Scalars are written on every execution instead of once for each buffer. -/
  benchmarkingMode : Bool := false
  queueThreadName : String := "accelvm-queue"
  deriving DecidableEq, Repr

namespace Config

def positives (c : Config) : List (String × Nat) :=
  [("gpu_block_x", c.gpuBlockX), ("gpu_block_2d_x", c.gpuBlock2dX), ("gpu_block_2d_y", c.gpuBlock2dY),
    ("gpu_warp", c.gpuWarp), ("cpu_block", c.cpuBlock), ("fpga_warp", c.fpgaWarp),
    ("fpga_local_work", c.fpgaLocalWork)]

def validate (c : Config) : Except Error Unit :=
  if c.maxBytecodeSize < 16 then throw (.config .smallBytecodeLimit)
  else match c.positives.find? (·.2 == 0) with
    | some (name, _) => throw (.config (.zeroSetting name))
    | none => if c.queueThreadName.isEmpty then throw (.config .emptyThreadName) else pure ()

/-- One setting changed on the way to a configuration. -/
inductive Setting
  | maxBytecodeSize (bytes : Nat)
  | gpuBlockX (block : Nat)
  | gpuBlock2d (x y : Nat)
  | adjustIrregular (on : Bool)
  | cpuBlock (block : Nat)
  | fpga (warp localWork : Nat)
  | benchmarkingMode (on : Bool)
  | queueThreadName (name : String)

def set (c : Config) : Setting → Config
  | .maxBytecodeSize bytes => { c with maxBytecodeSize := bytes }
  | .gpuBlockX block => { c with gpuBlockX := block }
  | .gpuBlock2d x y => { c with gpuBlock2dX := x, gpuBlock2dY := y }
  | .adjustIrregular on => { c with adjustIrregular := on }
  | .cpuBlock block => { c with cpuBlock := block }
  | .fpga warp localWork => { c with fpgaWarp := warp, fpgaLocalWork := localWork }
  | .benchmarkingMode on => { c with benchmarkingMode := on }
  | .queueThreadName name => { c with queueThreadName := name }

def Setting.ofJson? : Json → Option Setting
  | .array [.string (some "max_bytecode_size"), n] => (n.natural? wordLimit).map .maxBytecodeSize
  | .array [.string (some "gpu_block_x"), n] => (n.natural? wordLimit).map .gpuBlockX
  | .array [.string (some "gpu_block_2d"), x, y] => do
    return .gpuBlock2d (← x.natural? wordLimit) (← y.natural? wordLimit)
  | .array [.string (some "adjust_irregular"), on] => on.bool?.map .adjustIrregular
  | .array [.string (some "cpu_block"), n] => (n.natural? wordLimit).map .cpuBlock
  | .array [.string (some "fpga"), warp, localWork] => do
    return .fpga (← warp.natural? wordLimit) (← localWork.natural? wordLimit)
  | .array [.string (some "benchmarking_mode"), on] => on.bool?.map .benchmarkingMode
  | .array [.string (some "queue_thread_name"), name] => name.text?.map .queueThreadName
  | _ => none

/-- The defaults with the settings applied in order, if the result is valid. -/
def build (settings : List Setting) : Except Error Config := do
  let c := settings.foldl set {}
  c.validate
  return c

def describe (c : Config) : String :=
  Text.record "Config"
    [("max_bytecode_size", toString c.maxBytecodeSize), ("gpu_block_x", toString c.gpuBlockX),
      ("gpu_block_2d_x", toString c.gpuBlock2dX), ("gpu_block_2d_y", toString c.gpuBlock2dY),
      ("gpu_warp", toString c.gpuWarp), ("adjust_irregular", toString c.adjustIrregular),
      ("cpu_block", toString c.cpuBlock), ("fpga_warp", toString c.fpgaWarp),
      ("fpga_local_work", toString c.fpgaLocalWork),
      ("benchmarking_mode", toString c.benchmarkingMode),
      ("queue_thread_name", Text.quote c.queueThreadName)]

def fieldNames : List String :=
  ["max_bytecode_size", "gpu_block_x", "gpu_block_2d_x", "gpu_block_2d_y", "gpu_warp",
    "adjust_irregular", "cpu_block", "fpga_warp", "fpga_local_work", "benchmarking_mode",
    "queue_thread_name"]

def toJson (c : Config) : Json :=
  .record (fieldNames.zip
    [.natural c.maxBytecodeSize, .natural c.gpuBlockX, .natural c.gpuBlock2dX, .natural c.gpuBlock2dY,
      .natural c.gpuWarp, .bool c.adjustIrregular, .natural c.cpuBlock, .natural c.fpgaWarp,
      .natural c.fpgaLocalWork, .bool c.benchmarkingMode, .text c.queueThreadName])

/-- A field that keeps its default when it is left out. -/
def field? {α : Type} (value? : Json → Option α) (default : α) : Option Json → Option α
  | none => some default
  | some j => value? j

/-- Every field may be left out, also at the end of an array. -/
def ofJson? (j : Json) : Option Config := do
  let word := Json.natural? wordLimit
  let base : Config := {}
  let [a, b, c, d, e, f, g, h, i, k, l] ← j.fields? fieldNames | none
  some {
    maxBytecodeSize := ← field? word base.maxBytecodeSize a
    gpuBlockX := ← field? word base.gpuBlockX b
    gpuBlock2dX := ← field? word base.gpuBlock2dX c
    gpuBlock2dY := ← field? word base.gpuBlock2dY d
    gpuWarp := ← field? word base.gpuWarp e
    adjustIrregular := ← field? Json.bool? base.adjustIrregular f
    cpuBlock := ← field? word base.cpuBlock g
    fpgaWarp := ← field? word base.fpgaWarp h
    fpgaLocalWork := ← field? word base.fpgaLocalWork i
    benchmarkingMode := ← field? Json.bool? base.benchmarkingMode k
    queueThreadName := ← field? Json.text? base.queueThreadName l }

def read (source : String) : Except Error Config := do
  let some c := (Json.parse? source).bind ofJson? | throw .json
  c.validate
  return c

end Config
end Offload
