import Offload.Program

/-!
Assembling a program: instructions are appended to a buffer of limited size, and the opcode of the
last one may still be replaced.
-/

namespace Offload

/-- `last` is where the last accepted instruction begins, `count` how many were accepted. -/
structure Assembly where
  limit : Nat
  code : Bytes := []
  last : Option Nat := none
  count : Nat := 0
  deriving DecidableEq, Repr

namespace Assembly

/-- Appends an instruction; one that would outgrow the limit leaves no trace. -/
def emit (i : Instruction) : Action Assembly Unit := do
  let a ← get
  match i.write with
  | (bytes, some cause) =>
    -- the operands before the one without an encoding are written all the same
    set { a with code := a.code ++ bytes }
    throw (.config cause)
  | (bytes, none) =>
    let code := a.code ++ bytes
    if a.limit < code.length then throw (.encoding a.limit)
    set { a with code, last := some a.code.length, count := a.count + 1 }

def lastOpcode? (a : Assembly) : Option Opcode := do
  let byte ← a.code[← a.last]?
  Opcode.ofByte? byte

/-- Replaces the opcode of the last instruction, which has to be `source`. -/
def rewriteLast (source target : Opcode) : Action Assembly Unit := do
  let a ← get
  match a.last with
  | some last =>
    if a.lastOpcode? = some source then set { a with code := a.code.set last target.byte }
    else throw (.config (.rewriteMismatch source target a.lastOpcode?))
  | none => throw (.config (.rewriteMismatch source target none))

def program (a : Assembly) (lists : List (List Nat)) : Program :=
  { code := a.code, lists }

end Assembly
end Offload
