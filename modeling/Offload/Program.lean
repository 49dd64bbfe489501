import Offload.Instruction.Codec

/-!
A program: bytecode with the table of its dependency lists. Decoding a program checks that it begins
with BEGIN, ends with END, has neither in between, and names only lists that the table has.
-/

namespace Offload

structure Program where
  code : Bytes
  lists : List (List Nat)
  deriving DecidableEq, Repr

namespace Program

def size (p : Program) : Nat :=
  p.code.length

/-- What is wrong with finding `i` at this place of a program whose table has `lists` lists. -/
def placeFault (lists : Nat) (first : Bool) (i : Instruction) : Option Malformed :=
  if first ∧ i.opcode ≠ .begin then some (.startsWith i.opcode)
  else if ¬first ∧ i.opcode = .begin then some .repeatedBegin
  else match i.list? with
    | some list => if list < lists then none else some (.missingList list)
    | none => none

/-- The instructions of `bytes`, which `offset` bytes come before; `fuel` bounds their number. -/
def decodeFrom (lists : Nat) : (fuel offset : Nat) → Bytes → Except Error (List Instruction)
  | _, offset, [] => throw (.decode offset .unfinished)
  | 0, offset, _ => throw (.decode offset .unfinished)
  | fuel + 1, offset, bytes =>
    match Instruction.scan bytes with
    | .error cause => throw (.decode offset cause)
    | .ok (i, rest) =>
      match placeFault lists (offset = 0) i with
      | some cause => throw (.decode offset cause)
      | none =>
        let next := offset + (bytes.length - rest.length)
        if i.opcode = .finish then
          if rest = [] then pure [i] else throw (.decode next .trailingBytes)
        else do
          return i :: (← decodeFrom lists fuel next rest)

def decode (p : Program) : Except Error (List Instruction) :=
  -- each instruction takes at least a byte, so there is fuel enough
  decodeFrom p.lists.length p.code.length 0 p.code

def undecodable (e : Error) : String :=
  s!"<undecodable: {e.message}>"

def listLines (lists : List (List Nat)) : List String :=
  lists.mapIdx fun i list => s!"L{i}: {Text.naturals list}"

def instructionLines (p : Program) : List String :=
  match p.decode with
  | .error e => [undecodable e]
  | .ok instructions => instructions.mapIdx fun index i => s!"{Text.padLeft 4 (toString index)}: {i.label}"

/-- The dependency lists and then the instructions, one a line. -/
def listing (p : Program) : String :=
  String.join ((listLines p.lists ++ p.instructionLines).map (· ++ "\n"))

def describe (p : Program) : String :=
  Text.record "BytecodeProgram"
    [("code", Text.naturals (p.code.map UInt8.toNat)), ("dep_lists", Text.list (p.lists.map Text.naturals))]

end Program
end Offload
