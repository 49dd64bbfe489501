import Offload.Opcode

/-!
What can be wrong with bytes that should be bytecode.
-/

namespace Offload

inductive Malformed
  | endOfProgram
  | unknownOpcode (byte : UInt8)
  | truncatedVarint
  | varintOverflow
  | truncatedWaitList
  | invalidWaitList (index : Int)
  | truncatedOperands (opcode : Opcode)
  | startsWith (opcode : Opcode)
  | repeatedBegin
  | missingList (list : Nat)
  | trailingBytes
  | unfinished
  | listCount (declared present : Nat)
  | other (text : String)
  deriving DecidableEq, Repr

namespace Malformed

def hexByte (b : UInt8) : String :=
  let digit (n : Nat) := (Nat.digitChar n).toString
  digit (b.toNat / 16) ++ digit (b.toNat % 16)

def message : Malformed → String
  | endOfProgram => "unexpected end of program"
  | unknownOpcode byte => "unknown opcode 0x" ++ hexByte byte
  | truncatedVarint => "truncated varint"
  | varintOverflow => "varint overflows 64 bits"
  | truncatedWaitList => "truncated dependency list operand"
  | invalidWaitList index => s!"invalid dependency list {index}"
  | truncatedOperands opcode => s!"truncated {opcode.mnemonic} operands"
  | startsWith opcode => s!"program starts with {opcode.mnemonic}"
  | repeatedBegin => "BEGIN in the middle of a program"
  | missingList list => s!"dependency list {list} does not exist"
  | trailingBytes => "trailing bytes after END"
  | unfinished => "program does not end with END"
  | listCount declared present =>
    s!"BEGIN declares {declared} dependency lists, program has {present}"
  | other text => text

end Malformed
end Offload
