import Offload.Bytes
import Offload.Malformed

/-!
Byte strings written with two hexadecimal digits a byte.
-/

namespace Offload.Bytes

def toHex (bytes : Bytes) : String :=
  String.join (bytes.map Malformed.hexByte)

def digit? (c : Char) : Option Nat :=
  if '0' ≤ c ∧ c ≤ '9' then some (c.toNat - '0'.toNat)
  else if 'a' ≤ c ∧ c ≤ 'f' then some (c.toNat - 'a'.toNat + 10)
  else none

/-- The bytes of digit pairs. -/
def ofPairs? : List Char → Option Bytes
  | [] => some []
  | a :: b :: rest => do
    let high ← digit? a
    let low ← digit? b
    return UInt8.ofNat (16 * high + low) :: (← ofPairs? rest)
  | [_] => none

def ofHex? (s : String) : Option Bytes :=
  ofPairs? s.toList

end Offload.Bytes
