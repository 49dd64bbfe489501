import Offload.Object

/-!
The machine number types that fill host objects and kernel arguments. A number is held as the word of
its bits, so integers wrap at their width and floats keep every bit. Main statement: words that
fit their width read back from their bytes.
-/

namespace Offload

inductive Numeric
  | u8
  | i8
  | u16
  | i16
  | i32
  | u32
  | f32
  | i64
  | u64
  | f64
  deriving DecidableEq, Repr

namespace Numeric

def all : List Numeric :=
  [.u8, .i8, .u16, .i16, .i32, .u32, .f32, .i64, .u64, .f64]

def name : Numeric → String
  | .u8 => "u8"
  | .i8 => "i8"
  | .u16 => "u16"
  | .i16 => "i16"
  | .i32 => "i32"
  | .u32 => "u32"
  | .f32 => "f32"
  | .i64 => "i64"
  | .u64 => "u64"
  | .f64 => "f64"

def element : Numeric → Element
  | .u8 | .i8 => .byte
  | .u16 => .char
  | .i16 => .short
  | .i32 | .u32 => .int
  | .f32 => .float
  | .i64 | .u64 => .long
  | .f64 => .double

def width (t : Numeric) : Nat :=
  t.element.size

def isFloat : Numeric → Bool
  | .f32 | .f64 => true
  | _ => false

def isSigned : Numeric → Bool
  | .i8 | .i16 | .i32 | .i64 => true
  | _ => false

def range (t : Numeric) : Nat :=
  Bytes.bound t.width

/-- The integer that a word stands for. -/
def toInt (t : Numeric) (word : Nat) : Int :=
  if t.isSigned ∧ t.range ≤ 2 * word then (word : Int) - t.range else word

/-- The word of the number closest to `n`: integers keep their low bits. -/
def ofInt (t : Numeric) (n : Int) : Nat :=
  match t with
  | .f32 => (Int64.ofInt n).toFloat32.toBits.toNat
  | .f64 => (Int64.ofInt n).toFloat.toBits.toNat
  | t => (n % t.range).toNat

/-- How a float type spells the values that are not numbers. -/
structure Special where
  /-- The sign bit, above which there is nothing. -/
  sign : Nat
  /-- The word of infinity; words above it, but for the sign bit, are not numbers. -/
  infinity : Nat
  /-- The bit that a value which is not a number has once arithmetic was done with it. -/
  quiet : Nat
  /-- The result of an operation that has none, such as infinity times zero. -/
  invalid : Nat

namespace Special

def single : Special :=
  { sign := 0x80000000, infinity := 0x7f800000, quiet := 0x400000, invalid := 0xffc00000 }

def double : Special :=
  { sign := 0x8000000000000000, infinity := 0x7ff0000000000000, quiet := 0x8000000000000,
    invalid := 0xfff8000000000000 }

def isNumber (s : Special) (word : Nat) : Bool :=
  word % s.sign ≤ s.infinity

/-- The result of an operation on `a` and `b`, which is `word` if all three are numbers. -/
def settle (s : Special) (a b word : Nat) : Nat :=
  if !s.isNumber a then a ||| s.quiet
  else if !s.isNumber b then b ||| s.quiet
  else if !s.isNumber word then s.invalid
  else word

end Special

def addSingle (a b : Nat) : Nat :=
  (Float32.ofBits (UInt32.ofNat a) + Float32.ofBits (UInt32.ofNat b)).toBits.toNat

def addDouble (a b : Nat) : Nat :=
  (Float.ofBits (UInt64.ofNat a) + Float.ofBits (UInt64.ofNat b)).toBits.toNat

def mulSingle (a b : Nat) : Nat :=
  (Float32.ofBits (UInt32.ofNat a) * Float32.ofBits (UInt32.ofNat b)).toBits.toNat

def mulDouble (a b : Nat) : Nat :=
  (Float.ofBits (UInt64.ofNat a) * Float.ofBits (UInt64.ofNat b)).toBits.toNat

def add (t : Numeric) (a b : Nat) : Nat :=
  match t with
  | .f32 => Special.single.settle a b (addSingle a b)
  | .f64 => Special.double.settle a b (addDouble a b)
  | t => (a + b) % t.range

def mul (t : Numeric) (a b : Nat) : Nat :=
  match t with
  | .f32 => Special.single.settle a b (mulSingle a b)
  | .f64 => Special.double.settle a b (mulDouble a b)
  | t => (a * b) % t.range

def decode (t : Numeric) (bytes : Bytes) : List Nat :=
  Bytes.words t.width bytes

def encode (t : Numeric) (words : List Nat) : Bytes :=
  words.flatMap (Bytes.word t.width)

theorem width_pos (t : Numeric) : 0 < t.width :=
  t.element.size_pos

theorem decode_encode {t : Numeric} {words : List Nat} (h : ∀ word ∈ words, word < t.range) :
    t.decode (t.encode words) = words :=
  Bytes.words_flatMap_word t.width_pos h

end Numeric
end Offload
