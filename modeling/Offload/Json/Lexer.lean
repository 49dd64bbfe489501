import Offload.Json

/-!
The tokens of a JSON text. Strings are scanned into code units first, so that a string whose escapes
leave a surrogate alone is still a token, only one without a text. Main statement: scanning a string
leaves a shorter rest, which is why `tokens?` ends.
-/

namespace Offload.Json

inductive Token
  | openArray
  | closeArray
  | openObject
  | closeObject
  | comma
  | colon
  | leaf (value : Json)

def hexDigit? (c : Char) : Option Nat :=
  if '0' ≤ c ∧ c ≤ '9' then some (c.toNat - '0'.toNat)
  else if 'a' ≤ c ∧ c ≤ 'f' then some (c.toNat - 'a'.toNat + 10)
  else if 'A' ≤ c ∧ c ≤ 'F' then some (c.toNat - 'A'.toNat + 10)
  else none

def escape? : Char → Option Nat
  | '"' => some 0x22
  | '\\' => some 0x5c
  | '/' => some 0x2f
  | 'b' => some 8
  | 'f' => some 12
  | 'n' => some 10
  | 'r' => some 13
  | 't' => some 9
  | _ => none

/--
The code units of a string literal after its opening quote, and what follows its closing one. Raw
control characters are refused.
-/
def scanString : List Char → Option (List Nat × List Char)
  | [] => none
  | '"' :: rest => some ([], rest)
  | '\\' :: 'u' :: a :: b :: c :: d :: rest => do
    let unit := 4096 * (← hexDigit? a) + 256 * (← hexDigit? b) + 16 * (← hexDigit? c) + (← hexDigit? d)
    let (units, rest) ← scanString rest
    some (unit :: units, rest)
  | '\\' :: c :: rest => do
    let unit ← escape? c
    let (units, rest) ← scanString rest
    some (unit :: units, rest)
  | c :: rest =>
    if c.toNat < 32 then none
    else do
      let (units, rest) ← scanString rest
      some (c.toNat :: units, rest)

theorem scanString_length {cs rest : List Char} {units : List Nat}
    (h : scanString cs = some (units, rest)) : rest.length < cs.length := by
  fun_induction scanString cs generalizing units rest <;>
    simp_all [Option.bind_eq_some_iff]
  all_goals grind

/-- The text that code units spell: each half of a surrogate pair needs the other one beside it. -/
def spell? : List Nat → Option (List Char)
  | [] => some []
  | [u] => if 0xd800 ≤ u ∧ u < 0xe000 then none else some [Char.ofNat u]
  | u :: v :: rest =>
    if 0xd800 ≤ u ∧ u < 0xdc00 ∧ 0xdc00 ≤ v ∧ v < 0xe000 then
      (spell? rest).map (Char.ofNat (0x10000 + (u - 0xd800) * 0x400 + (v - 0xdc00)) :: ·)
    else if 0xd800 ≤ u ∧ u < 0xe000 then none
    else (spell? (v :: rest)).map (Char.ofNat u :: ·)

/-- Nothing, or a mark of an exponent, a sign that may be left out, and digits. -/
def isExponent : List Char → Bool
  | [] => true
  | c :: rest =>
    let digits := match rest with
      | '+' :: rest | '-' :: rest => rest
      | rest => rest
    (c == 'e' || c == 'E') && !digits.isEmpty && digits.all Char.isDigit

/-- A point and digits, if anything, and then an exponent. -/
def isFraction : List Char → Bool
  | '.' :: rest => !(rest.takeWhile Char.isDigit).isEmpty && isExponent (rest.dropWhile Char.isDigit)
  | rest => isExponent rest

/-- Digits without a leading zero, but for zero itself. -/
def isWhole (digits : List Char) : Bool :=
  !digits.isEmpty && digits.all Char.isDigit && (digits.head? != some '0' || digits.length == 1)

def number? (run : List Char) : Option Json :=
  if isWhole run then
    some (.natural (run.foldl (fun n c => 10 * n + (c.toNat - '0'.toNat)) 0))
  else
    let unsigned := match run with
      | '-' :: rest => rest
      | _ => run
    if isWhole (unsigned.takeWhile Char.isDigit) && isFraction (unsigned.dropWhile Char.isDigit) then
      some (.decimal (String.ofList run))
    else none

def word? (run : List Char) : Option Json :=
  if run = "null".toList then some .null
  else if run = "true".toList then some (.bool true)
  else if run = "false".toList then some (.bool false)
  else none

def isBlank (c : Char) : Bool :=
  c == ' ' || c == '\n' || c == '\r' || c == '\t'

def isNumeral (c : Char) : Bool :=
  c.isDigit || c == '-' || c == '+' || c == '.' || c == 'e' || c == 'E'

def mark? : Char → Option Token
  | '[' => some .openArray
  | ']' => some .closeArray
  | '\x7b' => some .openObject
  | '\x7d' => some .closeObject
  | ',' => some .comma
  | ':' => some .colon
  | _ => none

/-- The tokens of a text, or nothing if some part of it is no token. -/
def tokens? : List Char → Option (List Token)
  | [] => some []
  | c :: rest =>
    if isBlank c then tokens? rest
    else match mark? c with
      | some mark => (tokens? rest).map (mark :: ·)
      | none =>
        if c = '"' then
          match _h : scanString rest with
          | none => none
          | some (units, rest') =>
            (tokens? rest').map (.leaf (.string ((spell? units).map String.ofList)) :: ·)
        else if c.isDigit || c == '-' then do
          let value ← number? (c :: rest.takeWhile isNumeral)
          (tokens? (rest.dropWhile isNumeral)).map (.leaf value :: ·)
        else do
          let value ← word? (c :: rest.takeWhile Char.isAlpha)
          (tokens? (rest.dropWhile Char.isAlpha)).map (.leaf value :: ·)
termination_by cs => cs.length
decreasing_by
  · simp
  · simp
  · have := scanString_length _h
    simp
    omega
  · have := (List.dropWhile_sublist (l := rest) isNumeral).length_le
    simp
    omega
  · have := (List.dropWhile_sublist (l := rest) Char.isAlpha).length_le
    simp
    omega

end Offload.Json
