import Offload.Bytes
import Offload.Malformed

/-!
Numbers in groups of seven bits, the lowest group first, the top bit of a byte saying that another
group follows. Main statement: a number below 2^64 reads back from its groups, whatever follows them.
-/

namespace Offload.Varint

/-- The groups of `n`, as few as it needs. -/
def encode (n : Nat) : Bytes :=
  if n < 128 then [UInt8.ofNat n] else UInt8.ofNat (n % 128 + 128) :: encode (n / 128)
termination_by n
decreasing_by omega

/-- The number whose groups open the bytes, and what follows; at most `more` groups follow the first. -/
def decodeWithin (more : Nat) : Bytes → Except Malformed (Nat × Bytes)
  | [] => .error .truncatedVarint
  | b :: rest =>
    -- nine groups leave one bit of a 64-bit word, so the tenth is at most 1 and the last
    if more = 0 ∧ 1 < b then .error .varintOverflow
    else if b < 128 then .ok (b.toNat, rest)
    else do
      let (high, rest) ← decodeWithin (more - 1) rest
      return (b.toNat - 128 + 128 * high, rest)

def decode (bytes : Bytes) : Except Malformed (Nat × Bytes) :=
  decodeWithin 9 bytes

/-- One more than the largest number that has at most `more` groups after its first. -/
def bound : (more : Nat) → Nat
  | 0 => 2
  | more + 1 => 128 * bound more

theorem bound_nine : bound 9 = wordLimit :=
  rfl

theorem decodeWithin_encode {n more : Nat} (h : n < bound more) (rest : Bytes) :
    decodeWithin more (encode n ++ rest) = .ok (n, rest) := by
  induction more generalizing n with
  | zero =>
    have hn : n < 2 := h
    have hsmall : ¬1 < UInt8.ofNat n := by
      simp only [UInt8.lt_iff_toNat_lt, UInt8.toNat_ofNat']
      simp
      omega
    have hlast : UInt8.ofNat n < 128 := by
      simp only [UInt8.lt_iff_toNat_lt, UInt8.toNat_ofNat']
      simp
      omega
    have hmod : n % 256 = n := by omega
    rw [encode, if_pos (by omega)]
    simp [decodeWithin, hsmall, hlast, hmod]
  | succ more ih =>
    rw [encode]
    split
    case isTrue hn =>
      have hlast : UInt8.ofNat n < 128 := by
        simp only [UInt8.lt_iff_toNat_lt, UInt8.toNat_ofNat']
        simp
        omega
      have hmod : n % 256 = n := by omega
      simp [decodeWithin, hlast, hmod]
    case isFalse hn =>
      have hfollowed : ¬UInt8.ofNat (n % 128 + 128) < 128 := by
        simp only [UInt8.lt_iff_toNat_lt, UInt8.toNat_ofNat']
        simp
        omega
      have hdiv : n / 128 < bound more := by
        simp only [bound] at h
        omega
      have hvalue : (n % 128 + 128) % 256 - 128 + 128 * (n / 128) = n := by omega
      simp only [List.cons_append, decodeWithin]
      rw [if_neg (by simp), if_neg hfollowed]
      simp [ih hdiv, hvalue, bind, Except.bind, pure, Except.pure]

theorem decode_encode {n : Nat} (h : n < wordLimit) (rest : Bytes) :
    decode (encode n ++ rest) = .ok (n, rest) :=
  decodeWithin_encode (bound_nine ▸ h) rest

end Offload.Varint
