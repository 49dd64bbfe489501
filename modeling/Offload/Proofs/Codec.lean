import Offload.Instruction.Codec
import Mathlib.Tactic.Linarith

/-!
Reading an instruction back from its bytes. Indices have to fit 64 bits, which a varint checks; words
are cut down to 64 bits, which nothing checks.
-/

namespace Offload

theorem Bytes.value_word_mod (width n : Nat) : value (word width n) = n % bound width := by
  induction width generalizing n with
  | zero => simp [word, value, bound, Nat.mod_one]
  | succ width ih =>
    simp only [word, value, bound, ih, UInt8.toNat_ofNat']
    rw [Nat.mod_mul]

theorem Bytes.bound_eight : bound 8 = wordLimit :=
  rfl

-- Only what fits a word is written in it.
theorem Bytes.word_mod (width n : Nat) : word width (n % bound width) = word width n := by
  induction width generalizing n with
  | zero => rfl
  | succ width ih =>
    have hlow : n % bound (width + 1) % 256 = n % 256 := Nat.mod_mod_of_dvd n ⟨bound width, rfl⟩
    have hhigh : n % bound (width + 1) / 256 = n / 256 % bound width := Nat.mod_mul_right_div_self n 256 _
    have hbyte : UInt8.ofNat (n % bound (width + 1)) = UInt8.ofNat n := by
      rw [← UInt8.toNat_inj, UInt8.toNat_ofNat', UInt8.toNat_ofNat']
      exact hlow
    rw [word, word, hbyte, hhigh, ih]

namespace Varint

theorem bound_pos (more : Nat) : 0 < bound more := by
  induction more with
  | zero => decide
  | succ more ih => simp only [bound]; omega

-- The tenth group has one bit left, so that no group follows it.
theorem decodeWithin_zero_overflow {b : UInt8} (h : 1 < b.toNat) (rest : Bytes) :
    decodeWithin 0 (b :: rest) = .error .varintOverflow := by
  have hb : 1 < b := UInt8.lt_iff_toNat_lt.mpr h
  simp [decodeWithin, hb]

theorem decodeWithin_encode_overflow {n more : Nat} (h : bound more ≤ n) (rest : Bytes) :
    decodeWithin more (encode n ++ rest) = .error .varintOverflow := by
  induction more generalizing n with
  | zero =>
    have hn : 2 ≤ n := h
    rw [encode]
    split
    case isTrue => exact decodeWithin_zero_overflow (by rw [UInt8.toNat_ofNat']; omega) _
    case isFalse => exact decodeWithin_zero_overflow (by rw [UInt8.toNat_ofNat']; omega) _
  | succ more ih =>
    have hbound : 128 * bound more ≤ n := h
    have hpos := bound_pos more
    have hfollowed : ¬UInt8.ofNat (n % 128 + 128) < 128 := by
      simp only [UInt8.lt_iff_toNat_lt, UInt8.toNat_ofNat']
      simp
      omega
    have hdiv : bound more ≤ n / 128 := by omega
    rw [encode, if_neg (by omega)]
    simp only [List.cons_append, decodeWithin]
    rw [if_neg (by simp), if_neg hfollowed]
    simp [ih hdiv, bind, Except.bind]

end Varint

namespace Scan

variable {α β : Type}

theorem bind_of_ok {x : Scan α} {f : α → Scan β} {a : α} {bytes rest : Bytes}
    (h : x bytes = .ok (a, rest)) : (x >>= f) bytes = f a rest := by
  change Except.bind (x bytes) _ = _
  rw [h]
  rfl

theorem bind_of_error {x : Scan α} {f : α → Scan β} {cause : Malformed} {bytes : Bytes}
    (h : x bytes = .error cause) : (x >>= f) bytes = .error cause := by
  change Except.bind (x bytes) _ = _
  rw [h]
  rfl

theorem bind_ok {x : Scan α} {f : α → Scan β} {b : β} {bytes rest : Bytes} :
    (x >>= f) bytes = .ok (b, rest) ↔ ∃ a mid, x bytes = .ok (a, mid) ∧ f a mid = .ok (b, rest) := by
  cases h : x bytes with
  | error cause => simp [bind_of_error h]
  | ok result =>
    obtain ⟨a, mid⟩ := result
    simp [bind_of_ok h]

theorem map_ok {x : Scan α} {f : α → β} {b : β} {bytes rest : Bytes} :
    (f <$> x) bytes = .ok (b, rest) ↔ ∃ a, x bytes = .ok (a, rest) ∧ f a = b := by
  rw [← bind_pure_comp, bind_ok]
  constructor
  case mp =>
    intro ⟨a, _, hx, hf⟩
    cases hf
    exact ⟨a, hx, rfl⟩
  case mpr =>
    intro ⟨a, hx, hf⟩
    exact ⟨a, rest, hx, hf ▸ rfl⟩

theorem pure_ok {a b : α} {bytes rest : Bytes} :
    (pure a : Scan α) bytes = .ok (b, rest) ↔ bytes = rest ∧ a = b := by
  change Except.ok (a, bytes) = _ ↔ _
  simp [and_comm]

theorem index_encode_ok {n m : Nat} {rest rest' : Bytes} :
    index (Varint.encode n ++ rest) = .ok (m, rest') ↔ n < wordLimit ∧ n = m ∧ rest = rest' := by
  by_cases h : n < wordLimit
  case pos =>
    have hn : index (Varint.encode n ++ rest) = .ok (n, rest) := Varint.decode_encode h rest
    simp [hn, h]
  case neg =>
    have hn : index (Varint.encode n ++ rest) = .error .varintOverflow :=
      Varint.decodeWithin_encode_overflow (Nat.le_of_not_lt h) rest
    simp [hn, h]

theorem take_append (bytes rest : Bytes) (fault : Malformed) :
    take bytes.length fault (bytes ++ rest) = .ok (bytes, rest) := by
  simp [take]

theorem word_word (op : Opcode) (n : Nat) (rest : Bytes) :
    word op (Bytes.word 8 n ++ rest) = .ok (n % wordLimit, rest) := by
  have h := take_append (Bytes.word 8 n) rest (.truncatedOperands op)
  rw [Bytes.word_length] at h
  rw [word, bind_of_ok h, Bytes.value_word_mod, Bytes.bound_eight]
  rfl

theorem wait_encode {list : Option Nat} {bytes : Bytes} (h : (Operand.wait list).encode = .ok bytes)
    (rest : Bytes) : wait (bytes ++ rest) = .ok (list, rest) := by
  have take_word (n : Nat) :
      take 4 .truncatedWaitList (Bytes.word 4 n ++ rest) = .ok (Bytes.word 4 n, rest) := by
    have h := take_append (Bytes.word 4 n) rest .truncatedWaitList
    rwa [Bytes.word_length] at h
  cases list with
  | none =>
    cases h
    rw [wait, bind_of_ok (take_word _), Bytes.value_word_mod]
    rfl
  | some list =>
    simp only [Operand.encode] at h
    split at h
    case isFalse => cases h
    case isTrue hlt =>
      cases h
      have hlist : list < Bytes.bound 4 := Nat.lt_trans hlt (by decide)
      have hne : list ≠ Operand.noWait := Nat.ne_of_lt (Nat.lt_trans hlt (by decide))
      rw [wait, bind_of_ok (take_word _), Bytes.value_word hlist, if_neg hne, if_pos hlt]
      rfl

end Scan

-- An index that fits the 64 bits it is read into.
def Operand.Fits : Operand → Prop
  | .index n => n < wordLimit
  | _ => True

namespace Instruction

def Fits (i : Instruction) : Prop :=
  ∀ operand ∈ i.operands, operand.Fits

-- The instruction with its words cut down to the 64 bits they are written in.
def wrapped : Instruction → Instruction
  | .launch task device wait offset threads =>
    .launch task device wait (offset % wordLimit) (threads % wordLimit)
  | .streamIn object offset length wait =>
    .streamIn object (offset % wordLimit) (length % wordLimit) wait
  | .streamOut object offset length wait =>
    .streamOut object (offset % wordLimit) (length % wordLimit) wait
  | .streamOutBlocking object offset length wait =>
    .streamOutBlocking object (offset % wordLimit) (length % wordLimit) wait
  | i => i

def encoding (i : Instruction) : Bytes :=
  i.write.1

def Encodable (i : Instruction) : Prop :=
  i.write.2 = none

theorem encodable_iff {i : Instruction} :
    i.Encodable ↔ (Operand.encodeAll i.operands).2 = none :=
  Iff.rfl

theorem encoding_eq (i : Instruction) :
    i.encoding = i.opcode.byte :: (Operand.encodeAll i.operands).1 :=
  rfl

theorem scan_cons (op : Opcode) (rest : Bytes) : scan (op.byte :: rest) = scanOperands op rest := by
  simp [scan, Opcode.ofByte?_byte]

theorem encodeAll_nil : Operand.encodeAll [] = ([], none) :=
  rfl

theorem encodeAll_index (n : Nat) (operands : List Operand) :
    Operand.encodeAll (.index n :: operands) =
      (Varint.encode n ++ (Operand.encodeAll operands).1, (Operand.encodeAll operands).2) :=
  rfl

theorem encodeAll_word (n : Nat) (operands : List Operand) :
    Operand.encodeAll (.word n :: operands) =
      (Bytes.word 8 n ++ (Operand.encodeAll operands).1, (Operand.encodeAll operands).2) :=
  rfl

theorem encodeAll_wait {list : Option Nat} {operands : List Operand}
    (h : (Operand.encodeAll (.wait list :: operands)).2 = none) :
    ∃ bytes, (Operand.wait list).encode = .ok bytes ∧
      Operand.encodeAll (.wait list :: operands) =
        (bytes ++ (Operand.encodeAll operands).1, (Operand.encodeAll operands).2) := by
  simp only [Operand.encodeAll] at h ⊢
  cases hbytes : (Operand.wait list).encode with
  | error cause => simp [hbytes] at h
  | ok bytes => exact ⟨bytes, rfl, rfl⟩

-- An instruction reads back cut down to 64 bits, if its indices fit them; what follows is left.
theorem scan_encoding {i j : Instruction} (h : i.Encodable) {rest rest' : Bytes} :
    scan (i.encoding ++ rest) = .ok (j, rest') ↔ i.Fits ∧ rest = rest' ∧ i.wrapped = j := by
  rw [encoding_eq, List.cons_append, scan_cons]
  rw [encodable_iff] at h
  cases i
  case begin | context | addDep | finish =>
    simp [operands, opcode, scanOperands, Fits, Operand.Fits, wrapped, encodeAll_index,
      encodeAll_nil, Scan.bind_ok, Scan.map_ok, Scan.index_encode_ok, Scan.pure_ok, and_assoc]
  case barrier | marker =>
    obtain ⟨bytes, hbytes, hall⟩ := encodeAll_wait h
    simp [operands, opcode, scanOperands, Fits, Operand.Fits, wrapped, hall,
      encodeAll_nil, Scan.map_ok, Scan.wait_encode hbytes]
  case launch =>
    simp only [operands, encodeAll_index] at h
    obtain ⟨bytes, hbytes, hall⟩ := encodeAll_wait h
    simp [operands, opcode, scanOperands, Fits, Operand.Fits, wrapped, encodeAll_index, hall,
      encodeAll_word, encodeAll_nil, Scan.bind_ok, Scan.map_ok, Scan.index_encode_ok,
      Scan.wait_encode hbytes, Scan.word_word, and_assoc]
  case streamIn | streamOut | streamOutBlocking =>
    simp only [operands, encodeAll_index, encodeAll_word] at h
    obtain ⟨bytes, hbytes, hall⟩ := encodeAll_wait h
    simp [operands, opcode, scanOperands, Fits, Operand.Fits, wrapped, encodeAll_index, hall,
      encodeAll_word, encodeAll_nil, Scan.bind_ok, Scan.map_ok, Scan.index_encode_ok,
      Scan.wait_encode hbytes, Scan.word_word, and_assoc]

end Instruction
end Offload
