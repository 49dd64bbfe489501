import Offload.Proofs.Edits

/-!
What reading an instruction takes up. The bytes of an operand are told apart from those behind it, and no bytes
of it are shorter than those that it is written in; so an instruction that was read is written in no more bytes
than it was read from, and in the same ones unless a varint among them was drawn out.
-/

namespace Offload

namespace Varint

variable {more n : Nat} {v rest : Bytes}

theorem decodeWithin_cons {b : UInt8} (h : decodeWithin more (b :: v) = .ok (n, rest)) :
    b.toNat < 128 ∧ v = rest ∧ n = b.toNat ∨
      128 ≤ b.toNat ∧ ∃ high, decodeWithin (more - 1) v = .ok (high, rest) ∧ n = b.toNat - 128 + 128 * high := by
  unfold decodeWithin at h
  split at h
  case isTrue => cases h
  case isFalse =>
    split at h
    case isTrue hlast =>
      cases h
      exact .inl ⟨UInt8.lt_iff_toNat_lt.mp hlast, rfl, rfl⟩
    case isFalse hmore =>
      obtain ⟨⟨high, rest'⟩, hhigh, hpure⟩ := bind_eq_ok.mp h
      cases hpure
      exact .inr ⟨UInt8.le_iff_toNat_le.mp (UInt8.not_lt.mp hmore), high, hhigh, rfl⟩

theorem last_of_decodeWithin {b : UInt8} (h : decodeWithin 0 (b :: v) = .ok (n, rest)) : b.toNat < 2 := by
  by_contra hb
  rw [decodeWithin_zero_overflow (Nat.lt_of_not_le fun hle => hb (Nat.lt_succ_of_le hle))] at h
  cases h

theorem lt_of_decodeWithin (h : decodeWithin more v = .ok (n, rest)) : n < bound more := by
  induction v generalizing more n with
  | nil => cases h
  | cons b v ih =>
    cases more with
    | zero =>
      have hb := last_of_decodeWithin h
      obtain ⟨-, -, rfl⟩ | ⟨hmore, -⟩ := decodeWithin_cons h
      case inl => exact hb
      case inr => omega
    | succ more =>
      have hb := b.toNat_lt
      have hpos := bound_pos more
      simp only [bound]
      obtain ⟨hlast, -, rfl⟩ | ⟨hmore, high, hhigh, rfl⟩ := decodeWithin_cons h
      case inl => omega
      case inr =>
        have hlow := ih hhigh
        rw [Nat.add_sub_cancel] at hlow
        omega

theorem encode_length_pos (n : Nat) : 0 < (encode n).length := by
  rw [encode]
  split <;> simp

-- By induction on the groups: those of the number are no more than those that are read, the last of which may
-- be empty.
theorem encode_le (h : decodeWithin more v = .ok (n, [])) :
    (encode n).length ≤ v.length ∧ (v.length ≤ (encode n).length → v = encode n) := by
  induction v generalizing more n with
  | nil => cases h
  | cons b v ih =>
    have hb := b.toNat_lt
    obtain ⟨hlast, rfl, rfl⟩ | ⟨hmore, high, hhigh, rfl⟩ := decodeWithin_cons h
    case inl =>
      rw [encode, if_pos hlast, UInt8.ofNat_toNat]
      exact ⟨Nat.le_refl _, fun _ => rfl⟩
    case inr =>
      obtain ⟨hle, heq⟩ := ih hhigh
      have hpos := encode_length_pos high
      rw [encode]
      split
      case isTrue =>
        refine ⟨Nat.le_add_left 1 _, fun hlen => ?_⟩
        simp only [List.length_cons, List.length_nil] at hlen
        omega
      case isFalse =>
        have hgroup : UInt8.ofNat ((b.toNat - 128 + 128 * high) % 128 + 128) = b := by
          have hlow : (b.toNat - 128 + 128 * high) % 128 + 128 = b.toNat := by omega
          rw [hlow, UInt8.ofNat_toNat]
        have hhigh' : (b.toNat - 128 + 128 * high) / 128 = high := by omega
        rw [hgroup, hhigh']
        refine ⟨Nat.succ_le_succ hle, fun hlen => ?_⟩
        rw [← heq (Nat.le_of_succ_le_succ hlen)]

theorem width_of_decodeWithin (h : decodeWithin more v = .ok (n, [])) (rest : Bytes) :
    ((v ++ rest).takeWhile (128 ≤ ·)).length + 1 = v.length := by
  induction v generalizing more n with
  | nil => cases h
  | cons b v ih =>
    obtain ⟨hlast, rfl, -⟩ | ⟨hmore, high, hhigh, -⟩ := decodeWithin_cons h
    case inl =>
      have hstop : ¬128 ≤ b := fun hle => Nat.not_lt_of_le (UInt8.le_iff_toNat_le.mp hle) hlast
      simp [hstop]
    case inr =>
      have hgo : 128 ≤ b := UInt8.le_iff_toNat_le.mpr hmore
      simpa [hgo] using ih hhigh

-- A varint than which no shorter one is read as the same number.
def Minimal (v : Bytes) : Prop :=
  ∃ n, decode v = .ok (n, []) ∧ ∀ w, decode w = .ok (n, []) → v.length ≤ w.length

theorem minimal_iff (h : decode v = .ok (n, [])) : Minimal v ↔ encode n = v := by
  have hshortest : decode (encode n) = .ok (n, []) := by
    have hn : n < wordLimit := bound_nine ▸ lt_of_decodeWithin h
    have hdecode := decode_encode hn []
    rwa [List.append_nil] at hdecode
  constructor
  case mp =>
    rintro ⟨m, hm, hmin⟩
    cases h.symm.trans hm
    exact ((encode_le h).2 (hmin _ hshortest)).symm
  case mpr =>
    rintro rfl
    exact ⟨n, h, fun w hw => (encode_le hw).1⟩

end Varint

namespace Bytes

theorem word_value (bytes : Bytes) : word bytes.length (value bytes) = bytes := by
  induction bytes with
  | nil => rfl
  | cons b bytes ih =>
    have hb := b.toNat_lt
    have hlow : UInt8.ofNat (b.toNat + 256 * value bytes) = b := by
      rw [← UInt8.toNat_inj, UInt8.toNat_ofNat']
      omega
    have hhigh : (b.toNat + 256 * value bytes) / 256 = value bytes := by omega
    rw [List.length_cons, value, word, hlow, hhigh, ih]

theorem value_lt (bytes : Bytes) : value bytes < bound bytes.length := by
  induction bytes with
  | nil => decide
  | cons b bytes ih =>
    have hb := b.toNat_lt
    simp only [value, List.length_cons, bound]
    omega

end Bytes

namespace Operand

-- The bytes that are read as an operand, and no more than that.
inductive Reads : Bytes → Operand → Prop
  | index {piece : Bytes} {n : Nat} : Scan.index piece = .ok (n, []) → Reads piece (.index n)
  | wait {piece : Bytes} {list : Option Nat} : Scan.wait piece = .ok (list, []) → Reads piece (.wait list)
  | word {piece : Bytes} : piece.length = 8 → Reads piece (.word (Bytes.value piece))

-- How many bytes an operand takes off the front of the bytes.
def Kind.width (bytes : Bytes) : Kind → Nat
  | .index => (bytes.takeWhile (128 ≤ ·)).length + 1
  | .wait => 4
  | .word => 8

-- The varints among operands that stand at the front of the bytes.
def varints : List Kind → Bytes → List Bytes
  | [], _ => []
  | kind :: kinds, bytes =>
    let width := kind.width bytes
    let later := varints kinds (bytes.drop width)
    if kind = .index then bytes.take width :: later else later

end Operand

namespace Scan

open Operand (Reads)

variable {α : Type} {bytes piece rest : Bytes}

-- The operands that are read, one after the other, stand to the result as they should.
def Parses (x : Scan α) (P : α → List Operand → Prop) : Prop :=
  ∀ bytes a rest, x bytes = .ok (a, rest) → ∃ pieces operands,
    bytes = pieces.flatten ++ rest ∧ List.Forall₂ Reads pieces operands ∧ P a operands

variable {P : α → List Operand → Prop}

theorem Parses.pure {a : α} (h : P a []) : Parses (pure a) P := by
  intro bytes b rest hpure
  obtain ⟨rfl, rfl⟩ := pure_ok.mp hpure
  exact ⟨[], [], rfl, .nil, h⟩

theorem Parses.bind {β : Type} {x : Scan β} {f : β → Scan α} {operand : β → Operand} (hexact : Exact x)
    (hx : ∀ b piece, x piece = .ok (b, []) → Reads piece (operand b))
    (hf : ∀ b, Parses (f b) fun a operands => P a (operand b :: operands)) : Parses (x >>= f) P := by
  intro bytes a rest h
  obtain ⟨b, mid, hb, ha⟩ := bind_ok.mp h
  obtain ⟨piece, rfl, hpiece⟩ := hexact bytes b mid hb
  obtain ⟨pieces, operands, rfl, hpieces, hP⟩ := hf b mid a rest ha
  have halone := hpiece []
  rw [List.append_nil] at halone
  exact ⟨piece :: pieces, operand b :: operands, by simp, .cons (hx b piece halone) hpieces, hP⟩

theorem Parses.index {f : Nat → Scan α} (hf : ∀ n, Parses (f n) fun a operands => P a (.index n :: operands)) :
    Parses (Scan.index >>= f) P :=
  .bind exact_index (fun _ _ h => .index h) hf

theorem Parses.wait {f : Option Nat → Scan α}
    (hf : ∀ list, Parses (f list) fun a operands => P a (.wait list :: operands)) : Parses (Scan.wait >>= f) P :=
  .bind exact_wait (fun _ _ h => .wait h) hf

theorem take_ok {width : Nat} {fault : Malformed} {front : Bytes} (h : take width fault bytes = .ok (front, rest)) :
    front.length = width ∧ bytes = front ++ rest := by
  unfold take at h
  split at h <;> cases h
  case isFalse hlong =>
    exact ⟨by rw [List.length_take, Nat.min_eq_left (Nat.le_of_not_lt hlong)], (List.take_append_drop _ _).symm⟩

theorem word_ok {op : Opcode} {n : Nat} (h : Scan.word op piece = .ok (n, [])) :
    piece.length = 8 ∧ Bytes.value piece = n := by
  obtain ⟨front, mid, hfront, hpure⟩ := bind_ok.mp h
  obtain ⟨rfl, rfl⟩ := pure_ok.mp hpure
  obtain ⟨hlength, rfl⟩ := take_ok hfront
  rw [List.append_nil]
  exact ⟨hlength, rfl⟩

theorem Parses.word {op : Opcode} {f : Nat → Scan α}
    (hf : ∀ n, Parses (f n) fun a operands => P a (.word n :: operands)) : Parses (Scan.word op >>= f) P := by
  refine .bind (exact_word op) (fun n piece h => ?_) hf
  obtain ⟨hlength, rfl⟩ := word_ok h
  exact .word hlength

-- No list is the one word that is no list, and a list is a word that is small enough to be written again.
theorem wait_ok {list : Option Nat} (h : Scan.wait piece = .ok (list, [])) :
    piece.length = 4 ∧ (Operand.wait list).encode = .ok piece := by
  obtain ⟨front, mid, hfront, hlist⟩ := bind_ok.mp h
  obtain ⟨hlength, rfl⟩ := take_ok hfront
  have hword := Bytes.word_value front
  rw [hlength] at hword
  split at hlist
  case isTrue hnone =>
    obtain ⟨rfl, rfl⟩ := pure_ok.mp hlist
    rw [List.append_nil]
    exact ⟨hlength, by rw [Operand.encode, ← hnone, hword]⟩
  case isFalse =>
    split at hlist
    case isFalse => cases hlist
    case isTrue hlimit =>
      obtain ⟨rfl, rfl⟩ := pure_ok.mp hlist
      rw [List.append_nil]
      exact ⟨hlength, by rw [Operand.encode, if_pos hlimit, hword]⟩

end Scan

namespace Operand

variable {piece rest : Bytes} {o : Operand} {pieces : List Bytes} {operands : List Operand}

theorem Reads.inWord (h : Reads piece o) : o.InWord := by
  cases h with
  | index h => exact Varint.lt_of_decodeWithin h
  | wait => trivial
  | word hlength =>
    have hlt := Bytes.value_lt piece
    rwa [hlength, Bytes.bound_eight] at hlt

theorem Reads.encode (h : Reads piece o) : ∃ bytes, o.encode = .ok bytes ∧ bytes.length ≤ piece.length ∧
    (bytes = piece ↔ (o.kind = .index → Varint.Minimal piece)) := by
  cases h with
  | index h =>
    refine ⟨_, rfl, (Varint.encode_le h).1, ?_⟩
    rw [← Varint.minimal_iff h]
    exact ⟨fun hmin _ => hmin, fun hmin => hmin rfl⟩
  | wait h => exact ⟨piece, (Scan.wait_ok h).2, Nat.le_refl _, by simp [kind]⟩
  | word hlength =>
    have hword := Bytes.word_value piece
    rw [hlength] at hword
    exact ⟨piece, congrArg Except.ok hword, Nat.le_refl _, by simp [kind]⟩

theorem Reads.width (h : Reads piece o) (rest : Bytes) : o.kind.width (piece ++ rest) = piece.length := by
  cases h with
  | wait h => exact (Scan.wait_ok h).1.symm
  | word hlength => exact hlength.symm
  | index h => exact Varint.width_of_decodeWithin h rest

theorem varints_cons (h : Reads piece o) (kinds : List Kind) (rest : Bytes) :
    varints (o.kind :: kinds) (piece ++ rest) =
      if o.kind = .index then piece :: varints kinds rest else varints kinds rest := by
  rw [varints, h.width, List.take_left, List.drop_left]

-- Operand by operand: the whole is as short as its parts, and so it is the same only if they are.
theorem encodeAll_reads (h : List.Forall₂ Reads pieces operands) : (encodeAll operands).2 = none ∧
    (encodeAll operands).1.length ≤ pieces.flatten.length ∧
    ((encodeAll operands).1 = pieces.flatten ↔
      ∀ v ∈ varints (operands.map kind) pieces.flatten, Varint.Minimal v) := by
  induction h with
  | nil => exact ⟨rfl, Nat.le_refl _, by simp [encodeAll, varints]⟩
  | @cons piece o pieces operands hpiece _ ih =>
    obtain ⟨hnone, hlater, hsame⟩ := ih
    obtain ⟨bytes, hbytes, hlength, hminimal⟩ := hpiece.encode
    have hall : encodeAll (o :: operands) = (bytes ++ (encodeAll operands).1, none) := by
      rw [encodeAll, hbytes]
      exact Prod.ext rfl hnone
    rw [hall, List.flatten_cons, List.map_cons, varints_cons hpiece]
    refine ⟨rfl, by simp only [List.length_append]; omega, ?_⟩
    have hboth : bytes ++ (encodeAll operands).1 = piece ++ pieces.flatten ↔
        bytes = piece ∧ (encodeAll operands).1 = pieces.flatten := by
      constructor
      case mp =>
        intro h
        have hsum := congrArg List.length h
        rw [List.length_append, List.length_append] at hsum
        exact List.append_inj h (by omega)
      case mpr =>
        rintro ⟨hfirst, hrest⟩
        rw [hfirst, hrest]
    dsimp only
    rw [hboth, hminimal, hsame]
    by_cases hindex : o.kind = .index <;> simp [hindex]

end Operand

namespace Instruction

open Scan (Parses)
open Operand (Reads)

variable {i : Instruction} {piece code : Bytes} {position next : Nat}

theorem parses_scanOperands (op : Opcode) :
    Parses (scanOperands op) fun i operands => i.opcode = op ∧ i.operands = operands := by
  cases op with
  | begin => exact .index fun _ => .index fun _ => .index fun _ => .pure ⟨rfl, rfl⟩
  | context | addDep => exact .index fun _ => .pure ⟨rfl, rfl⟩
  | launch => exact .index fun _ => .index fun _ => .wait fun _ => .word fun _ => .word fun _ => .pure ⟨rfl, rfl⟩
  | streamIn | streamOut | streamOutBlocking =>
    exact .index fun _ => .word fun _ => .word fun _ => .wait fun _ => .pure ⟨rfl, rfl⟩
  | barrier | marker => exact .wait fun _ => .pure ⟨rfl, rfl⟩
  | finish => exact .pure ⟨rfl, rfl⟩

theorem Spans.operands (h : Spans piece i) :
    ∃ pieces : List Bytes, piece = i.opcode.byte :: pieces.flatten ∧ List.Forall₂ Reads pieces i.operands := by
  cases piece with
  | nil => cases h
  | cons b tail =>
    unfold Spans at h
    rw [scan] at h
    cases hop : Opcode.ofByte? b with
    | none => rw [hop] at h; cases h
    | some op =>
      rw [hop] at h
      obtain ⟨pieces, operands, htail, hpieces, rfl, rfl⟩ := parses_scanOperands op tail i [] h
      have hb : b = i.opcode.byte := (Opcode.byte_of_ofByte? hop).symm
      exact ⟨pieces, by rw [hb, htail, List.append_nil], hpieces⟩

theorem Spans.inWords (h : Spans piece i) : i.InWords := by
  obtain ⟨pieces, -, hpieces⟩ := h.operands
  intro operand hoperand
  obtain ⟨n, hn, rfl⟩ := List.getElem_of_mem hoperand
  exact (hpieces.get (hpieces.length_eq ▸ hn) hn).inWord

-- The varints of an instruction that the bytes are.
def varints (piece : Bytes) (i : Instruction) : List Bytes :=
  Operand.varints i.opcode.layout piece.tail

theorem Spans.encode (h : Spans piece i) : ∃ bytes, i.encode = .ok bytes ∧ bytes.length ≤ piece.length ∧
    Spans bytes i ∧ (bytes = piece ↔ ∀ v ∈ i.varints piece, Varint.Minimal v) := by
  obtain ⟨pieces, hpiece, hpieces⟩ := h.operands
  obtain ⟨hnone, hlength, hsame⟩ := Operand.encodeAll_reads hpieces
  have hencodes : i.encode = .ok i.encoding := encode_eq (encodable_iff.mpr hnone)
  refine ⟨i.encoding, hencodes, ?_, spans_encoding h.inWords hencodes, ?_⟩
  case refine_1 =>
    rw [hpiece, encoding_eq]
    exact Nat.succ_le_succ hlength
  case refine_2 =>
    rw [hpiece, encoding_eq, varints, List.tail_cons, ← kinds_operands, ← hsame]
    simp


-- The next instruction of the code. The position moves behind it, if there is one.
def fetch (code : Bytes) : Action Nat Instruction := do
  let (i, behind) ← liftM (decode code (← get))
  set behind
  return i

theorem fetch_eq (code : Bytes) (position : Nat) : fetch code position =
    match decode code position with
    | .ok (i, next) => (.ok i, next)
    | .error e => (.error e, position) := by
  unfold fetch
  rw [Action.bind_of_ok (Action.get_apply position)]
  cases hdecode : decode code position with
  | error e => exact Action.bind_of_error (Action.lift_apply (.error e) position)
  | ok result => exact Action.bind_of_ok (Action.lift_apply (.ok result) position)

theorem fetch_ok : fetch code position = (.ok i, next) ↔ decode code position = .ok (i, next) := by
  rw [fetch_eq]
  cases decode code position with
  | error e => exact ⟨nofun, nofun⟩
  | ok result => exact ⟨fun h => by cases h; rfl, fun h => by cases h; rfl⟩

theorem fetch_error {e : Error} :
    fetch code position = (.error e, next) ↔ decode code position = .error e ∧ position = next := by
  rw [fetch_eq]
  cases decode code position with
  | error e => exact ⟨fun h => by cases h; exact ⟨rfl, rfl⟩, fun ⟨h, hstays⟩ => by cases h; rw [hstays]⟩
  | ok result => exact ⟨nofun, nofun⟩

theorem decode_blames {e : Error} (h : decode code position = .error e) : ∃ cause, e = .decode position cause := by
  unfold decode at h
  split at h <;> cases h
  exact ⟨_, rfl⟩

-- The answer to each step of reading on from a position, up to the end of the code or the first failure.
def fetchAll (code : Bytes) (position : Nat) : List (Except Error Instruction) :=
  if position < code.length then
    match h : fetch code position with
    | (.error e, _) => [.error e]
    | (.ok i, next) =>
      have := lt_of_decode_ok (fetch_ok.mp h)
      .ok i :: fetchAll code next
  else []
termination_by code.length - position

theorem fetchAll_length (code : Bytes) (position : Nat) : (fetchAll code position).length ≤ code.length - position := by
  fun_induction fetchAll code position with
  | case1 position hmore e next h => simp; omega
  | case2 position hmore i next h _ ih =>
    have hmoved := lt_of_decode_ok (fetch_ok.mp h)
    rw [List.length_cons]
    omega
  | case3 position hend => exact Nat.zero_le _

-- An instruction is read from bytes that are there, and from nothing else; it is written in no more of them, and
-- in the very same unless there is a shorter varint for one of its own. Where there is none the position stays and
-- is what the error names. So there are no more steps than bytes.
theorem fetch_consumes (code : Bytes) (position : Nat) :
    (∀ i next, fetch code position = (.ok i, next) → position < next ∧ next ≤ code.length ∧
      let consumed := code.window position (next - position)
      (∀ other start, consumed <+: other.drop start →
        fetch other start = (.ok i, start + consumed.length)) ∧
      ∃ bytes, i.encode = .ok bytes ∧ bytes.length ≤ consumed.length ∧
        fetch bytes 0 = (.ok i, bytes.length) ∧
        (bytes = consumed ↔ ∀ v ∈ i.varints consumed, Varint.Minimal v)) ∧
    (∀ e next, fetch code position = (.error e, next) → next = position ∧ ∃ cause, e = .decode position cause) ∧
    (fetchAll code position).length ≤ code.length - position := by
  refine ⟨fun i next h => ?_, fun e next h => ?_, fetchAll_length code position⟩
  case refine_1 =>
    have hdecode := fetch_ok.mp h
    have ⟨hmoved, hinside⟩ := lt_of_decode_ok hdecode
    obtain ⟨piece, rest, hdrop, hpiece, rfl⟩ := decode_ok.mp hdecode
    have hconsumed : code.window position (position + piece.length - position) = piece := by
      rw [Bytes.window, hdrop, Nat.add_sub_cancel_left, List.take_left]
    rw [hconsumed]
    refine ⟨hmoved, hinside, fun other start hother => ?_, ?_⟩
    case refine_1 =>
      obtain ⟨behind, hbehind⟩ := hother
      exact fetch_ok.mpr (decode_ok.mpr ⟨piece, behind, hbehind.symm, hpiece, rfl⟩)
    case refine_2 =>
      obtain ⟨bytes, hbytes, hlength, hspans, hsame⟩ := hpiece.encode
      have hagain := decode_of_spans hspans [] []
      rw [List.nil_append, List.append_nil, List.length_nil, Nat.zero_add] at hagain
      exact ⟨bytes, hbytes, hlength, fetch_ok.mpr hagain, hsame⟩
  case refine_2 =>
    obtain ⟨hdecode, rfl⟩ := fetch_error.mp h
    exact ⟨rfl, decode_blames hdecode⟩

-- List 0, named in two bytes where one would do, then a wait list that is negative.
def drawnOut : Bytes :=
  [10, 7, 128, 0, 8, 254, 255, 255, 255]

theorem drawnOut_consumes :
    (∃ bytes, (addDep 0).encode = .ok bytes ∧ bytes.length ≤ 3 ∧
      ¬Varint.Minimal [128, 0] ∧ bytes ≠ drawnOut.window 1 3) ∧
    (∃ cause, fetch drawnOut 4 = (.error (.decode 4 cause), 4)) ∧ (fetchAll drawnOut 0).length ≤ 9 := by
  have hread : fetch drawnOut 1 = (.ok (addDep 0), 4) := fetch_ok.mpr (by decide +kernel)
  have hfails : fetch drawnOut 4 = (.error (.decode 4 (.invalidWaitList (-2))), 4) :=
    fetch_error.mpr ⟨by decide +kernel, rfl⟩
  obtain ⟨-, -, -, bytes, hbytes, hlength, -, hsame⟩ := (fetch_consumes drawnOut 1).1 _ _ hread
  obtain ⟨-, cause, hcause⟩ := (fetch_consumes drawnOut 4).2.1 _ _ hfails
  have hshort : Varint.decode [0] = .ok (0, []) := by decide +kernel
  have hlong : Varint.decode [128, 0] = .ok (0, []) := by decide +kernel
  have hdrawn : ¬Varint.Minimal [128, 0] := by
    rintro ⟨n, hn, hmin⟩
    cases hlong.symm.trans hn
    exact absurd (hmin [0] hshort) (by decide)
  refine ⟨⟨bytes, hbytes, hlength, hdrawn, fun heq => hdrawn (hsame.mp heq [128, 0] ?_)⟩, ⟨cause, ?_⟩,
    (fetch_consumes drawnOut 0).2.2⟩
  case refine_1 => decide +kernel
  case refine_2 => rw [hfails, hcause]

end Instruction
end Offload
