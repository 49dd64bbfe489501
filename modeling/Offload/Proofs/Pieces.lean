import Offload.Proofs.Readback

/-!
Instructions read one after the other. What a reader takes off the front of the bytes is a piece of them, and
it would have taken the same piece in front of anything else. So an instruction reads back from the middle of
other bytes, and a list of instructions from the bytes of all of them.
-/

namespace Offload

namespace Scan

variable {α β : Type} {x : Scan α}

-- What is read is told by the piece that is taken, and by nothing behind it.
def Exact (x : Scan α) : Prop :=
  ∀ bytes a rest, x bytes = .ok (a, rest) →
    ∃ piece, bytes = piece ++ rest ∧ ∀ rest', x (piece ++ rest') = .ok (a, rest')

theorem Exact.pure (a : α) : Exact (pure a : Scan α) := by
  intro bytes b rest h
  obtain ⟨rfl, rfl⟩ := pure_ok.mp h
  exact ⟨[], rfl, fun _ => rfl⟩

theorem Exact.throw (cause : Malformed) : Exact (throw cause : Scan α) :=
  fun _ _ _ h => nomatch h

theorem Exact.bind {f : α → Scan β} (hx : Exact x) (hf : ∀ a, Exact (f a)) : Exact (x >>= f) := by
  intro bytes b rest h
  obtain ⟨a, mid, ha, hb⟩ := bind_ok.mp h
  obtain ⟨front, rfl, hfront⟩ := hx bytes a mid ha
  obtain ⟨back, rfl, hback⟩ := hf a mid b rest hb
  refine ⟨front ++ back, (List.append_assoc _ _ _).symm, fun rest' => ?_⟩
  rw [List.append_assoc, bind_of_ok (hfront _), hback]

theorem exact_take (width : Nat) (fault : Malformed) : Exact (take width fault) := by
  intro bytes a rest h
  unfold take at h
  split at h <;> cases h
  case isFalse hlong =>
    have hlength : (bytes.take width).length = width := by
      rw [List.length_take, Nat.min_eq_left (Nat.le_of_not_lt hlong)]
    refine ⟨bytes.take width, (List.take_append_drop width bytes).symm, fun rest' => ?_⟩
    have htake := take_append (bytes.take width) rest' fault
    rwa [hlength] at htake

-- A group of bits tells whether another one follows.
theorem exact_decodeWithin (more : Nat) : Exact (Varint.decodeWithin more : Scan Nat) := by
  intro bytes n rest h
  induction bytes generalizing more n with
  | nil => cases h
  | cons b bytes ih =>
    unfold Varint.decodeWithin at h
    split at h
    case isTrue => cases h
    case isFalse hfits =>
      split at h
      case isTrue hlast =>
        cases h
        refine ⟨[b], rfl, fun rest' => ?_⟩
        rw [List.singleton_append, Varint.decodeWithin, if_neg hfits, if_pos hlast]
      case isFalse hmore =>
        cases hhigh : Varint.decodeWithin (more - 1) bytes with
        | error cause => rw [hhigh] at h; cases h
        | ok result =>
          rw [hhigh] at h
          cases h
          obtain ⟨piece, rfl, hpiece⟩ := ih _ _ hhigh
          refine ⟨b :: piece, rfl, fun rest' => ?_⟩
          rw [List.cons_append, Varint.decodeWithin, if_neg hfits, if_neg hmore, hpiece]
          rfl

theorem exact_index : Exact index :=
  exact_decodeWithin 9

theorem exact_word (op : Opcode) : Exact (word op) :=
  (exact_take _ _).bind fun _ => .pure _

theorem exact_wait : Exact wait := by
  refine (exact_take _ _).bind fun bytes => ?_
  dsimp only
  split
  case isTrue => exact .pure _
  case isFalse =>
    split
    case isTrue => exact .pure _
    case isFalse => exact .throw _

end Scan

namespace Instruction

open Scan (Exact exact_index exact_word exact_wait)

variable {i : Instruction} {is : List Instruction} {bytes code rest : Bytes} {position next : Nat}

theorem exact_scanOperands (op : Opcode) : Exact (scanOperands op) := by
  have htransfer (op : Opcode) {make : Nat → Nat → Nat → Option Nat → Instruction} :
      Exact (do return make (← Scan.index) (← Scan.word op) (← Scan.word op) (← Scan.wait)) :=
    exact_index.bind fun _ => (exact_word op).bind fun _ => (exact_word op).bind fun _ =>
      exact_wait.bind fun _ => .pure _
  cases op with
  | begin => exact exact_index.bind fun _ => exact_index.bind fun _ => exact_index.bind fun _ => .pure _
  | context | addDep => exact exact_index.bind fun _ => .pure _
  | launch =>
    exact exact_index.bind fun _ => exact_index.bind fun _ => exact_wait.bind fun _ =>
      (exact_word _).bind fun _ => (exact_word _).bind fun _ => .pure _
  | streamIn => exact htransfer .streamIn
  | streamOut => exact htransfer .streamOut
  | streamOutBlocking => exact htransfer .streamOutBlocking
  | barrier | marker => exact exact_wait.bind fun _ => .pure _
  | finish => exact .pure _

theorem exact_scan : Exact scan := by
  intro bytes i rest h
  cases bytes with
  | nil => cases h
  | cons b tail =>
    simp only [scan] at h
    cases hop : Opcode.ofByte? b with
    | none => rw [hop] at h; cases h
    | some op =>
      rw [hop] at h
      obtain ⟨piece, rfl, hpiece⟩ := exact_scanOperands op tail i rest h
      refine ⟨b :: piece, rfl, fun rest' => ?_⟩
      simp only [List.cons_append, scan, hop, hpiece]

-- The bytes that are an instruction, and no more than that.
def Spans (piece : Bytes) (i : Instruction) : Prop :=
  scan piece = .ok (i, [])

theorem Spans.ne_nil {piece : Bytes} (h : Spans piece i) : piece ≠ [] := by
  rintro rfl
  cases h

theorem Spans.scan_append {piece : Bytes} (h : Spans piece i) (rest : Bytes) :
    scan (piece ++ rest) = .ok (i, rest) := by
  obtain ⟨piece', heq, hpiece⟩ := exact_scan piece i [] h
  rw [heq, List.append_nil]
  exact hpiece rest

-- What is read off the front of the bytes is an instruction, whole.
theorem scan_ok : scan bytes = .ok (i, rest) ↔ ∃ piece, bytes = piece ++ rest ∧ Spans piece i := by
  constructor
  case mp =>
    intro h
    obtain ⟨piece, rfl, hpiece⟩ := exact_scan bytes i rest h
    have halone := hpiece []
    rw [List.append_nil] at halone
    exact ⟨piece, rfl, halone⟩
  case mpr =>
    rintro ⟨piece, rfl, hpiece⟩
    exact hpiece.scan_append rest

theorem decode_ok : decode code position = .ok (i, next) ↔
    ∃ piece rest, code.drop position = piece ++ rest ∧ Spans piece i ∧ next = position + piece.length := by
  unfold decode
  constructor
  case mp =>
    intro h
    cases hscan : scan (code.drop position) with
    | error cause => rw [hscan] at h; cases h
    | ok result =>
      rw [hscan] at h
      cases h
      obtain ⟨piece, hdrop, hpiece⟩ := scan_ok.mp hscan
      refine ⟨piece, _, hdrop, hpiece, ?_⟩
      have hlength := congrArg List.length hdrop
      have hpos := List.length_pos_iff.mpr hpiece.ne_nil
      rw [List.length_drop, List.length_append] at hlength
      omega
  case mpr =>
    rintro ⟨piece, rest, hdrop, hpiece, rfl⟩
    have hlength := congrArg List.length hdrop
    have hpos := List.length_pos_iff.mpr hpiece.ne_nil
    rw [List.length_drop, List.length_append] at hlength
    have hnext : code.length - rest.length = position + piece.length := by omega
    rw [hdrop, hpiece.scan_append]
    dsimp only
    rw [hnext]

theorem lt_of_decode_ok (h : decode code position = .ok (i, next)) : position < next ∧ next ≤ code.length := by
  obtain ⟨piece, rest, hdrop, hpiece, rfl⟩ := decode_ok.mp h
  have hlength := congrArg List.length hdrop
  have hpos := List.length_pos_iff.mpr hpiece.ne_nil
  rw [List.length_drop, List.length_append] at hlength
  omega

-- Instruction after instruction from a position on, up to the end of the code.
def decodeAll (code : Bytes) (position : Nat) : Except Error (List Instruction) :=
  if position < code.length then
    match h : decode code position with
    | .error e => .error e
    | .ok (i, next) =>
      have := lt_of_decode_ok h
      (decodeAll code next).map (i :: ·)
  else .ok []
termination_by code.length - position

-- Only the list that an instruction waits for can be too much for its operand.
theorem write_fault (i : Instruction) : i.write.2 =
    match i.wait? with
    | some list => if list < Operand.waitLimit then none else some (.listIndexTooLarge list)
    | none => none := by
  have hwait (list : Option Nat) (operands : List Operand) (hrest : (Operand.encodeAll operands).2 = none) :
      (Operand.encodeAll (.wait list :: operands)).2 =
        match list with
        | some list => if list < Operand.waitLimit then none else some (.listIndexTooLarge list)
        | none => none := by
    cases list with
    | none => exact hrest
    | some list =>
      by_cases hlist : list < Operand.waitLimit
      case pos => simp only [Operand.encodeAll, Operand.encode, if_pos hlist, hrest]
      case neg => simp only [Operand.encodeAll, Operand.encode, if_neg hlist]
  cases i with
  | begin | context | addDep | finish => rfl
  | launch task device wait offset threads => exact hwait wait [.word offset, .word threads] rfl
  | streamIn object offset length wait | streamOut object offset length wait
  | streamOutBlocking object offset length wait => exact hwait wait [] rfl
  | barrier wait | marker wait => exact hwait wait [] rfl

theorem encode_fault {cause : Misuse} (h : i.encode = .error cause) : i.write.2 = some cause := by
  unfold encode at h
  rcases hwrite : i.write with ⟨written, _ | fault⟩ <;> rw [hwrite] at h <;> cases h
  rfl

theorem encode_error {cause : Misuse} : i.encode = .error cause ↔
    ∃ list, i.wait? = some list ∧ Operand.waitLimit ≤ list ∧ cause = .listIndexTooLarge list := by
  have hfault := i.write_fault
  constructor
  case mp =>
    intro h
    rw [encode_fault h] at hfault
    cases hwait : i.wait? with
    | none => rw [hwait] at hfault; cases hfault
    | some list =>
      simp only [hwait] at hfault
      split at hfault
      case isTrue => cases hfault
      case isFalse hlist =>
        cases hfault
        exact ⟨list, rfl, Nat.le_of_not_lt hlist, rfl⟩
  case mpr =>
    rintro ⟨list, hwait, hlist, rfl⟩
    simp only [hwait, if_neg (Nat.not_lt_of_le hlist)] at hfault
    unfold encode
    rcases hwrite : i.write with ⟨written, fault⟩
    rw [hwrite] at hfault
    cases hfault
    rfl

theorem encode_ok (h : i.encode = .ok bytes) : i.Encodable ∧ i.encoding = bytes := by
  unfold encode at h
  rcases hwrite : i.write with ⟨written, _ | cause⟩ <;> rw [hwrite] at h <;> cases h
  exact ⟨by rw [Encodable, hwrite], by rw [encoding, hwrite]⟩

theorem spans_encoding (hwords : i.InWords) (h : i.encode = .ok bytes) : Spans bytes i := by
  obtain ⟨hencodable, rfl⟩ := encode_ok h
  have hscan : scan (i.encoding ++ []) = .ok (i, []) :=
    (scan_encoding hencodable).mpr ⟨hwords.fits, rfl, hwords.wrapped_eq⟩
  rwa [List.append_nil] at hscan

theorem decode_of_spans (h : Spans bytes i) (pre post : Bytes) :
    decode (pre ++ bytes ++ post) pre.length = .ok (i, pre.length + bytes.length) :=
  decode_ok.mpr ⟨bytes, post, by rw [List.append_assoc, List.drop_left], h, rfl⟩

-- Pieces that are instructions read back one after the other, whatever stands before them.
theorem decodeAll_of_spans {pieces : List Bytes} (h : List.Forall₂ Spans pieces is) (pre : Bytes) :
    decodeAll (pre ++ pieces.flatten) pre.length = .ok is := by
  induction h generalizing pre with
  | nil =>
    unfold decodeAll
    rw [if_neg (by simp)]
  | @cons piece i pieces is hpiece _ ih =>
    have hpos := List.length_pos_iff.mpr hpiece.ne_nil
    have hrest := ih (pre ++ piece)
    rw [List.length_append, List.append_assoc] at hrest
    have hfirst := decode_of_spans hpiece pre pieces.flatten
    rw [List.append_assoc] at hfirst
    rw [List.flatten_cons]
    unfold decodeAll
    rw [if_pos (by simp; omega)]
    split
    case h_1 e he =>
      cases he.symm.trans hfirst
    case h_2 j next hok =>
      cases hok.symm.trans hfirst
      rw [hrest]
      rfl

theorem forall₂_spans {encodings : List Bytes} (hwords : ∀ i ∈ is, i.InWords)
    (h : is.mapM encode = .ok encodings) : List.Forall₂ Spans encodings is := by
  have hall := forall₂_of_mapM_ok h
  clear h
  induction hall with
  | nil => exact .nil
  | cons hbytes _ ih =>
    have ⟨hi, his⟩ := List.forall_mem_cons.mp hwords
    exact .cons (spans_encoding hi hbytes) (ih his)

-- An instruction has no bytes if it waits for a list that 31 bits cannot name, and then an assembly is told
-- so. All other bytes read back from wherever they stand, and one instruction after the other.
theorem encode_reads_back :
    (∀ (i : Instruction) (cause : Misuse), i.encode = .error cause ↔
      ∃ list, i.wait? = some list ∧ 2 ^ 31 - 1 < list ∧ cause = .listIndexTooLarge list) ∧
    (∀ (i : Instruction) (cause : Misuse), i.encode = .error cause →
      ∀ a : Assembly, (Assembly.emit i a).1 = .error (.config cause)) ∧
    (∀ (i : Instruction) (bytes : Bytes), i.InWords → i.encode = .ok bytes →
      ∀ pre post : Bytes, decode (pre ++ bytes ++ post) pre.length = .ok (i, pre.length + bytes.length)) ∧
    ∀ (is : List Instruction) (encodings : List Bytes), (∀ i ∈ is, i.InWords) →
      is.mapM encode = .ok encodings → decodeAll encodings.flatten 0 = .ok is := by
  refine ⟨fun i cause => ?_, fun i cause hcause a => ?_, fun i bytes hwords hbytes pre post => ?_,
    fun is encodings hwords hencodings => ?_⟩
  case refine_1 => exact encode_error
  case refine_2 =>
    rcases hwrite : i.write with ⟨written, fault⟩
    have hfault := encode_fault hcause
    rw [hwrite] at hfault
    cases hfault
    unfold Assembly.emit
    rw [Action.bind_of_ok (Action.get_apply a), hwrite]
    rfl
  case refine_3 => exact decode_of_spans (spans_encoding hwords hbytes) pre post
  case refine_4 => exact decodeAll_of_spans (forall₂_spans hwords hencodings) []

def reply : Instruction :=
  .streamOut 300 4096 (2 ^ 64 - 1) (some 2)

def replyBytes : Bytes :=
  [5, 172, 2, 0, 16, 0, 0, 0, 0, 0, 0, 255, 255, 255, 255, 255, 255, 255, 255, 2, 0, 0, 0]

theorem reply_reads_back : reply.InWords ∧ reply.encode = .ok replyBytes ∧
    decode ([7, 1] ++ replyBytes ++ [255]) 2 = .ok (reply, 25) ∧
    [reply, reply].mapM encode = .ok [replyBytes, replyBytes] ∧
    decodeAll [replyBytes, replyBytes].flatten 0 = .ok [reply, reply] := by
  have hwords : reply.InWords := by simp [reply, InWords, operands, Operand.InWord, wordLimit]
  have hbytes : reply.encode = .ok replyBytes := by decide +kernel
  have hboth : [reply, reply].mapM encode = .ok [replyBytes, replyBytes] := by decide +kernel
  exact ⟨hwords, hbytes, encode_reads_back.2.2.1 reply replyBytes hwords hbytes [7, 1] [255], hboth,
    encode_reads_back.2.2.2 [reply, reply] _ (by simp [hwords]) hboth⟩

-- A list that is appended to is named by an index like any other, however large.
theorem addDep_unlimited : (Instruction.addDep (2 ^ 31)).encode = .ok [7, 128, 128, 128, 128, 8] ∧
    ¬∀ i : Instruction, (∃ cause, i.encode = .error cause) ↔ ∃ list, i.list? = some list ∧ 2 ^ 31 - 1 < list := by
  have hbytes : (Instruction.addDep (2 ^ 31)).encode = .ok [7, 128, 128, 128, 128, 8] := by decide +kernel
  refine ⟨hbytes, fun hclaim => ?_⟩
  obtain ⟨cause, hcause⟩ := (hclaim (.addDep (2 ^ 31))).mpr ⟨2 ^ 31, rfl, by decide⟩
  cases hbytes.symm.trans hcause

end Instruction
end Offload
