import Offload.Proofs.Consumed
import Offload.Proofs.Grammar

/-!
What is left of an instruction that could not be assembled. One that the limit has no room for leaves nothing.
One whose wait list cannot be written leaves its opcode and the operands before that list, and a reader can
never make up for them: there are more bytes than the others are read from.
-/

namespace Offload

namespace Varint

-- The last byte of a varint is the one that says that no group follows.
theorem countP_of_decodeWithin {more n : Nat} {v : Bytes} (h : decodeWithin more v = .ok (n, [])) :
    v.countP (· < 128) = 1 := by
  induction v generalizing more n with
  | nil => cases h
  | cons b v ih =>
    obtain ⟨hlast, rfl, -⟩ | ⟨hmore, high, hhigh, -⟩ := decodeWithin_cons h
    case inl =>
      have hb : b < 128 := UInt8.lt_iff_toNat_lt.mpr hlast
      simp [hb]
    case inr =>
      have hb : ¬b < 128 := fun hlt => Nat.not_lt_of_le hmore (UInt8.lt_iff_toNat_lt.mp hlt)
      rw [List.countP_cons_of_neg (by simpa using hb), ih hhigh]

end Varint

-- How many indices stand before the other operands.
def Opcode.indices : Opcode → Nat
  | .begin => 3
  | .launch => 2
  | .context | .streamIn | .streamOut | .streamOutBlocking | .addDep => 1
  | .barrier | .marker | .finish => 0

theorem Opcode.layout_eq (op : Opcode) :
    op.layout = List.replicate op.indices .index ++ op.layout.drop op.indices ∧
      .index ∉ op.layout.drop op.indices := by
  cases op <;> decide

theorem Opcode.byte_lt (op : Opcode) : op.byte < 128 := by
  cases op <;> decide

namespace Operand

variable {pieces : List Bytes} {operands : List Operand} {kinds : List Kind}

-- Without indices the operands are as long as their kinds make them.
theorem length_of_fixed (h : List.Forall₂ Reads pieces operands) (hkinds : .index ∉ operands.map kind) :
    pieces.flatten.length = ((operands.map kind).map (Kind.width [])).sum := by
  induction h with
  | nil => rfl
  | @cons piece o pieces operands hpiece _ ih =>
    rw [List.map_cons, List.mem_cons, not_or] at hkinds
    rw [List.flatten_cons, List.length_append, ih hkinds.2, List.map_cons, List.map_cons, List.sum_cons]
    cases hpiece with
    | index => exact absurd rfl hkinds.1
    | wait h => rw [(Scan.wait_ok h).1, kind, Kind.width]
    | word hlength => rw [hlength, kind, Kind.width]

theorem split_indices {n : Nat} (h : List.Forall₂ Reads pieces operands)
    (hkinds : operands.map kind = List.replicate n .index ++ kinds) (hfixed : .index ∉ kinds) :
    ∃ front back : Bytes, pieces.flatten = front ++ back ∧ front.countP (· < 128) = n ∧
      back.length = (kinds.map (Kind.width [])).sum := by
  induction n generalizing pieces operands with
  | zero =>
    rw [List.replicate_zero, List.nil_append] at hkinds
    subst hkinds
    exact ⟨[], pieces.flatten, rfl, rfl, length_of_fixed h hfixed⟩
  | succ n ih =>
    cases h with
    | nil => cases hkinds
    | @cons piece o pieces operands hpiece hpieces =>
      rw [List.replicate_succ, List.cons_append, List.map_cons, List.cons.injEq] at hkinds
      obtain ⟨front, back, hflat, hcount, hlength⟩ := ih hpieces hkinds.2
      cases hpiece with
      | wait => cases hkinds.1
      | word => cases hkinds.1
      | index hindex =>
        refine ⟨piece ++ front, back, by rw [List.flatten_cons, hflat, List.append_assoc], ?_, hlength⟩
        rw [List.countP_append, hcount, Varint.countP_of_decodeWithin hindex, Nat.add_comm]

end Operand

namespace Instruction

variable {i : Instruction} {is js : List Instruction} {piece pre post code : Bytes} {pieces : List Bytes}

-- The indices of an instruction end in as many bytes as they are, and the rest of it is as long as its opcode says.
theorem Spans.split (h : Spans piece i) : ∃ front back : Bytes, piece = i.opcode.byte :: (front ++ back) ∧
    front.countP (· < 128) = i.opcode.indices ∧
    back.length = ((i.opcode.layout.drop i.opcode.indices).map (Operand.Kind.width [])).sum := by
  obtain ⟨hlayout, hfixed⟩ := i.opcode.layout_eq
  obtain ⟨pieces, hpiece, hpieces⟩ := h.operands
  obtain ⟨front, back, hflat, hcount, hlength⟩ :=
    Operand.split_indices hpieces (i.kinds_operands.trans hlayout) hfixed
  exact ⟨front, back, by rw [hpiece, hflat], hcount, hlength⟩

-- An instruction is not read from bytes that end in it, or behind it, and begin before it: those would hold the end
-- of one index too many, which is its own opcode.
theorem Spans.pre_eq_nil (hi : Spans piece i) (h : Spans (pre ++ piece ++ post) i) : pre = [] := by
  obtain ⟨front, back, rfl, hcount, hlength⟩ := hi.split
  obtain ⟨front', back', heq, hcount', hlength'⟩ := h.split
  cases pre with
  | nil => rfl
  | cons b pre =>
    simp only [List.cons_append, List.append_assoc, List.cons.injEq] at heq
    have hall : (pre ++ i.opcode.byte :: front) ++ (back ++ post) = front' ++ back' := by
      simpa using heq.2
    have hsum := congrArg List.length hall
    simp only [List.length_append] at hsum
    have hprefix : pre ++ i.opcode.byte :: front <+: front' :=
      List.prefix_of_prefix_length_le (hall ▸ List.prefix_append _ _) (List.prefix_append _ _)
        (by simp only [List.length_append]; omega)
    have hfewer := hprefix.sublist.countP_le (p := (· < 128))
    have hbyte := i.opcode.byte_lt
    rw [List.countP_append, List.countP_cons_of_pos (by simpa using hbyte), hcount, hcount'] at hfewer
    omega

theorem Spans.append_eq_nil (hi : Spans piece i) (h : Spans (piece ++ post) i) : post = [] := by
  have hscan := hi.scan_append post
  rw [Spans] at h
  cases hscan.symm.trans h
  rfl

-- What is read is all that was written, so it was written whole. By induction on the instructions that left bytes;
-- `pre` is what their predecessors left too much.
theorem encodable_of_spans (hwords : ∀ j ∈ js, j.InWords)
    (hcode : pre ++ js.flatMap encoding = pieces.flatten)
    (hpieces : List.Forall₂ Spans pieces (js.filter (·.write.2 = none))) :
    pre = [] ∧ ∀ j ∈ js, j.Encodable := by
  induction js generalizing pre pieces with
  | nil =>
    cases hpieces
    rw [List.flatMap_nil, List.append_nil] at hcode
    exact ⟨hcode, nofun⟩
  | cons j js ih =>
    obtain ⟨hj, hjs⟩ := List.forall_mem_cons.mp hwords
    rw [List.flatMap_cons, ← List.append_assoc] at hcode
    by_cases hwhole : j.write.2 = none
    case neg =>
      rw [List.filter_cons_of_neg (by simpa using hwhole)] at hpieces
      have hnone := (List.append_eq_nil_iff.mp (ih hjs hcode hpieces).1).2
      exact absurd hnone j.encoding_ne_nil
    case pos =>
      have hspans : Spans j.encoding j := spans_encoding hj (encode_eq hwhole)
      rw [List.filter_cons_of_pos (by simpa using hwhole)] at hpieces
      cases hpieces with
      | @cons piece _ pieces _ hpiece hpieces =>
        rw [List.flatten_cons] at hcode
        obtain ⟨post, rfl, hrest⟩ | ⟨more, hmore, hrest⟩ := List.append_eq_append_iff.mp hcode
        case inl =>
          obtain rfl := hspans.pre_eq_nil hpiece
          obtain rfl := hspans.append_eq_nil hpiece
          have hcode' : [] ++ js.flatMap encoding = pieces.flatten := hrest
          obtain ⟨-, hlater⟩ := ih hjs hcode' hpieces
          exact ⟨rfl, List.forall_mem_cons.mpr ⟨hwhole, hlater⟩⟩
        case inr =>
          obtain ⟨rfl, hlater⟩ := ih hjs hrest.symm hpieces
          rw [List.append_nil] at hmore
          have hagain : Spans (pre ++ j.encoding ++ []) j := by rwa [List.append_nil, hmore]
          exact ⟨hspans.pre_eq_nil hagain, List.forall_mem_cons.mpr ⟨hwhole, hlater⟩⟩

theorem spans_of_decodeAll {position : Nat} (h : decodeAll code position = .ok is) :
    ∃ pieces : List Bytes, code.drop position = pieces.flatten ∧ List.Forall₂ Spans pieces is := by
  fun_induction decodeAll code position generalizing is with
  | case1 => cases h
  | case2 position hmore i next hdecode _ ih =>
    cases hlater : decodeAll code next with
    | error e => rw [hlater] at h; cases h
    | ok later =>
      rw [hlater] at h
      cases h
      obtain ⟨piece, rest, hdrop, hpiece, rfl⟩ := decode_ok.mp hdecode
      obtain ⟨pieces, hrest, hpieces⟩ := ih hlater
      rw [← List.drop_drop, hdrop, List.drop_left] at hrest
      exact ⟨piece :: pieces, by rw [hdrop, hrest, List.flatten_cons], .cons hpiece hpieces⟩
  | case3 position hend =>
    cases h
    exact ⟨[], List.drop_eq_nil_iff.mpr (Nat.le_of_not_lt hend), .nil⟩

theorem filter_encodable (h : ∀ j ∈ js, j.Encodable) : js.filter (·.write.2 = none) = js :=
  List.filter_eq_self.mpr fun j hj => decide_eq_true (encodable_iff.mp (h j hj))

theorem decodeAll_iff (hwords : ∀ j ∈ js, j.InWords) :
    decodeAll (js.flatMap encoding) 0 = .ok (js.filter (·.write.2 = none)) ↔ ∀ j ∈ js, j.Encodable := by
  constructor
  case mp =>
    intro h
    obtain ⟨pieces, hflat, hpieces⟩ := spans_of_decodeAll h
    rw [List.drop_zero] at hflat
    have hcode : [] ++ js.flatMap encoding = pieces.flatten := hflat
    exact (encodable_of_spans hwords hcode hpieces).2
  case mpr =>
    intro h
    rw [filter_encodable h]
    exact decodeAll_encodings hwords h

end Instruction

namespace Assembly

open Instruction (encoding decodeAll)

variable {a b : Assembly} {i : Instruction} {is js : List Instruction} {e : Error} {limit : Nat}

-- An emit fails for want of room, and then nothing has happened, or for want of bytes, and then those that there
-- were have been added to the code, and to nothing else.
theorem emit_error (h : emit i a = (.error e, b)) :
    (e = .encoding a.limit ∧ i.Encodable ∧ b = a) ∨
      ∃ list, i.wait? = some list ∧ 2 ^ 31 - 1 < list ∧ e = .config (.listIndexTooLarge list) ∧
        b = { a with code := a.code ++ i.encoding } := by
  cases hfault : i.write.2 with
  | none =>
    rw [emit_of_encodable hfault] at h
    split at h <;> cases h
    exact .inl ⟨rfl, hfault, rfl⟩
  | some cause =>
    rw [emit_of_fault hfault] at h
    cases h
    have hencode : i.encode = .error cause := by
      have hwrite : i.write = (i.encoding, some cause) := Prod.ext rfl hfault
      rw [Instruction.encode, hwrite]
    obtain ⟨list, hwait, hlist, rfl⟩ := Instruction.encode_error.mp hencode
    exact .inr ⟨list, hwait, hlist, rfl, rfl⟩

-- The instructions whose emit was answered with success.
def taken (is : List Instruction) (answers : List (Except Error Unit)) : List Instruction :=
  ((is.zip answers).filter (·.2.isOk)).map Prod.fst

theorem taken_cons (i : Instruction) (is : List Instruction) (answer : Except Error Unit)
    (answers : List (Except Error Unit)) : taken (i :: is) (answer :: answers) = taken [i] [answer] ++ taken is answers := by
  unfold taken
  cases hanswer : answer.isOk <;> simp [hanswer]

-- Whether all that the code has got more is whole depends on why the emit failed, if it did.
theorem emit_leaves (i : Instruction) (a : Assembly) : ∃ left,
    (emit i a).2.code = a.code ++ left.flatMap encoding ∧ (emit i a).2.limit = a.limit ∧ left ⊆ [i] ∧
      left.filter (·.write.2 = none) = taken [i] [(emit i a).1] ∧
      ((∀ j ∈ left, j.Encodable) ↔ ∀ e, (emit i a).1 = .error e → e = .encoding a.limit) := by
  cases hfault : i.write.2 with
  | none =>
    rw [emit_of_encodable hfault]
    by_cases hroom : (a.code ++ i.encoding).length ≤ a.limit
    case pos =>
      rw [if_pos hroom]
      exact ⟨[i], by simp, rfl, List.Subset.refl _, by simp [hfault, taken, Except.isOk, Except.toBool],
        by simpa [Instruction.Encodable] using hfault⟩
    case neg =>
      rw [if_neg hroom]
      exact ⟨[], by simp, rfl, List.nil_subset _, rfl, by simp⟩
  | some cause =>
    rw [emit_of_fault hfault]
    have hfault' : ¬i.Encodable := by simp [Instruction.Encodable, hfault]
    exact ⟨[i], by simp, rfl, List.Subset.refl _, by simp [hfault, taken, Except.isOk, Except.toBool],
      by simpa using hfault'⟩

-- Emit after emit the code is that of some of the instructions; those that were taken are the whole ones among them,
-- and all are whole if no more than room was missing.
theorem run_leaves (js : List Instruction) (a : Assembly) : ∃ left,
    (Edit.run Edit.apply (js.map .emit) a).2.code = a.code ++ left.flatMap encoding ∧ left ⊆ js ∧
      left.filter (·.write.2 = none) = taken js (Edit.run Edit.apply (js.map .emit) a).1 ∧
      ((∀ j ∈ left, j.Encodable) ↔
        ∀ e, .error e ∈ (Edit.run Edit.apply (js.map .emit) a).1 → e = .encoding a.limit) := by
  induction js generalizing a with
  | nil => exact ⟨[], (List.append_nil _).symm, List.nil_subset _, rfl, fun _ => nofun, fun _ => nofun⟩
  | cons j js ih =>
    obtain ⟨first, hfirst, hlimit, hsub, htaken, hwhole⟩ := emit_leaves j a
    obtain ⟨later, hlater, hsubs, htakens, hwholes⟩ := ih (emit j a).2
    rw [hlimit] at hwholes
    have hrun : Edit.run Edit.apply ((j :: js).map .emit) a =
        ((emit j a).1 :: (Edit.run Edit.apply (js.map .emit) (emit j a).2).1,
          (Edit.run Edit.apply (js.map .emit) (emit j a).2).2) := rfl
    rw [hrun]
    refine ⟨first ++ later, ?_, ?_, ?_, ?_⟩
    case refine_1 => rw [hlater, hfirst, List.flatMap_append, List.append_assoc]
    case refine_2 =>
      exact List.append_subset.mpr ⟨fun k hk => by simpa using .inl (List.mem_singleton.mp (hsub hk)),
        List.subset_cons_of_subset j hsubs⟩
    case refine_3 =>
      rw [List.filter_append, htaken, htakens]
      exact (taken_cons j js _ _).symm
    case refine_4 =>
      rw [List.forall_mem_append, hwhole, hwholes]
      simp only [List.mem_cons]
      exact ⟨fun ⟨hnow, hthen⟩ e he => he.elim (fun h => hnow e h.symm) (hthen e),
        fun h => ⟨fun e he => h e (.inl he.symm), fun e he => h e (.inr he)⟩⟩

theorem spans_of_program {lists : List (List Nat)} {code : Bytes} (h : Program.decode ⟨code, lists⟩ = .ok is) :
    decodeAll code 0 = .ok is := by
  obtain ⟨pieces, hcode, hpieces⟩ := (Program.reads_iff_grammatical.mp (Program.decode_reads.mp h)).pieces
  obtain rfl : code = pieces.flatten := hcode
  exact Instruction.decodeAll_of_spans (hpieces.imp fun _ _ => Program.spans_iff_decode.mp) []

theorem Mirrors.decodeAll (h : Mirrors limit a is) : decodeAll a.code 0 = .ok is := by
  rw [h.holds.code]
  exact Instruction.decodeAll_encodings h.words h.holds.encodable

theorem Mirrors.decodeAll_emits (h : Mirrors limit a is) (hjs : ∀ j ∈ js, j.InWords) :
    let (answers, b) := Edit.run Edit.apply (js.map .emit) a
    Instruction.decodeAll b.code 0 = .ok (is ++ taken js answers) ↔ ∀ e, .error e ∈ answers → e = .encoding limit := by
  obtain ⟨left, hcode, hsub, htaken, hwhole⟩ := run_leaves js a
  have hwords : ∀ j ∈ is ++ left, j.InWords :=
    List.forall_mem_append.mpr ⟨h.words, fun j hj => hjs j (hsub hj)⟩
  have hreads := Instruction.decodeAll_iff hwords
  rw [List.filter_append, Instruction.filter_encodable h.holds.encodable, htaken, List.flatMap_append,
    ← h.holds.code, ← hcode, List.forall_mem_append, and_iff_right h.holds.encodable, hwhole, h.limit] at hreads
  exact hreads

-- A failed emit leaves nothing, unless it failed for its wait list: then it leaves the opcode and what comes before
-- that list. Going on, the code is read as exactly what was taken if nothing was left, and only then; so neither is
-- it a program of that.
theorem emit_residue (limit : Nat) {es : List Edit} (hes : ∀ e ∈ es, e.Fair) {js : List Instruction}
    (hjs : ∀ j ∈ js, j.InWords) :
    (∀ (a : Assembly) (i : Instruction) (e : Error) (b : Assembly), emit i a = (.error e, b) →
      (e = .encoding a.limit ∧ i.Encodable ∧ b = a) ∨
        ∃ list, i.wait? = some list ∧ 2 ^ 31 - 1 < list ∧ e = .config (.listIndexTooLarge list) ∧
          b = { a with code := a.code ++ i.encoding } ∧ a.code.length < b.code.length) ∧
    let (_, a) := Edit.run Edit.apply es { limit }
    let (answers, b) := Edit.run Edit.apply (js.map .emit) a
    ∃ is, decodeAll a.code 0 = .ok is ∧
      (decodeAll b.code 0 = .ok (is ++ taken js answers) ↔ ∀ e, .error e ∈ answers → e = .encoding limit) ∧
      ∀ lists, Program.decode ⟨b.code, lists⟩ = .ok (is ++ taken js answers) →
        ∀ e, .error e ∈ answers → e = .encoding limit := by
  refine ⟨fun a i e b h => ?_, ?_⟩
  case refine_1 =>
    obtain hroom | ⟨list, hwait, hlist, rfl, rfl⟩ := emit_error h
    case inl => exact .inl hroom
    case inr =>
      have hpos := List.length_pos_iff.mpr i.encoding_ne_nil
      exact .inr ⟨list, hwait, hlist, rfl, rfl, by rw [List.length_append]; omega⟩
  case refine_2 =>
    have hstart : Mirrors limit { limit } [] := ⟨holds_nil limit, rfl, nofun⟩
    have hmirrors := (hstart.run hes).2
    have hreads := hmirrors.decodeAll_emits hjs
    exact ⟨_, hmirrors.decodeAll, hreads, fun lists h => hreads.mp (spans_of_program h)⟩

-- A barrier on a list that it cannot name leaves its opcode, and END is read as its operand.
def botched : List Instruction :=
  [.barrier (some (2 ^ 31)), .finish]

def botchedAnswers : List (Except Error Unit) :=
  [.error (.config (.listIndexTooLarge (2 ^ 31))), .ok ⟨⟩]

def opened : Assembly where
  limit := 64
  code := [1, 0, 0, 0]
  last := some 0
  count := 1

theorem botched_residue : (∀ e ∈ [Edit.emit (.begin 0 0 0)], e.Fair) ∧ (∀ j ∈ botched, j.InWords) ∧
    (∃ b, emit (.barrier (some (2 ^ 31))) opened = (.error (.config (.listIndexTooLarge (2 ^ 31))), b) ∧
      opened.code.length < b.code.length) ∧
    Edit.run Edit.apply (botched.map .emit) opened =
      (botchedAnswers, { opened with code := [1, 0, 0, 0, 8, 10], last := some 5, count := 2 }) ∧
    ∀ lists, Program.decode ⟨[1, 0, 0, 0, 8, 10], lists⟩ ≠ .ok [.begin 0 0 0, .finish] := by
  have hfair : ∀ e ∈ [Edit.emit (.begin 0 0 0)], e.Fair := by
    simp [Edit.Fair, Instruction.InWords, Instruction.Encodable, Instruction.write, Instruction.operands,
      Operand.InWord, Operand.encodeAll, Operand.encode, wordLimit]
  have hwords : ∀ j ∈ botched, j.InWords := by
    simp [botched, Instruction.InWords, Instruction.operands, Operand.InWord]
  have hopened : Edit.run Edit.apply [.emit (.begin 0 0 0)] { limit := 64 } = ([.ok ⟨⟩], opened) := by
    decide +kernel
  have hrun : Edit.run Edit.apply (botched.map .emit) opened =
      (botchedAnswers, { opened with code := [1, 0, 0, 0, 8, 10], last := some 5, count := 2 }) := by
    decide +kernel
  have hbarrier : emit (.barrier (some (2 ^ 31))) opened =
      (.error (.config (.listIndexTooLarge (2 ^ 31))), { opened with code := [1, 0, 0, 0, 8] }) := rfl
  obtain ⟨hfails, hresidue⟩ := emit_residue 64 hfair hwords
  refine ⟨hfair, hwords, ⟨_, hbarrier, ?_⟩, hrun, fun lists hprogram => ?_⟩
  case refine_1 =>
    obtain ⟨hroom, -⟩ | ⟨_, -, -, -, -, hlonger⟩ := hfails _ _ _ _ hbarrier
    case inl => cases hroom
    case inr => exact hlonger
  case refine_2 =>
    rw [hopened] at hresidue
    dsimp only at hresidue
    rw [hrun] at hresidue
    obtain ⟨is, his, -, hnever⟩ := hresidue
    have hbegin : decodeAll opened.code 0 = .ok [.begin 0 0 0] := by decide +kernel
    cases hbegin.symm.trans his
    have hconfig := hnever lists hprogram (.config (.listIndexTooLarge (2 ^ 31))) (by decide)
    cases hconfig

-- Here an ignored failure is not as good as none.
theorem botched_misread :
    Edit.run Edit.apply [.emit (.begin 0 0 0)] { limit := 64 } = ([.ok ⟨⟩], opened) ∧
    Edit.run Edit.apply (botched.map .emit) opened =
      (botchedAnswers, { opened with code := [1, 0, 0, 0, 8, 10], last := some 5, count := 2 }) ∧
    taken botched botchedAnswers = [.finish] ∧
    Program.decode ⟨[1, 0, 0, 0, 8, 10], []⟩ = .error (.decode 4 .truncatedWaitList) ∧
    ¬∀ (i : Instruction) (e : Error) (b : Assembly), emit i opened = (.error e, b) → b.code = opened.code := by
  refine ⟨by decide +kernel, by decide +kernel, by decide +kernel, by decide +kernel, fun hclaim => ?_⟩
  have hbarrier : emit (.barrier (some (2 ^ 31))) opened =
      (.error (.config (.listIndexTooLarge (2 ^ 31))), { opened with code := [1, 0, 0, 0, 8] }) := rfl
  cases hclaim _ _ _ hbarrier

end Assembly
end Offload
