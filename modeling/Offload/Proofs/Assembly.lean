import Offload.Program.Assembly
import Offload.Proofs.Action
import Offload.Proofs.Codec

/-!
What an assembly holds, as a list of instructions, and what a program decodes to whose code is the
encodings of a list of instructions.
-/

namespace Offload

inductive Operand.Kind
  | index
  | wait
  | word
  deriving DecidableEq

def Operand.kind : Operand → Operand.Kind
  | .index _ => .index
  | .wait _ => .wait
  | .word _ => .word

namespace Operand

theorem kind_index {o : Operand} : o.kind = .index ↔ ∃ n, o = .index n := by
  cases o <;> simp [kind]

theorem kind_wait {o : Operand} : o.kind = .wait ↔ ∃ list, o = .wait list := by
  cases o <;> simp [kind]

theorem kind_word {o : Operand} : o.kind = .word ↔ ∃ n, o = .word n := by
  cases o <;> simp [kind]

end Operand

-- The kinds of the operands that follow an opcode, in order.
def Opcode.layout : Opcode → List Operand.Kind
  | .begin => [.index, .index, .index]
  | .context | .addDep => [.index]
  | .launch => [.index, .index, .wait, .word, .word]
  | .streamIn | .streamOut | .streamOutBlocking => [.index, .word, .word, .wait]
  | .barrier | .marker => [.wait]
  | .finish => []

namespace Instruction

theorem kinds_operands (i : Instruction) : i.operands.map Operand.kind = i.opcode.layout := by
  cases i <;> rfl

def ofOperands? : Opcode → List Operand → Option Instruction
  | .begin, [.index slots, .index tasks, .index lists] => some (.begin slots tasks lists)
  | .context, [.index device] => some (.context device)
  | .launch, [.index task, .index device, .wait wait, .word offset, .word threads] =>
    some (.launch task device wait offset threads)
  | .streamIn, [.index object, .word offset, .word length, .wait wait] =>
    some (.streamIn object offset length wait)
  | .streamOut, [.index object, .word offset, .word length, .wait wait] =>
    some (.streamOut object offset length wait)
  | .streamOutBlocking, [.index object, .word offset, .word length, .wait wait] =>
    some (.streamOutBlocking object offset length wait)
  | .addDep, [.index list] => some (.addDep list)
  | .barrier, [.wait wait] => some (.barrier wait)
  | .marker, [.wait wait] => some (.marker wait)
  | .finish, [] => some .finish
  | _, _ => none

theorem ofOperands?_ok {op : Opcode} {operands : List Operand} {i : Instruction}
    (h : ofOperands? op operands = some i) : i.opcode = op ∧ i.operands = operands := by
  unfold ofOperands? at h
  split at h <;> cases h <;> exact ⟨rfl, rfl⟩

theorem exists_ofOperands? {op : Opcode} {operands : List Operand}
    (h : operands.map Operand.kind = op.layout) : ∃ i, ofOperands? op operands = some i := by
  cases op <;> simp only [Opcode.layout, List.map_eq_cons_iff, List.map_eq_nil_iff, Operand.kind_index,
    Operand.kind_wait, Operand.kind_word] at h
  case begin =>
    obtain ⟨_, _, rfl, ⟨_, rfl⟩, _, _, rfl, ⟨_, rfl⟩, _, _, rfl, ⟨_, rfl⟩, rfl⟩ := h
    exact ⟨_, rfl⟩
  case launch =>
    obtain ⟨_, _, rfl, ⟨_, rfl⟩, _, _, rfl, ⟨_, rfl⟩, _, _, rfl, ⟨_, rfl⟩, _, _, rfl, ⟨_, rfl⟩, _, _, rfl,
      ⟨_, rfl⟩, rfl⟩ := h
    exact ⟨_, rfl⟩
  case streamIn | streamOut | streamOutBlocking =>
    obtain ⟨_, _, rfl, ⟨_, rfl⟩, _, _, rfl, ⟨_, rfl⟩, _, _, rfl, ⟨_, rfl⟩, _, _, rfl, ⟨_, rfl⟩, rfl⟩ := h
    exact ⟨_, rfl⟩
  case context | addDep | barrier | marker =>
    obtain ⟨_, _, rfl, ⟨_, rfl⟩, rfl⟩ := h
    exact ⟨_, rfl⟩
  case finish =>
    subst h
    exact ⟨_, rfl⟩

-- The instruction of another opcode with the operands of this one.
def recode (target : Opcode) (i : Instruction) : Instruction :=
  (ofOperands? target i.operands).getD i

theorem recode_ok {target : Opcode} {i : Instruction} (h : i.opcode.layout = target.layout) :
    (i.recode target).opcode = target ∧ (i.recode target).operands = i.operands := by
  obtain ⟨j, hj⟩ := exists_ofOperands? (i.kinds_operands.trans h)
  rw [recode, hj]
  exact ofOperands?_ok hj

-- A stream-out that blocks in place of one that does not.
def blocking : Instruction → Instruction
  | .streamOut object offset length wait => .streamOutBlocking object offset length wait
  | i => i

theorem recode_blocking {i : Instruction} (h : i.opcode = .streamOut) :
    i.recode .streamOutBlocking = i.blocking := by
  cases i <;> cases h
  rfl

theorem encoding_ne_nil (i : Instruction) : i.encoding ≠ [] := by
  simp [encoding_eq]

theorem opcode_wrapped (i : Instruction) : i.wrapped.opcode = i.opcode := by
  cases i <;> rfl

theorem wrapped_blocking (i : Instruction) : i.blocking.wrapped = i.wrapped.blocking := by
  cases i <;> rfl

theorem encoding_wrapped (i : Instruction) : i.wrapped.encoding = i.encoding := by
  have hword (n : Nat) : Bytes.word 8 (n % wordLimit) = Bytes.word 8 n := Bytes.word_mod 8 n
  cases i <;> simp [wrapped, encoding, write, operands, opcode, Operand.encodeAll, Operand.encode, hword]

end Instruction

open Instruction (encoding)

namespace Assembly

structure Holds (a : Assembly) (is : List Instruction) : Prop where
  code      : a.code = is.flatMap encoding
  encodable : ∀ i ∈ is, i.Encodable
  last      : a.last = is.getLast?.map fun _ => (is.dropLast.flatMap encoding).length
  count     : a.count = is.length
  room      : a.code.length ≤ a.limit

theorem holds_nil (limit : Nat) : Holds { limit } [] where
  code := rfl
  encodable := nofun
  last := rfl
  count := rfl
  room := Nat.zero_le _

theorem emit_of_fault {i : Instruction} {cause : Misuse} (h : i.write.2 = some cause) (a : Assembly) :
    emit i a = (.error (.config cause), { a with code := a.code ++ i.encoding }) := by
  have hwrite : i.write = (i.encoding, some cause) := Prod.ext rfl h
  unfold emit
  rw [Action.bind_of_ok (Action.get_apply a), hwrite]
  rfl

theorem emit_of_encodable {i : Instruction} (h : i.Encodable) (a : Assembly) : emit i a =
    if (a.code ++ i.encoding).length ≤ a.limit then
      (.ok ⟨⟩, { a with code := a.code ++ i.encoding, last := some a.code.length, count := a.count + 1 })
    else (.error (.encoding a.limit), a) := by
  have hwrite : i.write = (i.encoding, none) := Prod.ext rfl h
  unfold emit
  rw [Action.bind_of_ok (Action.get_apply a), hwrite]
  dsimp only
  by_cases hroom : (a.code ++ i.encoding).length ≤ a.limit
  case pos =>
    rw [if_pos hroom, if_neg (Nat.not_lt_of_le hroom)]
    rfl
  case neg =>
    rw [if_neg hroom, if_pos (Nat.lt_of_not_le hroom)]
    rfl

theorem emit_ok {a b : Assembly} {i : Instruction} (h : emit i a = (.ok ⟨⟩, b)) :
    i.Encodable ∧ (a.code ++ i.encoding).length ≤ a.limit ∧
      b = { a with code := a.code ++ i.encoding, last := some a.code.length, count := a.count + 1 } := by
  cases hfault : i.write.2 with
  | some cause =>
    rw [emit_of_fault hfault] at h
    cases h
  | none =>
    rw [emit_of_encodable hfault] at h
    split at h
    case isTrue hroom =>
      cases h
      exact ⟨hfault, hroom, rfl⟩
    case isFalse => cases h

theorem Holds.emit {a b : Assembly} {is : List Instruction} {i : Instruction} (ha : a.Holds is)
    (h : emit i a = (.ok ⟨⟩, b)) : b.Holds (is ++ [i]) := by
  obtain ⟨hi, hroom, rfl⟩ := emit_ok h
  constructor
  case code => simp [ha.code]
  case encodable =>
    intro j hj
    cases List.mem_append.mp hj
    case inl hj => exact ha.encodable j hj
    case inr hj => exact List.mem_singleton.mp hj ▸ hi
  case last => simp [ha.code]
  case count => simp [ha.count]
  case room => exact hroom

theorem Holds.emits {a b : Assembly} {is js : List Instruction} (ha : a.Holds is)
    (h : js.forM Assembly.emit a = (.ok ⟨⟩, b)) : b.Holds (is ++ js) := by
  induction js generalizing a is with
  | nil =>
    cases h
    simpa using ha
  | cons j js ih =>
    change (Assembly.emit j >>= fun _ => js.forM Assembly.emit) a = _ at h
    obtain ⟨_, c, hj, hjs⟩ := Action.bind_ok.mp h
    have hb := ih (ha.emit hj) hjs
    rwa [List.append_assoc] at hb

theorem rewriteLast_of_none {a : Assembly} (h : a.last = none) (source target : Opcode) :
    rewriteLast source target a = (.error (.config (.rewriteMismatch source target none)), a) := by
  unfold rewriteLast
  rw [Action.bind_of_ok (Action.get_apply a), h]
  rfl

theorem rewriteLast_of_some {a : Assembly} {last : Nat} (h : a.last = some last) (source target : Opcode) :
    rewriteLast source target a =
      if a.lastOpcode? = some source then (.ok ⟨⟩, { a with code := a.code.set last target.byte })
      else (.error (.config (.rewriteMismatch source target a.lastOpcode?)), a) := by
  unfold rewriteLast
  rw [Action.bind_of_ok (Action.get_apply a), h]
  dsimp only
  split <;> rfl

theorem rewriteLast_ok {a b : Assembly} {source target : Opcode}
    (h : rewriteLast source target a = (.ok ⟨⟩, b)) :
    ∃ last, a.last = some last ∧ a.lastOpcode? = some source ∧
      b = { a with code := a.code.set last target.byte } := by
  rcases Option.eq_none_or_eq_some a.last with hlast | ⟨last, hlast⟩
  case inl =>
    rw [rewriteLast_of_none hlast] at h
    cases h
  case inr =>
    rw [rewriteLast_of_some hlast] at h
    split at h
    case isTrue hopcode =>
      cases h
      exact ⟨last, hlast, hopcode, rfl⟩
    case isFalse => cases h

-- No step of an assembler changes how much room there is.
theorem limit_lasting : Action.Lasting fun a b : Assembly => b.limit = a.limit where
  refl _ := rfl
  trans h h' := h'.trans h

theorem limit_emit (i : Instruction) : (emit i).Keeps fun a b => b.limit = a.limit := by
  intro a
  unfold Action.Ends
  cases hfault : i.write.2 with
  | some cause => rw [emit_of_fault hfault]
  | none =>
    rw [emit_of_encodable hfault]
    split <;> rfl

theorem limit_rewriteLast (source target : Opcode) :
    (rewriteLast source target).Keeps fun a b => b.limit = a.limit := by
  intro a
  unfold Action.Ends
  cases hlast : a.last with
  | none => rw [rewriteLast_of_none hlast]
  | some last =>
    rw [rewriteLast_of_some hlast]
    split <;> rfl

theorem Holds.lastOpcode? {a : Assembly} {is : List Instruction} {i : Instruction}
    (ha : a.Holds (is ++ [i])) : a.lastOpcode? = some i.opcode := by
  have hlast : a.last = some (is.flatMap encoding).length := by simpa using ha.last
  have hbyte : a.code[(is.flatMap encoding).length]? = some i.opcode.byte := by
    simp [ha.code, Instruction.encoding_eq]
  simp only [Assembly.lastOpcode?, hlast, Option.bind_eq_bind, Option.bind_some]
  rw [hbyte]
  exact Opcode.ofByte?_byte i.opcode

-- Only the opcode is written over, since the operands of both are laid out alike.
theorem Holds.recode {a : Assembly} {is : List Instruction} {i : Instruction} {target : Opcode}
    (ha : a.Holds (is ++ [i])) (h : i.opcode.layout = target.layout) :
    Holds { a with code := a.code.set (is.flatMap encoding).length target.byte } (is ++ [i.recode target]) := by
  obtain ⟨hopcode, hoperands⟩ := Instruction.recode_ok h
  have hencoding : (i.recode target).encoding = target.byte :: (Operand.encodeAll i.operands).1 := by
    rw [Instruction.encoding_eq, hopcode, hoperands]
  constructor
  case code => simp [ha.code, hencoding, Instruction.encoding_eq i]
  case encodable =>
    intro j hj
    cases List.mem_append.mp hj
    case inl hj => exact ha.encodable j (List.mem_append_left _ hj)
    case inr hj =>
      have hi := ha.encodable i (by simp)
      rw [Instruction.encodable_iff] at hi
      rw [List.mem_singleton.mp hj, Instruction.encodable_iff, hoperands]
      exact hi
  case last => simpa using ha.last
  case count => simpa using ha.count
  case room => simpa using ha.room

theorem Holds.block {a b : Assembly} {is : List Instruction} (ha : a.Holds is)
    (h : rewriteLast .streamOut .streamOutBlocking a = (.ok ⟨⟩, b)) :
    ∃ init i, is = init ++ [i] ∧ i.opcode = .streamOut ∧ b.Holds (init ++ [i.blocking]) := by
  obtain ⟨last, hlast, hopcode, rfl⟩ := rewriteLast_ok h
  cases List.eq_nil_or_concat is
  case inl hnil =>
    subst hnil
    cases hlast ▸ ha.last
  case inr hconcat =>
    obtain ⟨init, i, rfl⟩ := hconcat
    rw [List.concat_eq_append] at ha ⊢
    have hi : i.opcode = .streamOut := Option.some.inj (ha.lastOpcode?.symm.trans hopcode)
    have hplace : last = (init.flatMap encoding).length := by
      have hplace := hlast.symm.trans ha.last
      simpa using hplace
    subst hplace
    refine ⟨init, i, rfl, hi, ?_⟩
    rw [← Instruction.recode_blocking hi]
    exact ha.recode (by rw [hi]; rfl)

end Assembly

namespace Program

-- Decoding stops at the end of a program, so that nothing can follow it here.
theorem decodeFrom_encodings {lists fuel offset : Nat} {is js : List Instruction}
    (his : ∀ i ∈ is, i.Encodable) (h : decodeFrom lists fuel offset (is.flatMap encoding) = .ok js) :
    (∀ i ∈ is, i.Fits) ∧ js = is.map Instruction.wrapped := by
  induction is generalizing fuel offset js with
  | nil => cases fuel <;> cases h
  | cons i is ih =>
    have hne : i.encoding ++ is.flatMap encoding ≠ [] := by simp [Instruction.encoding_ne_nil]
    rw [List.flatMap_cons] at h
    cases fuel with
    | zero =>
      rw [decodeFrom.eq_2 _ _ _ hne] at h
      cases h
    | succ fuel =>
      rw [decodeFrom.eq_3 _ _ _ _ hne] at h
      have hi := his i (by simp)
      cases hscan : Instruction.scan (i.encoding ++ is.flatMap encoding) <;> simp only [hscan] at h
      case error => cases h
      case ok result =>
      obtain ⟨j, rest⟩ := result
      obtain ⟨hfits, rfl, rfl⟩ := (Instruction.scan_encoding hi).mp hscan
      have all_fit (hrest : ∀ k ∈ is, k.Fits) : ∀ k ∈ i :: is, k.Fits := by
        simpa using ⟨hfits, hrest⟩
      cases hplace : placeFault lists (offset = 0) i.wrapped <;> simp only [hplace] at h
      case some => cases h
      case none =>
      split at h
      case isTrue =>
        split at h
        case isFalse => cases h
        case isTrue hrest =>
          -- no instruction is written in no bytes, so nothing was left
          cases is with
          | cons k is => simp [Instruction.encoding_ne_nil] at hrest
          | nil =>
            cases h
            exact ⟨all_fit nofun, rfl⟩
      case isFalse =>
        cases hjs : decodeFrom lists fuel (offset + ((i.encoding ++ is.flatMap encoding).length -
          (is.flatMap encoding).length)) (is.flatMap encoding) <;> rw [hjs] at h
        case error => cases h
        case ok js =>
          cases h
          obtain ⟨hrest, rfl⟩ := ih (fun k hk => his k (List.mem_cons_of_mem i hk)) hjs
          exact ⟨all_fit hrest, rfl⟩

end Program
end Offload
