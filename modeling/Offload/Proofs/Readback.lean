import Offload.Proofs.Assembly

/-!
Which instructions decode to themselves: those whose operands fit their words, between one BEGIN and
one END, with no list named that the table of the program does not have.
-/

namespace Offload

-- An operand that is read back as it was written.
def Operand.InWord : Operand → Prop
  | .index n | .word n => n < wordLimit
  | .wait _ => True

namespace Instruction

variable {i : Instruction}

def InWords (i : Instruction) : Prop :=
  ∀ operand ∈ i.operands, operand.InWord

theorem InWords.fits (h : i.InWords) : i.Fits := by
  intro operand hoperand
  have hword := h operand hoperand
  cases operand with
  | index n => exact hword
  | wait list => trivial
  | word n => trivial

theorem InWords.wrapped_eq (h : i.InWords) : i.wrapped = i := by
  cases i <;> simp_all [InWords, operands, wrapped, Operand.InWord, Nat.mod_eq_of_lt]

-- What may stand between the first and the last instruction of a program with a table of `lists` lists.
structure Inner (lists : Nat) (i : Instruction) : Prop where
  encodable : i.Encodable
  words     : i.InWords
  begins    : i.opcode ≠ .begin
  finishes  : i.opcode ≠ .finish
  list      : ∀ list, i.list? = some list → list < lists

theorem Inner.placeFault_eq {lists : Nat} (h : i.Inner lists) :
    Program.placeFault lists false i = none := by
  unfold Program.placeFault
  rw [if_neg (by simp), if_neg (by simpa using h.begins)]
  cases hlist : i.list? with
  | none => rfl
  | some list => exact if_pos (h.list list hlist)

end Instruction

namespace Program

open Instruction (encoding)

variable {lists fuel offset : Nat} {is : List Instruction}

theorem encoding_length_pos (i : Instruction) : 0 < i.encoding.length :=
  List.length_pos_iff.mpr i.encoding_ne_nil

theorem decodeFrom_finish (hfuel : 0 < fuel) (hoffset : 0 < offset) :
    decodeFrom lists fuel offset Instruction.finish.encoding = .ok [.finish] := by
  cases fuel with
  | zero => cases hfuel
  | succ fuel =>
    have hscan : Instruction.scan Instruction.finish.encoding = .ok (.finish, []) := by decide
    rw [decodeFrom.eq_3 _ _ _ _ Instruction.finish.encoding_ne_nil, hscan]
    simp [placeFault, Instruction.opcode, Instruction.list?, Instruction.wait?,
      Nat.ne_of_gt hoffset, pure, Except.pure]

theorem decodeFrom_inner (his : ∀ i ∈ is, i.Inner lists) (hoffset : 0 < offset)
    (hfuel : ((is ++ [Instruction.finish]).flatMap encoding).length ≤ fuel) :
    decodeFrom lists fuel offset ((is ++ [Instruction.finish]).flatMap encoding) = .ok (is ++ [.finish]) := by
  induction is generalizing fuel offset with
  | nil =>
    have hpos := encoding_length_pos .finish
    simp only [List.nil_append, List.flatMap_singleton] at hfuel ⊢
    exact decodeFrom_finish (Nat.lt_of_lt_of_le hpos hfuel) hoffset
  | cons i is ih =>
    have ⟨hi, hrest⟩ := List.forall_mem_cons.mp his
    have hpos := encoding_length_pos i
    rw [List.cons_append, List.flatMap_cons] at hfuel ⊢
    have hne : i.encoding ++ (is ++ [Instruction.finish]).flatMap encoding ≠ [] := by
      simp [Instruction.encoding_ne_nil]
    rw [List.length_append] at hfuel
    cases fuel with
    | zero => omega
    | succ fuel =>
      have hscan : Instruction.scan (i.encoding ++ (is ++ [Instruction.finish]).flatMap encoding) =
          .ok (i.wrapped, (is ++ [Instruction.finish]).flatMap encoding) :=
        (Instruction.scan_encoding hi.encodable).mpr ⟨hi.words.fits, rfl, rfl⟩
      have hplace : placeFault lists (offset = 0) i = none := by
        simpa [Nat.ne_of_gt hoffset] using hi.placeFault_eq
      rw [decodeFrom.eq_3 _ _ _ _ hne, hscan, hi.words.wrapped_eq]
      simp only [hplace, if_neg hi.finishes, List.length_append, Nat.add_sub_cancel]
      rw [ih hrest (by omega) (by omega)]
      rfl

-- A program whose code is the encodings of such instructions decodes to them.
theorem decode_inner {p : Program} {slots tasks : Nat}
    (hbegin : (Instruction.begin slots tasks p.lists.length).InWords)
    (his : ∀ i ∈ is, i.Inner p.lists.length)
    (hcode : p.code =
      (.begin slots tasks p.lists.length :: (is ++ [.finish])).flatMap encoding) :
    p.decode = .ok (.begin slots tasks p.lists.length :: (is ++ [.finish])) := by
  have hpos := encoding_length_pos (.begin slots tasks p.lists.length)
  have hne : p.code ≠ [] := by simp [hcode, Instruction.encoding_ne_nil]
  have hscan : Instruction.scan p.code =
      .ok (.begin slots tasks p.lists.length, (is ++ [Instruction.finish]).flatMap encoding) := by
    rw [hcode, List.flatMap_cons]
    have hencodable : (Instruction.begin slots tasks p.lists.length).Encodable := rfl
    exact (Instruction.scan_encoding hencodable).mpr ⟨hbegin.fits, rfl, hbegin.wrapped_eq⟩
  have hlength : p.code.length = (Instruction.begin slots tasks p.lists.length).encoding.length +
      ((is ++ [Instruction.finish]).flatMap encoding).length := by
    rw [hcode, List.flatMap_cons, List.length_append]
  unfold decode
  obtain ⟨fuel, hfuel⟩ := Nat.exists_eq_succ_of_ne_zero (Nat.ne_of_gt (List.length_pos_iff.mpr hne))
  have hrest : decodeFrom p.lists.length fuel
      (0 + (p.code.length - ((is ++ [Instruction.finish]).flatMap encoding).length))
      ((is ++ [Instruction.finish]).flatMap encoding) = .ok (is ++ [.finish]) :=
    decodeFrom_inner his (by omega) (by omega)
  rw [hfuel, decodeFrom.eq_3 _ _ _ _ hne, hscan]
  dsimp only
  rw [if_neg (by simp [Instruction.opcode]), hrest]
  rfl

end Program
end Offload
