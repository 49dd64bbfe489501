import Offload.Proofs.Pieces

/-!
An assembly under edits, one after another, is a list of instructions: it takes up and refuses what the list
does, its bytes are those of the list, and they read back as the list.
-/

namespace Offload

open Instruction (encoding)

-- What an assembly is asked for.
inductive Edit
  | emit (i : Instruction)
  | rewriteLast (source target : Opcode)
  deriving DecidableEq

namespace Edit

def apply : Edit → Action Assembly Unit
  | .emit i => Assembly.emit i
  | .rewriteLast source target => Assembly.rewriteLast source target

-- What it comes to for a list of instructions that has so much room for its bytes.
def onList (limit : Nat) : Edit → Action (List Instruction) Unit
  | .emit i, is =>
    if ((is ++ [i]).flatMap encoding).length ≤ limit then (.ok ⟨⟩, is ++ [i])
    else (.error (.encoding limit), is)
  | .rewriteLast source target, is =>
    match is.getLast? with
    | some i =>
      if i.opcode = source then (.ok ⟨⟩, is.dropLast ++ [i.recode target])
      else (.error (.config (.rewriteMismatch source target (some i.opcode))), is)
    | none => (.error (.config (.rewriteMismatch source target none)), is)

-- One edit after another, with the answer to each, whether or not it was taken up.
def run {σ : Type} (step : Edit → Action σ Unit) : List Edit → σ → List (Except Error Unit) × σ
  | [], s => ([], s)
  | e :: es, s =>
    let (answer, t) := step e s
    let (answers, u) := run step es t
    (answer :: answers, u)

-- Instructions that have bytes to read back, and opcodes whose operands are laid out alike.
def Fair : Edit → Prop
  | .emit i => i.InWords ∧ i.Encodable
  | .rewriteLast source target => source.layout = target.layout

end Edit

namespace Instruction

theorem encode_eq {i : Instruction} (h : i.Encodable) : i.encode = .ok i.encoding := by
  have hwrite : i.write = (i.encoding, none) := Prod.ext rfl h
  rw [encode, hwrite]

theorem decodeAll_encodings {is : List Instruction} (hwords : ∀ i ∈ is, i.InWords)
    (hencodable : ∀ i ∈ is, i.Encodable) : decodeAll (is.flatMap encoding) 0 = .ok is := by
  have hspans : List.Forall₂ Spans (is.map encoding) is :=
    List.forall₂_map_left_iff.mpr (List.forall₂_same.mpr fun i hi =>
      spans_encoding (hwords i hi) (encode_eq (hencodable i hi)))
  rw [List.flatMap_def]
  exact decodeAll_of_spans hspans []

theorem InWords.recode {i : Instruction} {target : Opcode} (hi : i.InWords)
    (h : i.opcode.layout = target.layout) : (i.recode target).InWords := by
  rwa [InWords, (recode_ok h).2]

end Instruction

namespace Assembly

variable {a : Assembly} {is : List Instruction} {limit : Nat} {e : Edit} {es : List Edit}

-- The assembly of a list of instructions.
def ofList (limit : Nat) (is : List Instruction) : Assembly where
  limit
  code := is.flatMap encoding
  last := is.getLast?.map fun _ => (is.dropLast.flatMap encoding).length
  count := is.length

structure Mirrors (limit : Nat) (a : Assembly) (is : List Instruction) : Prop where
  holds : a.Holds is
  limit : a.limit = limit
  words : ∀ i ∈ is, i.InWords

theorem Mirrors.eq_ofList (h : Mirrors limit a is) : a = ofList limit is := by
  cases a
  simp only [ofList, mk.injEq]
  exact ⟨h.limit, h.holds.code, h.holds.last, h.holds.count⟩

theorem Mirrors.lastOpcode? (h : Mirrors limit a is) :
    a.lastOpcode? = is.getLast?.map Instruction.opcode := by
  rcases List.eq_nil_or_concat is with rfl | ⟨init, i, rfl⟩
  case inl =>
    have hlast : a.last = none := h.holds.last
    rw [Assembly.lastOpcode?, hlast]
    rfl
  case inr =>
    have hholds := h.holds
    rw [List.concat_eq_append] at hholds ⊢
    simpa using hholds.lastOpcode?

theorem Mirrors.emit {i : Instruction} (h : Mirrors limit a is) (hi : (Edit.emit i).Fair) :
    (Assembly.emit i a).1 = ((Edit.emit i).onList limit is).1 ∧
      Mirrors limit (Assembly.emit i a).2 ((Edit.emit i).onList limit is).2 := by
  obtain ⟨hwords, hencodable⟩ := hi
  have hcode : a.code ++ i.encoding = (is ++ [i]).flatMap encoding := by simp [h.holds.code]
  have hemit := emit_of_encodable hencodable a
  rw [hcode, h.limit] at hemit
  dsimp only [Edit.onList]
  by_cases hroom : ((is ++ [i]).flatMap encoding).length ≤ limit
  case neg =>
    rw [if_neg hroom] at hemit ⊢
    rw [hemit]
    exact ⟨rfl, h⟩
  case pos =>
    rw [if_pos hroom] at hemit ⊢
    refine ⟨by rw [hemit], h.holds.emit (Prod.ext (by rw [hemit]) rfl), ?_, ?_⟩
    case refine_1 => rw [hemit]
    case refine_2 =>
      intro j hj
      cases List.mem_append.mp hj
      case inl hj => exact h.words j hj
      case inr hj => exact List.mem_singleton.mp hj ▸ hwords

theorem Mirrors.rewriteLast {source target : Opcode} (h : Mirrors limit a is)
    (hlayout : source.layout = target.layout) :
    (Assembly.rewriteLast source target a).1 = ((Edit.rewriteLast source target).onList limit is).1 ∧
      Mirrors limit (Assembly.rewriteLast source target a).2
        ((Edit.rewriteLast source target).onList limit is).2 := by
  have hopcode := h.lastOpcode?
  rcases List.eq_nil_or_concat is with rfl | ⟨init, i, rfl⟩
  case inl =>
    have hlast : a.last = none := h.holds.last
    rw [rewriteLast_of_none hlast]
    exact ⟨rfl, h⟩
  case inr =>
    rw [List.concat_eq_append] at h hopcode ⊢
    have hlast : a.last = some (init.flatMap encoding).length := by simpa using h.holds.last
    rw [List.getLast?_concat, Option.map_some] at hopcode
    rw [rewriteLast_of_some hlast, hopcode, Edit.onList, List.getLast?_concat]
    dsimp only
    by_cases hsource : i.opcode = source
    case neg =>
      rw [if_neg hsource, if_neg fun heq => hsource (Option.some.inj heq)]
      exact ⟨rfl, h⟩
    case pos =>
      have hlayout' : i.opcode.layout = target.layout := hsource ▸ hlayout
      rw [if_pos hsource, if_pos (congrArg some hsource), List.dropLast_concat]
      refine ⟨rfl, h.holds.recode hlayout', h.limit, fun j hj => ?_⟩
      cases List.mem_append.mp hj
      case inl hj => exact h.words j (List.mem_append_left _ hj)
      case inr hj => exact List.mem_singleton.mp hj ▸ (h.words i (by simp)).recode hlayout'

theorem Mirrors.step (h : Mirrors limit a is) (he : e.Fair) :
    (e.apply a).1 = (e.onList limit is).1 ∧ Mirrors limit (e.apply a).2 (e.onList limit is).2 := by
  cases e with
  | emit i => exact h.emit he
  | rewriteLast source target => exact h.rewriteLast he

theorem Mirrors.run (h : Mirrors limit a is) (hes : ∀ e ∈ es, e.Fair) :
    (Edit.run Edit.apply es a).1 = (Edit.run (Edit.onList limit) es is).1 ∧
      Mirrors limit (Edit.run Edit.apply es a).2 (Edit.run (Edit.onList limit) es is).2 := by
  induction es generalizing a is with
  | nil => exact ⟨rfl, h⟩
  | cons e es ih =>
    obtain ⟨he, hes⟩ := List.forall_mem_cons.mp hes
    obtain ⟨hanswer, hnext⟩ := h.step he
    obtain ⟨hanswers, hlast⟩ := ih hnext hes
    exact ⟨congrArg₂ List.cons hanswer hanswers, hlast⟩

-- From an empty assembly on, each edit has the answer that the list gives to it, and leaves the assembly of what
-- it leaves of the list, whose bytes are within the limit and read back as the list.
theorem run_mirrors (limit : Nat) (hes : ∀ e ∈ es, e.Fair) :
    let (answers, a) := Edit.run Edit.apply es { limit }
    let (answers', is) := Edit.run (Edit.onList limit) es []
    answers = answers' ∧ a = ofList limit is ∧ a.code.length ≤ limit ∧
      a.lastOpcode? = is.getLast?.map Instruction.opcode ∧ Instruction.decodeAll a.code 0 = .ok is := by
  have hstart : Mirrors limit { limit } [] := ⟨holds_nil limit, rfl, nofun⟩
  obtain ⟨hanswers, h⟩ := hstart.run hes
  refine ⟨hanswers, h.eq_ofList, ?_, h.lastOpcode?, ?_⟩
  case refine_1 => exact h.holds.room.trans_eq h.limit
  case refine_2 =>
    rw [h.holds.code]
    exact Instruction.decodeAll_encodings h.words h.holds.encodable

-- Room for one transfer: a second one is refused, and what is shorter is not.
def draft : List Edit :=
  [.rewriteLast .barrier .marker, .emit (.streamOut 300 4096 (2 ^ 64 - 1) (some 2)),
    .rewriteLast .streamIn .streamOut, .rewriteLast .streamOut .streamOutBlocking,
    .emit (.streamIn 0 0 0 none), .emit (.context 1), .rewriteLast .context .addDep]

def draftAnswers : List (Except Error Unit) :=
  [.error (.config (.rewriteMismatch .barrier .marker none)), .ok ⟨⟩,
    .error (.config (.rewriteMismatch .streamIn .streamOut (some .streamOut))), .ok ⟨⟩,
    .error (.encoding 30), .ok ⟨⟩, .ok ⟨⟩]

def drafted : List Instruction :=
  [.streamOutBlocking 300 4096 (2 ^ 64 - 1) (some 2), .addDep 1]

theorem draft_mirrors : (∀ e ∈ draft, e.Fair) ∧
    Edit.run Edit.apply draft { limit := 30 } = (draftAnswers, ofList 30 drafted) ∧
    Instruction.decodeAll (ofList 30 drafted).code 0 = .ok drafted := by
  have hfair : ∀ e ∈ draft, e.Fair := by
    simp [draft, Edit.Fair, Opcode.layout, Instruction.InWords, Instruction.Encodable, Instruction.write,
      Instruction.operands, Operand.InWord, Operand.encodeAll, Operand.encode, Operand.waitLimit, wordLimit]
  have hlist : Edit.run (Edit.onList 30) draft [] = (draftAnswers, drafted) := by decide +kernel
  have hrun := run_mirrors 30 hfair
  rw [hlist] at hrun
  obtain ⟨hanswers, hassembly, _, _, hdecode⟩ := hrun
  refine ⟨hfair, Prod.ext hanswers hassembly, ?_⟩
  rw [← hassembly]
  exact hdecode

end Assembly
end Offload
