import Offload.Proofs.Pieces

/-!
Which bytes are a program. Decoding goes over the code piece by piece and looks at each instruction where it
stands; what it accepts is told here without going over it. No code goes on behind an accepted one.
-/

namespace Offload.Program

open Instruction (Spans scan_ok)

variable {lists fuel offset : Nat} {first : Bool} {i : Instruction} {is js : List Instruction}
  {bytes rest code : Bytes}

-- The code is made of whole instructions, with BEGIN at the front, END at the back and neither in between, and
-- the lists it names are in the table.
structure Grammatical (lists : Nat) (code : Bytes) (is : List Instruction) : Prop where
  pieces : ∃ pieces : List Bytes, code = pieces.flatten ∧
    List.Forall₂ (fun piece i => Instruction.decode piece 0 = .ok (i, piece.length)) pieces is
  framed : ∃ head inner last, is = head :: (inner ++ [last]) ∧ head.opcode = .begin ∧ last.opcode = .finish ∧
    ∀ i ∈ inner, i.opcode ≠ .begin ∧ i.opcode ≠ .finish
  listed : ∀ i ∈ is, ∀ list, i.list? = some list → list < lists

theorem spans_iff_decode {piece : Bytes} :
    Instruction.decode piece 0 = .ok (i, piece.length) ↔ Spans piece i := by
  rw [Instruction.decode_ok, List.drop_zero]
  constructor
  case mp =>
    rintro ⟨front, rest, heq, hfront, hlength⟩
    have hrest : rest = [] := by
      rw [← List.length_eq_zero_iff]
      have := congrArg List.length heq
      rw [List.length_append] at this
      omega
    rw [heq, hrest, List.append_nil]
    exact hfront
  case mpr =>
    exact fun h => ⟨piece, [], (List.append_nil piece).symm, h, (Nat.zero_add _).symm⟩

-- BEGIN is right in the first place and nowhere else.
theorem placeFault_eq_none : placeFault lists first i = none ↔
    (i.opcode = .begin ↔ first) ∧ ∀ list, i.list? = some list → list < lists := by
  unfold placeFault
  cases i.list? with
  | none => by_cases hbegin : i.opcode = .begin <;> cases first <;> simp [hbegin]
  | some list =>
    by_cases hbegin : i.opcode = .begin <;> cases first <;> simp [hbegin]

-- What the decoder goes through: instructions that are right where they stand, of which END is the last.
inductive Reads (lists : Nat) : Bool → Bytes → List Instruction → Prop
  | finish {first piece i} : Spans piece i → placeFault lists first i = none → i.opcode = .finish →
    Reads lists first piece [i]
  | cons {first piece rest i is} : Spans piece i → placeFault lists first i = none → i.opcode ≠ .finish →
    Reads lists false rest is → Reads lists first (piece ++ rest) (i :: is)

theorem Reads.ne_nil (h : Reads lists first bytes is) : bytes ≠ [] := by
  cases h with
  | finish hpiece => exact hpiece.ne_nil
  | cons hpiece => exact List.append_ne_nil_of_left_ne_nil hpiece.ne_nil _

-- One instruction of the decoder's way.
theorem decodeFrom_succ (hbytes : bytes ≠ []) : decodeFrom lists (fuel + 1) offset bytes = .ok is ↔
    ∃ piece rest i, bytes = piece ++ rest ∧ Spans piece i ∧ placeFault lists (offset = 0) i = none ∧
      (i.opcode = .finish ∧ rest = [] ∧ is = [i] ∨
        i.opcode ≠ .finish ∧
          ∃ js, decodeFrom lists fuel (offset + piece.length) rest = .ok js ∧ is = i :: js) := by
  rw [decodeFrom.eq_3 _ _ _ _ hbytes]
  constructor
  case mp =>
    intro h
    cases hscan : Instruction.scan bytes with
    | error cause => rw [hscan] at h; cases h
    | ok result =>
      obtain ⟨i, rest⟩ := result
      obtain ⟨piece, rfl, hpiece⟩ := scan_ok.mp hscan
      rw [hscan] at h
      simp only [List.length_append, Nat.add_sub_cancel] at h
      refine ⟨piece, rest, i, rfl, hpiece, ?_⟩
      cases hplace : placeFault lists (offset = 0) i with
      | some cause => rw [hplace] at h; cases h
      | none =>
        rw [hplace] at h
        refine ⟨rfl, ?_⟩
        by_cases hfinish : i.opcode = .finish
        case pos =>
          simp only [if_pos hfinish] at h
          split at h <;> cases h
          case isTrue hrest => exact .inl ⟨hfinish, hrest, rfl⟩
        case neg =>
          simp only [if_neg hfinish] at h
          obtain ⟨js, hjs, hpure⟩ := bind_eq_ok.mp h
          cases hpure
          exact .inr ⟨hfinish, js, hjs, rfl⟩
  case mpr =>
    rintro ⟨piece, rest, i, rfl, hpiece, hplace, ⟨hfinish, rfl, rfl⟩ | ⟨hfinish, js, hjs, rfl⟩⟩
    case inl =>
      rw [hpiece.scan_append]
      simp only [hplace, if_pos hfinish]
      rfl
    case inr =>
      rw [hpiece.scan_append]
      simp only [hplace, if_neg hfinish, List.length_append, Nat.add_sub_cancel, hjs]
      rfl

theorem decodeFrom_nil : decodeFrom lists fuel offset [] ≠ .ok is := by
  intro h
  cases fuel <;> cases h

-- By induction on the fuel, of which an instruction takes no more than it has bytes.
theorem decodeFrom_ok (hfuel : bytes.length ≤ fuel) :
    decodeFrom lists fuel offset bytes = .ok is ↔ Reads lists (offset = 0) bytes is := by
  induction fuel generalizing offset bytes is with
  | zero =>
    have hbytes := List.length_eq_zero_iff.mp (Nat.le_zero.mp hfuel)
    exact ⟨fun h => absurd (hbytes ▸ h) decodeFrom_nil, fun h => absurd hbytes h.ne_nil⟩
  | succ fuel ih =>
    have hlater {piece rest : Bytes} {js : List Instruction} (hpiece : piece ≠ [])
        (hfits : (piece ++ rest).length ≤ fuel + 1) :
        decodeFrom lists fuel (offset + piece.length) rest = .ok js ↔ Reads lists false rest js := by
      have hpos := List.length_pos_iff.mpr hpiece
      rw [List.length_append] at hfits
      rw [ih (by omega), decide_eq_false (show ¬offset + piece.length = 0 by omega)]
    constructor
    case mp =>
      intro h
      have hbytes : bytes ≠ [] := fun hbytes => decodeFrom_nil (hbytes ▸ h)
      obtain ⟨piece, rest, i, rfl, hpiece, hplace, hend | hmore⟩ := (decodeFrom_succ hbytes).mp h
      case inl =>
        obtain ⟨hfinish, rfl, rfl⟩ := hend
        rw [List.append_nil]
        exact .finish hpiece hplace hfinish
      case inr =>
        obtain ⟨hfinish, js, hjs, rfl⟩ := hmore
        exact .cons hpiece hplace hfinish ((hlater hpiece.ne_nil hfuel).mp hjs)
    case mpr =>
      intro h
      refine (decodeFrom_succ h.ne_nil).mpr ?_
      cases h with
      | finish hpiece hplace hfinish =>
        exact ⟨_, [], _, (List.append_nil _).symm, hpiece, hplace, .inl ⟨hfinish, rfl, rfl⟩⟩
      | cons hpiece hplace hfinish hrest =>
        exact ⟨_, _, _, rfl, hpiece, hplace, .inr ⟨hfinish, _, (hlater hpiece.ne_nil hfuel).mpr hrest, rfl⟩⟩

theorem decode_reads {p : Program} : p.decode = .ok is ↔ Reads p.lists.length true p.code is :=
  decodeFrom_ok (Nat.le_refl _)

-- Nothing can be read on behind what was read to its end, since END comes at the same byte.
theorem Reads.append_eq_nil (h : Reads lists first bytes is) (hlonger : Reads lists first (bytes ++ rest) js) :
    rest = [] := by
  induction h generalizing js with
  | @finish first piece i hpiece _ hfinish =>
    have hscan := hpiece.scan_append rest
    generalize hall : piece ++ rest = all at hlonger hscan
    cases hlonger with
    | finish hwhole =>
      cases hscan.symm.trans hwhole
      rfl
    | cons hpiece' _ hmore =>
      cases hscan.symm.trans (hpiece'.scan_append _)
      exact absurd hfinish hmore
  | @cons first piece behind i is hpiece _ hmore _ ih =>
    rw [List.append_assoc] at hlonger
    have hscan := hpiece.scan_append (behind ++ rest)
    generalize hall : piece ++ (behind ++ rest) = all at hlonger hscan
    cases hlonger with
    | finish hwhole _ hfinish =>
      obtain ⟨rfl, -⟩ := Prod.mk.inj (Except.ok.inj (hscan.symm.trans hwhole))
      exact absurd hfinish hmore
    | cons hpiece' _ _ hbehind =>
      cases hscan.symm.trans (hpiece'.scan_append _)
      exact ih hbehind

-- The instructions behind the first one.
theorem Reads.later (h : Reads lists false bytes is) :
    ∃ pieces inner last, bytes = pieces.flatten ∧ List.Forall₂ Spans pieces is ∧ is = inner ++ [last] ∧
      last.opcode = .finish ∧ (∀ i ∈ inner, i.opcode ≠ .begin ∧ i.opcode ≠ .finish) ∧
      ∀ i ∈ is, ∀ list, i.list? = some list → list < lists := by
  generalize hfirst : false = first at h
  induction h with
  | @finish first piece i hpiece hplace hfinish =>
    exact ⟨[piece], [], i, by simp, .cons hpiece .nil, rfl, hfinish, by simp,
      by simpa using (placeFault_eq_none.mp hplace).2⟩
  | @cons first piece rest i is hpiece hplace hmore _ ih =>
    subst hfirst
    obtain ⟨pieces, inner, last, rfl, hpieces, rfl, hlast, hinner, hlisted⟩ := ih rfl
    obtain ⟨hbegin, hlist⟩ := placeFault_eq_none.mp hplace
    have hne : i.opcode ≠ .begin := fun h => Bool.false_ne_true (hbegin.mp h)
    exact ⟨piece :: pieces, i :: inner, last, rfl, .cons hpiece hpieces, rfl, hlast,
      List.forall_mem_cons.mpr ⟨⟨hne, hmore⟩, hinner⟩, List.forall_mem_cons.mpr ⟨hlist, hlisted⟩⟩

theorem reads_later {inner : List Instruction} {last : Instruction} {pieces : List Bytes}
    (hpieces : List.Forall₂ Spans pieces (inner ++ [last])) (hlast : last.opcode = .finish)
    (hinner : ∀ i ∈ inner, i.opcode ≠ .begin ∧ i.opcode ≠ .finish)
    (hlisted : ∀ i ∈ inner ++ [last], ∀ list, i.list? = some list → list < lists) :
    Reads lists false pieces.flatten (inner ++ [last]) := by
  induction inner generalizing pieces with
  | nil =>
    cases hpieces with
    | cons hpiece hnil =>
      cases hnil
      have hplace : placeFault lists false last = none :=
        placeFault_eq_none.mpr ⟨by simp [hlast], hlisted last (by simp)⟩
      rw [List.flatten_cons, List.flatten_nil, List.append_nil]
      exact .finish hpiece hplace hlast
  | cons i inner ih =>
    cases hpieces with
    | cons hpiece hpieces =>
      obtain ⟨⟨hbegin, hmore⟩, hinner⟩ := List.forall_mem_cons.mp hinner
      obtain ⟨hlist, hlisted⟩ := List.forall_mem_cons.mp hlisted
      have hplace : placeFault lists false i = none := placeFault_eq_none.mpr ⟨by simp [hbegin], hlist⟩
      exact .cons hpiece hplace hmore (ih hpieces hinner hlisted)

theorem reads_iff_grammatical : Reads lists true code is ↔ Grammatical lists code is := by
  constructor
  case mp =>
    intro h
    cases h with
    | finish _ hplace hfinish =>
      have hbegin := (placeFault_eq_none.mp hplace).1.mpr rfl
      rw [hfinish] at hbegin
      cases hbegin
    | @cons _ piece rest i is hpiece hplace _ hrest =>
      obtain ⟨pieces, inner, last, rfl, hpieces, rfl, hlast, hinner, hlisted⟩ := hrest.later
      obtain ⟨hbegin, hlist⟩ := placeFault_eq_none.mp hplace
      have hspans : List.Forall₂ Spans (piece :: pieces) (i :: (inner ++ [last])) := .cons hpiece hpieces
      exact ⟨⟨piece :: pieces, rfl, hspans.imp fun _ _ => spans_iff_decode.mpr⟩,
        ⟨i, inner, last, rfl, hbegin.mpr rfl, hlast, hinner⟩, List.forall_mem_cons.mpr ⟨hlist, hlisted⟩⟩
  case mpr =>
    rintro ⟨⟨pieces, rfl, hpieces⟩, ⟨head, inner, last, rfl, hhead, hlast, hinner⟩, hlisted⟩
    have hspans := hpieces.imp fun _ _ => spans_iff_decode.mp
    cases hspans with
    | cons hpiece hspans =>
      obtain ⟨hlist, hlisted⟩ := List.forall_mem_cons.mp hlisted
      have hplace : placeFault lists true head = none := placeFault_eq_none.mpr ⟨by simp [hhead], hlist⟩
      exact .cons hpiece hplace (by simp [hhead]) (reads_later hspans hlast hinner hlisted)

-- Of two programs with one table, neither goes on where the other ends.
theorem code_eq_of_decode {p q : Program} (hp : p.decode = .ok is) (hq : q.decode = .ok js)
    (hlists : p.lists = q.lists) (h : p.code <+: q.code) : p.code = q.code := by
  obtain ⟨rest, hrest⟩ := h
  have hreads := decode_reads.mp hq
  rw [← hlists, ← hrest] at hreads
  rw [← hrest, (decode_reads.mp hp).append_eq_nil hreads, List.append_nil]

-- The decoder takes exactly the programs that are well made, and reads the instructions that they are made of;
-- a program cut short or drawn out is none.
theorem decode_iff_grammatical :
    (∀ (p : Program) (is : List Instruction), p.decode = .ok is ↔ Grammatical p.lists.length p.code is) ∧
    ∀ (p q : Program) (is : List Instruction), p.decode = .ok is → q.lists = p.lists → q.code ≠ p.code →
      q.code <+: p.code ∨ p.code <+: q.code → ∃ e, q.decode = .error e := by
  refine ⟨fun p is => decode_reads.trans reads_iff_grammatical, fun p q is hp hlists hne hcut => ?_⟩
  cases hq : q.decode with
  | error e => exact ⟨e, rfl⟩
  | ok js =>
    obtain hshort | hlong := hcut
    case inl => exact absurd (code_eq_of_decode hq hp hlists hshort) hne
    case inr => exact absurd (code_eq_of_decode hp hq hlists.symm hlong).symm hne

-- BEGIN, a barrier on the one list there is, and END.
def idle : Program :=
  ⟨[1, 0, 0, 1, 8, 0, 0, 0, 0, 10], [[]]⟩

theorem idle_decodes : idle.decode = .ok [.begin 0 0 1, .barrier (some 0), .finish] ∧
    (∃ e, decode ⟨idle.code.take 5, [[]]⟩ = .error e) ∧ ∃ e, decode ⟨idle.code ++ [0], [[]]⟩ = .error e := by
  have hidle : idle.decode = .ok [.begin 0 0 1, .barrier (some 0), .finish] := by decide +kernel
  exact ⟨hidle,
    decode_iff_grammatical.2 idle ⟨idle.code.take 5, [[]]⟩ _ hidle rfl (by decide) (.inl (List.take_prefix _ _)),
    decode_iff_grammatical.2 idle ⟨idle.code ++ [0], [[]]⟩ _ hidle rfl (by decide) (.inr (List.prefix_append _ _))⟩

end Offload.Program
