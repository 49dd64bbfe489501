import Offload.Program.Dump
import Offload.Proofs.Legible

/-!
Programs out of their dumps. Lists are read back item by item and records member by member; a member that nobody asks
for does not count. Main statement: a program is read back from its dump, whatever the listing says.
-/

namespace Offload

namespace Json

variable {α : Type}

theorem Plain.record {members : List (String × Json)} (h : ∀ m ∈ members, Plain m.2) : Plain (record members) := by
  refine .object ?_ ?_
  case refine_1 => exact List.forall_mem_map.mpr fun _ _ => rfl
  case refine_2 => exact List.forall_mem_map.mpr h

theorem Plain.list {f : α → Json} {xs : List α} (h : ∀ x, Plain (f x)) : Plain (.array (xs.map f)) :=
  .array (List.forall_mem_map.mpr fun x _ => h x)

-- A list is read back if each of its items is.
theorem list?_map {f : α → Json} {item? : Json → Option α} {P : α → Prop} [DecidablePred P]
    (h : ∀ x, item? (f x) = if P x then some x else none) (xs : List α) :
    (Json.array (xs.map f)).list? item? = if ∀ x ∈ xs, P x then some xs else none := by
  unfold list?
  dsimp only
  induction xs with
  | nil => rfl
  | cons x xs ih =>
    rw [List.map_cons, List.mapM_cons, h, ih]
    simp only [List.forall_mem_cons]
    by_cases hx : P x
    case neg =>
      rw [if_neg hx, if_neg (not_and_of_not_left _ hx)]
      rfl
    case pos =>
      rw [if_pos hx]
      by_cases hxs : ∀ y ∈ xs, P y
      case neg =>
        rw [if_neg hxs, if_neg (not_and_of_not_right _ hxs)]
        rfl
      case pos =>
        rw [if_pos hxs, if_pos ⟨hx, hxs⟩]
        rfl

theorem list?_naturals (bound : Nat) (ns : List Nat) :
    (naturals ns).list? (natural? bound) = if ∀ n ∈ ns, n < bound then some ns else none :=
  list?_map (fun _ => rfl) ns

theorem allFields?_record (members : List (String × Json)) (names : List String) :
    (record members).allFields? names = names.mapM (member? members) := by
  have hnames : (members.map fun m => (some m.1, m.2)).mapM (fun m => m.1.map (·, m.2)) = some members := by
    induction members with
    | nil => rfl
    | cons m members ih =>
      rw [List.map_cons, List.mapM_cons, ih]
      rfl
  change (members.map fun m => (some m.1, m.2)).mapM (fun m => m.1.map (·, m.2)) >>= _ = _
  rw [hnames]
  rfl

end Json

namespace Program

variable {p : Program}

-- What a dump holds, with any listing.
def dumped (p : Program) (listing : Json) : Json :=
  .record (p.codeAndLists ++ [("listing", listing)])

-- The dump of a program, with any lines for its listing.
def dumpWith (p : Program) (lines : List String) : String :=
  (p.dumped (.array (lines.map Json.text))).pretty

-- All slots of the dependency lists are 32-bit numbers.
def Narrow (p : Program) : Prop :=
  ∀ list ∈ p.lists, ∀ slot ∈ list, slot < 0x100000000

instance : Decidable p.Narrow :=
  inferInstanceAs (Decidable (∀ list ∈ p.lists, ∀ slot ∈ list, slot < 0x100000000))

theorem list?_code (code : Bytes) :
    (Json.naturals (code.map UInt8.toNat)).list? (Json.natural? 256) = some (code.map UInt8.toNat) := by
  rw [Json.list?_naturals, if_pos]
  exact List.forall_mem_map.mpr fun byte _ => byte.toNat_lt

theorem ofJson?_dumped (p : Program) (listing : Json) :
    ofJson? (p.dumped listing) = if p.Narrow then some p else none := by
  have hfields : (p.dumped listing).allFields? ["code", "dep_lists"] =
      some [some (Json.naturals (p.code.map UInt8.toNat)), some (.array (p.lists.map Json.naturals))] := by
    rw [dumped, Json.allFields?_record]
    simp [codeAndLists, Json.member?]
  have hcode : (p.code.map UInt8.toNat).map UInt8.ofNat = p.code := by
    simp [Function.comp_def]
  rw [ofJson?, hfields, Option.bind_eq_bind, Option.bind_some]
  dsimp only
  rw [list?_code, Json.list?_map (Json.list?_naturals _), Option.bind_eq_bind, Option.bind_some, hcode]
  change Option.bind (if p.Narrow then some p.lists else none) _ = _
  by_cases hslots : p.Narrow
  case pos =>
    rw [if_pos hslots, if_pos hslots]
    rfl
  case neg =>
    rw [if_neg hslots, if_neg hslots]
    rfl

theorem plain_dumped (p : Program) (lines : List String) : (p.dumped (.array (lines.map Json.text))).Plain := by
  refine .record ?_
  simp only [codeAndLists, List.cons_append, List.nil_append, List.forall_mem_cons]
  exact ⟨.list .natural, .list fun _ => .list .natural, .list .text, List.forall_mem_nil _⟩

theorem read_dumpWith (p : Program) (lines : List String) :
    read (p.dumpWith lines) = if p.Narrow then .ok p else .error .json := by
  rw [read, dumpWith, Json.parse?_pretty (p.plain_dumped lines), Option.bind_some, ofJson?_dumped]
  by_cases hslots : p.Narrow
  case pos =>
    rw [if_pos hslots, if_pos hslots]
    rfl
  case neg =>
    rw [if_neg hslots, if_neg hslots]
    rfl

-- A program is read back from its dump, whether it decodes or not. The listing of the dump might be any other and
-- the same would be read.
theorem read_dump (p : Program) :
    (p.Narrow → read p.dump = .ok p) ∧ ∀ lines, read (p.dumpWith lines) = read p.dump := by
  have hdump : p.dump = p.dumpWith p.dumpLines := rfl
  rw [hdump, read_dumpWith]
  exact ⟨fun hslots => if_pos hslots, p.read_dumpWith⟩

-- Code that starts with no instruction is kept, and so are the largest slots, under a listing that looks like code.
theorem garbled_read :
    let p : Program := { code := [255, 0], lists := [[0, 0xffffffff], []] }
    (∃ e, p.decode = .error e) ∧ p.Narrow ∧ read p.dump = .ok p ∧
      read (p.dumpWith ["\"], \"code\": [1], \"listing\": [\"\\"]) = read p.dump := by
  intro p
  have hslots : p.Narrow := by decide
  exact ⟨⟨_, rfl⟩, hslots, (read_dump p).1 hslots, (read_dump p).2 _⟩

end Program
end Offload
