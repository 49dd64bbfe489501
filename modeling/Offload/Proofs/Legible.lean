import Mathlib.Tactic.Choose
import Offload.Json.Reader
import Offload.Proofs.Tokens

/-!
Documents that are read back from their text. A value is legible if its tokens, wherever it stands, put that very
value where one is waited for; arrays and objects are if what they hold is. Main statement: so are all documents
whose numbers are plain numerals.
-/

namespace Offload.Json

variable {j : Json} {name : Option String} {stack : List Frame} {items : List Json}
variable {members : List (Option String × Json)} {tokens : List Token} {tokensOf : Json → List Token}
variable {valueOf : Option String × Json → List Token}

theorem step_firstElement {token : Token} (h : token ≠ .closeArray) (stack : List Frame) :
    Expect.step (.firstElement stack) token = Expect.step (.element stack) token := by
  unfold Expect.step
  split <;> simp_all

theorem foldlM_append_of_some {start next : Expect} (h : tokens.foldlM Expect.step start = some next)
    (more : List Token) : (tokens ++ more).foldlM Expect.step start = more.foldlM Expect.step next := by
  rw [List.foldlM_append, h]
  rfl

theorem foldlM_singleton (start : Expect) (token : Token) :
    [token].foldlM Expect.step start = Expect.step start token :=
  bind_pure (Expect.step start token)

section Pieces

variable {α : Type} {xs : List α} {piece : α → List Token} (frame : List α → Frame) (value : List α → Json)

-- Each piece behind a comma is put on the innermost frame.
theorem reads_more (hmore : ∀ x ∈ xs, ∀ done, (.comma :: piece x).foldlM Expect.step (.separator (frame done :: stack)) =
      some (.separator (frame (x :: done) :: stack))) (done : List α) :
    (xs.flatMap (.comma :: piece ·)).foldlM Expect.step (.separator (frame done :: stack)) =
      some (.separator (frame (xs.reverse ++ done) :: stack)) := by
  induction xs generalizing done with
  | nil => rfl
  | cons x xs ih =>
    have ⟨hx, hxs⟩ := List.forall_mem_cons.mp hmore
    rw [List.flatMap_cons, foldlM_append_of_some (hx done), ih hxs, List.reverse_cons, List.append_assoc,
      List.singleton_append]

-- What is true of the brackets and of each piece between them is true of the whole.
theorem reads_pieces {start : Expect} {closing : Token}
    (hnone : Expect.step start closing = Expect.put (value []) stack)
    (hfirst : ∀ x ∈ xs, (piece x).foldlM Expect.step start = some (.separator (frame [x] :: stack)))
    (hmore : ∀ x ∈ xs, ∀ done, (.comma :: piece x).foldlM Expect.step (.separator (frame done :: stack)) =
      some (.separator (frame (x :: done) :: stack)))
    (hclosing : ∀ done, Expect.step (.separator (frame done :: stack)) closing =
      Expect.put (value done.reverse) stack) :
    ([.comma].intercalate (xs.map piece) ++ [closing]).foldlM Expect.step start = Expect.put (value xs) stack := by
  cases xs with
  | nil => rw [List.map_nil, List.intercalate_nil, List.nil_append, foldlM_singleton, hnone]
  | cons x xs =>
    have hx := (List.forall_mem_cons.mp hfirst).1
    have hxs := (List.forall_mem_cons.mp hmore).2
    have hdone : (xs.reverse ++ [x]).reverse = x :: xs := by simp
    rw [intercalate_cons, List.append_assoc, foldlM_append_of_some hx,
      foldlM_append_of_some (reads_more frame hxs _), foldlM_singleton, hclosing, hdone]

end Pieces

-- The text of the value, however deep it stands, has tokens that put the value where one is waited for. An array may
-- be closed there instead.
structure Legible (j : Json) (tokens : List Token) : Prop where
  lexes : ∀ indent, Blank indent.toList → Lexes (j.indented indent).toList tokens
  reads : ∀ stack, tokens.foldlM Expect.step (.element stack) = Expect.put j stack
  opens : ∀ stack, tokens.foldlM Expect.step (.firstElement stack) = Expect.put j stack

theorem Legible.of_cons {first : Token} (hfirst : first ≠ .closeArray)
    (hlexes : ∀ indent, Blank indent.toList → Lexes (j.indented indent).toList (first :: tokens))
    (hreads : ∀ stack, (first :: tokens).foldlM Expect.step (.element stack) = Expect.put j stack) :
    Legible j (first :: tokens) := by
  refine ⟨hlexes, hreads, fun stack => ?_⟩
  rw [List.foldlM_cons, step_firstElement hfirst, ← List.foldlM_cons]
  exact hreads stack

theorem legible_leaf (h : ∀ indent, Lexes (j.indented indent).toList [.leaf j]) : Legible j [.leaf j] :=
  .of_cons nofun (fun indent _ => h indent) fun stack => foldlM_singleton (.element stack) (.leaf j)

theorem blank_deeper {indent : String} (h : Blank indent.toList) : Blank (indent ++ "  ").toList := by
  simpa [Blank, or_imp, forall_and, isBlank] using h

theorem indentedItems_eq (indent : String) (items : List Json) :
    indentedItems indent items = items.map (indented indent) := by
  induction items with
  | nil => rfl
  | cons item items ih => rw [indentedItems, ih, List.map_cons]

theorem legible_array (h : ∀ item ∈ items, Legible item (tokensOf item)) :
    Legible (.array items) (.openArray :: ([.comma].intercalate (items.map tokensOf) ++ [.closeArray])) := by
  refine .of_cons nofun (fun indent hindent => ?_) fun stack => ?_
  case refine_1 =>
    rw [indented, indentedItems_eq]
    exact lexes_block '[' ']' rfl rfl hindent fun item hitem => (h item hitem).lexes _ (blank_deeper hindent)
  case refine_2 =>
    -- the bracket opens a frame of its own
    change List.foldlM Expect.step (.firstElement (.items [] :: stack)) _ = _
    exact reads_pieces .items .array rfl (fun item hitem => (h item hitem).opens (.items [] :: stack))
      (fun item hitem done => (h item hitem).reads (.items done :: stack)) fun _ => rfl

-- The tokens of a member, with those of its value.
def memberTokens (valueOf : Option String × Json → List Token) (m : Option String × Json) : List Token :=
  .leaf (.string m.1) :: .colon :: valueOf m

theorem indentedMembers_eq (indent : String) (members : List (Option String × Json)) :
    indentedMembers indent members =
      members.map fun m => literal (m.1.getD "") ++ ": " ++ m.2.indented indent := by
  induction members with
  | nil => rfl
  | cons m members ih => rw [indentedMembers, ih, List.map_cons]

theorem lexes_member (s : String) {value : String} (h : Lexes value.toList tokens) :
    Lexes (literal s ++ ": " ++ value).toList (.leaf (.string (some s)) :: .colon :: tokens) := by
  intro rest hrest
  have htext : (literal s ++ ": " ++ value).toList ++ rest =
      (literal s).toList ++ ':' :: ' ' :: (value.toList ++ rest) := by
    simp
  rw [htext, lexes_literal s _ (stops_of_mark rfl _), tokens?_mark rfl, tokens?_blank rfl, h rest hrest]
  simp [Function.comp_def]

theorem legible_object (h : ∀ m ∈ members, m.1.isSome ∧ Legible m.2 (valueOf m)) :
    Legible (.object members)
      (.openObject :: ([.comma].intercalate (members.map (memberTokens valueOf)) ++ [.closeObject])) := by
  refine .of_cons nofun (fun indent hindent => ?_) fun stack => ?_
  case refine_1 =>
    rw [indented, indentedMembers_eq]
    refine lexes_block '\x7b' '\x7d' rfl rfl hindent fun m hm => ?_
    obtain ⟨hname, hvalue⟩ := h m hm
    obtain ⟨s, hs⟩ := Option.isSome_iff_exists.mp hname
    rw [memberTokens, hs]
    exact lexes_member s (hvalue.lexes _ (blank_deeper hindent))
  case refine_2 =>
    change List.foldlM Expect.step (.firstKey (.members [] :: stack)) _ = _
    exact reads_pieces .members .object rfl (fun m hm => (h m hm).2.reads (.named [] m.1 :: stack))
      (fun m hm done => (h m hm).2.reads (.named done m.1 :: stack)) fun _ => rfl

-- Documents without signs, fractions and exponents, in which all strings have a text.
inductive Plain : Json → Prop
  | null : Plain .null
  | bool (b : Bool) : Plain (.bool b)
  | natural (n : Nat) : Plain (.natural n)
  | text (s : String) : Plain (.text s)
  | array {items : List Json} (h : ∀ item ∈ items, Plain item) : Plain (.array items)
  | object {members : List (Option String × Json)} (hnames : ∀ m ∈ members, m.1.isSome)
    (h : ∀ m ∈ members, Plain m.2) : Plain (.object members)

theorem Plain.legible (h : Plain j) : ∃ tokens, Legible j tokens := by
  induction h with
  | null => exact ⟨_, legible_leaf fun _ => lexes_null⟩
  | bool b => exact ⟨_, legible_leaf fun _ => lexes_bool b⟩
  | natural n => exact ⟨_, legible_leaf fun _ => lexes_natural n⟩
  | text s => exact ⟨_, legible_leaf fun _ => lexes_literal s⟩
  | array _ ih =>
    choose! tokensOf htokens using ih
    exact ⟨_, legible_array htokens⟩
  | object hnames _ ih =>
    choose! valueOf hvalue using ih
    exact ⟨_, legible_object fun m hm => ⟨hnames m hm, hvalue m hm⟩⟩

-- A plain document is read back from its indented text.
theorem parse?_pretty (h : Plain j) : parse? j.pretty = some j := by
  obtain ⟨tokens, htokens⟩ := h.legible
  have hlexes : tokens? j.pretty.toList = some tokens := by
    have hstops : Stops [] := by simp [Stops]
    simpa [pretty, tokens?] using htokens.lexes "" (List.forall_mem_nil _) [] hstops
  have hreads : tokens.foldlM Expect.step (.element []) = some (.nothing j) := htokens.reads []
  rw [parse?, hlexes, Option.bind_eq_bind, Option.bind_some, hreads]
  rfl

end Offload.Json
