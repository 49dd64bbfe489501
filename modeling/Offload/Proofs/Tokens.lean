import Offload.Json.Lexer

/-!
The tokens of written values. A written numeral, word or string is one token, space is none, and what comes next
does not matter unless it carries a numeral or a word on. Main statement: a block of pieces, each on a line of its
own, has the tokens of its pieces, with commas between them and brackets around them.
-/

namespace Offload.Json

variable {c : Char} {cs cs' rest : List Char} {tokens : List Token}

theorem head?_toDigits {n : Nat} (h : 0 < n) : (Nat.toDigits 10 n).head? ≠ some '0' := by
  induction n using Nat.strongRecOn with
  | _ n ih =>
    by_cases hlt : n < 10
    case pos =>
      have hdigit : ∀ n < 10, 0 < n → Nat.digitChar n ≠ '0' := by decide
      rw [Nat.toDigits_of_lt_base hlt, List.head?_singleton]
      exact fun hzero => hdigit n hlt h (Option.some.inj hzero)
    case neg =>
      have hmore : 10 ≤ n := Nat.not_lt.mp hlt
      rw [Nat.toDigits_of_base_le (by decide) hmore, List.head?_append, Option.or_of_isSome (by simp)]
      exact ih (n / 10) (by omega) (by omega)

theorem isDigit_toDigits (n : Nat) : ∀ c ∈ Nat.toDigits 10 n, c.isDigit :=
  fun _ => Nat.isDigit_of_mem_toDigits (by decide) (by decide)

theorem number?_toDigits (n : Nat) : number? (Nat.toDigits 10 n) = some (.natural n) := by
  have hwhole : isWhole (Nat.toDigits 10 n) := by
    have hall : (Nat.toDigits 10 n).all Char.isDigit := List.all_eq_true.mpr (isDigit_toDigits n)
    cases n with
    | zero => rfl
    | succ n => simp [isWhole, hall, head?_toDigits]
  have hvalue := Nat.ofDigitChars_ten_toDigits (n := n)
  rw [Nat.ofDigitChars_eq_foldl] at hvalue
  unfold number?
  rw [if_pos hwhole, hvalue]

-- The characters spell one code unit of a string literal.
def Spells (cs : List Char) (unit : Nat) : Prop :=
  ∀ rest, scanString (cs ++ rest) = (scanString rest).map (Prod.map (unit :: ·) id)

theorem spells_raw (hquote : c ≠ '"') (hslash : c ≠ '\\') (hraw : 32 ≤ c.toNat) : Spells [c] c.toNat := by
  intro rest
  rw [List.singleton_append, scanString.eq_5 _ _ hquote (fun _ _ _ _ _ h => absurd h hslash)
    (fun _ _ h => absurd h hslash), if_neg (Nat.not_lt.mpr hraw)]
  cases scanString rest <;> rfl

theorem spells_escape {unit : Nat} (h : escape? c = some unit) : Spells ['\\', c] unit := by
  intro rest
  have hother : c ≠ 'u' := by
    rintro rfl
    cases h
  rw [List.cons_append, List.singleton_append, scanString.eq_4 _ _ (fun _ _ _ _ _ h _ => absurd h hother), h]
  cases scanString rest <;> rfl

theorem spells_unicode {a b c d : Char} {i j k l : Nat} (ha : hexDigit? a = some i) (hb : hexDigit? b = some j)
    (hc : hexDigit? c = some k) (hd : hexDigit? d = some l) :
    Spells ['\\', 'u', a, b, c, d] (4096 * i + 256 * j + 16 * k + l) := by
  intro rest
  change scanString ('\\' :: 'u' :: a :: b :: c :: d :: rest) = _
  rw [scanString, ha, hb, hc, hd]
  cases scanString rest <;> rfl

theorem hexDigit?_digitChar : ∀ n < 16, hexDigit? (Nat.digitChar n) = some n := by
  decide

theorem spells_escapeChar (c : Char) : Spells (escapeChar c).toList c.toNat := by
  unfold escapeChar
  split
  case isTrue h => exact h ▸ spells_escape rfl
  case isFalse hquote =>
  split
  case isTrue h => exact h ▸ spells_escape rfl
  case isFalse hslash =>
  -- line feed, carriage return, tabulator, backspace and form feed
  iterate 5
    split
    case isTrue h => exact h ▸ spells_escape rfl
  split
  case isTrue h =>
    have hspells : Spells ['\\', 'u', '0', '0', '0', Nat.digitChar c.toNat] _ :=
      spells_unicode rfl rfl rfl (hexDigit?_digitChar c.toNat h)
    simpa using hspells
  split
  case isTrue h =>
    have hspells : Spells ['\\', 'u', '0', '0', '1', Nat.digitChar (c.toNat - 16)] _ :=
      spells_unicode rfl rfl rfl (hexDigit?_digitChar (c.toNat - 16) (by omega))
    have hunit : 4096 * 0 + 256 * 0 + 16 * 1 + (c.toNat - 16) = c.toNat := by omega
    simpa [hunit] using hspells
  case isFalse h =>
    rw [Char.toString_eq_singleton, String.toList_singleton]
    exact spells_raw hquote hslash (Nat.not_lt.mp h)

theorem scanString_escaped (cs : List Char) (rest : List Char) :
    scanString (cs.flatMap (fun c => (escapeChar c).toList) ++ '"' :: rest) = some (cs.map Char.toNat, rest) := by
  induction cs with
  | nil => rfl
  | cons c cs ih =>
    rw [List.flatMap_cons, List.append_assoc, spells_escapeChar, ih]
    rfl

theorem not_surrogate (c : Char) : ¬(0xd800 ≤ c.toNat ∧ c.toNat < 0xe000) := by
  have hvalid : c.toNat < 0xd800 ∨ 0xdfff < c.toNat ∧ c.toNat < 0x110000 := c.valid
  omega

theorem spell?_toNat (cs : List Char) : spell? (cs.map Char.toNat) = some cs := by
  induction cs with
  | nil => rfl
  | cons c cs ih =>
    have hplain := not_surrogate c
    cases cs with
    | nil => rw [List.map_singleton, spell?, if_neg hplain, Char.ofNat_toNat]
    | cons d cs =>
      rw [List.map_cons] at ih
      rw [List.map_cons, List.map_cons, spell?, if_neg (by omega), if_neg hplain, Char.ofNat_toNat, ih]
      rfl

-- Neither a numeral nor a word goes on here.
def Stops (rest : List Char) : Prop :=
  ∀ c ∈ rest.head?, ¬isNumeral c ∧ ¬c.isAlpha

-- The text has these tokens, whatever comes next.
def Lexes (cs : List Char) (tokens : List Token) : Prop :=
  ∀ rest, Stops rest → tokens? (cs ++ rest) = (tokens? rest).map (tokens ++ ·)

-- Space and nothing else.
def Blank (cs : List Char) : Prop :=
  ∀ c ∈ cs, isBlank c

theorem tokens?_blank (h : isBlank c) (rest : List Char) : tokens? (c :: rest) = tokens? rest := by
  rw [tokens?, if_pos h]

theorem tokens?_blanks (h : Blank cs) (rest : List Char) : tokens? (cs ++ rest) = tokens? rest := by
  induction cs with
  | nil => rfl
  | cons c cs ih =>
    have ⟨hfirst, hmore⟩ := List.forall_mem_cons.mp h
    rw [List.cons_append, tokens?_blank hfirst, ih hmore]

theorem tokens?_mark {mark : Token} (h : mark? c = some mark) (rest : List Char) :
    tokens? (c :: rest) = (tokens? rest).map (mark :: ·) := by
  have hblank : ¬isBlank c := by
    unfold mark? at h
    split at h
    case h_7 => cases h
    all_goals decide
  rw [tokens?, if_neg hblank, h]

-- A run ends where something else comes.
theorem split_run {p : Char → Bool} {run : List Char} (hrun : ∀ c ∈ run, p c) (hrest : ∀ c ∈ rest.head?, ¬p c) :
    (run ++ rest).takeWhile p = run ∧ (run ++ rest).dropWhile p = rest := by
  rw [List.takeWhile_append_of_pos hrun, List.dropWhile_append_of_pos hrun]
  cases rest with
  | nil => simp
  | cons c rest => simp [hrest c rfl]

theorem not_mark_of_isDigit (h : c.isDigit) : ¬isBlank c ∧ mark? c = none ∧ c ≠ '"' := by
  refine ⟨fun hblank => ?_, ?_, fun hquote => ?_⟩
  case refine_1 =>
    simp only [isBlank, Bool.or_eq_true, beq_iff_eq] at hblank
    rcases hblank with ((rfl | rfl) | rfl) | rfl
    all_goals cases h
  case refine_2 =>
    unfold mark?
    split
    case h_7 => rfl
    all_goals cases h
  case refine_3 =>
    subst hquote
    cases h

theorem lexes_natural (n : Nat) : Lexes (toString n).toList [.leaf (.natural n)] := by
  intro rest hrest
  rw [Nat.toString_eq_repr, Nat.toList_repr]
  have hnumber := number?_toDigits n
  have hdigits := isDigit_toDigits n
  cases hn : Nat.toDigits 10 n with
  | nil => exact absurd hn Nat.toDigits_ne_nil
  | cons d digits =>
    rw [hn] at hnumber hdigits
    have ⟨hd, hrun⟩ := List.forall_mem_cons.mp hdigits
    obtain ⟨hblank, hmark, hquote⟩ := not_mark_of_isDigit hd
    have hnumeral : ∀ c ∈ digits, isNumeral c := fun c hc => by simp [isNumeral, hrun c hc]
    obtain ⟨htake, hdrop⟩ := split_run hnumeral fun c hc => (hrest c hc).1
    rw [List.cons_append, tokens?, if_neg hblank, hmark]
    dsimp only
    rw [if_neg hquote, if_pos (by simp [hd]), htake, hdrop, hnumber]
    rfl

theorem lexes_literal (s : String) : Lexes (literal s).toList [.leaf (.string (some s))] := by
  intro rest _
  have htext : (literal s).toList ++ rest =
      '"' :: (s.toList.flatMap (fun c => (escapeChar c).toList) ++ '"' :: rest) := by
    simp [literal, List.flatMap_map]
  have hmark : mark? '"' = none := rfl
  rw [htext, tokens?, if_neg (by decide), hmark]
  dsimp only
  rw [if_pos rfl]
  split
  case h_1 hscan => cases (scanString_escaped s.toList rest).symm.trans hscan
  case h_2 hscan =>
    cases (scanString_escaped s.toList rest).symm.trans hscan
    rw [spell?_toNat, Option.map_some, String.ofList_toList]
    rfl

theorem lexes_word (c : Char) (run : List Char) {value : Json} (hword : word? (c :: run) = some value)
    (hstart : ¬isBlank c ∧ mark? c = none ∧ c ≠ '"' ∧ ¬(c.isDigit || c == '-')) (hrun : run.all Char.isAlpha) :
    Lexes (c :: run) [.leaf value] := by
  intro rest hrest
  obtain ⟨hblank, hmark, hquote, hnumber⟩ := hstart
  obtain ⟨htake, hdrop⟩ := split_run (List.all_eq_true.mp hrun) fun c hc => (hrest c hc).2
  rw [List.cons_append, tokens?, if_neg hblank, hmark]
  dsimp only
  rw [if_neg hquote, if_neg hnumber, htake, hdrop, hword]
  rfl

theorem lexes_null : Lexes "null".toList [.leaf .null] :=
  lexes_word 'n' ['u', 'l', 'l'] rfl (by decide) rfl

theorem lexes_bool (b : Bool) : Lexes (if b then "true" else "false").toList [.leaf (.bool b)] := by
  cases b with
  | false => exact lexes_word 'f' ['a', 'l', 's', 'e'] rfl (by decide) rfl
  | true => exact lexes_word 't' ['r', 'u', 'e'] rfl (by decide) rfl

-- The first of several pieces, and the others each behind a comma.
theorem intercalate_cons {α β : Type} (separator : β) (pieces : α → List β) (x : α) (xs : List α) :
    [separator].intercalate ((x :: xs).map pieces) = pieces x ++ xs.flatMap (separator :: pieces ·) := by
  induction xs generalizing x with
  | nil => simp
  | cons y xs ih =>
    rw [List.map_cons, List.map_cons, List.intercalate_cons_cons, ← List.map_cons, ih, List.flatMap_cons]
    simp

theorem stops_of_isBlank (h : isBlank c) (rest : List Char) : Stops (c :: rest) := by
  intro d hd
  cases hd
  simp only [isBlank, Bool.or_eq_true, beq_iff_eq] at h
  rcases h with ((rfl | rfl) | rfl) | rfl
  all_goals decide

theorem stops_of_mark {mark : Token} (h : mark? c = some mark) (rest : List Char) : Stops (c :: rest) := by
  intro d hd
  cases hd
  unfold mark? at h
  split at h
  case h_7 => cases h
  all_goals decide

section Block

variable {α : Type} {xs : List α} {piece : α → List Char} {tokensOf : α → List Token}

theorem stops_more (xs : List α) (piece : α → List Char) (hrest : Stops rest) :
    Stops (xs.flatMap (',' :: piece ·) ++ rest) := by
  cases xs with
  | nil => exact hrest
  | cons x xs => exact stops_of_mark rfl _

theorem lexes_more (h : ∀ x ∈ xs, Lexes (piece x) (tokensOf x)) :
    Lexes (xs.flatMap (',' :: piece ·)) (xs.flatMap (.comma :: tokensOf ·)) := by
  induction xs with
  | nil =>
    intro rest _
    simp
  | cons x xs ih =>
    intro rest hrest
    have ⟨hx, hxs⟩ := List.forall_mem_cons.mp h
    rw [List.flatMap_cons, List.append_assoc, List.cons_append, tokens?_mark rfl, hx _ (stops_more xs piece hrest),
      ih hxs rest hrest]
    simp [Function.comp_def]

theorem Lexes.behind (hblank : Blank cs) (h : Lexes cs' tokens) : Lexes (cs ++ cs') tokens := by
  intro rest hrest
  rw [List.append_assoc, tokens?_blanks hblank, h rest hrest]

-- A piece of a block with the line break and the space in front of it.
def lineOf (indent piece : String) : List Char :=
  ("\n" ++ indent ++ "  " ++ piece).toList

theorem toList_block_cons (indent opening closing piece : String) (pieces : List String) :
    (block indent opening closing (piece :: pieces)).toList =
      opening.toList ++ (lineOf indent piece ++ pieces.flatMap (',' :: lineOf indent ·) ++
        ('\n' :: indent.toList ++ closing.toList)) := by
  have hlines : ((piece :: pieces).map ("\n" ++ indent ++ "  " ++ ·)).map String.toList =
      (piece :: pieces).map (lineOf indent) := List.map_map
  have hblock : block indent opening closing (piece :: pieces) = opening ++
      ",".intercalate ((piece :: pieces).map ("\n" ++ indent ++ "  " ++ ·)) ++ ("\n" ++ indent) ++ closing := rfl
  have hcomma : ",".toList = [','] := rfl
  have hbreak : "\n".toList = ['\n'] := rfl
  rw [← intercalate_cons, hblock, ← hlines]
  simp only [String.toList_append, String.toList_intercalate, hcomma, hbreak, List.append_assoc, List.nil_append,
    List.cons_append]

theorem Lexes.on_line {indent piece : String} (hindent : Blank indent.toList) (h : Lexes piece.toList tokens) :
    Lexes (lineOf indent piece) tokens := by
  have hblank : Blank ("\n" ++ indent ++ "  ").toList := by
    simpa [Blank, or_imp, forall_and, isBlank] using hindent
  rw [lineOf, String.toList_append]
  exact h.behind hblank

-- The pieces in their brackets, with a line for each.
theorem lexes_block (opening closing : Char) {first last : Token} {text : α → String} {indent : String}
    (hopening : mark? opening = some first) (hclosing : mark? closing = some last) (hindent : Blank indent.toList)
    (h : ∀ x ∈ xs, Lexes (text x).toList (tokensOf x)) :
    Lexes (block indent (String.singleton opening) (String.singleton closing) (xs.map text)).toList
      (first :: ([.comma].intercalate (xs.map tokensOf) ++ [last])) := by
  intro rest hrest
  cases xs with
  | nil =>
    have htext : (block indent (String.singleton opening) (String.singleton closing) []).toList ++ rest =
        opening :: closing :: rest := by
      simp [block]
    rw [List.map_nil, htext, tokens?_mark hopening, tokens?_mark hclosing]
    simp [Function.comp_def]
  | cons x xs =>
    have hlines : ∀ y ∈ x :: xs, Lexes (lineOf indent (text y)) (tokensOf y) := fun y hy => (h y hy).on_line hindent
    obtain ⟨hx, hxs⟩ := List.forall_mem_cons.mp hlines
    have hline : Blank ('\n' :: indent.toList) := List.forall_mem_cons.mpr ⟨rfl, hindent⟩
    have hend : Stops ('\n' :: indent.toList ++ closing :: rest) := stops_of_isBlank rfl _
    have htext : (block indent (String.singleton opening) (String.singleton closing)
        ((x :: xs).map text)).toList ++ rest =
        opening :: (lineOf indent (text x) ++ (xs.flatMap (fun y => ',' :: lineOf indent (text y)) ++
          ('\n' :: indent.toList ++ closing :: rest))) := by
      rw [List.map_cons, toList_block_cons]
      simp [List.flatMap_map]
    rw [htext, tokens?_mark hopening, hx _ (stops_more _ _ hend), lexes_more hxs _ hend, tokens?_blanks hline,
      tokens?_mark hclosing, intercalate_cons]
    simp [Function.comp_def]

end Block

end Offload.Json
