import CallScript.Proofs.Source.Layout
import CallScript.Source.Token

/-! # The grammar of programs

The grammar as relations between a text, what stands at its start, and the text behind that. The
relations leave open where layout ends and how many argument lists belong to a chain; an atom looks
one character ahead. `nextToken_eq_some_iff` says that the tokens the reader takes are those of the
grammar. -/

namespace CallScript.Source

/-! ## Atoms -/

/-- A run of digits that no identifier character follows; the run is maximal, since digits are
identifier characters. -/
structure NumberAt (text digits rest : List Char) : Prop where
  split : text = digits ++ rest
  nonempty : digits ≠ []
  digits : ∀ c ∈ digits, c.isDigit = true
  boundary : ∀ c ∈ rest.head?, isIdentifierChar c = false

/-- An atom at the start of a text. A word is a maximal run of word characters at a place where no
number stands. -/
inductive AtomAt : List Char → Atom → List Char → Prop where
  | string {body rest : List Char} (closed : '"' ∉ body) :
      AtomAt ('"' :: (body ++ '"' :: rest)) (.string body) rest
  | number {text digits rest : List Char} (number : NumberAt text digits rest) :
      AtomAt text (.number digits) rest
  | word {name rest : List Char} (nonempty : name ≠ []) (inside : ∀ c ∈ name, isWordChar c = true)
      (stops : ∀ c ∈ rest.head?, isWordChar c = false)
      (noNumber : ∀ digits after, ¬ NumberAt (name ++ rest) digits after) :
      AtomAt (name ++ rest) (.word name) rest

/-! ## Expressions -/

mutual

/-- An expression: layout, an atom, and a chain of argument lists. -/
inductive ExprAt (comments : Bool) : List Char → Expr → List Char → Prop where
  | intro {text start middle rest : List Char} {a : Atom} {lists : List (List Expr)}
      (before : Layout comments text start) (atom : AtomAt start a middle)
      (chain : ChainAt comments middle lists rest) :
      ExprAt comments text (a.toExpr.callAll lists) rest

/-- Argument lists one after the other. -/
inductive ChainAt (comments : Bool) : List Char → List (List Expr) → List Char → Prop where
  | nil {text : List Char} : ChainAt comments text [] text
  | cons {text inner middle rest : List Char} {args : List Expr} {lists : List (List Expr)}
      (opens : Layout comments text ('(' :: inner)) (list : ArgsAt comments inner args middle)
      (chain : ChainAt comments middle lists rest) : ChainAt comments text (args :: lists) rest

/-- An argument list from behind its opening parenthesis to behind its closing one. -/
inductive ArgsAt (comments : Bool) : List Char → List Expr → List Char → Prop where
  | empty {text rest : List Char} (closes : Layout comments text (')' :: rest)) :
      ArgsAt comments text [] rest
  | some {text middle rest : List Char} {e : Expr} {es : List Expr}
      (first : ExprAt comments text e middle) (more : MoreAt comments middle es rest) :
      ArgsAt comments text (e :: es) rest

/-- What follows an argument: the arguments behind it, and the end of the list. A comma may stand
before the closing parenthesis. -/
inductive MoreAt (comments : Bool) : List Char → List Expr → List Char → Prop where
  | close {text rest : List Char} (closes : Layout comments text (')' :: rest)) :
      MoreAt comments text [] rest
  | trailing {text middle rest : List Char} (separates : Layout comments text (',' :: middle))
      (closes : Layout comments middle (')' :: rest)) : MoreAt comments text [] rest
  | next {text middle behind rest : List Char} {e : Expr} {es : List Expr}
      (separates : Layout comments text (',' :: middle)) (arg : ExprAt comments middle e behind)
      (more : MoreAt comments behind es rest) : MoreAt comments text (e :: es) rest

end

/-- A program: one expression, and nothing but layout behind it. -/
def IsProgram (comments : Bool) (text : List Char) (e : Expr) : Prop :=
  ∃ rest, ExprAt comments text e rest ∧ Layout comments rest []

/-! ## Characters of atoms -/

theorem isIdentifierChar_of_isDigit {c : Char} (h : c.isDigit = true) :
    isIdentifierChar c = true := by
  simp [isIdentifierChar, Char.isAlphanum, h]

theorem isWordChar_of_isIdentifierChar {c : Char} (h : isIdentifierChar c = true) :
    isWordChar c = true := by
  have bounds : 48 ≤ c.toNat ∧ c.toNat ≤ 57 ∨ 65 ≤ c.toNat ∧ c.toNat ≤ 122 := by
    rcases Bool.or_eq_true_iff.mp h with alphanumeric | underscore
    · rcases Bool.or_eq_true_iff.mp alphanumeric with letter | digit
      · rcases Bool.or_eq_true_iff.mp letter with upper | lower
        · have range : 65 ≤ c.toNat ∧ c.toNat ≤ 90 := by
            simpa [Char.isUpper, UInt32.le_iff_toNat_le] using upper
          omega
        · have range : 97 ≤ c.toNat ∧ c.toNat ≤ 122 := by
            simpa [Char.isLower, UInt32.le_iff_toNat_le] using lower
          omega
      · have range : 48 ≤ c.toNat ∧ c.toNat ≤ 57 := Char.isDigit_iff_toNat.mp digit
        omega
    · rw [beq_iff_eq.mp underscore]
      decide
  have notBlank : Text.isBlank c = false := by
    simp only [Text.isBlank, Text.isWithin, Text.blankRanges, List.any_cons, List.any_nil,
      Bool.or_eq_false_iff, Bool.and_eq_false_iff, decide_eq_false_iff_not, and_true]
    omega
  have notDelimiter : c ∉ wordDelimiters := by
    intro member
    simp only [wordDelimiters, List.mem_cons, List.not_mem_nil, or_false] at member
    rcases member with rfl | rfl | rfl | rfl | rfl <;> exact absurd h (by decide)
  simp [isWordChar, notBlank, notDelimiter]

theorem isIdentifierChar_eq_false {c : Char} (h : isWordChar c = false) :
    isIdentifierChar c = false := by
  cases hc : isIdentifierChar c with
  | false => rfl
  | true => rw [isWordChar_of_isIdentifierChar hc] at h; cases h

theorem isWordChar_of_isDigit {c : Char} (h : c.isDigit = true) : isWordChar c = true :=
  isWordChar_of_isIdentifierChar (isIdentifierChar_of_isDigit h)

theorem startsToken_of_isWordChar {comments : Bool} {c : Char} (h : isWordChar c = true) :
    startsToken comments c = true := by
  simp only [isWordChar, wordDelimiters, Bool.and_eq_true, Bool.not_eq_true'] at h
  have notHash : c ≠ '#' := by
    rintro rfl
    simp at h
  simp [startsToken, h.1, notHash]

theorem ne_of_isWordChar {c d : Char} (h : isWordChar c = true) (hd : d ∈ wordDelimiters) :
    c ≠ d := by
  rintro rfl
  simp [isWordChar, hd] at h

/-! ## Words in front of what ends them -/

variable {comments : Bool} {text digits name start middle rest : List Char} {a : Atom}

/-- What ends a word does not change whether a number stands at its start. -/
theorem numberAt_append_iff (stops : ∀ c ∈ rest.head?, isWordChar c = false) :
    (∃ digits after, NumberAt (name ++ rest) digits after) ↔
      ∃ digits after, NumberAt name digits after := by
  constructor
  · intro ⟨digits, after, number⟩
    rcases List.append_eq_append_iff.mp number.split with
      ⟨tail, hdigits, hrest⟩ | ⟨tail, hname, hafter⟩
    · -- the digits would go on into what ends the word
      cases tail with
      | nil =>
        rw [List.append_nil] at hdigits
        refine ⟨digits, [], ?_, number.nonempty, number.digits, by simp⟩
        rw [hdigits, List.append_nil]
      | cons c tail =>
        have digit := number.digits c (hdigits ▸ by simp)
        have stop := stops c (by rw [hrest]; rfl)
        rw [isWordChar_of_isDigit digit] at stop
        cases stop
    · refine ⟨digits, tail, hname, number.nonempty, number.digits, ?_⟩
      intro c hc
      apply number.boundary c
      rw [hafter, List.head?_append, Option.mem_def.mp hc]
      rfl
  · intro ⟨digits, after, number⟩
    refine ⟨digits, after ++ rest, ?_, number.nonempty, number.digits, ?_⟩
    · rw [number.split, List.append_assoc]
    · intro c hc
      cases after with
      | nil => exact isIdentifierChar_eq_false (stops c hc)
      | cons d tail => exact number.boundary c hc

theorem noNumber_append_iff (stops : ∀ c ∈ rest.head?, isWordChar c = false) :
    (∀ digits after, ¬ NumberAt (name ++ rest) digits after) ↔
      ∀ digits after, ¬ NumberAt name digits after := by
  have either := @numberAt_append_iff name rest stops
  simpa using not_congr either

/-! ## Atoms are what `plainAtom` and `takeToken` take -/

theorem NumberAt.takeWhile_eq (h : NumberAt text digits rest) :
    text.takeWhile Char.isDigit = digits ∧ text.dropWhile Char.isDigit = rest := by
  have stops : ∀ c ∈ rest.head?, c.isDigit = false := by
    intro c hc
    cases hd : c.isDigit with
    | false => rfl
    | true => exact absurd (h.boundary c hc) (by simp [isIdentifierChar_of_isDigit hd])
  rw [h.split]
  exact ⟨Text.takeWhile_run h.digits stops, Text.dropWhile_run h.digits stops⟩

/-- Whether a number stands at the start of a text is what `plainAtom` tests. -/
theorem exists_numberAt_iff :
    (∃ digits rest, NumberAt text digits rest) ↔
      (text.takeWhile Char.isDigit).isEmpty = false ∧
        (text.dropWhile Char.isDigit).head?.any isIdentifierChar = false := by
  constructor
  · rintro ⟨digits, rest, h⟩
    obtain ⟨htake, hdrop⟩ := h.takeWhile_eq
    rw [htake, hdrop, List.isEmpty_eq_false_iff]
    refine ⟨h.nonempty, ?_⟩
    cases hrest : rest.head? with
    | none => rfl
    | some c => simpa using h.boundary c hrest
  · rintro ⟨nonempty, boundary⟩
    refine ⟨_, _, List.takeWhile_append_dropWhile.symm, List.isEmpty_eq_false_iff.mp nonempty,
      fun c hc => List.mem_takeWhile_imp hc, ?_⟩
    intro c hc
    simpa [Option.mem_def.mp hc] using boundary

theorem plainAtom_of_numberAt (h : NumberAt text digits rest) :
    plainAtom text = some (.number digits, rest) := by
  obtain ⟨nonempty, boundary⟩ := exists_numberAt_iff.mp ⟨digits, rest, h⟩
  obtain ⟨htake, hdrop⟩ := h.takeWhile_eq
  rw [plainAtom, if_pos (by rw [nonempty, boundary]; rfl), htake, hdrop]

theorem plainAtom_of_no_number (h : ∀ digits rest, ¬ NumberAt text digits rest) :
    plainAtom text =
      if (text.takeWhile isWordChar).isEmpty then none
      else some (.word (text.takeWhile isWordChar), text.dropWhile isWordChar) := by
  rw [plainAtom, if_neg]
  intro test
  simp only [Bool.and_eq_true, Bool.not_eq_true'] at test
  obtain ⟨digits, rest, number⟩ := exists_numberAt_iff.mpr test
  exact h digits rest number

/-- An atom that starts with no quote is what `plainAtom` takes. -/
theorem atomAt_of_plainAtom (h : plainAtom text = some (a, rest)) : AtomAt text a rest := by
  by_cases number : ∃ digits after, NumberAt text digits after
  · obtain ⟨digits, after, number⟩ := number
    rw [plainAtom_of_numberAt number] at h
    obtain ⟨rfl, rfl⟩ : Atom.number digits = a ∧ after = rest := by simpa using h
    exact .number number
  · have noNumber : ∀ digits after, ¬ NumberAt text digits after :=
      fun digits after found => number ⟨digits, after, found⟩
    rw [plainAtom_of_no_number noNumber] at h
    split at h
    next => cases h
    next nonempty =>
      obtain ⟨rfl, rfl⟩ : _ ∧ text.dropWhile isWordChar = rest := by simpa using h
      have split := @List.takeWhile_append_dropWhile _ isWordChar text
      have word : AtomAt (text.takeWhile isWordChar ++ text.dropWhile isWordChar) _ _ :=
        .word (by simpa using nonempty) (fun c hc => List.mem_takeWhile_imp hc)
          (Text.head_dropWhile isWordChar text) (split.symm ▸ noNumber)
      rwa [split] at word

/-- At a word character no parenthesis, comma or string starts. -/
theorem takeToken_of_plainAtom {c : Char} {cs : List Char} (hc : isWordChar c = true)
    (plain : plainAtom (c :: cs) = some (a, rest)) : takeToken (c :: cs) = (.atom a, rest) := by
  have other : ∀ d ∈ wordDelimiters, ∀ tail, c :: cs = d :: tail → False :=
    fun d hd tail same => ne_of_isWordChar hc hd (List.cons.inj same).1
  rw [takeToken, plain]
  case x_1 => exact List.cons_ne_nil c cs
  all_goals exact other _ (by decide)

theorem AtomAt.takeToken_eq (h : AtomAt text a rest) : takeToken text = (.atom a, rest) := by
  cases h with
  | @string body rest closed =>
    have inside : ∀ c ∈ body, (c != '"') = true := by
      intro c hc
      simp only [bne_iff_ne]
      rintro rfl
      exact closed hc
    have stops : ∀ c ∈ ('"' :: rest).head?, (c != '"') = false := by simp
    simp only [takeToken, Text.dropWhile_run inside stops, Text.takeWhile_run inside stops]
  | @number text digits rest number =>
    have plain := plainAtom_of_numberAt number
    obtain ⟨c, cs, hdigits⟩ := List.exists_cons_of_ne_nil number.nonempty
    have hc := isWordChar_of_isDigit (number.digits c (hdigits ▸ List.mem_cons_self))
    rw [number.split, hdigits, List.cons_append] at plain ⊢
    exact takeToken_of_plainAtom hc plain
  | @word name rest nonempty inside stops noNumber =>
    have plain := plainAtom_of_no_number noNumber
    rw [Text.takeWhile_run inside stops, Text.dropWhile_run inside stops,
      if_neg (by simpa using nonempty)] at plain
    obtain ⟨c, cs, hname⟩ := List.exists_cons_of_ne_nil nonempty
    have hc := inside c (hname ▸ List.mem_cons_self)
    rw [hname, List.cons_append] at plain ⊢
    exact takeToken_of_plainAtom hc plain

/-! ## Tokens -/

/-- A token at the start of a text. -/
inductive TokenAt : List Char → Token → List Char → Prop where
  | opening {rest : List Char} : TokenAt ('(' :: rest) .opening rest
  | closing {rest : List Char} : TokenAt (')' :: rest) .closing rest
  | comma {rest : List Char} : TokenAt (',' :: rest) .comma rest
  | atom {text rest : List Char} {a : Atom} (atom : AtomAt text a rest) : TokenAt text (.atom a) rest

theorem TokenAt.takeToken_eq {token : Token} (h : TokenAt text token rest) :
    takeToken text = (token, rest) := by
  cases h with
  | opening | closing | comma => rfl
  | atom atom => exact atom.takeToken_eq

theorem tokenAt_of_takeToken {token : Token} (h : takeToken text = (token, rest))
    (good : token ≠ .bad) : TokenAt text token rest := by
  revert h
  fun_cases takeToken text with
  | case1 | case6 | case8 => intro h; cases h; exact absurd rfl good
  | case2 => intro h; cases h; exact .opening
  | case3 => intro h; cases h; exact .closing
  | case4 => intro h; cases h; exact .comma
  | case5 body quote after dropped =>
    intro h
    cases h
    have stops := Text.head_dropWhile (· != '"') body
    rw [dropped] at stops
    obtain rfl : quote = '"' := by simpa using stops quote rfl
    have split := @List.takeWhile_append_dropWhile _ (· != '"') body
    rw [dropped] at split
    have closed : '"' ∉ body.takeWhile (· != '"') := fun member => by
      simpa using List.mem_takeWhile_imp member
    have string : AtomAt ('"' :: (_ ++ '"' :: rest)) (.string _) rest := .string closed
    rw [split] at string
    exact .atom string
  | case7 _ _ _ _ _ _ a after plain =>
    intro h
    cases h
    exact .atom (atomAt_of_plainAtom plain)

/-- A token starts with a character that is no layout. -/
theorem TokenAt.head {token : Token} (comments : Bool) (h : TokenAt text token rest) :
    ∃ c cs, text = c :: cs ∧ startsToken comments c = true := by
  have plain : ∀ c ∈ ['(', ')', ',', '"'], startsToken comments c = true := by
    intro c hc
    simp only [List.mem_cons, List.not_mem_nil, or_false] at hc
    rcases hc with rfl | rfl | rfl | rfl <;> cases comments <;> decide
  cases h with
  | opening | closing | comma => exact ⟨_, _, rfl, plain _ (by decide)⟩
  | atom atom =>
    cases atom with
    | string closed => exact ⟨_, _, rfl, plain _ (by decide)⟩
    | number number =>
      obtain ⟨c, cs, hdigits⟩ := List.exists_cons_of_ne_nil number.nonempty
      have hc := isWordChar_of_isDigit (number.digits c (hdigits ▸ List.mem_cons_self))
      exact ⟨c, cs ++ rest, by rw [number.split, hdigits]; rfl, startsToken_of_isWordChar hc⟩
    | word nonempty inside _ _ =>
      obtain ⟨c, cs, hname⟩ := List.exists_cons_of_ne_nil nonempty
      have hc := inside c (hname ▸ List.mem_cons_self)
      exact ⟨c, cs ++ rest, by rw [hname]; rfl, startsToken_of_isWordChar hc⟩

theorem Layout.nextToken_eq (h : Layout comments text rest) :
    nextToken comments text = nextToken comments rest := by
  rw [nextToken, h.skipSpace_eq, ← nextToken]

theorem layout_of_nextToken {token : Token}
    (h : nextToken comments text = some (token, start, rest)) :
    Layout comments text start ∧ takeToken start = (token, rest) := by
  have layout := layout_skipSpace comments text
  simp only [nextToken] at h
  split at h
  next => cases h
  next c cs stripped =>
    simp only [Option.some.injEq, Prod.mk.injEq] at h
    obtain ⟨htoken, rfl, hrest⟩ := h
    exact ⟨stripped ▸ layout, Prod.ext htoken hrest⟩

/-- The reader's next token is a token of the grammar behind layout. -/
theorem nextToken_eq_some_iff {token : Token} (good : token ≠ .bad) :
    nextToken comments text = some (token, start, rest) ↔
      Layout comments text start ∧ TokenAt start token rest := by
  constructor
  · intro h
    obtain ⟨layout, taken⟩ := layout_of_nextToken h
    exact ⟨layout, tokenAt_of_takeToken taken good⟩
  · rintro ⟨layout, token⟩
    obtain ⟨c, cs, rfl, starts⟩ := token.head comments
    simp [nextToken, layout.skipSpace_eq, skipSpace_cons starts, token.takeToken_eq]

theorem nextToken_eq_none_iff : nextToken comments text = none ↔ Layout comments text [] := by
  constructor
  · intro h
    have layout := layout_skipSpace comments text
    simp only [nextToken] at h
    split at h
    next stripped => exact stripped ▸ layout
    next => cases h
  · intro layout
    rw [layout.nextToken_eq]
    rfl

end CallScript.Source
