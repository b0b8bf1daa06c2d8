import CallScript.Expr.Source
import CallScript.Proofs.Expr.Leaves
import CallScript.Proofs.Number.Overflow
import CallScript.Proofs.Number.WholeText
import CallScript.Proofs.Source.Recognition

/-! # Trees that their text gives back

A tree is canonical if the text of each of its leaves is that leaf. The text of a canonical tree
derives the tree (`exprAt_of_canonical`). For the other direction a leaf that its text does not give
back is replaced by the word that stands in the text (`respell`): the text stays the same, so by the
first direction it is this tree that is read. -/

namespace CallScript

open Number

/-! ## Canonical trees -/

namespace Source

/-- A word that is read as one: no number stands at its start. -/
structure IsWord (name : List Char) : Prop where
  nonempty : name ≠ []
  inside : ∀ c ∈ name, isWordChar c = true
  noNumber : ∀ digits after, ¬ NumberAt name digits after

end Source

open Source

/-- A constant that its text gives back: a natural number, or a string without quotes. -/
def Literal.Canonical : Literal → Prop
  | .number x => IsWhole x
  | .string s => '"' ∉ s.toList

/-- A tree all of whose leaves are given back by their text. -/
def Expr.Canonical (e : Expr) : Prop :=
  e.Leaves Literal.Canonical (IsWord ·.toList)

namespace Source

variable {comments : Bool} {text start middle inner rest digits after name : List Char}

/-! ## Derivations of chains, extended -/

theorem ExprAt.of_layout {e : Expr} (before : Layout comments text start)
    (h : ExprAt comments start e rest) : ExprAt comments text e rest := by
  cases h with
  | intro layout atom chain => exact .intro (before.trans layout) atom chain

theorem ChainAt.snoc {text middle : List Char} {lists : List (List Expr)} {args : List Expr}
    (h : ChainAt comments text lists middle) (opens : Layout comments middle ('(' :: inner))
    (list : ArgsAt comments inner args rest) : ChainAt comments text (lists ++ [args]) rest := by
  match h with
  | .nil => exact .cons opens list .nil
  | .cons first others chain => exact .cons first others (chain.snoc opens list)

/-- One more argument list behind an expression. -/
theorem ExprAt.call {operator : Expr} {args : List Expr} (h : ExprAt comments text operator middle)
    (opens : Layout comments middle ('(' :: inner)) (list : ArgsAt comments inner args rest) :
    ExprAt comments text (.call operator args) rest := by
  cases h with
  | @intro _ _ _ _ a lists layout atom chain =>
    have longer : ExprAt comments text (a.toExpr.callAll (lists ++ [args])) rest :=
      .intro layout atom (chain.snoc opens list)
    rw [Expr.callAll_append] at longer
    exact longer

theorem ExprAt.of_atom {a : Atom} (atom : AtomAt text a rest) :
    ExprAt comments text a.toExpr rest :=
  .intro .none atom .nil

/-! ## The text of a canonical tree derives it -/

theorem exprAt_literal {l : Literal} (canonical : l.Canonical)
    (stops : ∀ c ∈ rest.head?, isWordChar c = false) :
    ExprAt comments (l.sourceChars ++ rest) (.literal l) rest := by
  cases l with
  | number x =>
    obtain ⟨nonempty, digits, value⟩ := digitsOf_plainChars canonical
    have number : NumberAt (Layout.plain.chars x ++ rest) (Layout.plain.chars x) rest :=
      ⟨rfl, nonempty, digits, fun c hc => isIdentifierChar_eq_false (stops c hc)⟩
    have read : ExprAt comments (Layout.plain.chars x ++ rest) _ rest := .of_atom (.number number)
    rw [Atom.toExpr, value] at read
    exact read
  | string s =>
    have read : ExprAt comments ('"' :: (s.toList ++ '"' :: rest)) _ rest :=
      .of_atom (.string canonical)
    rw [Atom.toExpr, String.ofList_toList] at read
    simpa [Literal.sourceChars] using read

theorem exprAt_word {name : String} (canonical : IsWord name.toList)
    (stops : ∀ c ∈ rest.head?, isWordChar c = false) :
    ExprAt comments (name.toList ++ rest) (.word name) rest := by
  obtain ⟨nonempty, inside, noNumber⟩ := canonical
  have read : ExprAt comments (name.toList ++ rest) _ rest :=
    .of_atom (.word nonempty inside stops ((noNumber_append_iff stops).mpr noNumber))
  rwa [Atom.toExpr, String.ofList_toList] at read

/-- The separator behind an argument. -/
def separator (es : List Expr) : List Char :=
  if es.isEmpty then [] else [',', ' ']

theorem head_separator (es : List Expr) (rest : List Char) :
    ∀ c ∈ (separator es ++ Expr.sourceCharsAll es ++ ')' :: rest).head?, isWordChar c = false := by
  intro c hc
  cases es with
  | nil =>
    obtain rfl : ')' = c := by simpa [separator, Expr.sourceCharsAll] using hc
    decide
  | cons e es =>
    obtain rfl : ',' = c := by simpa [separator] using hc
    decide

-- What follows an argument is a comma or a parenthesis, and what follows an operator a parenthesis,
-- so each printed token ends where it should.
mutual

/-- The text of a canonical tree derives the tree, in front of anything that ends a word. -/
theorem exprAt_of_canonical {rest : List Char} {e : Expr} (canonical : e.Canonical)
    (stops : ∀ c ∈ rest.head?, isWordChar c = false) :
    ExprAt comments (e.sourceChars ++ rest) e rest := by
  match e with
  | .literal l => exact exprAt_literal canonical stops
  | .word name => exact exprAt_word canonical stops
  | .call operator args =>
    have opening : ∀ c ∈ ('(' :: (Expr.sourceCharsAll args ++ ')' :: rest)).head?,
        isWordChar c = false := by
      intro c hc
      obtain rfl : '(' = c := by simpa using hc
      decide
    have first := exprAt_of_canonical canonical.1 opening
    have call := first.call .none (argsAt_of_canonical canonical.2)
    simpa [Expr.sourceChars] using call

theorem argsAt_of_canonical {rest : List Char} {es : List Expr}
    (canonical : Expr.LeavesAll Literal.Canonical (IsWord ·.toList) es) :
    ArgsAt comments (Expr.sourceCharsAll es ++ ')' :: rest) es rest := by
  match es with
  | [] => exact .empty .none
  | e :: es =>
    have first := exprAt_of_canonical canonical.1 (head_separator es rest)
    have list := ArgsAt.some first (moreAt_of_canonical canonical.2)
    simpa [Expr.sourceCharsAll, separator] using list

theorem moreAt_of_canonical {rest : List Char} {es : List Expr}
    (canonical : Expr.LeavesAll Literal.Canonical (IsWord ·.toList) es) :
    MoreAt comments (separator es ++ Expr.sourceCharsAll es ++ ')' :: rest) es rest := by
  match es with
  | [] => exact .close .none
  | e :: es =>
    have space : Layout comments
        (' ' :: (e.sourceChars ++ (separator es ++ Expr.sourceCharsAll es ++ ')' :: rest)))
        (e.sourceChars ++ (separator es ++ Expr.sourceCharsAll es ++ ')' :: rest)) :=
      .blank (by decide) .none
    have arg := (exprAt_of_canonical canonical.1 (head_separator es rest)).of_layout space
    have more := MoreAt.next .none arg (moreAt_of_canonical canonical.2)
    simpa [Expr.sourceCharsAll, separator] using more

end

/-! ## What is read has leaves of a text -/

/-- A constant of program text: a string without quotes, or a number in digits. The number may be
too large for a double. -/
def IsConstant : Literal → Prop
  | .number x => IsWhole x ∨ exact x = .infinite false
  | .string s => '"' ∉ s.toList

/-- The constants and words of program text are leaves of the tree. -/
def IsText (e : Expr) : Prop :=
  e.Leaves IsConstant (IsWord ·.toList)

/-- `IsText` of every tree in a list. -/
def AreTexts (es : List Expr) : Prop :=
  Expr.LeavesAll IsConstant (IsWord ·.toList) es

theorem isText_of_atomAt {a : Atom} (h : AtomAt text a rest) : IsText a.toExpr := by
  cases h with
  | @string body rest closed =>
    have body : '"' ∉ (String.ofList body).toList := by rwa [String.toList_ofList]
    exact body
  | @number text digits rest number =>
    exact (ofNat_cases (natOfDigits digits)).imp And.right And.right
  | @word name rest nonempty inside stops noNumber =>
    have word : IsWord (String.ofList name).toList := by
      rw [String.toList_ofList]
      exact ⟨nonempty, inside, (noNumber_append_iff stops).mp noNumber⟩
    exact word

mutual

theorem isText_of_exprAt {text rest : List Char} {e : Expr} (h : ExprAt comments text e rest) :
    IsText e := by
  match h with
  | .intro _ atom chain =>
    exact Expr.leaves_callAll (isText_of_atomAt atom) (areTexts_of_chainAt chain)

theorem areTexts_of_chainAt {text rest : List Char} {lists : List (List Expr)}
    (h : ChainAt comments text lists rest) : ∀ list ∈ lists, AreTexts list := by
  match h with
  | .nil => exact List.forall_mem_nil AreTexts
  | .cons _ args chain =>
    exact List.forall_mem_cons.mpr ⟨areTexts_of_argsAt args, areTexts_of_chainAt chain⟩

theorem areTexts_of_argsAt {text rest : List Char} {es : List Expr}
    (h : ArgsAt comments text es rest) : AreTexts es := by
  match h with
  | .empty _ => trivial
  | .some first more => exact ⟨isText_of_exprAt first, areTexts_of_moreAt more⟩

theorem areTexts_of_moreAt {text rest : List Char} {es : List Expr}
    (h : MoreAt comments text es rest) : AreTexts es := by
  match h with
  | .close _ => trivial
  | .trailing _ _ => trivial
  | .next _ arg more => exact ⟨isText_of_exprAt arg, areTexts_of_moreAt more⟩

end

/-! ## Leaves that their text does not give back -/

/-- A constant that equals one of program text. -/
def EqualsConstant : Literal → Prop
  | .number x =>
    IsWhole x ∨ Layout.plain.chars x = ['i', 'n', 'f'] ∨ Layout.plain.chars x = ['-', '0']
  | .string s => '"' ∉ s.toList

theorem equalsConstant_of_same (l l' : Literal) (constant : IsConstant l) (h : (l == l') = true) :
    EqualsConstant l' := by
  cases l with
  | string s =>
    cases l' with
    | number => cases h
    | string s' =>
      have strings : (s == s') = true := h
      rwa [beq_iff_eq.mp strings] at constant
  | number x =>
    cases l' with
    | string => cases h
    | number x' =>
      have numbers : (x == x') = true := h
      rcases beq_iff.mp numbers with ⟨-, rfl⟩ | ⟨-, negative, exponent, zero⟩
      · rcases constant with whole | infinite
        · exact .inl whole
        · exact .inr (.inl (plainChars_infinity infinite))
      · cases negative with
        | false => exact .inl ⟨0, exponent, 0, zero, by rw [HasValue, Nat.zero_mul, Nat.zero_mul]⟩
        | true => exact .inr (.inr (plainChars_minusZero zero))

theorem isWord_of_head {c : Char} {cs : List Char} (inside : ∀ d ∈ c :: cs, isWordChar d = true)
    (noDigit : c.isDigit = false) : IsWord (c :: cs) := by
  refine ⟨List.cons_ne_nil c cs, inside, ?_⟩
  intro digits after number
  obtain ⟨d, ds, rfl⟩ := List.exists_cons_of_ne_nil number.nonempty
  obtain ⟨rfl, -⟩ := List.cons.inj number.split
  have digit := number.digits c List.mem_cons_self
  rw [noDigit] at digit
  cases digit

theorem isWord_infinity : IsWord ['i', 'n', 'f'] :=
  isWord_of_head (List.all_eq_true.mp (by decide)) rfl

theorem isWord_minusZero : IsWord ['-', '0'] :=
  isWord_of_head (List.all_eq_true.mp (by decide)) rfl

/-- A number whose text is no run of digits becomes the word that its text is. -/
def respellLiteral : Literal → Expr
  | .number x =>
    if (Layout.plain.chars x).all Char.isDigit then .literal (.number x)
    else .word (.ofList (Layout.plain.chars x))
  | .string s => .literal (.string s)

mutual

/-- The tree with every constant respelled. -/
def respell : Expr → Expr
  | .literal l => respellLiteral l
  | .word name => .word name
  | .call operator args => .call (respell operator) (respellAll args)

/-- Every tree in a list respelled. -/
def respellAll : List Expr → List Expr
  | [] => []
  | e :: es => respell e :: respellAll es

end

theorem isEmpty_respellAll (es : List Expr) : (respellAll es).isEmpty = es.isEmpty := by
  cases es <;> rfl

mutual

theorem sourceChars_respell (e : Expr) : (respell e).sourceChars = e.sourceChars := by
  match e with
  | .literal (.number x) =>
    rw [respell, respellLiteral]
    split
    next => rfl
    next => exact String.toList_ofList
  | .literal (.string s) => rfl
  | .word name => rfl
  | .call operator args =>
    rw [respell, Expr.sourceChars, sourceChars_respell operator, sourceCharsAll_respellAll args,
      Expr.sourceChars]

theorem sourceCharsAll_respellAll (es : List Expr) :
    Expr.sourceCharsAll (respellAll es) = Expr.sourceCharsAll es := by
  match es with
  | [] => rfl
  | e :: es =>
    rw [respellAll, Expr.sourceCharsAll, sourceChars_respell e, sourceCharsAll_respellAll es,
      isEmpty_respellAll, Expr.sourceCharsAll]

end

theorem canonical_respellLiteral {l : Literal} (h : EqualsConstant l) :
    (respellLiteral l).Canonical := by
  cases l with
  | string s => exact h
  | number x =>
    rw [respellLiteral]
    rcases h with whole | infinite | minusZero
    · have digits := (digitsOf_plainChars whole).digits
      rw [if_pos (List.all_eq_true.mpr digits)]
      exact whole
    · have word : IsWord (String.ofList ['i', 'n', 'f']).toList := isWord_infinity
      rw [infinite, if_neg (by decide)]
      exact word
    · have word : IsWord (String.ofList ['-', '0']).toList := isWord_minusZero
      rw [minusZero, if_neg (by decide)]
      exact word

mutual

theorem canonical_respell {e : Expr} (h : e.Leaves EqualsConstant (IsWord ·.toList)) :
    (respell e).Canonical := by
  match e with
  | .literal l => exact canonical_respellLiteral h
  | .word name => exact h
  | .call operator args => exact ⟨canonical_respell h.1, canonical_respellAll h.2⟩

theorem canonical_respellAll {es : List Expr}
    (h : Expr.LeavesAll EqualsConstant (IsWord ·.toList) es) :
    Expr.LeavesAll Literal.Canonical (IsWord ·.toList) (respellAll es) := by
  match es with
  | [] => trivial
  | e :: es => exact ⟨canonical_respell h.1, canonical_respellAll h.2⟩

end

/-- A number that has become a word is no longer the same. -/
theorem respellLiteral_of_same {l : Literal}
    (h : Expr.same (respellLiteral l) (.literal l) = true) : respellLiteral l = .literal l := by
  cases l with
  | string s => rfl
  | number x =>
    rw [respellLiteral] at h ⊢
    split at h
    next digits => rw [if_pos digits]
    next => cases h

mutual

theorem respell_of_same {e : Expr} (h : Expr.same (respell e) e = true) : respell e = e := by
  match e with
  | .literal l => exact respellLiteral_of_same h
  | .word name => rfl
  | .call operator args =>
    have both : (Expr.same (respell operator) operator &&
        Expr.sameAll (respellAll args) args) = true := h
    rw [Bool.and_eq_true] at both
    rw [respell, respell_of_same both.1, respellAll_of_same both.2]

theorem respellAll_of_same {es : List Expr} (h : Expr.sameAll (respellAll es) es = true) :
    respellAll es = es := by
  match es with
  | [] => rfl
  | e :: es =>
    have both : (Expr.same (respell e) e && Expr.sameAll (respellAll es) es) = true := h
    rw [Bool.and_eq_true] at both
    rw [respellAll, respell_of_same both.1, respellAll_of_same both.2]

end

/-! ## The round trip -/

theorem isProgram_of_canonical {e : Expr} (canonical : e.Canonical) :
    IsProgram comments e.sourceChars e := by
  have derived := @exprAt_of_canonical comments [] e canonical (by simp)
  rw [List.append_nil] at derived
  exact ⟨[], derived, .none⟩

/-- A text is at most one program. -/
theorem IsProgram.unique {e e' : Expr} (h : IsProgram comments text e)
    (h' : IsProgram comments text e') : e = e' := by
  have read := @runProgram_eq_ok_iff ⟨comments, max e.nesting e'.nesting⟩ text
  have first := read.mpr ⟨h, Nat.le_max_left _ _⟩
  have second := read.mpr ⟨h', Nat.le_max_right _ _⟩
  exact Except.ok.inj (first.symm.trans second)

/-- If a tree's text is a program and that program is the tree, then the tree is canonical. -/
theorem canonical_of_isProgram {e e' : Expr} (h : IsProgram comments e.sourceChars e')
    (same : Expr.same e' e = true) : e.Canonical := by
  have ⟨rest, derived, _⟩ := h
  -- at worst a number of the tree is minus zero or infinite, since it equals one that was read
  have leaves : e.Leaves EqualsConstant (IsWord ·.toList) :=
    (isText_of_exprAt derived).of_same equalsConstant_of_same same
  have canonical := canonical_respell leaves
  -- the text that was read is also the text of the respelled tree, so it is that tree
  have respelled : IsProgram comments e.sourceChars (respell e) := by
    rw [← sourceChars_respell]
    exact isProgram_of_canonical canonical
  rw [← respelled.unique h] at same
  rwa [respell_of_same same] at canonical

theorem same_self_of_canonical {e : Expr} (canonical : e.Canonical) : Expr.same e e = true := by
  apply Expr.same_self _ canonical
  intro l hl
  cases l with
  | number x =>
    obtain ⟨m, exponent, n, value, -⟩ := hl
    exact beq_self_of_number (by rw [value]; exact Exact.noConfusion)
  | string s =>
    have strings : (s == s) = true := beq_self_eq_true s
    exact strings

/-- Reading the text of a tree gives the tree back exactly if it is canonical and its argument lists
stay within the limit. -/
theorem parseWith_source_iff (options : Options) (e : Expr) :
    (∃ e', parseWith options e.source = .ok e' ∧ (e' == e) = true) ↔
      e.Canonical ∧ e.nesting ≤ options.maxDepth := by
  have text : e.source.toList = e.sourceChars := String.toList_ofList
  simp only [parseWith_eq_runProgram, runProgram_eq_ok_iff, text]
  constructor
  · intro ⟨e', ⟨program, fits⟩, same⟩
    refine ⟨canonical_of_isProgram program same, ?_⟩
    rwa [← Expr.nesting_of_same same]
  · intro ⟨canonical, fits⟩
    exact ⟨e, ⟨isProgram_of_canonical canonical, fits⟩, same_self_of_canonical canonical⟩

end Source

end CallScript
