import CallScript.Proofs.Json.Grammar

/-! # Tokens in JSON text

A token is taken off a text exactly if the text starts with it: what stands in the grammar is taken
(`TokenText.takeToken_eq`), and what is taken stands in the grammar (`tokenText_of_takeToken`). The text
that a string is written as is one of those in the grammar, whatever the string holds
(`stringText_stringChars`). -/

namespace CallScript.Json

variable {text part rest : List Char} {c : Char} {n : Nat} {s : String} {json : Json}

/-! ## The text of a string is what `takeString` takes -/

theorem HexText.takeHex_eq {hex : List Char} (h : HexText hex n) (rest : List Char) :
    takeHex (hex ++ rest) = some (n, rest) := by
  cases h with
  | intro first second third fourth =>
    simp only [List.cons_append, List.nil_append, takeHex, first, second, third, fourth]

theorem hexText_of_takeHex (taken : takeHex text = some (n, rest)) :
    ∃ hex, text = hex ++ rest ∧ HexText hex n := by
  revert taken
  fun_cases takeHex text with
  | case1 a b c d rest i j k l first second third fourth =>
    intro taken
    cases taken
    exact ⟨[a, b, c, d], rfl, .intro ‹_› ‹_› ‹_› ‹_›⟩
  | case2 | case3 =>
    intro taken
    cases taken

theorem EscapeText.takeEscape_eq (h : EscapeText part c) (rest : List Char) :
    takeEscape (part ++ rest) = some (c, rest) := by
  cases h with
  | short named =>
    simp only [shortEscapes, List.mem_cons, Prod.mk.injEq, List.not_mem_nil, or_false] at named
    rcases named with ⟨rfl, rfl⟩ | ⟨rfl, rfl⟩ | ⟨rfl, rfl⟩ | ⟨rfl, rfl⟩ | ⟨rfl, rfl⟩ | ⟨rfl, rfl⟩ |
      ⟨rfl, rfl⟩ | ⟨rfl, rfl⟩
    all_goals rfl
  | code digits noSurrogate =>
    rw [List.cons_append, takeEscape, takeCodePoint, digits.takeHex_eq]
    dsimp only
    rw [if_neg (by omega), if_neg (by omega)]
  | pair digits isHigh digits' isLow =>
    rw [List.cons_append, List.append_assoc, takeEscape, takeCodePoint, digits.takeHex_eq]
    dsimp only
    rw [if_neg (by omega), if_pos isHigh]
    simp only [List.cons_append, digits'.takeHex_eq]
    rw [if_pos isLow]

theorem escapeText_of_takeEscape (taken : takeEscape text = some (c, rest)) :
    ∃ part, text = part ++ rest ∧ EscapeText part c := by
  revert taken
  fun_cases takeEscape text with
  | case9 text =>
    fun_cases takeCodePoint text with
    | case3 high _ isHigh second low rest found' isLow found =>
      intro taken
      obtain ⟨first, rfl, digits⟩ := hexText_of_takeHex found
      obtain ⟨hex, rfl, digits'⟩ := hexText_of_takeHex found'
      simp only [Option.some.injEq, Prod.mk.injEq] at taken
      obtain ⟨rfl, rfl⟩ := taken
      exact ⟨'u' :: (first ++ '\\' :: 'u' :: hex), by simp, .pair digits isHigh digits' isLow⟩
    | case7 n rest found noLow noHigh =>
      intro taken
      obtain ⟨hex, rfl, digits⟩ := hexText_of_takeHex found
      cases taken
      exact ⟨'u' :: hex, rfl, .code digits (by omega)⟩
    | case1 | case2 | case4 | case5 | case6 =>
      intro taken
      cases taken
  | case10 =>
    intro taken
    cases taken
  | case1 | case2 | case3 | case4 | case5 | case6 | case7 | case8 =>
    intro taken
    cases taken
    exact ⟨[_], rfl, .short (by decide)⟩

theorem takeString_plain {c : Char} (noQuote : c ≠ '"') (noBackslash : c ≠ '\\')
    (noControl : ¬ c.toNat < 0x20) (read rest : List Char) :
    takeString read (c :: rest) = takeString (c :: read) rest := by
  rw [takeString]
  · rw [if_neg noControl]
  · exact noQuote
  · exact noBackslash

theorem takeString_escape {c : Char} (named : takeEscape text = some (c, rest)) (read : List Char) :
    takeString read ('\\' :: text) = takeString (c :: read) rest := by
  rw [takeString]
  split
  next c' after found =>
    rw [named] at found
    cases found
    rfl
  next stuck =>
    rw [named] at stuck
    cases stuck

theorem CharText.takeString_eq (h : CharText part c) (read rest : List Char) :
    takeString read (part ++ rest) = takeString (c :: read) rest := by
  cases h with
  | plain noQuote noBackslash noControl =>
    exact takeString_plain noQuote noBackslash noControl read rest
  | escape escape => exact takeString_escape (escape.takeEscape_eq rest) read

theorem CharsText.takeString_eq {cs : List Char} (h : CharsText part cs) (read rest : List Char) :
    takeString read (part ++ '"' :: rest) = some (.ofList (read.reverse ++ cs), rest) := by
  induction h generalizing read with
  | nil => simp [takeString]
  | cons first more ih =>
    rw [List.append_assoc, first.takeString_eq, ih]
    simp

theorem charsText_plain {cs : List Char}
    (plain : ∀ c ∈ cs, c ≠ '"' ∧ c ≠ '\\' ∧ ¬ c.toNat < 0x20) : CharsText cs cs := by
  induction cs with
  | nil => exact .nil
  | cons c cs ih =>
    obtain ⟨⟨noQuote, noBackslash, noControl⟩, others⟩ := List.forall_mem_cons.mp plain
    exact .cons (.plain noQuote noBackslash noControl) (ih others)

/-- A string whose characters may stand as they are. -/
theorem stringText_plain {s : String}
    (plain : ∀ c ∈ s.toList, c ≠ '"' ∧ c ≠ '\\' ∧ ¬ c.toNat < 0x20) :
    StringText ('"' :: (s.toList ++ ['"'])) s := by
  have quoted := StringText.intro (charsText_plain plain)
  rwa [String.ofList_toList] at quoted

theorem charsText_of_takeString {read : List Char} (taken : takeString read text = some (s, rest)) :
    ∃ inside cs, text = inside ++ '"' :: rest ∧ CharsText inside cs ∧
      s = .ofList (read.reverse ++ cs) := by
  fun_induction takeString read text with
  | case1 | case4 | case5 => cases taken
  | case2 read text =>
    cases taken
    exact ⟨[], [], rfl, .nil, by simp⟩
  | case3 read text c after found ih =>
    obtain ⟨part, rfl, escape⟩ := escapeText_of_takeEscape found
    obtain ⟨inside, cs, rfl, chars, rfl⟩ := ih taken
    exact ⟨'\\' :: part ++ inside, c :: cs, by simp, .cons (.escape escape) chars, by simp⟩
  | case6 read c text noQuote noBackslash noControl ih =>
    obtain ⟨inside, cs, rfl, chars, rfl⟩ := ih taken
    exact ⟨[c] ++ inside, c :: cs, rfl, .cons (.plain noQuote noBackslash noControl) chars, by simp⟩

/-! ## The text that is written -/

theorem hexDigit?_digitChar : ∀ n < 16, hexDigit? (Nat.digitChar n) = some n := by decide

theorem charText_stringChar (c : Char) : CharText (stringChar c) c := by
  rw [stringChar]
  split_ifs with quote backslash backspace formFeed lineFeed carriageReturn tab control
  -- seven characters have an escape of their own
  iterate 7
    subst c
    exact .escape (.short (by decide))
  · have high := hexDigit?_digitChar (c.toNat / 16) (by omega)
    have low := hexDigit?_digitChar (c.toNat % 16) (by omega)
    have value : ((16 * 0 + 0) * 16 + c.toNat / 16) * 16 + c.toNat % 16 = c.toNat := by omega
    have zero : hexDigit? '0' = some 0 := rfl
    have digits := HexText.intro zero zero high low
    rw [value] at digits
    have escape := EscapeText.code digits (.inl (by omega))
    rw [Char.ofNat_toNat] at escape
    exact .escape escape
  · exact .plain quote backslash control

/-- The text of a string is in the grammar. -/
theorem stringText_stringChars (s : String) : StringText (stringChars s) s := by
  have chars (cs : List Char) : CharsText (cs.flatMap stringChar) cs := by
    induction cs with
    | nil => exact .nil
    | cons c cs ih => exact .cons (charText_stringChar c) ih
  have quoted := StringText.intro (chars s.toList)
  rw [String.ofList_toList] at quoted
  simpa [stringChars] using quoted

/-! ## The text of a number is what `takeNumber` takes -/

theorem NumberText.isNumberText (h : NumberText part json) : IsNumberText part := by
  cases h with
  | positive valid exponent => exact valid.isNumberText_text exponent
  | negative valid exponent =>
    refine ⟨List.cons_ne_nil _ _, ?_⟩
    exact List.forall_mem_cons.mpr ⟨by decide, (valid.isNumberText_text exponent).chars⟩

theorem NumberText.takeNumber_eq (h : NumberText part json) (ends : EndsNumber rest) :
    takeNumber (part ++ rest) = some (json, rest) := by
  cases h with
  | @positive p part json valid exponent value =>
    have taken := takeUnsigned_text false valid exponent ends
    rw [value] at taken
    rw [List.append_assoc, List.append_assoc, takeNumber, taken]
    · rfl
    · intro tail same
      obtain ⟨c, cs, digits⟩ := List.exists_cons_of_ne_nil valid.nonempty
      rw [digits, List.cons_append] at same
      have digit := valid.digits c (digits ▸ List.mem_cons_self)
      cases same
      cases digit
  | @negative p part json valid exponent value =>
    have taken := takeUnsigned_text true valid exponent ends
    rw [value] at taken
    rw [List.cons_append, List.append_assoc, List.append_assoc, takeNumber, taken]
    rfl

theorem signText_takeSign (text : List Char) :
    ∃ sign, text = sign ++ (takeSign text).2 ∧ SignText sign (takeSign text).1 := by
  fun_cases takeSign text with
  | case1 => exact ⟨['-'], rfl, .minus⟩
  | case2 => exact ⟨['+'], rfl, .plus⟩
  | case3 => exact ⟨[], rfl, .missing⟩

theorem exponentText_of_takeExponent {exponent? : Option Int}
    (taken : takeExponent text = some (exponent?, rest)) :
    ∃ part, text = part ++ rest ∧ ExponentText part exponent? := by
  have marked {mark : Char} {text : List Char} {n : Int} (isMark : mark = 'e' ∨ mark = 'E')
      (signed : takeSigned text = some (n, rest)) :
      ∃ part, mark :: text = part ++ rest ∧ ExponentText part (some n) := by
    simp only [takeSigned] at signed
    split at signed
    next => cases signed
    next some =>
      cases signed
      obtain ⟨sign, split, isSign⟩ := signText_takeSign text
      have nonempty : (takeSign text).2.takeWhile Char.isDigit ≠ [] := by simpa using some
      refine ⟨_, ?_, .digits isMark isSign nonempty fun c member => List.mem_takeWhile_imp member⟩
      rw [List.cons_append, List.append_assoc, List.takeWhile_append_dropWhile, ← split]
  revert taken
  fun_cases takeExponent text with
  | case1 text =>
    intro taken
    obtain ⟨⟨n, after⟩, signed, same⟩ := Option.map_eq_some_iff.mp taken
    cases same
    exact marked (.inl rfl) signed
  | case2 text =>
    intro taken
    obtain ⟨⟨n, after⟩, signed, same⟩ := Option.map_eq_some_iff.mp taken
    cases same
    exact marked (.inr rfl) signed
  | case3 =>
    intro taken
    cases taken
    exact ⟨[], rfl, .missing⟩

theorem fraction_of_takeFraction {fraction? : Option (List Char)}
    (taken : takeFraction text = some (fraction?, rest)) :
    text = fractionChars fraction? ++ rest ∧
      ∀ ds ∈ fraction?, ds ≠ [] ∧ ∀ c ∈ ds, c.isDigit = true := by
  revert taken
  fun_cases takeFraction text with
  | case1 =>
    intro taken
    cases taken
  | case2 text digits some =>
    intro taken
    cases taken
    refine ⟨?_, ?_⟩
    · rw [fractionChars, List.cons_append, List.takeWhile_append_dropWhile]
    · rintro ds ⟨⟩
      exact ⟨by simpa using some, fun c member => List.mem_takeWhile_imp member⟩
  | case3 =>
    intro taken
    cases taken
    exact ⟨rfl, fun ds impossible => by cases impossible⟩

/-- The parts that a number is taken apart into. -/
theorem exists_parts_of_takeUnsigned {negative : Bool}
    (taken : takeUnsigned negative text = some (json, rest)) :
    ∃ (p : Parts) (part : List Char), text = p.whole ++ (fractionChars p.fraction? ++ (part ++ rest)) ∧
      p.Valid ∧ ExponentText part p.exponent? ∧
      ofParts negative p.whole p.fraction? p.exponent? = some json := by
  simp only [takeUnsigned] at taken
  split at taken
  next => cases taken
  next digits =>
    split at taken
    next => cases taken
    next fraction? afterFraction foundFraction =>
      split at taken
      next => cases taken
      next exponent? after foundExponent =>
        obtain ⟨value, read, same⟩ := Option.map_eq_some_iff.mp taken
        cases same
        obtain ⟨split, fraction⟩ := fraction_of_takeFraction foundFraction
        obtain ⟨part, rfl, exponent⟩ := exponentText_of_takeExponent foundExponent
        refine ⟨⟨text.takeWhile Char.isDigit, fraction?, exponent?⟩, part, ?_, ?_, exponent, read⟩
        · rw [← split, List.takeWhile_append_dropWhile]
        · simp only [Bool.or_eq_true, Bool.and_eq_true, beq_iff_eq, bne_iff_ne, not_or, not_and,
            not_not, List.isEmpty_iff] at digits
          exact ⟨digits.1, fun c member => List.mem_takeWhile_imp member, digits.2, fraction⟩

theorem numberText_of_takeNumber (taken : takeNumber text = some (json, rest)) :
    ∃ part, text = part ++ rest ∧ NumberText part json := by
  rw [takeNumber.eq_def] at taken
  split at taken
  next text =>
    obtain ⟨p, part, rfl, valid, exponent, value⟩ := exists_parts_of_takeUnsigned taken
    exact ⟨_, by simp, .negative valid exponent value⟩
  next =>
    obtain ⟨p, part, rfl, valid, exponent, value⟩ := exists_parts_of_takeUnsigned taken
    exact ⟨_, by simp, .positive valid exponent value⟩

/-! ## Tokens -/

/-- The text of a token. -/
inductive TokenText : List Char → Token → Prop where
  | openBrace : TokenText ['\x7b'] .openBrace
  | closeBrace : TokenText ['\x7d'] .closeBrace
  | openBracket : TokenText ['['] .openBracket
  | closeBracket : TokenText [']'] .closeBracket
  | comma : TokenText [','] .comma
  | colon : TokenText [':'] .colon
  | string {part : List Char} {s : String} (string : StringText part s) : TokenText part (.string s)
  | scalar {part : List Char} {json : Json} (scalar : ScalarText part json) :
      TokenText part (.scalar json)

variable {token : Token}

theorem StringText.takeToken_eq (h : StringText part s) (rest : List Char) :
    takeToken (part ++ rest) = some (.string s, rest) := by
  cases h with
  | intro chars =>
    rw [List.cons_append, List.append_assoc, List.singleton_append, takeToken, chars.takeString_eq]
    rfl

/-- The text of a string is read as the string. -/
theorem takeToken_string (s : String) (rest : List Char) :
    takeToken (stringChars s ++ rest) = some (.string s, rest) :=
  (stringText_stringChars s).takeToken_eq rest

/-- A number is told apart from the other tokens by its first character. -/
theorem takeToken_cons_number {c : Char} (first : isNumberChar c = true) (rest : List Char) :
    takeToken (c :: rest) =
      (takeNumber (c :: rest)).map fun (value, after) => (.scalar value, after) := by
  have scalar : takeScalar (c :: rest) = takeNumber (c :: rest) := by
    rw [takeScalar]
    all_goals
      rintro tail same
      cases same
      cases first
  rw [takeToken, scalar]
  all_goals
    rintro tail same
    cases same
    cases first

theorem takeToken_number (number : IsNumberText text) (rest : List Char) :
    takeToken (text ++ rest) =
      (takeNumber (text ++ rest)).map fun (value, after) => (.scalar value, after) := by
  obtain ⟨c, cs, rfl⟩ := List.exists_cons_of_ne_nil number.nonempty
  exact takeToken_cons_number (number.chars c List.mem_cons_self) (cs ++ rest)

theorem TokenText.takeToken_eq (h : TokenText part token) (ends : EndsNumber rest) :
    takeToken (part ++ rest) = some (token, rest) := by
  cases h with
  | openBrace | closeBrace | openBracket | closeBracket | comma | colon => rfl
  | string string => exact string.takeToken_eq rest
  | scalar scalar =>
    cases scalar with
    | null | true | false => rfl
    | number number => rw [takeToken_number number.isNumberText, number.takeNumber_eq ends]; rfl

theorem isSpace_of_isNumberChar (number : isNumberChar c = true) : isSpace c = false := by
  rw [isSpace, Bool.or_eq_false_iff, Bool.or_eq_false_iff, Bool.or_eq_false_iff]
  simp only [beq_eq_false_iff_ne]
  refine ⟨⟨⟨?_, ?_⟩, ?_⟩, ?_⟩ <;> rintro rfl <;> cases number

/-- A token starts with a character that is no white space. -/
theorem TokenText.head (h : TokenText part token) :
    ∃ c cs, part = c :: cs ∧ isSpace c = false := by
  cases h with
  | openBrace | closeBrace | openBracket | closeBracket | comma | colon =>
    exact ⟨_, _, rfl, by decide⟩
  | string string =>
    cases string with
    | intro => exact ⟨_, _, rfl, by decide⟩
  | scalar scalar =>
    cases scalar with
    | null | true | false => exact ⟨_, _, rfl, by decide⟩
    | number number =>
      obtain ⟨c, cs, rfl⟩ := List.exists_cons_of_ne_nil number.isNumberText.nonempty
      exact ⟨c, cs, rfl, isSpace_of_isNumberChar (number.isNumberText.chars c List.mem_cons_self)⟩

theorem scalarText_of_takeScalar (taken : takeScalar text = some (json, rest)) :
    ∃ part, text = part ++ rest ∧ ScalarText part json := by
  rw [takeScalar.eq_def] at taken
  split at taken
  case h_1 =>
    cases taken
    exact ⟨_, rfl, .null⟩
  case h_2 =>
    cases taken
    exact ⟨_, rfl, .true⟩
  case h_3 =>
    cases taken
    exact ⟨_, rfl, .false⟩
  case h_4 =>
    obtain ⟨part, split, number⟩ := numberText_of_takeNumber taken
    exact ⟨part, split, .number number⟩

/-- Every token that is taken is one of the grammar. -/
theorem tokenText_of_takeToken (taken : takeToken text = some (token, rest)) :
    ∃ part, text = part ++ rest ∧ TokenText part token := by
  rw [takeToken.eq_def] at taken
  split at taken
  case h_7 =>
    obtain ⟨⟨s, after⟩, string, same⟩ := Option.map_eq_some_iff.mp taken
    cases same
    obtain ⟨inside, cs, rfl, chars, rfl⟩ := charsText_of_takeString string
    exact ⟨'"' :: (inside ++ ['"']), by simp, .string (.intro chars)⟩
  case h_8 =>
    obtain ⟨⟨json, after⟩, scalar, same⟩ := Option.map_eq_some_iff.mp taken
    cases same
    obtain ⟨part, split, scalar⟩ := scalarText_of_takeScalar scalar
    exact ⟨part, split, .scalar scalar⟩
  case h_1 => cases taken; exact ⟨_, rfl, .openBrace⟩
  case h_2 => cases taken; exact ⟨_, rfl, .closeBrace⟩
  case h_3 => cases taken; exact ⟨_, rfl, .openBracket⟩
  case h_4 => cases taken; exact ⟨_, rfl, .closeBracket⟩
  case h_5 => cases taken; exact ⟨_, rfl, .comma⟩
  case h_6 => cases taken; exact ⟨_, rfl, .colon⟩

end CallScript.Json
