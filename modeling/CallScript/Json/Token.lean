import CallScript.Json.Basic
import CallScript.Text.Run

/-!
# Tokens of JSON

The lexical grammar of JSON: white space is space, tab, line feed and carriage return; strings
hold no control characters, and their escapes name Unicode scalar values, those beyond the basic
plane by a pair of surrogates; numbers have no leading zeros and no sign but a minus, and one that
is too large for a double is refused.
-/

namespace CallScript.Json

def isSpace (c : Char) : Bool :=
  c == ' ' || c == '\t' || c == '\n' || c == '\r'

inductive Token where
  | openBrace
  | closeBrace
  | openBracket
  | closeBracket
  | comma
  | colon
  | string (value : String)
  -- `null`, a truth value or a number.
  | scalar (value : Json)

/-! ## Strings -/

def hexDigit? (c : Char) : Option Nat :=
  if c.isDigit then some (c.toNat - '0'.toNat)
  else if 'a' ≤ c ∧ c ≤ 'f' then some (c.toNat - 'a'.toNat + 10)
  else if 'A' ≤ c ∧ c ≤ 'F' then some (c.toNat - 'A'.toNat + 10)
  else none

/-- The number that the first four characters name in hexadecimal, and the text after them. -/
def takeHex : List Char → Option (Nat × List Char)
  | a :: b :: c :: d :: rest =>
    match hexDigit? a, hexDigit? b, hexDigit? c, hexDigit? d with
    | some a, some b, some c, some d => some (((16 * a + b) * 16 + c) * 16 + d, rest)
    | _, _, _, _ => none
  | _ => none

/-- The character that the text after a backslash and `u` names. A surrogate has to come as the
first of a pair. -/
def takeCodePoint (text : List Char) : Option (Char × List Char) :=
  match takeHex text with
  | none => none
  | some (high, rest) =>
    if 0xDC00 ≤ high ∧ high < 0xE000 then none
    else if 0xD800 ≤ high ∧ high < 0xDC00 then
      match rest with
      | '\\' :: 'u' :: second =>
        match takeHex second with
        | some (low, after) =>
          if 0xDC00 ≤ low ∧ low < 0xE000 then
            some (.ofNat (0x10000 + (high - 0xD800) * 0x400 + (low - 0xDC00)), after)
          else none
        | none => none
      | _ => none
    else some (.ofNat high, rest)

/-- The character that the text after a backslash names. -/
def takeEscape : List Char → Option (Char × List Char)
  | '"' :: rest => some ('"', rest)
  | '\\' :: rest => some ('\\', rest)
  | '/' :: rest => some ('/', rest)
  | 'b' :: rest => some ('\x08', rest)
  | 'f' :: rest => some ('\x0c', rest)
  | 'n' :: rest => some ('\n', rest)
  | 'r' :: rest => some ('\r', rest)
  | 't' :: rest => some ('\t', rest)
  | 'u' :: rest => takeCodePoint rest
  | _ => none

theorem length_takeHex_le {text rest : List Char} {n : Nat} (h : takeHex text = some (n, rest)) :
    rest.length ≤ text.length := by
  unfold takeHex at h
  split at h
  · split at h
    · simp only [Option.some.injEq, Prod.mk.injEq] at h
      obtain ⟨_, rfl⟩ := h
      simp only [List.length_cons]
      omega
    · simp at h
  · simp at h

theorem length_takeCodePoint_le {text rest : List Char} {c : Char}
    (h : takeCodePoint text = some (c, rest)) : rest.length ≤ text.length := by
  unfold takeCodePoint at h
  split at h
  · simp at h
  · next high first hh =>
    have hfirst := length_takeHex_le hh
    split at h
    · simp at h
    · split at h
      · split at h
        · next second =>
          split at h
          · next low after hl =>
            have hsecond := length_takeHex_le hl
            split at h
            · simp only [Option.some.injEq, Prod.mk.injEq] at h
              obtain ⟨_, rfl⟩ := h
              simp only [List.length_cons] at hfirst
              omega
            · simp at h
          · simp at h
        · simp at h
      · simp only [Option.some.injEq, Prod.mk.injEq] at h
        obtain ⟨_, rfl⟩ := h
        exact hfirst

theorem length_takeEscape_le {text rest : List Char} {c : Char}
    (h : takeEscape text = some (c, rest)) : rest.length ≤ text.length := by
  unfold takeEscape at h
  split at h
  case h_9 =>
    exact Nat.le_succ_of_le (length_takeCodePoint_le h)
  case h_10 => simp at h
  all_goals
    simp only [Option.some.injEq, Prod.mk.injEq] at h
    obtain ⟨_, rfl⟩ := h
    simp

/-- The rest of a string after its opening quote, and the text after the closing one; `read` holds
the characters before, the last one first. -/
def takeString (read : List Char) : List Char → Option (String × List Char)
  | [] => none
  | '"' :: rest => some (.ofList read.reverse, rest)
  | '\\' :: rest =>
    match _h : takeEscape rest with
    | some (c, after) => takeString (c :: read) after
    | none => none
  | c :: rest => if c.toNat < 0x20 then none else takeString (c :: read) rest
termination_by text => text.length
decreasing_by
  · have := length_takeEscape_le _h
    simp only [List.length_cons]
    omega
  · simp

/-! ## Numbers

A number keeps as many of its leading digits as fit into 64 bits. Without a fraction and an
exponent it is that integer, if no digit is left over. Otherwise the digits become a double, which
is multiplied with or divided by a power of ten. Each of these steps rounds, so the result can lie
one unit away from the double nearest to the number.
-/

/-- Appends digits to a number as long as it stays below `2 ^ 64`: the number, and the digits that
are left over. -/
def takeFitting (n : Nat) : List Char → Nat × List Char
  | [] => (n, [])
  | c :: cs =>
    let next := Number.natOfDigitsFrom n [c]
    if next < 2 ^ 64 then takeFitting next cs else (n, c :: cs)

/-- The largest exponent of a power of ten that is a finite double. -/
def maxPower : Nat := 308

/-- The double nearest to a power of ten. -/
def powerOfTen (exponent : Nat) : Float :=
  Number.Decimal.toFloat ⟨1, exponent⟩

/-- Multiplies a double with a power of ten, or divides it by one; nothing if it becomes infinite.
A power that is too small for a double is divided by in steps. -/
def scale (x : Float) (exponent : Int) : Option Float :=
  if exponent.natAbs ≤ maxPower then
    if 0 ≤ exponent then
      let y := x * powerOfTen exponent.natAbs
      if y.isFinite then some y else none
    else some (x / powerOfTen exponent.natAbs)
  else if x == 0.0 then some x
  else if _h : 0 ≤ exponent then none
  else scale (x / powerOfTen maxPower) (exponent + maxPower)
termination_by exponent.natAbs
decreasing_by
  simp only [maxPower] at *
  omega

/-- The integer with the given sign. Minus zero and what lies below 64 bits are doubles. -/
def ofInteger (negative : Bool) (n : Nat) : Json :=
  if !negative then .int n
  else if n = 0 ∨ 2 ^ 63 < n then .double (-(Number.ofNat n))
  else .int (-n)

def ofParts (negative : Bool) (whole : List Char) (fraction? : Option (List Char))
    (exponent? : Option Int) : Option Json :=
  let fraction := fraction?.getD []
  let (n, wholeRest) := takeFitting 0 whole
  let (m, fractionRest) := takeFitting n fraction
  if fraction?.isNone && exponent?.isNone && wholeRest.isEmpty then some (ofInteger negative n)
  else
    let shift : Int := wholeRest.length - (fraction.length - fractionRest.length)
    (scale (Number.ofNat m) (exponent?.getD 0 + shift)).map fun x =>
      .double (if negative then -x else x)

/-- Takes the sign off an exponent: whether it is negative, and the text after the sign. -/
def takeSign : List Char → Bool × List Char
  | '-' :: rest => (true, rest)
  | '+' :: rest => (false, rest)
  | text => (false, text)

/-- The digits of an exponent with its sign, and the text after them. -/
def takeSigned (text : List Char) : Option (Int × List Char) :=
  let negative := (takeSign text).1
  let digits := (takeSign text).2.takeWhile Char.isDigit
  let n : Int := Number.natOfDigits digits
  if digits.isEmpty then none
  else some (if negative then -n else n, (takeSign text).2.dropWhile Char.isDigit)

/-- The exponent at the start of a text, if there is one: its value and the text after it. The
outer option is empty if an exponent starts and has no digits. -/
def takeExponent : List Char → Option (Option Int × List Char)
  | 'e' :: rest => (takeSigned rest).map fun (n, after) => (some n, after)
  | 'E' :: rest => (takeSigned rest).map fun (n, after) => (some n, after)
  | text => some (none, text)

/-- The fraction at the start of a text, if there is one: its digits and the text after it. The
outer option is empty if a fraction starts and has no digits. -/
def takeFraction : List Char → Option (Option (List Char) × List Char)
  | '.' :: rest =>
    let digits := rest.takeWhile Char.isDigit
    if digits.isEmpty then none else some (some digits, rest.dropWhile Char.isDigit)
  | text => some (none, text)

/-- The number at the start of a text without a sign, and the text after it. -/
def takeUnsigned (negative : Bool) (text : List Char) : Option (Json × List Char) :=
  let whole := text.takeWhile Char.isDigit
  if whole.isEmpty || (whole.head? == some '0' && whole.length != 1) then none
  else
    match takeFraction (text.dropWhile Char.isDigit) with
    | none => none
    | some (fraction?, afterFraction) =>
      match takeExponent afterFraction with
      | none => none
      | some (exponent?, after) =>
        (ofParts negative whole fraction? exponent?).map fun value => (value, after)

/-- The number at the start of a text, and the text after it. -/
def takeNumber : List Char → Option (Json × List Char)
  | '-' :: rest => takeUnsigned true rest
  | text => takeUnsigned false text

/-! ## Any token -/

/-- The scalar at the start of a text, and the text after it. -/
def takeScalar : List Char → Option (Json × List Char)
  | 'n' :: 'u' :: 'l' :: 'l' :: rest => some (.null, rest)
  | 't' :: 'r' :: 'u' :: 'e' :: rest => some (.bool true, rest)
  | 'f' :: 'a' :: 'l' :: 's' :: 'e' :: rest => some (.bool false, rest)
  | text => takeNumber text

/-- The token at the start of a text, and the text after it. -/
def takeToken : List Char → Option (Token × List Char)
  | '\x7b' :: rest => some (.openBrace, rest)
  | '\x7d' :: rest => some (.closeBrace, rest)
  | '[' :: rest => some (.openBracket, rest)
  | ']' :: rest => some (.closeBracket, rest)
  | ',' :: rest => some (.comma, rest)
  | ':' :: rest => some (.colon, rest)
  | '"' :: rest => (takeString [] rest).map fun (s, after) => (.string s, after)
  | text => (takeScalar text).map fun (v, after) => (.scalar v, after)

/-! ## Every token takes a character -/

theorem length_takeString_lt {read text after : List Char} {s : String}
    (h : takeString read text = some (s, after)) : after.length < text.length := by
  fun_induction takeString read text with
  | case1 => simp at h
  | case2 read rest =>
    simp only [Option.some.injEq, Prod.mk.injEq] at h
    obtain ⟨_, rfl⟩ := h
    simp
  | case3 read rest c next he ih =>
    have := length_takeEscape_le he
    have := ih h
    simp only [List.length_cons]
    omega
  | case4 => simp at h
  | case5 => simp at h
  | case6 read c rest _ _ _ ih =>
    have := ih h
    simp only [List.length_cons]
    omega

theorem length_takeFraction_le {text after : List Char} {fraction? : Option (List Char)}
    (h : takeFraction text = some (fraction?, after)) : after.length ≤ text.length := by
  unfold takeFraction at h
  split at h
  · next rest =>
    simp only at h
    split at h
    · simp at h
    · simp only [Option.some.injEq, Prod.mk.injEq] at h
      obtain ⟨_, rfl⟩ := h
      exact Nat.le_succ_of_le (List.dropWhile_suffix _).length_le
  · simp only [Option.some.injEq, Prod.mk.injEq] at h
    obtain ⟨_, rfl⟩ := h
    exact Nat.le_refl _

theorem length_takeSign_le (text : List Char) : (takeSign text).2.length ≤ text.length := by
  unfold takeSign
  split <;> simp

theorem length_takeSigned_le {text after : List Char} {n : Int}
    (h : takeSigned text = some (n, after)) : after.length ≤ text.length := by
  simp only [takeSigned] at h
  split at h
  · simp at h
  · simp only [Option.some.injEq, Prod.mk.injEq] at h
    obtain ⟨_, rfl⟩ := h
    exact Nat.le_trans (List.dropWhile_suffix _).length_le (length_takeSign_le text)

theorem length_takeExponent_le {text after : List Char} {exponent? : Option Int}
    (h : takeExponent text = some (exponent?, after)) : after.length ≤ text.length := by
  unfold takeExponent at h
  split at h
  case h_3 =>
    simp only [Option.some.injEq, Prod.mk.injEq] at h
    obtain ⟨_, rfl⟩ := h
    exact Nat.le_refl _
  all_goals
    simp only [Option.map_eq_some_iff, Prod.mk.injEq] at h
    obtain ⟨_, hs, _, rfl⟩ := h
    exact Nat.le_succ_of_le (length_takeSigned_le hs)

theorem length_takeUnsigned_lt {negative : Bool} {text after : List Char} {value : Json}
    (h : takeUnsigned negative text = some (value, after)) : after.length < text.length := by
  unfold takeUnsigned at h
  simp only at h
  split at h
  · simp at h
  · next hw =>
    simp only [Bool.or_eq_true, not_or, Bool.not_eq_true] at hw
    split at h
    · simp at h
    · next fraction? afterFraction hf =>
      split at h
      · simp at h
      · next exponent? rest he =>
        simp only [Option.map_eq_some_iff, Prod.mk.injEq] at h
        obtain ⟨_, _, _, rfl⟩ := h
        exact Nat.lt_of_le_of_lt
          (Nat.le_trans (length_takeExponent_le he) (length_takeFraction_le hf))
          (Text.length_dropWhile_lt _ hw.1)

theorem length_takeNumber_lt {text after : List Char} {value : Json}
    (h : takeNumber text = some (value, after)) : after.length < text.length := by
  unfold takeNumber at h
  split at h
  · exact Nat.lt_succ_of_lt (length_takeUnsigned_lt h)
  · exact length_takeUnsigned_lt h

theorem length_takeScalar_lt {text after : List Char} {value : Json}
    (h : takeScalar text = some (value, after)) : after.length < text.length := by
  unfold takeScalar at h
  split at h
  case h_4 => exact length_takeNumber_lt h
  all_goals
    simp only [Option.some.injEq, Prod.mk.injEq] at h
    obtain ⟨_, rfl⟩ := h
    simp only [List.length_cons]
    omega

theorem length_takeToken_lt {text after : List Char} {token : Token}
    (h : takeToken text = some (token, after)) : after.length < text.length := by
  unfold takeToken at h
  split at h
  case h_7 =>
    simp only [Option.map_eq_some_iff, Prod.mk.injEq] at h
    obtain ⟨_, hs, _, rfl⟩ := h
    exact Nat.lt_succ_of_lt (length_takeString_lt hs)
  case h_8 =>
    simp only [Option.map_eq_some_iff, Prod.mk.injEq] at h
    obtain ⟨_, hs, _, rfl⟩ := h
    exact length_takeScalar_lt hs
  all_goals
    simp only [Option.some.injEq, Prod.mk.injEq] at h
    obtain ⟨_, rfl⟩ := h
    simp

end CallScript.Json
