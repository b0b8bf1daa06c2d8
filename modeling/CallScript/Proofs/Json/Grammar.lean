import CallScript.Proofs.Json.Number

/-! # The grammar of JSON

The grammar as relations between a part of a text and what the part stands for, rule by rule as in
RFC 8259. A value is told as it is written, an object with all of its members in the order of the
text; `Json.merged` is what is left of it when of members with one name the last one counts. A text
is a document if it is one value, with white space around it (`Document`). -/

namespace CallScript.Json

/-! ## Strings -/

/-- Four hexadecimal digits and the number that they name. -/
inductive HexText : List Char → Nat → Prop where
  | intro {a b c d : Char} {i j k l : Nat} (first : hexDigit? a = some i)
      (second : hexDigit? b = some j) (third : hexDigit? c = some k) (fourth : hexDigit? d = some l) :
      HexText [a, b, c, d] (((16 * i + j) * 16 + k) * 16 + l)

/-- The characters that may stand alone behind a backslash, with what they name. -/
def shortEscapes : List (Char × Char) :=
  [('"', '"'), ('\\', '\\'), ('/', '/'), ('b', '\x08'), ('f', '\x0c'), ('n', '\n'), ('r', '\r'),
    ('t', '\t')]

/-- What stands behind a backslash and the character that it names. Characters beyond the basic plane
are named by a pair of surrogates, and a surrogate stands nowhere else. -/
inductive EscapeText : List Char → Char → Prop where
  | short {mark c : Char} (named : (mark, c) ∈ shortEscapes) : EscapeText [mark] c
  | code {hex : List Char} {n : Nat} (digits : HexText hex n)
      (noSurrogate : n < 0xD800 ∨ 0xE000 ≤ n) : EscapeText ('u' :: hex) (.ofNat n)
  | pair {first second : List Char} {high low : Nat} (digits : HexText first high)
      (isHigh : 0xD800 ≤ high ∧ high < 0xDC00) (digits' : HexText second low)
      (isLow : 0xDC00 ≤ low ∧ low < 0xE000) :
      EscapeText ('u' :: (first ++ '\\' :: 'u' :: second))
        (.ofNat (0x10000 + (high - 0xD800) * 0x400 + (low - 0xDC00)))

/-- A character of a string. -/
inductive CharText : List Char → Char → Prop where
  | plain {c : Char} (noQuote : c ≠ '"') (noBackslash : c ≠ '\\') (noControl : ¬ c.toNat < 0x20) :
      CharText [c] c
  | escape {part : List Char} {c : Char} (escape : EscapeText part c) : CharText ('\\' :: part) c

/-- Characters of a string one after the other. -/
inductive CharsText : List Char → List Char → Prop where
  | nil : CharsText [] []
  | cons {part others cs : List Char} {c : Char} (first : CharText part c)
      (more : CharsText others cs) : CharsText (part ++ others) (c :: cs)

/-- A string with its quotes. -/
inductive StringText : List Char → String → Prop where
  | intro {inside cs : List Char} (chars : CharsText inside cs) :
      StringText ('"' :: (inside ++ ['"'])) (.ofList cs)

/-! ## Scalars -/

/-- A number: the digits before the point, without leading zeros, those behind it and an exponent, both
of which may be missing, and a minus in front. Its value is what its parts are read as, and there is
none if it is too large for a double. -/
inductive NumberText : List Char → Json → Prop where
  | positive {p : Parts} {part : List Char} {json : Json} (valid : p.Valid)
      (exponent : ExponentText part p.exponent?)
      (value : ofParts false p.whole p.fraction? p.exponent? = some json) :
      NumberText (p.whole ++ (fractionChars p.fraction? ++ part)) json
  | negative {p : Parts} {part : List Char} {json : Json} (valid : p.Valid)
      (exponent : ExponentText part p.exponent?)
      (value : ofParts true p.whole p.fraction? p.exponent? = some json) :
      NumberText ('-' :: (p.whole ++ (fractionChars p.fraction? ++ part))) json

inductive ScalarText : List Char → Json → Prop where
  | null : ScalarText ['n', 'u', 'l', 'l'] .null
  | true : ScalarText ['t', 'r', 'u', 'e'] (.bool true)
  | false : ScalarText ['f', 'a', 'l', 's', 'e'] (.bool false)
  | number {part : List Char} {json : Json} (number : NumberText part json) : ScalarText part json

/-! ## Values -/

/-- White space. -/
def Blank (part : List Char) : Prop :=
  ∀ c ∈ part, isSpace c = true

mutual

/-- A value. -/
inductive ValueText : List Char → Json → Prop where
  | scalar {part : List Char} {json : Json} (scalar : ScalarText part json) : ValueText part json
  | string {part : List Char} {s : String} (string : StringText part s) : ValueText part (.string s)
  | emptyArray {space : List Char} (blank : Blank space) :
      ValueText ('[' :: (space ++ [']'])) (.array [])
  | array {inside : List Char} {items : List Json} (list : ItemsText inside items) :
      ValueText ('[' :: (inside ++ [']'])) (.array items)
  | emptyObject {space : List Char} (blank : Blank space) :
      ValueText ('\x7b' :: (space ++ ['\x7d'])) (.object [])
  | object {inside : List Char} {members : List (String × Json)}
      (list : MembersText inside members) :
      ValueText ('\x7b' :: (inside ++ ['\x7d'])) (.object members)

/-- A value with white space around it. -/
inductive PaddedText : List Char → Json → Prop where
  | intro {before part behind : List Char} {json : Json} (blank : Blank before)
      (value : ValueText part json) (blank' : Blank behind) :
      PaddedText (before ++ (part ++ behind)) json

/-- Values with commas between them, at least one. -/
inductive ItemsText : List Char → List Json → Prop where
  | last {part : List Char} {json : Json} (item : PaddedText part json) : ItemsText part [json]
  | next {part others : List Char} {json : Json} {items : List Json} (item : PaddedText part json)
      (more : ItemsText others items) : ItemsText (part ++ ',' :: others) (json :: items)

/-- A member of an object: a string, a colon and a value. -/
inductive MemberText : List Char → String → Json → Prop where
  | intro {before part behind padded : List Char} {name : String} {json : Json}
      (blank : Blank before) (string : StringText part name) (blank' : Blank behind)
      (value : PaddedText padded json) :
      MemberText (before ++ (part ++ (behind ++ ':' :: padded))) name json

/-- Members with commas between them, at least one. -/
inductive MembersText : List Char → List (String × Json) → Prop where
  | last {part : List Char} {name : String} {json : Json} (member : MemberText part name json) :
      MembersText part [(name, json)]
  | next {part others : List Char} {name : String} {json : Json} {members : List (String × Json)}
      (member : MemberText part name json) (more : MembersText others members) :
      MembersText (part ++ ',' :: others) ((name, json) :: members)

end

/-- A text that is one value and nothing else but white space around it. -/
def Document (text : List Char) (json : Json) : Prop :=
  PaddedText text json

mutual

/-- A value in which of the members with one name the last one counts, with all of them in the order
of their names. -/
def merged : Json → Json
  | .array items => .array (mergedAll items)
  | .object members => .object (mergedInto [] members)
  | json => json

/-- `merged` of every value in a list. -/
def mergedAll : List Json → List Json
  | [] => []
  | item :: rest => merged item :: mergedAll rest

/-- Adds members one after the other to those that were read before them. -/
def mergedInto (read : List (String × Json)) : List (String × Json) → List (String × Json)
  | [] => read
  | (name, value) :: rest => mergedInto (Bindings.put name (merged value) read) rest

end

end CallScript.Json
