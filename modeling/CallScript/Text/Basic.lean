/-!
# Texts

What the other modules ask of texts: whether a character belongs to a set that is given by ranges
of code points, white space above all; the size of a text in UTF-8, in which a number of bytes
cuts it into two; and lists as they are written, between a comma and a space.
-/

namespace CallScript.Text

/-- Whether a character lies in one of the ranges, ends included. -/
def isWithin (ranges : List (Nat × Nat)) (c : Char) : Bool :=
  ranges.any fun (first, last) => first ≤ c.toNat && c.toNat ≤ last

/-! ## White space -/

/-- The ranges of the property `White_Space`. -/
def blankRanges : List (Nat × Nat) :=
  [(0x9, 0xD), (0x20, 0x20), (0x85, 0x85), (0xA0, 0xA0), (0x1680, 0x1680), (0x2000, 0x200A),
    (0x2028, 0x2029), (0x202F, 0x202F), (0x205F, 0x205F), (0x3000, 0x3000)]

def isBlank (c : Char) : Bool :=
  isWithin blankRanges c

def trimBlank (text : List Char) : List Char :=
  ((text.dropWhile isBlank).reverse.dropWhile isBlank).reverse

/-! ## Bytes -/

/-- The size of a text in UTF-8. -/
def byteSize : List Char → Nat
  | [] => 0
  | c :: cs => c.utf8Size + byteSize cs

/-- The number of leading characters whose UTF-8 encodings fit into `bytes`. -/
def charsWithin : (bytes : Nat) → List Char → Nat
  | _, [] => 0
  | bytes, c :: cs =>
    if c.utf8Size ≤ bytes then 1 + charsWithin (bytes - c.utf8Size) cs else 0

/-- A text without its first `bytes` bytes; a character that starts among them goes as a whole. -/
def dropBytes : (bytes : Nat) → List Char → List Char
  | _, [] => []
  | bytes, c :: cs => if bytes = 0 then c :: cs else dropBytes (bytes - c.utf8Size) cs

/-! ## Lists -/

/-- The items with a comma and a space between neighbours. -/
def commaSeparated (items : List String) : String :=
  ", ".intercalate items

def bracketed (items : List String) : String :=
  "[" ++ commaSeparated items ++ "]"

end CallScript.Text
