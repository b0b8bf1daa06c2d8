import CallScript.Json.Nesting
import CallScript.Proofs.Json.Read

/-! # The bracket scan on written values

The scan of the text of a value finds exactly the depth of the value (`nestingExceeds_chars`): strings
are passed over whatever they hold, and numbers hold no brackets. -/

namespace CallScript.Json

mutual

/-- The number of arrays and objects that are open at once in the text of a value. -/
def depth : Json → Nat
  | .array items => 1 + depthAll items
  | .object members => 1 + depthMembers members
  | _ => 0

/-- The largest depth in a list of values. -/
def depthAll : List Json → Nat
  | [] => 0
  | item :: rest => max (depth item) (depthAll rest)

/-- The largest depth of the values of members. -/
def depthMembers : List (String × Json) → Nat
  | [] => 0
  | (_, value) :: rest => max (depth value) (depthMembers rest)

end

/-- The scan leaves a part of a text with as many brackets open as it entered it with, and on the way it
finds whether they nest deeper than the limit. -/
def Scans (part : List Char) (depth : Nat) : Prop :=
  ∀ limit opened rest, opened ≤ limit →
    nestingExceedsFrom limit .outside opened (part ++ rest) =
      (decide (limit < opened + depth) || nestingExceedsFrom limit .outside opened rest)

variable {part other cs : List Char} {limit opened m n : Nat} {c : Char}

theorem Scans.append (first : Scans part m) (second : Scans other n) :
    Scans (part ++ other) (max m n) := by
  intro limit opened rest fits
  have either : limit < opened + max m n ↔ limit < opened + m ∨ limit < opened + n := by omega
  rw [List.append_assoc, first _ _ _ fits, second _ _ _ fits, ← Bool.or_assoc]
  simp only [either, Bool.decide_or]

theorem scan_open (opens : c = '\x7b' ∨ c = '[') :
    nestingExceedsFrom limit .outside opened (c :: cs) =
      (decide (limit < opened + 1) || nestingExceedsFrom limit .outside (opened + 1) cs) := by
  have noQuote : c ≠ '"' := by rintro rfl; simp at opens
  rw [nestingExceedsFrom, if_neg noQuote, if_pos opens]
  split
  next full => simp [full]
  next room => simp [room]

theorem scan_close (closes : c = '\x7d' ∨ c = ']') :
    nestingExceedsFrom limit .outside opened (c :: cs) =
      nestingExceedsFrom limit .outside (opened - 1) cs := by
  have noQuote : c ≠ '"' := by rintro rfl; simp at closes
  have noOpening : ¬ (c = '\x7b' ∨ c = '[') := by
    rcases closes with rfl | rfl <;> decide
  rw [nestingExceedsFrom, if_neg noQuote, if_neg noOpening, if_pos closes]

/-- A pair of brackets around a part adds one level. -/
theorem Scans.brackets {opening closing : Char} (inside : Scans part n)
    (opens : opening = '\x7b' ∨ opening = '[') (closes : closing = '\x7d' ∨ closing = ']') :
    Scans (opening :: part ++ [closing]) (1 + n) := by
  intro limit opened rest fits
  have text : opening :: part ++ [closing] ++ rest = opening :: (part ++ closing :: rest) := by simp
  rw [text, scan_open opens]
  by_cases full : limit < opened + 1
  · have deeper : limit < opened + (1 + n) := by omega
    simp [full, deeper]
  · rw [inside _ _ _ (by omega), scan_close closes, decide_eq_false full, Bool.false_or,
      Nat.add_sub_cancel, Nat.add_assoc]

/-- Characters that open and close nothing. -/
theorem scans_plain (plain : ∀ c ∈ part, c ∉ ['"', '\x7b', '[', '\x7d', ']']) : Scans part 0 := by
  intro limit opened rest fits
  have within : ¬ limit < opened + 0 := by omega
  rw [decide_eq_false within, Bool.false_or]
  induction part with
  | nil => rfl
  | cons c cs ih =>
    obtain ⟨first, others⟩ := List.forall_mem_cons.mp plain
    simp only [List.mem_cons, List.not_mem_nil, or_false, not_or] at first
    obtain ⟨noQuote, noBrace, noBracket, noBrace', noBracket'⟩ := first
    rw [List.cons_append, nestingExceedsFrom, if_neg noQuote, if_neg (by simp [noBrace, noBracket]),
      if_neg (by simp [noBrace', noBracket']), ih others]

/-! ## Strings -/

theorem nestingExceedsFrom_plain {limit opened : Nat} {cs rest : List Char}
    (plain : ∀ d ∈ cs, d ≠ '"' ∧ d ≠ '\\') :
    nestingExceedsFrom limit .inString opened (cs ++ rest) =
      nestingExceedsFrom limit .inString opened rest := by
  induction cs with
  | nil => rfl
  | cons d cs ih =>
    obtain ⟨⟨noQuote, noBackslash⟩, others⟩ := List.forall_mem_cons.mp plain
    rw [List.cons_append, nestingExceedsFrom, if_neg noBackslash, if_neg noQuote, ih others]

theorem noQuote_of_hexDigit {n : Nat} (digit : hexDigit? c = some n) : c ≠ '"' ∧ c ≠ '\\' := by
  constructor <;>
    · rintro rfl
      cases digit

theorem HexText.noQuote {hex : List Char} {n : Nat} (h : HexText hex n) :
    ∀ c ∈ hex, c ≠ '"' ∧ c ≠ '\\' := by
  cases h with
  | intro first second third fourth =>
    simp only [List.forall_mem_cons]
    exact ⟨noQuote_of_hexDigit first, noQuote_of_hexDigit second, noQuote_of_hexDigit third,
      noQuote_of_hexDigit fourth, List.forall_mem_nil _⟩

/-- A character of a string leaves the scan in the string. -/
theorem CharText.scan_eq (h : CharText part c) (rest : List Char) :
    nestingExceedsFrom limit .inString opened (part ++ rest) =
      nestingExceedsFrom limit .inString opened rest := by
  -- behind a backslash the scan passes over one character and is in the string again
  have behind (mark : Char) (more : List Char) :
      nestingExceedsFrom limit .inString opened ('\\' :: mark :: more) =
        nestingExceedsFrom limit .inString opened more := by
    rw [nestingExceedsFrom, if_pos rfl, nestingExceedsFrom]
  cases h with
  | plain noQuote noBackslash => exact nestingExceedsFrom_plain (by simp [noQuote, noBackslash])
  | escape escape =>
    cases escape with
    | short => exact behind _ _
    | code digits =>
      rw [List.cons_append, List.cons_append, behind, nestingExceedsFrom_plain digits.noQuote]
    | pair digits _ digits' =>
      simp only [List.cons_append, List.append_assoc]
      rw [behind, nestingExceedsFrom_plain digits.noQuote, behind,
        nestingExceedsFrom_plain digits'.noQuote]

theorem CharsText.scan_eq {cs : List Char} (h : CharsText part cs) (rest : List Char) :
    nestingExceedsFrom limit .inString opened (part ++ rest) =
      nestingExceedsFrom limit .inString opened rest := by
  induction h with
  | nil => rfl
  | cons first more ih => rw [List.append_assoc, first.scan_eq, ih]

theorem StringText.scans (h : StringText part s) : Scans part 0 := by
  intro limit opened rest fits
  have within : ¬ limit < opened + 0 := by omega
  cases h with
  | intro chars =>
    rw [decide_eq_false within, Bool.false_or, List.cons_append, List.append_assoc,
      nestingExceedsFrom, if_pos rfl, chars.scan_eq]
    rfl

theorem scans_string (s : String) : Scans (stringChars s) 0 :=
  (stringText_stringChars s).scans

/-! ## Values -/

theorem scans_number (number : IsNumberText part) : Scans part 0 := by
  apply scans_plain
  intro c member
  have inside := number.chars c member
  simp only [List.mem_cons, List.not_mem_nil, or_false, not_or]
  refine ⟨?_, ?_, ?_, ?_, ?_⟩ <;> rintro rfl <;> cases inside

theorem scans_separator {α : Type} (more : List α) : Scans (if more.isEmpty then [] else [',']) 0 := by
  split
  next => exact scans_plain (by simp)
  next => exact scans_plain (by simp)

mutual

theorem scans_chars (json : Json) (proper : json.Proper) : Scans json.chars json.depth := by
  match json with
  | .null => exact scans_plain (by simp [chars])
  | .bool true => exact scans_plain (by simp [chars])
  | .bool false => exact scans_plain (by simp [chars])
  | .int n => exact scans_number (isNumberText_int n)
  | .double x => exact scans_number (isNumberText_double proper)
  | .string s => exact scans_string s
  | .array items => exact (scans_itemChars items proper).brackets (.inr rfl) (.inr rfl)
  | .object members => exact (scans_memberChars members proper.1).brackets (.inl rfl) (.inl rfl)

theorem scans_itemChars (items : List Json) (proper : ProperAll items) :
    Scans (itemChars items) (depthAll items) := by
  match items with
  | [] => exact scans_plain (by simp [itemChars])
  | item :: rest =>
    have first := scans_chars item proper.1
    have others := scans_itemChars rest proper.2
    simpa [itemChars, depthAll] using (first.append (scans_separator rest)).append others

theorem scans_memberChars (members : List (String × Json)) (proper : ProperMembers members) :
    Scans (memberChars members) (depthMembers members) := by
  match members with
  | [] => exact scans_plain (by simp [memberChars])
  | (name, value) :: rest =>
    have first := scans_chars value proper.1
    have others := scans_memberChars rest proper.2
    have colon : Scans [':'] 0 := scans_plain (by simp)
    have member := (scans_string name).append (colon.append first)
    simpa [memberChars, depthMembers] using (member.append (scans_separator rest)).append others

end

/-- The text of a value nests as deep as the value. -/
theorem nestingExceeds_chars {json : Json} (proper : json.Proper) (limit : Nat) :
    nestingExceeds json.chars limit = decide (limit < json.depth) := by
  have scan := scans_chars json proper limit 0 [] (Nat.zero_le limit)
  rw [List.append_nil, nestingExceedsFrom, Bool.or_false, Nat.zero_add] at scan
  exact scan

end CallScript.Json
