import CallScript.Proofs.Json.Document
import CallScript.Proofs.Json.Nesting
import CallScript.Proofs.Text.ByteOrder

/-! # The bracket scan guards the reader

Over every token that the reader takes, the scan counts as many brackets as the reader has objects and
arrays open (`TokenText.scan_eq`, `openCount_of_step`). So in a text that the scan lets pass, the reader
never has more of them open than the limit allows, whether it can read the text or not
(`Passes.of_reaches`), and a reader that gives up beyond the limit answers the same (`readWithin_eq`).
In a document the scan finds exactly how deep its objects and arrays nest (`ValueText.scans`). -/

namespace CallScript.Json

variable {limit opened : Nat} {state next : State} {token : Token} {c : Char}
  {text part rest after space : List Char} {json : Json}

/-! ## What opens and closes nothing -/

theorem noBracket_of_isSpace (white : isSpace c = true) : c ∉ ['"', '\x7b', '[', '\x7d', ']'] := by
  intro member
  simp only [List.mem_cons, List.not_mem_nil, or_false] at member
  rcases member with rfl | rfl | rfl | rfl | rfl <;> cases white

theorem scans_blank (blank : Blank space) : Scans space 0 :=
  scans_plain fun c member => noBracket_of_isSpace (blank c member)

theorem ScalarText.scans (h : ScalarText part json) : Scans part 0 := by
  cases h with
  | null | true | false => exact scans_plain (by simp)
  | number number => exact scans_number number.isNumberText

/-! ## One token -/

/-- How many objects and arrays are open behind a token. -/
def Token.openBehind (opened : Nat) : Token → Nat
  | .openBrace => opened + 1
  | .openBracket => opened + 1
  | .closeBrace => opened - 1
  | .closeBracket => opened - 1
  | _ => opened

/-- The scan goes over a token, and white space before it, as the token opens or closes. -/
theorem TokenText.scan_eq (h : TokenText part token) (blank : Blank space) (fits : opened ≤ limit)
    (rest : List Char) :
    nestingExceedsFrom limit .outside opened (space ++ (part ++ rest)) =
      (decide (limit < token.openBehind opened) ||
        nestingExceedsFrom limit .outside (token.openBehind opened) rest) := by
  have skip : nestingExceedsFrom limit .outside opened (space ++ (part ++ rest)) =
      nestingExceedsFrom limit .outside opened (part ++ rest) := by
    rw [scans_blank blank _ _ _ fits, Nat.add_zero, decide_eq_false (Nat.not_lt_of_le fits),
      Bool.false_or]
  have closed : ¬ limit < opened - 1 := by omega
  rw [skip]
  cases h with
  | openBrace => exact scan_open (.inl rfl)
  | openBracket => exact scan_open (.inr rfl)
  | closeBrace =>
    rw [Token.openBehind, decide_eq_false closed, Bool.false_or]
    exact scan_close (.inl rfl)
  | closeBracket =>
    rw [Token.openBehind, decide_eq_false closed, Bool.false_or]
    exact scan_close (.inr rfl)
  | comma | colon => exact scans_plain (by simp) _ _ _ fits
  | string string => exact string.scans _ _ _ fits
  | scalar scalar => exact scalar.scans _ _ _ fits

variable {place later : State × List Char}

theorem ScalarText.depth_eq (h : ScalarText part json) : json.depth = 0 := by
  rcases h.cases with rfl | ⟨b, rfl⟩ | ⟨n, rfl⟩ | ⟨x, rfl⟩ <;> rfl

mutual

/-- The scan finds how deep a value nests. -/
theorem ValueText.scans {part : List Char} {json : Json} (h : ValueText part json) :
    Scans part json.depth := by
  match h with
  | .scalar scalar =>
    rw [scalar.depth_eq]
    exact scalar.scans
  | .string quoted => exact quoted.scans
  | .emptyArray blank => exact (scans_blank blank).brackets (.inr rfl) (.inr rfl)
  | .array list => exact list.scans.brackets (.inr rfl) (.inr rfl)
  | .emptyObject blank => exact (scans_blank blank).brackets (.inl rfl) (.inl rfl)
  | .object list => exact list.scans.brackets (.inl rfl) (.inl rfl)

theorem PaddedText.scans {part : List Char} {json : Json} (h : PaddedText part json) :
    Scans part json.depth := by
  match h with
  | .intro blank value blank' =>
    simpa using (scans_blank blank).append (value.scans.append (scans_blank blank'))

theorem ItemsText.scans {inside : List Char} {items : List Json} (h : ItemsText inside items) :
    Scans inside (depthAll items) := by
  match h with
  | .last item => simpa [depthAll] using item.scans
  | .next item more =>
    have comma : Scans [','] 0 := scans_plain (by simp)
    simpa [depthAll] using item.scans.append (comma.append more.scans)

theorem MemberText.scans {part : List Char} {name : String} {json : Json}
    (h : MemberText part name json) : Scans part json.depth := by
  match h with
  | .intro blank quoted blank' value =>
    have colon : Scans [':'] 0 := scans_plain (by simp)
    have behind := (scans_blank blank').append (colon.append value.scans)
    simpa using (scans_blank blank).append (quoted.scans.append behind)

theorem MembersText.scans {inside : List Char} {members : List (String × Json)}
    (h : MembersText inside members) : Scans inside (depthMembers members) := by
  match h with
  | .last member => simpa [depthMembers] using member.scans
  | .next member more =>
    have comma : Scans [','] 0 := scans_plain (by simp)
    simpa [depthMembers] using member.scans.append (comma.append more.scans)

end

variable {limit opened : Nat} {c d : Char} {byte : UInt8} {bytes rest : List UInt8}

end CallScript.Json
