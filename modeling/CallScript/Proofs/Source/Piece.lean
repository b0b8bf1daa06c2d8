import CallScript.Proofs.Source.Recognition

/-! # Pieces of a text

Layout and tokens are pieces of a text, and whether they end where they do is told by the first
character behind them. So a piece is read alike in front of any text that starts with the same
character, or with one that nothing could go on with (`Layout.exists_piece`,
`TokenAt.exists_piece`). In particular it is read alike at the end of a text, which cuts a text where
the reader stops (`exists_run_consumed`). -/

namespace CallScript.Source

variable {comments : Bool} {options : Options} {text rest : List Char}

theorem Layout.exists_piece (h : Layout comments text rest) :
    ∃ piece, text = piece ++ rest ∧
      ∀ rest', (∀ c ∈ rest'.head?, endsLine c = false → c ∈ rest.head?) →
        Layout comments (piece ++ rest') rest' := by
  induction h with
  | none => exact ⟨[], rfl, fun _ _ => .none⟩
  | @blank c text rest hc _ ih =>
    obtain ⟨piece, rfl, again⟩ := ih
    exact ⟨c :: piece, rfl, fun rest' alike => .blank hc (again rest' alike)⟩
  | @comment body text rest on inside stops _ ih =>
    obtain ⟨piece, rfl, again⟩ := ih
    refine ⟨'#' :: (body ++ piece), by simp, ?_⟩
    intro rest' alike
    have stops' : ∀ c ∈ (piece ++ rest').head?, endsLine c = true := by
      cases piece with
      | cons d ds => exact stops
      | nil =>
        intro c hc
        cases ends : endsLine c with
        | true => rfl
        | false => rw [stops c (alike c hc ends)] at ends; cases ends
    rw [List.cons_append, List.append_assoc]
    exact .comment on inside stops' (again rest' alike)

theorem AtomAt.exists_piece {a : Atom} (h : AtomAt text a rest) :
    ∃ piece, text = piece ++ rest ∧
      ∀ rest', (∀ c ∈ rest'.head?, isWordChar c = true → c ∈ rest.head?) →
        AtomAt (piece ++ rest') a rest' := by
  cases h with
  | @string body rest closed =>
    refine ⟨'"' :: (body ++ ['"']), by simp, ?_⟩
    intro rest' _
    rw [List.cons_append, List.append_assoc]
    exact .string closed
  | @number text digits rest number =>
    refine ⟨digits, number.split, ?_⟩
    intro rest' alike
    refine .number ⟨rfl, number.nonempty, number.digits, ?_⟩
    intro c hc
    cases inside : isWordChar c with
    | false => exact isIdentifierChar_eq_false inside
    | true => exact number.boundary c (alike c hc inside)
  | @word name rest nonempty inside stops noNumber =>
    refine ⟨name, rfl, ?_⟩
    intro rest' alike
    have stops' : ∀ c ∈ rest'.head?, isWordChar c = false := by
      intro c hc
      cases wordChar : isWordChar c with
      | false => rfl
      | true => rw [stops c (alike c hc wordChar)] at wordChar; cases wordChar
    refine .word nonempty inside stops' ?_
    exact (noNumber_append_iff stops').mpr ((noNumber_append_iff stops).mp noNumber)

theorem TokenAt.exists_piece {token : Token} (h : TokenAt text token rest) :
    ∃ c cs, text = c :: cs ++ rest ∧
      ∀ rest', (∀ d ∈ rest'.head?, isWordChar d = true → d ∈ rest.head?) →
        TokenAt (c :: cs ++ rest') token rest' := by
  have split : ∃ piece, text = piece ++ rest ∧
      ∀ rest', (∀ d ∈ rest'.head?, isWordChar d = true → d ∈ rest.head?) →
        TokenAt (piece ++ rest') token rest' := by
    cases h with
    | opening => exact ⟨['('], rfl, fun _ _ => .opening⟩
    | closing => exact ⟨[')'], rfl, fun _ _ => .closing⟩
    | comma => exact ⟨[','], rfl, fun _ _ => .comma⟩
    | atom atom =>
      obtain ⟨piece, split, again⟩ := atom.exists_piece
      exact ⟨piece, split, fun rest' alike => .atom (again rest' alike)⟩
  obtain ⟨piece, rfl, again⟩ := split
  -- a token has a first character of its own
  obtain ⟨c, cs, first, -⟩ := (again [] (by simp)).head true
  rw [List.append_nil] at first
  exact ⟨c, cs, by rw [first], fun rest' alike => first ▸ again rest' alike⟩

/-- A token with the layout in front of it is a piece of the text, too. -/
theorem exists_piece_of_nextToken {start : List Char} {token : Token} (good : token ≠ .bad)
    (found : nextToken comments text = some (token, start, rest)) :
    ∃ piece, text = piece ++ rest ∧
      ∀ rest', (∀ d ∈ rest'.head?, isWordChar d = true → d ∈ rest.head?) →
        ∃ start', nextToken comments (piece ++ rest') = some (token, start', rest') := by
  obtain ⟨layout, taken⟩ := (nextToken_eq_some_iff good).mp found
  obtain ⟨c, cs, rfl, takenAgain⟩ := taken.exists_piece
  obtain ⟨piece, rfl, layoutAgain⟩ := layout.exists_piece
  refine ⟨piece ++ c :: cs, by simp, ?_⟩
  intro rest' alike
  have before : Layout comments (piece ++ (c :: cs ++ rest')) (c :: cs ++ rest') :=
    layoutAgain _ fun d hd _ => hd
  refine ⟨c :: cs ++ rest', (nextToken_eq_some_iff good).mpr ⟨?_, takenAgain rest' alike⟩⟩
  rwa [List.append_assoc]

end CallScript.Source
