import CallScript.Source.Space
import Mathlib

/-! # Layout

What may stand between two tokens, as a relation between a text and what follows its layout.
`Layout` may stop anywhere, `skipSpace` goes as far as possible: `layout_skipSpace` says that what it
strips is layout, `head_skipSpace` that nothing is left, and `Layout.skipSpace_eq` that layout before a
text makes no difference to it. -/

namespace CallScript.Source

/-- The characters before which a comment ends. -/
def endsLine (c : Char) : Bool :=
  c == '\n' || c == '\r'

/-- `Layout comments text rest`: white space and, where comments are on, comments stand in `text`
before `rest`. -/
inductive Layout (comments : Bool) : List Char → List Char → Prop where
  | none {text : List Char} : Layout comments text text
  | blank {c : Char} {text rest : List Char} (hc : Text.isBlank c = true)
      (following : Layout comments text rest) : Layout comments (c :: text) rest
  | comment {body text rest : List Char} (on : comments = true)
      (inside : ∀ c ∈ body, endsLine c = false) (stops : ∀ c ∈ text.head?, endsLine c = true)
      (following : Layout comments text rest) : Layout comments ('#' :: (body ++ text)) rest

variable {comments : Bool} {text middle rest : List Char}

theorem Layout.trans (first : Layout comments text middle) (second : Layout comments middle rest) :
    Layout comments text rest := by
  induction first with
  | none => exact second
  | blank hc _ ih => exact .blank hc (ih second)
  | comment on inside stops _ ih => exact .comment on inside stops (ih second)

/-! ## Characters of layout -/

theorem isBlank_of_endsLine {c : Char} (h : endsLine c = true) : Text.isBlank c = true := by
  simp only [endsLine, Bool.or_eq_true, beq_iff_eq] at h
  rcases h with rfl | rfl <;> decide

theorem endsLine_eq (c : Char) : (c != '\n' && c != '\r') = !endsLine c := by
  simp [endsLine, bne]

/-! ## Stripping layout -/

/-- The rest of a comment is stripped, and the line end behind it is white space. -/
theorem skipFrom_comment {body : List Char} (inside : ∀ c ∈ body, endsLine c = false)
    (stops : ∀ c ∈ text.head?, endsLine c = true) :
    skipFrom comments true (body ++ text) = skipFrom comments false text := by
  induction body with
  | nil =>
    cases text with
    | nil => rfl
    | cons c cs =>
      have ends := stops c rfl
      simp [skipFrom, endsLine_eq, ends, isBlank_of_endsLine ends]
  | cons c body ih =>
    have hc := inside c List.mem_cons_self
    rw [List.cons_append, skipFrom, endsLine_eq, hc]
    exact ih fun d hd => inside d (List.mem_cons_of_mem _ hd)

theorem Layout.skipSpace_eq (h : Layout comments text rest) :
    skipSpace comments text = skipSpace comments rest := by
  unfold skipSpace
  induction h with
  | none => rfl
  | blank hc _ ih => rw [skipFrom, if_pos hc, ih]
  | @comment body text rest on inside stops _ ih =>
    have notBlank : Text.isBlank '#' = false := by decide
    rw [skipFrom, if_neg (by simp [notBlank]), if_pos (by simp [on]),
      skipFrom_comment inside stops, ih]

/-- Inside a comment the text splits into the rest of the comment and layout after it. -/
theorem layout_skipFrom (comments inComment : Bool) (text : List Char) :
    ∃ body after, text = body ++ after ∧ (∀ c ∈ body, endsLine c = false) ∧
      (inComment = true → ∀ c ∈ after.head?, endsLine c = true) ∧ (inComment = false → body = []) ∧
      Layout comments after (skipFrom comments inComment text) := by
  induction text generalizing inComment with
  | nil => cases inComment <;> exact ⟨[], [], by simp [skipFrom, Layout.none]⟩
  | cons c cs ih =>
    cases inComment with
    | false =>
      refine ⟨[], c :: cs, rfl, by simp, by simp, by simp, ?_⟩
      rw [skipFrom]
      split
      next hc =>
        obtain ⟨body, after, hcs, _, _, nothing, h⟩ := ih false
        rw [nothing rfl, List.nil_append] at hcs
        exact .blank hc (hcs ▸ h)
      next =>
        split
        next hash =>
          obtain ⟨on, rfl⟩ : comments = true ∧ c = '#' := by simpa using hash
          obtain ⟨body, after, hcs, inside, stops, _, h⟩ := ih true
          rw [hcs] at h ⊢
          exact .comment on inside (stops rfl) h
        next => exact .none
    | true =>
      rw [skipFrom, endsLine_eq]
      cases hc : endsLine c with
      | true =>
        obtain ⟨body, after, hcs, _, _, nothing, h⟩ := ih false
        rw [nothing rfl, List.nil_append] at hcs
        refine ⟨[], c :: cs, rfl, by simp, by simp [hc], by simp, ?_⟩
        exact .blank (isBlank_of_endsLine hc) (hcs ▸ h)
      | false =>
        obtain ⟨body, after, hcs, inside, stops, _, h⟩ := ih true
        refine ⟨c :: body, after, by rw [hcs, List.cons_append], ?_, stops, by simp, h⟩
        simpa [hc] using inside

/-- What is stripped is layout. -/
theorem layout_skipSpace (comments : Bool) (text : List Char) :
    Layout comments text (skipSpace comments text) := by
  obtain ⟨body, after, htext, _, _, nothing, h⟩ := layout_skipFrom comments false text
  rw [nothing rfl, List.nil_append] at htext
  exact htext ▸ h

/-- A character that starts a token: no white space, and no comment starts with it. -/
def startsToken (comments : Bool) (c : Char) : Bool :=
  !Text.isBlank c && !(comments && c == '#')

/-- No layout is left. -/
theorem head_skipSpace (comments : Bool) (text : List Char) :
    ∀ c ∈ (skipSpace comments text).head?, startsToken comments c = true := by
  unfold skipSpace
  fun_induction skipFrom comments false text with
  | case1 => simp
  | case2 | case3 | case4 => assumption
  | case5 c cs blank hash =>
    intro d hd
    obtain rfl : c = d := by simpa using hd
    simp only [startsToken, Bool.and_eq_true, Bool.not_eq_true']
    exact ⟨by simpa using blank, by simpa using hash⟩

theorem skipSpace_cons {c : Char} (h : startsToken comments c = true) (cs : List Char) :
    skipSpace comments (c :: cs) = c :: cs := by
  simp only [startsToken, Bool.and_eq_true, Bool.not_eq_true'] at h
  rw [skipSpace, skipFrom, if_neg (by simp [h.1]), if_neg (by simp [h.2])]

end CallScript.Source
