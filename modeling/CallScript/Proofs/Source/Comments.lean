import CallScript.Proofs.Source.Continuation

/-! # What the comment switch changes

Between tokens an even number of quotes has gone by, so a `#` stands in a string if and only if the
number of quotes before it is odd. Where all of them stand in strings there is no comment to skip, and
both settings read the text alike; and where comments are off a `#` outside of strings is no part of
any program (`parseWith_comments`). -/

namespace CallScript.Source

variable {comments : Bool} {limit : Nat} {state : State} {text piece rest : List Char} {e : Expr}

/-- Every `#` of the text stands behind an odd number of quotes. -/
def HashesQuoted (text : List Char) : Prop :=
  ∀ before behind, text = before ++ '#' :: behind → before.count '"' % 2 = 1

/-! ## Pieces with an even number of quotes -/

/-- An even number of quotes, and every `#` among them. -/
structure Balanced (piece : List Char) : Prop where
  even : piece.count '"' % 2 = 0
  quoted : HashesQuoted piece

theorem Balanced.hashesQuoted_append_iff (balanced : Balanced piece) :
    HashesQuoted (piece ++ rest) ↔ HashesQuoted rest := by
  constructor
  · intro quoted before behind split
    have odd := quoted (piece ++ before) behind (by rw [split, List.append_assoc])
    rw [List.count_append] at odd
    have even := balanced.even
    omega
  · intro quoted before behind split
    rcases List.append_eq_append_iff.mp split with ⟨tail, rfl, hrest⟩ | ⟨tail, hpiece, hbehind⟩
    · have odd := quoted tail behind hrest
      have even := balanced.even
      rw [List.count_append]
      omega
    · cases tail with
      | nil =>
        -- the `#` is the first character of the rest
        have odd := quoted [] behind hbehind.symm
        cases odd
      | cons c tail =>
        cases hbehind
        exact balanced.quoted before tail hpiece

theorem balanced_plain (plain : ∀ c ∈ piece, c ≠ '#' ∧ c ≠ '"') : Balanced piece := by
  constructor
  case even =>
    have none : '"' ∉ piece := fun member => (plain _ member).2 rfl
    rw [List.count_eq_zero.mpr none]
  case quoted =>
    intro before behind split
    have member : '#' ∈ piece := by
      rw [split]
      simp
    exact absurd rfl (plain _ member).1

theorem balanced_string {body : List Char} (closed : '"' ∉ body) :
    Balanced ('"' :: (body ++ ['"'])) := by
  constructor
  case even => simp [List.count_eq_zero.mpr closed]
  case quoted =>
    intro before behind split
    cases before with
    | nil => cases split
    | cons c before =>
      obtain ⟨rfl, inside⟩ := List.cons.inj split
      have never : '"' ∉ before := by
        rcases List.append_eq_append_iff.mp inside with ⟨tail, -, last⟩ | ⟨tail, hbody, -⟩
        · cases tail <;> simp at last
        · intro member
          exact closed (hbody ▸ List.mem_append_left tail member)
      rw [List.count_cons_self, List.count_eq_zero.mpr never]

theorem plain_of_isWordChar {c : Char} (word : isWordChar c = true) : c ≠ '#' ∧ c ≠ '"' :=
  ⟨ne_of_isWordChar word (by decide), ne_of_isWordChar word (by decide)⟩

theorem plain_of_isBlank {c : Char} (blank : Text.isBlank c = true) : c ≠ '#' ∧ c ≠ '"' := by
  constructor <;>
    · rintro rfl
      cases blank

theorem TokenAt.exists_balanced {token : Token} (h : TokenAt text token rest) :
    ∃ piece, text = piece ++ rest ∧ Balanced piece := by
  cases h with
  | opening => exact ⟨['('], rfl, balanced_plain (List.forall_mem_singleton.mpr (by decide))⟩
  | closing => exact ⟨[')'], rfl, balanced_plain (List.forall_mem_singleton.mpr (by decide))⟩
  | comma => exact ⟨[','], rfl, balanced_plain (List.forall_mem_singleton.mpr (by decide))⟩
  | atom atom =>
    cases atom with
    | @string body rest closed => exact ⟨'"' :: (body ++ ['"']), by simp, balanced_string closed⟩
    | number number =>
      refine ⟨_, number.split, balanced_plain ?_⟩
      intro c member
      exact plain_of_isWordChar (isWordChar_of_isDigit (number.digits c member))
    | word _ inside _ _ =>
      exact ⟨_, rfl, balanced_plain fun c member => plain_of_isWordChar (inside c member)⟩

/-- Without comments layout is white space. -/
theorem Layout.exists_balanced (h : Layout false text rest) :
    ∃ piece, text = piece ++ rest ∧ Balanced piece := by
  have blanks : ∃ piece, text = piece ++ rest ∧ ∀ c ∈ piece, Text.isBlank c = true := by
    induction h with
    | none => exact ⟨[], rfl, List.forall_mem_nil _⟩
    | @blank c _ _ hc _ ih =>
      obtain ⟨piece, rfl, inside⟩ := ih
      exact ⟨c :: piece, rfl, List.forall_mem_cons.mpr ⟨hc, inside⟩⟩
    | comment on => cases on
  obtain ⟨piece, split, inside⟩ := blanks
  exact ⟨piece, split, balanced_plain fun c member => plain_of_isBlank (inside c member)⟩

/-- What is quoted in a text is what is quoted behind its first token. -/
theorem hashesQuoted_of_nextToken {start : List Char} {token : Token} (good : token ≠ .bad)
    (found : nextToken false text = some (token, start, rest)) :
    HashesQuoted text ↔ HashesQuoted rest := by
  obtain ⟨layout, taken⟩ := (nextToken_eq_some_iff good).mp found
  obtain ⟨before, rfl, blank⟩ := layout.exists_balanced
  obtain ⟨piece, rfl, balanced⟩ := taken.exists_balanced
  rw [blank.hashesQuoted_append_iff, balanced.hashesQuoted_append_iff]

/-! ## With all hashes in strings -/

/-- Where every `#` stands in a string, no comment starts in front of a token. -/
theorem skipSpace_eq_of_hashesQuoted (quoted : HashesQuoted text) :
    skipSpace true text = skipSpace false text := by
  unfold skipSpace
  induction text with
  | nil => rfl
  | cons c cs ih =>
    rw [skipFrom, skipFrom]
    by_cases blank : Text.isBlank c = true
    · have plain : Balanced [c] :=
        balanced_plain (List.forall_mem_singleton.mpr (plain_of_isBlank blank))
      rw [if_pos blank, if_pos blank, ih (plain.hashesQuoted_append_iff.mp quoted)]
    · have noHash : c ≠ '#' := by
        rintro rfl
        cases quoted [] cs rfl
      rw [if_neg blank, if_neg blank]
      simp [noHash]

theorem run_eq_of_hashesQuoted (quoted : HashesQuoted text) :
    run ⟨true, limit⟩ state text = run ⟨false, limit⟩ state text := by
  have same {text : List Char} (quoted : HashesQuoted text) :
      nextToken true text = nextToken false text := by
    rw [nextToken, skipSpace_eq_of_hashesQuoted quoted, nextToken]
  -- the induction follows the run without comments, the other one makes the same steps
  fun_induction run ⟨false, limit⟩ state text with
  | case1 state text none e ends | case2 state text none fault ends =>
    have other : run ⟨true, limit⟩ state text = _ :=
      run_of_layout (nextToken_eq_none_iff.mp ((same quoted).trans none))
    rw [other, ends]
  | case3 state text token start rest found next moves ih =>
    have other : run ⟨true, limit⟩ state text = _ := run_of_token ((same quoted).trans found)
    rw [other, moves]
    exact ih ((hashesQuoted_of_nextToken (ne_bad_of_move moves) found).mp quoted)
  | case4 state text token start rest found e stops =>
    have other : run ⟨true, limit⟩ state text = _ := run_of_token ((same quoted).trans found)
    rw [other, stops]
  | case5 state text token start rest found fault fails =>
    have other : run ⟨true, limit⟩ state text = _ := run_of_token ((same quoted).trans found)
    rw [other, fails]

/-! ## With comments off -/

/-- What is read to the end of the text consists of white space and tokens. -/
theorem hashesQuoted_of_run (h : run ⟨false, limit⟩ state text = .ok (e, [])) :
    HashesQuoted text := by
  fun_induction run ⟨false, limit⟩ state text with
  | case1 state text none e' ends =>
    obtain ⟨piece, rfl, blank⟩ := (nextToken_eq_none_iff.mp none).exists_balanced
    rw [List.append_nil]
    exact blank.quoted
  | case2 | case5 => cases h
  | case3 state text token start rest found next moves ih =>
    exact (hashesQuoted_of_nextToken (ne_bad_of_move moves) found).mpr (ih h)
  | case4 state text token start rest found e' stops =>
    obtain ⟨c, cs, rfl, -⟩ := starts_of_nextToken found
    cases h

theorem hashesQuoted_of_runProgram (h : runProgram ⟨false, limit⟩ text = .ok e) :
    HashesQuoted text := by
  rw [runProgram] at h
  split at h
  next read => exact hashesQuoted_of_run read
  next => cases h
  next => cases h

/-- Switching comments off changes nothing about a text in which every `#` stands behind an odd number
of quotes, its error included; any other text is no program then. -/
theorem parseWith_comments (text : String) (limit : Nat) :
    (HashesQuoted text.toList → parseWith ⟨true, limit⟩ text = parseWith ⟨false, limit⟩ text) ∧
    (¬ HashesQuoted text.toList → ∃ error, parseWith ⟨false, limit⟩ text = .error error) := by
  constructor
  · intro quoted
    have same : runProgram ⟨true, limit⟩ text.toList = runProgram ⟨false, limit⟩ text.toList := by
      rw [runProgram, runProgram, run_eq_of_hashesQuoted quoted]
    rw [parseWith, parseWith, same]
    rfl
  · intro unquoted
    cases read : parseWith ⟨false, limit⟩ text with
    | ok e => exact absurd (hashesQuoted_of_runProgram (parseWith_eq_runProgram.mp read)) unquoted
    | error error => exact ⟨error, rfl⟩

/-- The quotes tell the `#` in a string from the one behind it. -/
theorem hash_behind_string :
    HashesQuoted "f(\"#\")".toList ∧ ¬ HashesQuoted "f(\"#\") # g".toList ∧
      parseWith ⟨true, 1⟩ "f(\"#\")" = parseWith ⟨false, 1⟩ "f(\"#\")" ∧
      ∃ error, parseWith ⟨false, 1⟩ "f(\"#\") # g" = .error error := by
  have read : runProgram ⟨false, 1⟩ "f(\"#\")".toList =
      .ok (.call (.word "f") [.literal (.string "#")]) := by
    cbv
  have quoted := hashesQuoted_of_runProgram read
  have unquoted : ¬ HashesQuoted "f(\"#\") # g".toList := by
    intro all
    have odd := all ['f', '(', '"', '#', '"', ')', ' '] [' ', 'g'] rfl
    cases odd
  exact ⟨quoted, unquoted, (parseWith_comments _ 1).1 quoted, (parseWith_comments _ 1).2 unquoted⟩

end CallScript.Source
