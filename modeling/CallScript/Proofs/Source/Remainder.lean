import CallScript.Proofs.Source.Continuation
import CallScript.Proofs.Source.Piece

/-! # Splitting a buffer

Where the reader stops behind an expression, it has consumed a piece of the text that is a program of
its own, and the rest is what a program may not hold behind its expression
(`parseExpression_splits`). -/

namespace CallScript.Source

variable {options : Options} {state : State} {text rest : List Char} {e : Expr}

/-! ## The rest of a run -/

/-- The machine stops behind a whole expression, at a token that does not go on with its chain. -/
theorem of_stop {limit : Nat} {token : Token} (stops : step limit state token = .stop e) :
    finish state = .ok e ∧ token ≠ .opening := by
  obtain ⟨depth, rfl⟩ := state_of_stop stops
  cases token with
  | opening =>
    rw [step] at stops
    split at stops <;> cases stops
  | closing | comma | atom | bad =>
    cases stops
    exact ⟨rfl, Token.noConfusion⟩

/-- What was consumed is read alike without the rest. -/
theorem exists_run_consumed (h : run options state text = .ok (e, rest)) :
    ∃ consumed, text = consumed ++ rest ∧ run options state consumed = .ok (e, []) := by
  -- the induction follows the run; each token and the layout in front of it join what is consumed
  fun_induction run options state text with
  | case1 state text none e ends =>
    cases h
    refine ⟨text, (List.append_nil text).symm, ?_⟩
    rw [run_of_layout (nextToken_eq_none_iff.mp none), ends]
  | case2 | case5 => cases h
  | case3 state text token start after found next moves ih =>
    obtain ⟨consumed, rfl, read⟩ := ih h
    obtain ⟨piece, rfl, again⟩ := exists_piece_of_nextToken (ne_bad_of_move moves) found
    have alike : ∀ d ∈ consumed.head?, isWordChar d = true → d ∈ (consumed ++ rest).head? := by
      intro d hd _
      rw [List.head?_append, Option.mem_def.mp hd]
      rfl
    obtain ⟨start', found'⟩ := again consumed alike
    refine ⟨piece ++ consumed, by rw [List.append_assoc], ?_⟩
    rw [run_of_token found', moves]
    exact read
  | case4 state text token start after found e' stops =>
    cases h
    obtain ⟨piece, rfl, again⟩ := (layout_of_nextToken found).1.exists_piece
    have layout : Layout options.comments piece [] := by
      simpa using again [] (by simp)
    refine ⟨piece, rfl, ?_⟩
    rw [run_of_layout layout, (of_stop stops).1]

/-- The rest starts with a token that cannot go on with a chain. -/
theorem head_of_run (h : run options state text = .ok (e, rest)) :
    ∀ c ∈ rest.head?, startsToken options.comments c = true ∧ c ≠ '(' := by
  fun_induction run options state text with
  | case1 =>
    cases h
    simp
  | case2 | case5 => cases h
  | case3 state text token start after found next moves ih => exact ih h
  | case4 state text token start after found e' stops =>
    cases h
    obtain ⟨c, cs, rfl, starts, -, taken⟩ := starts_of_nextToken found
    intro d hd
    cases hd
    refine ⟨starts, ?_⟩
    rintro rfl
    cases taken
    exact (of_stop stops).2 rfl

/-- An expression takes at least one character. -/
theorem ne_nil_of_run {stack : List Frame} (h : run options (.before stack) text = .ok (e, rest)) :
    text ≠ [] := by
  rintro rfl
  rw [run_of_layout .none] at h
  cases h

/-! ## Expressions and programs -/

theorem runProgram_of_run (h : run options (.before []) text = .ok (e, rest)) :
    runProgram options text = if rest = [] then .ok e else .error ⟨.trailing, rest⟩ := by
  rw [runProgram, h]
  cases rest with
  | nil => rfl
  | cons c cs => rfl

theorem parseFrom_eq_ok_iff {text rest : String} :
    parseFrom state text = .ok (e, rest) ↔ run {} state text.toList = .ok (e, rest.toList) := by
  rw [parseFrom]
  cases run {} state text.toList with
  | ok result =>
    obtain ⟨e', rest'⟩ := result
    rw [Except.ok.injEq, Except.ok.injEq, Prod.mk.injEq, Prod.mk.injEq, ← String.toList_inj,
      String.toList_ofList]
  | error failure => simp

theorem parseExpression_eq_ok_iff {text rest : String} :
    parseExpression text = .ok (e, rest) ↔
      run {} (.before []) text.toList = .ok (e, rest.toList) :=
  parseFrom_eq_ok_iff

theorem parse_of_parseExpression_error {text : String} {error : SyntaxError}
    (failed : parseExpression text = .error error) : parse text = .error error := by
  rw [parseExpression, parseFrom] at failed
  cases read : run {} (.before []) text.toList with
  | ok result => rw [read] at failed; cases failed
  | error failure =>
    rw [read] at failed
    cases failed
    exact parseWith_of_runProgram (by rw [runProgram, read])

/-- Reading an expression from the front of a text splits the text. What is consumed is not empty and
is a program that is read as the same tree; the rest starts neither with layout nor with an argument
list. The text is a program if nothing is left, and otherwise an error that points at the rest. A
text from which no expression is read is no program, for the same reason. -/
theorem parseExpression_splits (text : String) :
    (∀ e rest, parseExpression text = .ok (e, rest) →
      ∃ consumed, text = consumed ++ rest ∧ rest.length < text.length ∧
        (∀ c ∈ rest.toList.head?, Text.isBlank c = false ∧ c ≠ '#' ∧ c ≠ '(') ∧
        parse consumed = .ok e ∧
        (rest = "" → parse text = .ok e) ∧
        ∀ c ∈ rest.toList.head?, ∃ error, parse text = .error error ∧
          error.kind = .trailingContent ∧ error.found = some (String.singleton c)) ∧
    ∀ error, parseExpression text = .error error → parse text = .error error := by
  constructor
  · intro e rest split
    have read := parseExpression_eq_ok_iff.mp split
    obtain ⟨consumed, whole, again⟩ := exists_run_consumed read
    have program := runProgram_of_run read
    have first := head_of_run read
    have nonempty := ne_nil_of_run again
    have size : text.toList.length = consumed.length + rest.toList.length := by
      rw [whole, List.length_append]
    refine ⟨.ofList consumed, ?_, ?_, ?_, ?_, ?_, ?_⟩
    · rw [← String.toList_inj, String.toList_append, String.toList_ofList, whole]
    · rw [← String.length_toList, ← String.length_toList, size]
      have positive := List.length_pos_iff.mpr nonempty
      omega
    · intro c hc
      obtain ⟨starts, noList⟩ := first c hc
      simp only [startsToken, Bool.and_eq_true, Bool.not_eq_true'] at starts
      exact ⟨starts.1, by simpa using starts.2, noList⟩
    · rw [parse, parseWith_eq_runProgram, String.toList_ofList, runProgram_of_run again]
      rfl
    · rintro rfl
      exact parseWith_eq_runProgram.mpr program
    · intro c hc
      have some : rest.toList ≠ [] := by
        rintro empty
        rw [empty] at hc
        cases hc
      rw [if_neg some] at program
      refine ⟨_, parseWith_of_runProgram program, rfl, ?_⟩
      exact map_singleton_eq_iff.mpr hc
  · intro error failed
    exact parse_of_parseExpression_error failed

/-- A comment behind the expression belongs to what is consumed. -/
theorem two_expressions_split :
    parseExpression "f(\"#\")# one\ng" = .ok (.call (.word "f") [.literal (.string "#")], "g") ∧
      ∃ consumed, "f(\"#\")# one\ng" = consumed ++ "g" ∧
        parse consumed = .ok (.call (.word "f") [.literal (.string "#")]) ∧
        ∃ error, parse "f(\"#\")# one\ng" = .error error ∧ error.kind = .trailingContent ∧
          error.found = some "g" := by
  have split : parseExpression "f(\"#\")# one\ng" =
      .ok (.call (.word "f") [.literal (.string "#")], "g") :=
    parseExpression_eq_ok_iff.mpr (by cbv)
  obtain ⟨consumed, whole, -, -, read, -, fault⟩ := (parseExpression_splits _).1 _ _ split
  exact ⟨split, consumed, whole, read, fault 'g' rfl⟩

end CallScript.Source
