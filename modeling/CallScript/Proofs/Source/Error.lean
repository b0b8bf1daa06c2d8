import CallScript.Proofs.Source.Limit
import CallScript.Proofs.Source.Remainder
import CallScript.Proofs.SyntaxError

/-! # Where the reader reports its errors

Whatever the reader leaves is a tail of the text that it was given, and starts with no layout. So an
error that is reported where the reader stops points at a character of the text, or at its end
(`error_points_at_rest`). -/

namespace CallScript.Source

variable {options : Options} {state : State} {text : List Char} {failure : Failure}

/-! ## What a run leaves -/

/-- What a run leaves is a tail of the text. -/
theorem leftover_suffix (options : Options) (state : State) (text : List Char) :
    leftover (run options state text) <:+ text := by
  -- the induction follows the run: layout and a token are taken from the front
  fun_induction run options state text with
  | case1 | case2 => exact List.nil_suffix
  | case3 state text token start after found next moves ih =>
    obtain ⟨layout, taken⟩ := layout_of_nextToken found
    have behind := suffix_takeToken start
    rw [taken] at behind
    exact (ih.trans behind).trans layout.suffix
  | case4 state text token start after found e stops =>
    exact (layout_of_nextToken found).1.suffix
  | case5 state text token start after found fault fails =>
    exact (layout_of_nextToken found).1.suffix

/-- A run stops at a token. -/
theorem head_leftover (options : Options) (state : State) (text : List Char) :
    ∀ c ∈ (leftover (run options state text)).head?, startsToken options.comments c = true := by
  fun_induction run options state text with
  | case1 | case2 => simp [leftover]
  | case3 state text token start after found next moves ih => exact ih
  | case4 state text token start after found | case5 state text token start after found =>
    obtain ⟨c, cs, rfl, starts, -⟩ := starts_of_nextToken found
    intro d hd
    cases hd
    exact starts

theorem isBlank_eq_false {comments : Bool} {c : Char} (h : startsToken comments c = true) :
    Text.isBlank c = false := by
  simp only [startsToken, Bool.and_eq_true, Bool.not_eq_true'] at h
  exact h.1

/-- A place in a text at which the reader reports a fault. -/
structure Failure.IsPlaced (failure : Failure) (text : List Char) : Prop where
  suffix : failure.rest <:+ text
  head : ∀ c ∈ failure.rest.head?, Text.isBlank c = false
  incomplete : failure.fault.kind = .incomplete ↔ failure.rest = []

theorem isPlaced_of_run (h : run options state text = .error failure) : failure.IsPlaced text := by
  have tail := leftover_suffix options state text
  have head := head_leftover options state text
  rw [h] at tail head
  exact ⟨tail, fun c hc => isBlank_eq_false (head c hc), kind_eq_incomplete_iff h⟩

theorem isPlaced_of_runProgram (h : runProgram options text = .error failure) :
    failure.IsPlaced text := by
  obtain read | ⟨e, read, -⟩ := failure_of_runProgram h
  · exact isPlaced_of_run read
  · have tail := leftover_suffix options (.before []) text
    have head := head_leftover options (.before []) text
    rw [read] at tail head
    exact ⟨tail, fun c hc => isBlank_eq_false (head c hc), program_kind_eq_incomplete_iff h⟩

/-! ## Errors -/

/-- Why a text is not read, be it a program or the start of one. -/
theorem exists_failure {text : String} {error : SyntaxError}
    (failed : parseWith options text = .error error ∨ ∃ state, parseFrom state text = .error error) :
    ∃ failure : Failure, failure.IsPlaced text.toList ∧
      ∃ options, error = failure.toSyntaxError options text.toList := by
  obtain program | ⟨state, start⟩ := failed
  · rw [parseWith] at program
    cases read : runProgram options text.toList with
    | ok e => rw [read] at program; cases program
    | error failure =>
      rw [read] at program
      cases program
      exact ⟨failure, isPlaced_of_runProgram read, options, rfl⟩
  · rw [parseFrom] at start
    cases read : run {} state text.toList with
    | ok result => rw [read] at start; cases start
    | error failure =>
      rw [read] at start
      cases start
      exact ⟨failure, isPlaced_of_run read, {}, rfl⟩

/-- An error of reading splits the text at the place that it names. The character found is the first
one of the rest, which is no white space; there is none if the text ends, and just then the error is
called incomplete. The context shows the text around the place. -/
theorem error_points_at_rest (options : Options) (text : String) (error : SyntaxError)
    (failed : parseWith options text = .error error ∨ parseExpression text = .error error ∨
      ∃ operator, parseCalls operator text = .error error) :
    ∃ before rest : List Char, text.toList = before ++ rest ∧
      error.PointsAt before rest ∧
      (error.found = none ↔ rest = []) ∧
      (rest = [] ↔ error.kind = .incomplete) ∧
      ∀ c ∈ rest.head?, Text.isBlank c = false := by
  have failed' : parseWith options text = .error error ∨
      ∃ state, parseFrom state text = .error error := by
    refine failed.imp_right fun start => ?_
    obtain start | ⟨operator, start⟩ := start
    · exact ⟨_, start⟩
    · exact ⟨_, start⟩
  obtain ⟨failure, placed, options, rfl⟩ := exists_failure failed'
  obtain ⟨before, split⟩ := placed.suffix
  rw [← split]
  refine ⟨before, failure.rest, rfl, ?_, ?_, placed.incomplete.symm, placed.head⟩
  · exact SyntaxError.located_pointsAt _ _ _ _
  · show failure.rest.head?.map _ = none ↔ _
    rw [Option.map_eq_none_iff, List.head?_eq_none_iff]

/-- A comma is missing in the second line, and the window starts in the first one. -/
theorem missing_comma_is_shown :
    ∃ error, parseWith ⟨true, 7⟩ "f(\"ein größerer\r\n漢字-Text\" x)" = .error error ∧
      error.found = some "x" ∧ error.context = some "[...] größerer\\n漢字-Text\" x)" ∧
      ∃ before rest, "f(\"ein größerer\r\n漢字-Text\" x)".toList = before ++ rest ∧
        error.PointsAt before rest ∧ rest ≠ [] ∧ error.kind ≠ .incomplete := by
  have read : runProgram ⟨true, 7⟩ "f(\"ein größerer\r\n漢字-Text\" x)".toList =
      .error ⟨.noSeparator, ['x', ')']⟩ := by
    cbv
  have failed := parseWith_of_runProgram read
  have found : ['x', ')'].head?.map (String.singleton ·) = some "x" := rfl
  have context : SyntaxError.contextAt "f(\"ein größerer\r\n漢字-Text\" x)".toList
      (SyntaxError.positionOf "f(\"ein größerer\r\n漢字-Text\" x)".toList ['x', ')']) =
        "[...] größerer\\n漢字-Text\" x)".toList := by
    cbv
  obtain ⟨before, rest, split, points, none, ends, -⟩ := error_points_at_rest _ _ _ (.inl failed)
  have some : rest ≠ [] := fun empty => by cases none.mpr empty
  refine ⟨_, failed, found, ?_, before, rest, split, points, some, fun kind => some (ends.mpr kind)⟩
  rw [Failure.toSyntaxError, SyntaxError.located, context, String.ofList_toList]

end CallScript.Source
