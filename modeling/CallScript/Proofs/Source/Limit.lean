import CallScript.Proofs.Source.Continuation

/-! # What the depth limit changes

Two runs of the reader under different limits go the same way until the smaller limit is exceeded, and
a limit is not exceeded by fewer opening parentheses than it has levels. So the limit decides whether a
text is too deep and nothing else (`parseWith_limit`). -/

namespace CallScript.Source

variable {comments : Bool} {limit limit' depth : Nat} {state next : State} {token : Token}
  {text start rest : List Char}

/-! ## Two limits -/

/-- Only an opening parenthesis asks for the limit. -/
theorem step_of_le (le : limit ≤ limit') (shallow : step limit state token ≠ .fail .tooDeep) :
    step limit' state token = step limit state token := by
  cases state with
  | before stack => cases stack <;> cases token <;> rfl
  | after e depth stack =>
    cases token with
    | opening =>
      rw [step] at shallow ⊢
      by_cases deep : limit ≤ depth
      · exact absurd (if_pos deep) shallow
      · rw [step, if_neg deep, if_neg (by omega)]
    | closing | comma | atom | bad => cases stack <;> rfl

theorem run_of_le (le : limit ≤ limit') (state : State) (text : List Char) :
    run ⟨comments, limit⟩ state text = run ⟨comments, limit'⟩ state text ∨
      ∃ rest, run ⟨comments, limit⟩ state text = .error ⟨.tooDeep, rest⟩ := by
  -- the induction follows the run under the smaller limit, the other one makes the same steps
  fun_induction run ⟨comments, limit⟩ state text with
  | case1 state text none e ends | case2 state text none fault ends =>
    have other : run ⟨comments, limit'⟩ state text = _ :=
      run_of_layout (nextToken_eq_none_iff.mp none)
    rw [other, ends]
    exact .inl rfl
  | case3 state text token start rest found next moves ih =>
    have other : run ⟨comments, limit'⟩ state text = _ := run_of_token found
    rw [other, step_of_le le (by simp [moves]), moves]
    exact ih
  | case4 state text token start rest found e stops =>
    have other : run ⟨comments, limit'⟩ state text = _ := run_of_token found
    rw [other, step_of_le le (by simp [stops]), stops]
    exact .inl rfl
  | case5 state text token start rest found fault fails =>
    by_cases deep : fault = .tooDeep
    · rw [deep]
      exact .inr ⟨start, rfl⟩
    · have other : run ⟨comments, limit'⟩ state text = _ := run_of_token found
      rw [other, step_of_le le (by simp [fails, deep]), fails]
      exact .inl rfl

theorem runProgram_of_le (le : limit ≤ limit') (text : List Char) :
    runProgram ⟨comments, limit⟩ text = runProgram ⟨comments, limit'⟩ text ∨
      ∃ rest, runProgram ⟨comments, limit⟩ text = .error ⟨.tooDeep, rest⟩ := by
  rw [runProgram, runProgram]
  rcases run_of_le le (.before []) text with same | ⟨rest, deep⟩
  · left
    rw [same]
  · right
    rw [deep]
    exact ⟨rest, rfl⟩

/-! ## Opening parentheses -/

theorem suffix_plainAtom {a : Atom} (h : plainAtom text = some (a, rest)) : rest <:+ text := by
  simp only [plainAtom] at h
  split at h
  next =>
    cases h
    exact List.dropWhile_suffix _
  next =>
    split at h
    next => cases h
    next =>
      cases h
      exact List.dropWhile_suffix _

theorem suffix_takeToken (text : List Char) : (takeToken text).2 <:+ text := by
  fun_cases takeToken text with
  | case1 | case6 | case8 => exact List.nil_suffix
  | case2 | case3 | case4 => exact List.suffix_cons _ _
  | case5 rest c after closed =>
    have tail : after <:+ c :: after := List.suffix_cons _ _
    rw [← closed] at tail
    exact (tail.trans (List.dropWhile_suffix _)).trans (List.suffix_cons _ _)
  | case7 text _ _ _ _ _ a after found => exact suffix_plainAtom found

theorem Layout.suffix (h : Layout comments text rest) : rest <:+ text := by
  induction h with
  | none => exact List.suffix_rfl
  | blank _ _ ih => exact ih.trans (List.suffix_cons _ _)
  | comment _ _ _ _ ih =>
    exact (ih.trans (List.suffix_append _ _)).trans (List.suffix_cons _ _)

/-- How many opening parentheses a token is. -/
def openings (token : Token) : Nat :=
  if token = .opening then 1 else 0

/-- A token takes the parenthesis that it is from those that are left. -/
theorem count_of_nextToken (found : nextToken comments text = some (token, start, rest)) :
    openings token + rest.count '(' ≤ text.count '(' := by
  obtain ⟨c, cs, rfl, starts, layout, taken⟩ := starts_of_nextToken found
  have before := layout.suffix.sublist.count_le '('
  rw [openings]
  split
  next opens =>
    subst opens
    obtain ⟨-, at'⟩ := (nextToken_eq_some_iff (by decide)).mp found
    cases at'
    rw [List.count_cons_self] at before
    omega
  next =>
    have behind := (suffix_takeToken (c :: cs)).sublist.count_le '('
    rw [taken] at behind
    dsimp only at behind
    omega

/-- No argument list that is open or has just been read lies deeper. -/
def State.Within (depth : Nat) : State → Prop
  | .before stack => ∀ frame ∈ stack, frame.depth ≤ depth
  | .after _ own stack => own ≤ depth ∧ ∀ frame ∈ stack, frame.depth ≤ depth

theorem startDepth_le {stack : List Frame} (within : ∀ frame ∈ stack, frame.depth ≤ depth) :
    startDepth stack ≤ depth := by
  cases stack with
  | nil => exact Nat.zero_le depth
  | cons frame stack => exact within frame List.mem_cons_self

/-- Only an opening parenthesis leads deeper, and by one level. -/
theorem State.Within.of_step (within : state.Within depth)
    (moves : step limit state token = .move next) : next.Within (openings token + depth) := by
  revert moves within
  fun_cases step limit state token with
  | case3 | case4 | case8 | case9 => intro _ moves; cases moves
  | case1 stack a =>
    intro within moves
    cases moves
    rw [openings, if_neg (by simp), Nat.zero_add]
    exact ⟨startDepth_le within, within⟩
  | case2 frame stack =>
    intro within moves
    cases moves
    rw [openings, if_neg (by simp), Nat.zero_add]
    exact List.forall_mem_cons.mp within
  | case5 e own stack below =>
    intro within moves
    cases moves
    rw [openings, if_pos rfl, Nat.add_comm]
    refine List.forall_mem_cons.mpr ⟨Nat.succ_le_succ within.1, ?_⟩
    intro frame member
    exact Nat.le_succ_of_le (within.2 frame member)
  | case6 e own frame stack =>
    intro within moves
    cases moves
    rw [openings, if_neg (by simp), Nat.zero_add]
    exact List.forall_mem_cons.mpr (List.forall_mem_cons.mp within.2)
  | case7 e own frame stack =>
    intro within moves
    cases moves
    rw [openings, if_neg (by simp), Nat.zero_add]
    exact List.forall_mem_cons.mp within.2

theorem le_of_tooDeep (within : state.Within depth)
    (fails : step limit state token = .fail .tooDeep) : openings token = 1 ∧ limit ≤ depth := by
  revert fails within
  fun_cases step limit state token with
  | case4 e own stack deep =>
    intro within _
    exact ⟨if_pos rfl, Nat.le_trans deep within.1⟩
  | _ => intro _ fails; cases fails

/-- A text with few enough opening parentheses is not too deep. -/
theorem run_ne_tooDeep {failure : Failure} (within : state.Within depth)
    (few : depth + text.count '(' ≤ limit)
    (h : run ⟨comments, limit⟩ state text = .error failure) : failure.fault ≠ .tooDeep := by
  -- what is deeper after a step has one parenthesis less in front of it
  fun_induction run ⟨comments, limit⟩ state text generalizing depth with
  | case1 | case4 => cases h
  | case2 state text none fault ends =>
    cases h
    revert ends
    fun_cases finish state <;> intro ends <;> cases ends <;> simp
  | case3 state text token start rest found next moves ih =>
    have fewer := count_of_nextToken found
    exact ih (within.of_step moves) (by omega) h
  | case5 state text token start rest found fault fails =>
    cases h
    rintro rfl
    have fewer := count_of_nextToken found
    have deep := le_of_tooDeep within fails
    dsimp only at deep few
    omega

theorem runProgram_ne_tooDeep {failure : Failure} (few : text.count '(' ≤ limit)
    (h : runProgram ⟨comments, limit⟩ text = .error failure) : failure.fault ≠ .tooDeep := by
  rcases failure_of_runProgram h with read | ⟨e, -, trailing, -⟩
  · exact @run_ne_tooDeep _ _ 0 (.before []) _ _ (List.forall_mem_nil _) (by omega) read
  · simp [trailing]

/-! ## Syntax errors -/

/-- Only the message of the depth error names the limit. -/
theorem toSyntaxError_eq {failure : Failure} (shallow : failure.fault ≠ .tooDeep)
    (text : List Char) :
    failure.toSyntaxError ⟨comments, limit⟩ text = failure.toSyntaxError ⟨comments, limit'⟩ text := by
  obtain ⟨fault, rest⟩ := failure
  cases fault with
  | tooDeep => exact absurd rfl shallow
  | unexpected | endOfText | endOfArguments | noSeparator | trailing => rfl

theorem kind_eq_tooDeeplyNested_iff {fault : Fault} :
    fault.kind = .tooDeeplyNested ↔ fault = .tooDeep := by
  cases fault <;> simp [Fault.kind]

/-- Under a smaller limit a text is read as under a larger one, its error included, or it is too deep;
and it is not too deep if the limit is at least the number of its opening parentheses. -/
theorem parseWith_limit (comments : Bool) (text : String) (limit : Nat) :
    (∀ limit', limit ≤ limit' →
      parseWith ⟨comments, limit⟩ text = parseWith ⟨comments, limit'⟩ text ∨
        ∃ error, parseWith ⟨comments, limit⟩ text = .error error ∧
          error.kind = .tooDeeplyNested) ∧
    (text.toList.count '(' ≤ limit →
      ∀ error, parseWith ⟨comments, limit⟩ text = .error error →
        error.kind ≠ .tooDeeplyNested) := by
  constructor
  · intro limit' le
    rcases runProgram_of_le le text.toList with same | ⟨rest, deep⟩
    · cases read : runProgram ⟨comments, limit⟩ text.toList with
      | ok e => exact .inl (by rw [parseWith, parseWith, ← same, read]; rfl)
      | error failure =>
        by_cases deep : failure.fault = .tooDeep
        · exact .inr ⟨_, parseWith_of_runProgram read, kind_eq_tooDeeplyNested_iff.mpr deep⟩
        · left
          rw [parseWith_of_runProgram read, parseWith_of_runProgram (same.symm.trans read),
            toSyntaxError_eq deep]
    · exact .inr ⟨_, parseWith_of_runProgram deep, rfl⟩
  · intro few error failed
    obtain ⟨failure, read, kind, -⟩ := error_of_parseWith failed
    rw [kind, ne_eq, kind_eq_tooDeeplyNested_iff]
    exact runProgram_ne_tooDeep few read

/-- A missing comma is reported under any limit that leaves the two lists before it. -/
theorem missing_comma_under_limit :
    2 ≤ 7 ∧ "f(g(\"(\"), a b)".toList.count '(' ≤ 3 ∧
      parseWith ⟨true, 2⟩ "f(g(\"(\"), a b)" = parseWith ⟨true, 7⟩ "f(g(\"(\"), a b)" ∧
      ∀ error, parseWith ⟨true, 3⟩ "f(g(\"(\"), a b)" = .error error →
        error.kind ≠ .tooDeeplyNested := by
  have read : runProgram ⟨true, 2⟩ "f(g(\"(\"), a b)".toList = .error ⟨.noSeparator, ['b', ')']⟩ := by
    cbv
  refine ⟨by decide, by decide, ?_, (parseWith_limit _ _ 3).2 (by decide)⟩
  rcases (parseWith_limit true "f(g(\"(\"), a b)" 2).1 7 (by decide) with same | ⟨error, deep, kind⟩
  · exact same
  · rw [parseWith_of_runProgram read] at deep
    cases deep
    cases kind

end CallScript.Source
