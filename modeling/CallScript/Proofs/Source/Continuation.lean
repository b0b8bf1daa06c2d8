import CallScript.Proofs.Source.Recognition

/-! # Text that goes on

Which texts can still become a program when more text follows them. The reader looks one character
ahead at most, so a token that something follows is read alike whatever comes behind that
(`TokenAt.append`), and where the reader stops at a character it stops there for good
(`run_append_ok`, `run_append_error`). Two faults leave a way out. At the end of the text the open
argument lists can be closed (`exists_run_completion`), and a string that was never closed can be
closed first (`exists_run_string_completion`). -/

namespace CallScript.Source

variable {comments : Bool} {text start rest more digits : List Char}

/-! ## Layout and tokens in front of more text -/

/-- The text behind `rest` is no part of what stands before it. -/
theorem head_append_of_stops {p : Char → Prop} (inside : ∀ c ∈ rest.head?, p c)
    (stops : rest = [] → ∀ c ∈ more.head?, p c) : ∀ c ∈ (rest ++ more).head?, p c := by
  cases rest with
  | nil => exact stops rfl
  | cons d ds => exact inside

/-- Layout up to a character of the text is layout whatever follows the text. At the end of the text
a comment may be open. -/
theorem Layout.append (h : Layout comments text rest)
    (stops : rest = [] → ∀ c ∈ more.head?, endsLine c = true) :
    Layout comments (text ++ more) (rest ++ more) := by
  induction h with
  | none => exact .none
  | blank hc _ ih => exact .blank hc (ih stops)
  | @comment body text rest on inside ends following ih =>
    have nothing : text = [] → rest = [] := by
      rintro rfl
      cases following
      rfl
    have ends' := head_append_of_stops ends fun empty => stops (nothing empty)
    rw [List.cons_append, List.append_assoc]
    exact .comment on inside ends' (ih stops)

theorem NumberAt.append (h : NumberAt text digits rest)
    (stops : rest = [] → ∀ c ∈ more.head?, isIdentifierChar c = false) :
    NumberAt (text ++ more) digits (rest ++ more) where
  split := by rw [h.split, List.append_assoc]
  nonempty := h.nonempty
  digits := h.digits
  boundary := head_append_of_stops h.boundary stops

theorem AtomAt.append {a : Atom} (h : AtomAt text a rest)
    (stops : rest = [] → ∀ c ∈ more.head?, isWordChar c = false) :
    AtomAt (text ++ more) a (rest ++ more) := by
  cases h with
  | @string body rest closed =>
    have longer : AtomAt ('"' :: (body ++ '"' :: (rest ++ more))) (.string body) (rest ++ more) :=
      .string closed
    simpa using longer
  | number number =>
    exact .number (number.append fun empty c hc => isIdentifierChar_eq_false (stops empty c hc))
  | @word name rest nonempty inside ends noNumber =>
    have ends' := head_append_of_stops ends stops
    rw [List.append_assoc]
    refine .word nonempty inside ends' ?_
    exact (noNumber_append_iff ends').mpr ((noNumber_append_iff ends).mp noNumber)

theorem TokenAt.append {token : Token} (h : TokenAt text token rest)
    (stops : rest = [] → ∀ c ∈ more.head?, isWordChar c = false) :
    TokenAt (text ++ more) token (rest ++ more) := by
  cases h with
  | opening => exact .opening
  | closing => exact .closing
  | comma => exact .comma
  | atom atom => exact .atom (atom.append stops)

/-! ## The token at a character -/

variable {c : Char} {cs : List Char}

theorem exists_plainAtom (hc : isWordChar c = true) (cs : List Char) :
    ∃ a after, plainAtom (c :: cs) = some (a, after) := by
  by_cases number : ∃ digits after, NumberAt (c :: cs) digits after
  · obtain ⟨digits, after, number⟩ := number
    exact ⟨_, _, plainAtom_of_numberAt number⟩
  · have plain := plainAtom_of_no_number fun digits after found => number ⟨digits, after, found⟩
    rw [if_neg (by simp [hc])] at plain
    exact ⟨_, _, plain⟩

theorem plainAtom_eq_none (hc : isWordChar c = false) (cs : List Char) :
    plainAtom (c :: cs) = none := by
  have noNumber : ∀ digits after, ¬ NumberAt (c :: cs) digits after := by
    intro digits after number
    obtain ⟨d, ds, rfl⟩ := List.exists_cons_of_ne_nil number.nonempty
    obtain ⟨rfl, -⟩ := List.cons.inj number.split
    rw [isWordChar_of_isDigit (number.digits c List.mem_cons_self)] at hc
    cases hc
  rw [plainAtom_of_no_number noNumber, if_pos (by simp [hc])]

theorem exists_takeToken_atom (hc : isWordChar c = true) (cs : List Char) :
    ∃ a, (takeToken (c :: cs)).1 = .atom a := by
  obtain ⟨a, after, plain⟩ := exists_plainAtom hc cs
  exact ⟨a, by rw [takeToken_of_plainAtom hc plain]⟩

/-- A quote starts a string if another quote follows. -/
theorem takeToken_quote (cs : List Char) :
    ('"' ∈ cs ∧ ∃ a, (takeToken ('"' :: cs)).1 = .atom a) ∨
      ('"' ∉ cs ∧ (takeToken ('"' :: cs)).1 = .bad) := by
  rw [takeToken]
  split
  next quote after dropped =>
    refine .inl ⟨?_, _, rfl⟩
    have stops := Text.head_dropWhile (· != '"') cs
    rw [dropped] at stops
    obtain rfl : quote = '"' := by simpa using stops quote rfl
    exact (List.dropWhile_suffix _).subset (dropped ▸ List.mem_cons_self)
  next nothing =>
    refine .inr ⟨?_, rfl⟩
    intro member
    simpa using List.dropWhile_eq_nil_iff.mp nothing '"' member

/-- At any other character the token is the same whatever follows. -/
theorem takeToken_delimiter (word : isWordChar c = false) (quote : c ≠ '"') (cs cs' : List Char) :
    (takeToken (c :: cs)).1 = (takeToken (c :: cs')).1 := by
  by_cases paren : c = '(' ∨ c = ')' ∨ c = ','
  · rcases paren with rfl | rfl | rfl <;> rfl
  · have bad : ∀ tail, (takeToken (c :: tail)).1 = .bad := by
      intro tail
      rw [takeToken, plainAtom_eq_none word]
      all_goals simp_all
    rw [bad, bad]

/-- Text that follows changes nothing about the token at a character but how long an atom is, unless a
string is open there. -/
theorem takeToken_append (c : Char) (cs more : List Char) :
    (takeToken (c :: (cs ++ more))).1 = (takeToken (c :: cs)).1 ∨
      (∃ a a', (takeToken (c :: cs)).1 = .atom a ∧ (takeToken (c :: (cs ++ more))).1 = .atom a') ∨
      (c = '"' ∧ (takeToken (c :: cs)).1 = .bad) := by
  by_cases word : isWordChar c = true
  · obtain ⟨a, ha⟩ := exists_takeToken_atom word cs
    obtain ⟨a', ha'⟩ := exists_takeToken_atom word (cs ++ more)
    exact .inr (.inl ⟨a, a', ha, ha'⟩)
  by_cases quote : c = '"'
  · subst quote
    rcases takeToken_quote cs with ⟨closed, a, ha⟩ | ⟨_, bad⟩
    · rcases takeToken_quote (cs ++ more) with ⟨_, a', ha'⟩ | ⟨never, _⟩
      · exact .inr (.inl ⟨a, a', ha, ha'⟩)
      · exact absurd (List.mem_append_left more closed) never
    · exact .inr (.inr ⟨rfl, bad⟩)
  · left
    exact takeToken_delimiter (by simpa using word) quote _ _

/-! ## One step at a character -/

variable {options : Options} {state : State}

/-- Where no expression can start and where none can go on, all atoms are alike. -/
theorem step_atom {limit : Nat} {a a' : Atom}
    (stays : ∀ next, step limit state (.atom a) ≠ .move next) :
    step limit state (.atom a') = step limit state (.atom a) := by
  cases state with
  | before stack => exact absurd rfl (stays _)
  | after e depth stack => cases stack <;> rfl

theorem step_bad {limit : Nat} {a : Atom} (other : step limit state .bad ≠ .fail .unexpected) :
    step limit state (.atom a) = step limit state .bad := by
  cases state with
  | before stack => cases stack <;> exact absurd rfl other
  | after e depth stack => cases stack <;> rfl

/-- A step that does not move over the token at a character is the same whatever follows, but for the
fault of an open string. -/
theorem step_takeToken_append {limit : Nat} (c : Char) (cs more : List Char)
    (stays : ∀ next, step limit state (takeToken (c :: cs)).1 ≠ .move next)
    (closed : c = '"' → step limit state (takeToken (c :: cs)).1 ≠ .fail .unexpected) :
    step limit state (takeToken (c :: (cs ++ more))).1 = step limit state (takeToken (c :: cs)).1 := by
  rcases takeToken_append c cs more with same | ⟨a, a', ha, ha'⟩ | ⟨quote, bad⟩
  · rw [same]
  · rw [ha] at stays ⊢
    rw [ha']
    exact step_atom stays
  · have other := closed quote
    subst quote
    rw [bad] at other ⊢
    rcases takeToken_quote (cs ++ more) with ⟨_, a, ha⟩ | ⟨_, bad'⟩
    · rw [ha]
      exact step_bad other
    · rw [bad']

/-! ## A character at which the reader stops -/

/-- The text that a run leaves. -/
def leftover : Except Failure (Expr × List Char) → List Char
  | .ok (_, rest) => rest
  | .error failure => failure.rest

/-- The outcome of a run with more text behind the text that it leaves. -/
def withMore (more : List Char) :
    Except Failure (Expr × List Char) → Except Failure (Expr × List Char)
  | .ok (e, rest) => .ok (e, rest ++ more)
  | .error failure => .error ⟨failure.fault, failure.rest ++ more⟩

theorem starts_of_nextToken {token : Token}
    (h : nextToken comments text = some (token, start, rest)) :
    ∃ c cs, start = c :: cs ∧ startsToken comments c = true ∧ Layout comments text (c :: cs) ∧
      takeToken (c :: cs) = (token, rest) := by
  obtain ⟨layout, taken⟩ := layout_of_nextToken h
  have first := head_skipSpace comments text
  simp only [nextToken] at h
  split at h
  next => cases h
  next c cs stripped =>
    cases h
    rw [stripped] at first
    exact ⟨c, cs, rfl, first c rfl, layout, taken⟩

theorem nextToken_of_layout (starts : startsToken comments c = true)
    (layout : Layout comments text (c :: cs)) :
    nextToken comments text = some ((takeToken (c :: cs)).1, c :: cs, (takeToken (c :: cs)).2) := by
  rw [nextToken, layout.skipSpace_eq, skipSpace_cons starts]

theorem run_of_token {token : Token} (found : nextToken options.comments text = some (token, start, rest)) :
    run options state text =
      match step options.maxDepth state token with
      | .move next => run options next rest
      | .stop e => .ok (e, start)
      | .fail fault => .error ⟨fault, start⟩ := by
  rw [run]
  split
  next none => rw [found] at none; cases none
  next same =>
    rw [found] at same
    cases same
    rfl

theorem run_eq_of_layout (layout : Layout options.comments text rest) :
    run options state text = run options state rest := by
  have same := layout.nextToken_eq
  cases found : nextToken options.comments rest with
  | none =>
    rw [run_of_layout (nextToken_eq_none_iff.mp found),
      run_of_layout (nextToken_eq_none_iff.mp (same.trans found))]
  | some token => rw [run_of_token found, run_of_token (same.trans found)]

theorem leftover_run_nil : leftover (run options state []) = [] := by
  rw [run_of_layout .none]
  cases finish state <;> rfl

/-- A step over a token is made alike in front of anything that cannot be part of the token. -/
theorem run_append_of_move {token : Token} {next : State}
    (found : nextToken options.comments text = some (token, start, rest))
    (moves : step options.maxDepth state token = .move next)
    (stops : rest = [] → ∀ c ∈ more.head?, isWordChar c = false) :
    run options state (text ++ more) = run options next (rest ++ more) := by
  obtain ⟨layout, taken⟩ := (nextToken_eq_some_iff (ne_bad_of_move moves)).mp found
  have here : start ≠ [] := by
    rintro rfl
    obtain ⟨c, cs, impossible, -⟩ := taken.head options.comments
    cases impossible
  exact run_of_step (ne_bad_of_move moves) (layout.append fun empty => absurd empty here)
    (taken.append stops) moves

theorem run_append_of_stays {token : Token}
    (found : nextToken options.comments text = some (token, start, rest))
    (stays : ∀ next, step options.maxDepth state token ≠ .move next)
    (closed : start.head? = some '"' → step options.maxDepth state token ≠ .fail .unexpected) :
    run options state (text ++ more) = withMore more (run options state text) := by
  obtain ⟨c, cs, rfl, starts, layout, taken⟩ := starts_of_nextToken found
  obtain rfl : (takeToken (c :: cs)).1 = token := by rw [taken]
  have longer : Layout options.comments (text ++ more) (c :: (cs ++ more)) :=
    layout.append (fun empty => by cases empty)
  have same := step_takeToken_append c cs more stays fun quote => closed (by rw [quote]; rfl)
  rw [run_of_token found, run_of_token (nextToken_of_layout starts longer), same]
  cases stopped : step options.maxDepth state (takeToken (c :: cs)).1 with
  | move next => exact absurd stopped (stays next)
  | stop | fail => rfl

/-- Where the reader stops at a character, it stops there whatever follows the text, unless it stops
at a string that is still open. -/
theorem run_append (inside : leftover (run options state text) ≠ [])
    (closed : ∀ tail, run options state text ≠ .error ⟨.unexpected, '"' :: tail⟩) :
    run options state (text ++ more) = withMore more (run options state text) := by
  -- the induction follows the run over the tokens before the one at which it stops
  fun_induction run options state text with
  | case1 | case2 => exact absurd rfl inside
  | case3 state text token start rest found next moves ih =>
    have behind : rest ≠ [] := by
      rintro rfl
      exact inside leftover_run_nil
    rw [run_append_of_move found moves fun empty => absurd empty behind]
    exact ih inside closed
  | case4 state text token start rest found e stops =>
    have stays : ∀ next, step options.maxDepth state token ≠ .move next := by simp [stops]
    rw [run_append_of_stays found stays (by simp [stops]), run_of_token found, stops]
  | case5 state text token start rest found fault fails =>
    have stays : ∀ next, step options.maxDepth state token ≠ .move next := by simp [fails]
    have notOpen : start.head? = some '"' →
        step options.maxDepth state token ≠ .fail .unexpected := by
      intro quote unexpected
      obtain ⟨c, cs, rfl, -⟩ := starts_of_nextToken found
      rw [fails] at unexpected
      cases unexpected
      cases quote
      exact closed cs rfl
    rw [run_append_of_stays found stays notOpen, run_of_token found, fails]

/-! ## Completing a text -/

/-- The parentheses that close the argument lists of a stack. -/
def closings (stack : List Frame) : List Char :=
  List.replicate stack.length ')'

/-- Behind an expression the open argument lists can be closed. -/
theorem run_closings (e : Expr) (depth : Nat) (stack : List Frame) :
    ∃ e', run options (.after e depth stack) (closings stack) = .ok (e', []) := by
  induction stack generalizing e depth with
  | nil =>
    refine ⟨e, ?_⟩
    rw [closings, List.length_nil, List.replicate_zero, run_of_layout .none]
    rfl
  | cons frame stack ih =>
    obtain ⟨e', read⟩ := ih (frame.push e).close frame.depth
    refine ⟨e', ?_⟩
    rw [← read]
    exact run_of_step (by simp) .none .closing rfl

/-- Before an expression a word can stand, and the open argument lists can be closed behind it. -/
theorem run_word_closings (stack : List Frame) :
    ∃ e', run options (.before stack) ('x' :: closings stack) = .ok (e', []) := by
  have stops : ∀ c ∈ (closings stack).head?, isWordChar c = false := by
    intro c hc
    have paren := List.eq_of_mem_replicate (List.mem_of_mem_head? hc)
    rw [paren]
    decide
  have noNumber : ∀ digits after, ¬ NumberAt ['x'] digits after := by
    intro digits after number
    obtain ⟨d, ds, rfl⟩ := List.exists_cons_of_ne_nil number.nonempty
    obtain ⟨rfl, -⟩ := List.cons.inj number.split
    cases number.digits 'x' List.mem_cons_self
  have word : AtomAt (['x'] ++ closings stack) (.word ['x']) (closings stack) :=
    .word (by simp) (List.forall_mem_singleton.mpr rfl) stops ((noNumber_append_iff stops).mpr noNumber)
  obtain ⟨e', read⟩ := @run_closings options (Atom.word ['x']).toExpr (startDepth stack) stack
  exact ⟨e', (run_of_step (by simp) .none (.atom word) rfl).trans read⟩

/-- A text that ends too early can be completed, from a new line on. -/
theorem exists_run_completion {failure : Failure}
    (h : run options state text = .error failure) (atEnd : failure.rest = []) :
    ∃ more e, run options state (text ++ '\n' :: more) = .ok (e, []) := by
  fun_induction run options state text with
  | case1 | case4 => cases h
  | case2 state text none fault ends =>
    -- the new line ends a comment that may be open
    have line (more : List Char) : Layout options.comments (text ++ '\n' :: more) more :=
      ((nextToken_eq_none_iff.mp none).append (fun _ c hc => by cases hc; rfl)).trans
        (.blank (by decide) .none)
    cases state with
    | before stack =>
      obtain ⟨e, read⟩ := @run_word_closings options stack
      exact ⟨_, e, (run_eq_of_layout (line _)).trans read⟩
    | after e depth stack =>
      obtain ⟨e', read⟩ := @run_closings options e depth stack
      exact ⟨_, e', (run_eq_of_layout (line _)).trans read⟩
  | case3 state text token start rest found next moves ih =>
    obtain ⟨more, e, read⟩ := ih h
    refine ⟨more, e, ?_⟩
    rw [run_append_of_move found moves fun _ c hc => by cases hc; decide]
    exact read
  | case5 state text token start rest found fault fails =>
    obtain ⟨c, cs, rfl, -⟩ := starts_of_nextToken found
    cases h
    cases atEnd

/-- A fault of an open string: an expression is expected, and no other quote follows. -/
theorem open_of_unexpected {limit : Nat} {cs : List Char}
    (fails : step limit state (takeToken ('"' :: cs)).1 = .fail .unexpected) :
    '"' ∉ cs ∧ ∃ stack, state = .before stack := by
  rcases takeToken_quote cs with ⟨_, a, ha⟩ | ⟨never, bad⟩
  · rw [ha] at fails
    cases state with
    | before stack => cases fails
    | after e depth stack => cases stack <;> cases fails
  · refine ⟨never, ?_⟩
    rw [bad] at fails
    cases state with
    | before stack => exact ⟨stack, rfl⟩
    | after e depth stack => cases stack <;> cases fails

/-- A text that ends in an open string can be completed, from the quote on that closes the string. -/
theorem exists_run_string_completion {tail : List Char}
    (h : run options state text = .error ⟨.unexpected, '"' :: tail⟩) :
    ∃ more e, run options state (text ++ '"' :: more) = .ok (e, []) := by
  fun_induction run options state text with
  | case1 | case2 | case4 => cases h
  | case3 state text token start rest found next moves ih =>
    obtain ⟨more, e, read⟩ := ih h
    refine ⟨more, e, ?_⟩
    rw [run_append_of_move found moves fun _ c hc => by cases hc; decide]
    exact read
  | case5 state text token start rest found fault fails =>
    obtain ⟨c, cs, rfl, starts, layout, taken⟩ := starts_of_nextToken found
    cases h
    obtain ⟨never, stack, rfl⟩ := open_of_unexpected (by rw [taken]; exact fails)
    have string : AtomAt ('"' :: (tail ++ '"' :: closings stack)) (.string tail) (closings stack) :=
      .string never
    obtain ⟨e, read⟩ := @run_closings options (Atom.string tail).toExpr (startDepth stack) stack
    refine ⟨closings stack, e, ?_⟩
    rw [run_of_step (by simp) (layout.append fun empty => by cases empty) (.atom string) rfl]
    exact read

/-! ## Which faults are reported where -/

/-- Only what is reported at the end of a text is called incomplete. -/
theorem kind_eq_incomplete_iff {failure : Failure} (h : run options state text = .error failure) :
    failure.fault.kind = .incomplete ↔ failure.rest = [] := by
  fun_induction run options state text with
  | case1 | case4 => cases h
  | case2 state text none fault ends =>
    cases h
    revert ends
    fun_cases finish state <;> intro ends <;> cases ends <;> simp [Fault.kind]
  | case3 state text token start rest found next moves ih => exact ih h
  | case5 state text token start rest found fault fails =>
    obtain ⟨c, cs, rfl, -⟩ := starts_of_nextToken found
    cases h
    revert fails
    fun_cases step options.maxDepth state token <;> intro fails <;> cases fails <;>
      simp [Fault.kind]

/-! ## Programs -/

/-- Why a program is not read: a fault of its expression, or text behind the expression. -/
theorem failure_of_runProgram {failure : Failure} (h : runProgram options text = .error failure) :
    run options (.before []) text = .error failure ∨
      ∃ e, run options (.before []) text = .ok (e, failure.rest) ∧ failure.fault = .trailing ∧
        failure.rest ≠ [] := by
  rw [runProgram] at h
  split at h
  next => cases h
  next e rest nonempty read =>
    cases h
    exact .inr ⟨e, read, rfl, nonempty⟩
  next read =>
    cases h
    exact .inl read

theorem program_kind_eq_incomplete_iff {failure : Failure}
    (h : runProgram options text = .error failure) :
    failure.fault.kind = .incomplete ↔ failure.rest = [] := by
  rcases failure_of_runProgram h with read | ⟨e, -, trailing, nonempty⟩
  · exact kind_eq_incomplete_iff read
  · simp [trailing, nonempty, Fault.kind]

/-- Where a string is open: a quote is reported where an expression has to start. -/
def Failure.AtOpenString (failure : Failure) : Prop :=
  failure.fault.kind = .unexpectedSyntax ∧ failure.rest.head? = some '"'

theorem exists_program_completion {failure : Failure}
    (h : runProgram options text = .error failure)
    (way : failure.rest = [] ∨ failure.AtOpenString) :
    ∃ more e, runProgram options (text ++ more) = .ok e := by
  rcases failure_of_runProgram h with read | ⟨e, -, trailing, nonempty⟩
  · have completed : ∃ more e, run options (.before []) (text ++ more) = .ok (e, []) := by
      rcases way with atEnd | ⟨kind, quote⟩
      · obtain ⟨more, e, read⟩ := exists_run_completion read atEnd
        exact ⟨_, e, read⟩
      · obtain ⟨fault, rest⟩ := failure
        obtain ⟨tail, rfl⟩ : ∃ tail, rest = '"' :: tail := List.head?_eq_some_iff.mp quote
        obtain rfl : fault = .unexpected := by cases fault <;> first | rfl | cases kind
        obtain ⟨more, e, read⟩ := exists_run_string_completion read
        exact ⟨_, e, read⟩
    obtain ⟨more, e, read⟩ := completed
    exact ⟨more, e, by rw [runProgram, read]⟩
  · rcases way with atEnd | ⟨kind, -⟩
    · exact absurd atEnd nonempty
    · rw [trailing] at kind
      cases kind

theorem runProgram_append {failure : Failure} (h : runProgram options text = .error failure)
    (inside : failure.rest ≠ []) (closed : ¬ failure.AtOpenString) :
    runProgram options (text ++ more) = .error ⟨failure.fault, failure.rest ++ more⟩ := by
  have goesOn : run options (.before []) (text ++ more) =
      withMore more (run options (.before []) text) := by
    apply run_append
    · rcases failure_of_runProgram h with read | ⟨e, read, -⟩ <;> rw [read] <;> exact inside
    · intro tail unexpected
      rcases failure_of_runProgram h with read | ⟨e, read, -⟩ <;> rw [read] at unexpected <;>
        cases unexpected
      exact closed ⟨rfl, rfl⟩
  rw [runProgram, goesOn]
  rcases failure_of_runProgram h with read | ⟨e, read, trailing, nonempty⟩
  · rw [read]
    rfl
  · rw [read, trailing, withMore]
    obtain ⟨c, cs, rest⟩ := List.exists_cons_of_ne_nil nonempty
    rw [rest]
    rfl

/-! ## Syntax errors -/

theorem error_of_parseWith {text : String} {error : SyntaxError}
    (h : parseWith options text = .error error) :
    ∃ failure, runProgram options text.toList = .error failure ∧
      error.kind = failure.fault.kind ∧
      error.found = failure.rest.head?.map (String.singleton ·) := by
  rw [parseWith] at h
  cases read : runProgram options text.toList with
  | ok e => rw [read] at h; cases h
  | error failure =>
    rw [read] at h
    cases h
    exact ⟨failure, rfl, rfl, rfl⟩

theorem parseWith_of_runProgram {text : String} {failure : Failure}
    (h : runProgram options text.toList = .error failure) :
    parseWith options text = .error (failure.toSyntaxError options text.toList) := by
  rw [parseWith, h]
  rfl

theorem map_singleton_eq_iff {c? : Option Char} {c : Char} :
    c?.map (String.singleton ·) = some (String.singleton c) ↔ c? = some c := by
  constructor
  · intro h
    obtain ⟨d, rfl, same⟩ := Option.map_eq_some_iff.mp h
    have chars := congrArg String.toList same
    simp only [String.toList_singleton, List.cons.injEq, and_true] at chars
    rw [chars]
  · rintro rfl
    rfl

/-- The kind of a syntax error tells whether more text can help. An incomplete text, and one that ends
in an open string, can be completed. Every other error stays, with its kind and the character found,
whatever text follows. -/
theorem parseWith_append_of_error (options : Options) (text : String) (error : SyntaxError)
    (failed : parseWith options text = .error error) :
    (error.kind = .incomplete → ∃ more e, parseWith options (text ++ more) = .ok e) ∧
    (error.kind = .unexpectedSyntax → error.found = some "\"" →
      ∃ more e, parseWith options (text ++ more) = .ok e) ∧
    (error.kind ≠ .incomplete →
      ¬ (error.kind = .unexpectedSyntax ∧ error.found = some "\"") →
      ∀ more, ∃ error', parseWith options (text ++ more) = .error error' ∧
        error'.kind = error.kind ∧ error'.found = error.found) := by
  obtain ⟨failure, read, kind, found⟩ := error_of_parseWith failed
  have incomplete := program_kind_eq_incomplete_iff read
  have openString : error.kind = .unexpectedSyntax ∧ error.found = some "\"" ↔
      failure.AtOpenString := by
    have quote : String.singleton '"' = "\"" := rfl
    rw [kind, found, ← quote]
    exact and_congr_right fun _ => map_singleton_eq_iff
  have completion (way : failure.rest = [] ∨ failure.AtOpenString) :
      ∃ more e, parseWith options (text ++ more) = .ok e := by
    obtain ⟨more, e, completed⟩ := exists_program_completion read way
    refine ⟨.ofList more, e, parseWith_eq_runProgram.mpr ?_⟩
    rwa [String.toList_append, String.toList_ofList]
  refine ⟨?_, ?_, ?_⟩
  · intro isIncomplete
    rw [kind, incomplete] at isIncomplete
    exact completion (.inl isIncomplete)
  · intro unexpected quote
    exact completion (.inr (openString.mp ⟨unexpected, quote⟩))
  · intro complete closed more
    rw [kind, ne_eq, incomplete] at complete
    rw [openString] at closed
    have stays := @runProgram_append _ more.toList _ _ read complete closed
    rw [← String.toList_append] at stays
    refine ⟨_, parseWith_of_runProgram stays, kind.symm, ?_⟩
    rw [found]
    obtain ⟨c, cs, rest⟩ := List.exists_cons_of_ne_nil complete
    rw [rest]
    rfl

/-- A missing comma is reported at the next argument, whatever stands behind that. -/
theorem missing_comma_stays :
    ∃ error, parseWith {} "f(a, g(\"b\") c" = .error error ∧ error.kind = .expectedSeparator ∧
      error.found = some "c" ∧
      ∀ more, ∃ error', parseWith {} ("f(a, g(\"b\") c" ++ more) = .error error' ∧
        error'.kind = .expectedSeparator ∧ error'.found = some "c" := by
  have read : runProgram {} "f(a, g(\"b\") c".toList = .error ⟨.noSeparator, ['c']⟩ := by cbv
  have failed := parseWith_of_runProgram read
  have found : (['c'].head?.map (String.singleton ·)) = some "c" := rfl
  refine ⟨_, failed, rfl, found, ?_⟩
  exact (parseWith_append_of_error {} _ _ failed).2.2 (by decide) (by rintro ⟨kind, -⟩; cases kind)

end CallScript.Source
