import CallScript.Proofs.Source.Remainder

/-! # Argument lists behind an operator

The reader carries the operator of a chain along and never looks at it. A `Place` is a state of the
machine in which this operator is left open; whatever is put in, the machine goes on to the same
place, fails in the same way, or stops behind the same lists (`Place.step_uniform`), and so does a
whole run (`Place.run_uniform`). Reading an expression is reading its atom and then the lists behind
it (`parseCalls_uniform`). -/

namespace CallScript.Source

/-- Where the machine is while it reads the argument lists behind an operator: behind those that are
complete, or in the next one, which is `depth` levels deep and has got `args`. The stack of `inner` is
the part of the stack above this list. -/
inductive Place where
  | behind (lists : List (List Expr)) (depth : Nat)
  | inside (inner : State) (lists : List (List Expr)) (depth : Nat) (args : List Expr)

/-- The state of the machine at a place behind a given operator. -/
def Place.state (operator : Expr) : Place → State
  | .behind lists depth => .after (operator.callAll lists) depth []
  | .inside (.before stack) lists depth args =>
    .before (stack ++ [⟨operator.callAll lists, depth, args⟩])
  | .inside (.after e nested stack) lists depth args =>
    .after e nested (stack ++ [⟨operator.callAll lists, depth, args⟩])

/-- What the machine does at a place does not depend on the operator. -/
inductive Place.Steps (limit : Nat) (place : Place) (token : Token) : Prop where
  | move (next : Place)
      (moves : ∀ operator, step limit (place.state operator) token = .move (next.state operator))
  | stop (lists : List (List Expr))
      (stops : ∀ operator, step limit (place.state operator) token = .stop (operator.callAll lists))
  | fail (fault : Fault)
      (fails : ∀ operator, step limit (place.state operator) token = .fail fault)

/-- Reading from a place does not depend on the operator: it fails, or it reads the same lists. -/
def Place.Uniform (options : Options) (place : Place) (text : List Char) : Prop :=
  (∃ failure, ∀ operator, run options (place.state operator) text = .error failure) ∨
    ∃ lists rest, ∀ operator,
      run options (place.state operator) text = .ok (operator.callAll lists, rest)

namespace Place

variable {limit : Nat} {options : Options} {lists : List (List Expr)} {depth : Nat}
  {args : List Expr}

theorem steps_behind (token : Token) : (behind lists depth).Steps limit token := by
  cases token with
  | opening =>
    by_cases deep : limit ≤ depth
    · exact .fail .tooDeep fun _ => if_pos deep
    · exact .move (.inside (.before []) lists (depth + 1) []) fun _ => if_neg deep
  | closing | comma | atom | bad => exact .stop lists fun _ => rfl

/-- The list that closes is one more list of the chain. -/
theorem after_close (operator : Expr) :
    State.after (Frame.close ⟨operator.callAll lists, depth, args⟩) depth [] =
      (behind (lists ++ [args.reverse]) depth).state operator := by
  rw [state, Expr.callAll_append]
  rfl

theorem steps_before (stack : List Frame) (token : Token) :
    (inside (.before stack) lists depth args).Steps limit token := by
  cases stack with
  | nil =>
    cases token with
    | atom a => exact .move (.inside (.after a.toExpr depth []) lists depth args) fun _ => rfl
    | closing =>
      exact .move (.behind (lists ++ [args.reverse]) depth) fun operator =>
        congrArg Step.move (after_close operator)
    | opening | comma | bad => exact .fail .unexpected fun _ => rfl
  | cons frame stack =>
    cases token with
    | atom a =>
      exact .move (.inside (.after a.toExpr frame.depth (frame :: stack)) lists depth args)
        fun _ => rfl
    | closing =>
      exact .move (.inside (.after frame.close frame.depth stack) lists depth args) fun _ => rfl
    | opening | comma | bad => exact .fail .unexpected fun _ => rfl

theorem steps_after (e : Expr) (nested : Nat) (stack : List Frame) (token : Token) :
    (inside (.after e nested stack) lists depth args).Steps limit token := by
  cases token with
  | opening =>
    by_cases deep : limit ≤ nested
    · exact .fail .tooDeep fun _ => if_pos deep
    · exact .move (.inside (.before (⟨e, nested + 1, []⟩ :: stack)) lists depth args) fun _ =>
        if_neg deep
  | comma =>
    cases stack with
    | nil => exact .move (.inside (.before []) lists depth (e :: args)) fun _ => rfl
    | cons frame stack =>
      exact .move (.inside (.before (frame.push e :: stack)) lists depth args) fun _ => rfl
  | closing =>
    cases stack with
    | nil =>
      exact .move (.behind (lists ++ [(e :: args).reverse]) depth) fun operator =>
        congrArg Step.move (after_close operator)
    | cons frame stack =>
      exact .move (.inside (.after (frame.push e).close frame.depth stack) lists depth args)
        fun _ => rfl
  | atom | bad => cases stack <;> exact .fail .noSeparator fun _ => rfl

theorem step_uniform (place : Place) (token : Token) : place.Steps limit token := by
  match place with
  | .behind lists depth => exact steps_behind token
  | .inside (.before stack) lists depth args => exact steps_before stack token
  | .inside (.after e nested stack) lists depth args => exact steps_after e nested stack token

theorem finish_uniform (place : Place) :
    (∃ fault, ∀ operator, finish (place.state operator) = .error fault) ∨
      ∃ lists : List (List Expr), ∀ operator,
        finish (place.state operator) = .ok (operator.callAll lists) := by
  match place with
  | .behind lists _ => exact .inr ⟨lists, fun _ => rfl⟩
  | .inside (.before _) _ _ _ => exact .inl ⟨.endOfText, fun _ => rfl⟩
  | .inside (.after _ _ []) _ _ _ => exact .inl ⟨.endOfArguments, fun _ => rfl⟩
  | .inside (.after _ _ (_ :: _)) _ _ _ => exact .inl ⟨.endOfArguments, fun _ => rfl⟩

theorem run_uniform (place : Place) (text : List Char) : place.Uniform options text := by
  -- each token leaves a shorter text to the next place
  induction size : text.length using Nat.strongRecOn generalizing place text with
  | ind n ih =>
    cases found : nextToken options.comments text with
    | none =>
      have layout := nextToken_eq_none_iff.mp found
      rcases place.finish_uniform with ⟨fault, fails⟩ | ⟨lists, ends⟩
      · exact .inl ⟨⟨fault, []⟩, fun operator => by rw [run_of_layout layout, fails]⟩
      · exact .inr ⟨lists, [], fun operator => by rw [run_of_layout layout, ends]⟩
    | some next =>
      obtain ⟨token, start, after⟩ := next
      cases place.step_uniform token with
      | move next moves =>
        have shorter : after.length < n := size ▸ length_nextToken_lt found
        have runs (operator : Expr) : run options (place.state operator) text =
            run options (next.state operator) after := by
          rw [run_of_token found, moves]
        simpa only [Uniform, runs] using ih _ shorter next after rfl
      | stop lists stops =>
        exact .inr ⟨lists, start, fun operator => by rw [run_of_token found, stops]⟩
      | fail fault fails =>
        exact .inl ⟨⟨fault, start⟩, fun operator => by rw [run_of_token found, fails]⟩

end Place

/-! ## Behind an atom -/

/-- Layout, comments and argument lists end every atom. -/
theorem not_isWordChar_of_separates {c : Char}
    (separates : Text.isBlank c = true ∨ c = '#' ∨ c = '(') : isWordChar c = false := by
  rcases separates with blank | rfl | rfl
  · rw [isWordChar, blank]
    rfl
  · decide
  · decide

/-- Reading an expression that starts with an atom goes on behind the atom. -/
theorem run_of_atom {options : Options} {atom text : List Char} {a : Atom}
    (whole : AtomAt atom a []) (ends : ∀ c ∈ text.head?, isWordChar c = false) :
    run options (.before []) (atom ++ text) = run options (.after a.toExpr 0 []) text := by
  have taken : AtomAt (atom ++ text) a text := whole.append fun _ => ends
  exact run_of_step (by simp) .none (.atom taken) rfl

/-- The argument lists at the start of a text are read alike whatever the operator before them is:
there is one error for all operators, or they are the same lists before the same rest, and make one
call each, the first one innermost. Behind an atom that the text does not go on with they are read as
they are in the expression that starts with the atom. -/
theorem parseCalls_uniform (text : String) :
    ((∃ error, ∀ operator, parseCalls operator text = .error error) ∨
      ∃ lists rest, ∀ operator, parseCalls operator text = .ok (operator.callAll lists, rest)) ∧
    ∀ (atom : String) (a : Atom), AtomAt atom.toList a [] →
      (∀ c ∈ text.toList.head?, Text.isBlank c = true ∨ c = '#' ∨ c = '(') →
      ∀ e rest, parseExpression (atom ++ text) = .ok (e, rest) ↔
        parseCalls a.toExpr text = .ok (e, rest) := by
  constructor
  · have uniform : (Place.behind [] 0).Uniform {} text.toList := Place.run_uniform _ _
    rcases uniform with ⟨failure, fails⟩ | ⟨lists, rest, reads⟩
    · refine .inl ⟨failure.toSyntaxError {} text.toList, fun operator => ?_⟩
      have failed : run {} (.after operator 0 []) text.toList = .error failure := fails operator
      rw [parseCalls, parseFrom, failed]
    · refine .inr ⟨lists, .ofList rest, fun operator => ?_⟩
      have read : run {} (.after operator 0 []) text.toList = .ok (operator.callAll lists, rest) :=
        reads operator
      rw [parseCalls, parseFrom, read]
  · intro atom a whole separates e rest
    have ends (c : Char) (first : c ∈ text.toList.head?) : isWordChar c = false :=
      not_isWordChar_of_separates (separates c first)
    rw [parseExpression_eq_ok_iff, parseCalls, parseFrom_eq_ok_iff, String.toList_append,
      run_of_atom whole ends]

/-- Two lists behind an atom, the second one empty, are read for any operator. -/
theorem two_lists_for_any_operator :
    AtomAt "f".toList (.word ['f']) [] ∧
      parseExpression ("f" ++ "(\"x\") () tail") =
        .ok (.call (.call (.word "f") [.literal (.string "x")]) [], "tail") ∧
      ∃ lists rest, ∀ operator,
        parseCalls operator "(\"x\") () tail" = .ok (operator.callAll lists, rest) := by
  have whole : AtomAt "f".toList (.word ['f']) [] := atomAt_of_plainAtom (by cbv)
  obtain ⟨uniform, agrees⟩ := parseCalls_uniform "(\"x\") () tail"
  have read : parseCalls (.word "f") "(\"x\") () tail" =
      .ok (.call (.call (.word "f") [.literal (.string "x")]) [], "tail") :=
    parseFrom_eq_ok_iff.mpr (by cbv)
  have separates : ∀ c ∈ "(\"x\") () tail".toList.head?,
      Text.isBlank c = true ∨ c = '#' ∨ c = '(' := by
    intro c first
    cases first
    exact .inr (.inr rfl)
  refine ⟨whole, (agrees "f" _ whole separates _ _).mpr read, ?_⟩
  rcases uniform with ⟨error, fails⟩ | reads
  · rw [fails] at read
    cases read
  · exact reads

end CallScript.Source
