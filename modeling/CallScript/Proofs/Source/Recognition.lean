import CallScript.Proofs.Expr.Nesting
import CallScript.Proofs.Source.Grammar
import CallScript.Source.Parse

/-! # The reader accepts the grammar

One direction follows the derivation of an expression: reading it takes the machine from before the
expression to behind it, whatever the stack holds (`ExprAt.run_eq`). The other follows the run of the
machine. `Continues` says what a stack still demands of the text, and each step that the machine makes
adds one rule of the grammar to that (`Accepts.of_step`). -/

namespace CallScript.Source

variable {options : Options}

/-! ## Runs over one token -/

theorem run_of_step {state next : State} {token : Token} {text start after : List Char}
    (good : token ≠ .bad) (layout : Layout options.comments text start)
    (taken : TokenAt start token after) (moves : step options.maxDepth state token = .move next) :
    run options state text = run options next after := by
  have h := (nextToken_eq_some_iff good).mpr ⟨layout, taken⟩
  rw [run]
  split
  next none => rw [h] at none; cases none
  next found =>
    rw [h] at found
    cases found
    rw [moves]

theorem run_of_layout {state : State} {text : List Char}
    (layout : Layout options.comments text []) :
    run options state text =
      match finish state with
      | .ok e => .ok (e, [])
      | .error fault => .error ⟨fault, []⟩ := by
  have h := nextToken_eq_none_iff.mpr layout
  rw [run]
  split
  next => rfl
  next found => rw [h] at found; cases found

/-! ## Derivations are read -/

theorem Atom.links_toExpr (a : Atom) : a.toExpr.links = 0 := by
  cases a <;> rfl

/-- The depth of an expression is that of the chain behind its atom. -/
theorem Atom.nesting_callAll (a : Atom) (lists : List (List Expr)) :
    (a.toExpr.callAll lists).nesting = Expr.chainNesting 0 lists := by
  have nesting : a.toExpr.nesting = 0 := by cases a <;> rfl
  rw [Expr.nesting_callAll, nesting, a.links_toExpr, Nat.zero_max]

-- The derivation drives the machine. Each kind of derivation says which state the machine is in
-- before and behind its text, so the cases chain up token by token.
mutual

/-- Reading an expression leaves the stack as it is. -/
theorem ExprAt.run_eq {text rest : List Char} {e : Expr} (h : ExprAt options.comments text e rest)
    (stack : List Frame) (fits : startDepth stack + e.nesting ≤ options.maxDepth) :
    run options (.before stack) text =
      run options (.after e (startDepth stack + e.links) stack) rest := by
  match h with
  | @ExprAt.intro _ _ _ _ _ a lists before atom chain =>
    rw [a.nesting_callAll, Expr.add_chainNesting_le_iff, Nat.add_zero] at fits
    rw [run_of_step (by simp) before (.atom atom) rfl, chain.run_eq _ _ stack fits.2,
      Expr.links_callAll, a.links_toExpr, Nat.zero_add]

theorem ChainAt.run_eq {text rest : List Char} {lists : List (List Expr)}
    (h : ChainAt options.comments text lists rest) (e : Expr) (depth : Nat) (stack : List Frame)
    (fits : Expr.chainNesting depth lists ≤ options.maxDepth) :
    run options (.after e depth stack) text =
      run options (.after (e.callAll lists) (depth + lists.length) stack) rest := by
  match h with
  | .nil => rfl
  | @ChainAt.cons _ _ _ _ _ args lists opens list chain =>
    rw [Expr.chainNesting, Nat.max_le] at fits
    have moves : step options.maxDepth (.after e depth stack) .opening =
        .move (.before (⟨e, depth + 1, []⟩ :: stack)) := by
      simp only [step]
      rw [if_neg (by omega)]
    rw [run_of_step (by simp) opens .opening moves, list.run_eq _ stack fits.1,
      chain.run_eq _ _ stack fits.2, Expr.callAll_cons, List.length_cons]
    simp only [List.reverse_nil, List.nil_append]
    congr 2
    omega

theorem ArgsAt.run_eq {text rest : List Char} {es : List Expr}
    (h : ArgsAt options.comments text es rest) (frame : Frame) (stack : List Frame)
    (fits : frame.depth + Expr.nestingAll es ≤ options.maxDepth) :
    run options (.before (frame :: stack)) text =
      run options (.after (.call frame.operator (frame.args.reverse ++ es)) frame.depth stack)
        rest := by
  match h with
  | .empty closes =>
    rw [run_of_step (by simp) closes .closing rfl, Frame.close, List.append_nil]
  | @ArgsAt.some _ _ _ _ e es first more =>
    rw [Expr.nestingAll, ← Nat.add_max_add_left, Nat.max_le] at fits
    rw [first.run_eq (frame :: stack) fits.1, more.run_eq e _ frame stack fits.2]

theorem MoreAt.run_eq {text rest : List Char} {es : List Expr}
    (h : MoreAt options.comments text es rest) (e : Expr) (depth : Nat) (frame : Frame)
    (stack : List Frame) (fits : frame.depth + Expr.nestingAll es ≤ options.maxDepth) :
    run options (.after e depth (frame :: stack)) text =
      run options (.after (.call frame.operator (frame.args.reverse ++ e :: es)) frame.depth stack)
        rest := by
  match h with
  | .close closes =>
    rw [run_of_step (by simp) closes .closing rfl, Frame.close, Frame.push, List.reverse_cons]
  | .trailing separates closes =>
    rw [run_of_step (by simp) separates .comma rfl, run_of_step (by simp) closes .closing rfl,
      Frame.close, Frame.push, List.reverse_cons]
  | @MoreAt.next _ _ _ _ _ next es separates arg more =>
    rw [Expr.nestingAll, ← Nat.add_max_add_left, Nat.max_le] at fits
    rw [run_of_step (by simp) separates .comma rfl, arg.run_eq (frame.push e :: stack) fits.1,
      more.run_eq next _ (frame.push e) stack fits.2]
    simp [Frame.push]

end

/-! ## What a run reads is derived -/

/-- After `e` has been read `depth` levels down, the text goes on with the argument lists of its
chain, the other arguments of the innermost open list, and so on outwards, up to `rest`. -/
def Continues (options : Options) :
    List Frame → Expr → Nat → List Char → Expr → List Char → Prop
  | [], e, depth, text, result, rest =>
    ∃ lists middle, ChainAt options.comments text lists middle ∧
      Expr.chainNesting depth lists ≤ options.maxDepth ∧ Layout options.comments middle rest ∧
      result = e.callAll lists
  | frame :: stack, e, depth, text, result, rest =>
    ∃ lists middle es behind, ChainAt options.comments text lists middle ∧
      Expr.chainNesting depth lists ≤ options.maxDepth ∧
      MoreAt options.comments middle es behind ∧
      frame.depth + Expr.nestingAll es ≤ options.maxDepth ∧
      Continues options stack (.call frame.operator (frame.args.reverse ++ e.callAll lists :: es))
        frame.depth behind result rest

/-- What the text holds from a state of the machine on. -/
def Accepts (options : Options) : State → List Char → Expr → List Char → Prop
  | .before [], text, result, rest =>
    ∃ middle, ExprAt options.comments text result middle ∧ result.nesting ≤ options.maxDepth ∧
      Layout options.comments middle rest
  | .before (frame :: stack), text, result, rest =>
    ∃ es behind, ArgsAt options.comments text es behind ∧
      frame.depth + Expr.nestingAll es ≤ options.maxDepth ∧
      Continues options stack (.call frame.operator (frame.args.reverse ++ es)) frame.depth behind
        result rest
  | .after e depth stack, text, result, rest => Continues options stack e depth text result rest

variable {text rest : List Char} {result : Expr}

/-- An argument list in front of what continues a call is one more list of its chain. -/
theorem Continues.of_list {e : Expr} {depth : Nat} {stack : List Frame} {args : List Expr}
    {inner behind : List Char} (opens : Layout options.comments text ('(' :: inner))
    (list : ArgsAt options.comments inner args behind)
    (fits : depth + 1 + Expr.nestingAll args ≤ options.maxDepth)
    (h : Continues options stack (.call e args) (depth + 1) behind result rest) :
    Continues options stack e depth text result rest := by
  cases stack with
  | nil =>
    obtain ⟨lists, middle, chain, bound, layout, rfl⟩ := h
    exact ⟨args :: lists, middle, .cons opens list chain, Nat.max_le.mpr ⟨fits, bound⟩, layout, rfl⟩
  | cons frame stack =>
    obtain ⟨lists, middle, es, after, chain, bound, more, frameBound, h⟩ := h
    exact ⟨args :: lists, middle, es, after, .cons opens list chain, Nat.max_le.mpr ⟨fits, bound⟩,
      more, frameBound, h⟩

/-- The argument lists that are open in a state. -/
def State.stack : State → List Frame
  | .before stack => stack
  | .after _ _ stack => stack

/-- The machine opens no argument list below the limit. -/
def State.Fits (limit : Nat) (state : State) : Prop :=
  ∀ frame ∈ state.stack, frame.depth ≤ limit

theorem State.Fits.of_step {limit : Nat} {state next : State} {token : Token}
    (fits : state.Fits limit) (moves : step limit state token = .move next) : next.Fits limit := by
  revert moves fits
  fun_cases step limit state token with
  | case3 | case4 | case8 | case9 => intro _ moves; cases moves
  | case1 => intro fits moves; cases moves; exact fits
  | case2 frame stack | case7 e depth frame stack =>
    intro fits moves f hf
    cases moves
    exact fits f (List.mem_cons_of_mem _ hf)
  | case5 e depth stack below =>
    intro fits moves f hf
    cases moves
    rcases List.mem_cons.mp hf with rfl | hf
    · exact Nat.succ_le_of_lt (Nat.lt_of_not_le below)
    · exact fits f hf
  | case6 e depth frame stack =>
    intro fits moves f hf
    cases moves
    rcases List.mem_cons.mp hf with rfl | hf
    · exact fits frame List.mem_cons_self
    · exact fits f (List.mem_cons_of_mem _ hf)

/-- An atom in front of what continues it starts an expression. -/
theorem Accepts.of_atom {stack : List Frame} {a : Atom} {start after : List Char}
    (fits : ∀ frame ∈ stack, frame.depth ≤ options.maxDepth)
    (layout : Layout options.comments text start) (atom : AtomAt start a after)
    (h : Continues options stack a.toExpr (startDepth stack) after result rest) :
    Accepts options (.before stack) text result rest := by
  cases stack with
  | nil =>
    obtain ⟨lists, middle, chain, bound, behind, rfl⟩ := h
    refine ⟨middle, .intro layout atom chain, ?_, behind⟩
    rw [a.nesting_callAll]
    exact bound
  | cons frame stack =>
    obtain ⟨lists, middle, es, behind, chain, bound, more, frameBound, h⟩ := h
    refine ⟨_ :: es, behind, .some (.intro layout atom chain) more, ?_, h⟩
    rw [Expr.nestingAll, ← Nat.add_max_add_left, Nat.max_le]
    refine ⟨?_, frameBound⟩
    rw [a.nesting_callAll, Expr.add_chainNesting_le_iff]
    exact ⟨fits frame List.mem_cons_self, bound⟩

theorem Accepts.of_step {state next : State} {token : Token} {start after : List Char}
    (fits : state.Fits options.maxDepth) (layout : Layout options.comments text start)
    (taken : TokenAt start token after) (moves : step options.maxDepth state token = .move next)
    (h : Accepts options next after result rest) : Accepts options state text result rest := by
  revert moves fits
  fun_cases step options.maxDepth state token with
  | case3 | case4 | case8 | case9 => intro _ moves; cases moves
  | case1 stack a =>
    intro fits moves
    cases moves
    cases taken with
    | atom atom => exact .of_atom fits layout atom h
  | case2 frame stack =>
    intro fits moves
    cases moves
    cases taken with
    | closing =>
      refine ⟨[], after, .empty layout, fits frame List.mem_cons_self, ?_⟩
      rwa [List.append_nil]
  | case5 e depth stack below =>
    intro _ moves
    cases moves
    cases taken with
    | opening =>
      obtain ⟨args, behind, list, bound, h⟩ := h
      exact .of_list layout list bound (by simpa using h)
  | case6 e depth frame stack =>
    intro _ moves
    cases moves
    cases taken with
    | comma =>
      obtain ⟨es, behind, list, bound, h⟩ := h
      -- a comma in front of the closing parenthesis ends the list, otherwise the list goes on
      have more : MoreAt options.comments text es behind := by
        cases list with
        | empty closes => exact .trailing layout closes
        | some first more => exact .next layout first more
      exact ⟨[], text, es, behind, .nil, Nat.zero_le _, more, bound, by simpa [Frame.push] using h⟩
  | case7 e depth frame stack =>
    intro fits moves
    cases moves
    cases taken with
    | closing =>
      refine ⟨[], text, [], after, .nil, Nat.zero_le _, .close layout,
        fits frame List.mem_cons_self, ?_⟩
      simpa [Frame.push, Frame.close, Accepts] using h

/-- The machine goes on over tokens only, and stops only behind a whole expression. -/
theorem ne_bad_of_move {limit : Nat} {state next : State} {token : Token}
    (moves : step limit state token = .move next) : token ≠ .bad := by
  intro bad
  subst bad
  cases state with
  | before stack => cases stack <;> cases moves
  | after e depth stack => cases stack <;> cases moves

theorem state_of_stop {limit : Nat} {state : State} {token : Token} {e : Expr}
    (stops : step limit state token = .stop e) : ∃ depth, state = .after e depth [] := by
  revert stops
  fun_cases step limit state token <;> simp

theorem state_of_finish {state : State} {e : Expr} (ends : finish state = .ok e) :
    ∃ depth, state = .after e depth [] := by
  revert ends
  fun_cases finish state <;> simp

/-- What the machine reads from a state on is what the text holds. -/
theorem accepts_of_run {state : State} (fits : state.Fits options.maxDepth)
    (h : run options state text = .ok (result, rest)) : Accepts options state text result rest := by
  -- the induction follows the run; a move adds one rule to what is accepted from the next state
  fun_induction run options state text with
  | case1 state text none e ends =>
    obtain ⟨rfl, rfl⟩ : e = result ∧ [] = rest := by simpa using h
    obtain ⟨depth, rfl⟩ := state_of_finish ends
    exact ⟨[], text, .nil, Nat.zero_le _, nextToken_eq_none_iff.mp none, rfl⟩
  | case2 | case5 => cases h
  | case3 state text token start after found next moves ih =>
    obtain ⟨layout, taken⟩ := (nextToken_eq_some_iff (ne_bad_of_move moves)).mp found
    exact .of_step fits layout taken moves (ih (fits.of_step moves) h)
  | case4 state text token start after found e stops =>
    obtain ⟨rfl, rfl⟩ : e = result ∧ start = rest := by simpa using h
    obtain ⟨depth, rfl⟩ := state_of_stop stops
    exact ⟨[], text, .nil, Nat.zero_le _, (layout_of_nextToken found).1, rfl⟩

/-! ## Programs -/

theorem runProgram_eq_ok_iff {e : Expr} :
    runProgram options text = .ok e ↔
      IsProgram options.comments text e ∧ e.nesting ≤ options.maxDepth := by
  constructor
  · intro h
    rw [runProgram] at h
    split at h
    next read =>
      obtain rfl : _ = e := by simpa using h
      have start : State.Fits options.maxDepth (.before []) := by simp [State.Fits, State.stack]
      obtain ⟨rest, derived, fits, layout⟩ := accepts_of_run start read
      exact ⟨⟨rest, derived, layout⟩, fits⟩
    all_goals cases h
  · rintro ⟨⟨rest, derived, layout⟩, fits⟩
    have read := derived.run_eq [] (by simpa [startDepth] using fits)
    rw [run_of_layout layout] at read
    rw [runProgram, read]
    rfl

theorem parseWith_eq_runProgram {text : String} {e : Expr} :
    parseWith options text = .ok e ↔ runProgram options text.toList = .ok e := by
  rw [parseWith]
  cases runProgram options text.toList <;> simp [Except.mapError]

/-- A text is read as a tree exactly if the grammar derives the tree from it and the tree's argument
lists stay within the limit. -/
theorem parseWith_eq_ok_iff (options : Options) (text : String) (e : Expr) :
    parseWith options text = .ok e ↔
      IsProgram options.comments text.toList e ∧ e.nesting ≤ options.maxDepth := by
  rw [parseWith_eq_runProgram, runProgram_eq_ok_iff]

end CallScript.Source
